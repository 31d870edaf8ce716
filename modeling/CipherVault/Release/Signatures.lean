import CipherVault.Migrate.Dotenv

/-!
# Release.Signatures

Signatures of releases: `release_signing_message` and `verify_release_signature` of
`apps/cli/src/commands/update.rs`, and `cmd_release_sign` of `release.rs`. Refusals are not told
apart.
-/

namespace CipherVault.Release

open Crypto Network Migrate List

structure Ed25519 where
  publicKey : Bytes → Bytes
  isPoint : Bytes → Bool
  sign : Bytes → Bytes → Bytes
  verifyStrict : Bytes → Bytes → Bytes → Bool

def releaseSigVersion : Text := "CIPHERVAULT-RELEASE-SIG-V2".toList

def legacyReleaseSigVersion : Text := "CIPHERVAULT-RELEASE-SIG-V1".toList

/-- The tag and the checksums, under one version line. -/
def releaseSigningMessage (tag : Text) (sums : Bytes) : Option Bytes :=
  if tag = [] ∨ (utf8 tag).length > 128 ∨
    !tag.all fun c => c.isAlphanum || ['.', '_', '-'].contains c then none
  else some (utf8 (releaseSigVersion ++ "\ntag: ".toList) ++ (utf8 tag ++ (utf8 ['\n'] ++ sums)))

def decodeCanonicalHex (field : Text) (len : Nat) : Option Bytes :=
  (Hex.decode field).filter fun bytes => bytes.length == len && Hex.encode bytes == field

def renderReleaseSignature (tag keyId signatureHex : Text) : Text :=
  releaseSigVersion ++ "\ntag: ".toList ++ tag ++ "\nkey-id: ".toList ++ keyId ++ "\nsignature: ".toList ++
    signatureHex ++ ['\n']

def envelopeLines (sigText : Text) : List Text :=
  (sigText.rdropWhile fun c => c == '\r' || c == '\n').splitOn '\n'

variable (X : Ed25519) (trusted : List (Text × Text)) (legacyAllowed : Bool)

/-- `verify_release_signature_with_keys`: the key id, if the signature is accepted. `trusted` are
the keys by their ids. -/
def verifyReleaseSignature (sums : Bytes) (sigText expectedTag : Text) : Option Text :=
  match envelopeLines sigText with
  | [version, tagLine, keyLine, signatureLine] =>
    let legacy := version == legacyReleaseSigVersion
    if (version ≠ releaseSigVersion ∧ !legacy) ∨ (legacy ∧ !legacyAllowed) then none
    else do
      let tag ← stripStart "tag: ".toList tagLine
      if tag = [] ∨ tag ≠ expectedTag then none
      else
        let keyId ← stripStart "key-id: ".toList keyLine
        let _ ← decodeCanonicalHex keyId 8
        let key ← trusted.find? fun key => key.1 == keyId
        let signatureHex ← stripStart "signature: ".toList signatureLine
        let signature ← decodeCanonicalHex signatureHex 64
        let pubkey ← decodeCanonicalHex key.2 32
        let message := if legacy then some sums else releaseSigningMessage tag sums
        if X.isPoint pubkey && message.any fun m => X.verifyStrict pubkey m signature then
          some keyId else none
  | _ => none

/-- The envelope for a seed and the bytes of the checksum file. -/
def cmdReleaseSign (tag : Text) (seed sums : Bytes) : Option Text := do
  if trim tag = [] then none
  let pubkeyHex := Hex.encode (X.publicKey seed)
  if !trusted.any fun key => key.2 == pubkeyHex then none
  let message ← releaseSigningMessage (trim tag) sums
  let envelope := renderReleaseSignature (trim tag) (pubkeyHex.take 16) (Hex.encode (X.sign seed message))
  let _ ← verifyReleaseSignature X trusted legacyAllowed sums envelope (trim tag)
  return envelope

variable {tag : Text} {sums : Bytes}

theorem releaseSigningMessage_inj {tag' : Text} {sums' message : Bytes}
    (h : releaseSigningMessage tag sums = some message)
    (h' : releaseSigningMessage tag' sums' = some message) : tag' = tag ∧ sums' = sums := by
  have hline : ∀ {tag sums message}, releaseSigningMessage tag sums = some message → '\n' ∉ tag ∧
      message = utf8 (releaseSigVersion ++ "\ntag: ".toList) ++ (utf8 tag ++ (utf8 ['\n'] ++ sums)) := by
    intro tag sums message h
    rw [releaseSigningMessage] at h
    split at h
    · cases h
    · next hv =>
      refine ⟨fun hmem => hv (.inr (.inr ?_)), (Option.some.inj h).symm⟩
      simpa using ⟨'\n', hmem, by decide⟩
  obtain ⟨htag, rfl⟩ := hline h
  obtain ⟨htag', heq⟩ := hline h'
  exact (Utf8.encodeText_separated htag htag' (append_cancel_left heq)).imp Eq.symm Eq.symm

variable {X trusted legacyAllowed}

/-- The bytes that an envelope with this first line is verified against. -/
def verifiedMessage (sigText tag : Text) (sums : Bytes) : Option Bytes :=
  if (envelopeLines sigText).head? = some legacyReleaseSigVersion then some sums
  else releaseSigningMessage tag sums

/-- What an accepted envelope says. -/
theorem of_verifyReleaseSignature {signature : Bytes} {sigText keyId : Text}
    (h : verifyReleaseSignature X trusted legacyAllowed sums sigText tag = some keyId)
    (hcarries : (envelopeLines sigText).getLast? =
      some ("signature: ".toList ++ Hex.encode signature)) :
    ((envelopeLines sigText).head? = some legacyReleaseSigVersion → legacyAllowed = true) ∧
      ∃ pubkey message, verifiedMessage sigText tag sums = some message ∧
        X.verifyStrict pubkey message signature = true := by
  unfold verifyReleaseSignature at h
  split at h
  · next version tagLine keyLine signatureLine hlines =>
    rw [hlines] at hcarries
    simp only [verifiedMessage, hlines, head?_cons, Option.some.injEq]
    have hla : signatureLine = "signature: ".toList ++ Hex.encode signature := by
      simpa using hcarries
    dsimp only at h
    split at h
    · cases h
    next hpol =>
    have hlegacy : version = legacyReleaseSigVersion → legacyAllowed = true := by
      intro hversion
      by_contra hoff
      exact hpol (.inr ⟨by simpa using hversion, by simpa using hoff⟩)
    obtain ⟨tag', -, h⟩ := Option.bind_eq_some_iff.mp h
    obtain ⟨htag, h⟩ := Option.ite_none_left_eq_some.mp h
    obtain ⟨keyId, -, h⟩ := Option.bind_eq_some_iff.mp h
    obtain ⟨-, -, h⟩ := Option.bind_eq_some_iff.mp h
    obtain ⟨key, -, h⟩ := Option.bind_eq_some_iff.mp h
    obtain ⟨signatureHex, hhex, h⟩ := Option.bind_eq_some_iff.mp h
    obtain ⟨bytes, hb, h⟩ := Option.bind_eq_some_iff.mp h
    obtain ⟨pubkey, -, h⟩ := Option.bind_eq_some_iff.mp h
    obtain rfl : tag' = tag := by_contra fun hne => htag (.inr hne)
    obtain rfl : Hex.encode signature = signatureHex := by
      rw [hla, stripStart, if_pos ( isPrefixOf_iff_prefix.mpr (prefix_append _ _)),
        drop_left] at hhex
      exact Option.some.inj hhex
    rw [decodeCanonicalHex, Hex.decode_encode] at hb
    obtain rfl := Option.some.inj (Option.filter_eq_some_iff.mp hb).1
    simp only [Option.ite_none_right_eq_some, Bool.and_eq_true, beq_iff_eq] at h
    obtain ⟨message, hmessage, hverified⟩ := (Option.any_eq_true _ _).mp h.1.2
    exact ⟨hlegacy, pubkey, message, hmessage, hverified⟩
  · cases h

/-- The bytes that are signed for a release. -/
def signedMessage (tag : Text) (sums : Bytes) : Bytes := (releaseSigningMessage (trim tag) sums).getD []

theorem signedMessage_of_sign {seed : Bytes}
    (h : (cmdReleaseSign X trusted legacyAllowed tag seed sums).isSome = true) :
    releaseSigningMessage (trim tag) sums = some (signedMessage tag sums) := by
  rw [signedMessage]
  cases hmes : releaseSigningMessage (trim tag) sums with
  | none => simp [cmdReleaseSign, hmes] at h
  | some message => rfl

theorem length_lt_signedMessage {message : Bytes}
    (h : releaseSigningMessage tag sums = some message) : sums.length < message.length := by
  rw [releaseSigningMessage] at h
  split at h
  · cases h
  · cases h
    have hnewline : (utf8 ['\n']).length = 1 := by decide
    rw [length_append, length_append, length_append, hnewline]
    omega

/-- Whoever accepts the signature of a release has the checksums and the tag that were signed
exactly when the legacy policy is off or the envelope is not of the first version. In the other case
the checksums are the signed message. -/
theorem one_release_per_signature (X : Ed25519) (trusted : List (Text × Text)) (policy legacyAllowed : Bool)
    (tag : Text) (seed sums : Bytes) (hsigned : (cmdReleaseSign X trusted policy tag seed sums).isSome = true)
    (hbinds : ∀ pubkey m, X.verifyStrict pubkey m (X.sign seed (signedMessage tag sums)) = true →
      m = signedMessage tag sums) (sums' : Bytes) (sigText tag' : Text)
    (haccepted : (verifyReleaseSignature X trusted legacyAllowed sums' sigText tag').isSome = true)
    (hcarries : (envelopeLines sigText).getLast? =
      some ("signature: ".toList ++ Hex.encode (X.sign seed (signedMessage tag sums)))) :
    (sums' = sums ∧ tag' = trim tag ↔
      ((envelopeLines sigText).head? = some legacyReleaseSigVersion → legacyAllowed = false)) ∧
      ((envelopeLines sigText).head? = some legacyReleaseSigVersion →
        sums' = signedMessage tag sums) := by
  obtain ⟨keyId, haccepted⟩ := Option.isSome_iff_exists.mp haccepted
  obtain ⟨hlegacy, pubkey, m, hm, hver⟩ := of_verifyReleaseSignature haccepted hcarries
  have hmessage := signedMessage_of_sign hsigned
  rw [hbinds pubkey m hver, verifiedMessage] at hm
  by_cases hfirst : (envelopeLines sigText).head? = some legacyReleaseSigVersion
  · rw [if_pos hfirst] at hm
    have hsums := Option.some.inj hm
    refine ⟨⟨fun hsame => ?_, fun hoff => ?_⟩, fun _ => hsums⟩
    · have hlonger := length_lt_signedMessage hmessage
      rw [← hsums, hsame.1] at hlonger
      exact absurd hlonger (Nat.lt_irrefl _)
    · exact absurd (hlegacy hfirst) (by simp [hoff hfirst])
  · rw [if_neg hfirst] at hm
    exact ⟨⟨fun _ h => absurd h hfirst, fun _ => (releaseSigningMessage_inj hmessage hm).symm⟩,
      fun h => absurd h hfirst⟩

namespace Legacy

def message : Bytes := signedMessage "v2".toList [1#8]

/-- Keys that accept one message. -/
def keys : Ed25519 where
  publicKey _ := replicate 32 7#8
  isPoint _ := true
  sign _ _ := replicate 64 9#8
  verifyStrict _ m _ := m == message

def pinned : List (Text × Text) := [(Hex.encode (replicate 8 7#8), Hex.encode (replicate 32 7#8))]

def envelope (version tag : Text) : Text :=
  version ++ "\ntag: ".toList ++ tag ++ "\nkey-id: ".toList ++ Hex.encode (replicate 8 7#8) ++
    "\nsignature: ".toList ++ Hex.encode (keys.sign [] message)

theorem binds (pubkey m : Bytes) (h : keys.verifyStrict pubkey m (keys.sign [] message) = true) :
    m = message := by
  simpa [keys] using h

/-- With the legacy policy, what was signed for `v2` is accepted as the checksum file of any other
tag. -/
theorem accepted_for_another_tag :
    (cmdReleaseSign keys pinned false "v2".toList [] [1#8]).isSome = true ∧
      (∀ pubkey m, keys.verifyStrict pubkey m (keys.sign [] message) = true → m = message) ∧
      (envelopeLines (envelope legacyReleaseSigVersion "v9".toList)).getLast? =
        some ("signature: ".toList ++ Hex.encode (keys.sign [] message)) ∧
      (verifyReleaseSignature keys pinned true message (envelope legacyReleaseSigVersion "v9".toList)
        "v9".toList).isSome = true ∧ message ≠ [1#8] :=
  ⟨by decide +kernel, binds, by decide +kernel, by decide +kernel, by decide +kernel⟩

theorem accepted_for_its_tag :
    (verifyReleaseSignature keys pinned true [1#8] (envelope releaseSigVersion "v2".toList)
        "v2".toList).isSome = true ∧
      [1#8] = [1#8] ∧ "v2".toList = trim "v2".toList := by
  have haccepted : (verifyReleaseSignature keys pinned true [1#8]
      (envelope releaseSigVersion "v2".toList) "v2".toList).isSome = true := by decide +kernel
  exact ⟨haccepted, (one_release_per_signature keys pinned false true "v2".toList [] [1#8]
    (by decide +kernel) binds [1#8] (envelope releaseSigVersion "v2".toList) "v2".toList haccepted
    (by decide +kernel)).1.mpr fun h => absurd h (by decide +kernel)⟩

end Legacy

end CipherVault.Release
