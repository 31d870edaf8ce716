import CipherVault.Base.Hex
import CipherVault.Base.Result
import CipherVault.Base.Utf8
import CipherVault.Format.Lawful
import CipherVault.Snapshot.FastCdc
import Mathlib.Data.List.DropRight

/-!
# Network.Invites

The admission tickets of `crates/storage/src/invites.rs`: tickets of one issuer, and tickets that a
quorum of fleet keys approves.
-/

namespace CipherVault.Network

open Crypto Format List Nat

structure StorageError where
  status : Nat
  message : String
deriving DecidableEq

def StorageError.display (e : StorageError) : String := s!"Server returned error {e.status}: {e.message}"

def forbidden (message : String) : StorageError := { status := 403, message := message }

def utf8 (text : Text) : Bytes := text.flatMap fun c => (String.utf8EncodeChar c).map UInt8.toBitVec

def trim (text : Text) : Text :=
  ((text.dropWhile Snapshot.isWhiteSpace).reverse.dropWhile Snapshot.isWhiteSpace).reverse

theorem isWhiteSpace_of_digit {c : Char} (h : (Hex.value c).isSome = true) :
    Snapshot.isWhiteSpace c = false := by
  have hrange : 48 ≤ c.toNat ∧ c.toNat ≤ 102 := by
    unfold Hex.value at h
    split at h
    · omega
    · split at h
      · omega
      · split at h
        · omega
        · cases h
  rw [Bool.eq_false_iff]
  unfold Snapshot.isWhiteSpace
  simp only [ne_eq, Bool.or_eq_true, Bool.and_eq_true, decide_eq_true_eq, beq_iff_eq]
  omega

variable {text field : Text} {bytes : Bytes} {what : String} {len now : Nat} {invite : JoinInvite}

theorem trim_eq_self (h : ∀ c ∈ text, Snapshot.isWhiteSpace c = false) : trim text = text := by
  have hdrop : ∀ l : Text, (∀ c ∈ l, Snapshot.isWhiteSpace c = false) →
    l.dropWhile Snapshot.isWhiteSpace = l := by
    intro l hl
    cases l with
    | nil => rfl
    | cons c rest => rw [dropWhile_cons_of_neg (Bool.eq_false_iff.mp (hl c mem_cons_self))]
  rw [trim, hdrop text h, hdrop text.reverse fun c hc => h c (mem_reverse.mp hc), reverse_reverse]

theorem trim_trim (text : Text) : trim (trim text) = trim text := by
  have hshape : ∀ l : Text, trim l = (l.dropWhile Snapshot.isWhiteSpace).rdropWhile
    Snapshot.isWhiteSpace := fun _ => rfl
  -- what is left has no white space in front, since it begins as before
  have hfront : (trim text).dropWhile Snapshot.isWhiteSpace = trim text := by
    rw [dropWhile_eq_self_iff]
    intro hlen
    have hpre : trim text <+: text.dropWhile Snapshot.isWhiteSpace := by
      exact rdropWhile_prefix _ _
    have hpos : 0 < (text.dropWhile Snapshot.isWhiteSpace).length := lt_of_lt_of_le hlen hpre.length_le
    have hh := dropWhile_get_zero_not Snapshot.isWhiteSpace text hpos
    rw [hpre.getElem hlen]
    exact hh
  rw [hshape (trim text), hfront, hshape, rdropWhile_idempotent]

theorem trim_of_decode (h : Hex.decode text = some bytes) : trim text = text :=
  trim_eq_self fun c hc => isWhiteSpace_of_digit (Hex.digits_of_decode h c hc)

def eqIgnoreAsciiCase (a b : Text) : Bool := Hex.lower a == Hex.lower b

def decodeHexField (subject : String) (field : Text) (what : String) (len : Nat) :
    Except StorageError Bytes :=
  match Hex.decode field with
  | none => .error (forbidden (subject ++ " " ++ what ++ " must be hex"))
  | some bytes =>
    if bytes.length ≠ len then .error (forbidden s!"{subject} {what} must be {len} bytes")
    else if Hex.encode bytes ≠ field then
      .error (forbidden (subject ++ " " ++ what ++ " must be lowercase hex"))
    else .ok bytes

def decodeCanonicalHex (field : Text) (what : String) (len : Nat) : Except StorageError Bytes :=
  decodeHexField "invite" field what len

theorem decodeHexField_eq_ok {subject : String} :
    decodeHexField subject field what len = .ok bytes ↔ field = Hex.encode bytes ∧ bytes.length = len := by
  unfold decodeHexField
  cases hdec : Hex.decode field with
  | none =>
    constructor
    · nofun
    · intro h
      rw [h.1, Hex.decode_encode] at hdec
      cases hdec
  | some decoded =>
    simp only [ite_error_eq_ok, not_not, Except.ok.injEq]
    constructor
    · rintro ⟨hlen, hcan, rfl⟩
      exact ⟨hcan.symm, hlen⟩
    · rintro ⟨hfield, hlen⟩
      rw [hfield, Hex.decode_encode] at hdec
      cases hdec
      exact ⟨hlen, hfield.symm, rfl⟩

theorem decodeCanonicalHex_eq_ok :
    decodeCanonicalHex field what len = .ok bytes ↔ field = Hex.encode bytes ∧ bytes.length = len :=
  decodeHexField_eq_ok

def inviteVersion : Nat := 1

def inviteVersionV2 : Nat := 2

structure InviteSignature where
  (signerPkHex signatureHex : Text)
deriving DecidableEq

structure JoinInvite where
  version : Nat
  (issuerPkHex nodePkHex : Text)
  expiresUtc : Nat
  (nonceHex signatureHex : Text)
  signatures : List InviteSignature
deriving DecidableEq

structure InviteRequest where
  nodePkHex : Text
  expiresUtc : Nat
  nonceHex : Text
deriving DecidableEq

structure InviteApproval where
  request : InviteRequest
  (signerPkHex signatureHex : Text)

def inviteContext : Bytes := ascii "operator_join_invite"

def JoinInvite.signingBytes (invite : JoinInvite) : Bytes :=
  ascii "ciphervault-join-invite-v1:" ++
    (leBytes 4 invite.version ++ ascii ":" ++ utf8 invite.issuerPkHex ++ ascii ":" ++
    utf8 invite.nodePkHex ++ ascii ":" ++ leBytes 8 invite.expiresUtc ++ ascii ":" ++ utf8 invite.nonceHex)

def quorumSigningBytes (nodePkHex : Text) (expiresUtc : Nat) (nonceHex : Text) : Bytes :=
  ascii "ciphervault-join-invite-v2:" ++
    (leBytes 4 inviteVersionV2 ++ ascii ":" ++ utf8 nodePkHex ++ ascii ":" ++
    leBytes 8 expiresUtc ++ ascii ":" ++ utf8 nonceHex)

variable (E : Externals)

def verifyInviteSignature (pk body signature : Bytes) : Except StorageError Unit :=
  (verifyWithDomain E pk inviteContext body signature).mapError fun _ =>
    forbidden "invite signature verification failed"

/-- `JoinInvite::issue` with the random nonce and the clock. -/
def JoinInvite.issue (issuer : Bytes) (nodePkHex : Text) (ttlSecs : Nat) (nonce : Bytes) (now : Nat) :
    Except StorageError JoinInvite :=
  match Hex.decode nodePkHex with
  | none => .error (forbidden "invite node key must be hex")
  | some node =>
    if node.length ≠ 32 then .error (forbidden "invite node key must be 32 bytes")
    else if ttlSecs = 0 then .error (forbidden "invite TTL must be positive")
    else
      let invite : JoinInvite :=
        { version := inviteVersion, issuerPkHex := Hex.encode (E.ed25519Public issuer), nodePkHex := nodePkHex
          expiresUtc := min (now + ttlSecs) (2 ^ 64 - 1), nonceHex := Hex.encode nonce, signatureHex := []
          signatures := [] }
      .ok { invite with
        signatureHex := Hex.encode (signWithDomain E issuer inviteContext invite.signingBytes) }

def JoinInvite.verify (invite : JoinInvite) (expectedIssuerPkHex : Text) (now : Nat) :
    Except StorageError Unit :=
  if invite.version ≠ inviteVersion then .error (forbidden s!"unsupported invite version {invite.version}")
  else if invite.signatures ≠ [] then .error (forbidden "v1 invite must not carry quorum signatures")
  else if !eqIgnoreAsciiCase invite.issuerPkHex expectedIssuerPkHex then
    .error (forbidden "invite issuer mismatch")
  else do
    let issuer ← decodeCanonicalHex invite.issuerPkHex "issuer key" 32
    let _ ← decodeCanonicalHex invite.nodePkHex "node key" 32
    let _ ← decodeCanonicalHex invite.nonceHex "nonce" 32
    let signature ← decodeCanonicalHex invite.signatureHex "signature" 64
    verifyInviteSignature E issuer invite.signingBytes signature
    if now > invite.expiresUtc then .error (forbidden "invite expired") else .ok ()

theorem JoinInvite.verify_unexpired {E : Externals} {expectedIssuerPkHex : Text}
    (h : invite.verify E expectedIssuerPkHex now = .ok ()) : now ≤ invite.expiresUtc := by
  simp only [JoinInvite.verify, ite_error_eq_ok, bind_eq_ok] at h
  obtain ⟨_, _, _, _, _, _, _, _, _, _, _, _, _, hexpiry, _⟩ := h
  exact le_of_not_gt hexpiry

def quorumDefault (setSize : Nat) : Nat := setSize / 2 + 1

section

variable (request : InviteRequest)

def InviteRequest.validate (now : Nat) : Except StorageError Unit := do
  let _ ← decodeCanonicalHex request.nodePkHex "node key" 32
  let _ ← decodeCanonicalHex request.nonceHex "nonce" 32
  if now > request.expiresUtc then .error (forbidden "invite expired") else .ok ()

def InviteRequest.body : Bytes :=
  quorumSigningBytes request.nodePkHex request.expiresUtc request.nonceHex

def combineApproval (acc : List Text × List InviteSignature)
    (approval : InviteApproval) : Except StorageError (List Text × List InviteSignature) :=
  if approval.request ≠ request then .error (forbidden "approval signs a different request")
  else do
    let signer ← decodeCanonicalHex approval.signerPkHex "signer key" 32
    if acc.1.contains (Hex.encode signer) then .error (forbidden "duplicate approval signer")
    else do
      let signature ← decodeCanonicalHex approval.signatureHex "signature" 64
      verifyInviteSignature E signer request.body signature
      return (acc.1 ++ [Hex.encode signer],
        acc.2 ++ [{ signerPkHex := Hex.encode signer, signatureHex := approval.signatureHex }])

/-- Combines approvals into a ticket. -/
def issueQuorum (approvals : List InviteApproval) (now : Nat) : Except StorageError JoinInvite := do
  request.validate now
  if approvals = [] then .error (forbidden "quorum ticket needs at least one approval")
  else do
    let acc ← approvals.foldlM (combineApproval E request) ([], [])
    return { version := inviteVersionV2, issuerPkHex := [], nodePkHex := request.nodePkHex
             expiresUtc := request.expiresUtc, nonceHex := request.nonceHex,
             signatureHex := [], signatures := acc.2 }

end

def pinnedKey (key : Text) : Except StorageError Text :=
  match Hex.decode (Hex.lower (trim key)) with
  | none => .error (forbidden "pinned fleet key must be hex")
  | some bytes =>
    if bytes.length ≠ 32 then .error (forbidden "pinned fleet key must be 32 bytes")
      else .ok (Hex.encode bytes)

def JoinInvite.body (invite : JoinInvite) : Bytes :=
  if invite.version = inviteVersion then invite.signingBytes
  else quorumSigningBytes invite.nodePkHex invite.expiresUtc invite.nonceHex

def JoinInvite.approvals (invite : JoinInvite) : Except StorageError (List InviteSignature) :=
  if invite.version = inviteVersion then
    if invite.signatures ≠ [] then .error (forbidden "v1 invite must not carry quorum signatures")
    else .ok [{ signerPkHex := invite.issuerPkHex, signatureHex := invite.signatureHex }]
  else if invite.issuerPkHex ≠ [] ∨ invite.signatureHex ≠ [] then
    .error (forbidden "v2 invite must not carry v1 issuer fields")
  else if invite.signatures = [] then .error (forbidden "v2 invite carries no signatures")
  else .ok invite.signatures

/-- One turn of the loop of `verify_quorum`. -/
def countApproval (set : List Text) (body : Bytes) (distinct : List Text) (approval : InviteSignature) :
    Except StorageError (List Text) := do
  let signer ← decodeCanonicalHex approval.signerPkHex "signer key" 32
  if !set.contains (Hex.encode signer) then .error (forbidden "invite signer not in fleet key set")
  else do
    let signature ← decodeCanonicalHex approval.signatureHex "signature" 64
    verifyInviteSignature E signer body signature
    return if distinct.contains (Hex.encode signer) then distinct else distinct ++ [Hex.encode signer]

/-- A ticket with enough approvals by pinned keys. -/
def JoinInvite.verifyQuorum (invite : JoinInvite) (pinnedKeys : List Text) (quorumK now : Nat) :
    Except StorageError (List Text) :=
  if invite.version ≠ inviteVersion ∧ invite.version ≠ inviteVersionV2 then
    .error (forbidden s!"unsupported invite version {invite.version}")
  else if pinnedKeys = [] then .error (forbidden "no fleet keys pinned")
  else if quorumK = 0 ∨ quorumK > pinnedKeys.length then .error (forbidden "invalid quorum threshold")
  else do
    let _ ← decodeCanonicalHex invite.nodePkHex "node key" 32
    let _ ← decodeCanonicalHex invite.nonceHex "nonce" 32
    let set ← pinnedKeys.mapM pinnedKey
    let approvals ← invite.approvals
    let distinct ← approvals.foldlM (countApproval E set invite.body) []
    if distinct.length < quorumK then
      .error (forbidden s!"invite quorum not reached (have {distinct.length} of {quorumK})")
    else if now > invite.expiresUtc then .error (forbidden "invite expired")
    else .ok distinct

theorem JoinInvite.verifyQuorum_unexpired {E : Externals} {pinnedKeys : List Text} {quorumK : Nat}
    {signers : List Text}
    (h : invite.verifyQuorum E pinnedKeys quorumK now = .ok signers) : now ≤ invite.expiresUtc := by
  simp only [JoinInvite.verifyQuorum, ite_error_eq_ok, bind_eq_ok] at h
  obtain ⟨_, _, _, _, _, _, _, _, _, _, _, _, _, _, hexpiry, _⟩ := h
  exact le_of_not_gt hexpiry

/-! ## What is checked of a signer -/

/-- A signature of the body, both in canonical spelling. -/
structure Approves (E : Externals) (body : Bytes) (approval : InviteSignature)
    (pk signature : Bytes) : Prop where
  signer : approval.signerPkHex = Hex.encode pk
  key : pk.length = 32
  spelling : approval.signatureHex = Hex.encode signature
  length : signature.length = 64
  verifies : E.ed25519Verify pk (signaturePayload inviteContext body) signature = true

section

variable {E : Externals} {body : Bytes} {set distinct : List Text}

theorem verifyInviteSignature_eq_ok {pk signature : Bytes} :
    verifyInviteSignature E pk body signature = .ok () ↔
      E.ed25519Verify pk (signaturePayload inviteContext body) signature = true := by
  rw [verifyInviteSignature, mapError_eq_ok, verifyWithDomain]
  split
  · rename_i h
    simp [h]
  · rename_i h
    simp [h]

theorem countApproval_eq_ok {approval : InviteSignature} {distinct' : List Text} :
    countApproval E set body distinct approval = .ok distinct' ↔
      (∃ pk signature, Approves E body approval pk signature) ∧ approval.signerPkHex ∈ set ∧
        distinct' = if distinct.contains approval.signerPkHex then distinct
          else distinct ++ [approval.signerPkHex] := by
  simp only [countApproval, bind_eq_ok, ite_error_eq_ok, pure_eq_ok, decodeCanonicalHex_eq_ok,
    Bool.not_eq_true', Bool.not_eq_false, contains_iff_mem]
  constructor
  · rintro ⟨pk, ⟨hsigner, hkey⟩, hset, signature, ⟨hspe, hlen⟩, _, hver, rfl⟩
    rw [← hsigner] at hset ⊢
    exact ⟨⟨pk, signature, hsigner, hkey, hspe, hlen, verifyInviteSignature_eq_ok.mp hver⟩, hset, rfl⟩
  · rintro ⟨⟨pk, signature, h⟩, hset, rfl⟩
    rw [h.signer] at hset ⊢
    exact ⟨pk, ⟨rfl, h.key⟩, hset, signature, ⟨h.spelling, h.length⟩, (),
      verifyInviteSignature_eq_ok.mpr h.verifies,
      rfl⟩

theorem combineApproval_eq_ok {request : InviteRequest} {acc : List Text × List InviteSignature}
    {approval : InviteApproval} {acc' : List Text × List InviteSignature}
    (h : combineApproval E request acc approval = .ok acc') :
    (∃ pk signature, Approves E request.body ⟨approval.signerPkHex, approval.signatureHex⟩ pk signature) ∧
      approval.signerPkHex ∉ acc.1 ∧
      acc' = (acc.1 ++ [approval.signerPkHex], acc.2 ++ [⟨approval.signerPkHex, approval.signatureHex⟩]) := by
  simp only [combineApproval, bind_eq_ok, ite_error_eq_ok, pure_eq_ok, decodeCanonicalHex_eq_ok,
    contains_iff_mem] at h
  obtain ⟨_, pk, ⟨hsigner, hkey⟩, hnew, signature, ⟨hspe, hlen⟩, _, hver, rfl⟩ := h
  rw [← hsigner] at hnew ⊢
  exact ⟨⟨pk, signature, hsigner, hkey, hspe, hlen, verifyInviteSignature_eq_ok.mp hver⟩, hnew, rfl⟩

theorem countApprovals_sound {signers : List Text} {approvals : List InviteSignature}
    (h : approvals.foldlM (countApproval E set body) [] = .ok signers) :
    signers.Nodup ∧ ∀ s ∈ signers, s ∈ set ∧
      ∃ approval ∈ approvals, approval.signerPkHex = s ∧ ∃ pk signature, Approves E body approval pk
        signature := by
  refine Result.foldlM_induct (P := fun signers => signers.Nodup ∧ ∀ s ∈ signers, s ∈ set ∧
    ∃ approval ∈ approvals, approval.signerPkHex = s ∧
      ∃ pk signature, Approves E body approval pk signature) ?_ ?_ h
  · intro distinct distinct' approval hmem ⟨hnd, hall⟩ hst
    obtain ⟨happ, hset, rfl⟩ := countApproval_eq_ok.mp hst
    split
    · exact ⟨hnd, hall⟩
    · rename_i hnew
      have hnew' : approval.signerPkHex ∉ distinct := fun hold => hnew (contains_iff_mem.mpr hold)
      refine ⟨nodup_append.mpr ⟨hnd, nodup_singleton _, ?_⟩, fun s hs => ?_⟩
      · intro a ha b hb hab
        rw [hab, mem_singleton.mp hb] at ha
        exact hnew' ha
      · rcases mem_append.mp hs with hold | hla
        · exact hall s hold
        · rw [mem_singleton.mp hla]
          exact ⟨hset, approval, hmem, rfl, happ⟩
  · exact ⟨nodup_nil, nofun⟩

theorem countApprovals_complete (approvals : List InviteSignature) : ∀ distinct : List Text,
    (∀ approval ∈ approvals, approval.signerPkHex ∈ set ∧
      ∃ pk signature, Approves E body approval pk signature) →
      (distinct ++ approvals.map InviteSignature.signerPkHex).Nodup →
      approvals.foldlM (countApproval E set body) distinct =
        .ok (distinct ++ approvals.map InviteSignature.signerPkHex) := by
  induction approvals with
  | nil =>
    intro distinct _ _
    rw [map_nil, append_nil]
    rfl
  | cons approval approvals ih =>
    intro distinct hall hnd
    obtain ⟨hset, happ⟩ := hall approval mem_cons_self
    rw [map_cons, append_cons] at hnd
    have hnew : approval.signerPkHex ∉ distinct := by
      intro hmem
      have hpair := (nodup_append.mp (nodup_append.mp hnd).1).2.2
      exact hpair _ hmem _ (mem_singleton_self _) rfl
    have hs : countApproval E set body distinct approval = .ok (distinct ++ [approval.signerPkHex]) := by
      rw [countApproval_eq_ok]
      refine ⟨happ, hset, ?_⟩
      rw [if_neg (fun h => hnew (contains_iff_mem.mp h))]
    rw [foldlM_cons, hs, ok_bind, ih _ (fun a ha => hall a (mem_cons_of_mem approval ha)) hnd,
      map_cons, ← append_cons]

theorem combineApprovals_eq_ok {request : InviteRequest} (approvals : List InviteApproval) :
    ∀ acc acc' : List Text × List InviteSignature, acc.1 = acc.2.map InviteSignature.signerPkHex →
    acc.1.Nodup →
      approvals.foldlM (combineApproval E request) acc = .ok acc' →
      acc'.2 = acc.2 ++ approvals.map (fun a => ⟨a.signerPkHex, a.signatureHex⟩) ∧
        (acc'.2.map InviteSignature.signerPkHex).Nodup ∧
        ∀ a ∈ approvals, ∃ pk signature, Approves E request.body ⟨a.signerPkHex, a.signatureHex⟩ pk
          signature := by
  induction approvals with
  | nil =>
    intro acc acc' hseen hnd h
    cases pure_eq_ok.mp h
    refine ⟨(append_nil _).symm, hseen ▸ hnd, nofun⟩
  | cons approval approvals ih =>
    intro acc acc' hseen hnd h
    obtain ⟨next, hs, hr⟩ := bind_eq_ok.mp h
    obtain ⟨happ, hnew, rfl⟩ := combineApproval_eq_ok hs
    have hnd' : (acc.1 ++ [approval.signerPkHex]).Nodup := by
      refine nodup_append.mpr ⟨hnd, nodup_singleton _, ?_⟩
      intro a ha b hb hab
      rw [hab, mem_singleton.mp hb] at ha
      exact hnew ha
    obtain ⟨hsig, hsign, hall⟩ := ih _ acc' (by simp [hseen]) hnd' hr
    refine ⟨?_, hsign, fun a ha => ?_⟩
    · rw [hsig, map_cons]
      exact append_assoc _ _ _
    · rcases mem_cons.mp ha with rfl | ha
      · exact happ
      · exact hall a ha

end

theorem utf8_inj {a b : Text} (h : utf8 a = utf8 b) : a = b := Utf8.encodeText_inj h

theorem length_utf8_encode (bytes : Bytes) : (utf8 (Hex.encode bytes)).length = 2 * bytes.length := by
  have hdigit : ∀ n < 16, (String.utf8EncodeChar (Hex.digit n)).length = 1 := by decide
  induction bytes with
  | nil => rfl
  | cons b rest ih =>
    have hcons : utf8 (Hex.encode (b :: rest)) =
      (String.utf8EncodeChar (Hex.digit (b.toNat / 16))).map UInt8.toBitVec ++
        ((String.utf8EncodeChar (Hex.digit (b.toNat % 16))).map UInt8.toBitVec ++
          utf8 (Hex.encode rest)) := rfl
    rw [hcons, length_append, length_append, length_map, length_map, ih,
      hdigit _ (by omega), hdigit _ (by omega), length_cons]
    omega

theorem signingBytes_ne_quorumSigningBytes (invite : JoinInvite) (nodePkHex : Text)
    (expiresUtc : Nat) (nonceHex : Text) :
    invite.signingBytes ≠ quorumSigningBytes nodePkHex expiresUtc nonceHex := by
  intro h
  have htake := congrArg (take 27) h
  rw [JoinInvite.signingBytes, quorumSigningBytes, take_left' (by decide), take_left' (by decide)] at htake
  revert htake
  decide

/-- Lower-case hex of 32 bytes. -/
def Canonical (text : Text) : Prop := ∃ bytes : Bytes, text = Hex.encode bytes ∧ bytes.length = 32

theorem Canonical.length_utf8 (h : Canonical text) : (utf8 text).length = 64 := by
  obtain ⟨bytes, rfl, hlen⟩ := h
  rw [length_utf8_encode, hlen]

theorem quorumSigningBytes_inj {node node' : Text} {expires : Nat} {nonce : Text} {expires' : Nat}
    {nonce' : Text} (hnode : Canonical node)
    (hnode' : Canonical node')
    (h : quorumSigningBytes node expires nonce = quorumSigningBytes node' expires' nonce') :
    node = node' ∧ expires % 2 ^ 64 = expires' % 2 ^ 64 ∧ nonce = nonce' := by
  simp only [quorumSigningBytes, append_assoc, append_cancel_left_eq] at h
  obtain ⟨hnodes, h⟩ := append_inj h (by rw [hnode.length_utf8, hnode'.length_utf8])
  simp only [append_cancel_left_eq] at h
  obtain ⟨hexpires, h⟩ := append_inj h (by rw [length_leBytes, length_leBytes])
  simp only [append_cancel_left_eq] at h
  exact ⟨utf8_inj hnodes, leBytes_inj 8 _ _ hexpires, utf8_inj h⟩

theorem signingBytes_inj {invite' : JoinInvite} (hissuer : Canonical invite.issuerPkHex)
    (hissuer' : Canonical invite'.issuerPkHex) (hnode : Canonical invite.nodePkHex)
    (hnode' : Canonical invite'.nodePkHex) (h : invite.signingBytes = invite'.signingBytes) :
    invite.issuerPkHex = invite'.issuerPkHex ∧ invite.nodePkHex = invite'.nodePkHex ∧
      invite.expiresUtc % 2 ^ 64 = invite'.expiresUtc % 2 ^ 64 ∧ invite.nonceHex = invite'.nonceHex := by
  simp only [JoinInvite.signingBytes, append_assoc, append_cancel_left_eq] at h
  obtain ⟨_, h⟩ := append_inj h (by rw [length_leBytes, length_leBytes])
  simp only [append_cancel_left_eq] at h
  obtain ⟨hiss, h⟩ := append_inj h (by rw [hissuer.length_utf8, hissuer'.length_utf8])
  simp only [append_cancel_left_eq] at h
  obtain ⟨hnodes, h⟩ := append_inj h (by rw [hnode.length_utf8, hnode'.length_utf8])
  simp only [append_cancel_left_eq] at h
  obtain ⟨hexpires, h⟩ := append_inj h (by rw [length_leBytes, length_leBytes])
  simp only [append_cancel_left_eq] at h
  exact ⟨utf8_inj hiss, utf8_inj hnodes, leBytes_inj 8 _ _ hexpires, utf8_inj h⟩

/-- The signer is one of the pinned keys, however that is spelled in the configuration. -/
def Pinned (pinnedKeys : List Text) (signer : Text) : Prop := ∃ key ∈ pinnedKeys, pinnedKey key = .ok signer

/-- The key that the text spells has signed the body of the ticket, and the signature is on it. -/
def SignedTicket (invite : JoinInvite) (signer : Text) : Prop :=
  ∃ approvals, invite.approvals = .ok approvals ∧ ∃ approval ∈ approvals, approval.signerPkHex = signer ∧
    ∃ pk signature, Approves E invite.body approval pk signature

section

variable {E : Externals} {invite : JoinInvite} {pinnedKeys : List Text} {quorumK now : Nat}
  {signers : List Text}

/-- What the checks on a quorum ticket come to. -/
structure QuorumChecked (E : Externals) (invite : JoinInvite) (pinnedKeys : List Text) (quorumK now : Nat)
    (signers set : List Text) (approvals : List InviteSignature) : Prop where
  version : invite.version = inviteVersion ∨ invite.version = inviteVersionV2
  threshold : 0 < quorumK ∧ quorumK ≤ pinnedKeys.length
  node : Canonical invite.nodePkHex
  nonce : Canonical invite.nonceHex
  pinned : pinnedKeys.mapM pinnedKey = .ok set
  carried : invite.approvals = .ok approvals
  counted : approvals.foldlM (countApproval E set invite.body) [] = .ok signers
  reached : quorumK ≤ signers.length
  fresh : now ≤ invite.expiresUtc

theorem verifyQuorum_eq_ok : invite.verifyQuorum E pinnedKeys quorumK now = .ok signers ↔
      ∃ set approvals, QuorumChecked E invite pinnedKeys quorumK now signers set approvals := by
  simp only [JoinInvite.verifyQuorum, bind_eq_ok, ite_error_eq_ok, decodeCanonicalHex_eq_ok, Except.ok.injEq]
  constructor
  · rintro ⟨hver, _, hthr, node, hnode, nonce, hn, set, hset, approvals, happ, counted, hcou,
      hreached, hfr, rfl⟩
    exact ⟨set, approvals, by tauto, by omega, ⟨node, hnode⟩, ⟨nonce, hn⟩, hset, happ, hcou,
      not_lt.mp hreached, not_lt.mp hfr⟩
  · rintro ⟨set, approvals, h⟩
    obtain ⟨node, hnode⟩ := h.node
    obtain ⟨nonce, hn⟩ := h.nonce
    have hkeys : pinnedKeys ≠ [] := by
      intro hnil
      have hthr := h.threshold
      rw [hnil, length_nil] at hthr
      omega
    have hthr := h.threshold
    refine ⟨?_, hkeys, by omega, node, hnode, nonce, hn, set, h.pinned, approvals, h.carried,
      signers, h.counted,
      not_lt.mpr h.reached, not_lt.mpr h.fresh, rfl⟩
    rintro ⟨h1, h2⟩
    exact h.version.elim h1 h2

/-- The signers that are returned are different pinned keys, enough of them, and each signed the
ticket. -/
theorem verifyQuorum_sound (h : invite.verifyQuorum E pinnedKeys quorumK now = .ok signers) :
    signers.Nodup ∧ quorumK ≤ signers.length ∧ ∀ s ∈ signers, Pinned pinnedKeys s ∧
    SignedTicket E invite s := by
  obtain ⟨set, approvals, h⟩ := verifyQuorum_eq_ok.mp h
  obtain ⟨hnd, hall⟩ := countApprovals_sound h.counted
  refine ⟨hnd, h.reached, fun s hs => ?_⟩
  obtain ⟨hset, approval, hmem, hsigner, happ⟩ := hall s hs
  exact ⟨(mem_mapM h.pinned).mp hset, approvals, h.carried, approval, hmem, hsigner, happ⟩

variable {request : InviteRequest} {approvals : List InviteApproval}

theorem issueQuorum_eq_ok (h : issueQuorum E request approvals now = .ok invite) :
    Canonical request.nodePkHex ∧ Canonical request.nonceHex ∧ approvals ≠ [] ∧
      (approvals.map InviteApproval.signerPkHex).Nodup ∧
      (∀ a ∈ approvals, ∃ pk signature, Approves E request.body ⟨a.signerPkHex, a.signatureHex⟩ pk
        signature) ∧
      invite = { version := inviteVersionV2, issuerPkHex := [], nodePkHex := request.nodePkHex
                 expiresUtc := request.expiresUtc, nonceHex := request.nonceHex, signatureHex := []
                 signatures := approvals.map fun a => ⟨a.signerPkHex, a.signatureHex⟩ } := by
  simp only [issueQuorum, InviteRequest.validate, bind_eq_ok, ite_error_eq_ok, pure_eq_ok,
    decodeCanonicalHex_eq_ok] at h
  obtain ⟨_, ⟨node, hnode, nonce, hn, _⟩, hne, acc, hfold, rfl⟩ := h
  obtain ⟨hsig, hnd, hall⟩ := combineApprovals_eq_ok approvals ([], []) acc rfl nodup_nil hfold
  rw [nil_append] at hsig
  rw [hsig, map_map] at hnd
  exact ⟨⟨node, hnode⟩, ⟨nonce, hn⟩, hne, hnd, hall, by rw [hsig]⟩

theorem verifyQuorum_issueQuorum {issued : Nat} (h : issueQuorum E request approvals issued = .ok invite)
    (hkeys : ∀ key ∈ pinnedKeys, ∃ s, pinnedKey key = .ok s)
    (hpinned : ∀ a ∈ approvals, Pinned pinnedKeys a.signerPkHex) (hpos : 0 < quorumK)
    (henough : quorumK ≤ approvals.length) (hnow : now ≤ invite.expiresUtc) :
    invite.verifyQuorum E pinnedKeys quorumK now = .ok (approvals.map InviteApproval.signerPkHex) := by
  obtain ⟨hnode, hn, hne, hnd, hall, rfl⟩ := issueQuorum_eq_ok h
  obtain ⟨set, hset⟩ := exists_mapM_eq_ok hkeys
  have hmem : ∀ a ∈ approvals, a.signerPkHex ∈ set := fun a ha => (mem_mapM hset).mpr (hpinned a ha)
  -- Different signers that are all pinned cannot be more than the pinned keys.
  have hc : approvals.length ≤ pinnedKeys.length := by
    have hlen : set.length = pinnedKeys.length := (mapM_eq_ok.mp hset).length_eq.symm
    have hsubset : approvals.map InviteApproval.signerPkHex ⊆ set := by
      intro s hs
      obtain ⟨a, ha, rfl⟩ := mem_map.mp hs
      exact hmem a ha
    have hle := (subperm_of_subset hnd hsubset).length_le
    rw [length_map] at hle
    omega
  refine verifyQuorum_eq_ok.mpr ⟨set, approvals.map fun a => ⟨a.signerPkHex, a.signatureHex⟩, .inr rfl,
    ⟨hpos, le_trans henough hc⟩, hnode, hn, hset, ?_, ?_, ?_, hnow⟩
  · have hso : (approvals.map fun a => (⟨a.signerPkHex, a.signatureHex⟩ : InviteSignature)) ≠ [] := by
      rw [ne_eq, map_eq_nil_iff]
      exact hne
    unfold JoinInvite.approvals
    simp only [inviteVersion, inviteVersionV2]
    rw [if_neg (by decide), if_neg (by simp), if_neg hso]
  · have hsig : (approvals.map fun a => (⟨a.signerPkHex, a.signatureHex⟩ : InviteSignature)).map
        InviteSignature.signerPkHex = approvals.map InviteApproval.signerPkHex := by
      rw [map_map]
      rfl
    rw [← hsig, ← nil_append (map InviteSignature.signerPkHex _)]
    refine countApprovals_complete _ [] ?_ ?_
    · intro approval happ
      obtain ⟨a, ha, rfl⟩ := mem_map.mp happ
      exact ⟨hmem a ha, hall a ha⟩
    · rw [nil_append, hsig]
      exact hnd
  · rw [length_map]
    exact henough

theorem QuorumChecked.issuer {set : List Text} {approvals : List InviteSignature}
    (h : QuorumChecked E invite pinnedKeys quorumK now signers set approvals)
    (hversion : invite.version = inviteVersion) :
    Canonical invite.issuerPkHex := by
  obtain ⟨_, hall⟩ := countApprovals_sound h.counted
  obtain ⟨s, hs⟩ : ∃ s, s ∈ signers := by
    refine exists_mem_of_length_pos ?_
    have hrea := h.reached
    have hthr := h.threshold
    omega
  obtain ⟨_, approval, hmem, _, pk, signature, happ⟩ := hall s hs
  have hcar := h.carried
  rw [JoinInvite.approvals, if_pos hversion] at hcar
  obtain ⟨_, hlist⟩ := ite_error_eq_ok.mp hcar
  cases hlist
  have happr := mem_singleton.mp hmem
  rw [happr] at happ
  exact ⟨pk, happ.signer, happ.key⟩

theorem verifyQuorum_body {pinnedKeys' : List Text} {quorumK' now' : Nat} {signers' : List Text}
    {invite' : JoinInvite} (h : invite.verifyQuorum E pinnedKeys quorumK now = .ok signers)
    (h' : invite'.verifyQuorum E pinnedKeys' quorumK' now' = .ok signers')
    (hbody : invite.body = invite'.body) :
    invite.version = invite'.version ∧ invite.nodePkHex = invite'.nodePkHex ∧
      invite.expiresUtc % 2 ^ 64 = invite'.expiresUtc % 2 ^ 64 ∧ invite.nonceHex = invite'.nonceHex := by
  obtain ⟨set, approvals, h⟩ := verifyQuorum_eq_ok.mp h
  obtain ⟨set', approvals', h'⟩ := verifyQuorum_eq_ok.mp h'
  unfold JoinInvite.body at hbody
  rcases h.version with hv | hv
  · rcases h'.version with hv' | hv'
    · rw [if_pos hv, if_pos hv'] at hbody
      obtain ⟨_, hnode, hexpires, hn⟩ := signingBytes_inj (h.issuer hv) (h'.issuer hv') h.node h'.node hbody
      exact ⟨hv.trans hv'.symm, hnode, hexpires, hn⟩
    · rw [if_pos hv, if_neg (by rw [hv']; decide)] at hbody
      exact absurd hbody (signingBytes_ne_quorumSigningBytes _ _ _ _)
  · rcases h'.version with hv' | hv'
    · rw [if_neg (by rw [hv]; decide), if_pos hv'] at hbody
      exact absurd hbody.symm (signingBytes_ne_quorumSigningBytes _ _ _ _)
    · rw [if_neg (by rw [hv]; decide), if_neg (by rw [hv']; decide)] at hbody
      obtain ⟨hnode, hexpires, hn⟩ := quorumSigningBytes_inj h.node h'.node hbody
      exact ⟨hv.trans hv'.symm, hnode, hexpires, hn⟩

end

/-- Quorum tickets: sound, complete for approvals by pinned keys, and apart from single-signer
tickets. -/
theorem quorum_tickets :
    (∀ (invite : JoinInvite) (pinnedKeys : List Text) (quorumK now : Nat) (signers : List Text),
      invite.verifyQuorum E pinnedKeys quorumK now = .ok signers →
        signers.Nodup ∧ (∀ s ∈ signers, Pinned pinnedKeys s) ∧ quorumK ≤ signers.length ∧
          ∀ s ∈ signers, SignedTicket E invite s) ∧
    (∀ (request : InviteRequest) (approvals : List InviteApproval) (issued : Nat) (invite : JoinInvite)
        (pinnedKeys : List Text) (quorumK : Nat),
      issueQuorum E request approvals issued = .ok invite → (∀ key ∈ pinnedKeys, ∃ s, pinnedKey key = .ok s) →
        (∀ a ∈ approvals, Pinned pinnedKeys a.signerPkHex) → 0 < quorumK → quorumK ≤ approvals.length →
        ∀ now ≤ invite.expiresUtc,
          invite.verifyQuorum E pinnedKeys quorumK now = .ok (approvals.map InviteApproval.signerPkHex)) ∧
    (∀ (invite : JoinInvite) (request : InviteRequest), invite.signingBytes ≠ request.body) ∧
    ∀ (invite invite' : JoinInvite) (pinnedKeys pinnedKeys' : List Text) (quorumK quorumK' now now' : Nat)
        (signers signers' : List Text),
      invite.verifyQuorum E pinnedKeys quorumK now = .ok signers →
        invite'.verifyQuorum E pinnedKeys' quorumK' now' = .ok signers' → invite.body = invite'.body →
        invite.version = invite'.version ∧ invite.nodePkHex = invite'.nodePkHex ∧
          invite.expiresUtc % 2 ^ 64 = invite'.expiresUtc % 2 ^ 64 ∧ invite.nonceHex = invite'.nonceHex := by
  refine ⟨?_, ?_, ?_, ?_⟩
  · intro invite pinnedKeys quorumK now signers h
    obtain ⟨hnd, hrea, hall⟩ := verifyQuorum_sound h
    exact ⟨hnd, fun s hs => (hall s hs).1, hrea, fun s hs => (hall s hs).2⟩
  · intro request approvals issued invite pinnedKeys quorumK h hkeys hpinned hpos henough now hnow
    exact verifyQuorum_issueQuorum h hkeys hpinned hpos henough hnow
  · intro invite request
    exact signingBytes_ne_quorumSigningBytes invite _ _ _
  · intro invite invite' pinnedKeys pinnedKeys' quorumK quorumK' now now' signers signers' h h' hbody
    exact verifyQuorum_body h h' hbody

namespace Ceremony

def request : InviteRequest :=
  { nodePkHex := Hex.encode (replicate 32 5#8), expiresUtc := 100, nonceHex := Hex.encode (replicate 32 6#8) }

def approval (signer : Bytes) : InviteApproval :=
  { request := request, signerPkHex := Hex.encode (reference.ed25519Public signer)
    signatureHex := Hex.encode (signWithDomain reference signer inviteContext request.body) }

def ticket (approvals : List InviteApproval) : JoinInvite :=
  { version := 2, issuerPkHex := [], nodePkHex := request.nodePkHex, expiresUtc := 100,
    nonceHex := request.nonceHex
    signatureHex := [], signatures := approvals.map fun a => ⟨a.signerPkHex, a.signatureHex⟩ }

def pinnedKeys : List Text :=
  [Hex.encode (reference.ed25519Public [1#8]), (Hex.encode (reference.ed25519Public [2#8])).map Char.toUpper]

/-- One pinned approval reaches the threshold of one, an approval by another key beside it makes the
ticket invalid; and no ticket reaches a threshold of zero. -/
theorem outsider_and_zero_threshold :
    issueQuorum reference request [approval [1#8], approval [3#8]] 50 =
      .ok (ticket [approval [1#8], approval [3#8]]) ∧
      (ticket [approval [1#8], approval [3#8]]).verifyQuorum reference pinnedKeys 1 50 =
        .error (forbidden "invite signer not in fleet key set") ∧
      issueQuorum reference request [approval [1#8]] 50 = .ok (ticket [approval [1#8]]) ∧
      (ticket [approval [1#8]]).verifyQuorum reference pinnedKeys 0 50 =
        .error (forbidden "invalid quorum threshold") := by
  decide +kernel

theorem issued_by_both : issueQuorum reference request [approval [1#8], approval [2#8]] 50 =
      .ok (ticket [approval [1#8], approval [2#8]]) ∧
    pinnedKeys.mapM pinnedKey = .ok [(approval [1#8]).signerPkHex, (approval [2#8]).signerPkHex] := by
  decide +kernel

theorem both_approve :
    (ticket [approval [1#8], approval [2#8]]).verifyQuorum reference pinnedKeys 2 100 =
      .ok [(approval [1#8]).signerPkHex, (approval [2#8]).signerPkHex] := by
  obtain ⟨hissued, hset⟩ := issued_by_both
  refine (quorum_tickets reference).2.1 request _ 50 _ pinnedKeys 2 hissued ?_ ?_ (by decide) (by decide) 100
    (le_refl 100)
  · intro key hkey
    obtain ⟨s, _, hs⟩ := exists_of_mapM hset hkey
    exact ⟨s, hs⟩
  · intro a ha
    refine (mem_mapM hset).mp ?_
    simp only [mem_cons, not_mem_nil, or_false] at ha ⊢
    rcases ha with rfl | rfl
    · exact .inl rfl
    · exact .inr rfl

end Ceremony

end CipherVault.Network
