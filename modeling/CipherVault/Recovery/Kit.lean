import CipherVault.Base.Hex
import CipherVault.Base.Result
import CipherVault.Crypto.Kdf
import CipherVault.Crypto.Shamir
import CipherVault.Format.Lawful

/-!
# Recovery.Kit

`crates/recovery/src/kit.rs`: offline recovery kits, guardian kits, and how they are put together
again. A kit carries its keys as hexadecimal text, and not all comparisons look away from the case
of the letters. `combineKits_of_split`: enough guardian kits of one split lead to its secret; the
kit is then rebuilt exactly if the texts of its keys are those that the code writes.
-/

namespace CipherVault.Recovery

open Crypto List Nat

def crcTurn (crc : BitVec 32) : BitVec 32 := if crc.getLsbD 0 then (crc >>> 1) ^^^ 0xEDB88320#32
    else crc >>> 1

def crc32 (bytes : Bytes) : BitVec 32 :=
  ~~~ (bytes.foldl (fun crc b => crcTurn^[8] (crc ^^^ b.setWidth 32)) 0xFFFFFFFF#32)

variable (array : Bytes32)

def toBytes : Bytes := ofFn array

def ofBytes (bytes : Bytes) : Bytes32 := fun i => bytes.getD i 0#8

theorem ofBytes_toBytes : ofBytes (toBytes array) = array := by
  funext i
  rw [ofBytes, toBytes, List.getD_eq_getElem?_getD, List.getElem?_ofFn, dif_pos i.isLt]
  rfl

variable {bytes : Bytes}

theorem toBytes_ofBytes (h : bytes.length = 32) : toBytes (ofBytes bytes) = bytes := by
  refine List.ext_getElem (by rw [toBytes, length_ofFn, h]) fun i hi hi' => ?_
  simp only [toBytes, List.getElem_ofFn, ofBytes, List.getD_eq_getElem?_getD,
    getElem?_eq_getElem hi', Option.getD_some]

theorem length_toBytes : (toBytes array).length = 32 := length_ofFn

variable (P : Primitives)

def recoverySigningPk (secret : Bytes32) : Bytes :=
  P.ed25519Public (deriveSubkey P (toBytes secret) 1 (ascii "CV_RSIGN"))

def recoveryEncryptionPk (secret : Bytes32) : Bytes :=
  P.x25519Public (deriveSubkey P (toBytes secret) 1 (ascii "CV_RENCR"))

def deriveRecoveryLocator (secret : Bytes32) : Bytes :=
  deriveSubkey P (toBytes secret) 1 (ascii "CV_RLOCA")

inductive RecoveryError where
  | checksumMismatch (expected calculated : BitVec 32)
  | hexDecodeError
  | invalidKeyLength (length : Nat)
  | cryptoError (e : CryptoError)
  | invalidKitFormat (message : String)
deriving DecidableEq

structure OfflineRecoveryKit where
  version : Nat
  (vaultIdHex recoverySecretHex : Text)
  checksum : BitVec 32
  (recoverySigningPkHex recoveryEncryptionPkHex recoveryLocatorHex : Text)
  operatorEndpoints : List Text
  createdAtUtc : Nat
deriving DecidableEq

def hexDecode (text : Text) : Except RecoveryError Bytes :=
  match Hex.decode text with
  | some bytes => .ok bytes
  | none => .error .hexDecodeError

def eqIgnoreAsciiCase (a b : Text) : Bool := Hex.lower a == Hex.lower b

variable (kit : OfflineRecoveryKit)

namespace OfflineRecoveryKit

def create (vaultId secret : Bytes32) (operatorEndpoints : List Text) (now : Nat) : OfflineRecoveryKit where
  version := 1
  vaultIdHex := Hex.encode (toBytes vaultId)
  recoverySecretHex := Hex.encode (toBytes secret)
  checksum := crc32 (toBytes secret)
  recoverySigningPkHex := Hex.encode (recoverySigningPk P secret)
  recoveryEncryptionPkHex := Hex.encode (recoveryEncryptionPk P secret)
  recoveryLocatorHex := Hex.encode (deriveRecoveryLocator P secret)
  operatorEndpoints := operatorEndpoints
  createdAtUtc := now

def checkedBytes (text : Text) (checksum : BitVec 32) : Except RecoveryError Bytes32 := do
  let raw ← hexDecode text
  if raw.length ≠ 32 then .error (.invalidKeyLength 0)
  else if crc32 raw ≠ checksum then .error (.checksumMismatch checksum (crc32 raw))
  else .ok (ofBytes raw)

def descriptorsMatch (secret : Bytes32) : Bool :=
  eqIgnoreAsciiCase kit.recoverySigningPkHex (Hex.encode (recoverySigningPk P secret)) &&
    eqIgnoreAsciiCase kit.recoveryEncryptionPkHex (Hex.encode (recoveryEncryptionPk P secret)) &&
    eqIgnoreAsciiCase kit.recoveryLocatorHex (Hex.encode (deriveRecoveryLocator P secret))

def validateAndExtractSecret : Except RecoveryError Bytes32 := do
  let secret ← checkedBytes kit.recoverySecretHex kit.checksum
  if kit.version ≠ 1 then
    .error (.invalidKitFormat "Recovery kit public descriptors do not match its secret")
  else do
    let vaultId ← hexDecode kit.vaultIdHex
    if vaultId.length ≠ 32 ∨ kit.descriptorsMatch P secret = false then
      .error (.invalidKitFormat "Recovery kit public descriptors do not match its secret")
    else .ok secret

end OfflineRecoveryKit

structure ThresholdRecoveryKit where
  version : Nat
  vaultIdHex : Text
  (guardianIndex threshold totalShares : Byte)
  shareDataHex : Text
  checksum : BitVec 32
  (recoverySigningPkHex recoveryEncryptionPkHex recoveryLocatorHex : Text)
  operatorEndpoints : List Text
  createdAtUtc : Nat
deriving DecidableEq

namespace ThresholdRecoveryKit

def ofShare (threshold totalShares : Byte) (share : ShamirShare) : ThresholdRecoveryKit where
  version := 1
  vaultIdHex := kit.vaultIdHex
  guardianIndex := share.index
  threshold := threshold
  totalShares := totalShares
  shareDataHex := Hex.encode (toBytes share.data)
  checksum := crc32 (toBytes share.data)
  recoverySigningPkHex := kit.recoverySigningPkHex
  recoveryEncryptionPkHex := kit.recoveryEncryptionPkHex
  recoveryLocatorHex := kit.recoveryLocatorHex
  operatorEndpoints := kit.operatorEndpoints
  createdAtUtc := kit.createdAtUtc

/-- One kit for each guardian. -/
def splitKit (threshold totalShares : Byte) (rng : Nat → BitVec 32) :
    Except RecoveryError (List ThresholdRecoveryKit) := do
  let secret ← kit.validateAndExtractSecret P
  let shares ← (splitSecret secret threshold totalShares rng).mapError .cryptoError
  .ok (shares.map (ofShare kit threshold totalShares))

def validateAndExtractShare (kit : ThresholdRecoveryKit) : Except RecoveryError ShamirShare :=
  if kit.version ≠ 1 ∨ kit.threshold.toNat < 2 ∨ kit.totalShares.toNat < kit.threshold.toNat ∨
    kit.guardianIndex = 0#8 ∨
      kit.totalShares.toNat < kit.guardianIndex.toNat then
    .error (.invalidKitFormat "Invalid guardian threshold/index parameters")
  else do
    let data ← OfflineRecoveryKit.checkedBytes kit.shareDataHex kit.checksum
    .ok { index := kit.guardianIndex, data := data }

def checkSame (first kit : ThresholdRecoveryKit) : Except RecoveryError Unit :=
  if kit.vaultIdHex ≠ first.vaultIdHex then
    .error (.invalidKitFormat "Mismatched Vault ID across guardian shares")
  else if kit.threshold ≠ first.threshold ∨ kit.totalShares ≠ first.totalShares then
    .error (.invalidKitFormat "Mismatched threshold parameters across guardian shares")
  else if kit.version ≠ first.version ∨ kit.createdAtUtc ≠ first.createdAtUtc ∨
      kit.recoverySigningPkHex ≠ first.recoverySigningPkHex ∨
      kit.recoveryEncryptionPkHex ≠ first.recoveryEncryptionPkHex ∨
        kit.recoveryLocatorHex ≠ first.recoveryLocatorHex then
    .error (.invalidKitFormat "Mismatched recovery share set/public descriptors")
  else .ok ()

def rebuild (first : ThresholdRecoveryKit) (secret : Bytes32) (now : Nat) :
    Except RecoveryError OfflineRecoveryKit := do
  let vaultId ← hexDecode first.vaultIdHex
  if vaultId.length ≠ 32 then .error (.invalidKeyLength vaultId.length)
  else
    let reconstructed := OfflineRecoveryKit.create P (ofBytes vaultId) secret first.operatorEndpoints now
    if reconstructed.recoverySigningPkHex ≠ first.recoverySigningPkHex ∨
        reconstructed.recoveryEncryptionPkHex ≠ first.recoveryEncryptionPkHex ∨
        reconstructed.recoveryLocatorHex ≠ first.recoveryLocatorHex then
      .error (.invalidKitFormat
        "Reconstructed secret does not match guardian public descriptors; mixed/corrupt share set")
    else .ok reconstructed

/-- Checks that the kits belong together, and puts the kit together again. -/
def combineKits (kits : List ThresholdRecoveryKit) (now : Nat) : Except RecoveryError OfflineRecoveryKit :=
  match kits with
  | [] => .error (.invalidKitFormat "No guardian kits provided")
  | first :: _ =>
    if kits.length < first.threshold.toNat then
      .error (.invalidKitFormat
        s!"Insufficient guardian shares: received {kits.length}, requires at least {first.threshold.toNat}")
    else do
      kits.forM (checkSame first)
      let shares ← kits.mapM validateAndExtractShare
      let secret ← (combineShares shares).mapError .cryptoError
      rebuild P first secret now

end ThresholdRecoveryKit

section

variable {P : Primitives} {kit : OfflineRecoveryKit} {secret : Bytes32}

variable {text : Text} {shares : List ShamirShare}

theorem hexDecode_eq_ok : hexDecode text = .ok bytes ↔ Hex.decode text = some bytes := by
  unfold hexDecode
  cases Hex.decode text with
  | none | some => simp

theorem checkedBytes_encode :
    OfflineRecoveryKit.checkedBytes (Hex.encode (toBytes array)) (crc32 (toBytes array)) = .ok array := by
  rw [OfflineRecoveryKit.checkedBytes, hexDecode_eq_ok.mpr (Hex.decode_encode _), ok_bind,
    if_neg (not_not.mpr (length_toBytes array)), if_neg (not_not.mpr rfl), ofBytes_toBytes]

/-- The descriptors of the kit are spelt as the code spells them. -/
structure OfflineRecoveryKit.Lower (kit : OfflineRecoveryKit) : Prop where
  signing : Hex.lower kit.recoverySigningPkHex = kit.recoverySigningPkHex
  encryption : Hex.lower kit.recoveryEncryptionPkHex = kit.recoveryEncryptionPkHex
  locator : Hex.lower kit.recoveryLocatorHex = kit.recoveryLocatorHex

/-- A text that says these bytes in either case is the text that the code writes for them exactly
when it is in lower case. -/
theorem lower_iff_encode
    (h : eqIgnoreAsciiCase text (Hex.encode bytes) = true) :
    Hex.lower text = text ↔ text = Hex.encode bytes := by
  rw [eqIgnoreAsciiCase, beq_iff_eq, ← Hex.encode_of_decode (Hex.decode_encode bytes)] at h
  rw [h]
  exact eq_comm

theorem validate_cases (h : kit.validateAndExtractSecret P = .ok secret) :
    (∃ vaultId, Hex.decode kit.vaultIdHex = some vaultId ∧ vaultId.length = 32) ∧
    kit.descriptorsMatch P secret = true := by
  obtain ⟨secret', -, h⟩ := bind_eq_ok.mp h
  obtain ⟨-, h⟩ := ite_error_eq_ok.mp h
  obtain ⟨vaultId, hv, h⟩ := bind_eq_ok.mp h
  obtain ⟨hok, heq⟩ := ite_error_eq_ok.mp h
  cases heq
  rw [not_or, not_not, Bool.not_eq_false] at hok
  exact ⟨⟨vaultId, hexDecode_eq_ok.mp hv, hok.1⟩, hok.2⟩

variable {threshold totalShares : Byte} {rng : Nat → BitVec 32}

theorem splitKit_cases {out : List ThresholdRecoveryKit}
    (h : ThresholdRecoveryKit.splitKit P kit threshold totalShares rng = .ok out) :
    ∃ secret shares, kit.validateAndExtractSecret P = .ok secret ∧
      splitSecret secret threshold totalShares rng = .ok shares ∧
      out = shares.map (ThresholdRecoveryKit.ofShare kit threshold totalShares) := by
  obtain ⟨secret, hsecret, h⟩ := bind_eq_ok.mp h
  obtain ⟨shares, hshares, h⟩ := bind_eq_ok.mp h
  cases h
  exact ⟨secret, shares, hsecret, mapError_eq_ok.mp hshares, rfl⟩

theorem splitSecret_cases (h : splitSecret secret threshold totalShares rng = .ok shares) :
    2 ≤ threshold.toNat ∧ threshold.toNat ≤ totalShares.toNat ∧
      (∀ share ∈ shares, share.index ≠ 0#8 ∧ share.index.toNat ≤ totalShares.toNat) ∧
      ∀ a ∈ shares, ∀ b ∈ shares, a.index = b.index → a = b := by
  obtain ⟨hM, h⟩ := ite_error_eq_ok.mp h
  obtain ⟨hN, h⟩ := ite_error_eq_ok.mp h
  cases h
  have hidx {i : Nat} (hi : i ∈ range totalShares.toNat) : (BitVec.ofNat 8 (i + 1)).toNat = i + 1 := by
    have hlt := mem_range.mp hi
    exact mod_eq_of_lt (by omega)
  refine ⟨not_lt.mp hM, not_lt.mp hN, fun share hshare => ?_, fun a ha b hb hab => ?_⟩
  · obtain ⟨i, hi, rfl⟩ := mem_map.mp hshare
    refine ⟨fun hzero => ?_, ?_⟩
    · have hnat := congrArg BitVec.toNat hzero
      rw [hidx hi] at hnat
      cases hnat
    · rw [hidx hi]
      exact mem_range.mp hi
  · obtain ⟨i, hi, rfl⟩ := mem_map.mp ha
    obtain ⟨j, hj, rfl⟩ := mem_map.mp hb
    have hnat := congrArg BitVec.toNat hab
    rw [hidx hi, hidx hj] at hnat
    obtain rfl : i = j := succ.inj hnat
    rfl

theorem validateAndExtractShare_ofShare {share : ShamirShare} (hM : 2 ≤ threshold.toNat)
    (hN : threshold.toNat ≤ totalShares.toNat) (hzero : share.index ≠ 0#8)
    (hle : share.index.toNat ≤ totalShares.toNat) :
    (ThresholdRecoveryKit.ofShare kit threshold totalShares share).validateAndExtractShare = .ok share := by
  have hchecks : ¬ ((1 : Nat) ≠ 1 ∨ threshold.toNat < 2 ∨ totalShares.toNat < threshold.toNat ∨
    share.index = 0#8 ∨
      totalShares.toNat < share.index.toNat) := by
    rintro (h | h | h | h | h)
    · exact h rfl
    · omega
    · omega
    · exact hzero h
    · omega
  refine (if_neg hchecks).trans ?_
  have hd := checkedBytes_encode share.data
  exact bind_eq_ok.mpr ⟨share.data, hd, rfl⟩

theorem checkSame_ofShare (threshold totalShares : Byte) (a b : ShamirShare) :
    ThresholdRecoveryKit.checkSame (.ofShare kit threshold totalShares a)
    (.ofShare kit threshold totalShares b) = .ok () := by
  simp [ThresholdRecoveryKit.checkSame, ThresholdRecoveryKit.ofShare]

/-- The kit is rebuilt exactly when its descriptors are spelt as the code spells them. -/
theorem rebuild_ofShare (hvalid : kit.validateAndExtractSecret P = .ok secret)
    (threshold totalShares : Byte) (share : ShamirShare) (now : Nat) (kit' : OfflineRecoveryKit) :
    ThresholdRecoveryKit.rebuild P (.ofShare kit threshold totalShares share) secret now = .ok kit' ↔
      (kit.recoverySigningPkHex = Hex.encode (recoverySigningPk P secret) ∧
        kit.recoveryEncryptionPkHex = Hex.encode (recoveryEncryptionPk P secret) ∧
        kit.recoveryLocatorHex = Hex.encode (deriveRecoveryLocator P secret)) ∧
      ∃ vaultId, Hex.decode kit.vaultIdHex = some vaultId ∧ vaultId.length = 32 ∧
        OfflineRecoveryKit.create P (ofBytes vaultId) secret kit.operatorEndpoints now = kit' := by
  obtain ⟨⟨vaultId, hv, hlen⟩, -⟩ := validate_cases hvalid
  simp only [ThresholdRecoveryKit.rebuild, ThresholdRecoveryKit.ofShare, hexDecode_eq_ok.mpr hv,
    ok_bind, if_neg (not_not.mpr hlen)]
  refine ite_error_eq_ok.trans ?_
  simp only [OfflineRecoveryKit.create, ne_eq, not_or, not_not, hv, Option.some.injEq,
    Except.ok.injEq]
  constructor
  · rintro ⟨⟨hs, he, hl⟩, rfl⟩
    exact ⟨⟨hs.symm, he.symm, hl.symm⟩, vaultId, rfl, hlen, rfl⟩
  · rintro ⟨⟨hs, he, hl⟩, _, rfl, -, rfl⟩
    exact ⟨⟨hs.symm, he.symm, hl.symm⟩, rfl⟩

theorem lower_iff (hvalid : kit.validateAndExtractSecret P = .ok secret) :
    kit.Lower ↔ kit.recoverySigningPkHex = Hex.encode (recoverySigningPk P secret) ∧
      kit.recoveryEncryptionPkHex = Hex.encode (recoveryEncryptionPk P secret) ∧
      kit.recoveryLocatorHex = Hex.encode (deriveRecoveryLocator P secret) := by
  obtain ⟨-, hm⟩ := validate_cases hvalid
  rw [OfflineRecoveryKit.descriptorsMatch, Bool.and_eq_true, Bool.and_eq_true] at hm
  obtain ⟨⟨hsig, henc⟩, hloc⟩ := hm
  rw [← lower_iff_encode hsig, ← lower_iff_encode henc, ← lower_iff_encode hloc]
  exact ⟨fun h => ⟨h.signing, h.encryption, h.locator⟩, fun h => ⟨h.1, h.2.1, h.2.2⟩⟩

theorem validate_create (vaultId secret : Bytes32) (operatorEndpoints : List Text) (now : Nat) :
    (OfflineRecoveryKit.create P vaultId secret operatorEndpoints now).validateAndExtractSecret P =
      .ok secret := by
  have hv := hexDecode_eq_ok.mpr (Hex.decode_encode (toBytes vaultId))
  have hm : (OfflineRecoveryKit.create P vaultId secret operatorEndpoints now).descriptorsMatch P
    secret = true := by
    simp [OfflineRecoveryKit.descriptorsMatch, OfflineRecoveryKit.create, eqIgnoreAsciiCase]
  refine bind_eq_ok.mpr ⟨secret, checkedBytes_encode secret, ?_⟩
  refine ite_error_eq_ok.mpr ⟨not_not.mpr rfl, bind_eq_ok.mpr ⟨toBytes vaultId, hv, ?_⟩⟩
  refine ite_error_eq_ok.mpr ⟨?_, rfl⟩
  rw [length_toBytes, hm]
  simp

/-- Enough guardian kits of a split lead to the secret, and to the check of the descriptors. -/
theorem combineKits_of_split
    (hsplit : splitSecret secret threshold totalShares rng = .ok shares)
    {chosen : List ShamirShare} (hmem : ∀ share ∈ chosen, share ∈ shares) (hnodup : chosen.Nodup)
    (hlen : threshold.toNat ≤ chosen.length) (now : Nat) :
    ∃ share, ThresholdRecoveryKit.combineKits P (chosen.map (.ofShare kit threshold totalShares)) now =
      ThresholdRecoveryKit.rebuild P (.ofShare kit threshold totalShares share) secret now := by
  obtain ⟨hM, hN, hi, hinj⟩ := splitSecret_cases hsplit
  cases chosen with
  | nil => exact absurd hlen (by simp; omega)
  | cons first rest =>
    refine ⟨first, ?_⟩
    have hind : ((first :: rest).map ShamirShare.index).Nodup :=
      hnodup.map_on fun a ha b hb hab => hinj a (hmem a ha) b (hmem b hb) hab
    have hs : ((first :: rest).map (ThresholdRecoveryKit.ofShare kit threshold totalShares)).forM
        (ThresholdRecoveryKit.checkSame (.ofShare kit threshold totalShares first)) = .ok () := by
      refine forM_eq_ok.mpr fun k hk => ?_
      obtain ⟨share, -, rfl⟩ := mem_map.mp hk
      exact checkSame_ofShare threshold totalShares first share
    have hshares : ((first :: rest).map (ThresholdRecoveryKit.ofShare kit threshold totalShares)).mapM
        ThresholdRecoveryKit.validateAndExtractShare = .ok (first :: rest) := by
      refine mapM_eq_ok.mpr (forall₂_map_left_iff.mpr (forall₂_same.mpr fun share hshare => ?_))
      obtain ⟨hzero, hle⟩ := hi share (hmem share hshare)
      exact validateAndExtractShare_ofShare hM hN hzero hle
    have hcom : combineShares (first :: rest) = .ok secret :=
      combineShares_of_splitWith hsplit hM hmem hind hlen
    refine (if_neg ?_).trans ?_
    · rw [length_map]
      exact not_lt.mpr hlen
    · rw [hs, ok_bind, hshares, ok_bind, mapError_eq_ok.mpr hcom, ok_bind]

theorem exists_map_of_mem {α β : Type} {f : α → β} {xs : List α} {ys : List β} (h : ∀ y ∈ ys, y ∈ xs.map f) :
    ∃ zs : List α, ys = zs.map f ∧ ∀ z ∈ zs, z ∈ xs := by
  induction ys with
  | nil => exact ⟨[], rfl, nofun⟩
  | cons y ys ih =>
    obtain ⟨x, hx, rfl⟩ := mem_map.mp (h y mem_cons_self)
    obtain ⟨zs, rfl, hzs⟩ := ih fun y' hy' => h y' (mem_cons_of_mem _ hy')
    exact ⟨x :: zs, rfl, forall_mem_cons.mpr ⟨hx, hzs⟩⟩

end

/-- At least `M` different guardian kits of a split, in any order, are combined to a kit with the
same secret, vault id and key descriptors exactly when the descriptors are in lower case. -/
theorem guardian_kits_reassemble (secret : Bytes32)
    (hvalid : kit.validateAndExtractSecret P = .ok secret) (threshold totalShares : Byte)
    (rng : Nat → BitVec 32) (out : List ThresholdRecoveryKit)
    (hsplit : ThresholdRecoveryKit.splitKit P kit threshold totalShares rng = .ok out)
    (kits : List ThresholdRecoveryKit) (hmem : ∀ k ∈ kits, k ∈ out) (hnodup : kits.Nodup)
    (hlen : threshold.toNat ≤ kits.length) (now : Nat) :
    (∃ kit', ThresholdRecoveryKit.combineKits P kits now = .ok kit' ∧
      kit'.validateAndExtractSecret P = .ok secret ∧
      Hex.decode kit'.vaultIdHex = Hex.decode kit.vaultIdHex ∧
      kit'.recoverySigningPkHex = kit.recoverySigningPkHex ∧
      kit'.recoveryEncryptionPkHex = kit.recoveryEncryptionPkHex ∧
      kit'.recoveryLocatorHex = kit.recoveryLocatorHex) ↔ kit.Lower := by
  obtain ⟨secret', shares, hsecret, hshares, rfl⟩ := splitKit_cases hsplit
  obtain rfl : secret' = secret := Except.ok.inj (hsecret.symm.trans hvalid)
  obtain ⟨chosen, rfl, hcho⟩ := exists_map_of_mem hmem
  rw [length_map] at hlen
  obtain ⟨share, hcom⟩ :=
    combineKits_of_split hshares hcho (List.Nodup.of_map _ hnodup) hlen now (P := P)
  rw [hcom, lower_iff hvalid]
  constructor
  · rintro ⟨kit', hkit', -⟩
    exact ((rebuild_ofShare hvalid _ _ _ _ _).mp hkit').1
  · rintro ⟨hsig, henc, hloc⟩
    obtain ⟨⟨vaultId, hv, hlength⟩, -⟩ := validate_cases hvalid
    refine ⟨_, (rebuild_ofShare hvalid _ _ _ _ _).mpr ⟨⟨hsig, henc, hloc⟩, vaultId, hv, hlength, rfl⟩,
      validate_create _ _ _ _, ?_, hsig.symm, henc.symm, hloc.symm⟩
    show Hex.decode (Hex.encode (toBytes (ofBytes vaultId))) = _
    rw [toBytes_ofBytes hlength, Hex.decode_encode, hv]

namespace Spelling

open Format (reference)

def written : OfflineRecoveryKit := .create reference.toPrimitives (fun _ => 3#8) (fun _ => 0x5A#8) [] 100

def typed : OfflineRecoveryKit :=
  { written with recoverySigningPkHex := written.recoverySigningPkHex.map Char.toUpper }

def guardians : List ThresholdRecoveryKit :=
  match ThresholdRecoveryKit.splitKit reference.toPrimitives kit 2#8 3#8
    (fun n => BitVec.ofNat 32 (77 * n)) with
  | .ok kits => kits
  | .error _ => []

/-- It is accepted and split, but no guardian kits of it can be combined. -/
theorem typed_kit_is_lost :
    (typed.validateAndExtractSecret reference.toPrimitives).map toBytes = .ok (replicate 32 0x5A#8) ∧
      (guardians typed).length = 3 ∧
      ThresholdRecoveryKit.combineKits reference.toPrimitives (guardians typed) 200 =
        .error (.invalidKitFormat
          "Reconstructed secret does not match guardian public descriptors; mixed/corrupt share set") := by
  decide +kernel

theorem written_kit_comes_back :
    ∃ kit', ThresholdRecoveryKit.combineKits reference.toPrimitives
      ((guardians written).reverse.take 2) 200 = .ok kit' ∧
      kit'.validateAndExtractSecret reference.toPrimitives = .ok (fun _ => 0x5A#8) ∧
      Hex.decode kit'.vaultIdHex = Hex.decode written.vaultIdHex ∧
      kit'.recoverySigningPkHex = written.recoverySigningPkHex ∧
      kit'.recoveryEncryptionPkHex = written.recoveryEncryptionPkHex ∧
      kit'.recoveryLocatorHex = written.recoveryLocatorHex :=
  (guardian_kits_reassemble reference.toPrimitives written (fun _ => 0x5A#8)
    (validate_create _ _ _ _) 2#8 3#8 (fun n => BitVec.ofNat 32 (77 * n)) (guardians written)
    (by decide +kernel) ((guardians written).reverse.take 2) (by decide +kernel) (by decide +kernel)
    (by decide +kernel) 200).mpr ⟨by decide +kernel, by decide +kernel, by decide +kernel⟩

end Spelling

end CipherVault.Recovery
