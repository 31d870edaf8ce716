import CipherVault.Crypto.Basic

/-!
# Format.Records

The records of `crates/format/src/schema.rs`, their canonical CBOR and their signatures. `ciborium`
is outside the repository: `Externals` has its functions beside the primitives.
-/

namespace CipherVault.Format

open Crypto

def protocolVersion : Nat := 1

def chunkWireVersionV2 : Nat := 2

def maxRecordSize : Nat := 16 * 1024 * 1024

structure GenesisRecord where
  version : Nat
  (vaultId recoverySigningPk recoveryEncryptionPk policyDigest : Bytes)
  createdAtUtc : Nat
  (creationNonce signature : Bytes)

structure DeviceCertificate where
  version : Nat
  (vaultId certificateId deviceSigningPk : Bytes)
  (permissions authorityGeneration issuedAtUtc : Nat)
  signature : Bytes
deriving DecidableEq

structure EpochEnvelope where
  version : Nat
  vaultId : Bytes
  epoch : Nat
  (recipientFingerprint sealedEpochKey : Bytes)
  createdAtUtc : Nat
  (signerDeviceId signature : Bytes)

structure ChunkWireObject where
  version : Nat
  (vaultId fileVersionId : Bytes)
  (chunkIndex totalChunks declaredPaddedLength keyEpoch : Nat)
  payload : Bytes
deriving DecidableEq

structure ManifestFileEntry where
  fileId : Bytes
  relativePath : Text
  fileVersionId : Bytes
  (rawLength paddedLength : Nat)
  (plaintextSha256 fileVersionKey : Bytes)
  chunkCids : List Bytes
  isDeleted : Bool

structure SnapshotManifest where
  version : Nat
  vaultId : Bytes
  epoch : Nat
  snapshotId : Bytes
  files : List ManifestFileEntry

def SnapshotManifest.live (manifest : SnapshotManifest) : List ManifestFileEntry :=
  manifest.files.filter fun entry => !entry.isDeleted

structure SnapshotRecord where
  version : Nat
  (vaultId snapshotId : Bytes)
  parentSnapshotIds : List Bytes
  deviceId : Bytes
  (deviceCounter authorityGeneration epoch : Nat)
  encryptedManifestCid : Bytes
  (encryptedManifestLen advisoryTimestampUtc : Nat)
  signature : Bytes
deriving DecidableEq

structure RecoveryClosure where
  (snapshotId snapshotRecordCid manifestCid : Bytes)
  (envelopeIds chunkCids : List Bytes)
  totalBytes : Nat
deriving DecidableEq

structure RecoverySet where
  closure : RecoveryClosure
  locator : Bytes
  records : List Bytes
deriving DecidableEq

structure HeadRecord where
  version : Nat
  (vaultId snapshotId : Bytes)
  parentSnapshotIds : List Bytes
  (closureDigest deviceId : Bytes)
  deviceCounter : Nat
  signature : Bytes
deriving DecidableEq

inductive Record where
  | genesis (r : GenesisRecord)
  | certificate (r : DeviceCertificate)
  | envelope (r : EpochEnvelope)
  | chunk (r : ChunkWireObject)
  | manifest (r : SnapshotManifest)
  | snapshot (r : SnapshotRecord)
  | closure (r : RecoveryClosure)
  | head (r : HeadRecord)

structure Externals extends Primitives where
  encode : Record → Bytes
  decodeGenesis : Bytes → Option GenesisRecord
  decodeCertificate : Bytes → Option DeviceCertificate
  decodeEnvelope : Bytes → Option EpochEnvelope
  decodeChunk : Bytes → Option ChunkWireObject
  decodeManifest : Bytes → Option SnapshotManifest
  decodeSnapshot : Bytes → Option SnapshotRecord
  decodeHead : Bytes → Option HeadRecord

inductive FormatError where
  | sizeLimitExceeded (limit actual : Nat)
  | deserializationError
  | malformedRecord (message : String)
  | cryptoError (e : CryptoError)
deriving DecidableEq

/-- The text of the error, less what `ciborium` says about malformed input. -/
def FormatError.message : FormatError → String
  | .sizeLimitExceeded limit actual =>
    s!"Size limit exceeded: expected at most {limit} bytes, got {actual} bytes"
  | .deserializationError => "CBOR deserialization failed"
  | .malformedRecord message => "Malformed record: " ++ message
  | .cryptoError e => "Crypto error during format validation: " ++ e.message

def toCanonicalCbor (E : Externals) (value : Record) : Except FormatError Bytes :=
  if (E.encode value).length > maxRecordSize then
    .error (.sizeLimitExceeded maxRecordSize (E.encode value).length)
  else .ok (E.encode value)

variable {E : Externals} {bytes : Bytes} {α : Type} {decode : Bytes → Option α}

theorem toCanonicalCbor_eq_ok {value : Record} (h : toCanonicalCbor E value = .ok bytes) :
    bytes = E.encode value ∧ bytes.length ≤ maxRecordSize := by
  rw [toCanonicalCbor] at h
  split at h
  · cases h
  · rename_i hle
    cases h
    exact ⟨rfl, Nat.not_lt.mp hle⟩

def fromCanonicalCbor {α : Type} (decode : Bytes → Option α) (bytes : Bytes) : Except FormatError α :=
  if bytes.length > maxRecordSize then .error (.sizeLimitExceeded maxRecordSize bytes.length)
  else match decode bytes with
    | none => .error .deserializationError
    | some value => .ok value

theorem fromCanonicalCbor_eq_ok {value : α} (h : fromCanonicalCbor decode bytes = .ok value) :
    decode bytes = some value := by
  rw [fromCanonicalCbor] at h
  split at h
  · cases h
  · split at h
    · cases h
    · rename_i decoded hdec
      cases h
      exact hdec

theorem fromCanonicalCbor_ok {value : α} (hfits : bytes.length ≤ maxRecordSize)
    (h : decode bytes = some value) :
    fromCanonicalCbor decode bytes = .ok value := by
  rw [fromCanonicalCbor, if_neg (Nat.not_lt.mpr hfits), h]

theorem fromCanonicalCbor_error (h : decode bytes = none) :
    ∃ e, fromCanonicalCbor decode bytes = .error e := by
  rw [fromCanonicalCbor, h]
  split
  · exact ⟨_, rfl⟩
  · exact ⟨_, rfl⟩

def signaturePayload (context message : Bytes) : Bytes :=
  ascii "CipherVault-Ed25519-v1:" ++ context ++ ascii ":" ++ message

variable (E)

def signWithDomain (signingKey context message : Bytes) : Bytes :=
  E.ed25519Sign signingKey (signaturePayload context message)

def verifyWithDomain (verifyingKey context message signature : Bytes) : Except CryptoError Unit :=
  if E.ed25519Verify verifyingKey (signaturePayload context message) signature then .ok ()
  else .error .signatureVerificationFailed

/-- The common body of the records' `verify`: `unsigned` is the record with an empty signature. -/
def verifyRecord (lengthError : String) (context : Bytes) (unsigned : Record)
    (signature pk : Bytes) : Except FormatError Unit :=
  if signature.length ≠ 64 then .error (.malformedRecord lengthError)
  else match toCanonicalCbor E unsigned with
    | .error e => .error e
    | .ok bytes => (verifyWithDomain E pk context bytes signature).mapError .cryptoError

/-- The common body of the records' `sign`: the signature of the record with an empty one. -/
def signRecord (context : Bytes) (unsigned : Record) (sk : Bytes) : Except FormatError Bytes :=
  match toCanonicalCbor E unsigned with
  | .error e => .error e
  | .ok bytes => .ok (signWithDomain E sk context bytes)

def GenesisRecord.unsigned (r : GenesisRecord) : Record := .genesis { r with signature := [] }

def GenesisRecord.verify (r : GenesisRecord) : Except FormatError Unit :=
  if r.recoverySigningPk.length ≠ 32 ∨ r.signature.length ≠ 64 then
    .error (.malformedRecord "Invalid key or signature length in genesis")
  else verifyRecord E "Invalid key or signature length in genesis" (ascii "genesis_record") r.unsigned
    r.signature r.recoverySigningPk

def DeviceCertificate.unsigned (c : DeviceCertificate) : Record := .certificate { c with signature := [] }

def DeviceCertificate.verify (c : DeviceCertificate) (recoveryPk : Bytes) : Except FormatError Unit :=
  verifyRecord E "Invalid signature length in device cert" (ascii "device_certificate") c.unsigned
    c.signature recoveryPk

def EpochEnvelope.unsigned (e : EpochEnvelope) : Record := .envelope { e with signature := [] }

def EpochEnvelope.verify (e : EpochEnvelope) (devicePk : Bytes) : Except FormatError Unit :=
  verifyRecord E "Invalid signature length in epoch envelope" (ascii "epoch_envelope") e.unsigned
    e.signature devicePk

variable (r : SnapshotRecord)

def SnapshotRecord.unsigned : Record := .snapshot { r with signature := [] }

def SnapshotRecord.verify (devicePk : Bytes) : Except FormatError Unit :=
  verifyRecord E "Invalid signature length in snapshot record" (ascii "snapshot_record") r.unsigned
    r.signature devicePk

def HeadRecord.unsigned (h : HeadRecord) : Record := .head { h with signature := [] }

def HeadRecord.verify (h : HeadRecord) (devicePk : Bytes) : Except FormatError Unit :=
  verifyRecord E "Invalid signature length in head record" (ascii "head_record") h.unsigned
    h.signature devicePk

def HeadRecord.sign (h : HeadRecord) (sk : Bytes) : Except FormatError HeadRecord :=
  match signRecord E (ascii "head_record") h.unsigned sk with
  | .error e => .error e
  | .ok signature => .ok { h with signature := signature }

def SnapshotRecord.sign (sk : Bytes) : Except FormatError SnapshotRecord :=
  match signRecord E (ascii "snapshot_record") r.unsigned sk with
  | .error e => .error e
  | .ok signature => .ok { r with signature := signature }

variable {E}

theorem SnapshotRecord.sign_eq_ok {r r' : SnapshotRecord} {sk : Bytes} (h : r.sign E sk = .ok r') :
    ∃ bytes, toCanonicalCbor E r.unsigned = .ok bytes ∧
      r' = { r with signature := signWithDomain E sk (ascii "snapshot_record") bytes } := by
  simp only [SnapshotRecord.sign, signRecord] at h
  cases hb : toCanonicalCbor E r.unsigned with
  | error e => simp [hb] at h
  | ok bytes =>
    simp only [hb, Except.ok.injEq] at h
    exact ⟨bytes, rfl, h.symm⟩

theorem HeadRecord.sign_eq_ok {h h' : HeadRecord} {sk : Bytes} (hsign : h.sign E sk = .ok h') :
    ∃ bytes, toCanonicalCbor E h.unsigned = .ok bytes ∧
      h' = { h with signature := signWithDomain E sk (ascii "head_record") bytes } := by
  simp only [HeadRecord.sign, signRecord] at hsign
  cases hb : toCanonicalCbor E h.unsigned with
  | error e => simp [hb] at hsign
  | ok bytes =>
    simp only [hb, Except.ok.injEq] at hsign
    exact ⟨bytes, rfl, hsign.symm⟩

variable (E)

def EpochEnvelope.sign (e : EpochEnvelope) (sk : Bytes) : Except FormatError EpochEnvelope :=
  match signRecord E (ascii "epoch_envelope") e.unsigned sk with
  | .error err => .error err
  | .ok signature => .ok { e with signature := signature }

def ChunkWireObject.computeCid (c : ChunkWireObject) : Except FormatError Bytes :=
  (toCanonicalCbor E (.chunk c)).map E.sha256

def RecoveryClosure.computeBaseClosureDigest (c : RecoveryClosure) : Except FormatError Bytes :=
  (toCanonicalCbor E (.closure c)).map E.sha256

def SnapshotRecord.computeRecordCid : Except FormatError Bytes :=
  (toCanonicalCbor E (.snapshot r)).map E.sha256

end CipherVault.Format
