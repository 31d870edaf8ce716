import CipherVault.Base.Codec
import CipherVault.Format.Records

/-!
# Format.Lawful

What the proofs assume about functions outside the repository: a record decodes to itself and to no
other kind of record, and a signature verifies under the key of its signer. `reference` shows that
this can be met, without strength as cryptography: length-prefixed fields for CBOR, sums over bytes
for digests and signatures. The examples run on it.
-/

namespace CipherVault.Format

open Crypto Codec

namespace Record

def genesis? : Record → Option GenesisRecord
  | .genesis r => some r
  | _ => none

def certificate? : Record → Option DeviceCertificate
  | .certificate r => some r
  | _ => none

def envelope? : Record → Option EpochEnvelope
  | .envelope r => some r
  | _ => none

def chunk? : Record → Option ChunkWireObject
  | .chunk r => some r
  | _ => none

def manifest? : Record → Option SnapshotManifest
  | .manifest r => some r
  | _ => none

def snapshot? : Record → Option SnapshotRecord
  | .snapshot r => some r
  | _ => none

def head? : Record → Option HeadRecord
  | .head r => some r
  | _ => none

end Record

/-- What is assumed of the primitives. The numbers of the source's records have at most 64 bits. A
record of the model with a larger number stands for nothing in the source; `encode` may be read as
giving more bytes for it than the size limit, so that every check refuses it. -/
structure Lawful (E : Externals) : Prop where
  decodeGenesis : ∀ r, E.decodeGenesis (E.encode r) = r.genesis?
  decodeCertificate : ∀ r, E.decodeCertificate (E.encode r) = r.certificate?
  decodeEnvelope : ∀ r, E.decodeEnvelope (E.encode r) = r.envelope?
  decodeChunk : ∀ r, E.decodeChunk (E.encode r) = r.chunk?
  decodeManifest : ∀ r, E.decodeManifest (E.encode r) = r.manifest?
  decodeSnapshot : ∀ r, E.decodeSnapshot (E.encode r) = r.snapshot?
  decodeHead : ∀ r, E.decodeHead (E.encode r) = r.head?
  verify_sign : ∀ sk message, E.ed25519Verify (E.ed25519Public sk) message (E.ed25519Sign sk message) = true
  sign_length : ∀ sk message, (E.ed25519Sign sk message).length = 64
  public_length : ∀ sk, (E.ed25519Public sk).length = 32
  digest_length : ∀ bytes, (E.sha256 bytes).length = 32

theorem Lawful.verifyRecord_signed {E : Externals} {unsigned : Record}
    {signature sk context : Bytes} {lengthError : String} (hE : Lawful E)
    (hfits : (E.encode unsigned).length ≤ maxRecordSize)
    (hsignature : signature = signWithDomain E sk context (E.encode unsigned)) :
    verifyRecord E lengthError context unsigned signature (E.ed25519Public sk) = .ok () := by
  have hlen : signature.length = 64 := by
    rw [hsignature, signWithDomain]
    exact hE.sign_length _ _
  rw [verifyRecord, if_neg (not_not.mpr hlen), toCanonicalCbor, if_neg (Nat.not_lt.mpr hfits)]
  simp only [verifyWithDomain, hsignature, signWithDomain, hE.verify_sign, if_true]
  rfl

namespace Reference

def bytes : Codec Bytes := .bytes

def text : Codec Text := .list .char

def genesis : Codec GenesisRecord :=
  (nat.pair (bytes.pair (bytes.pair (bytes.pair (bytes.pair (nat.pair (bytes.pair bytes))))))).via
    (fun r => (r.version, r.vaultId, r.recoverySigningPk, r.recoveryEncryptionPk, r.policyDigest,
      r.createdAtUtc,
      r.creationNonce, r.signature))
    (fun (a, b, c, d, e, f, g, h) => ⟨a, b, c, d, e, f, g, h⟩) (fun _ => rfl)

def certificate : Codec DeviceCertificate :=
  (nat.pair (bytes.pair (bytes.pair (bytes.pair (nat.pair (nat.pair
    (nat.pair bytes))))))).via
    (fun r => (r.version, r.vaultId, r.certificateId, r.deviceSigningPk, r.permissions, r.authorityGeneration,
      r.issuedAtUtc, r.signature))
    (fun (a, b, c, d, e, f, g, h) => ⟨a, b, c, d, e, f, g, h⟩) (fun _ => rfl)

def envelope : Codec EpochEnvelope :=
  (nat.pair (bytes.pair (nat.pair (bytes.pair (bytes.pair (nat.pair (bytes.pair bytes))))))).via
    (fun r => (r.version, r.vaultId, r.epoch, r.recipientFingerprint, r.sealedEpochKey, r.createdAtUtc,
      r.signerDeviceId, r.signature))
    (fun (a, b, c, d, e, f, g, h) => ⟨a, b, c, d, e, f, g, h⟩) (fun _ => rfl)

def chunk : Codec ChunkWireObject :=
  (nat.pair (bytes.pair (bytes.pair (nat.pair (nat.pair (nat.pair
    (nat.pair bytes))))))).via
    (fun r => (r.version, r.vaultId, r.fileVersionId, r.chunkIndex, r.totalChunks, r.declaredPaddedLength,
      r.keyEpoch, r.payload))
    (fun (a, b, c, d, e, f, g, h) => ⟨a, b, c, d, e, f, g, h⟩) (fun _ => rfl)

def fileEntry : Codec ManifestFileEntry :=
  (bytes.pair (text.pair (bytes.pair (nat.pair (nat.pair (bytes.pair (bytes.pair
    (bytes.list.pair bool)))))))).via
    (fun r => (r.fileId, r.relativePath, r.fileVersionId, r.rawLength, r.paddedLength, r.plaintextSha256,
      r.fileVersionKey, r.chunkCids, r.isDeleted))
    (fun (a, b, c, d, e, f, g, h, i) => ⟨a, b, c, d, e, f, g, h, i⟩) (fun _ => rfl)

def manifest : Codec SnapshotManifest :=
  (nat.pair (bytes.pair (nat.pair (bytes.pair fileEntry.list)))).via
    (fun r => (r.version, r.vaultId, r.epoch, r.snapshotId, r.files))
    (fun (a, b, c, d, e) => ⟨a, b, c, d, e⟩) (fun _ => rfl)

def snapshot : Codec SnapshotRecord :=
  (nat.pair (bytes.pair (bytes.pair (bytes.list.pair (bytes.pair (nat.pair (nat.pair
    (nat.pair (bytes.pair (nat.pair (nat.pair bytes))))))))))).via
    (fun r => (r.version, r.vaultId, r.snapshotId, r.parentSnapshotIds, r.deviceId, r.deviceCounter,
      r.authorityGeneration, r.epoch, r.encryptedManifestCid, r.encryptedManifestLen, r.advisoryTimestampUtc,
      r.signature))
    (fun (a, b, c, d, e, f, g, h, i, j, k, l) => ⟨a, b, c, d, e, f, g, h, i, j, k, l⟩) (fun _ => rfl)

def closure : Codec RecoveryClosure :=
  (bytes.pair (bytes.pair (bytes.pair (bytes.list.pair (bytes.list.pair nat))))).via
    (fun r => (r.snapshotId, r.snapshotRecordCid, r.manifestCid, r.envelopeIds, r.chunkCids, r.totalBytes))
    (fun (a, b, c, d, e, f) => ⟨a, b, c, d, e, f⟩) (fun _ => rfl)

def head : Codec HeadRecord :=
  (nat.pair (bytes.pair (bytes.pair (bytes.list.pair (bytes.pair (bytes.pair
    (nat.pair bytes))))))).via
    (fun r => (r.version, r.vaultId, r.snapshotId, r.parentSnapshotIds, r.closureDigest, r.deviceId,
      r.deviceCounter, r.signature))
    (fun (a, b, c, d, e, f, g, h) => ⟨a, b, c, d, e, f, g, h⟩) (fun _ => rfl)

def encode : Record → Bytes
  | .genesis r => nat.put 0 ++ genesis.put r
  | .certificate r => nat.put 1 ++ certificate.put r
  | .envelope r => nat.put 2 ++ envelope.put r
  | .chunk r => nat.put 3 ++ chunk.put r
  | .manifest r => nat.put 4 ++ manifest.put r
  | .snapshot r => nat.put 5 ++ snapshot.put r
  | .closure r => nat.put 6 ++ closure.put r
  | .head r => nat.put 7 ++ head.put r

def mix (width : Nat) (input : Bytes) : Bytes :=
  leBytes width (input.foldl (fun acc b => acc * 257 + b.toNat + 1) 0)

def leNat (input : Bytes) : Nat := input.foldr (fun b acc => b.toNat + 256 * acc) 0

def tag (key nonce plaintext aad : Bytes) : Bytes := mix 16 (key ++ nonce ++ plaintext ++ aad)

end Reference

open Reference in
def reference : Externals where
  sha256 := mix 32
  blake2b512 := mix 64
  hkdfSha256 salt secret info length := mix length (salt ++ secret ++ info)
  xchachaEncrypt key nonce plaintext aad := plaintext ++ tag key nonce plaintext aad
  xchachaDecrypt key nonce ciphertext aad :=
    let plaintext := ciphertext.take (ciphertext.length - 16)
    if ciphertext.drop (ciphertext.length - 16) = tag key nonce plaintext aad then some plaintext else none
  ed25519Public := mix 32
  ed25519Sign sk message := mix 64 (mix 32 sk ++ message)
  ed25519Verify pk message signature := signature = mix 64 (pk ++ message)
  x25519Public sk := leBytes 32 (leNat sk)
  x25519 sk pk := some (leBytes 32 (leNat sk * leNat pk))
  encode := encode
  decodeGenesis := tagged 0 genesis
  decodeCertificate := tagged 1 certificate
  decodeEnvelope := tagged 2 envelope
  decodeChunk := tagged 3 chunk
  decodeManifest := tagged 4 manifest
  decodeSnapshot := tagged 5 snapshot
  decodeHead := tagged 7 head

theorem reference_lawful : Lawful reference where
  decodeGenesis r := by cases r <;> simp [reference, Reference.encode, tagged_put, Record.genesis?]
  decodeCertificate r := by cases r <;> simp [reference, Reference.encode, tagged_put, Record.certificate?]
  decodeEnvelope r := by cases r <;> simp [reference, Reference.encode, tagged_put, Record.envelope?]
  decodeChunk r := by cases r <;> simp [reference, Reference.encode, tagged_put, Record.chunk?]
  decodeManifest r := by cases r <;> simp [reference, Reference.encode, tagged_put, Record.manifest?]
  decodeSnapshot r := by cases r <;> simp [reference, Reference.encode, tagged_put, Record.snapshot?]
  decodeHead r := by cases r <;> simp [reference, Reference.encode, tagged_put, Record.head?]
  verify_sign sk message := by simp [reference]
  sign_length sk message := by simp [reference, Reference.mix, length_leBytes]
  public_length sk := by simp [reference, Reference.mix, length_leBytes]
  digest_length bytes := by simp [reference, Reference.mix, length_leBytes]

end CipherVault.Format
