import CipherVault.Base.Result
import CipherVault.Base.Table
import CipherVault.Snapshot.Paths

/-!
# Snapshot.Engine

`crates/snapshot/src/engine.rs`: capturing tracked files into a snapshot, and decrypting them. A
capture reads one tree: no other program writes while it runs. What it draws at random and the clock
are its `Entropy`. A hardware token is its signing key.
-/

namespace CipherVault.Snapshot

open Crypto Format List

structure SnapshotOutput where
  record : SnapshotRecord
  (encryptedManifest manifestCid : Bytes)
  chunks : List ChunkWireObject
  closure : RecoveryClosure
  capturedFileHashes : List (Text × Option Bytes)

structure DecryptedFile where
  relativePath : Text
  plaintext : Bytes
deriving DecidableEq

structure Entropy where
  (snapshotId manifestNonce : Bytes)
  timestamp : Nat

structure Settings where
  writeVersion : ChunkWriteVersion
  config : FastCdcConfig

def manifestAad (vaultId : Bytes) (epoch : Nat) : Bytes :=
  ascii "CipherVault-Manifest:" ++ vaultId ++ leBytes 8 epoch

structure Captured where
  entries : List ManifestFileEntry
  chunks : List ChunkWireObject
  chunkCids : List Bytes
  totalBytes : Nat
  hashes : List (Text × Option Bytes)

def tombstone (fileId : Bytes) (path : Text) : ManifestFileEntry :=
  { fileId := fileId
    relativePath := portable path
    fileVersionId := replicate 32 0#8
    rawLength := 0
    paddedLength := 0
    plaintextSha256 := replicate 32 0#8
    fileVersionKey := replicate 32 0#8
    chunkCids := []
    isDeleted := true }

def entryOf (fileId : Bytes) (path : Text) (chunked : ChunkedFile) (cids : List Bytes) : ManifestFileEntry :=
  { fileId := fileId
    relativePath := portable path
    fileVersionId := chunked.fileVersionId
    rawLength := chunked.rawLength
    paddedLength := chunked.paddedLength
    plaintextSha256 := chunked.plaintextSha256
    fileVersionKey := chunked.fileVersionKey
    chunkCids := cids
    isDeleted := false }

def readTracked (t : Tree) (path : Text) : Except SnapshotError Bytes :=
  match t.openRegularFile (locate path) with
  | .error e => .error e
  | .ok contents => if contents.length > maxFileSize then
      .error (.fileTooLarge path contents.length) else .ok contents

variable (E : Externals)

def chunkFile (settings : Settings) (vaultId : Bytes) (epoch : Nat) (epochKey contents : Bytes) :
    Except SnapshotError ChunkedFile :=
  match settings.writeVersion with
  | .legacyV1 => chunkAndEncryptFile E.toPrimitives settings.config vaultId epoch epochKey contents
  | .v2 => chunkAndEncryptFileV2 E.toPrimitives settings.config vaultId epoch epochKey contents

def chunkCidsOf (chunks : List ChunkWireObject) : Except SnapshotError (List Bytes) :=
  (chunks.mapM (ChunkWireObject.computeCid E)).mapError .formatError

/-- One tracked file, or its tombstone if it is gone. -/
def captureFile (settings : Settings) (t : Tree) (vaultId : Bytes) (epoch : Nat)
    (epochKey : Bytes) (acc : Captured) (tracked : Text × Bytes) : Except SnapshotError Captured := do
  let (path, fileId) := tracked
  validateSafeRelativePath path
  validateNoLinks t (locate path)
  if t.pathExists (locate path) then
    let contents ← readTracked t path
    let chunked ← chunkFile E settings vaultId epoch epochKey contents
    let cids ← chunkCidsOf E chunked.chunks
    return {
      entries := acc.entries ++ [entryOf fileId path chunked cids]
      chunks := acc.chunks ++ chunked.chunks
      chunkCids := acc.chunkCids ++ cids
      totalBytes := acc.totalBytes + chunked.rawLength
      hashes := acc.hashes ++ [(path, some chunked.plaintextSha256)] }
  else
    return { acc with entries := acc.entries ++ [tombstone fileId path],
                      hashes := acc.hashes ++ [(path, none)] }

def recordOf (vaultId : Bytes) (epoch : Nat) (parentIds : List Bytes) (deviceId : Bytes)
    (deviceCounter authorityGeneration : Nat) (entropy : Entropy) (encryptedManifest : Bytes) :
    SnapshotRecord :=
  { version := protocolVersion
    vaultId := vaultId
    snapshotId := entropy.snapshotId
    parentSnapshotIds := parentIds
    deviceId := deviceId
    deviceCounter := deviceCounter
    authorityGeneration := authorityGeneration
    epoch := epoch
    encryptedManifestCid := E.sha256 encryptedManifest
    encryptedManifestLen := encryptedManifest.length
    advisoryTimestampUtc := entropy.timestamp
    signature := [] }

/-- `create_snapshot_with_signer_and_write_version`. -/
def createSnapshot (settings : Settings) (t : Tree) (trackedFiles : List (Text × Bytes))
    (vaultId : Bytes) (epoch : Nat) (epochKey : Bytes) (parentIds : List Bytes) (deviceId : Bytes)
    (deviceCounter authorityGeneration : Nat) (signer : Bytes) (entropy : Entropy) :
    Except SnapshotError SnapshotOutput := do
  let captured ← trackedFiles.foldlM (captureFile E settings t vaultId epoch epochKey)
    { entries := [], chunks := [], chunkCids := [], totalBytes := 0, hashes := [] }
  let manifest : SnapshotManifest :=
    { version := protocolVersion, vaultId := vaultId, epoch := epoch, snapshotId := entropy.snapshotId,
      files := captured.entries }
  let manifestBytes ← (toCanonicalCbor E (.manifest manifest)).mapError .formatError
  let encryptedManifest := encryptChunkWithNonce E.toPrimitives
    (deriveManifestKey E.toPrimitives epochKey epoch)
    entropy.manifestNonce manifestBytes (manifestAad vaultId epoch)
  let manifestCid := E.sha256 encryptedManifest
  let record ← ((recordOf E vaultId epoch parentIds deviceId deviceCounter authorityGeneration entropy
    encryptedManifest).sign E signer).mapError .formatError
  let recordCid ← (record.computeRecordCid E).mapError .formatError
  return {
    record := record
    encryptedManifest := encryptedManifest
    manifestCid := manifestCid
    chunks := captured.chunks
    closure :=
      { snapshotId := entropy.snapshotId
        snapshotRecordCid := recordCid
        manifestCid := manifestCid
        envelopeIds := []
        chunkCids := captured.chunkCids
        totalBytes := captured.totalBytes }
    capturedFileHashes := captured.hashes }

theorem createSnapshot_record {E : Externals} {settings : Settings} {t : Tree} {tracked : List (Text × Bytes)}
    {vaultId : Bytes} {epoch : Nat} {epochKey : Bytes} {parentIds : List Bytes} {deviceId : Bytes}
    {counter generation : Nat} {signer : Bytes} {entropy : Entropy} {output : SnapshotOutput}
    (h : createSnapshot E settings t tracked vaultId epoch epochKey parentIds deviceId counter
      generation signer
      entropy = .ok output) :
    (recordOf E vaultId epoch parentIds deviceId counter generation entropy
      output.encryptedManifest).sign E signer =
      .ok output.record := by
  simp only [createSnapshot, bind_eq_ok, mapError_eq_ok, pure_eq_ok] at h
  obtain ⟨_, _, _, _, _, hsign, _, _, rfl⟩ := h
  exact hsign

def maxRestoreFileSize : Nat := 256 * 1024 * 1024

def indexChunks (chunks : List ChunkWireObject) : Except SnapshotError (List (Bytes × ChunkWireObject)) := do
  let cids ← chunkCidsOf E chunks
  return (cids.zip chunks).reverse

structure DecryptContext where
  vaultId : Bytes
  epoch : Nat
  domainKey : Bytes
  index : List (Bytes × ChunkWireObject)

def decryptLegacy (entry : ManifestFileEntry) (position : Nat) (chunk : ChunkWireObject) :
    Except SnapshotError Bytes :=
  if chunk.fileVersionId ≠ entry.fileVersionId ∨ chunk.chunkIndex ≠ position ∨
      chunk.totalChunks ≠ entry.chunkCids.length then
    .error (.invalidInput "Legacy chunk order/file binding mismatch")
  else (decryptChunk E.toPrimitives entry.fileVersionKey chunk.payload (computeAad chunk)).mapError
    .cryptoError

variable (ctx : DecryptContext)

def decryptV2 (entry : ManifestFileEntry) (chunk : ChunkWireObject) : Except SnapshotError Bytes := do
  if chunk.chunkIndex ≠ 0 ∨ chunk.totalChunks ≠ 1 ∨ entry.fileVersionKey ≠ ctx.domainKey then
    .error (.invalidInput "Invalid v2 chunk header or domain key")
  else
    let (key, nonce) := deriveV2ChunkKeyNonce E.toPrimitives ctx.domainKey ctx.vaultId ctx.epoch
      chunk.fileVersionId
    if chunk.payload.length < 24 ∨ chunk.payload.take 24 ≠ nonce then
      .error (.invalidInput "Invalid v2 deterministic nonce")
    else
      let plaintext ← (decryptChunk E.toPrimitives key chunk.payload (computeAad chunk)).mapError .cryptoError
      if deriveV2ChunkId E.toPrimitives ctx.domainKey ctx.vaultId ctx.epoch (E.sha256 plaintext) ≠
          chunk.fileVersionId then
        .error (.invalidInput "V2 opaque chunk identifier mismatch")
      else return plaintext

def decryptWire (entry : ManifestFileEntry) (position : Nat) (chunk : ChunkWireObject) :
    Except SnapshotError Bytes :=
  if chunk.version = protocolVersion then decryptLegacy E entry position chunk
  else if chunk.version = chunkWireVersionV2 then decryptV2 E ctx entry chunk
  else .error (.invalidInput "Unsupported chunk wire version")

structure Assembly where
  position : Nat
  padded : Bytes
  wireVersion : Option Nat

def findChunk (entry : ManifestFileEntry) (expectedCid : Bytes) : Except SnapshotError ChunkWireObject :=
  if expectedCid.length ≠ 32 then
    .error (.invalidInput ("Invalid chunk CID length for " ++ String.ofList entry.relativePath))
  else match ctx.index.lookup expectedCid with
    | none => .error (.missingChunk entry.relativePath expectedCid)
    | some chunk =>
      if chunk.vaultId ≠ ctx.vaultId ∨ chunk.keyEpoch ≠ ctx.epoch ∨ chunk.fileVersionId.length ≠ 32 then
        .error (.invalidInput "Chunk vault/epoch/identifier mismatch")
      else .ok chunk

/-- Checks, opens and appends the next chunk of a file. -/
def assembleChunk (entry : ManifestFileEntry) (acc : Assembly)
    (expectedCid : Bytes) : Except SnapshotError Assembly := do
  let chunk ← findChunk ctx entry expectedCid
  if acc.wireVersion.any (· != chunk.version) then
    .error (.invalidInput "Mixed chunk wire versions in one file")
  else
    let decrypted ← decryptWire E ctx entry acc.position chunk
    if decrypted.length ≠ chunk.declaredPaddedLength ∨
      acc.padded.length + decrypted.length > entry.paddedLength then
      .error (.invalidInput "Chunk/manifest padded length mismatch")
    else
      return { position := acc.position + 1, padded := acc.padded ++ decrypted,
               wireVersion := some chunk.version }

def checkEntry (entry : ManifestFileEntry) : Except SnapshotError Unit := do
  validateSafeRelativePath entry.relativePath
  if entry.fileVersionKey.length ≠ 32 then
    .error (.invalidInput ("Invalid file_version_key length for " ++ String.ofList entry.relativePath ++
      s!": expected 32, got {entry.fileVersionKey.length}"))
  else if entry.paddedLength > maxRestoreFileSize ∨ entry.rawLength > maxRestoreFileSize then
    .error (.fileTooLarge entry.relativePath (max entry.rawLength entry.paddedLength))
  else if entry.rawLength > entry.paddedLength then
    .error (.integrityMismatch entry.relativePath s!"padded >= raw (raw={entry.rawLength})"
      s!"padded={entry.paddedLength}")
  else return ()

/-- The length and the digest that the manifest promises. -/
def finishFile (entry : ManifestFileEntry) (assembly : Assembly) : Except SnapshotError DecryptedFile :=
  let plaintext := assembly.padded.take entry.rawLength
  if assembly.padded.length ≠ entry.paddedLength then
    .error (.integrityMismatch entry.relativePath s!"{entry.rawLength} bytes"
      s!"{assembly.padded.length} bytes")
  else if E.sha256 plaintext ≠ entry.plaintextSha256 then
    .error (.integrityMismatch entry.relativePath (hex entry.plaintextSha256) (hex (E.sha256 plaintext)))
  else if assembly.wireVersion = some chunkWireVersionV2 ∧
      deriveV2FileVersionId E.toPrimitives ctx.domainKey ctx.vaultId ctx.epoch (E.sha256 plaintext) ≠
        entry.fileVersionId then
    .error (.invalidInput "V2 file version identifier mismatch")
  else .ok { relativePath := entry.relativePath, plaintext := plaintext }

def decryptFile (entry : ManifestFileEntry) : Except SnapshotError DecryptedFile := do
  checkEntry entry
  let assembly ← entry.chunkCids.foldlM (assembleChunk E ctx entry)
    { position := 0, padded := [], wireVersion := none }
  finishFile E ctx entry assembly

def openManifest (vaultId : Bytes) (epoch : Nat) (epochKey encryptedManifest : Bytes) :
    Except SnapshotError SnapshotManifest := do
  let bytes ← (decryptChunk E.toPrimitives (deriveManifestKey E.toPrimitives epochKey epoch) encryptedManifest
    (manifestAad vaultId epoch)).mapError .cryptoError
  (fromCanonicalCbor E.decodeManifest bytes).mapError .formatError

/-- All files of a snapshot, or an error for all of them. -/
def decryptSnapshot (vaultId epochKey : Bytes) (epoch : Nat) (encryptedManifest : Bytes)
    (chunks : List ChunkWireObject) : Except SnapshotError (List DecryptedFile) := do
  let manifest ← openManifest E vaultId epoch epochKey encryptedManifest
  if manifest.version ≠ protocolVersion ∨ manifest.vaultId ≠ vaultId ∨ manifest.epoch ≠ epoch then
    .error (.invalidInput "Manifest version/vault/epoch mismatch")
  else
    let index ← indexChunks E chunks
    let ctx : DecryptContext :=
      { vaultId := vaultId, epoch := epoch,
        domainKey := deriveV2ChunkDomainKey E.toPrimitives epochKey vaultId epoch, index := index }
    manifest.live.mapM (decryptFile E ctx)

/-! ## What decryption reads of the chunks -/

section

variable {E : Externals} {chunks chunks' : List ChunkWireObject} {index : List (Bytes × ChunkWireObject)}

theorem mem_indexChunks {cid : Bytes} {chunk : ChunkWireObject} (h : indexChunks E chunks = .ok index) :
    (cid, chunk) ∈ index ↔ chunk ∈ chunks ∧ chunk.computeCid E = .ok cid := by
  simp only [indexChunks, chunkCidsOf, bind_eq_ok, mapError_eq_ok, mapM_eq_ok, pure_eq_ok] at h
  obtain ⟨cids, hc, rfl⟩ := h
  rw [mem_reverse]
  induction hc with
  | nil => simp
  | cons hx _ ih =>
    rw [List.zip_cons_cons, mem_cons, mem_cons, ih, Prod.mk.injEq]
    constructor
    · rintro (⟨rfl, rfl⟩ | ⟨hmem, hcid⟩)
      · exact ⟨.inl rfl, hx⟩
      · exact ⟨.inr hmem, hcid⟩
    · rintro ⟨rfl | hmem, hcid⟩
      · rw [hx] at hcid
        cases hcid
        exact .inl ⟨rfl, rfl⟩
      · exact .inr ⟨hmem, hcid⟩

theorem indexChunks_computeCid (h : indexChunks E chunks = .ok index) :
    ∀ chunk ∈ chunks, ∃ cid, chunk.computeCid E = .ok cid := by
  simp only [indexChunks, chunkCidsOf, bind_eq_ok, mapError_eq_ok, mapM_eq_ok, pure_eq_ok] at h
  obtain ⟨cids, hc, -⟩ := h
  induction hc with
  | nil => intro chunk hch; cases hch
  | cons hx _ ih => exact forall_mem_cons.mpr ⟨⟨_, hx⟩, ih⟩

end

end CipherVault.Snapshot
