import CipherVault.Crypto.SealedBox
import CipherVault.Snapshot.Engine
import Mathlib.Data.List.Destutter

/-!
# Store.Db

`crates/local-store/src/db.rs`: the methods that captures, uploads and pulls call. A method is one
atomic step; a transaction that fails leaves the store as it was. Columns with a record in CBOR hold
the record here.
-/

namespace CipherVault.Store

open Crypto Format Snapshot Table Prod
open List (mem_map mem_cons not_mem_nil mem_insertionSort find?_some)

/-- The columns of `vault_metadata` that stay as they were written when the vault was made. -/
structure VaultMetadata where
  vaultId : Bytes
  vault_length : vaultId.length = 32
  deviceId : Bytes
  device_length : deviceId.length = 32
  (deviceSk recoverySigningPk recoveryEncryptionPk recoveryLocator : Bytes)
  genesis : GenesisRecord

inductive SnapshotState where
  | localOnly
  | replicated

structure SnapshotRow where
  snapshotId : Bytes
  record : SnapshotRecord
  encryptedManifest : Bytes
  state : SnapshotState

structure HeadRow where
  head : HeadRecord
  isActive : Bool

def HeadRow.key (row : HeadRow) : Bytes := row.head.snapshotId

structure PendingUpload where
  (snapshotId recordCid : Bytes)
  attempts : Nat
  lastError : Option String
  createdAtUtc : Nat
deriving DecidableEq

/-- The tables of the local database that the model reads. -/
structure LocalStore where
  metadata : VaultMetadata
  (deviceCounter currentEpoch : Nat)
  epochKeys : List (Nat × Bytes)
  trackedFiles : List (Text × Bytes)
  certificates : List DeviceCertificate
  snapshots : List SnapshotRow
  chunks : List (Bytes × ChunkWireObject)
  heads : List HeadRow
  recoverySets : List (Bytes × RecoverySet)
  pendingUploads : List PendingUpload

def formatFailure (e : FormatError) : String := "Format error: " ++ e.message

namespace LocalStore

variable (s : LocalStore)

/-- `get_device_state`: the counter and the epoch; the rest of the row is in `metadata`. -/
def getDeviceState : Nat × Nat := (s.deviceCounter, s.currentEpoch)

def incrementDeviceCounter : LocalStore := { s with deviceCounter := s.deviceCounter + 1 }

def getEpochKey (epoch : Nat) : Except String Bytes :=
  match s.epochKeys.lookup epoch with
  | some key => .ok key
  | none => .error s!"Record not found: Epoch key for epoch {epoch}"

def listTrackedFiles : List (Text × Bytes) :=
  s.trackedFiles.insertionSort fun a b => ¬ b.1 < a.1

def trackFile (path : Text) (fileId : Bytes) : LocalStore :=
  { s with trackedFiles := insertNew fst (portable path, fileId) s.trackedFiles }

variable (E : Externals) (s : LocalStore) (publicKey : Bytes)

/-- The filter of `latest_capture_authority_for_key`, which leaves the version out. -/
def certifies (c : DeviceCertificate) : Bool :=
  c.vaultId == s.metadata.vaultId && c.deviceSigningPk == publicKey && c.permissions &&& 1 != 0 &&
    (c.verify E s.metadata.recoverySigningPk).isOk

def validateCaptureAuthorityForKey (generation : Nat) : Except String DeviceCertificate :=
  match s.certificates.find? fun c =>
      c.version == protocolVersion && c.authorityGeneration == generation && certifies E s publicKey c with
  | some c => .ok c
  | none => .error "No trusted signing certificate; capture must not advance local state"

def latestGeneration : Option Nat :=
  ((s.certificates.filter (certifies E s publicKey)).map DeviceCertificate.authorityGeneration).max?

def latestCaptureAuthorityForKey : Except String DeviceCertificate :=
  match latestGeneration E s publicKey with
  | none => .error "No trusted capture authority for this signing key"
  | some generation => validateCaptureAuthorityForKey E s publicKey generation

def snapshotRow (key : Bytes) (record : SnapshotRecord) (encryptedManifest : Bytes) : SnapshotRow :=
  { snapshotId := key, record := record, encryptedManifest := encryptedManifest, state := .localOnly }

variable (record : SnapshotRecord)

/-- Stores the record with its manifest, the chunks and the pending upload. -/
def saveSnapshot (encryptedManifest : Bytes) (chunks : List ChunkWireObject) : Except String LocalStore := do
  let recordCid ← (record.computeRecordCid E).mapError formatFailure
  let cids ← (chunks.mapM (ChunkWireObject.computeCid E)).mapError formatFailure
  let byCid := upsert SnapshotRow.snapshotId (snapshotRow recordCid record encryptedManifest) s.snapshots
  return { s with
    -- The record stands under its address and under its logical id.
    snapshots :=
      if record.snapshotId ≠ recordCid then
        upsert SnapshotRow.snapshotId (snapshotRow record.snapshotId record encryptedManifest) byCid
      else byCid
    chunks := (cids.zip chunks).foldl (fun rows row => upsert fst row rows) s.chunks
    pendingUploads := upsert PendingUpload.snapshotId
      { snapshotId := record.snapshotId, recordCid := recordCid, attempts := 0, lastError := none,
        createdAtUtc := record.advisoryTimestampUtc } s.pendingUploads }

def getSnapshot (snapshotId : Bytes) : Except String (SnapshotRecord × Bytes) :=
  match find SnapshotRow.snapshotId snapshotId s.snapshots with
  | some row => .ok (row.record, row.encryptedManifest)
  | none => .error ("Record not found: Snapshot " ++ hex snapshotId)

def getChunks (cids : List Bytes) : List ChunkWireObject :=
  cids.filterMap fun cid => (find fst cid s.chunks).map snd

/-- Makes a head the active one. -/
def setHead (head : HeadRecord) : Except String LocalStore := do
  let _ ← (toCanonicalCbor E (.head head)).mapError formatFailure
  return { s with
    heads := upsert HeadRow.key { head := head, isActive := true }
      (s.heads.map fun row => { row with isActive := false }) }

def getActiveHead : Option HeadRecord := (s.heads.find? HeadRow.isActive).map HeadRow.head

def getHeadForSnapshot (recordCid : Bytes) : Option HeadRecord :=
  (find HeadRow.key recordCid s.heads).map HeadRow.head

/-- `chunks.sort(); chunks.dedup()` on content addresses. -/
def sortDedup (cids : List Bytes) : List Bytes :=
  (cids.insertionSort fun a b => ¬ b.map BitVec.toNat < a.map BitVec.toNat).destutter (· ≠ ·)

theorem mem_destutter' (a b : Bytes) (cids : List Bytes) : a ∈ cids.destutter' (· ≠ ·) b ↔
    a = b ∨ a ∈ cids := by
  induction cids generalizing b with
  | nil => simp
  | cons c rest ih =>
    by_cases hbc : b = c
    · subst hbc
      rw [List.destutter'_cons_neg _ (not_not.mpr rfl), ih, mem_cons]
      tauto
    · rw [List.destutter'_cons_pos _ hbc, mem_cons, ih, mem_cons]

theorem mem_sortDedup {cids : List Bytes} {cid : Bytes} : cid ∈ sortDedup cids ↔ cid ∈ cids := by
  rw [sortDedup]
  have hsrt : cid ∈ cids.insertionSort (fun a b => ¬ b.map BitVec.toNat < a.map BitVec.toNat) ↔ cid ∈ cids :=
    mem_insertionSort _
  rw [← hsrt]
  cases cids.insertionSort (fun a b => ¬ b.map BitVec.toNat < a.map BitVec.toNat) with
  | nil => rfl
  | cons c rest => rw [List.destutter_cons', mem_destutter', mem_cons]

def getRecoverySet (headCid : Bytes) : Except String RecoverySet :=
  match find fst headCid s.recoverySets with
  | some row => .ok row.2
  | none => .error "Query returned no rows"

/-- What a recovery of the snapshot needs, by address. -/
def buildRecoverySet (recordCid publicKey signer ephemeralSk : Bytes) : Except String RecoverySet := do
  if record.version ≠ protocolVersion ∨ record.vaultId ≠ s.metadata.vaultId then
    .error "Snapshot version/vault mismatch"
  else
    (record.verify E publicKey).mapError FormatError.message
    let cert ← validateCaptureAuthorityForKey E s publicKey record.authorityGeneration
    let epochKey ← s.getEpochKey record.epoch
    let (_, encryptedManifest) ← s.getSnapshot recordCid
    let manifest ← (openManifest E record.vaultId record.epoch epochKey encryptedManifest).mapError
      SnapshotError.inner
    if manifest.version ≠ protocolVersion ∨ manifest.vaultId ≠ record.vaultId ∨
      manifest.epoch ≠ record.epoch ∨
        manifest.snapshotId ≠ record.snapshotId then
      .error "Snapshot manifest binding mismatch"
    else
      let sealedKey ← (sealBox E.toPrimitives ephemeralSk s.metadata.recoveryEncryptionPk epochKey).mapError
        CryptoError.message
      let unsigned : EpochEnvelope :=
        { version := protocolVersion
          vaultId := record.vaultId
          epoch := record.epoch
          recipientFingerprint := s.metadata.recoveryEncryptionPk
          sealedEpochKey := sealedKey
          createdAtUtc := record.advisoryTimestampUtc
          signerDeviceId := record.deviceId
          signature := [] }
      let envelope ← (unsigned.sign E signer).mapError FormatError.message
      (envelope.verify E publicKey).mapError FormatError.message
      let records ← ([.genesis s.metadata.genesis, .certificate cert, .envelope envelope].mapM
        (toCanonicalCbor E)).mapError FormatError.message
      return {
        closure :=
          { snapshotId := record.snapshotId
            snapshotRecordCid := recordCid
            manifestCid := record.encryptedManifestCid
            envelopeIds := records.map E.sha256
            chunkCids := sortDedup (manifest.live.flatMap ManifestFileEntry.chunkCids)
            totalBytes := (manifest.files.map ManifestFileEntry.rawLength).sum }
        locator := s.metadata.recoveryLocator
        records := records }

def prepareRecoverySet (publicKey signer ephemeralSk : Bytes) : Except String (LocalStore × RecoverySet) := do
  let recordCid ← (record.computeRecordCid E).mapError FormatError.message
  match find fst recordCid s.recoverySets with
  | some (_, set) =>
    if set.closure.snapshotRecordCid = recordCid ∧ set.closure.snapshotId = record.snapshotId ∧
        set.closure.manifestCid = record.encryptedManifestCid then
      return (s, set)
    else .error "Stored recovery set does not match its snapshot"
  | none =>
    let set ← buildRecoverySet E s record recordCid publicKey signer ephemeralSk
    let s' := { s with recoverySets := insertNew fst (recordCid, set) s.recoverySets }
    let stored ← s'.getRecoverySet recordCid
    return (s', stored)

def recoveryObjects (set : RecoverySet) : Except String (List (Bytes × Bytes)) := do
  if set.closure.snapshotRecordCid.length ≠ 32 then .error "Invalid snapshot CID"
  else
    let (record, manifest) ← s.getSnapshot set.closure.snapshotRecordCid
    let recordBytes ← (toCanonicalCbor E (.snapshot record)).mapError FormatError.message
    if set.closure.chunkCids.any (fun cid => cid.length ≠ 32) then .error "Invalid chunk CID"
    else
      let chunks := s.getChunks set.closure.chunkCids
      if chunks.length ≠ set.closure.chunkCids.length then .error "Local recovery set is missing file chunks"
      else
        let chunkObjects ← (chunks.mapM fun chunk => do
          let bytes ← toCanonicalCbor E (.chunk chunk)
          return (E.sha256 bytes, bytes)).mapError FormatError.message
        return [(set.closure.snapshotRecordCid, recordBytes), (E.sha256 manifest, manifest)] ++
          chunkObjects ++
          set.records.map fun r => (E.sha256 r, r)

def listPendingUploads : List PendingUpload :=
  s.pendingUploads.insertionSort fun a b => a.createdAtUtc ≤ b.createdAtUtc

def markUploadCompleted (snapshotId : Bytes) : LocalStore :=
  { s with
    pendingUploads := s.pendingUploads.filter fun item => item.snapshotId ≠ snapshotId
    snapshots := s.snapshots.map fun row =>
      if row.snapshotId = snapshotId then { row with state := .replicated } else row }

def recordUploadFailure (snapshotId : Bytes) (error : String) : LocalStore :=
  { s with
    pendingUploads := s.pendingUploads.map fun item =>
      if item.snapshotId = snapshotId then
        { item with attempts := item.attempts + 1, lastError := some error }
      else item }

section

variable {E : Externals} {s s' : LocalStore}

variable {record : SnapshotRecord} {publicKey signer ephemeralSk : Bytes} {set : RecoverySet}

theorem saveSnapshot_frame {manifest : Bytes} {chunks : List ChunkWireObject}
    (h : s.saveSnapshot E record manifest chunks = .ok s') :
    ∃ snapshots chunks pending, s' =
      { s with snapshots := snapshots, chunks := chunks, pendingUploads := pending } := by
  simp only [saveSnapshot, bind_eq_ok, pure_eq_ok] at h
  obtain ⟨_, _, _, _, rfl⟩ := h
  exact ⟨_, _, _, rfl⟩

variable {cert : DeviceCertificate} {head : HeadRecord}

theorem validateCaptureAuthorityForKey_eq_ok {generation : Nat}
    (h : s.validateCaptureAuthorityForKey E publicKey generation = .ok cert) :
    cert.version = protocolVersion ∧ cert.authorityGeneration = generation ∧
    certifies E s publicKey cert = true := by
  rw [validateCaptureAuthorityForKey] at h
  split at h
  · rename_i found hfi
    cases h
    have hf := find?_some hfi
    simp only [Bool.and_eq_true, beq_iff_eq] at hf
    exact ⟨hf.1.1, hf.1.2, hf.2⟩
  · cases h

theorem latestCaptureAuthorityForKey_eq_ok (h : s.latestCaptureAuthorityForKey E publicKey = .ok cert) :
    s.latestGeneration E publicKey = some cert.authorityGeneration ∧
      s.validateCaptureAuthorityForKey E publicKey cert.authorityGeneration = .ok cert := by
  rw [latestCaptureAuthorityForKey] at h
  split at h
  · cases h
  · rename_i generation hlatest
    obtain ⟨_, hgen, _⟩ := validateCaptureAuthorityForKey_eq_ok h
    rw [hgen]
    exact ⟨hlatest, h⟩

/-- The records of an inventory: the genesis, the certificate of the signing key and an envelope,
each small enough to be read back. -/
def Bootstraps (E : Externals) (genesis : GenesisRecord) (cert : DeviceCertificate)
    (set : RecoverySet) : Prop :=
  (∃ envelope, set.records =
    [E.encode (.genesis genesis), E.encode (.certificate cert), E.encode (.envelope envelope)]) ∧
    ∀ r ∈ set.records, r.length ≤ maxRecordSize

theorem buildRecoverySet_bootstraps {recordCid : Bytes}
    (h : s.buildRecoverySet E record recordCid publicKey signer ephemeralSk = .ok set) :
    ∃ cert, s.validateCaptureAuthorityForKey E publicKey record.authorityGeneration = .ok cert ∧
      Bootstraps E s.metadata.genesis cert set := by
  simp only [buildRecoverySet, ite_error_eq_ok, bind_eq_ok, mapError_eq_ok, pure_eq_ok]
    at h
  obtain ⟨_, _, _, cert, hce, _, _, _, _, _, _, _, _, _, envelope, _, _, _, records, hrec, rfl⟩ := h
  rw [mapM_eq_ok] at hrec
  simp only [List.forall₂_cons_left_iff, List.forall₂_nil_left_iff] at hrec
  obtain ⟨_, _, hgen, ⟨_, _, hc, ⟨_, _, he, rfl, rfl⟩, rfl⟩, rfl⟩ := hrec
  obtain ⟨rfl, hg⟩ := toCanonicalCbor_eq_ok hgen
  obtain ⟨rfl, hc⟩ := toCanonicalCbor_eq_ok hc
  obtain ⟨rfl, he⟩ := toCanonicalCbor_eq_ok he
  refine ⟨cert, hce, ⟨envelope, rfl⟩, ?_⟩
  simp only [mem_cons, not_mem_nil, or_false]
  rintro r (rfl | rfl | rfl)
  · exact hg
  · exact hc
  · exact he

theorem prepareRecoverySet_bootstraps
    (h : s.prepareRecoverySet E record publicKey signer ephemeralSk = .ok (s', set)) :
    ∀ row ∈ s'.recoverySets, row ∈ s.recoverySets ∨
      ∃ cert, s.validateCaptureAuthorityForKey E publicKey record.authorityGeneration = .ok cert ∧
        Bootstraps E s.metadata.genesis cert row.2 := by
  rw [prepareRecoverySet, bind_eq_ok] at h
  obtain ⟨cid, _, h⟩ := h
  split at h
  · split at h
    · cases h
      exact fun row hrow => .inl hrow
    · cases h
  · simp only [bind_eq_ok, pure_eq_ok, Prod.mk.injEq] at h
    obtain ⟨built, hbuild, _, _, rfl, _⟩ := h
    intro row hrow
    rcases mem_insertNew hrow with hold | rfl
    · exact .inl hold
    · exact .inr (buildRecoverySet_bootstraps hbuild)

theorem prepareRecoverySet_frame
    (h : s.prepareRecoverySet E record publicKey signer ephemeralSk = .ok (s', set)) :
    ∃ sets, s' = { s with recoverySets := sets } := by
  rw [prepareRecoverySet, bind_eq_ok] at h
  obtain ⟨cid, _, h⟩ := h
  split at h
  · split at h
    · cases h
      exact ⟨s.recoverySets, rfl⟩
    · cases h
  · simp only [bind_eq_ok, pure_eq_ok, Prod.mk.injEq] at h
    obtain ⟨_, _, _, _, rfl, _⟩ := h
    exact ⟨_, rfl⟩

theorem setHead_eq_ok (h : s.setHead E head = .ok s') :
    s' = { s with
      heads := upsert HeadRow.key { head := head, isActive := true }
        (s.heads.map fun row => { row with isActive := false }) } := by
  simp only [setHead, bind_eq_ok, pure_eq_ok] at h
  obtain ⟨_, _, rfl⟩ := h
  rfl

theorem getActiveHead_setHead (h : s.setHead E head = .ok s') : s'.getActiveHead = some head := by
  rw [setHead_eq_ok h, getActiveHead, find?_upsert, Option.map_some]
  · intro row hrow
    obtain ⟨old, _, rfl⟩ := mem_map.mp hrow
    rfl
  · rfl

end

end LocalStore
end CipherVault.Store
