import CipherVault.Network.Operator
import CipherVault.Snapshot.Restore
import CipherVault.Store.Db
import CipherVault.Trust.Select

/-!
# Device.Pull

`cmd_pull` of `apps/cli/src/commands/restore.rs`, over whatever the operators answer.
-/

namespace CipherVault.Device

open Crypto Format Snapshot Store Network Trust

/-- What the configured operators answer: each the records of the locator, and for an address the
objects in the order in which the answers arrive. -/
structure Pool where
  logs : List (Option (List Bytes))
  answers : Bytes → List (Option Bytes)

variable (E : Externals)

namespace Pool

def records (pool : Pool) : List Bytes := queryRecoveryRecords (pool.logs.filterMap id)

def fetchObjectFromAny (pool : Pool) (cid : Bytes) : Except String Bytes :=
  match ((pool.answers cid).filterMap id).find? fun bytes => E.sha256 bytes = cid with
  | some bytes => .ok bytes
  | none =>
    .error ("Operator unreachable: all (Object " ++ hex cid ++
      " not found on any surviving operator)")

def ofOperator (op : Operator) : Pool :=
  { logs := [some op.log]
    answers := fun cid => [op.objects.lookup cid] }

end Pool

/-! ## The checks before anything is written -/

variable (s : LocalStore)

/-- The head to pull: the one that the records of all operators select. -/
def chooseHead (pool : Pool) : Except String Authenticated :=
  if pool.logs = [] then .error "No operators configured. Cannot pull from remote federation."
  else if pool.records = [] then
    .error "No recovery records found on any surviving operator for this vault locator."
  else selectHead E pool.records s.metadata.vaultId s.metadata.recoverySigningPk

def anyMissing (t : Tree) : Bool := s.listTrackedFiles.any fun row => !t.pathExists (locate row.1)

def capturedHashes : Except String (List (Text × Bytes)) :=
  match s.getActiveHead with
  | none => .ok []
  | some head => do
    if head.snapshotId.length ≠ 32 then .error "Invalid local snapshot head"
    else
      let (previous, encrypted) ← s.getSnapshot head.snapshotId
      let previousKey ← s.getEpochKey previous.epoch
      let manifest ← (openManifest E s.metadata.vaultId previous.epoch previousKey encrypted).mapError
        SnapshotError.inner
      return (manifest.live.map fun entry => (entry.relativePath, entry.plaintextSha256)).reverse

def isDirty (t : Tree) (captured : List (Text × Bytes)) (path : Text) : Except String Bool :=
  if t.pathExists (locate path) then
    match t.openRegularFile (locate path) with
    | .error _ => .error ("Cannot check local changes in " ++ String.ofList path ++ "; refusing to overwrite")
    | .ok bytes =>
      if bytes.length > maxFileSize then
        .error ("Cannot check local changes in " ++ String.ofList path ++ "; refusing to overwrite")
      else .ok (captured.lookup (portable path) != some (E.sha256 bytes))
  else .ok (captured.lookup (portable path)).isSome

def dirtyFiles (E : Externals) (t : Tree) (captured : List (Text × Bytes)) : List (Text × Bytes) →
    Except String (List Text)
  | [] => .ok []
  | (path, _) :: rest => do
    let dirty ← isDirty E t captured path
    let others ← dirtyFiles E t captured rest
    return if dirty then path :: others else others

/-- The guard against local modifications. -/
def checkClean (t : Tree) : Except String Unit := do
  let captured ← capturedHashes E s
  let dirty ← dirtyFiles E t captured s.listTrackedFiles
  if dirty ≠ [] then
    .error ("Local tracked file(s) have uncommitted modifications: " ++
      ", ".intercalate (dirty.map String.ofList) ++
      "\nCommit changes with 'ciphervault push' or discard with 'ciphervault pull --force'")
  else return ()

structure Fetched where
  record : SnapshotRecord
  (epochKey encryptedManifest : Bytes)
  manifest : SnapshotManifest
  chunks : List ChunkWireObject

def sliceMismatch : String := "copy_from_slice: source slice length does not match destination slice length"

def fetchChunk (pool : Pool) (localChunks : List (Bytes × ChunkWireObject)) (cid : Bytes) :
    Except String ChunkWireObject :=
  match localChunks.lookup cid with
  | some chunk => .ok chunk
  | none => do
    let bytes ← pool.fetchObjectFromAny E cid
    (fromCanonicalCbor E.decodeChunk bytes).mapError FormatError.message

/-- Record, key, manifest and chunks of a head, each checked. -/
def fetchSnapshot (pool : Pool) (chosen : Authenticated) : Except String Fetched := do
  let recordBytes ← pool.fetchObjectFromAny E chosen.1.snapshotId
  let record ← (fromCanonicalCbor E.decodeSnapshot recordBytes).mapError FormatError.message
  verifySnapshot E record chosen.1 chosen.2
  let epochKey ← (s.getEpochKey record.epoch).mapError fun _ =>
    s!"Epoch {record.epoch} key is required to pull this snapshot"
  if record.encryptedManifestCid.length ≠ 32 then .error sliceMismatch
  else
    let encryptedManifest ← pool.fetchObjectFromAny E record.encryptedManifestCid
    let manifest ← (openManifest E s.metadata.vaultId record.epoch epochKey encryptedManifest).mapError
      SnapshotError.inner
    let cids := manifest.live.flatMap ManifestFileEntry.chunkCids
    if cids.any fun cid => cid.length ≠ 32 then .error sliceMismatch
    else
      let localChunks := ((s.getChunks (LocalStore.sortDedup cids)).filterMap fun chunk =>
        (chunk.computeCid E).toOption.map fun cid => (cid, chunk)).reverse
      let chunks ← (LocalStore.sortDedup cids).mapM (fetchChunk E pool localChunks)
      return { record := record, epochKey := epochKey, encryptedManifest := encryptedManifest,
               manifest := manifest,
               chunks := chunks }

inductive PullEnding where
  | upToDate
  | dryRun
  | synchronized (places : List (List Component))

def upToDate (t : Tree) (chosen : HeadRecord) (force : Bool) : Bool :=
  s.getActiveHead.any (fun active => active.snapshotId = chosen.snapshotId) && !force && !anyMissing s t

def adoptSnapshot (ids : Text → Bytes) (s : LocalStore) (head : HeadRecord) (fetched : Fetched) :
    LocalStore × Except String Unit :=
  let tracked := fetched.manifest.live.foldl
    (fun s entry => s.trackFile entry.relativePath (ids entry.relativePath)) s
  match tracked.saveSnapshot E fetched.record fetched.encryptedManifest fetched.chunks with
  | .error e => (tracked, .error e)
  | .ok saved =>
    match saved.setHead E head with
    | .error e => (saved, .error e)
    | .ok stored => (stored, .ok ())

def pullSnapshot (t : Tree) (pool : Pool) (chosen : Authenticated) (force : Bool) :
    Except String Fetched := do
  if force then fetchSnapshot E s pool chosen
  else
    checkClean E s t
    fetchSnapshot E s pool chosen

/-- Restores the files, then adopts the snapshot. -/
def applySnapshot (ids : Text → Bytes) (s : LocalStore) (d : Disk) (head : HeadRecord)
    (fetched : Fetched) : LocalStore × Disk × Except String PullEnding :=
  match restoreSnapshot E d s.metadata.vaultId fetched.epochKey fetched.record.epoch fetched.encryptedManifest
      fetched.chunks with
  | (d', .error e) => (s, d', .error e.message)
  | (d', .ok places) =>
    match adoptSnapshot E ids s head fetched with
    | (s', .error e) => (s', d', .error e)
    | (s', .ok _) => (s', d', .ok (.synchronized places))

/-- `cmd_pull`. -/
def cmdPull (ids : Text → Bytes) (s : LocalStore) (d : Disk) (pool : Pool) (dryRun force : Bool) :
    LocalStore × Disk × Except String PullEnding :=
  match chooseHead E s pool with
  | .error e => (s, d, .error e)
  | .ok chosen =>
    if upToDate s d.tree chosen.1 force then (s, d, .ok .upToDate)
    else if dryRun then (s, d, .ok .dryRun)
    else
      match pullSnapshot E s d.tree pool chosen force with
      | .error e => (s, d, .error e)
      | .ok fetched => applySnapshot E ids s d chosen.1 fetched

/-! ## What a pull does to the store -/

section

variable {E : Externals} {ids : Text → Bytes} {s : LocalStore} {d : Disk} {pool : Pool} {dryRun force : Bool}

theorem trackFiles_frame (ids : Text → Bytes) (entries : List ManifestFileEntry) (s : LocalStore) :
    ∃ tracked, entries.foldl (fun s entry => s.trackFile entry.relativePath (ids entry.relativePath)) s =
      { s with trackedFiles := tracked } := by
  induction entries generalizing s with
  | nil => exact ⟨s.trackedFiles, rfl⟩
  | cons entry rest ih => exact ih _

theorem applySnapshot_store (head : HeadRecord) (fetched : Fetched) :
    (applySnapshot E ids s d head fetched).1 = s ∨
      (applySnapshot E ids s d head fetched).1 = (adoptSnapshot E ids s head fetched).1 := by
  rw [applySnapshot]
  split
  · exact .inl rfl
  · split
    · rename_i h
      exact .inr (by rw [h])
    · rename_i h
      exact .inr (by rw [h])

theorem cmdPull_store : (cmdPull E ids s d pool dryRun force).1 = s ∨
    ∃ chosen fetched, chooseHead E s pool = .ok chosen ∧
      pullSnapshot E s d.tree pool chosen force = .ok fetched ∧
      (cmdPull E ids s d pool dryRun force).1 = (adoptSnapshot E ids s chosen.1 fetched).1 := by
  rw [cmdPull]
  split
  · exact .inl rfl
  · rename_i chosen hcho
    split
    · exact .inl rfl
    · split
      · exact .inl rfl
      · split
        · exact .inl rfl
        · rename_i fetched hfet
          exact (applySnapshot_store chosen.1 fetched).imp_right fun h => ⟨chosen, fetched, hcho, hfet, h⟩

end

end CipherVault.Device
