import CipherVault.Base.Faulty
import CipherVault.Snapshot.Restore

/-!
# Snapshot.Faults

`crates/snapshot/src/restore.rs` step by step, where every file operation can fail or be the last:
publication, rollback, and recovery after an interruption. A `Volume` is the tree and, apart from
it, the stage. Temporary names have no random part here, since a new name does not meet an old one.
Reads in a row are one step, and so are the creation, writing and syncing of a file.
-/

namespace CipherVault.Snapshot.Faults

open Crypto Format

/-- The files of the stage. -/
inductive StageName where
  | new (index : Nat)
  | backup (index : Nat)
  | rollback (index : Nat)
  | journal
  | journalTmp
deriving DecidableEq

/-- The workspace and the stage of a restore. -/
structure Volume where
  tree : Tree
  /-- The files of the stage, when its directory is there. -/
  stage : Option (StageName → Option Bytes)

def Volume.stageFile (v : Volume) (name : StageName) : Option Bytes := v.stage.bind fun files => files name

def Volume.setStageFile (v : Volume) (name : StageName) (content : Option Bytes) : Volume :=
  { v with stage := v.stage.map fun files => Function.update files name content }

/-- The stage after some of its files were removed. -/
def Volume.keepOnly (v : Volume) (kept : StageName → Bool) : Volume :=
  { v with stage := v.stage.map fun files name => if kept name then files name else none }

/-- How far an interrupted operation has come: bytes written or directories made, and files of the
stage that are not removed. -/
structure Cut where
  count : Nat
  kept : StageName → Bool

structure JournalCodec where
  write : Journal → Bytes
  read : Bytes → Except String Journal
  read_write : ∀ j, read (write j) = .ok j

abbrev Action (α : Type) := Faulty Cut Volume SnapshotError α

def ioFailure : SnapshotError := .ioError "Input/output error (os error 5)"

def inspect {α : Type} (f : Volume → Except SnapshotError α) : Action α :=
  Faulty.step (fun v => (f v).map fun a => (a, v)) (fun _ v => v) ioFailure

def syncDirectory : Action Unit := inspect fun _ => .ok ()

/-- `create_secret_file`, `write_all` and `sync_all`. -/
def writeSecret (name : StageName) (bytes : Bytes) : Action Unit :=
  Faulty.step (fun v => .ok ((), v.setStageFile name (some bytes)))
    (fun cut v => if cut.count = 0 then v
      else v.setStageFile name (some (bytes.take (cut.count - 1)))) ioFailure

def renameStage (source name : StageName) : Action Unit :=
  Faulty.step (fun v =>
      match v.stageFile source with
      | some bytes => .ok ((), (v.setStageFile name (some bytes)).setStageFile source none)
      | none => .error (.ioError "No such file or directory (os error 2)"))
    (fun _ v => v) ioFailure

def replace (source : StageName) (place : List Component) : Action Unit :=
  Faulty.step (fun v =>
      match v.stageFile source with
      | some bytes =>
        .ok ((), { v.setStageFile source none with
          tree := v.tree.setNode place (some (.file bytes)) })
      | none => .error (.ioError "No such file or directory (os error 2)"))
    (fun _ v => v) ioFailure

def removeStageFile (name : StageName) : Action Unit :=
  Faulty.step (fun v => .ok ((), v.setStageFile name none)) (fun _ v => v) ioFailure

def removeIfThere (place : List Component) : Action Unit :=
  Faulty.step (fun v => .ok ((), if v.tree.pathExists place then
    { v with tree := v.tree.setNode place none } else v))
    (fun _ v => v) ioFailure

def makeDirs (place : List Component) : Action Unit :=
  Faulty.step (fun v => (v.tree.createDirs (Tree.parents place)).map fun t => ((), { v with tree := t }))
    (fun cut v =>
      match v.tree.createDirs ((Tree.parents place).take cut.count) with
      | .ok t => { v with tree := t }
      | .error _ => v)
    ioFailure

/-- `fs::create_dir` and `lock_secret_directory`. -/
def createStage : Action Unit :=
  Faulty.step (fun v =>
      match v.stage with
      | none => .ok ((), { v with stage := some fun _ => none })
      | some _ => .error (.ioError "File exists (os error 17)"))
    (fun cut v => if cut.count = 0 then v
      else { v with stage := some (v.stage.getD fun _ => none) }) ioFailure

/-- `fs::remove_dir_all`, which removes one file after the other. -/
def removeStage : Action Unit :=
  Faulty.step (fun v => .ok ((), { v with stage := none })) (fun cut v => v.keepOnly cut.kept) ioFailure

variable (E : Externals)

def checkUnchanged (t : Tree) (place : List Component) (entry : Entry) : Except SnapshotError Unit :=
  if t.pathExists place then do
    let digest ← fileDigest E t place
    if digest ≠ entry.newDigest ∧ entry.previousDigest ≠ some digest then
      .error (.invalidInput
        ("Restore rollback stopped: " ++ display place ++
          " changed outside this transaction; journal retained"))
    else return ()
  else .ok ()

variable (index : Nat)

def putBack (place : List Component) : Option Bytes → Action Unit
  | some bytes => do
    writeSecret (.rollback index) bytes
    replace (.rollback index) place
  | none => removeIfThere place

def rollbackEntry (entry : Entry) : Action Unit := do
  let place ← inspect fun v => validateDestination v.tree entry.path
  inspect fun v => checkUnchanged E v.tree place entry
  let previous ← inspect fun v => backupOf E (v.stageFile (.backup index)) entry
  putBack index place previous
  syncDirectory

def rollbackFrom (E : Externals) : Nat → List Entry → Action Unit
  | _, [] => pure ()
  | index, entry :: rest => do
    rollbackFrom E (index + 1) rest
    rollbackEntry E index entry

def rollback (journal : Journal) : Action Unit := rollbackFrom E 0 journal.entries

def maxJournalSize : Nat := 16 * 1024 * 1024

variable (C : JournalCodec)

def readJournal (v : Volume) : Except SnapshotError (Option Journal) :=
  match v.stageFile .journal with
  | none => .ok none
  | some bytes =>
    if bytes.length > maxJournalSize then .error (.invalidInput "Restore journal is too large")
    else match C.read bytes with
      | .error error => .error (.invalidInput ("Invalid restore journal: " ++ error))
      | .ok j => if j.version ≠ 1 then .error (.invalidInput "Unsupported restore journal version")
          else .ok (some j)

def undo : Option Journal → Action Unit
  | some j => if j.publishing && !j.committed then rollback E j else pure ()
  | none => pure ()

/-- The part of `recover_locked` for a stage that is there. -/
def clearStage : Action Bool := do
  let journal ← inspect (readJournal C)
  undo E journal
  removeStage
  syncDirectory
  return true

def recoverLocked : Action Bool := do
  let there ← inspect fun v => .ok v.stage.isSome
  if there then clearStage E C else return false

/-- `acquire`: the lock file is not part of the volume. -/
def acquire : Action Unit := inspect fun _ => .ok ()

def recoverInterruptedRestore : Action Bool := do
  acquire
  recoverLocked E C

def writeJournal (j : Journal) : Action Unit := do
  let result ← (do
    writeSecret .journalTmp (C.write j)
    renameStage .journalTmp .journal
    syncDirectory : Action Unit).attempt
  match result with
  | .ok _ => return ()
  | .error e => do
    let _ ← (removeStageFile .journalTmp).attempt
    Faulty.fail e

def keepBackup (file : DecryptedFile) : Option Bytes → Action Unit
  | some bytes => do
    writeSecret (.backup index) bytes
    inspect fun v =>
      if (v.stageFile (.backup index)).map E.sha256 ≠ some (E.sha256 bytes) then
        .error (.concurrentModification file.relativePath)
      else .ok ()
  | none => pure ()

def stageEntry (file : DecryptedFile) (place : List Component) : Action Staged := do
  writeSecret (.new index) file.plaintext
  let backup ← inspect fun v => backUp E v.tree place
  keepBackup E index file backup
  makeDirs place
  return { file := file, place := place, backup := backup }

def stageEntries (E : Externals) : Nat → List (DecryptedFile × List Component) → Action (List Staged)
  | _, [] => pure []
  | index, (file, place) :: rest => do
    let x ← stageEntry E index file place
    let xs ← stageEntries E (index + 1) rest
    return x :: xs

/-- One file, if it is still what was backed up. -/
def publishEntry (x : Staged) : Action Unit := do
  let _ ← inspect fun v => validateDestination v.tree x.file.relativePath
  let current ← inspect fun v => currentDigest E v.tree x.place
  if current ≠ (x.entry E).previousDigest then Faulty.fail (.concurrentModification x.file.relativePath)
  else do
    replace (.new index) x.place
    syncDirectory

def publishEntries (E : Externals) : Nat → List Staged → Action Unit
  | _, [] => pure ()
  | index, x :: rest => do
    publishEntry E index x
    publishEntries E (index + 1) rest

def journalOf (committed : Bool) (staged : List Staged) : Journal :=
  { version := 1, publishing := true, committed := committed, entries := staged.map (Staged.entry E) }

def commit (staged : List Staged) : Action Unit := do
  writeJournal C (journalOf E false staged)
  publishEntries E 0 staged
  writeJournal C (journalOf E true staged)

def rollbackFailure (e r : SnapshotError) : SnapshotError :=
  .invalidInput ("Restore failed (" ++ e.message ++ "); rollback failed (" ++ r.message ++ "); journal at " ++
    String.ofList stageName)

def abort (staged : List Staged) (e : SnapshotError) : Action Unit :=
  (rollback E (journalOf E true staged)).mapError (rollbackFailure e)

def finish (staged : List Staged) : Action Unit := do
  let result ← (commit E C staged).attempt
  match result with
  | .ok _ => do
    removeStage
    syncDirectory
  | .error e => do
    abort E staged e
    removeStage
    Faulty.fail e

/-- The two loops of `publish_with` over the destinations. -/
def acceptDestinations (t : Tree) (files : List DecryptedFile) :
    Except SnapshotError (List (List Component)) :=
  match planDestinations t files [] with
  | .error e => .error e
  | .ok places =>
    if collides (files.map fun file => normalized file.relativePath) then
      .error (.unsafePath "File/directory collision in restore destinations")
    else .ok places

/-- The part of `publish_with` before `journal.publishing` is set. -/
def prepare (files : List DecryptedFile) : Action (List Staged) := do
  acquire
  let _ ← recoverLocked E C
  let places ← inspect fun v => acceptDestinations v.tree files
  createStage
  let result ← (stageEntries E 0 (files.zip places)).attempt
  match result with
  | .ok staged => return staged
  | .error e => do
    removeStage
    Faulty.fail e

def publishVerifiedFiles (files : List DecryptedFile) : Action (List (List Component)) := do
  let staged ← prepare E C files
  finish E C staged
  return staged.map Staged.place

end CipherVault.Snapshot.Faults
