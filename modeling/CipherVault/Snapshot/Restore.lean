import CipherVault.Snapshot.Engine

/-!
# Snapshot.Restore

`crates/snapshot/src/restore.rs`: the journaled publication of decrypted files, without interruption
and with file operations that succeed. The directory is a `Tree` and, apart from it, the stage: the
tree has nothing under the two reserved names.
-/

namespace CipherVault.Snapshot

open Crypto Format

def stageName : Text := ".ciphervault-restore".toList

def lockName : Text := ".ciphervault-restore.lock".toList

structure Entry where
  path : Text
  previousDigest : Option Bytes
  newDigest : Bytes
deriving DecidableEq

structure Journal where
  version : Nat
  (publishing committed : Bool)
  entries : List Entry

inductive JournalFile where
  | tooLarge
  | invalid (error : String)
  | journal (j : Journal)

structure Stage where
  backups : List (Option Bytes)
  journal : Option JournalFile

/-- The workspace, with what an interrupted restore left. -/
structure Disk where
  tree : Tree
  stage : Option Stage

namespace Tree

def setNode (t : Tree) (place : List Component) (node : Option Node) : Tree :=
  { node := Function.update t.node place node }

def createDirs (t : Tree) : List (List Component) → Except SnapshotError Tree
  | [] => .ok t
  | place :: rest =>
    match t.node place with
    | none => createDirs (t.setNode place (some .directory)) rest
    | some .directory => createDirs t rest
    | some _ => .error (.ioError "Not a directory (os error 20)")

end Tree

variable (E : Externals)

def fileDigest (t : Tree) (place : List Component) : Except SnapshotError Bytes := do
  let bytes ← t.openRegularFile place
  if bytes.length > maxFileSize then .error (.fileTooLarge (display place).toList bytes.length)
  else return E.sha256 bytes

def eqIgnoreAsciiCase (a b : Text) : Bool := toAsciiLowercase a == toAsciiLowercase b

def firstPart (relative : Text) : Text := relative.takeWhile fun c => c != '/' && c != '\\'

def checkParent (t : Tree) (place : List Component) : Except SnapshotError Unit :=
  match t.node place with
  | some .directory => .ok ()
  | some _ => .error (.unsafePath ("Restore parent is not a directory: " ++ display place))
  | none => if t.belowFile place then .error (.ioError "Not a directory (os error 20)") else .ok ()

/-- Where a path may be written, in the tree as it is. -/
def validateDestination (t : Tree) (relative : Text) : Except SnapshotError (List Component) := do
  validateSafeRelativePath relative
  if eqIgnoreAsciiCase (firstPart relative) stageName || eqIgnoreAsciiCase (firstPart relative) lockName then
    .error (.unsafePath "Path reserved for restore transaction metadata")
  else
    let place := locate relative
    validateNoLinks t place
    if t.node place = some .directory then
      .error (.unsafePath ("Restore destination is not a regular file: " ++ display place))
    else
      (Tree.parents place).reverse.forM (checkParent t)
      return place

def normalized (relative : Text) : Text :=
  List.intercalate ['/'] ((components (portable relative)).map fun c => toAsciiLowercase c.text)

def planDestinations (t : Tree) : List DecryptedFile → List Text →
    Except SnapshotError (List (List Component))
  | [], _ => .ok []
  | file :: rest, seen => do
    if seen.contains (normalized file.relativePath) then .error (.unsafePath "Duplicate restore destination")
    else
      let place ← validateDestination t file.relativePath
      let places ← planDestinations t rest (normalized file.relativePath :: seen)
      return place :: places

def namePrefixes (name : Text) : List Text :=
  (name.splitOn '/').inits.tail.map (List.intercalate ['/'])

def collides (names : List Text) : Bool :=
  names.any fun name => (namePrefixes name).any fun p => p != name && names.contains p

def backupOf (backup : Option Bytes) (entry : Entry) : Except SnapshotError (Option Bytes) :=
  match entry.previousDigest, backup with
  | none, _ => .ok none
  | some _, none => .error (.invalidInput "Restore backup missing; journal retained")
  | some previous, some bytes =>
    if bytes.length > maxFileSize then .error (.fileTooLarge entry.path bytes.length)
    else if E.sha256 bytes ≠ previous then
      .error (.invalidInput "Restore backup digest mismatch; journal retained")
    else .ok (some bytes)

/-- Puts one file back, unless someone else has changed it. -/
def rollbackEntry (t : Tree) (backup : Option Bytes) (entry : Entry) : Except SnapshotError Tree := do
  let place ← validateDestination t entry.path
  if t.pathExists place then
    let digest ← fileDigest E t place
    if digest ≠ entry.newDigest ∧ entry.previousDigest ≠ some digest then
      .error (.invalidInput
        ("Restore rollback stopped: " ++ display place ++
          " changed outside this transaction; journal retained"))
    else
      let previous ← backupOf E backup entry
      return t.setNode place (previous.map .file)
  else
    let previous ← backupOf E backup entry
    match previous with
    | some bytes => return t.setNode place (some (.file bytes))
    | none => return t

/-- The entries that are left, the last one first; what was written back before an error stays. -/
def rollbackEntries (E : Externals) (t : Tree) : List (Entry × Option Bytes) →
    Tree × Except SnapshotError Unit
  | [] => (t, .ok ())
  | (entry, backup) :: rest =>
    match rollbackEntry E t backup entry with
    | .error e => (t, .error e)
    | .ok t' => rollbackEntries E t' rest

def rollback (t : Tree) (entries : List Entry) (backups : List (Option Bytes)) :
    Tree × Except SnapshotError Unit :=
  rollbackEntries E t (entries.mapIdx fun i entry => (entry, (backups[i]?).join)).reverse

/-- What an interrupted restore left is rolled back, or cleaned up if it was done. -/
def recoverLocked (d : Disk) : Disk × Except SnapshotError Bool :=
  match d.stage with
  | none => (d, .ok false)
  | some stage =>
    match stage.journal with
    | some .tooLarge => (d, .error (.invalidInput "Restore journal is too large"))
    | some (.invalid error) => (d, .error (.invalidInput ("Invalid restore journal: " ++ error)))
    | some (.journal j) =>
      if j.version ≠ 1 then (d, .error (.invalidInput "Unsupported restore journal version"))
      else if j.publishing && !j.committed then
        match rollback E d.tree j.entries stage.backups with
        | (t, .error e) => ({ d with tree := t }, .error e)
        | (t, .ok _) => ({ tree := t, stage := none }, .ok true)
      else ({ d with stage := none }, .ok true)
    | none => ({ d with stage := none }, .ok true)

structure Staged where
  file : DecryptedFile
  place : List Component
  backup : Option Bytes

def Staged.entry (x : Staged) : Entry :=
  { path := x.file.relativePath
    previousDigest := x.backup.map E.sha256
    newDigest := E.sha256 x.file.plaintext }

def backUp (t : Tree) (place : List Component) : Except SnapshotError (Option Bytes) :=
  if t.pathExists place then do
    let _ ← fileDigest E t place
    let bytes ← t.openRegularFile place
    return some bytes
  else .ok none

def currentDigest (t : Tree) (place : List Component) : Except SnapshotError (Option Bytes) :=
  if t.pathExists place then (fileDigest E t place).map some else .ok none

def stageFile (t : Tree) (file : DecryptedFile) (place : List Component) :
    Except SnapshotError (Tree × Staged) := do
  let backup ← backUp E t place
  let t' ← t.createDirs (Tree.parents place)
  return (t', { file := file, place := place, backup := backup })

def stageFiles (E : Externals) (t : Tree) :
    List (DecryptedFile × List Component) → Tree × Except SnapshotError (List Staged)
  | [] => (t, .ok [])
  | (file, place) :: rest =>
    match stageFile E t file place with
    | .error e => (t, .error e)
    | .ok (t', x) =>
      match stageFiles E t' rest with
      | (t'', .error e) => (t'', .error e)
      | (t'', .ok xs) => (t'', .ok (x :: xs))

def publishFile (t : Tree) (x : Staged) : Except SnapshotError Tree := do
  let _ ← validateDestination t x.file.relativePath
  let current ← currentDigest E t x.place
  if current ≠ (x.entry E).previousDigest then .error (.concurrentModification x.file.relativePath)
  else return t.setNode x.place (some (.file x.file.plaintext))

def publishFiles (E : Externals) (t : Tree) : List Staged → Tree × Except SnapshotError Unit
  | [] => (t, .ok ())
  | x :: rest =>
    match publishFile E t x with
    | .error e => (t, .error e)
    | .ok t' => publishFiles E t' rest

/-- Stages, publishes, and rolls back on an error. -/
def publishStaged (t : Tree) (files : List (DecryptedFile × List Component)) :
    Disk × Except SnapshotError Unit :=
  match stageFiles E t files with
  | (t₁, .error e) => ({ tree := t₁, stage := none }, .error e)
  | (t₁, .ok staged) =>
    match publishFiles E t₁ staged with
    | (t₂, .ok _) => ({ tree := t₂, stage := none }, .ok ())
    | (t₂, .error e) =>
      let entries := staged.map (Staged.entry E)
      let backups := staged.map Staged.backup
      match rollback E t₂ entries backups with
      | (t₃, .ok _) => ({ tree := t₃, stage := none }, .error e)
      | (t₃, .error r) =>
        ({ tree := t₃
           stage := some
            { backups := backups
              journal := some (.journal
                { version := 1, publishing := true, committed := false, entries := entries }) } },
          .error (.invalidInput ("Restore failed (" ++ e.message ++ "); rollback failed (" ++ r.message ++
            "); journal at " ++ String.ofList stageName)))

/-- `publish_with`, with no other program and no failing operation. -/
def publishVerifiedFiles (d : Disk) (files : List DecryptedFile) :
    Disk × Except SnapshotError (List (List Component)) :=
  match recoverLocked E d with
  | (d', .error e) => (d', .error e)
  | (d', .ok _) =>
    match planDestinations d'.tree files [] with
    | .error e => (d', .error e)
    | .ok places =>
      if collides (files.map fun file => normalized file.relativePath) then
        (d', .error (.unsafePath "File/directory collision in restore destinations"))
      else
        match publishStaged E d'.tree (files.zip places) with
        | (d'', .error e) => (d'', .error e)
        | (d'', .ok _) => (d'', .ok places)

def restoreSnapshot (d : Disk) (vaultId epochKey : Bytes) (epoch : Nat) (encryptedManifest : Bytes)
    (chunks : List ChunkWireObject) : Disk × Except SnapshotError (List (List Component)) :=
  match decryptSnapshot E vaultId epochKey epoch encryptedManifest chunks with
  | .error e => (d, .error e)
  | .ok files => publishVerifiedFiles E d files

end CipherVault.Snapshot
