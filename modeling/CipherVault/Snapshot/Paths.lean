import CipherVault.Snapshot.Chunker

/-!
# Snapshot.Paths

`validate_safe_relative_path` and `validate_no_links` of `crates/snapshot/src/engine.rs`, over the
Unix reading of a path (`std::path::Path::components`). A directory tree gives a node to the
components of a path below its root. Links are nodes below the root; what is above it is taken to be
plain directories.
-/

namespace CipherVault.Snapshot

open Crypto

/-- `std::path::Component`. -/
inductive Component where
  | rootDir
  | curDir
  | parentDir
  | normal (name : Text)
deriving DecidableEq

def Component.text : Component → Text
  | .rootDir => ['/']
  | .curDir => ['.']
  | .parentDir => ['.', '.']
  | .normal name => name

def componentOf (part : Text) : Option Component :=
  if part = [] ∨ part = ['.'] then none
  else if part = ['.', '.'] then some .parentDir
  else some (.normal part)

variable (path : Text)

def components : List Component :=
  match path with
  | '/' :: rest => .rootDir :: (rest.splitOn '/').filterMap componentOf
  | _ =>
    match path.splitOn '/' with
    | ['.'] :: rest => .curDir :: rest.filterMap componentOf
    | parts => parts.filterMap componentOf

def portable : Text := path.map fun c => if c = '\\' then '/' else c

def toAsciiUppercase (text : Text) : Text := text.map Char.toUpper

def toAsciiLowercase (text : Text) : Text := text.map Char.toLower

def isIllegal (ch : Char) : Bool :=
  ch < ' ' || ch == '<' || ch == '>' || ch == ':' || ch == '"' || ch == '|' || ch == '?' || ch == '*'

def reservedStems : List Text :=
  ["CON", "PRN", "AUX", "NUL", "COM1", "COM2", "COM3", "COM4", "COM5", "COM6", "COM7", "COM8", "COM9",
    "LPT1", "LPT2", "LPT3", "LPT4", "LPT5", "LPT6", "LPT7", "LPT8", "LPT9"].map String.toList

def checkComponent : Component → Except SnapshotError Unit
  | .normal s =>
    if s.getLast? = some '.' ∨ s.getLast? = some ' ' then
      .error (.unsafePath ("Component ends with space or dot: " ++ String.ofList path))
    else if toAsciiUppercase (s.takeWhile (· != '.')) ∈ reservedStems then
      .error (.unsafePath ("Windows reserved device name rejected: " ++ String.ofList path))
    else .ok ()
  | _ => .error (.unsafePath ("Unsafe path component rejected: " ++ String.ofList path))

def checkComponents (path : Text) : List Component → Except SnapshotError Unit
  | [] => .ok ()
  | c :: rest =>
    match checkComponent path c with
    | .error e => .error e
    | .ok _ => checkComponents path rest

def validateSafeRelativePath : Except SnapshotError Unit :=
  if path = [] then .error (.unsafePath "Path cannot be empty")
  else match path.find? isIllegal with
    | some ch => .error (.unsafePath
        ("Path contains illegal character '" ++ String.singleton ch ++ "': " ++ String.ofList path))
    | none => checkComponents path (components (portable path))

inductive Node where
  | file (bytes : Bytes)
  | directory
  /-- A symbolic link, and whether it leads to something. -/
  | link (resolves : Bool)
deriving DecidableEq

structure Tree where
  node : List Component → Option Node

/-- Where `root.join(path)` leads. A `/` or `/.` at the end is dropped here; for a file the operating
system refuses it (`Not a directory`), so that no capture records such a path. -/
def locate : List Component := (components path).filter (· != .curDir)

namespace Tree

def pathExists (t : Tree) (place : List Component) : Bool :=
  match t.node place with
  | some (.link resolves) => resolves
  | some _ => true
  | none => false

def content (t : Tree) (place : List Component) : Option Bytes :=
  match t.node place with
  | some (.file bytes) => some bytes
  | _ => none

def isLink (t : Tree) (place : List Component) : Bool :=
  match t.node place with
  | some (.link _) => true
  | _ => false

/-- The directories between the root and a place. -/
def parents (place : List Component) : List (List Component) := place.inits.dropLast.tail

/-- Below a file the operating system reports something else than a missing path. -/
def belowFile (t : Tree) (place : List Component) : Bool :=
  (t.node place).isNone && (parents place).any fun p => (t.content p).isSome

def openRegularFile (t : Tree) (place : List Component) : Except SnapshotError Bytes :=
  match t.content place with
  | some bytes => .ok bytes
  | none => .error (.ioError "source is not a regular file")

end Tree

variable {p : List Component}

theorem openRegularFile_eq_ok {bytes : Bytes} {t : Tree} : t.openRegularFile p = .ok bytes ↔
    t.content p = some bytes := by
  rw [Tree.openRegularFile]
  cases t.content p with
  | none | some => simp

theorem content_of_not_pathExists {t : Tree} (h : ¬ t.pathExists p = true) : t.content p = none := by
  rw [Tree.pathExists] at h
  rw [Tree.content]
  cases hnode : t.node p with
  | none => rfl
  | some node =>
    rw [hnode] at h
    cases node with
    | link resolves => rfl
    | file bytes => exact absurd rfl h
    | directory => rfl

def display (place : List Component) : String :=
  String.ofList (List.intercalate ['/'] (place.map Component.text))

def ancestors (place : List Component) : List (List Component) := place.inits.reverse

/-- What `symlink_metadata` tells against a place: a link, or an error other than a missing path. -/
def linkError (t : Tree) (place : List Component) : Option SnapshotError :=
  if t.isLink place then some (.unsafePath ("Refusing symlink or reparse point: " ++ display place))
  else if t.belowFile place then some (.ioError "Not a directory (os error 20)")
  else none

def validateNoLinks (t : Tree) (place : List Component) : Except SnapshotError Unit :=
  match (ancestors place).findSome? (linkError t) with
  | some e => .error e
  | none => .ok ()

end CipherVault.Snapshot
