import CipherVault.Format.Lawful

/-!
# Format.Canonical

`crates/format/src/canonical.rs` for every record type. `ciborium` and the code that `serde` derives
for the type are outside the repository: `Serde` has what is assumed of them. The first item of the
input is read and what stands behind it is left, and entries whose name the type does not have are
passed over.
-/

namespace CipherVault.Format.Canonical

open Crypto List

/-- `ciborium` with the derived code of a record type. A record is written as a map with one entry
for each field. -/
structure Serde (α : Type) where
  Item : Type
  Entry : Type
  /-- The first item of an input and what stands behind it. -/
  readItem : Bytes → Option (Item × Bytes)
  writeItem : Item → Bytes
  /-- The entries of an item that is read as a map. -/
  entries : Item → Option (List Entry)
  ofEntries : List Entry → Item
  /-- Whether an entry has the name of a field of the type. -/
  known : Entry → Bool
  serialize : α → List Entry
  deserialize : List Entry → Option α
  readItem_writeItem : ∀ item rest, readItem (writeItem item ++ rest) = some (item, rest)
  entries_ofEntries : ∀ written, entries (ofEntries written) = some written
  known_serialize : ∀ value, ∀ entry ∈ serialize value, known entry = true
  deserialize_serialize : ∀ value, deserialize (serialize value) = some value

namespace Serde

variable {α : Type} (L : Serde α)

def intoWriter (value : α) : Bytes := L.writeItem (L.ofEntries (L.serialize value))

def fromReader (bytes : Bytes) : Option α := do
  let (item, _) ← L.readItem bytes
  let read ← L.entries item
  L.deserialize (read.filter L.known)

def toCanonicalCbor (value : α) : Except FormatError Bytes :=
  if (L.intoWriter value).length > maxRecordSize then
    .error (.sizeLimitExceeded maxRecordSize (L.intoWriter value).length)
  else .ok (L.intoWriter value)

def fromCanonicalCbor (bytes : Bytes) : Except FormatError α :=
  Format.fromCanonicalCbor L.fromReader bytes

variable {L}

variable {bytes : Bytes}

end Serde

namespace Spellings

open Codec

def entry : Codec (Nat × Bytes) := nat.pair .bytes

/-- A field by its number, wherever it stands. -/
def field {β : Type} (c : Codec β) (number : Nat) (read : List (Nat × Bytes)) : Option β :=
  (read.lookup number).bind c.decode

/-- `HeadRecord` with the numbers of its fields for their names, and length-prefixed values. -/
def heads : Serde HeadRecord where
  Item := List (Nat × Bytes)
  Entry := Nat × Bytes
  readItem := entry.list.take
  writeItem := entry.list.put
  entries := some
  ofEntries := id
  known e := e.1 < 8
  serialize h := [(0, nat.put h.version), (1, bytes.put h.vaultId), (2, bytes.put h.snapshotId),
    (3, bytes.list.put h.parentSnapshotIds), (4, bytes.put h.closureDigest),
    (5, bytes.put h.deviceId), (6, nat.put h.deviceCounter), (7, bytes.put h.signature)]
  deserialize read := do
    let version ← field nat 0 read
    let vaultId ← field bytes 1 read
    let snapshotId ← field bytes 2 read
    let parentSnapshotIds ← field bytes.list 3 read
    let closureDigest ← field bytes 4 read
    let deviceId ← field bytes 5 read
    let deviceCounter ← field nat 6 read
    let signature ← field bytes 7 read
    return ⟨version, vaultId, snapshotId, parentSnapshotIds, closureDigest, deviceId, deviceCounter,
      signature⟩
  readItem_writeItem := entry.list.take_put
  entries_ofEntries _ := rfl
  known_serialize h := by simp
  deserialize_serialize h := by simp [field, List.lookup_cons]

def head : HeadRecord :=
  { version := 1
    vaultId := replicate 32 3#8
    snapshotId := replicate 32 9#8
    parentSnapshotIds := []
    closureDigest := replicate 32 7#8
    deviceId := replicate 32 5#8
    deviceCounter := 1
    signature := replicate 64 2#8 }

def written : List (Nat × Bytes) := heads.serialize head

end Spellings

end CipherVault.Format.Canonical
