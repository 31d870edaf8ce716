import CipherVault.Base.Processes
import CipherVault.Crypto.Basic

/-!
# Store.Keyring

`read_key_file` and `provision_key_file` of `crates/local-store/src/keyring.rs`, by any number of
processes on one path of a Unix system. An operation that fails ends the call, as a crash does. The
temporary file has a random name and is synced before it is linked.
-/

namespace CipherVault.Store.Keyring

open Crypto Processes System

inductive Entry where
  | regular (content : Bytes)
  | other
deriving DecidableEq

/-- What the path has, what a power loss leaves of it, and the keys that calls have returned. The
entry of the directory itself is synced by no call, and may be new. -/
structure Disk where
  (entry durable : Option Entry)
  directoryDurable : Bool
  returned : List Bytes

/-- Where a process is in `provision_key_file`. -/
inductive Phase where
  | idle
  | reading (key : Bytes)
  | linking (key : Bytes)
  | syncing
  | rereading
deriving DecidableEq

def readKeyFile (disk : Disk) : Option Bytes :=
  match disk.entry with
  | some (.regular content) => if content.length = 32 then some content else none
  | _ => none

/-- The end of a call that has its key, or an error. -/
def finish (disk : Disk) : Disk := { disk with returned := disk.returned ++ (readKeyFile disk).toList }

def provisionKeyFile (disk : Disk) : Phase → Disk × Phase
  | .idle => (disk, .idle)
  | .reading key => if disk.entry = none then (disk, .linking key) else (finish disk, .idle)
  | .linking key =>
    if disk.entry = none then ({ disk with entry := some (.regular key) }, .syncing) else (disk, .rereading)
  | .syncing =>
    ({ disk with durable := if disk.directoryDurable then disk.entry else disk.durable },
      .rereading)
  | .rereading => (finish disk, .idle)

/-- A call comes with the key that it would draw. -/
def program : Program Disk Phase Bytes where
  idle := .idle
  isIdle phase := phase == .idle
  begin := .reading
  advance := provisionKeyFile

/-- A power loss ends all processes. It may drop an entry that is not synced. -/
inductive Move where
  | event (event : Event Bytes)
  | powerLoss (drops : Bool)

def move (s : System Disk Phase) : Move → System Disk Phase
  | .event event => step program s event
  | .powerLoss drops =>
    let entry := if drops then s.store.durable else s.store.entry
    System.new program { s.store with entry := entry, durable := entry }

def moves (s : System Disk Phase) (history : List Move) : System Disk Phase := history.foldl move s

/-- The path before the first call. -/
def start (entry : Option Entry) (directoryDurable : Bool) : System Disk Phase :=
  System.new program ⟨entry, entry, directoryDurable, []⟩

/-- No power loss drops the entry of a key that a call has returned. -/
def Safe (s : System Disk Phase) : Move → Prop
  | .event _ => True
  | .powerLoss drops => drops = false ∨ s.store.durable = s.store.entry ∨ s.store.returned = []

instance instDecidableSafe (s : System Disk Phase) : ∀ m : Move, Decidable (Safe s m)
  | .event _ => inferInstanceAs (Decidable True)
  | .powerLoss _ => inferInstanceAs (Decidable (_ ∨ _ ∨ _))

/-- Every returned key is the one at the path. -/
def Chosen (disk : Disk) : Prop := ∀ key ∈ disk.returned, readKeyFile disk = some key

variable {disk : Disk}

theorem Chosen.finish (h : Chosen disk) : Chosen (finish disk) := by
  intro key hkey
  rcases List.mem_append.mp hkey with hkey | hkey
  · exact h key hkey
  · exact Option.mem_toList.mp hkey

theorem Chosen.of_absent (h : Chosen disk) (habsent : disk.entry = none) : disk.returned = [] := by
  refine List.eq_nil_iff_forall_not_mem.mpr fun key hkey => ?_
  have hr := h key hkey
  simp [readKeyFile, habsent] at hr

theorem Chosen.advance (h : Chosen disk) (phase : Phase) : Chosen (provisionKeyFile disk phase).1 := by
  cases phase with
  | idle => exact h
  | reading key =>
    rw [provisionKeyFile]
    split
    · exact h
    · exact h.finish
  | linking key =>
    rw [provisionKeyFile]
    split
    · next habsent =>
      intro key' hkey
      cases (h.of_absent habsent ▸ hkey : key' ∈ [])
    · exact h
  | syncing => exact h
  | rereading => exact h.finish

theorem Chosen.move {s : System Disk Phase} (m : Move) (hsafe : Safe s m) (h : Chosen s.store) :
    Chosen (move s m).store := by
  cases m with
  | event event =>
    rcases step_store program s event with heq | ⟨p, -, heq⟩
    · exact heq ▸ h
    · exact heq ▸ h.advance (s.processes p)
  | powerLoss drops =>
    rcases hsafe with rfl | hdur | hn
    · exact h
    · rw [Keyring.move, hdur, ite_self]
      exact h
    · intro key hkey
      cases (hn ▸ hkey : key ∈ [])

/-- Whatever the processes and the power do, as long as no returned key is dropped, all calls return
one key. -/
theorem key_chosen_once (entry : Option Entry) (directoryDurable : Bool) (history : List Move)
    (hsafe : Runs.Along move Safe (start entry directoryDurable) history) (key key' : Bytes)
    (hkey : key ∈ (moves (start entry directoryDurable) history).store.returned)
    (hkey' : key' ∈ (moves (start entry directoryDurable) history).store.returned) :
    key = key' ∧ key.length = 32 := by
  have hcho : Chosen (moves (start entry directoryDurable) history).store :=
    hsafe.keeps (I := fun s => Chosen s.store) (fun s m hm h => h.move m hm) (fun _ h => by cases h)
  have hr := hcho key hkey
  refine ⟨Option.some.inj (hr.symm.trans (hcho key' hkey')), ?_⟩
  grind [readKeyFile]

/-- A process links its key and another one returns it; the power fails before the directory is
synced. -/
def linked : List Move :=
  [.event (.call 0 (.replicate 32 1#8)), .event (.proceed 0), .event (.proceed 0),
    .event (.call 1 (.replicate 32 2#8)), .event (.proceed 1)]

def provisionAgain : List Move :=
  .event (.call 0 (.replicate 32 3#8)) :: List.replicate 4 (.event (.proceed 0))

theorem two_keys_returned :
    (moves (start none true) (linked ++ .powerLoss true :: provisionAgain)).store.returned =
      [.replicate 32 1#8, .replicate 32 3#8] := by decide +kernel

/-- The power loss leaves the entry, and the later call finds it. -/
def kept : System Disk Phase := moves (start none true) (linked ++ .powerLoss false :: provisionAgain)

theorem one_key_returned : kept.store.returned.length = 2 ∧
    ∀ key ∈ kept.store.returned, ∀ key' ∈ kept.store.returned, key = key' ∧ key.length = 32 :=
  ⟨by decide +kernel, fun key hkey key' hkey' =>
    key_chosen_once none true (linked ++ .powerLoss false :: provisionAgain) (by decide +kernel) key
      key' hkey hkey'⟩

end CipherVault.Store.Keyring
