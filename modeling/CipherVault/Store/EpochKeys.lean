import CipherVault.Base.Dict
import CipherVault.Base.Processes
import CipherVault.Crypto.Basic

/-!
# Store.EpochKeys

`init_vault_at_epoch`, `save_epoch_key` and `rotate_epoch_key` of `crates/local-store/src/db.rs`, by
any number of processes on one database. They meet between the SQL statements; a transaction is one
access. A refused statement, a crash or a keyring that cannot be used ends the call.
-/

namespace CipherVault.Store.EpochKeys

open Crypto Processes System

structure EpochKeyRow where
  key : Bytes
  createdAtUtc : Nat
deriving DecidableEq

structure VaultDb where
  currentEpoch : Option Nat
  epochKeys : Dict Nat EpochKeyRow

inductive StoreError where
  | corruptedRecord (message : String)
  | queryReturnedNoRows
  | constraintViolation
  | toSqlConversion

def i64Max : Nat := 2 ^ 63 - 1

def u64Max : Nat := 2 ^ 64 - 1

variable (db : VaultDb) (epoch : Nat)

namespace VaultDb

def insertMetadata : Except StoreError VaultDb :=
  if i64Max < epoch then .error .toSqlConversion
  else match db.currentEpoch with
    | some _ => .error .constraintViolation
    | none => .ok { db with currentEpoch := some epoch }

/-- `INSERT INTO epoch_keys .. ON CONFLICT(epoch) DO UPDATE SET epoch_key_bytes`. -/
def upsertEpochKey (key : Bytes) (now : Nat) : Except StoreError VaultDb :=
  if i64Max < epoch then .error .toSqlConversion
  else
    let row : EpochKeyRow :=
      match db.epochKeys.lookup epoch with
      | some row => { row with key := key }
      | none => { key := key, createdAtUtc := now }
    .ok { db with epochKeys := db.epochKeys.insert epoch row }

def selectCurrentEpoch : Except StoreError Nat :=
  match db.currentEpoch with
  | some epoch => .ok epoch
  | none => .error .queryReturnedNoRows

/-- The transaction of `rotate_epoch_key`: the new key, and the new current epoch. -/
def advanceEpoch (next : Nat) (key : Bytes) (now : Nat) : Except StoreError VaultDb :=
  if i64Max < next then .error .toSqlConversion
  else match db.epochKeys.lookup next with
    | some _ => .error .constraintViolation
    | none =>
      .ok
        { currentEpoch := db.currentEpoch.map fun _ => next
          epochKeys := db.epochKeys.insert next { key := key, createdAtUtc := now } }

end VaultDb

inductive Request where
  | initVaultAtEpoch (epoch : Nat) (key : Bytes) (now : Nat)
  | saveEpochKey (epoch : Nat) (key : Bytes) (now : Nat)
  | rotateEpochKey (key : Bytes) (now : Nat)

/-- What a process does next; when it is done, the epoch that its last call returned, if any. -/
inductive Process where
  | done (result : Except StoreError (Option Nat))
  /-- `init_vault_at_epoch`, before the row of `vault_metadata`. -/
  | initialising (epoch : Nat) (key : Bytes) (now : Nat)
  /-- `init_vault_at_epoch`, before its `save_epoch_key`. -/
  | storing (epoch : Nat) (key : Bytes) (now : Nat)
  | saving (epoch : Nat) (key : Bytes) (now : Nat)
  /-- `rotate_epoch_key`, before it reads the current epoch. -/
  | rotating (key : Bytes) (now : Nat)
  /-- `rotate_epoch_key`, before its transaction. -/
  | advancing (next : Nat) (key : Bytes) (now : Nat)

def Process.isDone : Process → Bool
  | .done _ => true
  | _ => false

def Process.isStoring : Process → Bool
  | .storing _ _ _ => true
  | _ => false

def begin : Request → Process
  | .initVaultAtEpoch epoch key now =>
    if epoch = 0 then .done (.error (.corruptedRecord "cannot init vault at epoch 0"))
      else .initialising epoch key now
  | .saveEpochKey epoch key now => .saving epoch key now
  | .rotateEpochKey key now => .rotating key now

def advance : Process → VaultDb × Process
  | .done result => (db, .done result)
  | .initialising epoch key now =>
    match db.insertMetadata epoch with
    | .ok db => (db, .storing epoch key now)
    | .error e => (db, .done (.error e))
  | .storing epoch key now =>
    match db.upsertEpochKey epoch key now with
    | .ok db => (db, .done (.ok none))
    | .error e => (db, .done (.error e))
  | .saving epoch key now =>
    match db.upsertEpochKey epoch key now with
    | .ok db => (db, .done (.ok none))
    | .error e => (db, .done (.error e))
  | .rotating key now =>
    match db.selectCurrentEpoch with
    | .ok current =>
      if current + 1 ≤ u64Max then (db, .advancing (current + 1) key now)
      else (db, .done (.error (.corruptedRecord "current_epoch would overflow")))
    | .error e => (db, .done (.error e))
  | .advancing next key now =>
    match db.advanceEpoch next key now with
    | .ok db => (db, .done (.ok (some next)))
    | .error e => (db, .done (.error e))

def program : Program VaultDb Process Request where
  idle := .done (.ok none)
  isIdle := Process.isDone
  begin := begin
  advance := advance

abbrev State := System VaultDb Process

abbrev Step := Event Request

theorem insertMetadata_cases : (∃ e, db.insertMetadata epoch = .error e) ∨
      epoch ≤ i64Max ∧ db.insertMetadata epoch = .ok { db with currentEpoch := some epoch } := by
  rw [VaultDb.insertMetadata]
  split
  · exact .inl ⟨_, rfl⟩
  · next hle =>
    cases db.currentEpoch with
    | some _ => exact .inl ⟨_, rfl⟩
    | none => exact .inr ⟨Nat.not_lt.mp hle, rfl⟩

theorem upsertEpochKey_cases (key : Bytes) (now : Nat) :
    (i64Max < epoch ∧ db.upsertEpochKey epoch key now = .error .toSqlConversion) ∨
    ∃ row : EpochKeyRow, row.key = key ∧
        db.upsertEpochKey epoch key now = .ok { db with epochKeys := db.epochKeys.insert epoch row } := by
  rw [VaultDb.upsertEpochKey]
  split
  · exact .inl ⟨‹_›, rfl⟩
  · refine .inr ⟨_, ?_, rfl⟩
    cases db.epochKeys.lookup epoch with
    | some | none => rfl

theorem advanceEpoch_cases (next : Nat) (key : Bytes) (now : Nat) :
    (∃ e, db.advanceEpoch next key now = .error e) ∨ db.epochKeys.lookup next = none ∧
    db.advanceEpoch next key now =
        .ok { currentEpoch := db.currentEpoch.map fun _ => next
              epochKeys := db.epochKeys.insert next { key := key, createdAtUtc := now } } := by
  rw [VaultDb.advanceEpoch]
  split
  · exact .inl ⟨_, rfl⟩
  · cases db.epochKeys.lookup next with
    | some _ => exact .inl ⟨_, rfl⟩
    | none => exact .inr ⟨rfl, rfl⟩

/-- An access leaves the database as it is, makes the row of the vault, stores a given key, or moves
the vault to an epoch that had no key, with a key. -/
theorem advance_cases (process : Process) :
    ((advance db process).1 = db ∧ process.isStoring = false ∧ (advance db process).2.isStoring = false) ∨
      (∃ epoch key now, process = .initialising epoch key now ∧ epoch ≤ i64Max ∧
        advance db process = ({ db with currentEpoch := some epoch }, .storing epoch key now)) ∨
      (∃ epoch key now row, (process = .storing epoch key now ∨ process = .saving epoch key now) ∧
        row.key = key ∧
        advance db process = ({ db with epochKeys := db.epochKeys.insert epoch row }, .done (.ok none))) ∨
      (∃ next key now, process = .advancing next key now ∧ db.epochKeys.lookup next = none ∧
        advance db process = ({ currentEpoch := db.currentEpoch.map fun _ => next
                                epochKeys := db.epochKeys.insert next { key := key, createdAtUtc := now } },
          .done (.ok (some next)))) ∨
      ∃ epoch key now, process = .storing epoch key now ∧ i64Max < epoch ∧ (advance db process).1 = db := by
  cases process with
  | done result => exact .inl ⟨rfl, rfl, rfl⟩
  | initialising epoch key now =>
    rcases insertMetadata_cases db epoch with ⟨e, heq⟩ | ⟨hle, heq⟩
    · rw [advance, heq]
      exact .inl ⟨rfl, rfl, rfl⟩
    · rw [advance, heq]
      exact .inr (.inl ⟨epoch, key, now, rfl, hle, rfl⟩)
  | storing epoch key now =>
    rcases upsertEpochKey_cases db epoch key now with ⟨hlarge, heq⟩ | ⟨row, hrow, heq⟩
    · rw [advance, heq]
      exact .inr (.inr (.inr (.inr ⟨epoch, key, now, rfl, hlarge, rfl⟩)))
    · rw [advance, heq]
      exact .inr (.inr (.inl ⟨epoch, key, now, row, .inl rfl, hrow, rfl⟩))
  | saving epoch key now =>
    rcases upsertEpochKey_cases db epoch key now with ⟨_, heq⟩ | ⟨row, hrow, heq⟩
    · rw [advance, heq]
      exact .inl ⟨rfl, rfl, rfl⟩
    · rw [advance, heq]
      exact .inr (.inr (.inl ⟨epoch, key, now, row, .inr rfl, hrow, rfl⟩))
  | rotating key now =>
    rw [advance]
    cases db.selectCurrentEpoch with
    | error e => exact .inl ⟨rfl, rfl, rfl⟩
    | ok current =>
      dsimp only
      split
      · exact .inl ⟨rfl, rfl, rfl⟩
      · exact .inl ⟨rfl, rfl, rfl⟩
  | advancing next key now =>
    rcases advanceEpoch_cases db next key now with ⟨e, heq⟩ | ⟨hn, heq⟩
    · rw [advance, heq]
      exact .inl ⟨rfl, rfl, rfl⟩
    · rw [advance, heq]
      exact .inr (.inr (.inr (.inl ⟨next, key, now, rfl, hn, rfl⟩)))

/-! ## The current epoch has a key -/

/-- Not a crash between the statements of an initialisation. -/
def Unbroken (s : State) : Step → Prop
  | .crash p => (s.processes p).isStoring = false
  | _ => True

/-- The current epoch has a key, or an initialisation is about to store it. -/
structure Keyed (s : State) : Prop where
  keyed : ∀ epoch, s.store.currentEpoch = some epoch →
    (∃ row, s.store.epochKeys.lookup epoch = some row) ∨ ∃ p key now, s.processes p = .storing epoch key now
  range : ∀ p epoch key now, s.processes p = .storing epoch key now → epoch ≤ i64Max

variable {row : EpochKeyRow} {event : Step} {key : Bytes}

section

variable {s : State}

variable {p : Nat} {process : Process}

theorem Keyed.set (h : Keyed s) (hold : (s.processes p).isStoring = false)
    (hnew : process.isStoring = false) : Keyed (s.set p process) := by
  constructor
  · intro epoch hep
    rcases h.keyed epoch hep with hrow | ⟨q, key, now, hq⟩
    · exact .inl hrow
    · have hne : q ≠ p := by
        rintro rfl
        rw [hq] at hold
        cases hold
      exact .inr ⟨q, key, now, (set_of_ne hne s process).trans hq⟩
  · intro q epoch key now hq
    by_cases hne : q = p
    · subst hne
      rw [set_self] at hq
      rw [hq] at hnew
      cases hnew
    · rw [set_of_ne hne] at hq
      exact h.range q epoch key now hq

theorem begin_isStoring (request : Request) : (begin request).isStoring = false := by
  cases request with
  | initVaultAtEpoch epoch key now =>
    rw [begin]
    split
    · rfl
    · rfl
  | saveEpochKey | rotateEpochKey => rfl

theorem Keyed.write (h : Keyed s) {db : VaultDb} (hnew : process.isStoring = false)
    (hrows : ∀ epoch row, s.store.epochKeys.lookup epoch = some row →
      ∃ row', db.epochKeys.lookup epoch = some row')
    (hcurrent : ∀ epoch, db.currentEpoch = some epoch →
      s.store.currentEpoch = some epoch ∨ ∃ row, db.epochKeys.lookup epoch = some row)
    (hstored : ∀ epoch key now, s.processes p = .storing epoch key now →
      ∃ row, db.epochKeys.lookup epoch = some row) :
    Keyed { s.set p process with store := db } := by
  constructor
  · intro epoch hep
    rcases hcurrent epoch hep with hold | hrow
    · rcases h.keyed epoch hold with ⟨row, hrow⟩ | ⟨q, key, now, hq⟩
      · exact .inl (hrows epoch row hrow)
      · by_cases hne : q = p
        · subst hne
          exact .inl (hstored epoch key now hq)
        · exact .inr ⟨q, key, now, (set_of_ne hne s process).trans hq⟩
    · exact .inl hrow
  · intro q epoch key now hq
    by_cases hne : q = p
    · subst hne
      have hself : process = .storing epoch key now := (set_self s q process).symm.trans hq
      rw [hself] at hnew
      cases hnew
    · exact h.range q epoch key now ((set_of_ne hne s process).symm.trans hq)

theorem lookup_insert_exists {keys : Dict Nat EpochKeyRow} {epoch : Nat} (epoch' : Nat)
    (new : EpochKeyRow) (h : keys.lookup epoch = some row) :
    ∃ row', (keys.insert epoch' new).lookup epoch = some row' := by
  by_cases heq : epoch = epoch'
  · subst heq
    exact ⟨new, lookup_insert keys⟩
  · exact ⟨row, (lookup_insert_ne heq).trans h⟩

theorem Keyed.proceed (h : Keyed s) (p : Nat) : Keyed (step program s (.proceed p)) := by
  show Keyed { s.set p (advance s.store (s.processes p)).2 with store := (advance s.store (s.processes p)).1 }
  rcases advance_cases s.store (s.processes p) with ⟨hs, hold, hnew⟩ | ⟨epoch, key, now, hp, hle, heq⟩ |
    ⟨epoch, key, now, row, hp, -, heq⟩ | ⟨next, key, now, hp, -, heq⟩ | ⟨epoch, key, now, hp, hlarge, -⟩
  · rw [hs]
    exact h.set hold hnew
  · rw [heq]
    constructor
    · intro current hcur
      have hep : epoch = current := Option.some.inj hcur
      subst hep
      exact .inr ⟨p, key, now, set_self s p _⟩
    · intro q epoch' key' now' hq
      by_cases hne : q = p
      · subst hne
        have hself : Process.storing epoch key now = .storing epoch' key' now' :=
          (set_self s q _).symm.trans hq
        cases hself
        exact hle
      · exact h.range q epoch' key' now' ((set_of_ne hne s _).symm.trans hq)
  · rw [heq]
    refine h.write rfl (fun _ _ hrow => lookup_insert_exists epoch row hrow) (fun _ hcur => .inl hcur) ?_
    intro epoch' key' now' hsto
    rcases hp with hp | hp
    · rw [hp] at hsto
      cases hsto
      exact ⟨row, lookup_insert _⟩
    · rw [hp] at hsto
      cases hsto
  · rw [heq]
    refine h.write rfl (fun _ _ hrow => lookup_insert_exists next _ hrow) ?_ ?_
    · intro epoch hep
      obtain ⟨_, _, rfl⟩ := Option.map_eq_some_iff.mp hep
      exact .inr ⟨_, lookup_insert _⟩
    · intro epoch' key' now' hsto
      rw [hp] at hsto
      cases hsto
  · exact absurd (h.range p epoch key now hp) (Nat.not_le.mpr hlarge)

theorem Keyed.step (h : Keyed s) (hevent : Unbroken s event) : Keyed (Processes.step program s event) := by
  cases event with
  | call p request =>
    rw [Processes.step]
    split
    · next hidle =>
      refine h.set ?_ (begin_isStoring request)
      cases hp : s.processes p with
      | done result => rfl
      | _ =>
        rw [hp] at hidle
        cases hidle
    · exact h
  | proceed p => exact h.proceed p
  | crash p => exact h.set hevent rfl

end

def Process.stores : Process → Option (Nat × Bytes)
  | .storing epoch key _ => some (epoch, key)
  | .saving epoch key _ => some (epoch, key)
  | _ => none

/-- A key that is stored for an epoch that has one is the same key. -/
def Agrees (s : State) : Step → Prop
  | .proceed p => ∀ e ∈ (s.processes p).stores, ∀ row ∈ s.store.epochKeys.lookup e.1, row.key = e.2
  | _ => True

instance : ∀ s event, Decidable (Agrees s event)
  | s, .proceed p =>
    inferInstanceAs (Decidable
      (∀ e ∈ (s.processes p).stores, ∀ row ∈ s.store.epochKeys.lookup e.1, row.key = e.2))
  | _, .call _ _ => .isTrue trivial
  | _, .crash _ => .isTrue trivial

/-- The store has this key for the epoch. -/
def Kept (key : Bytes) (s : State) : Prop := ∃ row, s.store.epochKeys.lookup epoch = some row ∧ row.key = key

theorem Kept.insert {epoch' : Nat} {epoch : Nat} {keys : Dict Nat EpochKeyRow}
    (h : keys.lookup epoch = some row) (hkey : row.key = key) {new : EpochKeyRow}
    (hsame : epoch = epoch' → new.key = key) :
    ∃ row', (keys.insert epoch' new).lookup epoch = some row' ∧ row'.key = key := by
  by_cases heq : epoch = epoch'
  · subst heq
    exact ⟨new, lookup_insert keys, hsame rfl⟩
  · exact ⟨row, (lookup_insert_ne heq).trans h, hkey⟩

theorem Kept.step {s : State} {epoch : Nat} (h : Kept epoch key s) (hevent : Agrees s event) :
    Kept epoch key (step program s event) := by
  obtain ⟨row, hrow, hkey⟩ := h
  rcases step_store program s event with hst | ⟨p, rfl, hst⟩
  · rw [Kept, hst]
    exact ⟨row, hrow, hkey⟩
  · rw [Kept, hst]
    show ∃ row', (advance s.store (s.processes p)).1.epochKeys.lookup epoch = some row' ∧ row'.key = key
    rcases advance_cases s.store (s.processes p) with ⟨hs, -, -⟩ | ⟨_, _, _, -, -, heq⟩ |
      ⟨epoch', key', now, new, hp, hnew, heq⟩ | ⟨next, key', now, -, hn, heq⟩ | ⟨_, _, _, -, -, hs⟩
    · rw [hs]
      exact ⟨row, hrow, hkey⟩
    · rw [heq]
      exact ⟨row, hrow, hkey⟩
    · rw [heq]
      refine Kept.insert hrow hkey ?_
      rintro rfl
      have hstores : (s.processes p).stores = some (epoch, key') := by
        rcases hp with hp | hp
        · rw [hp]
          rfl
        · rw [hp]
          rfl
      have hs : row.key = key' := hevent (epoch, key') hstores row hrow
      rw [hnew, ← hs, hkey]
    · rw [heq]
      refine Kept.insert hrow hkey ?_
      rintro rfl
      rw [hn] at hrow
      cases hrow
    · rw [hs]
      exact ⟨row, hrow, hkey⟩

/-- However the calls interleave: the current epoch has a key when no process stands, or has
crashed, between the statements of an initialisation; and the key of an epoch stays when only the
same key is stored again. -/
theorem epoch_keys_not_lost
    (hdb : ∀ epoch, db.currentEpoch = some epoch → ∃ row, db.epochKeys.lookup epoch = some row)
    (events : List Step) :
    (Runs.Along (step program) Unbroken (.new program db) events →
        (∀ p, ((run program (.new program db) events).processes p).isStoring = false) →
        ∀ epoch, (run program (.new program db) events).store.currentEpoch = some epoch →
          ∃ row, (run program (.new program db) events).store.epochKeys.lookup epoch = some row) ∧
      (Runs.Along (step program) Agrees (.new program db) events → ∀ before after, events = before ++ after →
          ∀ epoch row, (run program (.new program db) before).store.epochKeys.lookup epoch = some row →
            ∃ row', (run program (.new program db) events).store.epochKeys.lookup epoch = some row' ∧
              row'.key = row.key) := by
  constructor
  · intro hall hd epoch hep
    have hst : Keyed (.new program db) := by
      constructor
      · intro epoch hep
        exact .inl (hdb epoch hep)
      · intro p epoch key now hp
        cases hp
    have hend : Keyed (run program (.new program db) events) := hall.keeps (fun _ _ hev h => h.step hev) hst
    rcases hend.keyed epoch hep with hrow | ⟨p, key, now, hp⟩
    · exact hrow
    · have hnot := hd p
      rw [hp] at hnot
      cases hnot
  · rintro hall before after rfl epoch row hrow
    have hk : Kept epoch row.key (run program (run program (.new program db) before) after) :=
      hall.drop.keeps (fun _ _ hev h => Kept.step h hev) ⟨row, hrow, rfl⟩
    rw [run_append]
    exact hk

namespace Lost

def empty : VaultDb := ⟨none, ∅⟩

def init (key : Byte) : Step := .call 0 (.initVaultAtEpoch 1 [key] 100)

def save (p : Nat) (key : Byte) : Step := .call p (.saveEpochKey 1 [key] 200)

def after (events : List Step) : VaultDb := (run program (.new program empty) events).store

def keyOf : Option Bytes := (db.epochKeys.lookup epoch).map EpochKeyRow.key

/-- A crash between the statements of an initialisation leaves a current epoch without a key, as
another process also sees it in between; and a key that is saved again replaces the first one. -/
theorem lost_keys :
    (after [init 7#8, .proceed 0]).currentEpoch = some 1 ∧ keyOf (after [init 7#8, .proceed 0]) 1 = none ∧
      (after [init 7#8, .proceed 0, .crash 0]).currentEpoch = some 1 ∧
      keyOf (after [init 7#8, .proceed 0, .crash 0]) 1 = none ∧
      keyOf (after [init 7#8, .proceed 0, .proceed 0]) 1 = some [7#8] ∧
      keyOf (after [init 7#8, .proceed 0, .proceed 0, save 1 9#8, .proceed 1]) 1 = some [9#8] := by
  decide +kernel

def rotations : List Step :=
  [init 7#8, .call 1 (.rotateEpochKey [8#8] 300), .call 2 (.rotateEpochKey [9#8] 300), .proceed 0, .proceed 1,
    .proceed 2, .proceed 2, .proceed 1, .proceed 0]

theorem unbroken_rotations : Runs.Along (step program) Unbroken (.new program empty) rotations :=
  ⟨trivial, trivial, trivial, trivial, trivial, trivial, trivial, trivial, trivial, trivial⟩

theorem done_rotations (p : Nat) :
    ((run program (.new program empty) rotations).processes p).isStoring = false := by
  match p with
  | 0 => decide +kernel
  | 1 => decide +kernel
  | 2 => decide +kernel
  | _ + 3 => rfl

theorem rotations_keep_keys :
    (∃ row, (after rotations).epochKeys.lookup 2 = some row) ∧
      ∃ row, (after (rotations ++ [save 1 7#8, .proceed 1])).epochKeys.lookup 1 = some row ∧
      row.key = [7#8] :=
  ⟨(epoch_keys_not_lost empty (fun _ h => by cases h) rotations).1 unbroken_rotations done_rotations
    2 (by decide +kernel),
    (epoch_keys_not_lost empty (fun _ h => by cases h) (rotations ++ [save 1 7#8, .proceed 1])).2
      (by decide +kernel)
      rotations [save 1 7#8, .proceed 1] rfl 1 ⟨[7#8], 100⟩ (by decide +kernel)⟩

end Lost

end CipherVault.Store.EpochKeys
