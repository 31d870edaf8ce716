import Mathlib.Data.List.Sort

/-!
# Base.Links

Rows chained by hashes: each is checked against the hash of the one before it, the first against a
start.
-/

namespace CipherVault.Links

open List

structure Check (ρ η : Type) where
  /-- The row may follow the hash. -/
  ok : ρ → η → Bool
  hash : ρ → η

variable {ρ η : Type} {C : Check ρ η}

/-- Each row passes the check with the hash of the row before it. -/
def Linked (C : Check ρ η) : η → List ρ → Prop
  | _, [] => True
  | running, row :: rows => C.ok row running = true ∧ Linked C (C.hash row) rows

def head (C : Check ρ η) (start : η) (rows : List ρ) : η := rows.foldl (fun _ row => C.hash row) start

/-- Goes on to the first row that does not follow: the hash before it, and the row. -/
def scan (C : Check ρ η) : η → List ρ → η × Option ρ
  | running, [] => (running, none)
  | running, row :: rows => if C.ok row running then scan C (C.hash row) rows else (running, some row)

variable {start : η} {rows : List ρ} {row last : ρ} {r : ρ → ρ → Prop}

theorem Linked.scan_eq (h : Linked C start rows) : scan C start rows = (head C start rows, none) := by
  induction rows generalizing start with
  | nil => rfl
  | cons row rows ih => rw [scan, if_pos h.1, ih h.2, head, head, foldl_cons]

theorem linked_of_scan (h : (scan C start rows).2 = none) : Linked C start rows := by
  induction rows generalizing start with
  | nil => trivial
  | cons row rows ih =>
    rw [scan] at h
    split at h
    · next hok => exact ⟨hok, ih h⟩
    · cases h

theorem linked_append {later : List ρ} : Linked C start (rows ++ later) ↔
    Linked C start rows ∧ Linked C (head C start rows) later := by
  induction rows generalizing start with
  | nil => exact (true_and _).symm ▸ Iff.rfl
  | cons row rows ih => rw [cons_append, Linked, Linked, ih, and_assoc, head, head, foldl_cons]

/-- A change of the rows that the check and the hash do not see. -/
theorem Linked.map {f : ρ → ρ} (hok : ∀ row running, C.ok (f row) running = C.ok row running)
    (hhash : ∀ row, C.hash (f row) = C.hash row) (h : Linked C start rows) :
    Linked C start (rows.map f) ∧ head C start (rows.map f) = head C start rows := by
  induction rows generalizing start with
  | nil => exact ⟨trivial, rfl⟩
  | cons row rows ih =>
    obtain ⟨hrows, hhead⟩ := ih h.2
    refine ⟨⟨(hok row start).trans h.1, ?_⟩, ?_⟩
    · rw [hhash row]
      exact hrows
    · rw [head, map_cons, foldl_cons, hhash row]
      exact hhead

/-- Chains of one length that end in the same hash have related rows, if a hash tells its row and
the hash before. -/
theorem Linked.forall₂ {rows' : List ρ} {start' : η} {R : ρ → ρ → Prop}
    (hcommit : ∀ row ∈ rows, ∀ row' ∈ rows', ∀ running running', C.ok row running = true →
      C.ok row' running' = true →
      C.hash row = C.hash row' → R row row' ∧ running = running') (h : Linked C start rows)
    (h' : Linked C start' rows') (hlength : rows.length = rows'.length)
    (hhead : head C start rows = head C start' rows') : List.Forall₂ R rows rows' ∧ start = start' := by
  induction rows generalizing start start' rows' with
  | nil =>
    obtain rfl := length_eq_zero_iff.mp hlength.symm
    exact ⟨.nil, hhead⟩
  | cons row rows ih =>
    cases rows' with
    | nil => cases hlength
    | cons row' rows' =>
      -- the tails say that the two rows have one hash
      obtain ⟨hrows, hhash⟩ := ih
        (fun r hr r' hr' => hcommit r (mem_cons_of_mem _ hr) r' (mem_cons_of_mem _ hr')) h.2 h'.2
        (Nat.succ.inj hlength) hhead
      obtain ⟨hrow, hst⟩ := hcommit row mem_cons_self row' mem_cons_self _ _ h.1 h'.1 hhash
      exact ⟨.cons hrow hrows, hst⟩

theorem orderedInsert_append [DecidableRel r] (h : r row last) :
    (rows ++ [last]).orderedInsert r row = rows.orderedInsert r row ++ [last] := by
  induction rows with
  | nil => simp [h]
  | cons first rows ih =>
    rw [cons_append, orderedInsert_cons, orderedInsert_cons]
    split
    · rfl
    · rw [ih, cons_append]

theorem insertionSort_concat [DecidableRel r] (h : ∀ row ∈ rows, r row last) :
    (rows ++ [last]).insertionSort r = rows.insertionSort r ++ [last] := by
  induction rows with
  | nil => rfl
  | cons row rows ih =>
    rw [cons_append, insertionSort_cons, insertionSort_cons,
      ih (fun x hx => h x (mem_cons_of_mem _ hx)), orderedInsert_append (h row mem_cons_self)]

end CipherVault.Links
