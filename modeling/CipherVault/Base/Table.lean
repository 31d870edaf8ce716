import Mathlib.Data.List.Basic

/-!
# Base.Table

Tables with a primary key, as lists of rows: lookup, insert-or-replace and insert-or-ignore.
-/

namespace CipherVault.Table

open List

variable {ρ κ : Type} [DecidableEq κ]

def find (key : ρ → κ) (k : κ) (rows : List ρ) : Option ρ := rows.find? fun row => key row = k

def upsert (key : ρ → κ) (row : ρ) (rows : List ρ) : List ρ :=
  rows.filter (fun r => key r ≠ key row) ++ [row]

def insertNew (key : ρ → κ) (row : ρ) (rows : List ρ) : List ρ :=
  if (find key (key row) rows).isSome then rows else rows ++ [row]

variable {key : ρ → κ} {row : ρ} {rows : List ρ} {k : κ}

theorem mem_of_find (h : find key k rows = some row) : row ∈ rows := mem_of_find?_eq_some h

theorem find_filter_ne (key : ρ → κ) (k : κ) (rows : List ρ) :
    find key k (rows.filter fun r => key r ≠ k) = none := by
  rw [find, find?_eq_none]
  intro r hr
  have hne := (mem_filter.mp hr).2
  simpa using hne

theorem find_filter_of_kept {p : ρ → Bool} (h : ∀ r, key r = k → p r = true) :
    find key k (rows.filter p) = find key k rows := by
  rw [find, find, find?_filter]
  congr 1
  funext r
  by_cases hr : key r = k
  · simp [hr, h r hr]
  · simp [hr]

theorem find_filter_of_ne {k' : κ} (key : ρ → κ) (h : k ≠ k') (rows : List ρ) :
    find key k (rows.filter fun r => key r ≠ k') = find key k rows := by
  refine find_filter_of_kept fun r hr => ?_
  rw [hr]
  exact decide_eq_true h

theorem mem_upsert {r : ρ} : r ∈ upsert key row rows ↔ (r ∈ rows ∧ key r ≠ key row) ∨ r = row := by
  simp [upsert]

theorem mem_insertNew {r : ρ} (h : r ∈ insertNew key row rows) : r ∈ rows ∨ r = row := by
  rw [insertNew] at h
  split at h
  · exact .inl h
  · simpa using h

theorem find?_upsert {p : ρ → Bool} (hrows : ∀ r ∈ rows, p r = false) (hrow : p row = true) :
    (upsert key row rows).find? p = some row := by
  have hn : (rows.filter fun r => key r ≠ key row).find? p = none := by
    rw [find?_eq_none]
    intro r hr
    rw [hrows r (mem_filter.mp hr).1]
    exact Bool.false_ne_true
  rw [upsert, find?_append, hn, Option.none_or, find?_singleton, if_pos hrow]

section

variable {κ β : Type} [BEq κ] [LawfulBEq κ] {l l' : List (κ × β)} {k : κ}

theorem mem_of_lookup {b : β} (h : l.lookup k = some b) : (k, b) ∈ l := by
  obtain ⟨_, _, rfl, _⟩ := List.lookup_eq_some_iff.mp h
  exact mem_append_right _ mem_cons_self

theorem lookup_isSome {b : β} (h : (k, b) ∈ l) : ∃ b', l.lookup k = some b' := by
  cases hl : l.lookup k with
  | some b' => exact ⟨b', rfl⟩
  | none =>
    have hne := lookup_eq_none_iff.mp hl (k, b) h
    simp at hne

end

end CipherVault.Table
