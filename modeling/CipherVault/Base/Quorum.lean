import Mathlib.Data.Finset.Card

/-!
# Base.Quorum

Results collected from concurrent tasks, one for each key, until the tasks are done or too few are
left. `collect_counted`: the loop has the required number exactly when the outcomes of all tasks
have that many keys.
-/

namespace CipherVault.Quorum

open List

variable {κ ν : Type} [DecidableEq κ]

def note (verified : List (κ × ν)) : Option (κ × ν) → List (κ × ν)
  | none => verified
  | some result => if (verified.map Prod.fst).contains result.1 then verified else verified ++ [result]

def collect (required : Nat) : List (Option (κ × ν)) → List (κ × ν) → List (κ × ν)
  | [], verified => verified
  | outcome :: pending, verified =>
    if (note verified outcome).length + pending.length < required then note verified outcome
    else collect required pending (note verified outcome)

def keys (results : List (κ × ν)) : Finset κ := (results.map Prod.fst).toFinset

/-- No key answers twice. -/
def Distinct (results : List (κ × ν)) : Prop := (results.map Prod.fst).Nodup

variable {results : List (κ × ν)} {outcomes : List (Option (κ × ν))} {required : Nat}

theorem Distinct.length_eq (h : Distinct results) : results.length = (keys results).card := by
  rw [keys, toFinset_card_of_nodup h, length_map]

theorem card_keys_le (results : List (κ × ν)) : (keys results).card ≤ results.length := by
  refine (toFinset_card_le _).trans ?_
  rw [length_map]

variable {verified : List (κ × ν)} {result : κ × ν}

theorem distinct_note (h : Distinct verified) (outcome : Option (κ × ν)) :
    Distinct (note verified outcome) := by
  cases outcome with
  | none => exact h
  | some result =>
    rw [note]
    split
    · exact h
    · rename_i hnew
      rw [contains_iff_mem] at hnew
      rw [Distinct, map_append, map_singleton]
      refine nodup_append.mpr ⟨h, nodup_singleton _, ?_⟩
      rintro key hkey _ hla rfl
      rw [mem_singleton.mp hla] at hkey
      exact hnew hkey

theorem keys_note (verified : List (κ × ν)) (outcome : Option (κ × ν)) :
    keys (note verified outcome) = keys verified ∪ keys outcome.toList := by
  cases outcome with
  | none =>
    show keys verified = keys verified ∪ ∅
    rw [Finset.union_empty]
  | some result =>
    show keys (if _ then _ else _) = keys verified ∪ {result.1}
    split
    · rename_i hold
      rw [contains_iff_mem] at hold
      rw [Finset.union_eq_left.mpr]
      exact Finset.singleton_subset_iff.mpr (mem_toFinset.mpr hold)
    · rw [keys, map_append, toFinset_append]
      rfl

theorem mem_note {outcome : Option (κ × ν)} (h : result ∈ note verified outcome) :
    result ∈ verified ∨ outcome = some result := by
  cases outcome with
  | none => exact .inl h
  | some noted =>
    rw [note] at h
    split at h
    · exact .inl h
    · rw [mem_append, mem_singleton] at h
      rcases h with hold | rfl
      · exact .inl hold
      · exact .inr rfl

theorem distinct_foldl_note (h : Distinct verified) (outcomes : List (Option (κ × ν))) :
    Distinct (outcomes.foldl note verified) := by
  induction outcomes generalizing verified with
  | nil => exact h
  | cons outcome pending ih => exact ih (distinct_note h outcome)

theorem mem_foldl_note (h : result ∈ outcomes.foldl note verified) : result ∈ verified ∨
    some result ∈ outcomes := by
  induction outcomes generalizing verified with
  | nil => exact .inl h
  | cons outcome pending ih =>
    rcases ih h with hnoted | hla
    · rcases mem_note hnoted with hold | rfl
      · exact .inl hold
      · exact .inr mem_cons_self
    · exact .inr (mem_cons_of_mem _ hla)

theorem keys_union_pending (verified : List (κ × ν)) (outcome : Option (κ × ν))
    (pending : List (Option (κ × ν))) :
    keys (note verified outcome) ∪ keys (pending.filterMap id) =
      keys verified ∪ keys ((outcome :: pending).filterMap id) := by
  rw [keys_note, Finset.union_assoc]
  congr 1
  cases outcome with
  | none => exact Finset.empty_union _
  | some result =>
    show {result.1} ∪ keys (pending.filterMap id) = (result.1 :: (pending.filterMap id).map Prod.fst).toFinset
    rw [← Finset.insert_eq, toFinset_cons, keys]

/-- A quorum counts all who can be reached; without one, there was none to be had. -/
structure Counted (required : Nat) (reachable : Finset κ) (results : List (κ × ν)) : Prop where
  distinct : Distinct results
  enough : required ≤ results.length → keys results = reachable
  few : results.length < required → reachable.card < required

theorem collect_counted (required : Nat) (outcomes : List (Option (κ × ν))) (h : Distinct verified) :
    Counted required (keys verified ∪ keys (outcomes.filterMap id)) (collect required outcomes verified) := by
  induction outcomes generalizing verified with
  | nil =>
    have hkeys : keys verified ∪ keys (([] : List (Option (κ × ν))).filterMap id) = keys verified :=
      Finset.union_empty _
    rw [hkeys, collect]
    refine ⟨h, fun _ => rfl, fun hfew => ?_⟩
    rw [← h.length_eq]
    exact hfew
  | cons outcome pending ih =>
    have hnoted := distinct_note h outcome
    rw [collect, ← keys_union_pending]
    split
    · rename_i hhop
      refine ⟨hnoted, fun henough => by omega, fun _ => ?_⟩
      -- each task that still runs adds one key at most
      have hpen : (keys (pending.filterMap id)).card ≤ pending.length :=
        (card_keys_le _).trans (length_filterMap_le _ _)
      have hunion := Finset.card_union_le (keys (note verified outcome)) (keys (pending.filterMap id))
      rw [← hnoted.length_eq] at hunion
      omega
    · exact ih hnoted

theorem mem_collect (h : result ∈ collect required outcomes verified) : result ∈ verified ∨
    some result ∈ outcomes := by
  induction outcomes generalizing verified with
  | nil => exact .inl h
  | cons outcome pending ih =>
    have hnote : result ∈ note verified outcome → result ∈ verified ∨ some result ∈ outcome :: pending := by
      intro hmem
      rcases mem_note hmem with hold | rfl
      · exact .inl hold
      · exact .inr mem_cons_self
    rw [collect] at h
    split at h
    · exact hnote h
    · rcases ih h with hmem | hmem
      · exact hnote hmem
      · exact .inr (mem_cons_of_mem _ hmem)

theorem Counted.length_iff {reachable : Finset κ} (h : Counted required reachable results) :
    required ≤ results.length ↔ required ≤ reachable.card := by
  constructor
  · intro henough
    rw [← h.enough henough, ← h.distinct.length_eq]
    exact henough
  · intro hrea
    by_contra hfew
    have := h.few (by omega)
    omega

structure Schedule (α : Type) where
  order : List α → List α
  perm : ∀ tasks, (order tasks).Perm tasks

theorem Schedule.keys_outcomes {α : Type} (schedule : Schedule α) (run : α → Option (κ × ν))
    (tasks : List α) :
    keys (((schedule.order tasks).map run).filterMap id) = keys (tasks.filterMap run) := by
  rw [filterMap_map, keys, keys]
  exact toFinset_eq_of_perm _ _ (((schedule.perm tasks).filterMap run).map _)

end CipherVault.Quorum
