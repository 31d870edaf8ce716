import CipherVault.Base.Dict
import CipherVault.Base.Quorum
import Mathlib.Data.List.Destutter
import Mathlib.Data.List.Sort

/-!
# Base.Tally

What a caller gathers from the tasks that it starts for the items of a list: one item for each key,
the outcomes by key, and a counter for each key.
-/

namespace CipherVault.Tally

open List

variable {α β κ ν : Type}

section

variable [LinearOrder β] (key : α → β)

/-- A stable sort by key, and of the items of one key the first. -/
def sortDedupBy (items : List α) : List α :=
  (items.insertionSort fun a b => key a ≤ key b).destutter fun a b => key a ≠ key b

theorem mem_of_mem_sortDedupBy {items : List α} {item : α} (h : item ∈ sortDedupBy key items) :
    item ∈ items :=
  (perm_insertionSort _ _).mem_iff.mp ((destutter_sublist _ _).mem h)

theorem length_sortDedupBy_le (items : List α) : (sortDedupBy key items).length ≤ items.length := by
  have hsub := (destutter_sublist (fun a b => key a ≠ key b)
    (items.insertionSort fun a b => key a ≤ key b)).length_le
  rw [length_insertionSort] at hsub
  exact hsub

theorem nodup_sortDedupBy (items : List α) : ((sortDedupBy key items).map key).Nodup := by
  have hsrt : (sortDedupBy key items).IsChain fun a b => key a ≤ key b :=
    ((pairwise_insertionSort (fun a b => key a ≤ key b) items).sublist (destutter_sublist _ _)).isChain
  have hdis : (sortDedupBy key items).IsChain fun a b => key a ≠ key b := isChain_destutter _ _
  -- neighbours have increasing keys, hence any two items do
  have hinc : (sortDedupBy key items).IsChain fun a b => key a < key b := by
    rw [isChain_iff_getElem] at hsrt hdis ⊢
    exact fun i hi => lt_of_le_of_ne (hsrt i hi) (hdis i hi)
  have hpai := isChain_iff_pairwise.mp ((isChain_map key).mpr hinc)
  exact hpai.imp ne_of_lt

end

structure Joins (α : Type) extends Quorum.Schedule α where
  panics : α → Bool

def Joins.joined (joins : Joins α) (tasks : List α) : List α :=
  (joins.order tasks).filter fun task => !joins.panics task

theorem Joins.mem_of_mem_joined {tasks : List α} {task : α} {joins : Joins α}
    (h : task ∈ joins.joined tasks) : task ∈ tasks :=
  (joins.perm tasks).mem_iff.mp (mem_filter.mp h).1

section

variable [DecidableEq κ]

def put (m : Dict κ ν) : Option (κ × ν) → Dict κ ν
  | none => m
  | some (k, v) => m.insert k v

def gather (outcome : α → Option (κ × ν)) (tasks : List α) (into : Dict κ ν) : Dict κ ν :=
  tasks.foldl (fun m task => put m (outcome task)) into

theorem lookup_put {m : Dict κ ν} {entry : Option (κ × ν)} {k : κ} {v : ν}
    (h : (put m entry).lookup k = some v) :
    entry = some (k, v) ∨ m.lookup k = some v := by
  cases entry with
  | none => exact .inr h
  | some entry =>
    rcases lookup_insert_cases h with ⟨rfl, rfl⟩ | ⟨_, h⟩
    · exact .inl rfl
    · exact .inr h

theorem exists_of_lookup_gather {tasks : List α} {into : Dict κ ν} {v : ν}
    {outcome : α → Option (κ × ν)} {k : κ}
    (h : (gather outcome tasks into).lookup k = some v) :
    (∃ task ∈ tasks, outcome task = some (k, v)) ∨ into.lookup k = some v := by
  induction tasks generalizing into with
  | nil => exact .inr h
  | cons task rest ih =>
    rcases ih h with ⟨later, hla, hout⟩ | hl
    · exact .inl ⟨later, mem_cons_of_mem _ hla, hout⟩
    · rcases lookup_put hl with hout | hinto
      · exact .inl ⟨task, mem_cons_self, hout⟩
      · exact .inr hinto

theorem foldl_gather {outcome : α → Option (κ × ν)} (done : β → List α) (batches : List β) (into : Dict κ ν) :
    batches.foldl (fun m batch => gather outcome (done batch) m) into =
      gather outcome (batches.flatMap done) into := by
  induction batches generalizing into with
  | nil => rfl
  | cons batch batches ih =>
    rw [foldl_cons, ih, flatMap_cons]
    exact foldl_append.symm

end

section

variable [DecidableEq κ] (counts : Dict κ Nat)

def bump (k : κ) : Dict κ Nat := counts.insert k ((counts.lookup k).getD 0 + 1)

def bumpAll (ks : List κ) : Dict κ Nat := ks.foldl bump counts

def countOf (k : κ) : Nat := (counts.lookup k).getD 0

theorem countOf_bump (k k' : κ) : countOf (bump counts k') k = countOf counts k + if k' = k then 1
    else 0 := by
  rw [countOf, bump]
  by_cases hk : k' = k
  · subst hk
    rw [lookup_insert, if_pos rfl]
    rfl
  · rw [lookup_insert_ne (Ne.symm hk), if_neg hk]
    rfl

theorem countOf_bumpAll (ks : List κ) (k : κ) :
    countOf (bumpAll counts ks) k = countOf counts k + ks.count k := by
  induction ks generalizing counts with
  | nil => rfl
  | cons k' ks ih =>
    rw [bumpAll, foldl_cons, ← bumpAll, ih, countOf_bump, count_cons, Nat.add_assoc,
      Nat.add_comm (ks.count k)]
    simp only [beq_iff_eq]

theorem foldl_bumpAll (ks : ν → List κ) (groups : List ν) (counts : Dict κ Nat) :
    groups.foldl (fun counts group => bumpAll counts (ks group)) counts =
      bumpAll counts (groups.flatMap ks) := by
  induction groups generalizing counts with
  | nil => rfl
  | cons group groups ih =>
    rw [foldl_cons, ih, flatMap_cons]
    exact foldl_append.symm

theorem count_flatMap_le {present : ν → List κ} {rounds : List ν}
    (hnodup : ∀ r ∈ rounds, (present r).Nodup) (k : κ) :
    (rounds.flatMap present).count k ≤ rounds.length := by
  induction rounds with
  | nil => exact Nat.le_refl 0
  | cons r rounds ih =>
    have hhere := nodup_iff_count_le_one.mp (hnodup r mem_cons_self) k
    have hr := ih fun r' hr' => hnodup r' (mem_cons_of_mem _ hr')
    rw [flatMap_cons, count_append, length_cons]
    omega

theorem mem_of_count_eq {k : κ} {present : ν → List κ} {rounds : List ν}
    (hnodup : ∀ r ∈ rounds, (present r).Nodup)
    (h : (rounds.flatMap present).count k = rounds.length) : ∀ r ∈ rounds, k ∈ present r := by
  induction rounds with
  | nil => exact nofun
  | cons r rounds ih =>
    have hla : ∀ r' ∈ rounds, (present r').Nodup := fun r' hr' => hnodup r' (mem_cons_of_mem _ hr')
    have hhere := nodup_iff_count_le_one.mp (hnodup r mem_cons_self) k
    have hre := count_flatMap_le hla k
    rw [flatMap_cons, count_append, length_cons] at h
    intro r' hr'
    rcases mem_cons.mp hr' with rfl | hr'
    · exact count_pos_iff.mp (by omega)
    · exact ih hla (by omega) r' hr'

end

end CipherVault.Tally
