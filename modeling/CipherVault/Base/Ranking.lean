import Mathlib.Data.Finset.Insert
import Mathlib.Data.List.Lex
import Mathlib.Data.List.Sort
import Mathlib.Data.Prod.Lex

/-!
# Base.Ranking

Rendezvous ranking: candidates by a score, ties broken by the candidates. All who rank the same
candidates get the same order, and a candidate that is not first does not decide who is.
-/

namespace CipherVault.Ranking

open List

variable {α β : Type} [LinearOrder α] [LinearOrder β]

def ranked (score : α → β) (candidates : List α) : List α :=
  ((candidates.map fun a => toLex (score a, a)).insertionSort (· ≤ ·)).map fun e => (ofLex e).2

theorem ranked_perm (score : α → β) (candidates : List α) : (ranked score candidates).Perm candidates := by
  have hsort := (perm_insertionSort (· ≤ ·) (candidates.map fun a => toLex (score a, a))).map
    fun e => (ofLex e).2
  rw [map_map] at hsort
  exact hsort.trans (List.Perm.of_eq (map_id _))

theorem ranked_congr (score : α → β) {candidates candidates' : List α} (h : candidates.Perm candidates') :
    ranked score candidates = ranked score candidates' := by
  rw [ranked, ranked]
  congr 1
  refine List.Perm.eq_of_pairwise (fun a b _ _ hab hba => le_antisymm hab hba) (pairwise_insertionSort _ _)
    (pairwise_insertionSort _ _) ?_
  exact (perm_insertionSort _ _).trans ((h.map _).trans (perm_insertionSort _ _).symm)

/-- One candidate ranks before another. -/
def Before (score : α → β) (a b : α) : Prop := toLex (score a, a) < toLex (score b, b)

/-- The candidate that all others rank after. -/
def First (score : α → β) (candidates : Finset α) (a : α) : Prop :=
  a ∈ candidates ∧ ∀ b ∈ candidates, b ≠ a → Before score a b

theorem First.unique {score : α → β} {candidates : Finset α} {a b : α} (ha : First score candidates a)
    (hb : First score candidates b) : a = b := by
  by_contra hne
  exact lt_asymm (ha.2 b hb.1 (Ne.symm hne)) (hb.2 a ha.1 hne)

theorem first_of_ranked {score : α → β} {candidates : Finset α} {list rest : List α} {a : α}
    (hperm : list.Perm candidates.toList) (h : ranked score list = a :: rest) : First score candidates a := by
  have hmem : ∀ b, b ∈ a :: rest ↔ b ∈ candidates := by
    intro b
    rw [← h, (ranked_perm score list).mem_iff, hperm.mem_iff, Finset.mem_toList]
  refine ⟨(hmem a).mp mem_cons_self, fun b hb hne => ?_⟩
  have hrest : b ∈ rest := (mem_cons.mp ((hmem b).mpr hb)).resolve_left hne
  have hsorted : (a :: rest).Pairwise fun x y => toLex (score x, x) ≤ toLex (score y, y) := by
    rw [← h, ranked, pairwise_map]
    refine (pairwise_insertionSort (· ≤ ·) _).imp_of_mem fun {x y} hx hy hle => ?_
    rw [mem_insertionSort, mem_map] at hx hy
    obtain ⟨x, -, rfl⟩ := hx
    obtain ⟨y, -, rfl⟩ := hy
    exact hle
  refine lt_of_le_of_ne ((pairwise_cons.mp hsorted).1 b hrest) fun heq => hne ?_
  exact (congrArg (fun e => (ofLex e).2) heq).symm

end CipherVault.Ranking
