import Mathlib.Data.List.Basic

/-!
# Base.Scan

Scanners that rewrite a text: at its position a scanner copies some of the following elements,
writes a mark, and goes on further to the right.
-/

namespace CipherVault.Scan

open List

structure Action (α : Type) where
  kept : Nat
  mark : List α
  next : Nat

variable {α : Type}

def Action.write (text : List α) (i : Nat) (a : Action α) : List α := (text.drop i).take a.kept ++ a.mark

def Action.copy (i : Nat) : Action α := { kept := 1, mark := [], next := i + 1 }

def loop (text : List α) (action : Nat → Action α) : Nat → Nat → List α
  | 0, _ => []
  | fuel + 1, i =>
    if i < text.length then (action i).write text i ++ loop text action fuel (action i).next else []

variable {text : List α} {action : Nat → Action α} {i fuel fuel' : Nat}

theorem loop_fuel (hprogress : ∀ i, i < text.length → i < (action i).next)
    (h : text.length ≤ i + fuel) (h' : text.length ≤ i + fuel') :
    loop text action fuel i = loop text action fuel' i := by
  induction fuel generalizing fuel' i with
  | zero =>
    cases fuel' with
    | zero => rfl
    | succ fuel' => rw [loop, loop, if_neg (by omega)]
  | succ fuel ih =>
    cases fuel' with
    | zero => rw [loop, loop, if_neg (by omega)]
    | succ fuel' =>
      rw [loop, loop]
      split
      · next hlt =>
        have hn := hprogress i hlt
        rw [ih (by omega) (by omega : text.length ≤ (action i).next + fuel')]
      · rfl

theorem prefix_of_write {a : Action α} (h : a.write text i <+: text.drop i) :
    a.mark <+: (text.drop i).drop a.kept := by
  rw [← prefix_append_right_inj ((text.drop i).take a.kept), take_append_drop]
  exact h

theorem write_copy (h : i < text.length) :
    text.drop i = (Action.copy i).write text i ++ text.drop (i + 1) := by
  rw [Action.write, Action.copy, append_nil, drop_eq_getElem_cons h]
  rfl

/-- A scanner that copies, or writes something else than the text has, gives the text back if and
only if it copies everywhere. -/
theorem loop_eq_drop_iff (hacts : ∀ i, i < text.length → action i = .copy i ∨
    ¬ (action i).write text i <+: text.drop i)
    (h : text.length ≤ i + fuel) :
    loop text action fuel i = text.drop i ↔ ∀ j, i ≤ j → j < text.length → action j = .copy j := by
  have hend : ∀ k, text.length ≤ k →
      ([] = text.drop k ↔ ∀ j, k ≤ j → j < text.length → action j = .copy j) := fun k hk =>
    ⟨fun _ j hkj hj => by omega, fun _ => (drop_eq_nil_of_le hk).symm⟩
  induction fuel generalizing i with
  | zero => exact hend i h
  | succ fuel ih =>
    rw [loop]
    split
    · next hlt =>
      have hdrop := write_copy hlt
      have hn : (Action.copy i : Action α).next = i + 1 := rfl
      constructor
      · intro heq j hij hj
        have hcopy : action i = .copy i := (hacts i hlt).resolve_right (not_not.mpr ⟨_, heq⟩)
        rw [hdrop, hcopy, append_cancel_left_eq, hn] at heq
        rcases Nat.eq_or_lt_of_le hij with rfl | hij
        · exact hcopy
        · exact (ih (by omega)).mp heq j hij hj
      · intro hall
        rw [hdrop, hall i (Nat.le_refl i) hlt, append_cancel_left_eq]
        exact (ih (by omega)).mpr fun j hij => hall j (by omega)
    · exact hend i (by omega)

end CipherVault.Scan
