import Mathlib.LinearAlgebra.Lagrange

/-!
# Base.Sharing

Polynomial secret sharing over a field: a secret is the constant coefficient, a share the value at a
nonzero point. Points beyond the degree give the secret back (`sum_eval_mul_weight`); on fewer,
every change of the secret is undone by a change of the other coefficients
(`exists_horner_eq_zero`).
-/

namespace Sharing

open Polynomial List Finset

variable {F : Type*} [Field F] (cs : List F)

def horner (x : F) : F := cs.foldr (fun c r => r * x + c) 0

noncomputable def polyOf : F[X] := cs.foldr (fun c p => p * X + C c) 0

theorem horner_cons (c : F) (cs : List F) (x : F) : horner (c :: cs) x = horner cs x * x + c := rfl

theorem polyOf_cons (c : F) (cs : List F) : polyOf (c :: cs) = polyOf cs * X + C c := rfl

theorem eval_polyOf (x : F) : (polyOf cs).eval x = horner cs x := by
  induction cs with
  | nil => exact eval_zero
  | cons c cs ih => rw [polyOf_cons, eval_add, eval_mul, eval_X, eval_C, ih, horner_cons]

theorem coeff_polyOf : ∀ i, cs.length ≤ i → (polyOf cs).coeff i = 0 := by
  induction cs with
  | nil => intro i _; exact coeff_zero i
  | cons c cs ih =>
    intro i hi
    cases i with
    | zero => exact absurd hi (by simp)
    | succ i =>
      rw [polyOf_cons, coeff_add, coeff_mul_X, coeff_C_succ, add_zero]
      exact ih i (Nat.le_of_succ_le_succ hi)

theorem degree_polyOf_lt : (polyOf cs).degree < cs.length :=
  (degree_lt_iff_coeff_zero _ _).mpr (coeff_polyOf cs)

variable {n : Nat}

theorem horner_ofFn (c : Fin n → F) (x : F) : horner (ofFn c) x = ∑ i, c i * x ^ (i : Nat) := by
  induction n with
  | zero => rfl
  | succ n ih =>
    rw [ofFn_succ, horner_cons, ih, Fin.sum_univ_succ, sum_mul, add_comm]
    simp only [Fin.val_zero, pow_zero, mul_one, Fin.val_succ, pow_succ, mul_assoc]

theorem horner_ofFn_add (c d : Fin n → F) (x : F) :
    horner (ofFn fun i => c i + d i) x = horner (ofFn c) x + horner (ofFn d) x := by
  simp only [horner_ofFn, add_mul, sum_add_distrib]

/-! ## Recovery of the value at zero -/

variable (s : Finset F)

section

variable [DecidableEq F]

/-- The weight at zero of the point `x` among the points `s`. -/
def weight (x : F) : F := ∏ y ∈ s.erase x, y / (y - x)

theorem eval_zero_basis (x : F) : (Lagrange.basis s id x).eval 0 = weight s x := by
  rw [Lagrange.basis, eval_prod, weight]
  refine prod_congr rfl ?_
  intro y _
  rw [Lagrange.basisDivisor, eval_mul, eval_C, eval_sub, eval_X, eval_C, id, id, zero_sub,
    ← neg_sub y x, inv_neg, neg_mul_neg, mul_comm, div_eq_mul_inv]

theorem sum_eval_mul_weight {p : F[X]} {s : Finset F} (hp : p.degree < s.card) :
    ∑ x ∈ s, p.eval x * weight s x = p.eval 0 := by
  have h := Lagrange.eq_interpolate (v := id) (Set.injOn_id (s : Set F)) hp
  have h0 := congrArg (eval 0) h
  rw [Lagrange.interpolate_apply, eval_finsetSum] at h0
  rw [h0]
  refine sum_congr rfl ?_
  intro x _
  rw [eval_mul, eval_C, eval_zero_basis, id]

end

/-! ## Hiding of the value at zero -/

/-- The polynomial of constant coefficient `d` that vanishes on `s`. -/
noncomputable def vanishing (d : F) : F[X] := C d * ∏ y ∈ s, (1 - C y⁻¹ * X)

theorem eval_vanishing_zero (d : F) : (vanishing s d).eval 0 = d := by
  simp [vanishing, eval_prod]

theorem eval_vanishing {s : Finset F} (h0 : (0 : F) ∉ s) (d : F) {x : F} (hx : x ∈ s) :
    (vanishing s d).eval x = 0 := by
  have hne : x ≠ 0 := fun h => h0 (h ▸ hx)
  rw [vanishing, eval_mul, eval_prod]
  refine mul_eq_zero_of_right _ (prod_eq_zero hx ?_)
  simp [inv_mul_cancel₀ hne]

theorem natDegree_vanishing_le (d : F) : (vanishing s d).natDegree ≤ s.card := by
  refine (natDegree_C_mul_le _ _).trans ((natDegree_prod_le _ _).trans ?_)
  refine (sum_le_card_nsmul s _ 1 ?_).trans (by simp)
  intro y _
  refine (natDegree_sub_le _ _).trans (max_le (by simp) ?_)
  exact (natDegree_C_mul_le _ _).trans natDegree_X_le

theorem exists_horner_eq_zero {s : Finset F} (h0 : (0 : F) ∉ s) (hs : s.card ≤ n) (d : F) :
    ∃ e : Fin n → F, ∀ x ∈ s, horner (d :: ofFn e) x = 0 := by
  refine ⟨fun i => (vanishing s d).coeff (i + 1), ?_⟩
  intro x hx
  have hdeg : (vanishing s d).natDegree < n + 1 :=
    Nat.lt_succ_of_le ((natDegree_vanishing_le s d).trans hs)
  have hd : (vanishing s d).coeff 0 = d := by rw [coeff_zero_eq_eval_zero, eval_vanishing_zero]
  have hsum := eval_eq_sum_range' hdeg x
  rw [eval_vanishing h0 d hx, Finset.sum_range_succ', hd, pow_zero, mul_one,
    ← Fin.sum_univ_eq_sum_range (fun i => (vanishing s d).coeff (i + 1) * x ^ (i + 1))] at hsum
  rw [horner_cons, horner_ofFn, Finset.sum_mul, hsum]
  simp only [pow_succ, mul_assoc]

end Sharing
