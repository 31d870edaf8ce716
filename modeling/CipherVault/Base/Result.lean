import Mathlib.Data.List.Forall2

/-!
# Base.Result

When a computation in `Except` succeeds: inversion rules, and the invariant rule of a fold.
-/

namespace CipherVault

open List
namespace Result

variable {ε ε' α β σ : Type}

theorem ok_bind (a : α) (f : α → Except ε β) : (Except.ok a >>= f) = f a := rfl

variable {x : Except ε α} {f : α → Except ε β} {a : α} {xs : List α} {ys : List β}

theorem bind_eq_ok {b : β} : (x >>= f) = .ok b ↔ ∃ a, x = .ok a ∧ f a = .ok b := by
  constructor
  · intro h
    cases x with
    | error e => cases h
    | ok a => exact ⟨a, rfl, h⟩
  · intro ⟨a, hx, hf⟩
    rw [hx]
    exact hf

theorem pure_eq_ok {b : α} : (pure a : Except ε α) = .ok b ↔ a = b := by
  constructor
  · intro h; cases h; rfl
  · intro h; rw [h]; rfl

theorem mapError_eq_ok {f : ε → ε'} : x.mapError f = .ok a ↔ x = .ok a := by
  cases x with
  | error | ok => simp [Except.mapError]

theorem map_eq_ok {b : β} {f : α → β} : x.map f = .ok b ↔ ∃ a, x = .ok a ∧ f a = b := by
  cases x with
  | error | ok => simp [Except.map]

theorem ite_error_eq_ok {c : Prop} {e : ε} [Decidable c] : (if c then .error e else x) = .ok a ↔
    ¬ c ∧ x = .ok a := by
  by_cases h : c
  · simp [h]
  · simp [h]

theorem exists_of_any {p : α → Bool} (h : x.toOption.any p = true) : ∃ a, x = .ok a ∧ p a = true := by
  cases x with
  | error e => cases h
  | ok a => exact ⟨a, rfl, h⟩

theorem mapM_eq_ok : xs.mapM f = .ok ys ↔ List.Forall₂ (fun x y => f x = .ok y) xs ys := by
  induction xs generalizing ys with
  | nil => rw [mapM_nil, pure_eq_ok, List.forall₂_nil_left_iff, eq_comm]
  | cons x xs ih =>
    rw [mapM_cons, bind_eq_ok, List.forall₂_cons_left_iff]
    constructor
    · intro ⟨y, hy, hr⟩
      obtain ⟨zs, hzs, hpure⟩ := bind_eq_ok.mp hr
      exact ⟨y, zs, hy, ih.mp hzs, (pure_eq_ok.mp hpure).symm⟩
    · intro ⟨y, zs, hy, hzs, hys⟩
      exact ⟨y, hy, bind_eq_ok.mpr ⟨zs, ih.mpr hzs, pure_eq_ok.mpr hys.symm⟩⟩

theorem exists_mapM_eq_ok (h : ∀ x ∈ xs, ∃ y, f x = .ok y) : ∃ ys, xs.mapM f = .ok ys := by
  induction xs with
  | nil => exact ⟨[], rfl⟩
  | cons x xs ih =>
    obtain ⟨y, hy⟩ := h x mem_cons_self
    obtain ⟨ys, hys⟩ := ih fun z hz => h z (mem_cons_of_mem x hz)
    exact ⟨y :: ys, mapM_eq_ok.mpr (.cons hy (mapM_eq_ok.mp hys))⟩

theorem getElem?_of_mapM {y : β} (h : xs.mapM f = .ok ys) {i : Nat} (hy : ys[i]? = some y) :
    ∃ x, xs[i]? = some x ∧ f x = .ok y := by
  rw [mapM_eq_ok] at h
  induction h generalizing i with
  | nil => cases hy
  | cons hx _ ih =>
    cases i with
    | zero =>
      cases hy
      exact ⟨_, rfl, hx⟩
    | succ i => exact ih hy

theorem exists_of_mapM (h : xs.mapM f = .ok ys) {x : α} (hx : x ∈ xs) : ∃ y ∈ ys, f x = .ok y := by
  rw [mapM_eq_ok] at h
  induction h with
  | nil => cases hx
  | @cons _ y _ ys hy _ ih =>
    rcases mem_cons.mp hx with rfl | hx
    · exact ⟨y, mem_cons_self, hy⟩
    · obtain ⟨z, hz, hfz⟩ := ih hx
      exact ⟨z, mem_cons_of_mem y hz, hfz⟩

theorem mem_mapM {y : β} (h : xs.mapM f = .ok ys) : y ∈ ys ↔ ∃ x ∈ xs, f x = .ok y := by
  rw [mapM_eq_ok] at h
  induction h with
  | nil => simp
  | cons hx _ ih =>
    rw [mem_cons, ih]
    constructor
    · rintro (rfl | ⟨z, hz, hy⟩)
      · exact ⟨_, mem_cons_self, hx⟩
      · exact ⟨z, mem_cons_of_mem _ hz, hy⟩
    · rintro ⟨z, hz, hy⟩
      rcases mem_cons.mp hz with rfl | hz
      · rw [hx] at hy
        cases hy
        exact .inl rfl
      · exact .inr ⟨z, hz, hy⟩

theorem forM_eq_ok {f : α → Except ε Unit} : xs.forM f = .ok () ↔ ∀ x ∈ xs, f x = .ok () := by
  induction xs with
  | nil => exact ⟨nofun, fun _ => rfl⟩
  | cons x xs ih =>
    show (f x >>= fun _ => xs.forM f) = _ ↔ _
    rw [bind_eq_ok, forall_mem_cons, ← ih]
    constructor
    · rintro ⟨⟨⟩, hx, hxs⟩
      exact ⟨hx, hxs⟩
    · rintro ⟨hx, hxs⟩
      exact ⟨(), hx, hxs⟩

theorem foldlM_induct {s s' : σ} {f : σ → α → Except ε σ} {P : σ → Prop}
    (hstep : ∀ s s' x, x ∈ xs → P s → f s x = .ok s' → P s')
    (hs : P s) (h : xs.foldlM f s = .ok s') : P s' := by
  induction xs generalizing s with
  | nil =>
    rw [foldlM_nil, pure_eq_ok] at h
    rwa [← h]
  | cons x xs ih =>
    obtain ⟨t, ht, hr⟩ := bind_eq_ok.mp h
    refine ih (fun a b y hy => hstep a b y (mem_cons_of_mem x hy)) ?_ hr
    exact hstep s t x mem_cons_self hs ht

theorem exists_of_foldlM {s s' : σ} {f : σ → α → Except ε σ} (h : xs.foldlM f s = .ok s') {x : α}
    (hx : x ∈ xs) :
    ∃ a b, f a x = .ok b := by
  induction xs generalizing s with
  | nil => cases hx
  | cons y xs ih =>
    obtain ⟨t, ht, hr⟩ := bind_eq_ok.mp h
    rcases mem_cons.mp hx with rfl | hx
    · exact ⟨s, t, ht⟩
    · exact ih hr hx

end Result

export Result (bind_eq_ok ite_error_eq_ok pure_eq_ok mapError_eq_ok ok_bind mapM_eq_ok map_eq_ok mem_mapM
  exists_of_any exists_mapM_eq_ok exists_of_mapM forM_eq_ok)

end CipherVault
