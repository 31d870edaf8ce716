import CipherVault.Base.Sharing
import CipherVault.Crypto.Gf256

/-!
# Crypto.Shamir

`split_secret` and `combine_shares` of `crates/crypto/src/shamir.rs`, as polynomial sharing over
`Gf256`. `rand::thread_rng` is the sequence of the values of `next_u32`.
-/

namespace CipherVault.Crypto

open List Nat Gf256 Sharing

abbrev Bytes32 := Fin 32 → Byte

structure ShamirShare where
  index : Byte
  data : Bytes32

/-- `split_secret` once the polynomials of the 32 byte positions are drawn; `coefficients` are those
after the first. -/
def splitWith (secret : Bytes32) (threshold totalShares : Byte)
    (coefficients : Fin 32 → Fin (threshold.toNat - 1) → Byte) : Except CryptoError (List ShamirShare) :=
  if threshold.toNat < 2 then .error (.thresholdError "Threshold (M) must be at least 2")
  else if totalShares.toNat < threshold.toNat then
    .error (.thresholdError
      s!"Total shares (N={totalShares.toNat}) cannot be less than threshold (M={threshold.toNat})")
  else .ok ((range totalShares.toNat).map fun i =>
    { index := BitVec.ofNat 8 (i + 1)
      data := fun byteIdx => gfPolyEval (secret byteIdx :: ofFn (coefficients byteIdx))
        (BitVec.ofNat 8 (i + 1)) })

def drawCoefficients (m : Nat) (rng : Nat → BitVec 32) (byteIdx : Fin 32) (i : Fin m) : Byte :=
  (rng (byteIdx.val * m + i.val) &&& 0xFF#32).truncate 8

def splitSecret (secret : Bytes32) (threshold totalShares : Byte) (rng : Nat → BitVec 32) :
    Except CryptoError (List ShamirShare) :=
  splitWith secret threshold totalShares (drawCoefficients (threshold.toNat - 1) rng)

def checkIndices : List ShamirShare → List Byte → Except CryptoError Unit
  | [], _ => .ok ()
  | share :: rest, seen =>
    if share.index = 0#8 then
      .error (.thresholdError "Invalid share index: 0 is reserved for the secret")
    else if share.index ∈ seen then
      .error (.thresholdError s!"Duplicate share index {share.index.toNat} provided")
    else checkIndices rest (share.index :: seen)

variable (shares : List ShamirShare)

def lagrangeWeight (j : Nat) (xj : Byte) : Except CryptoError Byte :=
  shares.zipIdx.foldlM (fun w p =>
    if p.2 = j then pure w
    else do
      let factor ← gfDiv p.1.index (xj ^^^ p.1.index)
      pure (gfMul w factor)) 1#8

/-- Lagrange interpolation at zero, byte by byte. -/
def combineShares : Except CryptoError Bytes32 :=
  if shares.isEmpty then .error (.thresholdError "At least one share is required")
  else do
    checkIndices shares []
    if shares.length < 2 then
      .error (.thresholdError "At least 2 shares are required to reconstruct threshold secret")
    else do
      let weights ← shares.zipIdx.mapM fun p => lagrangeWeight shares p.2 p.1.index
      pure fun byteIdx => (shares.zip weights).foldl
        (fun acc p => acc ^^^ gfMul (p.1.data byteIdx) p.2) 0#8

/-! ## The loops as operations of the field -/

theorem gfPolyEval_eq (cs : List Byte) (x : Byte) : gfPolyEval cs x = (horner (cs.map mk) ⟨x⟩).byte := by
  rw [gfPolyEval, foldl_reverse]
  induction cs with
  | nil => rfl
  | cons c cs ih =>
    rw [foldr_cons, ih, map_cons, horner_cons, byte_add, byte_mul]

theorem checkIndices_ok : ∀ seen : List Byte, (∀ s ∈ shares, s.index ≠ 0#8) → (∀ s ∈ shares, s.index ∉ seen) →
    (shares.map ShamirShare.index).Nodup → checkIndices shares seen = .ok () := by
  induction shares with
  | nil => intro seen _ _ _; rfl
  | cons share rest ih =>
    intro seen h0 hseen hnd
    rw [map_cons, nodup_cons] at hnd
    rw [checkIndices, if_neg (h0 share mem_cons_self), if_neg (hseen share mem_cons_self)]
    refine ih _ (fun s hs => h0 s (mem_cons_of_mem _ hs)) ?_ hnd.2
    intro s hs hmem
    rcases mem_cons.mp hmem with h | h
    · exact hnd.1 (h ▸ mem_map_of_mem hs)
    · exact hseen s (mem_cons_of_mem _ hs) h

variable {α β : Type} {shares : List ShamirShare} {threshold totalShares : Byte} {secret : Bytes32} {m : Nat}

theorem foldlM_zipIdx_all {m : Type → Type} [Monad m] (f : β → α → m β) (j : Nat) (xs : List α) :
    ∀ (n : Nat) (b : β), j < n →
    (xs.zipIdx n).foldlM (fun w p => if p.2 = j then pure w else f w p.1) b = xs.foldlM f b := by
  induction xs with
  | nil => intro n b _; rfl
  | cons x xs ih =>
    intro n b hn
    rw [zipIdx_cons, foldlM_cons, foldlM_cons, if_neg (by simp only; omega)]
    exact congrArg _ (funext fun b' => ih (n + 1) b' (by omega))

theorem foldlM_zipIdx_skip {m : Type → Type} [Monad m] [LawfulMonad m] (f : β → α → m β) (xs : List α) :
    ∀ (n j : Nat) (b : β), (xs.zipIdx n).foldlM (fun w p => if p.2 = n + j then pure w else f w p.1) b =
      (xs.eraseIdx j).foldlM f b := by
  induction xs with
  | nil => intro n j b; rfl
  | cons x xs ih =>
    intro n j b
    rw [zipIdx_cons, foldlM_cons]
    cases j with
    | zero =>
      rw [if_pos (by simp only; omega), pure_bind, eraseIdx_cons_zero]
      exact foldlM_zipIdx_all f n xs (n + 1) b (by omega)
    | succ j =>
      rw [if_neg (by simp only; omega), eraseIdx_cons_succ, foldlM_cons]
      refine congrArg _ (funext fun b' => ?_)
      rw [← ih (n + 1) j b', show n + 1 + j = n + (j + 1) by omega]

def ShamirShare.point (s : ShamirShare) : Gf256 := ⟨s.index⟩

theorem foldlM_gfDiv (xj : Gf256) (others : List ShamirShare) : ∀ w : Gf256, (∀ s ∈ others, s.point ≠ xj) →
    others.foldlM (fun w s => do
        let factor ← gfDiv s.index (xj.byte ^^^ s.index)
        pure (gfMul w factor)) w.byte =
      (.ok (w * (others.map fun s => s.point / (s.point - xj)).prod).byte : Except CryptoError Byte) := by
  induction others with
  | nil => intro w _; rw [map_nil, prod_nil, mul_one]; rfl
  | cons s others ih =>
    intro w hne
    have hs : s.point - xj ≠ 0 := sub_ne_zero.mpr (hne s mem_cons_self)
    have hsub : xj.byte ^^^ s.index = (s.point - xj).byte := by
      rw [Gf256.sub_eq, add_comm, Gf256.byte_add]; rfl
    have hdiv : gfDiv s.index (xj.byte ^^^ s.index) = .ok (s.point / (s.point - xj)).byte := by
      rw [hsub]; exact Gf256.gfDiv_eq s.point hs
    rw [foldlM_cons, hdiv, map_cons, prod_cons, ← mul_assoc]
    exact ih (w * (s.point / (s.point - xj))) (fun t ht => hne t (mem_cons_of_mem _ ht))

def pointsOf (shares : List ShamirShare) : Finset Gf256 := (shares.map ShamirShare.point).toFinset

theorem toFinset_eraseIdx [DecidableEq α] {xs : List α} (hnodup : xs.Nodup) {j : Nat} {x : α}
    (hx : xs[j]? = some x) :
    (xs.eraseIdx j).toFinset = xs.toFinset.erase x := by
  obtain ⟨hj, rfl⟩ := List.getElem?_eq_some_iff.mp hx
  ext y
  rw [← hnodup.erase_getElem j hj, mem_toFinset, hnodup.mem_erase_iff, Finset.mem_erase, mem_toFinset]

theorem lagrangeWeight_eq (hnodup : (shares.map ShamirShare.point).Nodup) {j : Nat} {s : ShamirShare}
    (hs : shares[j]? = some s) :
    lagrangeWeight shares j s.index = .ok (weight (pointsOf shares) s.point).byte := by
  have hpoint : (shares.map ShamirShare.point)[j]? = some s.point := by
    rw [getElem?_map, hs]; rfl
  have herase : (shares.eraseIdx j).map ShamirShare.point = (shares.map ShamirShare.point).eraseIdx j :=
    (eraseIdx_map ..).symm
  have hset := toFinset_eraseIdx hnodup hpoint
  have hne : ∀ t ∈ shares.eraseIdx j, t.point ≠ s.point := by
    intro t ht
    have hmem : t.point ∈ (pointsOf shares).erase s.point := by
      rw [pointsOf, ← hset, ← herase, mem_toFinset]
      exact mem_map_of_mem ht
    exact (Finset.mem_erase.mp hmem).1
  have hloop := foldlM_zipIdx_skip (m := Except CryptoError) (fun w (t : ShamirShare) => do
      let factor ← gfDiv t.index (s.index ^^^ t.index)
      pure (gfMul w factor)) shares 0 j 1#8
  rw [zero_add] at hloop
  rw [lagrangeWeight, hloop]
  refine (foldlM_gfDiv s.point _ 1 hne).trans ?_
  rw [one_mul, weight, pointsOf, ← hset, prod_toFinset _ (hnodup.eraseIdx j), ← herase, List.map_map]
  rfl

theorem mapM_ok {ε : Type} {f : α → Except ε β} {g : α → β} (xs : List α) (h : ∀ x ∈ xs, f x = .ok (g x)) :
    xs.mapM f = .ok (xs.map g) := by
  induction xs with
  | nil => rfl
  | cons x xs ih =>
    rw [mapM_cons, h x mem_cons_self, ih fun y hy => h y (mem_cons_of_mem _ hy)]
    rfl

theorem map_zipIdx_fst (g : α → β) (xs : List α) : xs.zipIdx.map (fun p => g p.1) = xs.map g := by
  conv_rhs => rw [← zipIdx_map_fst 0 xs, List.map_map]
  rfl

theorem foldl_xor_zip (f g : α → Gf256) (xs : List α) : ∀ acc : Gf256,
    (xs.zip (xs.map fun x => (g x).byte)).foldl (fun acc p => acc ^^^ gfMul (f p.1).byte p.2) acc.byte =
      (acc + (xs.map fun x => f x * g x).sum).byte := by
  induction xs with
  | nil => intro acc; rw [map_nil, map_nil, sum_nil, add_zero]; rfl
  | cons x xs ih =>
    intro acc
    rw [map_cons, map_cons, zip_cons_cons, foldl_cons, sum_cons, ← add_assoc]
    exact ih (acc + f x * g x)

theorem nodup_points (hnodup : (shares.map ShamirShare.index).Nodup) :
    (shares.map ShamirShare.point).Nodup := by
  have h := hnodup.map (f := mk) (fun a b hab => congrArg byte hab)
  rwa [List.map_map] at h

theorem combineShares_eq (h0 : ∀ s ∈ shares, s.index ≠ 0#8) (hnodup : (shares.map ShamirShare.index).Nodup)
    (hlen : 2 ≤ shares.length) : combineShares shares = .ok fun byteIdx =>
      (shares.map fun s => ⟨s.data byteIdx⟩ * weight (pointsOf shares) s.point).sum.byte := by
  have hpoints : (shares.map ShamirShare.point).Nodup := nodup_points hnodup
  have hemp : shares.isEmpty = false := by
    cases shares with
    | nil => exact absurd hlen (by decide)
    | cons s rest => rfl
  have hwei : shares.zipIdx.mapM (fun p => lagrangeWeight shares p.2 p.1.index) =
      .ok (shares.map fun s => (weight (pointsOf shares) s.point).byte) := by
    rw [← map_zipIdx_fst]
    refine mapM_ok _ ?_
    intro p hp
    exact lagrangeWeight_eq hpoints (mem_zipIdx_iff_getElem?.mp hp)
  rw [combineShares, hemp, checkIndices_ok shares [] h0 (by simp) hnodup, hwei]
  simp only [Bool.false_eq_true, if_false, if_neg (not_lt.mpr hlen)]
  refine congrArg Except.ok (funext fun byteIdx => ?_)
  have h := foldl_xor_zip (fun s : ShamirShare => ⟨s.data byteIdx⟩)
    (fun s => weight (pointsOf shares) s.point) shares 0
  rw [zero_add] at h
  exact h

/-- What shares give does not depend on their order, whatever they hold. -/
theorem combineShares_perm {shares' : List ShamirShare} (hperm : shares.Perm shares')
    (h0 : ∀ s ∈ shares, s.index ≠ 0#8)
    (hnodup : (shares.map ShamirShare.index).Nodup) (hlen : 2 ≤ shares.length) :
    combineShares shares = combineShares shares' := by
  rw [combineShares_eq h0 hnodup hlen, combineShares_eq (fun s hs => h0 s (hperm.mem_iff.mpr hs))
    ((hperm.map _).nodup_iff.mp hnodup) (hperm.length_eq ▸ hlen)]
  have hpoints : pointsOf shares = pointsOf shares' := toFinset_eq_of_perm _ _ (hperm.map _)
  refine congrArg Except.ok (funext fun byteIdx => ?_)
  rw [hpoints, (hperm.map _).sum_eq]

theorem combineShares_swap :
    combineShares [⟨1#8, fun _ => 7#8⟩, ⟨2#8, fun _ => 9#8⟩] =
      combineShares [⟨2#8, fun _ => 9#8⟩, ⟨1#8, fun _ => 7#8⟩] :=
  combineShares_perm (.swap _ _ []) (by decide) (by decide) (by decide)

theorem splitWith_eq (secret : Bytes32) (coefficients : Fin 32 → Fin (threshold.toNat - 1) → Byte)
    (hM : 2 ≤ threshold.toNat) (hN : threshold.toNat ≤ totalShares.toNat) :
    splitWith secret threshold totalShares coefficients = .ok ((range totalShares.toNat).map fun i =>
        { index := BitVec.ofNat 8 (i + 1)
          data := fun byteIdx => gfPolyEval (secret byteIdx :: ofFn (coefficients byteIdx))
            (BitVec.ofNat 8 (i + 1)) }) := by
  rw [splitWith, if_neg (by omega), if_neg (by omega)]

noncomputable def sharePoly {m : Nat} (secret : Byte) (coefficients : Fin m → Byte) :
    Polynomial Gf256 :=
  polyOf ((secret :: ofFn coefficients).map mk)

theorem mem_splitWith {coefficients : Fin 32 → Fin (threshold.toNat - 1) → Byte} {out : List ShamirShare}
    (hout : splitWith secret threshold totalShares coefficients = .ok out) {s : ShamirShare} (hs : s ∈ out) :
    s.index ≠ 0#8 ∧ ∀ byteIdx,
      (⟨s.data byteIdx⟩ : Gf256) = (sharePoly (secret byteIdx) (coefficients byteIdx)).eval s.point := by
  rw [splitWith] at hout
  split at hout
  · cases hout
  split at hout
  · cases hout
  cases hout
  obtain ⟨i, hi, rfl⟩ := mem_map.mp hs
  have hlt : i + 1 < 256 := by
    have := mem_range.mp hi
    omega
  refine ⟨?_, fun byteIdx => ?_⟩
  · intro h
    have h' := congrArg BitVec.toNat h
    simp only [BitVec.toNat_ofNat] at h'
    omega
  · rw [sharePoly, eval_polyOf]
    exact congrArg mk (gfPolyEval_eq _ _)

theorem combineShares_of_splitWith {coefficients : Fin 32 → Fin (threshold.toNat - 1) → Byte}
    {out : List ShamirShare}
    (hout : splitWith secret threshold totalShares coefficients = .ok out) (hM : 2 ≤ threshold.toNat)
    (hmem : ∀ s ∈ shares, s ∈ out) (hnodup : (shares.map ShamirShare.index).Nodup)
    (hlen : threshold.toNat ≤ shares.length) : combineShares shares = .ok secret := by
  have hshare := fun s hs => mem_splitWith hout (hmem s hs)
  have hpoints : (shares.map ShamirShare.point).Nodup := nodup_points hnodup
  rw [combineShares_eq (fun s hs => (hshare s hs).1) hnodup (by omega)]
  refine congrArg Except.ok (funext fun byteIdx => ?_)
  set p := sharePoly (secret byteIdx) (coefficients byteIdx) with hp
  have hdegree : p.degree < (pointsOf shares).card := by
    refine lt_of_lt_of_le (degree_polyOf_lt _) ?_
    rw [pointsOf, toFinset_card_of_nodup hpoints]
    simp only [length_map, length_cons, length_ofFn, cast_le]
    omega
  have hsum : (shares.map fun s => ⟨s.data byteIdx⟩ * weight (pointsOf shares) s.point).sum =
      ∑ x ∈ pointsOf shares, p.eval x * weight (pointsOf shares) x := by
    rw [pointsOf, sum_toFinset _ hpoints, List.map_map]
    refine congrArg sum (map_congr_left fun s hs => ?_)
    rw [(hshare s hs).2 byteIdx]
    rfl
  rw [hsum, sum_eval_mul_weight hdegree, hp, sharePoly, map_cons, polyOf_cons]
  simp

/-- As many shares as the threshold give the secret back, whichever they are. -/
theorem combineShares_splitSecret (secret : Bytes32) (threshold totalShares : Byte)
    (hM : 2 ≤ threshold.toNat) (hN : threshold.toNat ≤ totalShares.toNat) (rng : Nat → BitVec 32) :
    ∃ out, splitSecret secret threshold totalShares rng = .ok out ∧ out.length = totalShares.toNat ∧
      ∀ shares : List ShamirShare, (∀ s ∈ shares, s ∈ out) → (shares.map ShamirShare.index).Nodup →
        threshold.toNat ≤ shares.length → combineShares shares = .ok secret := by
  have hout := splitWith_eq secret (drawCoefficients _ rng) hM hN
  exact ⟨_, hout, by simp, fun shares hmem hnd hlen => combineShares_of_splitWith hout hM hmem hnd hlen⟩

theorem combineShares_splitSecret_two_of_three :
    (2 ≤ (2#8).toNat ∧ (2#8).toNat ≤ (3#8).toNat) ∧ ∃ out,
      splitSecret (fun _ => 0x5A#8) 2#8 3#8 (fun n => BitVec.ofNat 32 (77 * n)) = .ok out ∧
      combineShares out.reverse = .ok fun _ => 0x5A#8 := by
  obtain ⟨out, hout, hlen, h⟩ := combineShares_splitSecret
    (fun _ => 0x5A#8) 2#8 3#8 (by decide) (by decide) (fun n => BitVec.ofNat 32 (77 * n))
  refine ⟨by decide, out, hout, h out.reverse (fun s hs => mem_reverse.mp hs) ?_ ?_⟩
  · rw [splitSecret, splitWith_eq _ _ (by decide) (by decide)] at hout
    cases hout
    decide
  · rw [length_reverse, hlen]
    decide

/-- The coefficients give the shares `values` at those of the `indices` that are shared out. -/
def Produces (secret : Bytes32) (threshold totalShares : Byte) (indices : Finset Byte)
    (values : Byte → Bytes32) (coefficients : Fin 32 → Fin (threshold.toNat - 1) → Byte) : Prop :=
  ∃ out, splitWith secret threshold totalShares coefficients = .ok out ∧
    ∀ share ∈ out, share.index ∈ indices → share.data = values share.index

def shiftBy {m : Nat} (e : Fin 32 → Fin m → Gf256) (coefficients : Fin 32 → Fin m → Byte) :
    Fin 32 → Fin m → Byte :=
  fun byteIdx i => coefficients byteIdx i ^^^ (e byteIdx i).byte

theorem shiftBy_involutive (e : Fin 32 → Fin m → Gf256) : Function.Involutive (shiftBy e) := by
  intro c
  funext byteIdx i
  rw [shiftBy, shiftBy, BitVec.xor_assoc, BitVec.xor_self, BitVec.xor_zero]

theorem gfPolyEval_shift {x a a' : Byte} (c : Fin m → Byte) {e : Fin m → Gf256}
    (he : horner ((⟨a⟩ + ⟨a'⟩) :: ofFn e) ⟨x⟩ = 0) :
    gfPolyEval (a' :: ofFn fun i => c i ^^^ (e i).byte) x = gfPolyEval (a :: ofFn c) x := by
  have hadd : (ofFn fun i => c i ^^^ (e i).byte).map mk =
      ofFn fun i => mk (c i) + e i := by
    rw [map_ofFn]; rfl
  have hc : (ofFn c).map mk = ofFn fun i => mk (c i) := by
    rw [map_ofFn]; rfl
  rw [horner_cons] at he
  rw [gfPolyEval_eq, gfPolyEval_eq, map_cons, map_cons, hadd, hc, horner_cons,
    horner_cons, horner_ofFn_add, add_mul, add_assoc]
  congr 2
  calc horner (ofFn e) ⟨x⟩ * ⟨x⟩ + ⟨a'⟩
      = horner (ofFn e) ⟨x⟩ * ⟨x⟩ + (⟨a⟩ + ⟨a'⟩) - ⟨a⟩ := by ring
    _ = ⟨a⟩ := by rw [he, zero_sub, neg_eq]

theorem produces_shift {indices : Finset Byte} {values : Byte → Bytes32} {secret' : Bytes32}
    {e : Fin 32 → Fin (threshold.toNat - 1) → Gf256} (he : ∀ byteIdx, ∀ x ∈ indices,
      horner ((⟨secret byteIdx⟩ + ⟨secret' byteIdx⟩) :: ofFn (e byteIdx)) ⟨x⟩ = 0)
    {c : Fin 32 → Fin (threshold.toNat - 1) → Byte}
    (h : Produces secret threshold totalShares indices values c) :
    Produces secret' threshold totalShares indices values (shiftBy e c) := by
  obtain ⟨out, hout, hvalues⟩ := h
  rw [splitWith] at hout
  split at hout
  · cases hout
  split at hout
  · cases hout
  cases hout
  refine ⟨_, splitWith_eq secret' (shiftBy e c) (by omega) (by omega), ?_⟩
  intro share hshare hidx
  obtain ⟨i, hi, rfl⟩ := mem_map.mp hshare
  rw [← hvalues _ (mem_map_of_mem hi) hidx]
  funext byteIdx
  exact gfPolyEval_shift (c byteIdx) (he byteIdx _ hidx)

def firstDraws {k : Nat} (draws : Fin k → BitVec 32) (n : Nat) : BitVec 32 :=
  if h : n < k then draws ⟨n, h⟩ else 0#32

/-- Changes each draw where the coefficient that it gives differs between `c` and `c'`. -/
def redraw {m : Nat} (c c' : Fin 32 → Fin m → Byte) (draws : Fin (32 * m) → BitVec 32) :
    Fin (32 * m) → BitVec 32 :=
  fun n =>
    let (byteIdx, i) := finProdFinEquiv.symm n
    draws n ^^^ (c byteIdx i ^^^ c' byteIdx i).setWidth 32

theorem redraw_involutive (c c' : Fin 32 → Fin m → Byte) : Function.Involutive (redraw c c') := by
  intro draws
  funext n
  simp only [redraw, BitVec.xor_assoc, BitVec.xor_self, BitVec.xor_zero]

theorem redraw_comm (c c' : Fin 32 → Fin m → Byte) : redraw c c' = redraw c' c := by
  funext draws n
  simp only [redraw, BitVec.xor_comm (c _ _)]

theorem firstDraws_pos (draws : Fin (32 * m) → BitVec 32) (byteIdx : Fin 32) (i : Fin m) :
    firstDraws draws (byteIdx.val * m + i.val) = draws (finProdFinEquiv (byteIdx, i)) := by
  have hval : byteIdx.val * m + i.val = (finProdFinEquiv (byteIdx, i)).val := by
    rw [finProdFinEquiv_apply_val, mul_comm, add_comm]
  rw [firstDraws, dif_pos (hval ▸ (finProdFinEquiv (byteIdx, i)).isLt)]
  exact congrArg draws (Fin.ext hval)

theorem low_byte (u : BitVec 32) : (u &&& 0xFF#32).truncate 8 = u.setWidth 8 := by
  apply BitVec.eq_of_toNat_eq
  have h := and_two_pow_sub_one_eq_mod u.toNat 8
  simp only [BitVec.toNat_setWidth, BitVec.toNat_and, BitVec.toNat_ofNat] at h ⊢
  rw [h, mod_mod]

theorem low_byte_xor (u : BitVec 32) (a : Byte) : (u ^^^ a.setWidth 32).setWidth 8 = u.setWidth 8 ^^^ a := by
  rw [BitVec.setWidth_xor, BitVec.setWidth_setWidth_of_le _ (by omega), BitVec.setWidth_eq]

theorem drawCoefficients_redraw {c : Fin 32 → Fin m → Byte} (c' : Fin 32 → Fin m → Byte)
    {draws : Fin (32 * m) → BitVec 32} (h : drawCoefficients m (firstDraws draws) = c) :
    drawCoefficients m (firstDraws (redraw c c' draws)) = c' := by
  funext byteIdx i
  have hc := congrFun (congrFun h byteIdx) i
  rw [drawCoefficients, firstDraws_pos, low_byte] at hc
  rw [drawCoefficients, firstDraws_pos, redraw, low_byte]
  simp only [Equiv.symm_apply_apply]
  rw [low_byte_xor, hc, ← BitVec.xor_assoc, BitVec.xor_self, BitVec.zero_xor]

/-- For at most `M - 1` indices, equally many coefficient vectors give a tuple of share values for
one secret as for another, and each comes from equally many draws. -/
theorem splitWith_secrecy {threshold : Byte} (totalShares : Byte) {indices : Finset Byte}
    (h0 : 0#8 ∉ indices) (hcard : indices.card ≤ threshold.toNat - 1) (values : Byte → Bytes32)
    (secret secret' : Bytes32) :
    Nat.card {c // Produces secret threshold totalShares indices values c} =
        Nat.card {c // Produces secret' threshold totalShares indices values c} ∧
      ∀ c c' : Fin 32 → Fin (threshold.toNat - 1) → Byte, Nat.card
        {d : Fin (32 * (threshold.toNat - 1)) → BitVec 32 //
            drawCoefficients _ (firstDraws d) = c} =
          Nat.card {d : Fin (32 * (threshold.toNat - 1)) → BitVec 32 //
            drawCoefficients _ (firstDraws d) = c'} := by
  constructor
  · have hzero : (0 : Gf256) ∉ indices.image mk := by
      intro h
      obtain ⟨x, hx, hx0⟩ := Finset.mem_image.mp h
      cases hx0
      exact h0 hx
    have hle : (indices.image mk).card ≤ threshold.toNat - 1 := Finset.card_image_le.trans hcard
    have hshift := fun byteIdx : Fin 32 => exists_horner_eq_zero hzero hle
      (⟨secret byteIdx⟩ + ⟨secret' byteIdx⟩)
    choose e he using hshift
    have hfwd : ∀ byteIdx, ∀ x ∈ indices,
        horner ((⟨secret byteIdx⟩ + ⟨secret' byteIdx⟩) :: ofFn (e byteIdx)) ⟨x⟩ = 0 :=
      fun byteIdx x hx => he byteIdx ⟨x⟩ (Finset.mem_image_of_mem _ hx)
    have hbwd : ∀ byteIdx, ∀ x ∈ indices,
        horner ((⟨secret' byteIdx⟩ + ⟨secret byteIdx⟩) :: ofFn (e byteIdx)) ⟨x⟩ = 0 := by
      intro byteIdx x hx
      rw [add_comm]
      exact hfwd byteIdx x hx
    refine card_congr (Equiv.subtypeEquiv (shiftBy_involutive e).toPerm fun c => ⟨?_, ?_⟩)
    · exact produces_shift hfwd
    · intro h
      have h' := produces_shift hbwd h
      rwa [Function.Involutive.coe_toPerm, shiftBy_involutive e c] at h'
  · intro c c'
    refine card_congr (Equiv.subtypeEquiv (redraw_involutive c c').toPerm fun d => ⟨?_, ?_⟩)
    · exact drawCoefficients_redraw c'
    · intro h
      have h' := drawCoefficients_redraw c h
      rwa [Function.Involutive.coe_toPerm, redraw_comm c' c, redraw_involutive c c' d] at h'

theorem splitWith_secrecy_one_of_two :
    (0#8 ∉ ({1#8} : Finset Byte) ∧ ({1#8} : Finset Byte).card ≤ (2#8).toNat - 1) ∧
      Nat.card {c // Produces (fun _ => 0#8) 2#8 3#8 {1#8} (fun _ _ => 7#8) c} =
        Nat.card {c // Produces (fun _ => 0x5A#8) 2#8 3#8 {1#8} (fun _ _ => 7#8) c} :=
  ⟨by decide, (splitWith_secrecy 3#8 (by decide) (by decide) (fun _ _ => 7#8) (fun _ => 0#8)
    (fun _ => 0x5A#8)).1⟩

end CipherVault.Crypto
