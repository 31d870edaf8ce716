import CipherVault.Crypto.Basic
import Mathlib.Algebra.Field.MinimalAxioms
import Mathlib.Tactic.Ring

/-!
# Crypto.Gf256

The byte arithmetic of `crates/crypto/src/shamir.rs` and the proof that it is a field. `gf_mul` is a
loop of eight branchless turns. It is additive in each argument (`gfMul_xor_left`,
`gfMul_xor_right`), so that every law is checked on the eight powers of two and carried to all bytes
by `byte_induction`. The inverse is Fermat's.
-/

namespace CipherVault.Crypto

open Function

def lowMask (x : Byte) : Byte := 0#8 - (x &&& 1#8)

def xtime (a : Byte) : Byte := (a <<< 1) ^^^ (0x1B#8 &&& lowMask (a >>> 7))

def gfMulTurn : Byte × Byte × Byte → Byte × Byte × Byte
  | (a, b, p) => (xtime a, b >>> 1, p ^^^ (a &&& lowMask b))

def gfMul (a b : Byte) : Byte := (gfMulTurn^[8] (a, b, 0#8)).2.2

def gfInv (a : Byte) : Except CryptoError Byte :=
  if a = 0#8 then .error (.thresholdError "Division by zero in GF(2^8)")
  else
    let a2 := gfMul a a
    let a3 := gfMul a2 a
    let a6 := gfMul a3 a3
    let a7 := gfMul a6 a
    let a14 := gfMul a7 a7
    let a15 := gfMul a14 a
    let a30 := gfMul a15 a15
    let a31 := gfMul a30 a
    let a62 := gfMul a31 a31
    let a63 := gfMul a62 a
    let a126 := gfMul a63 a63
    let a127 := gfMul a126 a
    let a254 := gfMul a127 a127
    .ok a254

def gfDiv (a b : Byte) : Except CryptoError Byte :=
  if b = 0#8 then .error (.thresholdError "Division by zero in GF(2^8)")
  else if a = 0#8 then .ok 0#8
  else match gfInv b with
    | .error e => .error e
    | .ok i => .ok (gfMul a i)

def gfPolyEval (coefficients : List Byte) (x : Byte) : Byte :=
  coefficients.reverse.foldl (fun result coeff => gfMul result x ^^^ coeff) 0#8

/-! ## Additivity of one turn and of the loop -/

theorem lowMask_eq (x : Byte) : lowMask x = if x.getLsbD 0 then 0xFF#8 else 0#8 := by
  rw [lowMask, BitVec.and_one_eq_setWidth_ofBool_getLsbD]
  cases x.getLsbD 0 <;> decide

theorem lowMask_xor (x y : Byte) : lowMask (x ^^^ y) = lowMask x ^^^ lowMask y := by
  simp only [lowMask_eq, BitVec.getLsbD_xor]
  cases x.getLsbD 0 <;> cases y.getLsbD 0 <;> decide

theorem and_xor_byte (m x y : Byte) : m &&& (x ^^^ y) = (m &&& x) ^^^ (m &&& y) := by
  ext i
  simp only [BitVec.getElem_and, BitVec.getElem_xor, Bool.and_xor_distrib_left]

theorem xtime_xor (x y : Byte) : xtime (x ^^^ y) = xtime x ^^^ xtime y := by
  have hs : (x ^^^ y) <<< 1 = x <<< 1 ^^^ y <<< 1 := BitVec.shiftLeft_xor_distrib x y 1
  have hr : (x ^^^ y) >>> 7 = x >>> 7 ^^^ y >>> 7 := BitVec.ushiftRight_xor_distrib x y 7
  simp only [xtime, hs, hr, lowMask_xor, and_xor_byte]
  ac_rfl

theorem turns_xor_left (n : Nat) : ∀ a a' b p p' : Byte, gfMulTurn^[n] (a ^^^ a', b, p ^^^ p') =
      ((gfMulTurn^[n] (a, b, p)).1 ^^^ (gfMulTurn^[n] (a', b, p')).1, (gfMulTurn^[n] (a, b, p)).2.1,
        (gfMulTurn^[n] (a, b, p)).2.2 ^^^ (gfMulTurn^[n] (a', b, p')).2.2) := by
  induction n with
  | zero => intro a a' b p p'; rfl
  | succ n ih =>
    intro a a' b p p'
    have hp : p ^^^ p' ^^^ ((a ^^^ a') &&& lowMask b) =
        (p ^^^ (a &&& lowMask b)) ^^^ (p' ^^^ (a' &&& lowMask b)) := by
      rw [BitVec.and_comm, and_xor_byte]; ac_rfl
    simp only [iterate_succ_apply, gfMulTurn]
    rw [xtime_xor, hp, ih]

theorem turns_xor_right (n : Nat) : ∀ a b b' p p' : Byte, gfMulTurn^[n] (a, b ^^^ b', p ^^^ p') =
      ((gfMulTurn^[n] (a, b, p)).1, (gfMulTurn^[n] (a, b, p)).2.1 ^^^ (gfMulTurn^[n] (a, b', p')).2.1,
        (gfMulTurn^[n] (a, b, p)).2.2 ^^^ (gfMulTurn^[n] (a, b', p')).2.2) := by
  induction n with
  | zero => intro a b b' p p'; rfl
  | succ n ih =>
    intro a b b' p p'
    have hp : p ^^^ p' ^^^ (a &&& lowMask (b ^^^ b')) =
        (p ^^^ (a &&& lowMask b)) ^^^ (p' ^^^ (a &&& lowMask b')) := by
      rw [lowMask_xor, and_xor_byte]; ac_rfl
    have hb : (b ^^^ b') >>> 1 = b >>> 1 ^^^ b' >>> 1 := BitVec.ushiftRight_xor_distrib b b' 1
    simp only [iterate_succ_apply, gfMulTurn]
    rw [hb, hp, ih]

theorem gfMul_xor_left (a a' b : Byte) : gfMul (a ^^^ a') b = gfMul a b ^^^ gfMul a' b := by
  have h := turns_xor_left 8 a a' b 0#8 0#8
  exact congrArg (fun s => s.2.2) h

theorem gfMul_xor_right (a b b' : Byte) : gfMul a (b ^^^ b') = gfMul a b ^^^ gfMul a b' := by
  have h := turns_xor_right 8 a b b' 0#8 0#8
  exact congrArg (fun s => s.2.2) h

/-! ## From the powers of two to all bytes -/

theorem byte_bits (a : Byte) :
    a = (a &&& 1#8) ^^^ (a &&& 2#8) ^^^ (a &&& 4#8) ^^^ (a &&& 8#8) ^^^ (a &&& 16#8) ^^^
      (a &&& 32#8) ^^^ (a &&& 64#8) ^^^ (a &&& 128#8) := by
  revert a; decide +kernel

theorem and_bit (a : Byte) (i : Fin 8) : a &&& (1#8 <<< i.val) = 0#8 ∨
    a &&& (1#8 <<< i.val) = 1#8 <<< i.val := by
  rw [← BitVec.twoPow_eq, BitVec.and_twoPow]
  by_cases h : a.getLsbD i.val
  · exact .inr (if_pos h)
  · exact .inl (if_neg h)

/-- What holds of zero and of the powers of two and is closed under `^` holds of every byte. -/
theorem byte_induction {P : Byte → Prop} (h0 : P 0#8) (hbit : ∀ i : Fin 8, P (1#8 <<< i.val))
    (hxor : ∀ a b, P a → P b → P (a ^^^ b)) (a : Byte) : P a := by
  have hand : ∀ i : Fin 8, P (a &&& (1#8 <<< i.val)) := by
    intro i
    rcases and_bit a i with h | h
    · rw [h]; exact h0
    · rw [h]; exact hbit i
  rw [byte_bits a]
  exact hxor _ _ (hxor _ _ (hxor _ _ (hxor _ _ (hxor _ _ (hxor _ _ (hxor _ _
    (hand 0) (hand 1)) (hand 2)) (hand 3)) (hand 4)) (hand 5)) (hand 6)) (hand 7)

theorem gfMul_zero_left (b : Byte) : gfMul 0#8 b = 0#8 := by
  have h := gfMul_xor_left 0#8 0#8 b
  rwa [BitVec.xor_self, BitVec.xor_self] at h

theorem gfMul_zero_right (a : Byte) : gfMul a 0#8 = 0#8 := by
  have h := gfMul_xor_right a 0#8 0#8
  rwa [BitVec.xor_self, BitVec.xor_self] at h

theorem gfMul_one_left (b : Byte) : gfMul 1#8 b = b := by
  refine byte_induction (P := fun b => gfMul 1#8 b = b) (gfMul_zero_right 1#8) (by decide) ?_ b
  intro x y hx hy
  rw [gfMul_xor_right, hx, hy]

theorem gfMul_comm_bits : ∀ i j : Fin 8,
    gfMul (1#8 <<< i.val) (1#8 <<< j.val) = gfMul (1#8 <<< j.val) (1#8 <<< i.val) := by
  decide +kernel

theorem gfMul_comm (a b : Byte) : gfMul a b = gfMul b a := by
  refine byte_induction (P := fun a => gfMul a b = gfMul b a) ?_ ?_ ?_ a
  · rw [gfMul_zero_left, gfMul_zero_right]
  · intro i
    refine byte_induction (P := fun b => gfMul (1#8 <<< i.val) b = gfMul b (1#8 <<< i.val)) ?_ ?_ ?_ b
    · rw [gfMul_zero_left, gfMul_zero_right]
    · exact gfMul_comm_bits i
    · intro x y hx hy
      rw [gfMul_xor_left, gfMul_xor_right, hx, hy]
  · intro x y hx hy
    rw [gfMul_xor_left, gfMul_xor_right, hx, hy]

theorem gfMul_assoc_bits : ∀ i j k : Fin 8, gfMul (gfMul (1#8 <<< i.val) (1#8 <<< j.val)) (1#8 <<< k.val) =
      gfMul (1#8 <<< i.val) (gfMul (1#8 <<< j.val) (1#8 <<< k.val)) := by
  decide +kernel

theorem gfMul_assoc (a b c : Byte) : gfMul (gfMul a b) c = gfMul a (gfMul b c) := by
  refine byte_induction (P := fun a => gfMul (gfMul a b) c = gfMul a (gfMul b c)) ?_ ?_ ?_ a
  · simp only [gfMul_zero_left]
  · intro i
    refine byte_induction
      (P := fun b => gfMul (gfMul (1#8 <<< i.val) b) c = gfMul (1#8 <<< i.val) (gfMul b c)) ?_ ?_ ?_ b
    · simp only [gfMul_zero_left, gfMul_zero_right]
    · intro j
      refine byte_induction (P := fun c => gfMul (gfMul (1#8 <<< i.val) (1#8 <<< j.val)) c =
        gfMul (1#8 <<< i.val) (gfMul (1#8 <<< j.val) c)) ?_ ?_ ?_ c
      · simp only [gfMul_zero_right]
      · exact gfMul_assoc_bits i j
      · intro x y hx hy
        simp only [gfMul_xor_right, hx, hy]
    · intro x y hx hy
      simp only [gfMul_xor_left, gfMul_xor_right, hx, hy]
  · intro x y hx hy
    simp only [gfMul_xor_left, hx, hy]

theorem gfMul_self_eq : ∀ e : Byte, gfMul e e = e → e = 0#8 ∨ e = 1#8 := by decide +kernel

/-- A byte read as a field element: `^` is its addition and `gfMul` its multiplication. -/
@[ext] structure Gf256 where
  byte : Byte
deriving DecidableEq

namespace Gf256

instance : Zero Gf256 := ⟨⟨0#8⟩⟩

instance : One Gf256 := ⟨⟨1#8⟩⟩

instance : Add Gf256 := ⟨fun a b => ⟨a.byte ^^^ b.byte⟩⟩

instance : Neg Gf256 := ⟨fun a => a⟩

instance : Mul Gf256 := ⟨fun a b => ⟨gfMul a.byte b.byte⟩⟩

theorem byte_add (a b : Gf256) : (a + b).byte = a.byte ^^^ b.byte := rfl

theorem byte_mul (a b : Gf256) : (a * b).byte = gfMul a.byte b.byte := rfl

instance : CommRing Gf256 :=
  CommRing.ofMinimalAxioms
    (fun a b c => Gf256.ext (BitVec.xor_assoc a.byte b.byte c.byte))
    (fun _ => Gf256.ext BitVec.zero_xor)
    (fun _ => Gf256.ext BitVec.xor_self)
    (fun a b c => Gf256.ext (gfMul_assoc a.byte b.byte c.byte))
    (fun a b => Gf256.ext (gfMul_comm a.byte b.byte))
    (fun a => Gf256.ext (gfMul_one_left a.byte))
    (fun a b c => Gf256.ext (gfMul_xor_right a.byte b.byte c.byte))

variable (a : Gf256)

theorem neg_eq : -a = a := rfl

theorem sub_eq (a b : Gf256) : a - b = a + b := by rw [sub_eq_add_neg, neg_eq]

theorem sq_add (a b : Gf256) : (a + b) ^ 2 = a ^ 2 + b ^ 2 := by
  have h : a * b + a * b = 0 := Gf256.ext BitVec.xor_self
  calc (a + b) ^ 2 = a ^ 2 + b ^ 2 + (a * b + a * b) := by ring
    _ = a ^ 2 + b ^ 2 := by rw [h, add_zero]

theorem pow_two_pow_add (n : Nat) : ∀ a b : Gf256, (a + b) ^ 2 ^ n = a ^ 2 ^ n + b ^ 2 ^ n := by
  induction n with
  | zero => intro a b; simp only [pow_zero, pow_one]
  | succ n ih =>
    intro a b
    rw [pow_succ, pow_mul, pow_mul, pow_mul, ih, sq_add]

theorem frobenius_bits : ∀ i : Fin 8, (fun x => gfMul x x)^[8] (1#8 <<< i.val) =
    1#8 <<< i.val := by decide +kernel

theorem byte_pow_two_pow (n : Nat) : ∀ a : Gf256, (a ^ 2 ^ n).byte = (fun x => gfMul x x)^[n] a.byte := by
  induction n with
  | zero => intro a; simp only [pow_zero, pow_one, iterate_zero, id]
  | succ n ih =>
    intro a
    rw [pow_succ', pow_mul, ih, iterate_succ_apply, sq, byte_mul]

/-- Squaring eight times is additive and fixes the powers of two, so it fixes every byte. -/
theorem pow_card : a ^ 256 = a := by
  refine byte_induction (P := fun x => (⟨x⟩ : Gf256) ^ 256 = ⟨x⟩) (zero_pow (by decide)) ?_ ?_ a.byte
  · intro i
    exact Gf256.ext ((byte_pow_two_pow 8 ⟨1#8 <<< i.val⟩).trans (frobenius_bits i))
  · intro x y hx hy
    have h := pow_two_pow_add 8 ⟨x⟩ ⟨y⟩
    norm_num only at h
    rw [hx, hy] at h
    exact h

theorem pow_255 {a : Gf256} (ha : a ≠ 0) : a ^ 255 = 1 := by
  -- `a ^ 255` is its own square, and it is not zero since `a ^ 255 * a = a`
  have hself : a ^ 255 * a ^ 255 = a ^ 255 := by
    calc a ^ 255 * a ^ 255 = a ^ 256 * a ^ 254 := by ring
      _ = a ^ 255 := by rw [pow_card]; ring
  rcases gfMul_self_eq (a ^ 255).byte (congrArg byte hself) with h | h
  · have h0 : a ^ 255 = 0 := Gf256.ext h
    exact absurd (by rw [← pow_card a, pow_succ, h0, zero_mul]) ha
  · exact Gf256.ext h

theorem gfMul_pow_pow (m n : Nat) : gfMul (a ^ m).byte (a ^ n).byte = (a ^ (m + n)).byte := by
  rw [pow_add, byte_mul]

theorem gfMul_pow_self (m : Nat) : gfMul (a ^ m).byte a.byte = (a ^ (m + 1)).byte := by
  rw [pow_succ, byte_mul]

theorem gfMul_self : gfMul a.byte a.byte = (a ^ 2).byte := by rw [sq, byte_mul]

/-- The addition chain of `gf_inv` is the power 254. -/
theorem gfInv_eq_pow {a : Gf256} (ha : a.byte ≠ 0#8) : gfInv a.byte = .ok (a ^ 254).byte := by
  simp only [gfInv, if_neg ha, gfMul_self a, gfMul_pow_self, gfMul_pow_pow, Nat.reduceAdd]

instance : Inv Gf256 := ⟨fun a => a ^ 254⟩

instance : Field Gf256 where
  exists_pair_ne := ⟨0, 1, by decide⟩
  mul_inv_cancel a ha := by
    change a * a ^ 254 = 1
    rw [← pow_succ', pow_255 ha]
  inv_zero := zero_pow (by decide)
  nnqsmul := _
  nnqsmul_def := fun _ _ => rfl
  qsmul := _
  qsmul_def := fun _ _ => rfl

theorem inv_eq : a⁻¹ = a ^ 254 := rfl

theorem gfDiv_eq {b : Gf256} (hb : b ≠ 0) : gfDiv a.byte b.byte = .ok (a / b).byte := by
  have hb' : b.byte ≠ 0#8 := fun h => hb (Gf256.ext h)
  rw [div_eq_mul_inv, inv_eq, byte_mul, gfDiv, if_neg hb', gfInv_eq_pow hb']
  split
  · rename_i ha
    rw [ha, gfMul_zero_left]
  · rfl

/-- Division undoes multiplication for every divisor but zero, which is refused. -/
theorem gfDiv_cancels (a b : Byte) : ((∃ q, gfDiv a b = .ok q ∧ gfMul q b = a) ↔ b ≠ 0#8) ∧
    gfDiv a 0#8 = .error (.thresholdError "Division by zero in GF(2^8)") := by
  refine ⟨?_, if_pos rfl⟩
  constructor
  · rintro ⟨q, hq, -⟩ rfl
    cases hq
  · intro hb
    have hne : (⟨b⟩ : Gf256) ≠ 0 := fun h => hb (congrArg byte h)
    refine ⟨_, gfDiv_eq ⟨a⟩ hne, ?_⟩
    rw [← byte_mul _ ⟨b⟩, div_mul_cancel₀ _ hne]

end Gf256
end CipherVault.Crypto
