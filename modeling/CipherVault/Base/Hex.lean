import Mathlib.Data.BitVec

/-!
# Base.Hex

Bytes as hexadecimal digits. Both cases are read and the lower one is written, so that the spellings
of one byte string differ in the case of letters.
-/

namespace CipherVault.Hex

open List Char

def digit (n : Nat) : Char := if n < 10 then ofNat (48 + n) else ofNat (87 + n)

def value (c : Char) : Option Nat :=
  if 48 ≤ c.toNat ∧ c.toNat ≤ 57 then some (c.toNat - 48)
  else if 97 ≤ c.toNat ∧ c.toNat ≤ 102 then some (c.toNat - 87)
  else if 65 ≤ c.toNat ∧ c.toNat ≤ 70 then some (c.toNat - 55)
  else none

def encode : List (BitVec 8) → List Char
  | [] => []
  | b :: rest => digit (b.toNat / 16) :: digit (b.toNat % 16) :: encode rest

def decode : List Char → Option (List (BitVec 8))
  | [] => some []
  | [_] => none
  | high :: low :: rest =>
    match value high, value low, decode rest with
    | some x, some y, some bytes => some (BitVec.ofNat 8 (16 * x + y) :: bytes)
    | _, _, _ => none

def lower (text : List Char) : List Char := text.map toLower

theorem toNat_toLower (c : Char) : c.toLower.toNat = if 65 ≤ c.toNat ∧
    c.toNat ≤ 90 then c.toNat + 32 else c.toNat := by
  have hval : ∀ k : UInt32, (c.val ≥ k ↔ k.toNat ≤ c.toNat) ∧ (c.val ≤ k ↔ c.toNat ≤ k.toNat) := by
    intro k
    exact ⟨UInt32.le_iff_toNat_le, UInt32.le_iff_toNat_le⟩
  unfold toLower
  by_cases h : c.val ≥ 'A'.val ∧ c.val ≤ 'Z'.val
  · have hrange : 65 ≤ c.toNat ∧ c.toNat ≤ 90 := ⟨((hval _).1).mp h.1, ((hval _).2).mp h.2⟩
    rw [dif_pos h, if_pos hrange]
    show (c.val + 32).toNat = c.val.toNat + 32
    exact Nat.mod_eq_of_lt (by simp; omega)
  · rw [dif_neg h, if_neg]
    intro hrange
    exact h ⟨((hval _).1).mpr hrange.1, ((hval _).2).mpr hrange.2⟩

variable {n : Nat} {c : Char} {text : List Char} {bytes : List (BitVec 8)}

theorem toNat_digit (h : n < 16) : (digit n).toNat = if n < 10 then 48 + n else 87 + n := by
  revert n
  decide

theorem value_digit (h : n < 16) : value (digit n) = some n := by
  unfold value
  rw [toNat_digit h]
  by_cases hn : n < 10
  · rw [if_pos hn, if_pos (by omega), Nat.add_sub_cancel_left]
  · rw [if_neg hn, if_neg (by omega), if_pos (by omega), Nat.add_sub_cancel_left]

theorem digit_value (h : value c = some n) : n < 16 ∧ digit n = c.toLower := by
  have hlt : n < 16 := by
    unfold value at h
    split at h
    · cases h; omega
    · split at h
      · cases h; omega
      · split at h
        · cases h; omega
        · cases h
  refine ⟨hlt, toNat_inj.mp ?_⟩
  rw [toNat_digit hlt, toNat_toLower]
  unfold value at h
  split at h
  · cases h
    rw [if_pos (by omega), if_neg (by omega)]
    omega
  · split at h
    · cases h
      rw [if_neg (by omega), if_neg (by omega)]
      omega
    · split at h
      · cases h
        rw [if_neg (by omega), if_pos (by omega)]
        omega
      · cases h

@[simp] theorem decode_encode (bytes : List (BitVec 8)) : decode (encode bytes) = some bytes := by
  induction bytes with
  | nil => rfl
  | cons b rest ih =>
    simp only [encode, decode, value_digit (show b.toNat / 16 < 16 by omega),
      value_digit (show b.toNat % 16 < 16 by omega), ih]
    rw [Nat.div_add_mod, BitVec.ofNat_toNat, BitVec.setWidth_eq]

theorem encode_of_decode : ∀ {text : List Char} {bytes : List (BitVec 8)}, decode text = some bytes →
    encode bytes = lower text
  | [], bytes, h => by
    cases h
    rfl
  | [_], bytes, h => by cases h
  | high :: low :: rest, bytes, h => by
    simp only [decode] at h
    split at h
    · rename_i x y tail hx hy ht
      cases h
      obtain ⟨hx16, hx⟩ := digit_value hx
      obtain ⟨hy16, hy⟩ := digit_value hy
      have hbyte : (BitVec.ofNat 8 (16 * x + y)).toNat = 16 * x + y := by
        exact Nat.mod_eq_of_lt (by omega)
      have hdiv : (16 * x + y) / 16 = x := by omega
      have hmod : (16 * x + y) % 16 = y := by omega
      rw [encode, hbyte, hdiv, hmod, hx, hy, encode_of_decode ht]
      rfl
    · cases h

theorem digits_of_decode : ∀ {text : List Char} {bytes : List (BitVec 8)}, decode text = some bytes →
    ∀ c ∈ text, (value c).isSome = true
  | [], _, _ => nofun
  | [_], _, h => by cases h
  | high :: low :: rest, bytes, h => by
    simp only [decode] at h
    split at h
    · rename_i x y tail hx hy ht
      intro c hc
      rcases mem_cons.mp hc with rfl | hc
      · rw [hx]; rfl
      · rcases mem_cons.mp hc with rfl | hc
        · rw [hy]; rfl
        · exact digits_of_decode ht c hc
    · cases h

theorem lower_lower (text : List Char) : lower (lower text) = lower text := by
  rw [lower, lower, map_map]
  refine map_congr_left fun c _ => toNat_inj.mp ?_
  rw [Function.comp_apply, toNat_toLower, toNat_toLower]
  split
  · rw [if_neg (by omega)]
  · rfl

theorem encode_inj {a b : List (BitVec 8)} (h : encode a = encode b) : a = b := by
  have ha := decode_encode a
  rw [h, decode_encode] at ha
  exact (Option.some.inj ha).symm

theorem length_encode (bytes : List (BitVec 8)) : (encode bytes).length = 2 * bytes.length := by
  induction bytes with
  | nil => rfl
  | cons b rest ih =>
    rw [encode, length_cons, length_cons, ih, length_cons]
    omega

theorem digit_spec (h : n < 16) : (value (digit n)).isSome = true ∧ (digit n).isUpper = false := by
  revert n
  decide

theorem mem_encode (h : c ∈ encode bytes) : (value c).isSome = true ∧ c.isUpper = false := by
  induction bytes with
  | nil => cases h
  | cons b rest ih =>
    rw [encode, mem_cons, mem_cons] at h
    rcases h with rfl | rfl | h
    · exact digit_spec (by omega)
    · exact digit_spec (by omega)
    · exact ih h

end CipherVault.Hex
