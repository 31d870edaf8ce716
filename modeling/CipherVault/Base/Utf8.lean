import Mathlib.Data.List.Basic

/-!
# Base.Utf8

The UTF-8 bytes of a text determine it, also where a separator that the texts do not contain stands
behind them.
-/

namespace CipherVault.Utf8

open List

/-- The bytes of one character. -/
def encodeChar (c : Char) : List (BitVec 8) := (String.utf8EncodeChar c).map UInt8.toBitVec

def encodeText (text : List Char) : List (BitVec 8) := text.flatMap encodeChar

def toByteArray (bytes : List (BitVec 8)) : ByteArray := (bytes.map UInt8.ofBitVec).toByteArray

/-- The characters that bytes stand for, if they are valid; each has at least one byte. -/
def decodeText : Nat → List (BitVec 8) → Option (List Char)
  | _, [] => some []
  | 0, _ :: _ => none
  | fuel + 1, b :: bytes =>
    match (toByteArray (b :: bytes)).utf8DecodeChar? 0 with
    | none => none
    | some c => (decodeText fuel ((b :: bytes).drop c.utf8Size)).map fun text => c :: text

theorem utf8DecodeChar_encodeChar (c : Char) (bytes : List (BitVec 8)) :
    (toByteArray (encodeChar c ++ bytes)).utf8DecodeChar? 0 = some c := by
  rw [toByteArray, encodeChar, map_append, map_map, toByteArray_append]
  have hid : (UInt8.ofBitVec ∘ UInt8.toBitVec) = id := rfl
  rw [hid, map_id]
  exact ByteArray.utf8DecodeChar?_utf8EncodeChar_append

theorem encodeChar_inj {c d : Char} {x y : List (BitVec 8)}
    (h : encodeChar c ++ x = encodeChar d ++ y) : c = d ∧ x = y := by
  have hdec := utf8DecodeChar_encodeChar c x
  rw [h, utf8DecodeChar_encodeChar] at hdec
  obtain rfl := Option.some.inj hdec
  exact ⟨rfl, append_cancel_left h⟩

theorem encodeChar_ne_nil (c : Char) : encodeChar c ≠ [] := by
  intro h
  have hlen := congrArg length h
  rw [encodeChar, length_map, String.length_utf8EncodeChar, length_nil] at hlen
  exact absurd hlen (Nat.ne_of_gt (Char.utf8Size_pos c))

theorem encodeText_cons_append (c : Char) (text : List Char) (rest : List (BitVec 8)) :
    encodeText (c :: text) ++ rest = encodeChar c ++ (encodeText text ++ rest) := by
  rw [encodeText, flatMap_cons, append_assoc]
  rfl

theorem encodeText_inj {a b : List Char} (h : encodeText a = encodeText b) : a = b := by
  induction a generalizing b with
  | nil =>
    cases b with
    | nil => rfl
    | cons d b =>
      rw [encodeText, flatMap_nil, encodeText, flatMap_cons] at h
      exact absurd (append_eq_nil_iff.mp h.symm).1 (encodeChar_ne_nil d)
  | cons c a ih =>
    cases b with
    | nil =>
      rw [encodeText, flatMap_cons, encodeText, flatMap_nil] at h
      exact absurd (append_eq_nil_iff.mp h).1 (encodeChar_ne_nil c)
    | cons d b =>
      obtain ⟨rfl, ht⟩ := encodeChar_inj (x := encodeText a) (y := encodeText b) h
      rw [ih ht]

/-- Two texts with a separator behind them that neither contains. -/
theorem encodeText_separated {separator : Char} {a b : List Char} {x y : List (BitVec 8)}
    (ha : separator ∉ a) (hb : separator ∉ b)
    (h : encodeText a ++ (encodeText [separator] ++ x) =
      encodeText b ++ (encodeText [separator] ++ y)) :
    a = b ∧ x = y := by
  induction a generalizing b with
  | nil =>
    cases b with
    | nil => exact ⟨rfl, append_cancel_left h⟩
    | cons d b =>
      rw [encodeText_cons_append d] at h
      have hd := encodeChar_inj ((encodeText_cons_append separator [] x).symm.trans h)
      exact absurd (hd.1 ▸ mem_cons_self) hb
  | cons c a ih =>
    rw [encodeText_cons_append c] at h
    cases b with
    | nil =>
      have hc := encodeChar_inj (h.trans (encodeText_cons_append separator [] y))
      exact absurd (hc.1 ▸ mem_cons_self) ha
    | cons d b =>
      rw [encodeText_cons_append d] at h
      obtain ⟨rfl, ht⟩ := encodeChar_inj h
      obtain ⟨rfl, rfl⟩ := ih (not_mem_of_not_mem_cons ha) (not_mem_of_not_mem_cons hb) ht
      exact ⟨rfl, rfl⟩

end CipherVault.Utf8
