import Mathlib.Data.BitVec

/-!
# Base.Frames

A log of records, each behind its length in four big-endian bytes. An incomplete frame is a proper
initial part of one.
-/

namespace CipherVault.Frames

open List Nat

def beBytes : Nat → Nat → List (BitVec 8)
  | 0, _ => []
  | width + 1, n => beBytes width (n / 256) ++ [BitVec.ofNat 8 n]

def beValue (bytes : List (BitVec 8)) : Nat := bytes.foldl (fun acc b => acc * 256 + b.toNat) 0

theorem length_beBytes (width : Nat) : ∀ n, (beBytes width n).length = width := by
  induction width with
  | zero => intro n; rfl
  | succ width ih => intro n; rw [beBytes, length_append, ih]; rfl

theorem beValue_beBytes (width : Nat) : ∀ n, beValue (beBytes width n) = n % 256 ^ width := by
  induction width with
  | zero => intro n; rw [pow_zero, mod_one]; rfl
  | succ width ih =>
    intro n
    have hla : beValue (beBytes (width + 1) n) = beValue (beBytes width (n / 256)) * 256 + n % 256 := by
      simp [beBytes, beValue, foldl_append]
    rw [hla, ih, pow_succ', mod_mul, mul_comm, add_comm]

def frame (record : List (BitVec 8)) : List (BitVec 8) := beBytes 4 record.length ++ record

def frames (records : List (List (BitVec 8))) : List (BitVec 8) := records.flatMap frame

@[simp] theorem length_frame (record : List (BitVec 8)) : (frame record).length = 4 + record.length := by
  rw [frame, length_append, length_beBytes]

@[simp] theorem frames_nil : frames [] = [] := rfl

@[simp] theorem frames_cons (record : List (BitVec 8)) (records : List (List (BitVec 8))) :
    frames (record :: records) = frame record ++ frames records := rfl

@[simp] theorem frames_append (records others : List (List (BitVec 8))) :
    frames (records ++ others) = frames records ++ frames others := flatMap_append

theorem length_frames (records : List (List (BitVec 8))) :
    (frames records).length = (records.map fun r => 4 + r.length).sum := by
  induction records with
  | nil => rfl
  | cons record records ih => rw [frames_cons, length_append, length_frame, ih, map_cons, sum_cons]

theorem length_le_length_frames (records : List (List (BitVec 8))) :
    records.length ≤ (frames records).length := by
  induction records with
  | nil => exact le_refl 0
  | cons record records ih =>
    rw [frames_cons, length_append, length_frame, length_cons]
    omega

section

variable {record rest tail : List (BitVec 8)}

theorem header_frame (hlen : record.length < 2 ^ 32) (rest : List (BitVec 8)) :
    beValue ((frame record ++ rest).take 4) = record.length := by
  have htake : (frame record ++ rest).take 4 = beBytes 4 record.length := by
    exact take_left' (length_beBytes 4 _)
  rw [htake, beValue_beBytes]
  exact mod_eq_of_lt hlen

theorem drop_header_frame (record rest : List (BitVec 8)) :
    (frame record ++ rest).drop 4 = record ++ rest := by
  exact drop_left' (length_beBytes 4 _)

theorem drop_frame (record rest : List (BitVec 8)) : (frame record ++ rest).drop (4 + record.length) = rest :=
  drop_left' (length_frame record)

/-- A frame whose writing was cut short. -/
def Torn (tail record : List (BitVec 8)) : Prop := tail <+: frame record ∧ tail.length < 4 + record.length

theorem Torn.header (h : Torn tail record) (hlen : record.length < 2 ^ 32) (hheader : 4 ≤ tail.length) :
    beValue (tail.take 4) = record.length ∧ (tail.drop 4).length < record.length := by
  obtain ⟨⟨rest, hr⟩, hshort⟩ := h
  have htake : tail.take 4 = (frame record ++ []).take 4 := by
    rw [append_nil, ← hr, take_append_of_le_length hheader]
  refine ⟨?_, ?_⟩
  · rw [htake]
    exact header_frame hlen []
  · rw [length_drop]
    omega

theorem take_frame_torn {n : Nat} (h : n < (frame record).length) : Torn ((frame record).take n) record := by
  refine ⟨ take_prefix n _, ?_⟩
  rw [length_frame] at h
  rw [length_take, length_frame]
  omega

end

end CipherVault.Frames
