import Mathlib.Data.BitVec

/-!
# Base.Codec

Self-delimiting byte codecs that carry the proof of their round trip, and the combinators for
records.
-/

namespace CipherVault

open List

structure Codec (α : Type) where
  put : α → List (BitVec 8)
  take : List (BitVec 8) → Option (α × List (BitVec 8))
  take_put : ∀ x rest, take (put x ++ rest) = some (x, rest)

namespace Codec

variable {α β : Type} (c : Codec α)

def decode (bytes : List (BitVec 8)) : Option α :=
  match c.take bytes with
  | some (x, []) => some x
  | _ => none

@[simp] theorem decode_put (x : α) : c.decode (c.put x) = some x := by
  have h := c.take_put x []
  rw [append_nil] at h
  rw [decode, h]

/-!
## Numbers

Base 128 with the least digit first; the digits before the last have 128 added.
-/

def putDigits : Nat → Nat → List (BitVec 8)
  | 0, _ => [0#8]
  | fuel + 1, n =>
    if n < 128 then [BitVec.ofNat 8 n] else BitVec.ofNat 8 (n % 128 + 128) :: putDigits fuel (n / 128)

def takeDigits : List (BitVec 8) → Option (Nat × List (BitVec 8))
  | [] => none
  | x :: rest =>
    if x.toNat < 128 then some (x.toNat, rest)
    else (takeDigits rest).map fun p => (x.toNat - 128 + 128 * p.1, p.2)

theorem takeDigits_putDigits (fuel : Nat) : ∀ n, n ≤ fuel → ∀ rest,
    takeDigits (putDigits fuel n ++ rest) = some (n, rest) := by
  induction fuel with
  | zero =>
    intro n hn rest
    rw [Nat.le_zero.mp hn]
    rfl
  | succ fuel ih =>
    intro n hn rest
    by_cases hlt : n < 128
    · have hmod : n % 256 = n := Nat.mod_eq_of_lt (by omega)
      simp [putDigits, takeDigits, hlt, hmod]
    · have hdiv : n / 128 ≤ fuel := by omega
      have hmod : (n % 128 + 128) % 256 = n % 128 + 128 := Nat.mod_eq_of_lt (by omega)
      simp only [putDigits, hlt, if_false, cons_append, takeDigits, BitVec.toNat_ofNat, hmod,
        ih (n / 128) hdiv rest, Option.map_some]
      rw [if_neg (by omega), Nat.add_sub_cancel, Nat.mod_add_div]

def nat : Codec Nat where
  put n := putDigits n n
  take := takeDigits
  take_put n rest := takeDigits_putDigits n n (Nat.le_refl n) rest

def bytes : Codec (List (BitVec 8)) where
  put xs := nat.put xs.length ++ xs
  take input :=
    match nat.take input with
    | none => none
    | some (n, rest) => if rest.length < n then none else some (rest.take n, rest.drop n)
  take_put xs rest := by
    rw [append_assoc, nat.take_put]
    simp

def pair (d : Codec β) : Codec (α × β) where
  put p := c.put p.1 ++ d.put p.2
  take bytes := do
    let (x, rest) ← c.take bytes
    let (y, rest) ← d.take rest
    return ((x, y), rest)
  take_put p rest := by
    rw [append_assoc, c.take_put]
    simp [d.take_put]

def via (f : β → α) (g : α → β) (h : ∀ b, g (f b) = b) : Codec β where
  put b := c.put (f b)
  take bytes := (c.take bytes).map fun p => (g p.1, p.2)
  take_put b rest := by rw [c.take_put, Option.map_some, h]

def takeMany (c : Codec α) : Nat → List (BitVec 8) → Option (List α × List (BitVec 8))
  | 0, bytes => some ([], bytes)
  | n + 1, bytes => do
    let (x, rest) ← c.take bytes
    let (xs, rest) ← takeMany c n rest
    return (x :: xs, rest)

theorem takeMany_flatMap (xs : List α) (rest : List (BitVec 8)) :
    takeMany c xs.length (xs.flatMap c.put ++ rest) = some (xs, rest) := by
  induction xs with
  | nil => rfl
  | cons x xs ih =>
    rw [flatMap_cons, append_assoc, length_cons, takeMany, c.take_put]
    simp [ih]

def list : Codec (List α) where
  put xs := nat.put xs.length ++ xs.flatMap c.put
  take bytes := do
    let (n, rest) ← nat.take bytes
    takeMany c n rest
  take_put xs rest := by
    rw [append_assoc, nat.take_put]
    exact takeMany_flatMap c xs rest

def bool : Codec Bool := nat.via Bool.toNat (· != 0) (by decide)

def char : Codec Char := nat.via Char.toNat Char.ofNat Char.ofNat_toNat

/-- A codec behind a tag: what another tag stands before is not decoded. -/
def tagged (tag : Nat) (c : Codec α) (bytes : List (BitVec 8)) : Option α :=
  match nat.take bytes with
  | some (t, rest) => if t = tag then c.decode rest else none
  | none => none

theorem tagged_put (tag t : Nat) (c : Codec α) (d : Codec β) (y : β) :
    tagged tag c (nat.put t ++ d.put y) = if t = tag then c.decode (d.put y) else none := by
  rw [tagged, nat.take_put]

end Codec
end CipherVault
