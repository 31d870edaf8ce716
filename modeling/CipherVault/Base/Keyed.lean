import Mathlib.Data.List.AList
import Mathlib.Data.Set.Insert

/-!
# Base.Keyed

Maps filled from items that each have a key and a value. `Holds key val items m`: `m` has exactly
the values of the items.
-/

namespace Keyed

open AList

variable {A K V : Type} [DecidableEq K] {key : A → K} {val : A → V}

/-- The map has exactly the items, each under its key. -/
def Holds (key : A → K) (val : A → V) (items : Set A) (m : AList fun _ : K => V) : Prop :=
  ∀ k v, m.lookup k = some v ↔ ∃ a ∈ items, key a = k ∧ val a = v

theorem holds_empty (key : A → K) (val : A → V) : Holds key val ∅ ∅ := by
  intro k v
  constructor
  · intro h; cases h
  · intro ⟨_, ha, _⟩; cases ha

variable {items : Set A} {m : AList fun _ : K => V} {a : A}

section

variable (h : Holds key val items m)
include h

theorem Holds.agree {b : A} (ha : a ∈ items) (hb : b ∈ items) (hkey : key a = key b) : val a = val b := by
  have hva := (h (key a) (val a)).mpr ⟨a, ha, rfl, rfl⟩
  have hvb := (h (key a) (val b)).mpr ⟨b, hb, hkey.symm, rfl⟩
  rw [hva] at hvb
  exact Option.some.inj hvb

theorem Holds.lookup (ha : a ∈ items) : m.lookup (key a) = some (val a) := (h _ _).mpr ⟨a, ha, rfl, rfl⟩

theorem Holds.insert (hok : ∀ v, m.lookup (key a) = some v → v = val a) :
    Holds key val (insert a items) (m.insert (key a) (val a)) := by
  intro k v
  by_cases hk : k = key a
  · rw [hk, lookup_insert]
    constructor
    · intro hv
      exact ⟨a, Set.mem_insert a items, rfl, Option.some.inj hv⟩
    · intro ⟨b, hb, hkey, hval⟩
      rcases hb with rfl | hb
      · rw [hval]
      · have hl := h.lookup hb
        rw [hkey] at hl
        rw [← hok _ hl, hval]
  · rw [lookup_insert_ne hk, h k v]
    constructor
    · intro ⟨b, hb, hkey, hval⟩
      exact ⟨b, Set.mem_insert_of_mem a hb, hkey, hval⟩
    · intro ⟨b, hb, hkey, hval⟩
      rcases hb with rfl | hb
      · exact absurd hkey.symm hk
      · exact ⟨b, hb, hkey, hval⟩

theorem Holds.conflict [BEq V] [LawfulBEq V] (hany : (m.lookup (key a)).any (· != val a) = true) :
    ∃ b ∈ items, key b = key a ∧ val b ≠ val a := by
  cases hv : m.lookup (key a) with
  | none => rw [hv] at hany; cases hany
  | some v =>
    obtain ⟨b, hb, hkey, hval⟩ := (h _ _).mp hv
    rw [hv] at hany
    exact ⟨b, hb, hkey, fun he => absurd hany (by simp [← hval, he])⟩

end

theorem lookup_eq_of_any {k : K} {w : V} [BEq V] [LawfulBEq V] (hany : ¬ (m.lookup k).any (· != w) = true) :
    ∀ v, m.lookup k = some v → v = w := by
  intro v hv
  rw [hv] at hany
  simpa using hany

theorem Holds.entries_eq_singleton {k : K} {v : V} (h : Holds key val items m) :
    m.entries = [⟨k, v⟩] ↔ (∃ a ∈ items, key a = k ∧ val a = v) ∧ ∀ b ∈ items, key b = k := by
  constructor
  · intro hent
    refine ⟨(h k v).mp (mem_lookup_iff.mpr (by rw [hent]; exact List.mem_singleton_self _)), ?_⟩
    intro b hb
    have hmem := mem_lookup_iff.mp (h.lookup hb)
    rw [hent, List.mem_singleton] at hmem
    exact congrArg Sigma.fst hmem
  · intro ⟨⟨a, ha, hkey, hval⟩, hall⟩
    have hmem : (⟨k, v⟩ : Sigma fun _ : K => V) ∈ m.entries := by
      refine mem_lookup_iff.mp ?_
      rw [← hkey, ← hval]
      exact h.lookup ha
    have honly : ∀ e ∈ m.entries, e = ⟨k, v⟩ := by
      intro ⟨k', v'⟩ he
      obtain ⟨b, hb, hkeyb, hvalb⟩ := (h k' v').mp (mem_lookup_iff.mpr he)
      have hk : k' = k := by rw [← hkeyb, hall b hb]
      have hv : v' = v := by rw [← hvalb, ← hval, h.agree hb ha (by rw [hall b hb, hkey])]
      rw [hk, hv]
    have hnd : m.entries.Nodup := m.nodupKeys.nodup
    by_contra hne
    rcases (hnd.ne_singleton_iff _).mp hne with hnil | ⟨e, he, hne⟩
    · rw [hnil] at hmem; cases hmem
    · exact hne (honly e he)

end Keyed
