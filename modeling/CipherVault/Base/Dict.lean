import Mathlib.Algebra.Order.BigOperators.Group.List
import Mathlib.Algebra.Order.Ring.Nat
import Mathlib.Data.List.AList

/-!
# Base.Dict

Finite maps: `AList` with the further operations of a hash map. No lemma observes the order of the
entries.
-/

namespace CipherVault

open List AList

abbrev Dict (κ α : Type) := AList fun _ : κ => α

namespace Dict

variable {κ α β : Type}

def retain (p : κ → α → Bool) (m : Dict κ α) : Dict κ α :=
  ⟨m.entries.filter fun e => p e.1 e.2, m.nodupKeys.sublist filter_sublist⟩

def size (m : Dict κ α) : Nat := m.entries.length

def map (f : κ → α → β) (m : Dict κ α) : Dict κ β :=
  ⟨m.entries.map fun e => ⟨e.1, f e.1 e.2⟩, by
    have hkeys : (m.entries.map fun e => (⟨e.1, f e.1 e.2⟩ : (_ : κ) × β)).keys = m.entries.keys := by
      rw [List.keys, map_map]
      rfl
    rw [List.NodupKeys, hkeys]
    exact m.nodupKeys⟩

def oldest (age : α → Nat) (tie : Nat) (m : Dict κ α) : Option κ :=
  let ties := m.entries.filter fun e => m.entries.all fun e' => age e.2 ≤ age e'.2
  (ties[tie % ties.length]?).map Sigma.fst

def sum (f : κ → α → Nat) (m : Dict κ α) : Nat := (m.entries.map fun e => f e.1 e.2).sum

theorem sum_retain_le (f : κ → α → Nat) (p : κ → α → Bool) (m : Dict κ α) : sum f (retain p m) ≤ sum f m :=
  (filter_sublist.map _).sum_le_sum fun _ _ => Nat.zero_le _

variable [DecidableEq κ]

def restore (k : κ) (previous : Option α) (m : Dict κ α) : Dict κ α :=
  match previous with
  | some v => m.insert k v
  | none => m.erase k

def dropOldest (age : α → Nat) (tie : Nat) (m : Dict κ α) : Dict κ α :=
  match oldest age tie m with
  | some k => m.erase k
  | none => m

variable {m : Dict κ α} {k k' : κ} {v : α} {p : κ → α → Bool}

theorem lookup_eq_some_iff : m.lookup k = some v ↔ ⟨k, v⟩ ∈ m.entries :=
  mem_lookup_iff

theorem lookup_retain (p : κ → α → Bool) (m : Dict κ α) (k : κ) :
    (retain p m).lookup k = (m.lookup k).filter (p k) := by
  refine Option.ext fun v => ?_
  rw [lookup_eq_some_iff, Option.filter_eq_some_iff, lookup_eq_some_iff]
  exact mem_filter

theorem lookup_retain_eq_some : (retain p m).lookup k = some v ↔ m.lookup k = some v ∧ p k v = true := by
  rw [lookup_retain, Option.filter_eq_some_iff]

theorem lookup_of_lookup_erase (h : (m.erase k).lookup k' = some v) : k' ≠ k ∧ m.lookup k' = some v := by
  by_cases heq : k' = k
  · subst heq
    rw [lookup_erase] at h
    cases h
  · rw [lookup_erase_ne heq] at h
    exact ⟨heq, h⟩

theorem lookup_of_lookup_dropOldest {tie : Nat} {age : α → Nat}
    (h : (dropOldest age tie m).lookup k = some v) :
    m.lookup k = some v := by
  unfold dropOldest at h
  split at h
  · exact (lookup_of_lookup_erase h).2
  · exact h

theorem lookup_map (f : κ → α → β) (m : Dict κ α) (k : κ) : (map f m).lookup k = (m.lookup k).map (f k) := by
  refine Option.ext fun v => ?_
  rw [lookup_eq_some_iff, Option.map_eq_some_iff]
  constructor
  · intro h
    obtain ⟨e, he, heq⟩ := mem_map.mp h
    cases heq
    exact ⟨e.2, lookup_eq_some_iff.mpr he, rfl⟩
  · rintro ⟨v', hv', rfl⟩
    exact mem_map.mpr ⟨⟨k, v'⟩, lookup_eq_some_iff.mp hv', rfl⟩

@[simp] theorem lookup_restore_self (k : κ) (previous : Option α) (m : Dict κ α) :
    (restore k previous m).lookup k = previous := by
  cases previous with
  | some v => exact lookup_insert m
  | none => exact lookup_erase k m

theorem lookup_restore_of_ne (h : k ≠ k') (previous : Option α) (m : Dict κ α) :
    (restore k' previous m).lookup k = m.lookup k := by
  cases previous with
  | some v => exact lookup_insert_ne h
  | none => exact lookup_erase_ne h

theorem lookup_insert_cases {x : α} (h : (m.insert k v).lookup k' = some x) :
    k' = k ∧ x = v ∨ k' ≠ k ∧ m.lookup k' = some x := by
  by_cases hk : k' = k
  · rw [hk, lookup_insert] at h
    exact .inl ⟨hk, (Option.some.inj h).symm⟩
  · rw [lookup_insert_ne hk] at h
    exact .inr ⟨hk, h⟩

theorem forall_lookup_insert {P : α → Prop} (h : ∀ x, m.lookup k = some x → P x) (hnew : k = k' → P v) :
    ∀ x, (m.insert k' v).lookup k = some x → P x := by
  intro x hx
  rcases lookup_insert_cases hx with ⟨hk, rfl⟩ | ⟨_, hx⟩
  · exact hnew hk
  · exact h x hx

theorem retain_eq_self (h : ∀ k v, m.lookup k = some v → p k v = true) : retain p m = m := by
  refine ext ?_
  exact filter_eq_self.mpr fun e he => h e.1 e.2 (lookup_eq_some_iff.mpr he)

theorem any_eq_false (h : ∀ k v, m.lookup k = some v → p k v = false) :
    (m.entries.any fun e => p e.1 e.2) = false := by
  rw [List.any_eq_false]
  intro e he
  rw [h e.1 e.2 (lookup_eq_some_iff.mpr he)]
  exact Bool.false_ne_true

theorem sum_eq (f : κ → α → Nat) (m : Dict κ α) (k : κ) :
    sum f m = ((m.lookup k).map (f k)).getD 0 + sum f (m.erase k) := by
  have hlist : ∀ l : List ((_ : κ) × α), (l.map fun e => f e.1 e.2).sum =
      ((l.dlookup k).map (f k)).getD 0 + ((l.kerase k).map fun e => f e.1 e.2).sum := by
    intro l
    induction l with
    | nil => rfl
    | cons e l ih =>
      by_cases hk : k = e.1
      · subst hk
        rw [dlookup_cons_eq, kerase_cons_eq rfl]
        rfl
      · rw [dlookup_cons_ne _ _ hk, kerase_cons_ne hk, map_cons, sum_cons, ih, map_cons, sum_cons]
        omega
  exact hlist m.entries

theorem sum_insert (f : κ → α → Nat) (m : Dict κ α) (k : κ) (v : α) :
    sum f (m.insert k v) = f k v + sum f (m.erase k) := by
  rfl

def merge (f : Option β → α → β) (m : Dict κ α) (into : Dict κ β) : Dict κ β :=
  m.entries.foldl (fun acc e => acc.insert e.1 (f (acc.lookup e.1) e.2)) into

theorem lookup_merge (f : Option β → α → β) (m : Dict κ α) (into : Dict κ β) (k : κ) :
    (merge f m into).lookup k = match m.lookup k with
      | some v => some (f (into.lookup k) v)
      | none => into.lookup k := by
  have hlist : ∀ (l : List ((_ : κ) × α)) (acc : Dict κ β), l.NodupKeys →
      (l.foldl (fun acc e => acc.insert e.1 (f (acc.lookup e.1) e.2)) acc).lookup k = match l.dlookup k with
        | some v => some (f (acc.lookup k) v)
        | none => acc.lookup k := by
    intro l
    induction l with
    | nil => exact fun _ _ => rfl
    | cons e l ih =>
      intro acc hnd
      rw [foldl_cons, ih _ (nodupKeys_cons.mp hnd).2]
      by_cases hk : k = e.1
      · subst hk
        rw [dlookup_cons_eq, dlookup_eq_none.mpr (nodupKeys_cons.mp hnd).1]
        exact lookup_insert acc
      · rw [dlookup_cons_ne _ _ hk, lookup_insert_ne hk]
  exact hlist m.entries into m.nodupKeys

end Dict

export AList (lookup_insert lookup_insert_ne lookup_erase_ne)
export Dict (lookup_retain_eq_some lookup_insert_cases
  forall_lookup_insert lookup_map lookup_of_lookup_erase lookup_eq_some_iff lookup_retain)

end CipherVault
