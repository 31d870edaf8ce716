import CipherVault.Trust.Correct

/-!
# Trust.Line

`select_head` on heads of one certificate of which each names the one before it as its only parent:
the latest that is held is selected exactly when those that are held have no gap
(`Line.selects_latest_iff`).
-/

namespace CipherVault.Trust

open Crypto Format List Nat

variable (chain : List HeadRecord)

/-- Each head names the one before it as its only parent. -/
structure Linked : Prop where
  first : ∀ a, chain[0]? = some a → a.parentSnapshotIds = []
  next : ∀ (i : Nat) (a b : HeadRecord), chain[i]? = some a → chain[i + 1]? = some b →
    b.parentSnapshotIds = [a.snapshotId]

theorem linked_nil : Linked [] where
  first a h := by cases h
  next i a b h := by cases h

theorem Linked.append {chain : List HeadRecord} (h : Linked chain) {head : HeadRecord}
    (hparents : head.parentSnapshotIds = (chain.getLast?.map HeadRecord.snapshotId).toList) :
    Linked (chain ++ [head]) where
  first a ha := by
    cases chain with
    | nil =>
      cases ha
      exact hparents
    | cons x xs => exact h.first a ha
  next i a b ha hb := by
    have hlen := (List.getElem?_eq_some_iff.mp hb).1
    rw [length_append, length_singleton] at hlen
    rw [getElem?_append_left (by omega)] at ha
    by_cases hi : i + 1 < chain.length
    · rw [getElem?_append_left hi] at hb
      exact h.next i a b ha hb
    · have hla : i + 1 = chain.length := by omega
      rw [hla, getElem?_concat_length] at hb
      cases hb
      rw [hparents, getLast?_eq_getElem?, ← hla, Nat.add_sub_cancel, ha]
      rfl

/-- A line of heads that have their own snapshots and counters. -/
structure Line : Prop extends Linked chain where
  ids : (chain.map HeadRecord.snapshotId).Nodup
  counters : (chain.map HeadRecord.deviceCounter).Nodup

/-- Every head between two heads that are held is held. -/
def Consecutive (held : HeadRecord → Prop) : Prop :=
  ∀ (i j k : Nat) (a b c : HeadRecord), i < j → j < k → chain[i]? = some a → chain[j]? = some b →
    chain[k]? = some c → held a → held c → held b

/-- The last head of the chain that is held. -/
def Latest (held : HeadRecord → Prop) (head : HeadRecord) : Prop :=
  ∃ l : Nat, chain[l]? = some head ∧ held head ∧
    ∀ (k : Nat) (later : HeadRecord), l < k → chain[k]? = some later → ¬ held later

theorem latest_concat (before : List HeadRecord) {held : HeadRecord → Prop} {head : HeadRecord}
    (hheld : held head) :
    Latest (before ++ [head]) held head := by
  refine ⟨before.length, getElem?_concat_length, hheld, fun k later hk hla => ?_⟩
  have hlt := (List.getElem?_eq_some_iff.mp hla).1
  rw [length_append, length_singleton] at hlt
  omega

theorem consecutive_append {before after : List HeadRecord} {held : HeadRecord → Prop}
    (hbefore : ∀ h ∈ before, ¬ held h) (hafter : ∀ h ∈ after, held h) :
    Consecutive (before ++ after) held := by
  intro i j k a b c hij _ ha hb _ hheld _
  by_cases hi : i < before.length
  · rw [getElem?_append_left hi] at ha
    exact absurd hheld (hbefore a (mem_of_getElem? ha))
  · rw [getElem?_append_right (by omega)] at hb
    exact hafter b (mem_of_getElem? hb)

/-- The authenticated heads are those of the line that are held, all under one certificate. -/
def Shows (held : HeadRecord → Prop) (cert : DeviceCertificate) (heads : List Authenticated) : Prop :=
  ∀ p, p ∈ heads ↔ p.1 ∈ chain ∧ held p.1 ∧ p.2 = cert

namespace Line

variable {chain : List HeadRecord} {held : HeadRecord → Prop} {cert : DeviceCertificate}
  {heads : List Authenticated}

variable {i j : Nat} {a b head : HeadRecord}

section

variable (h : Line chain)
include h

theorem id_inj (hi : chain[i]? = some a) (hj : chain[j]? = some b)
    (heq : a.snapshotId = b.snapshotId) : i = j := by
  have hlt : i < (chain.map HeadRecord.snapshotId).length := by
    rw [length_map]
    exact (List.getElem?_eq_some_iff.mp hi).1
  refine (getElem?_inj hlt h.ids).mp ?_
  rw [getElem?_map, getElem?_map, hi, hj, Option.map_some, Option.map_some, heq]

theorem head_of_id (ha : a ∈ chain) (hb : b ∈ chain) (heq : a.snapshotId = b.snapshotId) : a = b :=
  inj_on_of_nodup_map h.ids ha hb heq

theorem head_of_counter (ha : a ∈ chain) (hb : b ∈ chain) (heq : a.deviceCounter = b.deviceCounter) : a = b :=
  inj_on_of_nodup_map h.counters ha hb heq

theorem isParent_iff {child parent : Bytes} (hshows : Shows chain held cert heads) :
    IsParent heads child parent ↔ ∃ (j : Nat) (a b : HeadRecord), chain[j]? = some a ∧
    chain[j + 1]? = some b ∧
      held b ∧ b.snapshotId = child ∧ a.snapshotId = parent := by
  constructor
  · intro ⟨p, hp, hchild, hpar⟩
    obtain ⟨hmem, hheld, _⟩ := (hshows p).mp hp
    obtain ⟨i, hi⟩ := mem_iff_getElem?.mp hmem
    cases i with
    | zero =>
      rw [h.first p.1 hi] at hpar
      cases hpar
    | succ j =>
      have hlt : j < chain.length := lt_of_succ_lt (List.getElem?_eq_some_iff.mp hi).1
      have hj : chain[j]? = some chain[j] := getElem?_eq_getElem hlt
      rw [h.next j _ _ hj hi, mem_singleton] at hpar
      exact ⟨j, chain[j], p.1, hj, hi, hheld, hchild, hpar.symm⟩
  · intro ⟨j, a, b, ha, hb, hheld, hchild, hpar⟩
    refine ⟨(b, cert), (hshows _).mpr ⟨mem_of_getElem? hb, hheld, rfl⟩, hchild, ?_⟩
    rw [h.next j a b ha hb, mem_singleton]
    exact hpar.symm

theorem held_of_properAncestor (hshows : Shows chain held cert heads) {a b : Bytes}
    (hab : ProperAncestor heads a b) :
    ∃ (i j : Nat) (x y : HeadRecord), i < j ∧
      chain[i]? = some x ∧ x.snapshotId = a ∧ chain[j]? = some y ∧ y.snapshotId = b ∧
      ∀ (k : Nat) (z : HeadRecord), i < k → k ≤ j → chain[k]? = some z → held z := by
  induction hab with
  | single hp =>
    obtain ⟨j, x, y, hx, hy, hheld, hchild, hid⟩ := (h.isParent_iff hshows).mp hp
    refine ⟨j, j + 1, x, y, lt_succ_self j, hx, hid, hy, hchild, fun k z hlo hhi hz => ?_⟩
    have hk : k = j + 1 := by omega
    rw [hk, hy] at hz
    cases hz
    exact hheld
  | tail _ hp ih =>
    obtain ⟨i, j, x, y, hij, hx, hxid, hy, hyid, hbet⟩ := ih
    obtain ⟨i', x', y', hx', hy', hheld, hchild, hid⟩ := (h.isParent_iff hshows).mp hp
    have hi : i = i' + 1 := h.id_inj hx hy' (hxid.trans hchild.symm)
    subst hi
    refine ⟨i', j, x', y, by omega, hx', hid, hy, hyid, fun k z hlo hhi hz => ?_⟩
    rcases eq_or_lt_of_le (succ_le_of_lt hlo) with hk | hk
    · rw [← hk, succ_eq_add_one, hy'] at hz
      cases hz
      exact hheld
    · exact hbet k z hk hhi hz

theorem not_properAncestor_self (hshows : Shows chain held cert heads) (a : Bytes) :
    ¬ ProperAncestor heads a a := by
  intro hc
  obtain ⟨i, j, x, y, hij, hx, hxid, hy, hyid, _⟩ := h.held_of_properAncestor hshows hc
  exact Nat.ne_of_lt hij (h.id_inj hx hy (hxid.trans hyid.symm))

theorem noConflict (hshows : Shows chain held cert heads) : NoConflict heads := by
  intro p hp q hq
  have hp' := ((hshows p).mp hp).1
  have hq' := ((hshows q).mp hq).1
  refine ⟨fun hid => h.head_of_id hp' hq' hid, fun hkey => ?_⟩
  have hcou : p.1.deviceCounter = q.1.deviceCounter := congrArg (fun k => k.2.2.2) hkey
  rw [h.head_of_counter hp' hq' hcou]

end

theorem isCandidate_iff {p : Authenticated} (hshows : Shows chain held cert heads) :
    IsCandidate heads p ↔ p ∈ heads := by
  refine ⟨fun hp => hp.1, fun hp => ⟨hp, fun q hq => ?_⟩⟩
  rw [((hshows p).mp hp).2.2, ((hshows q).mp hq).2.2]

theorem isMaximal_iff (h : Line chain) (hshows : Shows chain held cert heads) (ha : chain[i]? = some a) :
    IsMaximal heads (a, cert) ↔ held a ∧ ∀ b, chain[i + 1]? = some b → ¬ held b := by
  rw [IsMaximal, isCandidate_iff hshows, hshows]
  constructor
  · rintro ⟨⟨_, hheld, _⟩, hmax⟩
    refine ⟨hheld, fun b hb hheldb => ?_⟩
    have hmem : (b, cert) ∈ heads := (hshows _).mpr ⟨mem_of_getElem? hb, hheldb, rfl⟩
    have hne : b ≠ a := by
      intro heq
      have := h.id_inj hb ha (congrArg HeadRecord.snapshotId heq)
      omega
    exact hmax (b, cert) ((isCandidate_iff hshows).mpr hmem) hne
      (.single ((h.isParent_iff hshows).mpr ⟨i, a, b, ha, hb, hheldb, rfl, rfl⟩))
  · rintro ⟨hheld, hn⟩
    refine ⟨⟨mem_of_getElem? ha, hheld, rfl⟩, fun q _ _ hanc => ?_⟩
    obtain ⟨i', j, x, y, hij, hx, hxid, hy, _, hbet⟩ := h.held_of_properAncestor hshows hanc
    have hi : i' = i := h.id_inj hx ha hxid
    subst hi
    have hlt : i' + 1 < chain.length := lt_of_le_of_lt hij (List.getElem?_eq_some_iff.mp hy).1
    have hget : chain[i' + 1]? = some chain[i' + 1] := getElem?_eq_getElem hlt
    exact hn _ hget (hbet (i' + 1) _ (lt_succ_self i') hij hget)

theorem exists_last_before_gap (held : HeadRecord → Prop) (hij : i < j) (ha : chain[i]? = some a)
    (hb : chain[j]? = some b) (hheld : held a) (hgap : ¬ held b) :
    ∃ (m : Nat) (x y : HeadRecord), m < j ∧ chain[m]? = some x ∧ chain[m + 1]? = some y ∧ held x ∧
    ¬ held y := by
  induction j, hij using le_induction generalizing b with
  | base => exact ⟨i, a, b, lt_succ_self i, ha, hb, hheld, hgap⟩
  | succ j hle ih =>
    have hlt : j < chain.length := lt_of_succ_lt (List.getElem?_eq_some_iff.mp hb).1
    have hj : chain[j]? = some chain[j] := getElem?_eq_getElem hlt
    by_cases hheldj : held chain[j]
    · exact ⟨j, chain[j], b, lt_succ_self j, hj, hb, hheldj, hgap⟩
    · obtain ⟨m, x, y, hm, hx, hy, hhx, hhy⟩ := ih hj hheldj
      exact ⟨m, x, y, lt_succ_of_lt hm, hx, hy, hhx, hhy⟩

/-- The latest head that is held is the only maximal one exactly when there is no gap. -/
theorem unique_maximal_iff (h : Line chain) (hshows : Shows chain held cert heads)
    (hlatest : Latest chain held head) :
    (∀ q, IsMaximal heads q → q = (head, cert)) ↔ Consecutive chain held := by
  obtain ⟨l, hl, hheld, hla⟩ := hlatest
  constructor
  · intro hunique i j k a b c hij hjk ha hb hc hheldA hheldC
    by_contra hgap
    obtain ⟨m, x, y, hm, hx, hy, hhx, hhy⟩ := exists_last_before_gap held hij ha hb hheldA hgap
    have hmax : IsMaximal heads (x, cert) := by
      refine (h.isMaximal_iff hshows hx).mpr ⟨hhx, fun z hz => ?_⟩
      rw [hy] at hz
      cases hz
      exact hhy
    have heq : x = head := congrArg Prod.fst (hunique _ hmax)
    have hml : m = l := h.id_inj hx hl (congrArg HeadRecord.snapshotId heq)
    exact hla k c (by omega) hc hheldC
  · intro hcons q hq
    obtain ⟨hmem, hheldq, hce⟩ := (hshows q).mp hq.1.1
    obtain ⟨i, hi⟩ := mem_iff_getElem?.mp hmem
    have hq' : IsMaximal heads (q.1, cert) := by rw [← hce]; exact hq
    have hn := ((h.isMaximal_iff hshows hi).mp hq').2
    have hil : i = l := by
      rcases lt_trichotomy i l with hlt | heq | hgt
      · exfalso
        have hbd : i + 1 < chain.length := lt_of_le_of_lt hlt (List.getElem?_eq_some_iff.mp hl).1
        have hget : chain[i + 1]? = some chain[i + 1] := getElem?_eq_getElem hbd
        rcases eq_or_lt_of_le (succ_le_of_lt hlt) with hsucc | hsucc
        · subst hsucc
          exact hn head hl hheld
        · exact hn _ hget (hcons i (i + 1) l _ _ _ (lt_succ_self i) hsucc hi hget hl hheldq hheld)
      · exact heq
      · exact absurd hheldq (hla i q.1 hgt hi)
    subst hil
    rw [hi] at hl
    cases hl
    rw [← hce]

theorem selects_latest_iff {E : Externals} {records : List Bytes} {vault rootPk : Bytes} (h : Line chain)
    (hshows : Shows chain held cert (authenticatedHeads E records vault rootPk))
    (hlatest : Latest chain held head) :
    selectHead E records vault rootPk = .ok (head, cert) ↔ Consecutive chain held := by
  rw [selectHead_ok_iff, ← h.unique_maximal_iff hshows hlatest]
  refine ⟨fun hsel => hsel.2.2.2, fun hunique => ⟨h.noConflict hshows, ?_, ?_, hunique⟩⟩
  · intro ⟨_, _, a, _, hc⟩
    exact h.not_properAncestor_self hshows a hc
  · obtain ⟨l, hl, hheld, hla⟩ := hlatest
    exact (h.isMaximal_iff hshows hl).mpr ⟨hheld, fun b hb => hla (l + 1) b (lt_succ_self l) hb⟩

end Line
end CipherVault.Trust
