import CipherVault.Base.Keyed
import CipherVault.Trust.Select
import Mathlib.Data.Set.Finite.Basic

/-!
# Trust.Correct

When `select_head` returns a head, and which one. `selectAuthenticated_ok_iff` states it about the
ancestry of the heads, and names neither the maps nor the traversal.
-/

namespace CipherVault.Trust

open Crypto Format List Nat Set Or

variable (heads : List Authenticated)

/-- No two heads bind one snapshot differently, and no two use one device counter for two snapshots.
-/
def NoConflict : Prop :=
  ∀ p ∈ heads, ∀ q ∈ heads, (p.1.snapshotId = q.1.snapshotId → p.1 = q.1) ∧
    (counterKey p = counterKey q → p.1.snapshotId = q.1.snapshotId)

/-- By an authenticated head. -/
def IsParent (child parent : Bytes) : Prop :=
  ∃ p ∈ heads, p.1.snapshotId = child ∧ parent ∈ p.1.parentSnapshotIds

def ProperAncestor (a b : Bytes) : Prop :=
  Relation.TransGen (IsParent heads) b a

/-- An authenticated head of the highest generation. -/
def IsCandidate (p : Authenticated) : Prop :=
  p ∈ heads ∧ ∀ q ∈ heads, q.2.authorityGeneration ≤ p.2.authorityGeneration

/-- A snapshot that is its own proper ancestor is a candidate or an ancestor of one. -/
def CycleReachable : Prop :=
  ∃ p, IsCandidate heads p ∧ ∃ n, Relation.ReflTransGen (IsParent heads) p.1.snapshotId n ∧
    ProperAncestor heads n n

/-- A candidate that no other candidate descends from. -/
def IsMaximal (p : Authenticated) : Prop :=
  IsCandidate heads p ∧ ∀ q, IsCandidate heads q → q.1 ≠ p.1 →
    ¬ ProperAncestor heads p.1.snapshotId q.1.snapshotId

/-! ## The loop that fills the maps -/

/-- The index has exactly these heads. -/
structure Indexes (items : Set Authenticated) (index : Index) : Prop where
  bindings : Keyed.Holds (fun p : Authenticated => p.1.snapshotId) (fun p => p.1) items index.bindings
  counters : Keyed.Holds counterKey (fun p : Authenticated => p.1.snapshotId) items index.counters
  graph : Keyed.Holds (fun p : Authenticated => p.1.snapshotId) (fun p => p.1.parentSnapshotIds)
    items index.graph

theorem indexes_empty : Indexes ∅ emptyIndex :=
  ⟨Keyed.holds_empty _ _, Keyed.holds_empty _ _, Keyed.holds_empty _ _⟩

variable {index : Index} {heads : List Authenticated} {p : Authenticated}

theorem indexHead_spec {items : Set Authenticated} (h : Indexes items index) (p : Authenticated) :
    (∃ index', indexHead p index = .ok index' ∧ Indexes (insert p items) index') ∨
      (∃ e, indexHead p index = .error e) ∧ ∃ q ∈ items, (q.1.snapshotId = p.1.snapshotId ∧ q.1 ≠ p.1) ∨
          (counterKey q = counterKey p ∧ q.1.snapshotId ≠ p.1.snapshotId) := by
  rw [indexHead]
  split
  · rename_i hany
    obtain ⟨q, hq, hkey, hval⟩ := h.bindings.conflict hany
    exact inr ⟨⟨_, rfl⟩, q, hq, inl ⟨hkey, hval⟩⟩
  rename_i hbin
  split
  · rename_i hany
    obtain ⟨q, hq, hkey, hval⟩ := h.counters.conflict hany
    exact inr ⟨⟨_, rfl⟩, q, hq, inr ⟨hkey, hval⟩⟩
  rename_i hcou
  split
  · -- heads that agree on the binding agree on the parents
    rename_i hany
    obtain ⟨q, hq, hkey, hval⟩ := h.graph.conflict hany
    exact inr ⟨⟨_, rfl⟩, q, hq, inl ⟨hkey, fun he => hval (congrArg HeadRecord.parentSnapshotIds he)⟩⟩
  rename_i hgraph
  exact inl ⟨_, rfl, h.bindings.insert (Keyed.lookup_eq_of_any hbin),
    h.counters.insert (Keyed.lookup_eq_of_any hcou), h.graph.insert (Keyed.lookup_eq_of_any hgraph)⟩

theorem indexHeads_spec (heads : List Authenticated) : ∀ (items : Set Authenticated) (index : Index),
    Indexes items index → (∃ index', indexHeads heads index = .ok index' ∧
      Indexes ({p | p ∈ heads} ∪ items) index') ∨
      (∃ e, indexHeads heads index = .error e) ∧ ∃ p ∈ {p | p ∈ heads} ∪ items, ∃ q ∈ {p | p ∈ heads} ∪ items,
          (q.1.snapshotId = p.1.snapshotId ∧ q.1 ≠ p.1) ∨
            (counterKey q = counterKey p ∧ q.1.snapshotId ≠ p.1.snapshotId) := by
  induction heads with
  | nil =>
    intro items index h
    refine inl ⟨index, rfl, ?_⟩
    simpa using h
  | cons p heads ih =>
    intro items index h
    have hset : {q | q ∈ p :: heads} ∪ items = {q | q ∈ heads} ∪ insert p items := by
      ext q
      simp only [mem_union, mem_ofPred_eq, mem_cons, mem_insert_iff]
      tauto
    rw [hset, indexHeads]
    rcases indexHead_spec h p with ⟨index', hi, h'⟩ | ⟨⟨e, hi⟩, q, hq, hcon⟩
    · rw [hi]
      exact ih (insert p items) index' h'
    · rw [hi]
      exact inr ⟨⟨e, rfl⟩, p, inr (mem_insert p items), q, inr (mem_insert_of_mem p hq), hcon⟩

theorem Indexes.noConflict (h : Indexes {p | p ∈ heads} index) : NoConflict heads := by
  intro p hp q hq
  exact ⟨fun hkey => h.bindings.agree hp hq hkey, fun hkey => h.counters.agree hp hq hkey⟩

theorem indexHeads_ok_iff (heads : List Authenticated) :
    (∃ index, indexHeads heads emptyIndex = .ok index ∧ Indexes {p | p ∈ heads} index ∧ NoConflict heads) ∨
      (∃ e, indexHeads heads emptyIndex = .error e) ∧ ¬ NoConflict heads := by
  rcases indexHeads_spec heads ∅ emptyIndex indexes_empty with ⟨index, hok, h⟩ | ⟨herr, p, hp, q, hq, hc⟩
  · rw [union_empty] at h
    exact inl ⟨index, hok, h, h.noConflict⟩
  · rw [union_empty] at hp hq
    refine inr ⟨herr, fun hno => ?_⟩
    rcases hc with ⟨hkey, hne⟩ | ⟨hkey, hne⟩
    · exact hne ((hno q hq p hp).1 hkey)
    · exact hne ((hno q hq p hp).2 hkey)

/-! ## The candidates and the graph -/

theorem parent_iff (h : Indexes {p | p ∈ heads} index) : Walk.Parent index.graph = IsParent heads := by
  funext child parent
  apply propext
  rw [Walk.Parent, Walk.parentsOf]
  constructor
  · intro hmem
    cases hps : index.graph.lookup child with
    | none => rw [hps] at hmem; cases hmem
    | some ps =>
      rw [hps] at hmem
      obtain ⟨p, hp, hkey, hval⟩ := (h.graph _ _).mp hps
      simp only at hval
      exact ⟨p, hp, hkey, by rw [hval]; exact hmem⟩
  · rintro ⟨p, hp, hkey, hmem⟩
    have hl : index.graph.lookup child = some p.1.parentSnapshotIds := (h.graph _ _).mpr ⟨p, hp, hkey, rfl⟩
    rw [hl]
    exact hmem

theorem le_foldl_max (l : List Nat) : ∀ a : Nat, a ≤ l.foldl max a ∧ ∀ x ∈ l, x ≤ l.foldl max a := by
  induction l with
  | nil => intro a; simp
  | cons b l ih =>
    intro a
    rw [foldl_cons]
    obtain ⟨h1, h2⟩ := ih (max a b)
    refine ⟨by omega, ?_⟩
    intro x hx
    rcases mem_cons.mp hx with rfl | hx
    · omega
    · exact h2 x hx

theorem foldl_max_mem (l : List Nat) : ∀ a : Nat, l.foldl max a = a ∨ l.foldl max a ∈ l := by
  induction l with
  | nil => intro a; exact inl rfl
  | cons b l ih =>
    intro a
    rw [foldl_cons, mem_cons]
    rcases ih (max a b) with h | h
    · rw [h]
      omega
    · exact inr (inr h)

theorem le_maxGeneration (hp : p ∈ heads) : p.2.authorityGeneration ≤ maxGeneration heads :=
  (le_foldl_max _ 0).2 _ (mem_map_of_mem hp)

theorem exists_maxGeneration (hp : p ∈ heads) :
    ∃ q ∈ heads, q.2.authorityGeneration = maxGeneration heads := by
  rcases foldl_max_mem (heads.map fun p => p.2.authorityGeneration) 0 with h | h
  · have hle := le_maxGeneration hp
    rw [maxGeneration, h] at hle
    exact ⟨p, hp, by rw [maxGeneration, h]; omega⟩
  · obtain ⟨q, hq, hgen⟩ := mem_map.mp h
    exact ⟨q, hq, hgen⟩

theorem mem_candidates : p ∈ candidatesOf heads ↔ IsCandidate heads p := by
  rw [candidatesOf, mem_filter, beq_iff_eq]
  constructor
  · intro ⟨hp, hgen⟩
    exact ⟨hp, fun q hq => hgen ▸ le_maxGeneration hq⟩
  · intro ⟨hp, hmax⟩
    obtain ⟨q, hq, hgen⟩ := exists_maxGeneration hp
    have hle := le_maxGeneration hp
    have hge := hmax q hq
    exact ⟨hp, by omega⟩

theorem insertMaximal_holds (nonmaximal : Finset Bytes) (candidates : List Authenticated) :
    ∀ (items : Set Authenticated) (m : AList fun _ : Bytes => Authenticated),
    (∀ p, p ∈ candidates ∨ p ∈ items → ∀ q, q ∈ candidates ∨ q ∈ items →
      p.1.snapshotId = q.1.snapshotId → p = q) →
    Keyed.Holds (fun p : Authenticated => p.1.snapshotId) id items m →
    Keyed.Holds (fun p : Authenticated => p.1.snapshotId) id
      ({p | p ∈ candidates ∧ p.1.snapshotId ∉ nonmaximal} ∪ items) (candidates.foldl (fun maximal p =>
        if p.1.snapshotId ∈ nonmaximal then maximal else maximal.insert p.1.snapshotId p) m) := by
  induction candidates with
  | nil => intro items m _ h; simpa using h
  | cons p candidates ih =>
    intro items m hfun h
    rw [foldl_cons]
    by_cases hp : p.1.snapshotId ∈ nonmaximal
    · rw [if_pos hp]
      have hset : {q | q ∈ p :: candidates ∧ q.1.snapshotId ∉ nonmaximal} =
          {q | q ∈ candidates ∧ q.1.snapshotId ∉ nonmaximal} := by
        ext q
        simp only [mem_ofPred_eq, mem_cons]
        constructor
        · rintro ⟨rfl | hq, hn⟩
          · exact absurd hp hn
          · exact ⟨hq, hn⟩
        · exact fun ⟨hq, hn⟩ => ⟨inr hq, hn⟩
      rw [hset]
      refine ih items m ?_ h
      intro a ha b hb
      exact hfun a (ha.imp_left (mem_cons_of_mem _)) b (hb.imp_left (mem_cons_of_mem _))
    · rw [if_neg hp]
      have hset : {q | q ∈ p :: candidates ∧ q.1.snapshotId ∉ nonmaximal} ∪ items =
          {q | q ∈ candidates ∧ q.1.snapshotId ∉ nonmaximal} ∪ insert p items := by
        ext q
        simp only [mem_union, mem_ofPred_eq, mem_cons, mem_insert_iff]
        constructor
        · rintro (⟨rfl | hq, hn⟩ | hq)
          · exact inr (inl rfl)
          · exact inl ⟨hq, hn⟩
          · exact inr (inr hq)
        · rintro (⟨hq, hn⟩ | rfl | hq)
          · exact inl ⟨inr hq, hn⟩
          · exact inl ⟨inl rfl, hp⟩
          · exact inr hq
      have hmem : ∀ a, a ∈ candidates ∨ a ∈ insert p items → a ∈ p :: candidates ∨ a ∈ items := by
        rintro a (ha | rfl | ha)
        · exact inl (mem_cons_of_mem _ ha)
        · exact inl mem_cons_self
        · exact inr ha
      rw [hset]
      refine ih (insert p items) _ (fun a ha b hb => hfun a (hmem a ha) b (hmem b hb)) (h.insert ?_)
      intro v hv
      obtain ⟨q, hq, hkey, rfl⟩ := (h _ _).mp hv
      exact hfun q (inr hq) p (inl mem_cons_self) hkey

theorem mem_candidateIds {id : Bytes} :
    id ∈ (candidatesOf heads).map (fun p => p.1.snapshotId) ↔
    ∃ p, IsCandidate heads p ∧ p.1.snapshotId = id := by
  simp only [mem_map, mem_candidates]

theorem hasCycle_iff (h : Indexes {p | p ∈ heads} index) :
    Walk.HasCycle index.graph {id | id ∈ (candidatesOf heads).map fun p => p.1.snapshotId} ↔
    CycleReachable heads := by
  simp only [Walk.HasCycle, Walk.Reached, parent_iff h, mem_ofPred_eq, mem_candidateIds]
  constructor
  · rintro ⟨n, ⟨r, ⟨p, hp, hr⟩, hrn⟩, hc⟩
    exact ⟨p, hp, n, hr ▸ hrn, hc⟩
  · rintro ⟨p, hp, n, hrn, hc⟩
    exact ⟨n, ⟨p.1.snapshotId, ⟨p, hp, rfl⟩, hrn⟩, hc⟩

theorem isMaximal_iff (h : Indexes {p | p ∈ heads} index) (hcycle : ¬ CycleReachable heads) :
    IsMaximal heads p ↔ IsCandidate heads p ∧
      ¬ Walk.Below index.graph {id | id ∈ (candidatesOf heads).map fun p => p.1.snapshotId}
        p.1.snapshotId := by
  simp only [IsMaximal, Walk.Below, parent_iff h, mem_ofPred_eq, mem_candidateIds]
  constructor
  · rintro ⟨hp, hmax⟩
    refine ⟨hp, ?_⟩
    rintro ⟨r, ⟨q, hq, hr⟩, hrp⟩
    rw [← hr] at hrp
    by_cases heq : q.1 = p.1
    · rw [heq] at hrp
      exact hcycle ⟨p, hp, p.1.snapshotId, Relation.ReflTransGen.refl, hrp⟩
    · exact hmax q hq heq hrp
  · rintro ⟨hp, hbelow⟩
    refine ⟨hp, ?_⟩
    intro q hq _ hanc
    exact hbelow ⟨q.1.snapshotId, ⟨q, hq, rfl⟩, hanc⟩

theorem selectAuthenticated_ok_iff (hfun : ∀ p ∈ heads, ∀ q ∈ heads, p.1 = q.1 → p = q) (p : Authenticated) :
    selectAuthenticated heads = .ok p ↔
      NoConflict heads ∧ ¬ CycleReachable heads ∧ IsMaximal heads p ∧ ∀ q, IsMaximal heads q → q = p := by
  rw [selectAuthenticated]
  rcases indexHeads_ok_iff heads with ⟨index, hok, h, hno⟩ | ⟨⟨e, herr⟩, hcon⟩
  · have hpair : ∀ p, p ∈ candidatesOf heads ∨ p ∈ (∅ : Set Authenticated) →
        ∀ q, q ∈ candidatesOf heads ∨ q ∈ (∅ : Set Authenticated) →
          p.1.snapshotId = q.1.snapshotId → p = q := by
      intro p hp q hq hid
      have hp' := (mem_candidates.mp (hp.resolve_right (notMem_empty p))).1
      have hq' := (mem_candidates.mp (hq.resolve_right (notMem_empty q))).1
      exact hfun p hp' q hq' ((hno p hp' q hq').1 hid)
    rw [hok]
    simp only
    rcases Walk.walkAll_start index.graph ((candidatesOf heads).map fun p => p.1.snapshotId) with
      ⟨walked, hwalk, hc, hbelow⟩ | ⟨hwalk, hc⟩
    · rw [hasCycle_iff h] at hc
      have hholds := insertMaximal_holds walked.nonmaximal (candidatesOf heads) ∅ ∅ hpair
        (Keyed.holds_empty _ _)
      have hitems : ∀ q, q ∈ {p | p ∈ candidatesOf heads ∧ p.1.snapshotId ∉ walked.nonmaximal} ∪
        (∅ : Set Authenticated) ↔
          IsMaximal heads q := by
        intro q
        rw [isMaximal_iff h hc, union_empty, mem_ofPred_eq, mem_candidates, hbelow]
      have hen : (∃ k, (insertMaximal walked.nonmaximal (candidatesOf heads)).entries = [⟨k, p⟩]) ↔
          IsMaximal heads p ∧ ∀ q, IsMaximal heads q → q = p := by
        have hsingle := fun k => hholds.entries_eq_singleton (k := k) (v := p)
        simp only [hitems] at hsingle
        rw [insertMaximal]
        simp only [hsingle]
        constructor
        · rintro ⟨k, ⟨a, ha, hk, rfl⟩, hall⟩
          refine ⟨ha, fun q hq => ?_⟩
          exact hpair q (inl (mem_candidates.mpr hq.1)) a (inl (mem_candidates.mpr ha.1))
            ((hall q hq).trans hk.symm)
        · intro ⟨hp, huniq⟩
          exact ⟨p.1.snapshotId, ⟨p, hp, rfl, rfl⟩, fun q hq => by rw [huniq q hq]⟩
      rw [hwalk, ← and_assoc, ← and_assoc, @and_assoc (NoConflict heads ∧ _), ← hen]
      simp only
      generalize (insertMaximal walked.nonmaximal (candidatesOf heads)).entries = entries
      rcases entries with _ | ⟨⟨k, q⟩, _ | ⟨e, rest⟩⟩
      · simp
      · simp [hno, hc]
      · simp
    · rw [hasCycle_iff h] at hc
      rw [hwalk]
      constructor
      · intro he; cases he
      · intro hr; exact absurd hc hr.2.1
  · rw [herr]
    constructor
    · intro he; cases he
    · intro hr; exact absurd hr.1 hcon

/-! ## Certificates and heads among the records -/

variable (E : Externals) (records : List Bytes)

/-- `c` is a write certificate of the vault among the records, verified under the root key. -/
def Certified (vault rootPk : Bytes) (c : DeviceCertificate) : Prop :=
  ∃ r ∈ records, fromCanonicalCbor E.decodeCertificate r = .ok c ∧ trusted E vault rootPk c = true

/-- The head's signature verifies under the certified key. -/
def VerifiesUnder (head : HeadRecord) (cert : DeviceCertificate) : Prop :=
  (head.deviceId.length == 32 && (head.verify E cert.deviceSigningPk).isOk) = true

/-- `h` is a well formed head of the vault among the records that verifies under a certificate. -/
def HeadAuthenticated (vault rootPk : Bytes) (h : HeadRecord) : Prop :=
  (∃ r ∈ records, fromCanonicalCbor E.decodeHead r = .ok h) ∧ wellFormed vault h = true ∧
    ∃ c, Certified E records vault rootPk c ∧ VerifiesUnder E h c

def certificatesOf (vault rootPk : Bytes) : List DeviceCertificate :=
  sortCertificates (trustedCertificates E records vault rootPk)

/-- The heads that `select_head` authenticates, each with the certificate it pairs it with. -/
def authenticatedHeads (vault rootPk : Bytes) : List Authenticated :=
  records.filterMap (authenticateRecord E vault (certificatesOf E records vault rootPk))

section

variable {E : Externals} {records : List Bytes} {vault rootPk : Bytes}

theorem toOption_eq_some {ε α : Type} {x : Except ε α} {a : α} : x.toOption = some a ↔ x = .ok a := by
  cases x with
  | error | ok => simp [Except.toOption]

variable {c : DeviceCertificate} {h : HeadRecord} {p q : Authenticated}

theorem mem_certificatesOf : c ∈ certificatesOf E records vault rootPk ↔
    Certified E records vault rootPk c := by
  rw [certificatesOf, sortCertificates, mem_insertionSort, trustedCertificates, mem_filter,
    mem_filterMap, Certified]
  simp only [toOption_eq_some]
  constructor
  · intro ⟨⟨r, hr, hdec⟩, ht⟩; exact ⟨r, hr, hdec, ht⟩
  · intro ⟨r, hr, hdec, ht⟩; exact ⟨⟨r, hr, hdec⟩, ht⟩

theorem certificatesOf_sorted (E : Externals) (records : List Bytes) (vault rootPk : Bytes) :
    (certificatesOf E records vault rootPk).Pairwise fun a b => b.authorityGeneration ≤
      a.authorityGeneration := by
  have : Std.Total fun a b : DeviceCertificate => b.authorityGeneration ≤ a.authorityGeneration :=
    ⟨fun a b => le_total b.authorityGeneration a.authorityGeneration⟩
  have : IsTrans DeviceCertificate fun a b => b.authorityGeneration ≤ a.authorityGeneration :=
    ⟨fun _ _ _ hab hbc => le_trans hbc hab⟩
  exact pairwise_insertionSort _ _

theorem authenticate_eq_some (hc : authenticate E (certificatesOf E records vault rootPk) h = some c) :
    Certified E records vault rootPk c ∧ VerifiesUnder E h c ∧
      ∀ c', Certified E records vault rootPk c' → VerifiesUnder E h c' →
        c'.authorityGeneration ≤ c.authorityGeneration := by
  rw [authenticate, find?_eq_some_iff_append] at hc
  obtain ⟨hv, before, after, heq, hbef⟩ := hc
  have hmem : c ∈ certificatesOf E records vault rootPk := by rw [heq]; simp
  refine ⟨mem_certificatesOf.mp hmem, hv, ?_⟩
  intro c' hc' hv'
  have hsrt := certificatesOf_sorted E records vault rootPk
  have hmem' := mem_certificatesOf.mpr hc'
  rw [heq] at hsrt hmem'
  rcases mem_append.mp hmem' with hb | ha
  · have hnot := hbef c' hb
    rw [hv'] at hnot
    cases hnot
  · rcases mem_cons.mp ha with rfl | ha
    · exact le_refl _
    · exact (pairwise_cons.mp (pairwise_append.mp hsrt).2.1).1 c' ha

theorem authenticate_isSome_iff : (∃ c, authenticate E (certificatesOf E records vault rootPk) h = some c) ↔
      ∃ c, Certified E records vault rootPk c ∧ VerifiesUnder E h c := by
  rw [← Option.isSome_iff_exists, authenticate, find?_isSome]
  simp only [mem_certificatesOf]
  rfl

theorem mem_authenticatedHeads : p ∈ authenticatedHeads E records vault rootPk ↔
      (∃ r ∈ records, fromCanonicalCbor E.decodeHead r = .ok p.1) ∧ wellFormed vault p.1 = true ∧
        authenticate E (certificatesOf E records vault rootPk) p.1 = some p.2 := by
  rw [authenticatedHeads, mem_filterMap]
  constructor
  · intro ⟨r, hr, hp⟩
    rw [authenticateRecord] at hp
    split at hp
    · cases hp
    · rename_i head hdec
      split at hp
      · rename_i hwf
        obtain ⟨c, hc, rfl⟩ := Option.map_eq_some_iff.mp hp
        exact ⟨⟨r, hr, hdec⟩, hwf, hc⟩
      · cases hp
  · intro ⟨⟨r, hr, hdec⟩, hwf, hc⟩
    refine ⟨r, hr, ?_⟩
    rw [authenticateRecord, hdec]
    simp only [hwf, if_true, hc]
    rfl

theorem headAuthenticated_iff :
    HeadAuthenticated E records vault rootPk h ↔ ∃ c, (h, c) ∈ authenticatedHeads E records vault rootPk := by
  rw [HeadAuthenticated, ← authenticate_isSome_iff]
  simp only [mem_authenticatedHeads]
  constructor
  · intro ⟨hr, hwf, c, hc⟩; exact ⟨c, hr, hwf, hc⟩
  · intro ⟨c, hr, hwf, hc⟩; exact ⟨hr, hwf, c, hc⟩

theorem authenticatedHeads_functional (E : Externals) (records : List Bytes) (vault rootPk : Bytes) :
    ∀ p ∈ authenticatedHeads E records vault rootPk, ∀ q ∈ authenticatedHeads E records vault rootPk,
      p.1 = q.1 → p = q := by
  intro p hp q hq heq
  have hcp := (mem_authenticatedHeads.mp hp).2.2
  have hcq := (mem_authenticatedHeads.mp hq).2.2
  rw [heq, hcq] at hcp
  exact Prod.ext heq (Option.some.inj hcp).symm

theorem selectHead_eq_ok : selectHead E records vault rootPk = .ok p ↔
      selectAuthenticated (authenticatedHeads E records vault rootPk) = .ok p := by
  have hnil : ∀ q, selectAuthenticated [] ≠ .ok q := by
    intro q hq
    exact absurd ((selectAuthenticated_ok_iff (by simp) q).mp hq).2.2.1.1.1 (by simp)
  rw [selectHead]
  simp only
  split
  · rename_i hemp
    have hcerts : certificatesOf E records vault rootPk = [] := isEmpty_iff.mp hemp
    have hheads : authenticatedHeads E records vault rootPk = [] := by
      refine eq_nil_iff_forall_not_mem.mpr fun q hq => ?_
      have hc := (mem_authenticatedHeads.mp hq).2.2
      rw [hcerts] at hc
      cases hc
    rw [hheads]
    exact ⟨nofun, fun h => absurd h (hnil p)⟩
  · split
    · rename_i hemp
      have hheads : authenticatedHeads E records vault rootPk = [] := isEmpty_iff.mp hemp
      rw [hheads]
      exact ⟨nofun, fun h => absurd h (hnil p)⟩
    · rfl

/-- The head that `select_head` returns is the only maximal one. -/
theorem selectHead_ok_iff :
    selectHead E records vault rootPk = .ok p ↔ NoConflict (authenticatedHeads E records vault rootPk) ∧
        ¬ CycleReachable (authenticatedHeads E records vault rootPk) ∧
        IsMaximal (authenticatedHeads E records vault rootPk) p ∧
        ∀ q, IsMaximal (authenticatedHeads E records vault rootPk) q → q = p :=
  selectHead_eq_ok.trans (selectAuthenticated_ok_iff (authenticatedHeads_functional E records vault rootPk) p)

theorem eq_or_properAncestor_maximal (hcycle : ¬ CycleReachable heads)
    (hunique : ∀ q, IsMaximal heads q → q = p)
    (hq : IsCandidate heads q) : q = p ∨ ProperAncestor heads q.1.snapshotId p.1.snapshotId := by
  -- Going up from a candidate that is not maximal ends, as there are finitely many and no cycles.
  let above (a b : {x // IsCandidate heads x}) : Prop :=
    ProperAncestor heads b.1.1.snapshotId a.1.1.snapshotId
  have : Finite {x // IsCandidate heads x} := ((finite_toSet heads).subset fun x hx => hx.1).to_subtype
  have : IsTrans _ above := ⟨fun _ _ _ hab hbc => Relation.TransGen.trans hab hbc⟩
  have : Std.Irrefl above := ⟨fun a ha => hcycle ⟨a.1, a.2, a.1.1.snapshotId, .refl, ha⟩⟩
  have hwf : WellFounded above := Finite.wellFounded_of_trans_of_irrefl above
  suffices h : ∀ x : {x // IsCandidate heads x}, x.1 = p ∨
    ProperAncestor heads x.1.1.snapshotId p.1.snapshotId from
    h ⟨q, hq⟩
  intro x
  induction x using hwf.induction with
  | _ x ih =>
    by_cases hmax : IsMaximal heads x.1
    · exact .inl (hunique x.1 hmax)
    · rw [IsMaximal, not_and] at hmax
      have hnot := hmax x.2
      push Not at hnot
      obtain ⟨y, hy, _, hxy⟩ := hnot
      rcases ih ⟨y, hy⟩ hxy with rfl | hyp
      · exact .inr hxy
      · exact .inr (Relation.TransGen.trans hyp hxy)

theorem selectHead_candidate (h : selectHead E records vault rootPk = .ok p)
    (hq : IsCandidate (authenticatedHeads E records vault rootPk) q) :
    q = p ∨ ProperAncestor (authenticatedHeads E records vault rootPk) q.1.snapshotId p.1.snapshotId := by
  obtain ⟨_, hc, _, hunique⟩ := selectHead_ok_iff.mp h
  exact eq_or_properAncestor_maximal hc hunique hq

end

/-- The heads of the list are those that are authenticated, each once with one certificate, a
certified one of the greatest generation under which the head verifies. -/
structure Authenticates (vault rootPk : Bytes) (heads : List Authenticated) : Prop where
  head_iff : ∀ h, HeadAuthenticated E records vault rootPk h ↔ ∃ c, (h, c) ∈ heads
  one : ∀ p ∈ heads, ∀ q ∈ heads, p.1 = q.1 → p = q
  certified : ∀ p ∈ heads, Certified E records vault rootPk p.2
  verifies : ∀ p ∈ heads, VerifiesUnder E p.1 p.2
  greatest : ∀ p ∈ heads, ∀ c, Certified E records vault rootPk c → VerifiesUnder E p.1 c →
    c.authorityGeneration ≤ p.2.authorityGeneration

theorem authenticates_authenticatedHeads (vault rootPk : Bytes) :
    Authenticates E records vault rootPk (authenticatedHeads E records vault rootPk) where
  head_iff _ := headAuthenticated_iff
  one := authenticatedHeads_functional E records vault rootPk
  certified _ hp := (authenticate_eq_some (mem_authenticatedHeads.mp hp).2.2).1
  verifies _ hp := (authenticate_eq_some (mem_authenticatedHeads.mp hp).2.2).2.1
  greatest _ hp := (authenticate_eq_some (mem_authenticatedHeads.mp hp).2.2).2.2

/-- `select_head` returns a head exactly when some head is authenticated, no two conflict, no cycle
is reachable from those of the greatest generation, and exactly one of these is a proper ancestor of
no other; it returns that head with a certificate of the greatest generation. The heads that it goes
by are the authenticated ones. -/
theorem selectHead_iff (vault rootPk : Bytes) :
    Authenticates E records vault rootPk (authenticatedHeads E records vault rootPk) ∧
      ((∃ p, selectHead E records vault rootPk = .ok p) ↔ (∃ h, HeadAuthenticated E records vault rootPk h) ∧
        NoConflict (authenticatedHeads E records vault rootPk) ∧
        ¬ CycleReachable (authenticatedHeads E records vault rootPk) ∧
        ∃! h, ∃ c, IsMaximal (authenticatedHeads E records vault rootPk) (h, c)) ∧
      ∀ h c, selectHead E records vault rootPk = .ok (h, c) →
        IsMaximal (authenticatedHeads E records vault rootPk) (h, c) ∧
          Certified E records vault rootPk c ∧ VerifiesUnder E h c ∧
          ∀ h' c', HeadAuthenticated E records vault rootPk h' → Certified E records vault rootPk c' →
            VerifiesUnder E h' c' → c'.authorityGeneration ≤ c.authorityGeneration := by
  have hheads := authenticates_authenticatedHeads E records vault rootPk
  refine ⟨hheads, ?_, ?_⟩
  · simp only [selectHead_ok_iff]
    constructor
    · intro ⟨⟨h, c⟩, hno, hc, hmax, huniq⟩
      refine ⟨⟨h, (hheads.head_iff h).mpr ⟨c, hmax.1.1⟩⟩, hno, hc, h, ⟨c, hmax⟩, ?_⟩
      intro h' ⟨c', hmax'⟩
      exact congrArg Prod.fst (huniq _ hmax')
    · intro ⟨_, hno, hc, h, ⟨c, hmax⟩, huniq⟩
      refine ⟨(h, c), hno, hc, hmax, ?_⟩
      intro ⟨h', c'⟩ hmax'
      exact hheads.one _ hmax'.1.1 _ hmax.1.1 (huniq h' ⟨c', hmax'⟩)
  · intro h c hsel
    obtain ⟨_, _, hmax, _⟩ := selectHead_ok_iff.mp hsel
    refine ⟨hmax, hheads.certified _ hmax.1.1, hheads.verifies _ hmax.1.1, ?_⟩
    intro h' c' hauth hc' hv'
    obtain ⟨d, hd⟩ := (hheads.head_iff h').mp hauth
    exact le_trans (hheads.greatest _ hd c' hc' hv') (hmax.1.2 _ hd)

end CipherVault.Trust
