import CipherVault.Device.Pull
import CipherVault.Network.Federation

/-!
# Device.History

The active head of a device over captures and pulls.
-/

namespace CipherVault.Device

open Crypto Format Snapshot Store Network Trust LocalStore Prod List

/-! ## Ancestry among the heads that were seen -/

/-- By a head that was seen. -/
def ParentAmong (seen : List HeadRecord) (child parent : Bytes) : Prop :=
  ∃ head ∈ seen, head.snapshotId = child ∧ parent ∈ head.parentSnapshotIds

def Ancestor (seen : List HeadRecord) (a b : Bytes) : Prop := Relation.TransGen (ParentAmong seen) b a

variable {seen : List HeadRecord} {a b : Bytes} {chosen : Authenticated}

theorem Ancestor.mono {seen' : List HeadRecord} (hsub : seen ⊆ seen') (h : Ancestor seen a b) :
    Ancestor seen' a b :=
  Relation.TransGen.mono (fun _ _ ⟨head, hmem, hchild, hp⟩ => ⟨head, hsub hmem, hchild, hp⟩) _ _ h

theorem ancestor_of_properAncestor {heads : List Authenticated}
    (hsub : heads.map fst ⊆ seen) (h : ProperAncestor heads a b) : Ancestor seen a b :=
  Relation.TransGen.mono
    (fun _ _ ⟨p, hmem, hchild, hp⟩ => ⟨p.1, hsub (mem_map_of_mem hmem), hchild, hp⟩) _ _ h

theorem not_ancestor_of_root
    (hroot : ∀ head ∈ seen, head.snapshotId = b → head.parentSnapshotIds = []) : ¬ Ancestor seen a b := by
  intro h
  obtain ⟨c, ⟨head, hmem, hchild, hp⟩, _⟩ := Relation.TransGen.head'_iff.mp h
  rw [hroot head hmem hchild] at hp
  cases hp

/-! ## Captures and pulls of one device -/

/-- A device over time. -/
structure Timeline where
  store : LocalStore
  captured : List HeadRecord
  /-- The heads whose parents are known: those of the captures and those that operators returned. -/
  seen : List HeadRecord

inductive Event where
  | capture (job : Job)
  /-- A capture that fails or is killed before its head is stored. -/
  | abandon (job : Job) (calls : Nat)
  | track (path : Text) (fileId : Bytes)
  | settle (snapshotId : Bytes) (result : Except String Unit)
  /-- A pull without force, in a workspace and with answers of the operators. -/
  | pull (ids : Text → Bytes) (disk : Disk) (pool : Pool) (dryRun : Bool)

def remoteHeads (E : Externals) (s : LocalStore) (pool : Pool) : List Authenticated :=
  authenticatedHeads E pool.records s.metadata.vaultId s.metadata.recoverySigningPk

def next (E : Externals) (t : Timeline) : Event → Option Timeline
  | .capture job =>
    match capture E job t.store with
    | .error _ => none
    | .ok (store, c) =>
      some { store := store, captured := t.captured ++ [c.head], seen := t.seen ++ [c.head] }
  | .abandon job calls =>
    match drive E job calls (t.store, .start) with
    | .error _ => none
    | .ok (store, phase) => if phase.hasStored then none else some { t with store := store }
  | .track path fileId => some { t with store := t.store.trackFile path fileId }
  | .settle snapshotId (.ok _) => some { t with store := t.store.markUploadCompleted snapshotId }
  | .settle snapshotId (.error error) => some { t with store := t.store.recordUploadFailure snapshotId error }
  | .pull ids disk pool dryRun =>
    some { t with
      store := (cmdPull E ids t.store disk pool dryRun false).1
      seen := t.seen ++ (remoteHeads E t.store pool).map fst }

def play (E : Externals) : List Event → Timeline → Option Timeline
  | [], t => some t
  | e :: rest, t =>
    match next E t e with
    | none => none
    | some t' => play E rest t'

def begin (s : LocalStore) : Timeline := { store := s, captured := [], seen := [] }

/-- The active head stays, or a descendant takes its place. -/
def Advances (t t' : Timeline) : Prop :=
  ∀ old, t.store.getActiveHead = some old → t'.store.getActiveHead ≠ some old →
    ∃ new, t'.store.getActiveHead = some new ∧ Ancestor t'.seen old.snapshotId new.snapshotId

/-- Every captured head is the active one or an ancestor of it. -/
def Preserved (t : Timeline) : Prop :=
  ∀ head ∈ t.captured, ∃ active, t.store.getActiveHead = some active ∧
    (head = active ∨ Ancestor t.seen head.snapshotId active.snapshotId)

/-- No pull of the run goes back. -/
def NeverBack (E : Externals) : List Event → Timeline → Prop
  | [], _ => True
  | e :: rest, t => ∀ t', next E t e = some t' →
    (∀ ids disk pool dryRun, e = .pull ids disk pool dryRun → Advances t t') ∧ NeverBack E rest t'

/-- Where operators return heads at all, the active head is among those of the greatest generation.
-/
def Published (E : Externals) (t : Timeline) : Event → Prop
  | .pull _ _ pool _ => ∀ active, t.store.getActiveHead = some active →
    remoteHeads E t.store pool = [] ∨ ∃ cert, IsCandidate (remoteHeads E t.store pool) (active, cert)
  | _ => True

/-- Every pull of the run meets the condition. -/
def PullsPublished (E : Externals) : List Event → Timeline → Prop
  | [], _ => True
  | e :: rest, t => Published E t e ∧ ∀ t', next E t e = some t' → PullsPublished E rest t'

variable {E : Externals} {ids : Text → Bytes} {disk : Disk} {pool : Pool} {dryRun : Bool}

/-! ## What a pull does to the head -/

section

variable {s : LocalStore} {force : Bool}

theorem adoptSnapshot_head (E : Externals) (ids : Text → Bytes) (s : LocalStore) (head : HeadRecord)
    (fetched : Fetched) : (adoptSnapshot E ids s head fetched).1.getActiveHead = s.getActiveHead ∨
      (adoptSnapshot E ids s head fetched).1.getActiveHead = some head := by
  obtain ⟨tracked, htra⟩ := trackFiles_frame ids fetched.manifest.live s
  simp only [adoptSnapshot, htra]
  split
  · exact .inl rfl
  · rename_i saved hsave
    obtain ⟨_, _, _, rfl⟩ := saveSnapshot_frame hsave
    split
    · exact .inl rfl
    · rename_i stored hset
      exact .inr (getActiveHead_setHead hset)

theorem cmdPull_head : (cmdPull E ids s disk pool dryRun force).1.getActiveHead = s.getActiveHead ∨
    ∃ chosen, chooseHead E s pool = .ok chosen ∧
      (cmdPull E ids s disk pool dryRun force).1.getActiveHead = some chosen.1 := by
  rcases cmdPull_store with hs | ⟨chosen, fetched, hcho, _, hs⟩
  · exact .inl (by rw [hs])
  · rw [hs]
    exact (adoptSnapshot_head E ids s chosen.1 fetched).imp_right fun h => ⟨chosen, hcho, h⟩

theorem selectHead_of_chooseHead (h : chooseHead E s pool = .ok chosen) :
    selectHead E pool.records s.metadata.vaultId s.metadata.recoverySigningPk = .ok chosen := by
  simp only [chooseHead, ite_error_eq_ok] at h
  exact h.2.2

end

section

variable {t t' : Timeline} {store : LocalStore} {e : Event} {events : List Event}

theorem remoteHeads_of_chooseHead {s : LocalStore} (h : chooseHead E s pool = .ok chosen) :
    remoteHeads E s pool ≠ [] := by
  intro hnil
  have hmem := (selectHead_ok_iff.mp (selectHead_of_chooseHead h)).2.2.1.1.1
  rw [remoteHeads] at hnil
  rw [hnil] at hmem
  cases hmem

theorem pull_advances {old : HeadRecord} (hpublished : Published E t (.pull ids disk pool dryRun))
    (hnext : next E t (.pull ids disk pool dryRun) = some t') (hold : t.store.getActiveHead = some old) :
    ∃ new, t'.store.getActiveHead = some new ∧
    (old = new ∨ Ancestor t'.seen old.snapshotId new.snapshotId) := by
  cases hnext
  have hseen : (remoteHeads E t.store pool).map fst ⊆
      t.seen ++ (remoteHeads E t.store pool).map fst := List.subset_append_right _ _
  rcases cmdPull_head with hkeep | ⟨chosen, hcho, hnew⟩
  · exact ⟨old, hkeep.trans hold, .inl rfl⟩
  · refine ⟨chosen.1, hnew, ?_⟩
    rcases hpublished old hold with hn | ⟨cert, hcan⟩
    · exact absurd hn (remoteHeads_of_chooseHead hcho)
    · rcases selectHead_candidate (selectHead_of_chooseHead hcho) hcan with heq | hanc
      · exact .inl (congrArg fst heq)
      · exact .inr (ancestor_of_properAncestor hseen hanc)

section

variable (h : Preserved t)
include h

theorem Preserved.pull (hpublished : Published E t (.pull ids disk pool dryRun))
    (hnext : next E t (.pull ids disk pool dryRun) = some t') : Preserved t' := by
  have hcap : t'.captured = t.captured := by cases hnext; rfl
  have hsub : t.seen ⊆ t'.seen := by cases hnext; exact List.subset_append_left _ _
  intro head hh
  rw [hcap] at hh
  obtain ⟨old, hold, hhis⟩ := h head hh
  obtain ⟨new, hnew, hmove⟩ := pull_advances hpublished hnext hold
  refine ⟨new, hnew, ?_⟩
  rcases hhis with rfl | hanc
  · exact hmove
  · rcases hmove with rfl | hmove
    · exact .inr (hanc.mono hsub)
    · exact .inr (Relation.TransGen.trans hmove (hanc.mono hsub))

theorem Preserved.capture {job : Job} {c : Captured} (hcapture : capture E job t.store = .ok (store, c)) :
    Preserved { store := store, captured := t.captured ++ [c.head], seen := t.seen ++ [c.head] } := by
  obtain ⟨_, _, _, hleaves⟩ := capture_leaves hcapture
  intro head hh
  refine ⟨c.head, hleaves.active, ?_⟩
  rcases mem_append.mp hh with hold | hnew
  · obtain ⟨active, hact, hhis⟩ := h head hold
    have hp : ParentAmong (t.seen ++ [c.head]) c.head.snapshotId active.snapshotId := by
      refine ⟨c.head, mem_append_right _ (mem_singleton_self _), rfl, ?_⟩
      rw [hleaves.parents, parentsOf, hact]
      exact mem_singleton_self _
    rcases hhis with rfl | hanc
    · exact .inr (.single hp)
    · exact .inr (.head hp (hanc.mono (List.subset_append_left _ _)))
  · exact .inl (mem_singleton.mp hnew)

theorem Preserved.of_heads (hheads : store.heads = t.store.heads) : Preserved { t with store := store } := by
  intro head hh
  obtain ⟨active, hact, hhis⟩ := h head hh
  refine ⟨active, ?_, hhis⟩
  rw [← hact, getActiveHead, getActiveHead, hheads]

theorem Preserved.next (hpublished : Published E t e) (hnext : next E t e = some t') : Preserved t' := by
  cases e with
  | capture job =>
    simp only [next] at hnext
    split at hnext
    · cases hnext
    · rename_i store c hcap
      cases hnext
      exact h.capture hcap
  | abandon job calls =>
    simp only [next] at hnext
    split at hnext
    · cases hnext
    · rename_i store phase hdrive
      split at hnext
      · cases hnext
      · rename_i hphase
        cases hnext
        have hknows : Phase.start.Knows E job t.store := trivial
        rw [Bool.not_eq_true] at hphase
        exact h.of_heads ((early_refl E job t.store).drive hknows hdrive hphase).heads
  | track path fileId =>
    cases hnext
    exact h.of_heads rfl
  | settle snapshotId result =>
    cases result with
    | ok | error => cases hnext; exact h.of_heads rfl
  | pull ids disk pool dryRun => exact h.pull hpublished hnext

theorem Preserved.play (hpublished : PullsPublished E events t)
    (hplay : play E events t = some t') : Preserved t' := by
  induction events generalizing t with
  | nil =>
    cases hplay
    exact h
  | cons e rest ih =>
    rw [play] at hplay
    split at hplay
    · cases hplay
    · rename_i u hn
      exact ih (h.next hpublished.1 hn) (hpublished.2 u hn) hplay

end

theorem neverBack_of_published (hpublished : PullsPublished E events t) : NeverBack E events t := by
  induction events generalizing t with
  | nil => trivial
  | cons e rest ih =>
    intro u hn
    refine ⟨fun ids disk pool dryRun he old hold hne => ?_, ih (hpublished.2 u hn)⟩
    subst he
    obtain ⟨new, hnew, hmove⟩ := pull_advances hpublished.1 hn hold
    rcases hmove with rfl | hanc
    · exact absurd hnew hne
    · exact ⟨new, hnew, hanc⟩

/-- In every run of captures, replications and pulls without force in which every pull finds the
active head published: a pull replaces the active head only by a descendant, and every capture is in
the history of the head. -/
theorem published_pulls_never_go_back (E : Externals) (s : LocalStore) {events : List Event}
    (hpublished : PullsPublished E events (begin s)) :
    NeverBack E events (begin s) ∧ ∀ t, play E events (begin s) = some t → Preserved t := by
  have hst : Preserved (begin s) := by
    intro head hh
    cases hh
  exact ⟨neverBack_of_published hpublished, fun t hplay => hst.play hpublished hplay⟩

/-! ## Deciding the condition on a run -/

def publishedCheck (E : Externals) (t : Timeline) : Event → Bool
  | .pull _ _ pool _ => t.store.getActiveHead.all fun active =>
    (remoteHeads E t.store pool).any fun p => p.1 = active ∧
      ∀ q ∈ remoteHeads E t.store pool, q.2.authorityGeneration ≤ p.2.authorityGeneration
  | _ => true

def pullsPublishedCheck (E : Externals) : List Event → Timeline → Bool
  | [], _ => true
  | e :: rest, t => publishedCheck E t e && (next E t e).all (pullsPublishedCheck E rest)

theorem published_of_check (h : publishedCheck E t e = true) : Published E t e := by
  cases e with
  | pull ids disk pool dryRun =>
    intro active hact
    rw [publishedCheck, hact, Option.all_some, any_eq_true] at h
    obtain ⟨p, hp, hc⟩ := h
    obtain ⟨rfl, hgre⟩ := of_decide_eq_true hc
    exact .inr ⟨p.2, hp, hgre⟩
  | _ => trivial

theorem pullsPublished_of_check (h : pullsPublishedCheck E events t = true) : PullsPublished E events t := by
  induction events generalizing t with
  | nil => trivial
  | cons e rest ih =>
    rw [pullsPublishedCheck, Bool.and_eq_true] at h
    refine ⟨published_of_check h.1, fun u hn => ih ?_⟩
    have hr := h.2
    rw [hn] at hr
    exact hr

end

/-! ## A vault with one published capture -/

section

def emptyDisk : Disk := { tree := emptyTree, stage := none }

def demoPull : Event := .pull (fun _ => []) emptyDisk (.ofOperator (demoOperator emptyTree)) false

def demoEvent (n : Nat) : Event := .capture (demoJob .push emptyTree n)

set_option maxRecDepth 100000 in
/-- The pull between the captures and the pull after them, in one evaluation: each one would run the
captures anew. -/
theorem pulls_evaluated : (play reference [demoEvent 1, demoPull, demoEvent 2]
    (begin demoStore)).isSome = true ∧
    pullsPublishedCheck reference [demoEvent 1, demoPull, demoEvent 2] (begin demoStore) = true ∧
    (play reference [demoEvent 1, demoEvent 2] (begin demoStore)).any (fun t =>
      (next reference t demoPull).any fun t' => t.store.getActiveHead.any fun old =>
        t'.store.getActiveHead.any fun new => old ∈ t'.captured ∧ new ≠ old ∧
          ∀ head ∈ t'.seen, head.snapshotId = new.snapshotId → head.parentSnapshotIds = []) = true := by
  decide +kernel

theorem published_pulls_never_go_back_between_captures :
    (∃ t, play reference [demoEvent 1, demoPull, demoEvent 2] (begin demoStore) = some t) ∧
      NeverBack reference [demoEvent 1, demoPull, demoEvent 2] (begin demoStore) ∧
      ∀ t, play reference [demoEvent 1, demoPull, demoEvent 2] (begin demoStore) = some t → Preserved t := by
  obtain ⟨hplays, hc, -⟩ := pulls_evaluated
  exact ⟨Option.isSome_iff_exists.mp hplays, published_pulls_never_go_back reference demoStore
    (pullsPublished_of_check hc)⟩

/-- The first capture is published, the second is a local push; the pull then makes the first head
the active one again. -/
theorem pull_goes_back :
    ∃ t t' old new, play reference [demoEvent 1, demoEvent 2] (begin demoStore) = some t ∧
      next reference t demoPull = some t' ∧ t.store.getActiveHead = some old ∧ old ∈ t'.captured ∧
      t'.store.getActiveHead = some new ∧ new ≠ old ∧ ¬ Ancestor t'.seen old.snapshotId new.snapshotId := by
  obtain ⟨-, -, hc⟩ := pulls_evaluated
  obtain ⟨t, hplay, hc⟩ := (Option.any_eq_true _ _).mp hc
  obtain ⟨t', hn, hc⟩ := (Option.any_eq_true _ _).mp hc
  obtain ⟨old, hold, hc⟩ := (Option.any_eq_true _ _).mp hc
  obtain ⟨new, hnew, hc⟩ := (Option.any_eq_true _ _).mp hc
  obtain ⟨hcap, hne, hroot⟩ := of_decide_eq_true hc
  exact ⟨t, t', old, new, hplay, hn, hold, hcap, hnew, hne, not_ancestor_of_root hroot⟩

end

end CipherVault.Device
