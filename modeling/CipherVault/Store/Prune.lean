import CipherVault.Format.Lawful
import CipherVault.Store.Db

/-!
# Store.Prune

`prune_snapshots` of `crates/local-store/src/db.rs`: one transaction that deletes the snapshots with
the given ids, the guarded ones excepted, and the chunks that no other recovery set lists. A
snapshot stands under two ids, the address of its record and its logical id. The guard knows the
first only, and what is found under an id is deleted under the logical id too. `Sweep.step_cases`
says what one id can do.
-/

namespace CipherVault.Store

open Crypto Format Table LocalStore Prod List

abbrev Cid := { bytes : Bytes // bytes.length = 32 }

structure PruneOutcome where
  (snapshotsRemoved snapshotsSkippedProtected chunksRemoved chunkBytesReclaimed : Nat)
  chunkGcSkipped : Bool

def array32 (bytes : Bytes) : Bytes := if bytes.length = 32 then bytes else replicate 32 0#8

namespace LocalStore

variable (s : LocalStore)

def activeHeadCid : Option Bytes :=
  match s.getActiveHead with
  | some head => if head.snapshotId.length = 32 then some head.snapshotId else none
  | none => none

def pendingCids : List Bytes := s.listPendingUploads.map fun upload => array32 upload.recordCid

def guarded (cid : Bytes) : Bool := s.activeHeadCid == some cid || s.pendingCids.contains cid

def deleteSnapshot (cid : Bytes) (record : SnapshotRecord) : LocalStore :=
  let rows := s.snapshots.filter fun row => row.snapshotId ≠ cid
  { s with
    snapshots := if record.snapshotId ≠ cid then rows.filter fun row => row.snapshotId ≠
      record.snapshotId else rows
    recoverySets := s.recoverySets.filter fun row => row.1 ≠ cid
    heads := s.heads.filter fun row => row.key ≠ cid || row.isActive }

structure Sweep where
  store : LocalStore
  (removed skipped : Nat)

def Sweep.step (guard : Bytes → Bool) (sweep : Sweep) (cid : Bytes) : Sweep :=
  if guard cid then { sweep with skipped := sweep.skipped + 1 }
  else match find SnapshotRow.snapshotId cid sweep.store.snapshots with
    | none => sweep
    | some row =>
      let store := sweep.store.deleteSnapshot cid row.record
      { sweep with
        store := store
        removed :=
          if store.snapshots.length < sweep.store.snapshots.length then sweep.removed + 1 else sweep.removed }

def sweep (guard : Bytes → Bool) (s : LocalStore) (cids : List Bytes) : Sweep :=
  cids.foldl (Sweep.step guard) { store := s, removed := 0, skipped := 0 }

def retainedCids (E : Externals) (s : LocalStore) : Except FormatError (List Bytes) :=
  s.snapshots.mapM fun row => row.record.computeRecordCid E

def referenced (s : LocalStore) : List Bytes → Option (List Bytes)
  | [] => some []
  | cid :: rest =>
    match find fst cid s.recoverySets with
    | none => none
    | some row =>
      (referenced s rest).map fun chunks => row.2.closure.chunkCids.filter
        (fun chunk => chunk.length = 32) ++ chunks

/-- The addresses of the chunks that are not referenced, with the lengths of the chunks. -/
def doomed (E : Externals) (s : LocalStore) (referenced : List Bytes) : List (Bytes × Nat) :=
  (s.chunks.map fun row => (array32 row.1, (E.encode (.chunk row.2)).length)).filter fun entry =>
    !referenced.contains entry.1

def deleteChunks (cids : List Bytes) : LocalStore :=
  { s with chunks := s.chunks.filter fun row => !cids.contains row.1 }

/-- One transaction: the sweep over the ids, then the chunks that nobody lists. -/
def pruneSnapshots (E : Externals) (s : LocalStore) (recordCids : List Cid) :
    Except String (LocalStore × PruneOutcome) :=
  let swept := sweep s.guarded s (recordCids.map Subtype.val)
  match swept.store.retainedCids E with
  | .error e => .error ("Database error: Conversion error from type Blob at index: 0, " ++ e.message)
  | .ok retained => match swept.store.referenced retained with
    | none =>
      .ok (swept.store,
        { snapshotsRemoved := swept.removed, snapshotsSkippedProtected := swept.skipped, chunksRemoved := 0
          chunkBytesReclaimed := 0, chunkGcSkipped := true })
    | some referenced =>
      let doomed := swept.store.doomed E referenced
      .ok (swept.store.deleteChunks (doomed.map fst),
        { snapshotsRemoved := swept.removed, snapshotsSkippedProtected := swept.skipped,
          chunksRemoved := doomed.length
          chunkBytesReclaimed := (doomed.map snd).sum, chunkGcSkipped := false })

variable {s : LocalStore} {cids : List Bytes} {cid : Bytes} {row : SnapshotRow}

variable {store : LocalStore}

section

variable {guard : Bytes → Bool}

theorem Sweep.step_cases (guard : Bytes → Bool) (swept : Sweep) (cid : Bytes) :
    (swept.step guard cid).store = swept.store ∧
        (guard cid = true ∨ find SnapshotRow.snapshotId cid swept.store.snapshots = none) ∨
      ∃ row, guard cid = false ∧ find SnapshotRow.snapshotId cid swept.store.snapshots = some row ∧
        (swept.step guard cid).store = swept.store.deleteSnapshot cid row.record := by
  unfold Sweep.step
  split
  · rename_i hg
    exact .inl ⟨rfl, .inl hg⟩
  · rename_i hg
    split
    · rename_i hf
      exact .inl ⟨rfl, .inr hf⟩
    · rename_i row hf
      exact .inr ⟨row, Bool.not_eq_true _ ▸ hg, hf, rfl⟩

variable {I : LocalStore → Prop} {k : Bytes} {record : SnapshotRecord}

theorem foldl_keeps {swept : Sweep} (hdelete : ∀ store cid row, cid ∈ cids → guard cid = false →
      find SnapshotRow.snapshotId cid store.snapshots = some row → I store →
      I (store.deleteSnapshot cid row.record))
    (h : I swept.store) : I (cids.foldl (Sweep.step guard) swept).store := by
  induction cids generalizing swept with
  | nil => exact h
  | cons cid rest ih =>
    refine ih (fun store cid' row hmem => hdelete store cid' row (mem_cons_of_mem _ hmem)) ?_
    rcases Sweep.step_cases guard swept cid with ⟨hs, _⟩ | ⟨row, hg, hf, hst⟩
    · rw [hs]
      exact h
    · rw [hst]
      exact hdelete _ _ _ mem_cons_self hg hf h

theorem sweep_keeps (h : I s) (hdelete : ∀ store cid row, cid ∈ cids → guard cid = false →
      find SnapshotRow.snapshotId cid store.snapshots = some row → I store →
      I (store.deleteSnapshot cid row.record)) :
    I (sweep guard s cids).store :=
  foldl_keeps hdelete h

theorem mem_deleteSnapshot : row ∈ (s.deleteSnapshot cid record).snapshots ↔
      row ∈ s.snapshots ∧ row.snapshotId ≠ cid ∧ row.snapshotId ≠ record.snapshotId := by
  unfold deleteSnapshot
  split
  · simp only [mem_filter, decide_eq_true_eq, and_assoc]
  · rename_i hs
    simp only [mem_filter, decide_eq_true_eq, not_not.mp hs, and_self]

theorem find_deleteSnapshot (record : SnapshotRecord) (h : k ≠ cid) :
    find fst k (s.deleteSnapshot cid record).recoverySets = find fst k s.recoverySets :=
  find_filter_of_ne fst h s.recoverySets

theorem getActiveHead_deleteSnapshot (s : LocalStore) (cid : Bytes) (record : SnapshotRecord) :
    (s.deleteSnapshot cid record).getActiveHead = s.getActiveHead := by
  unfold getActiveHead deleteSnapshot
  rw [List.find?_filter]
  congr 2
  funext row
  cases row.isActive with
  | true => simp only [Bool.or_true, and_self, decide_true]
  | false => simp only [Bool.false_eq_true, and_false, decide_false]

/-- A store in which snapshots of another one are gone, and nothing else that matters. -/
structure Within (s store : LocalStore) : Prop where
  snapshots : ∀ row ∈ store.snapshots, row ∈ s.snapshots
  sets : ∀ k, find fst k store.recoverySets = find fst k s.recoverySets ∨ find fst k store.recoverySets = none
  head : store.getActiveHead = s.getActiveHead
  pending : store.pendingUploads = s.pendingUploads
  chunks : store.chunks = s.chunks

theorem Within.refl (s : LocalStore) : Within s s := ⟨fun _ h => h, fun _ => .inl rfl, rfl, rfl, rfl⟩

theorem Within.deleteSnapshot (h : Within s store) (cid : Bytes) (record : SnapshotRecord) :
    Within s (store.deleteSnapshot cid record) where
  snapshots row hrow := h.snapshots row (mem_deleteSnapshot.mp hrow).1
  sets k := by
    by_cases hk : k = cid
    · subst hk
      exact .inr (find_filter_ne fst k store.recoverySets)
    · rw [find_deleteSnapshot record hk]
      exact h.sets k
  head := (getActiveHead_deleteSnapshot _ _ _).trans h.head
  pending := h.pending
  chunks := h.chunks

theorem sweep_within (guard : Bytes → Bool) (s : LocalStore) (cids : List Bytes) :
    Within s (sweep guard s cids).store :=
  sweep_keeps (Within.refl s) fun _ _ _ _ _ _ h => h.deleteSnapshot _ _

theorem find_sweep (h : k ∈ cids → guard k = true) :
    find fst k (sweep guard s cids).store.recoverySets = find fst k s.recoverySets := by
  refine sweep_keeps (I := fun store => find fst k store.recoverySets = find fst k s.recoverySets) rfl
    fun store cid row hmem hg _ hs => ?_
  rw [find_deleteSnapshot, hs]
  rintro rfl
  rw [h hmem] at hg
  cases hg

theorem find_none_deleteSnapshot (h : find SnapshotRow.snapshotId k s.snapshots = none) :
    find SnapshotRow.snapshotId k (s.deleteSnapshot cid record).snapshots = none := by
  rw [find, find?_eq_none] at h ⊢
  exact fun row hrow => h row (mem_deleteSnapshot.mp hrow).1

theorem find_swept (hmem : k ∈ cids) (hguard : guard k = false) :
    find SnapshotRow.snapshotId k (sweep guard s cids).store.snapshots = none := by
  suffices hfold : ∀ swept : Sweep,
      find SnapshotRow.snapshotId k (cids.foldl (Sweep.step guard) swept).store.snapshots = none from hfold _
  induction cids with
  | nil => cases hmem
  | cons cid rest ih =>
    intro swept
    rw [foldl_cons]
    by_cases hr : k ∈ rest
    · exact ih hr _
    · obtain rfl : k = cid := (mem_cons.mp hmem).resolve_right hr
      refine foldl_keeps (I := fun store => find SnapshotRow.snapshotId k store.snapshots = none)
        (fun store cid row _ _ _ h => find_none_deleteSnapshot h) ?_
      rcases Sweep.step_cases guard swept k with ⟨hs, hcases⟩ | ⟨row, _, _, hst⟩
      · rw [hs]
        rcases hcases with hgua | hn
        · rw [hguard] at hgua
          cases hgua
        · exact hn
      · rw [hst, find, find?_eq_none]
        intro row' hrow' hkey
        exact (mem_deleteSnapshot.mp hrow').2.1 (of_decide_eq_true hkey)

theorem sweep_idle (h : ∀ cid ∈ cids, guard cid = true ∨ find SnapshotRow.snapshotId cid s.snapshots = none) :
    (sweep guard s cids).store = s := by
  refine sweep_keeps (I := fun store => store = s) rfl fun store cid row hmem hg hf hs => ?_
  subst hs
  rcases h cid hmem with hgua | hn
  · rw [hg] at hgua
    cases hgua
  · rw [hn] at hf
    cases hf

end

variable {E : Externals}

section

variable {chunks : List Bytes} {chunk : Bytes}

theorem mem_retainedCids (h : s.retainedCids E = .ok cids) (hrow : row ∈ s.snapshots)
    (hcid : row.record.computeRecordCid E = .ok cid) : cid ∈ cids := by
  rw [retainedCids, mapM_eq_ok] at h
  generalize s.snapshots = rows at h hrow
  induction h with
  | nil => cases hrow
  | cons hh _ ih =>
    rcases mem_cons.mp hrow with rfl | hr
    · rw [hcid] at hh
      cases hh
      exact mem_cons_self
    · exact mem_cons_of_mem _ (ih hr)

theorem mem_referenced (h : s.referenced cids = some chunks) (hcid : cid ∈ cids) :
    ∃ row, find fst cid s.recoverySets = some row ∧
      ∀ chunk ∈ row.2.closure.chunkCids, chunk.length = 32 → chunk ∈ chunks := by
  induction cids generalizing chunks with
  | nil => cases hcid
  | cons first rest ih =>
    rw [referenced] at h
    split at h
    · cases h
    · rename_i row hrow
      obtain ⟨others, hos, rfl⟩ := Option.map_eq_some_iff.mp h
      rcases mem_cons.mp hcid with rfl | hr
      · refine ⟨row, hrow, fun chunk hc hlen => mem_append_left _ ?_⟩
        exact mem_filter.mpr ⟨hc, decide_eq_true hlen⟩
      · obtain ⟨row', hrow', hlisted⟩ := ih hos hr
        exact ⟨row', hrow', fun chunk hc hlen => mem_append_right _ (hlisted chunk hc hlen)⟩

theorem referenced_congr (h : store.recoverySets = s.recoverySets) (cids : List Bytes) :
    store.referenced cids = s.referenced cids := by
  induction cids with
  | nil => rfl
  | cons cid rest ih => rw [referenced, referenced, h, ih]

theorem length_array32 (bytes : Bytes) : (array32 bytes).length = 32 := by
  unfold array32
  split
  · assumption
  · exact length_replicate

theorem not_contains : (!cids.contains cid) = true ↔ cid ∉ cids := by
  rw [Bool.not_eq_true', ← Bool.not_eq_true, contains_iff_mem]

theorem mem_doomed : cid ∈ (s.doomed E chunks).map fst ↔
    cid ∉ chunks ∧ ∃ row ∈ s.chunks, array32 row.1 = cid := by
  rw [doomed, mem_map]
  constructor
  · rintro ⟨entry, he, rfl⟩
    rw [mem_filter, mem_map, not_contains] at he
    obtain ⟨⟨row, hrow, rfl⟩, hunr⟩ := he
    exact ⟨hunr, row, hrow, rfl⟩
  · rintro ⟨hunr, row, hrow, rfl⟩
    exact ⟨_, mem_filter.mpr ⟨mem_map_of_mem hrow, not_contains.mpr hunr⟩, rfl⟩

theorem find_deleteChunks (h : chunk ∉ cids) :
    find fst chunk (s.deleteChunks cids).chunks = find fst chunk s.chunks := by
  refine find_filter_of_kept fun row hrow => ?_
  rw [hrow]
  exact not_contains.mpr h

theorem mem_deleteChunks {row : Bytes × ChunkWireObject} :
    row ∈ (s.deleteChunks cids).chunks ↔ row ∈ s.chunks ∧ row.1 ∉ cids := by
  rw [deleteChunks, mem_filter, not_contains]

theorem not_mem_doomed (h : chunk.length = 32 → chunk ∈ chunks) : chunk ∉ (s.doomed E chunks).map fst := by
  intro hdoomed
  obtain ⟨hunr, row, _, rfl⟩ := mem_doomed.mp hdoomed
  exact hunr (h (length_array32 row.1))

theorem deleteChunks_doomed_again : let collected := s.deleteChunks ((s.doomed E chunks).map fst)
    collected.deleteChunks ((collected.doomed E chunks).map fst) = collected := by
  intro collected
  have hrows : collected.chunks.filter (fun row => !((collected.doomed E chunks).map fst).contains row.1) =
      collected.chunks := by
    refine List.filter_eq_self.mpr fun row hrow => not_contains.mpr fun hdoomed => ?_
    obtain ⟨hunr, row', hrow', heq⟩ := mem_doomed.mp hdoomed
    exact (mem_deleteChunks.mp hrow).2 (mem_doomed.mpr ⟨hunr, row', (mem_deleteChunks.mp hrow').1, heq⟩)
  rw [deleteChunks, hrows]

end

section

variable {s' : LocalStore} {recordCids : List Cid} {outcome : PruneOutcome}

def swept (s : LocalStore) (recordCids : List Cid) : LocalStore :=
  (sweep s.guarded s (recordCids.map Subtype.val)).store

theorem pruneSnapshots_cases (h : s.pruneSnapshots E recordCids = .ok (s', outcome)) :
    ∃ retained, (s.swept recordCids).retainedCids E = .ok retained ∧
      ((s.swept recordCids).referenced retained = none ∧ s' = s.swept recordCids ∨
        ∃ chunks, (s.swept recordCids).referenced retained = some chunks ∧
          s' = (s.swept recordCids).deleteChunks (((s.swept recordCids).doomed E chunks).map fst)) := by
  unfold pruneSnapshots at h
  dsimp only at h
  split at h
  · cases h
  · rename_i retained hret
    split at h
    · rename_i hn
      cases h
      exact ⟨retained, hret, .inl ⟨hn, rfl⟩⟩
    · rename_i chunks hchunks
      cases h
      exact ⟨retained, hret, .inr ⟨chunks, hchunks, rfl⟩⟩

theorem pruneSnapshots_frame (h : s.pruneSnapshots E recordCids = .ok (s', outcome)) :
    s' = { s.swept recordCids with chunks := s'.chunks } := by
  obtain ⟨_, _, ⟨_, rfl⟩ | ⟨_, _, rfl⟩⟩ := pruneSnapshots_cases h
  · rfl
  · rfl

theorem guarded_congr (hhead : s'.getActiveHead = s.getActiveHead)
    (hpending : s'.pendingUploads = s.pendingUploads) :
    s'.guarded = s.guarded := by
  funext cid
  simp only [guarded, activeHeadCid, pendingCids, listPendingUploads, hhead, hpending]

/-- The snapshot of the active head, or one with a pending upload. -/
def Protected (s : LocalStore) (cid : Bytes) : Prop :=
  (∃ head, s.getActiveHead = some head ∧ head.snapshotId = cid) ∨
    ∃ upload ∈ s.pendingUploads, upload.recordCid = cid

theorem guarded_of_protected (h : s.Protected cid) (hlength : cid.length = 32) : s.guarded cid = true := by
  rw [guarded, Bool.or_eq_true]
  rcases h with ⟨head, hh, rfl⟩ | ⟨upload, hupload, rfl⟩
  · left
    simp only [activeHeadCid, hh, hlength, if_true, beq_self_eq_true]
  · right
    rw [contains_iff_mem, pendingCids, mem_map]
    exact ⟨upload, (mem_insertionSort _).mpr hupload, if_pos hlength⟩

/-- Whether ids, the last one first, strike an id out: one of them that is neither guarded nor
struck out before is that id, or the row under it has that logical id. -/
def strikes (s : LocalStore) : List Bytes → Bytes → Bool
  | [], _ => false
  | cid :: earlier, id => strikes s earlier id || (!s.guarded cid && !strikes s earlier cid &&
      (find SnapshotRow.snapshotId cid s.snapshots).any fun row => decide (id = cid ∨
        id = row.record.snapshotId))

theorem snapshots_deleteSnapshot {record : SnapshotRecord} {struck : Bytes → Bool}
    (h : s'.snapshots = s.snapshots.filter fun row => !struck row.snapshotId) :
    (s'.deleteSnapshot cid record).snapshots = s.snapshots.filter fun row =>
      !(struck row.snapshotId || decide (row.snapshotId = cid ∨ row.snapshotId = record.snapshotId)) := by
  have hrows : (s'.deleteSnapshot cid record).snapshots = s'.snapshots.filter fun row =>
      !decide (row.snapshotId = cid ∨ row.snapshotId = record.snapshotId) := by
    unfold deleteSnapshot
    dsimp only
    split
    · rw [List.filter_filter]
      exact List.filter_congr fun row _ => by simp [Bool.and_comm]
    · rename_i hsame
      exact List.filter_congr fun row _ => by simp [not_not.mp hsame]
  rw [hrows, h, List.filter_filter]
  exact List.filter_congr fun row _ => by simp [Bool.and_comm]

/-- A sweep leaves the rows that its ids do not strike out. -/
theorem snapshots_sweep (s : LocalStore) (cids : List Bytes) : (sweep s.guarded s cids).store.snapshots =
    s.snapshots.filter fun row => !s.strikes cids.reverse row.snapshotId := by
  induction cids using List.reverseRecOn with
  | nil => exact (List.filter_eq_self.mpr fun _ _ => rfl).symm
  | append_singleton cids cid ih =>
    have hfound : find SnapshotRow.snapshotId cid (sweep s.guarded s cids).store.snapshots =
        if s.strikes cids.reverse cid then none else find SnapshotRow.snapshotId cid s.snapshots := by
      rw [ih]
      split
      · rename_i hstruck
        rw [find, find?_eq_none]
        intro row hrow hkey
        have hkept := (mem_filter.mp hrow).2
        rw [of_decide_eq_true hkey, hstruck] at hkept
        cases hkept
      · rename_i hstruck
        refine find_filter_of_kept fun row hrow => ?_
        rw [hrow, Bool.eq_false_of_not_eq_true hstruck]
        rfl
    rw [sweep, foldl_append, List.reverse_append]
    show (Sweep.step s.guarded (sweep s.guarded s cids) cid).store.snapshots =
      s.snapshots.filter fun row => !s.strikes (cid :: cids.reverse) row.snapshotId
    rcases Sweep.step_cases s.guarded (sweep s.guarded s cids) cid with ⟨hs, hidle⟩ | ⟨row, hg, hf, hst⟩
    · rw [hs, ih]
      congr 1
      funext row
      rw [hfound] at hidle
      rw [strikes]
      rcases hidle with hg | hnone
      · simp [hg]
      · split at hnone
        · rename_i hstruck
          simp [hstruck]
        · simp [hnone]
    · rw [hfound] at hf
      split at hf
      · cases hf
      · rename_i hstruck
        rw [hst, snapshots_deleteSnapshot ih]
        congr 1
        funext row'
        rw [strikes, hf, hg, Bool.eq_false_of_not_eq_true hstruck]
        rfl

theorem mem_swept_iff : row ∈ (s.swept recordCids).snapshots ↔
    row ∈ s.snapshots ∧ s.strikes (recordCids.map Subtype.val).reverse row.snapshotId = false := by
  rw [swept, snapshots_sweep, mem_filter, Bool.not_eq_true']

theorem find_swept_of_protected (hprotected : s.Protected cid) :
    find fst cid (s.swept recordCids).recoverySets = find fst cid s.recoverySets := by
  refine find_sweep fun hmem => ?_
  obtain ⟨given, _, rfl⟩ := mem_map.mp hmem
  exact guarded_of_protected hprotected given.2

section

variable (h : s.pruneSnapshots E recordCids = .ok (s', outcome))
include h

theorem prune_keeps_listed_chunks {chunk : Bytes} (hrow : row ∈ s'.snapshots)
    (hcid : row.record.computeRecordCid E = .ok cid)
    {set : Bytes × RecoverySet} (hset : find fst cid s.recoverySets = some set)
    (hchunk : chunk ∈ set.2.closure.chunkCids) : find fst chunk s'.chunks = find fst chunk s.chunks := by
  have hw : Within s (s.swept recordCids) := sweep_within _ _ _
  obtain ⟨retained, hret, ⟨_, rfl⟩ | ⟨chunks, hchunks, rfl⟩⟩ := pruneSnapshots_cases h
  · rw [hw.chunks]
  · obtain ⟨found, hf, hlisted⟩ := mem_referenced hchunks (mem_retainedCids hret hrow hcid)
    have hs : found = set := by
      rcases hw.sets cid with hk | hgone
      · rw [hk, hset] at hf
        exact (Option.some.inj hf).symm
      · rw [hgone] at hf
        cases hf
    subst hs
    rw [find_deleteChunks (not_mem_doomed (hlisted chunk hchunk)), hw.chunks]

theorem prune_keeps_chunks (hrow : row ∈ s'.snapshots) (hcid : row.record.computeRecordCid E = .ok cid)
    (hset : find fst cid s'.recoverySets = none) : s'.chunks = s.chunks := by
  have hw : Within s (s.swept recordCids) := sweep_within _ _ _
  obtain ⟨retained, hret, ⟨_, rfl⟩ | ⟨chunks, hchunks, rfl⟩⟩ := pruneSnapshots_cases h
  · exact hw.chunks
  · obtain ⟨found, hf, _⟩ := mem_referenced hchunks (mem_retainedCids hret hrow hcid)
    rw [show find fst cid (s.swept recordCids).recoverySets = none from hset] at hf
    cases hf

theorem swept_again : s'.swept recordCids = s' := by
  have hw : Within s (s.swept recordCids) := sweep_within _ _ _
  have hframe := pruneSnapshots_frame h
  have hg : s'.guarded = s.guarded := by
    refine guarded_congr ?_ ?_
    · rw [hframe]
      exact hw.head
    · rw [hframe]
      exact hw.pending
  refine sweep_idle fun cid hcid => ?_
  rw [hg]
  by_cases hgua : s.guarded cid = true
  · exact .inl hgua
  · right
    rw [hframe]
    exact find_swept hcid (Bool.not_eq_true _ ▸ hgua)

theorem prune_again : ∃ outcome', s'.pruneSnapshots E recordCids = .ok (s', outcome') := by
  have hidle := swept_again h
  unfold swept at hidle
  unfold pruneSnapshots
  dsimp only
  rw [hidle]
  obtain ⟨retained, hret, ⟨hn, rfl⟩ | ⟨chunks, hchunks, hcol⟩⟩ := pruneSnapshots_cases h
  · simp only [hret, hn]
    exact ⟨_, rfl⟩
  · have hret' : s'.retainedCids E = .ok retained := hcol ▸ hret
    have hsets : s'.recoverySets = (s.swept recordCids).recoverySets := by
      rw [hcol]
      rfl
    have hchu' : s'.referenced retained = some chunks := (referenced_congr hsets retained).trans hchunks
    simp only [hret', hchu']
    rw [hcol, deleteChunks_doomed_again]
    exact ⟨_, rfl⟩

end

/-- The rows and the recovery sets of the protected snapshots are still there. -/
def KeepsProtected (E : Externals) (s s' : LocalStore) : Prop :=
  ∀ row ∈ s.snapshots, ∀ cid, row.record.computeRecordCid E = .ok cid → s.Protected cid →
    row ∈ s'.snapshots ∧ find fst cid s'.recoverySets = find fst cid s.recoverySets

/-- No row of a protected snapshot is struck out. -/
def Spares (E : Externals) (s : LocalStore) (recordCids : List Cid) : Prop :=
  ∀ row ∈ s.snapshots, ∀ cid, row.record.computeRecordCid E = .ok cid → s.Protected cid →
    s.strikes (recordCids.map Subtype.val).reverse row.snapshotId = false

/-- A prune that succeeds keeps the active head and the pending uploads; the protected snapshots
with their recovery sets exactly when the ids spare them; and the chunks of the snapshots that
remain. Once more, it changes nothing. -/
theorem prune_keeps_retained (h : s.pruneSnapshots E recordCids = .ok (s', outcome)) :
    s'.getActiveHead = s.getActiveHead ∧ s'.pendingUploads = s.pendingUploads ∧
    (KeepsProtected E s s' ↔ s.Spares E recordCids) ∧
    (∀ row ∈ s'.snapshots, ∀ cid, row.record.computeRecordCid E = .ok cid →
      ∀ set, find fst cid s.recoverySets = some set → ∀ chunk ∈ set.2.closure.chunkCids,
        find fst chunk s'.chunks = find fst chunk s.chunks) ∧
    ((∃ row ∈ s'.snapshots, ∃ cid, row.record.computeRecordCid E = .ok cid ∧
      find fst cid s'.recoverySets = none) → s'.chunks = s.chunks) ∧
    ∃ outcome', s'.pruneSnapshots E recordCids = .ok (s', outcome') := by
  have hw : Within s (s.swept recordCids) := sweep_within _ _ _
  have hframe := pruneSnapshots_frame h
  have hrows : s'.snapshots = (s.swept recordCids).snapshots := by rw [hframe]
  have hsets : s'.recoverySets = (s.swept recordCids).recoverySets := by rw [hframe]
  refine ⟨?_, ?_, ⟨fun hkeeps row hrow cid hcid hpro => ?_, fun hspares row hrow cid hcid hpro => ⟨?_, ?_⟩⟩,
    fun row hrow cid hcid set hset chunk hc => prune_keeps_listed_chunks h hrow hcid hset hc, ?_,
      prune_again h⟩
  · rw [hframe]
    exact hw.head
  · rw [hframe]
    exact hw.pending
  · exact (mem_swept_iff.mp (hrows ▸ (hkeeps row hrow cid hcid hpro).1)).2
  · rw [hrows]
    exact mem_swept_iff.mpr ⟨hrow, hspares row hrow cid hcid hpro⟩
  · rw [hsets]
    exact find_swept_of_protected hpro
  · rintro ⟨row, hrow, cid, hcid, hset⟩
    exact prune_keeps_chunks h hrow hcid hset

end

end LocalStore

namespace Aliases

def genesis : GenesisRecord :=
  { version := 1, vaultId := replicate 32 1#8, recoverySigningPk := [], recoveryEncryptionPk := [],
    policyDigest := []
    createdAtUtc := 0, creationNonce := [], signature := [] }

def vault : LocalStore :=
  { metadata :=
      { vaultId := replicate 32 1#8, vault_length := rfl, deviceId := replicate 32 2#8, device_length := rfl
        deviceSk := [], recoverySigningPk := [], recoveryEncryptionPk := [],
        recoveryLocator := [], genesis := genesis }
    deviceCounter := 0, currentEpoch := 0, epochKeys := [], trackedFiles := [],
    certificates := [], snapshots := []
    chunks := [], heads := [], recoverySets := [], pendingUploads := [] }

def record (snapshotId : Bytes) (deviceCounter : Nat) : SnapshotRecord :=
  { version := 1, vaultId := replicate 32 1#8, snapshotId := snapshotId, parentSnapshotIds := []
    deviceId := replicate 32 2#8, deviceCounter := deviceCounter, authorityGeneration := 1, epoch := 0
    encryptedManifestCid := [], encryptedManifestLen := 0, advisoryTimestampUtc := 0, signature := [] }

def address (r : SnapshotRecord) : Bytes := reference.sha256 (reference.encode (.snapshot r))

def head (r : SnapshotRecord) : HeadRecord :=
  { version := 1, vaultId := replicate 32 1#8, snapshotId := address r, parentSnapshotIds := [],
    closureDigest := []
    deviceId := replicate 32 2#8, deviceCounter := r.deviceCounter, signature := [] }

def logical : Cid := ⟨replicate 32 3#8, rfl⟩

def newer : SnapshotRecord := record logical.1 2

def older : SnapshotRecord := record (address newer) 1

def olderAddress : Cid := ⟨address older, by decide⟩

def replicated : Except String LocalStore := do
  let first ← vault.saveSnapshot reference older [] []
  let second ← first.saveSnapshot reference newer [] []
  ((second.markUploadCompleted older.snapshotId).markUploadCompleted newer.snapshotId).setHead
    reference (head newer)

/-- A snapshot that waits for its upload is pruned under its logical id. And the prune of a
replicated snapshot deletes the active head, whose address is the logical id of the former. -/
theorem guard_by_address_only : ((do
      let s ← vault.saveSnapshot reference newer [] []
      let pruned ← s.pruneSnapshots reference [logical]
      return (pruned.2.snapshotsRemoved, pruned.1.pendingUploads.map PendingUpload.snapshotId,
        (s.getSnapshot logical.1).isOk, (pruned.1.getSnapshot logical.1).isOk)) : Except String _) =
      .ok (1, [logical.1], true, false) ∧
    ((do
      let s ← replicated
      let pruned ← s.pruneSnapshots reference [olderAddress]
      return (pruned.2.snapshotsRemoved, pruned.1.getActiveHead.map HeadRecord.snapshotId,
        (s.getSnapshot (address newer)).toOption.map fst,
        (pruned.1.getSnapshot (address newer)).toOption.map fst)) : Except String _) =
      .ok (1, some (address newer), some newer, none) := by
  constructor
  · decide +kernel
  · decide +kernel

def recordOne : SnapshotRecord := record (replicate 32 4#8) 1

def recordTwo : SnapshotRecord := record (replicate 32 5#8) 2

def addressOne : Cid := ⟨address recordOne, by decide⟩

def chunk (n : Nat) : ChunkWireObject :=
  { version := 1, vaultId := replicate 32 1#8, fileVersionId := [], chunkIndex := n, totalChunks := 2
    declaredPaddedLength := 0, keyEpoch := 0, payload := [] }

def chunkAddress (n : Nat) : Bytes := reference.sha256 (reference.encode (.chunk (chunk n)))

def inventory (r : SnapshotRecord) (chunks : List Nat) : RecoverySet :=
  { closure :=
      { snapshotId := r.snapshotId, snapshotRecordCid := address r, manifestCid := [], envelopeIds := []
        chunkCids := chunks.map chunkAddress, totalBytes := 0 }
    locator := [], records := [] }

def shared : LocalStore :=
  { vault with
    snapshots := [recordOne, recordTwo].flatMap fun r =>
      [snapshotRow (address r) r [], snapshotRow r.snapshotId r []]
    chunks := [0, 1].map fun n => (chunkAddress n, chunk n)
    heads := [{ head := head recordTwo, isActive := true }]
    recoverySets := [(address recordOne, inventory recordOne [0, 1]),
      (address recordTwo, inventory recordTwo [1])] }

theorem second_snapshot_stays :
    ∃ s' outcome, shared.pruneSnapshots reference [addressOne] = .ok (s', outcome) ∧
      outcome.snapshotsRemoved = 1 ∧ outcome.chunksRemoved = 1 ∧
      snapshotRow (address recordTwo) recordTwo [] ∈ s'.snapshots ∧
      find fst (chunkAddress 1) s'.chunks = some (chunkAddress 1, chunk 1) ∧
      ∃ outcome', s'.pruneSnapshots reference [addressOne] = .ok (s', outcome') := by
  have hcounts : (shared.pruneSnapshots reference [addressOne]).map
    (fun r => (r.2.snapshotsRemoved, r.2.chunksRemoved)) =
      .ok (1, 1) := by
    decide +kernel
  cases hprune : shared.pruneSnapshots reference [addressOne] with
  | error e =>
    rw [hprune] at hcounts
    cases hcounts
  | ok r =>
    rw [hprune] at hcounts
    injection hcounts with hcounts
    injection hcounts with hrem hchunks
    obtain ⟨_, _, hpro, hlisted, _, hagain⟩ := prune_keeps_retained hprune
    have hspares : shared.Spares reference [addressOne] := by
      have hrows : ∀ row ∈ shared.snapshots, row.record.computeRecordCid reference = .ok (address recordTwo) →
          shared.strikes [addressOne.1] row.snapshotId = false := by
        decide +kernel
      rintro row hrow cid hcid (⟨active, hactive, rfl⟩ | ⟨upload, hupload, -⟩)
      · cases hactive
        exact hrows row hrow hcid
      · cases hupload
    have hcid : recordTwo.computeRecordCid reference = .ok (address recordTwo) := by decide +kernel
    have hstays := (hpro.mpr hspares (snapshotRow (address recordTwo) recordTwo [])
      (.tail _ (.tail _ (.head _))) _ hcid (.inl ⟨head recordTwo, rfl, rfl⟩)).1
    refine ⟨r.1, r.2, rfl, hrem, hchunks, hstays, ?_, hagain⟩
    rw [hlisted _ hstays _ hcid (address recordTwo, inventory recordTwo [1]) (by decide +kernel)
      (chunkAddress 1)
      (mem_singleton.mpr rfl)]
    decide +kernel

end Aliases
end CipherVault.Store
