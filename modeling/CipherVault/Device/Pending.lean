import CipherVault.Base.Runs
import CipherVault.Device.Capture
import CipherVault.Device.Pull
import CipherVault.Store.Prune

/-!
# Device.Pending

What `list_pending_uploads` says about durability, over pushes, watcher captures, retries, pulls and
repairs on one store, and what `cmd_prune` (`apps/cli/src/commands/retention.rs`) makes of it. A
snapshot is listed when it is saved. Only the watcher takes it off: after a verified replication,
and also after a capture that was not replicated.
-/

namespace CipherVault.Device

open Crypto Format Snapshot Store LocalStore Phase List

structure History where
  machine : Machine
  /-- The ids of the snapshots of which a replication was verified, here or by another device. -/
  verified : List Bytes

inductive Command where
  | act (action : Action)
  | pull (ids : Text → Bytes) (disk : Disk) (pool : Pool) (dryRun force : Bool)
  | repair (replication : Except String Unit)

variable (E : Externals) (s : LocalStore)

/-- `cmd_repair`, with what its audit and its replication come to: the address of the snapshot whose
recovery set was read back. -/
def cmdRepair (replication : Except String Unit) : Except String Bytes :=
  match s.getActiveHead with
  | none => .error "No active head snapshot found to repair"
  | some head => do
    let set ← (s.getRecoverySet head.snapshotId).mapError fun _ =>
      "Snapshot has no complete recovery inventory; create a new snapshot before auditing or repairing"
    let _ ← s.recoveryObjects E set
    replication
    return head.snapshotId

def repaired (replication : Except String Unit) : List Bytes :=
  match cmdRepair E s replication with
  | .error _ => []
  | .ok cid => (s.snapshots.filter fun row => row.snapshotId = cid).map fun row => row.record.snapshotId

def Phase.replicated (job : Job) : Phase → List Bytes
  | .stored output _ => if job.replication = .verified then [output.record.snapshotId] else []
  | _ => []

def replicatedBy (m : Machine) : Action → List Bytes
  | .step pid =>
    match m.procs pid with
    | some (job, phase) => phase.replicated job
    | none => []
  | .retry item upload =>
    match retainedUpload E m.store item, upload with
    | .ok _, .ok _ => [item.snapshotId]
    | _, _ => []
  | _ => []

namespace History

def store (h : History) : LocalStore := h.machine.store

def step (h : History) : Command → History
  | .act action =>
    match act E h.machine action with
    | none => h
    | some m => { machine := m, verified := replicatedBy E h.machine action ++ h.verified }
  | .pull ids disk pool dryRun force =>
    { h with machine := { h.machine with store := (cmdPull E ids h.store disk pool dryRun force).1 } }
  | .repair replication => { h with verified := repaired E h.store replication ++ h.verified }

/-- No replication of the snapshot was verified, and no other record is stored with its id. -/
def isNew (h : History) (record : SnapshotRecord) : Bool :=
  !h.verified.contains record.snapshotId &&
    h.store.snapshots.all fun row => row.record.snapshotId != record.snapshotId || row.record = record

/-- What is saved is new, the watcher replicates what it captures, and a push or a repair verifies
nothing new. No process is killed. -/
def reports (h : History) : Command → Bool
  | .act (.step pid) =>
    match h.machine.procs pid with
    | some (_, .captured _ output) => h.isNew output.record
    | some (job, .stored _ _) =>
      match job.program with
      | .push => job.replication ≠ .verified
      | .watch => job.replication ≠ .skipped
    | _ => true
  | .act (.crash _) => false
  | .act _ => true
  | .pull _ disk pool _ force =>
    match chooseHead E h.store pool with
    | .error _ => true
    | .ok chosen =>
      match pullSnapshot E h.store disk.tree pool chosen force with
      | .error _ => true
      | .ok fetched => h.isNew fetched.record
  | .repair replication => (repaired E h.store replication).all fun id => h.verified.contains id

end History

structure PruneCandidate where
  recordCid : Bytes
  createdAtUtc : Nat
  (isHead hasPendingUpload : Bool)

/-- The order of the candidates: the latest first. -/
def PruneCandidate.Before (a b : PruneCandidate) : Prop :=
  b.createdAtUtc < a.createdAtUtc ∨
    (a.createdAtUtc = b.createdAtUtc ∧ ¬ a.recordCid.map BitVec.toNat < b.recordCid.map BitVec.toNat)

instance : DecidableRel PruneCandidate.Before := fun _ _ => inferInstanceAs (Decidable (_ ∨ _))

/-- What the retention rule gives up. -/
def selectPruneTargets (candidates : List PruneCandidate) (keepLast keepDays nowUtc : Nat) : List Bytes :=
  let ordered := candidates.insertionSort PruneCandidate.Before
  let cutoff := nowUtc - min (keepDays * 86400) (2 ^ 64 - 1)
  let targets := ordered.zipIdx.filter fun (candidate, index) =>
    !(candidate.isHead || candidate.hasPendingUpload) && keepLast ≤ index && candidate.createdAtUtc < cutoff
  (targets.map fun target => target.1.recordCid).reverse

/-- The loop of `list_snapshots`: of the records at one address the first. -/
def distinctRecords (E : Externals) : List SnapshotRecord → List Bytes → List SnapshotRecord
  | [], _ => []
  | record :: rest, seen =>
    match record.computeRecordCid E with
    | .error _ => record :: distinctRecords E rest seen
    | .ok cid =>
      if seen.contains cid then distinctRecords E rest seen
        else record :: distinctRecords E rest (cid :: seen)

def listSnapshots : List SnapshotRecord :=
  distinctRecords E ((s.snapshots.map SnapshotRow.record).insertionSort fun a b =>
    a.advisoryTimestampUtc ≤ b.advisoryTimestampUtc) []

def pruneCandidates : List PruneCandidate :=
  (listSnapshots E s).filterMap fun record =>
    match record.computeRecordCid E with
    | .error _ => none
    | .ok cid => some
      { recordCid := cid
        createdAtUtc := record.advisoryTimestampUtc
        isHead := s.activeHeadCid == some cid
        hasPendingUpload := s.listPendingUploads.any fun upload => upload.recordCid == cid }

/-- Pending are exactly the snapshots not verified. -/
structure PendingExact (E : Externals) (h : History) : Prop where
  listed : ∀ row ∈ h.store.snapshots,
    (∃ item ∈ h.store.listPendingUploads, item.snapshotId = row.record.snapshotId) ↔
      row.record.snapshotId ∉ h.verified
  /-- What retention removes is durable. -/
  removed : ∀ keepLast keepDays nowUtc,
    ∀ cid ∈ selectPruneTargets (pruneCandidates E h.store) keepLast keepDays nowUtc,
    ∃ row ∈ h.store.snapshots, row.record.computeRecordCid E = .ok cid ∧ row.record.snapshotId ∈ h.verified
  /-- What it keeps as pending is not. -/
  kept : ∀ candidate ∈ pruneCandidates E h.store, candidate.hasPendingUpload = true →
    ∃ item ∈ h.store.listPendingUploads, item.recordCid = candidate.recordCid ∧ item.snapshotId ∉ h.verified

variable {record : SnapshotRecord}

variable {cid : Bytes}

section

variable {E : Externals} {s : LocalStore}

theorem mem_of_distinctRecords {records : List SnapshotRecord} {seen : List Bytes}
    (h : record ∈ distinctRecords E records seen) : record ∈ records := by
  induction records generalizing seen with
  | nil => exact h
  | cons first rest ih =>
    simp only [distinctRecords] at h
    split at h
    · exact (mem_cons.mp h).elim (fun h => h ▸ mem_cons_self) fun h => mem_cons_of_mem _ (ih h)
    · split at h
      · exact mem_cons_of_mem _ (ih h)
      · exact (mem_cons.mp h).elim (fun h => h ▸ mem_cons_self) fun h => mem_cons_of_mem _ (ih h)

theorem row_of_candidate {candidate : PruneCandidate} (h : candidate ∈ pruneCandidates E s) :
    (∃ row ∈ s.snapshots, row.record.computeRecordCid E = .ok candidate.recordCid) ∧
      candidate.hasPendingUpload = s.listPendingUploads.any fun upload =>
        upload.recordCid == candidate.recordCid := by
  obtain ⟨record, hrec, hcan⟩ := mem_filterMap.mp h
  split at hcan
  · cases hcan
  · rename_i cid hcid
    cases hcan
    obtain ⟨row, hrow, rfl⟩ := mem_map.mp ((mem_insertionSort _).mp (mem_of_distinctRecords hrec))
    exact ⟨⟨row, hrow, hcid⟩, rfl⟩

theorem candidate_of_target {candidates : List PruneCandidate} {keepLast keepDays nowUtc : Nat}
    (h : cid ∈ selectPruneTargets candidates keepLast keepDays nowUtc) :
    ∃ candidate ∈ candidates, candidate.recordCid = cid ∧ candidate.hasPendingUpload = false := by
  rw [selectPruneTargets, mem_reverse, mem_map] at h
  obtain ⟨⟨candidate, index⟩, htarget, rfl⟩ := h
  obtain ⟨hmem, hkeep⟩ := mem_filter.mp htarget
  simp only [Bool.and_eq_true, Bool.not_eq_true', Bool.or_eq_false_iff] at hkeep
  exact ⟨candidate, (mem_insertionSort _).mp (List.fst_mem_of_mem_zipIdx hmem), rfl, hkeep.1.1.2⟩

end

def uploads : List (Bytes × Bytes) := s.pendingUploads.map fun item => (item.snapshotId, item.recordCid)

def records : List SnapshotRecord := s.snapshots.map SnapshotRow.record

/-- Every snapshot that was not verified is listed with its address, and nothing that was. -/
structure Exact (E : Externals) (s : LocalStore) (verified : List Bytes) : Prop where
  waiting : ∀ record ∈ records s, record.snapshotId ∉ verified →
    ∃ cid, record.computeRecordCid E = .ok cid ∧ (record.snapshotId, cid) ∈ uploads s
  unverified : ∀ upload ∈ uploads s, upload.1 ∉ verified

section

variable {E : Externals} {s s' : LocalStore} {verified : List Bytes} {h : History}

theorem mem_uploads {id : Bytes} :
    (id, cid) ∈ uploads s ↔ ∃ item ∈ s.listPendingUploads, item.snapshotId = id ∧ item.recordCid = cid := by
  simp [uploads, listPendingUploads, mem_insertionSort]

theorem Exact.pendingExact (hexact : Exact E h.store h.verified) : PendingExact E h where
  listed row hrow := by
    constructor
    · rintro ⟨item, hi, hid⟩
      exact hexact.unverified _ (mem_uploads.mpr ⟨item, hi, hid, rfl⟩)
    · intro hid
      obtain ⟨cid, _, hupload⟩ := hexact.waiting row.record (mem_map_of_mem hrow) hid
      obtain ⟨item, hi, hitemId, _⟩ := mem_uploads.mp hupload
      exact ⟨item, hi, hitemId⟩
  removed keepLast keepDays nowUtc cid hcid := by
    obtain ⟨candidate, hcan, rfl, hpen⟩ := candidate_of_target hcid
    obtain ⟨⟨row, hrow, hadd⟩, hflag⟩ := row_of_candidate hcan
    refine ⟨row, hrow, hadd, ?_⟩
    by_contra hid
    obtain ⟨cid, hcid, hupload⟩ := hexact.waiting row.record (mem_map_of_mem hrow) hid
    obtain ⟨item, hi, _, hite⟩ := mem_uploads.mp hupload
    rw [hadd, Except.ok.injEq] at hcid
    rw [hpen, eq_comm, List.any_eq_false] at hflag
    exact hflag item hi (beq_iff_eq.mpr (hite.trans hcid.symm))
  kept candidate hcan hpen := by
    rw [(row_of_candidate hcan).2, any_eq_true] at hpen
    obtain ⟨item, hi, hcid⟩ := hpen
    exact ⟨item, hi, beq_iff_eq.mp hcid, hexact.unverified _ (mem_uploads.mpr ⟨item, hi, rfl, rfl⟩)⟩

theorem Exact.congr (hexact : Exact E s verified) (hrecords : records s' = records s)
    (huploads : uploads s' = uploads s) :
    Exact E s' verified where
  waiting := by
    rw [hrecords, huploads]
    exact hexact.waiting
  unverified := by
    rw [huploads]
    exact hexact.unverified

variable {manifest : Bytes} {job : Job}

theorem mem_saveSnapshot {chunks : List ChunkWireObject}
    (hsave : s.saveSnapshot E record manifest chunks = .ok s') :
    (∀ other ∈ records s', other ∈ records s ∨ other = record) ∧ ∃ cid, record.computeRecordCid E = .ok cid ∧
      ∀ upload, upload ∈ uploads s' ↔ upload ∈ uploads s ∧ upload.1 ≠ record.snapshotId ∨
      upload = (record.snapshotId, cid) := by
  simp only [saveSnapshot, bind_eq_ok, mapError_eq_ok, pure_eq_ok] at hsave
  obtain ⟨cid, hcid, _, _, rfl⟩ := hsave
  refine ⟨fun other ho => ?_, cid, hcid, fun upload => ?_⟩
  · obtain ⟨row, hrow, rfl⟩ := mem_map.mp ho
    split at hrow
    · rcases Table.mem_upsert.mp hrow with ⟨hrow, _⟩ | rfl
      · exact (Table.mem_upsert.mp hrow).imp (fun hrow => mem_map_of_mem hrow.1) (congrArg SnapshotRow.record)
      · exact .inr rfl
    · exact (Table.mem_upsert.mp hrow).imp (fun hrow => mem_map_of_mem hrow.1) (congrArg SnapshotRow.record)
  · simp only [uploads, Table.upsert, map_append, mem_append, map_cons, map_nil, mem_singleton,
      mem_map, mem_filter]
    grind

theorem History.isNew_iff : h.isNew record = true ↔ record.snapshotId ∉ h.verified ∧
    ∀ other ∈ records h.store, other.snapshotId = record.snapshotId → other = record := by
  simp [History.isNew, records, or_iff_not_imp_left]

theorem Exact.save (hexact : Exact E h.store h.verified) (hnew : h.isNew record = true)
    (hrecords : records s = records h.store) (huploads : uploads s = uploads h.store)
    {chunks : List ChunkWireObject} (hsave : s.saveSnapshot E record manifest chunks = .ok s') :
    Exact E s' h.verified := by
  obtain ⟨hunv, hone⟩ := History.isNew_iff.mp hnew
  obtain ⟨hst, cid, hcid, hmem⟩ := mem_saveSnapshot hsave
  rw [hrecords] at hst
  simp only [huploads] at hmem
  constructor
  · intro other ho hid
    by_cases hs : other.snapshotId = record.snapshotId
    · obtain rfl : other = record := (hst other ho).elim (fun hold => hone other hold hs) id
      exact ⟨cid, hcid, (hmem _).mpr (.inr rfl)⟩
    · have hold := (hst other ho).resolve_right fun heq => hs (heq ▸ rfl)
      obtain ⟨otherCid, hoth, hupload⟩ := hexact.waiting other hold hid
      exact ⟨otherCid, hoth, (hmem _).mpr (.inl ⟨hupload, hs⟩)⟩
  · intro upload hupload
    rcases (hmem upload).mp hupload with ⟨hold, _⟩ | rfl
    · exact hexact.unverified upload hold
    · exact hunv

theorem Exact.mark (hexact : Exact E s verified) (id : Bytes) :
    Exact E (s.markUploadCompleted id) (id :: verified) := by
  have hrec : records (s.markUploadCompleted id) = records s := by
    rw [records, markUploadCompleted, map_map]
    refine map_congr_left fun row _ => ?_
    rw [Function.comp_apply]
    split
    · rfl
    · rfl
  have hmem (upload : Bytes × Bytes) :
      upload ∈ uploads (s.markUploadCompleted id) ↔ upload ∈ uploads s ∧ upload.1 ≠ id := by
    simp only [uploads, markUploadCompleted, mem_map, mem_filter, decide_eq_true_eq]
    grind
  constructor
  · intro record hrecord hid
    rw [hrec] at hrecord
    rw [mem_cons, not_or] at hid
    obtain ⟨cid, hcid, hupload⟩ := hexact.waiting record hrecord hid.2
    exact ⟨cid, hcid, (hmem _).mpr ⟨hupload, hid.1⟩⟩
  · intro upload hupload
    obtain ⟨hold, hne⟩ := (hmem upload).mp hupload
    rw [mem_cons, not_or]
    exact ⟨hne, hexact.unverified upload hold⟩

theorem Exact.fail (hexact : Exact E s verified) (id : Bytes) (error : String) :
    Exact E (s.recordUploadFailure id error) verified := by
  refine hexact.congr rfl ?_
  rw [uploads, recordUploadFailure, map_map]
  refine map_congr_left fun item _ => ?_
  rw [Function.comp_apply]
  split
  · rfl
  · rfl

theorem Exact.finish {output : SnapshotOutput} {head : HeadRecord} (hexact : Exact E s verified)
    (hreports : (match job.program with
      | .push => decide (job.replication ≠ .verified)
      | .watch => decide (job.replication ≠ .skipped)) = true) :
    Exact E (Device.finish job s output).1 ((stored output head).replicated job ++ verified) := by
  rcases hpro : job.program with _ | _ <;> rcases hrep : job.replication with _ | _ | error <;>
    simp only [hpro, hrep] at hreports
  · simpa [Device.finish, replicated, hpro, hrep] using hexact
  · cases hreports
  · simpa [Device.finish, replicated, hpro, hrep] using hexact
  · cases hreports
  · simpa [Device.finish, replicated, hpro, hrep] using hexact.mark output.record.snapshotId
  · simpa [Device.finish, replicated, hpro, hrep] using hexact.fail output.record.snapshotId error

section

variable (hexact : Exact E h.store h.verified)
include hexact

theorem Exact.retry (item : PendingUpload) (upload : Except String Unit) :
    Exact E (retryItem E h.store item upload) (replicatedBy E h.machine (.retry item upload) ++
      h.verified) := by
  simp only [retryItem, replicatedBy, History.store] at hexact ⊢
  cases retainedUpload E h.machine.store item with
  | error e => exact hexact.fail _ e
  | ok _ =>
    cases upload with
    | error e => exact hexact.fail _ e
    | ok _ => exact hexact.mark _

theorem Exact.call {pid : Nat} {phase phase' : Phase} (hproc : h.machine.procs pid = some (job, phase))
    (hreports : h.reports E (.act (.step pid)) = true) (hcall : Call E job h.store phase s' phase') :
    Exact E s' (phase.replicated job ++ h.verified) := by
  simp only [History.reports, hproc] at hreports
  cases hcall with
  | saved r output _ hsave => exact hexact.save hreports rfl rfl hsave
  | ended output head => exact hexact.finish hreports
  | prepared r output _ set hpre =>
    obtain ⟨_, rfl⟩ := prepareRecoverySet_frame hpre
    exact hexact.congr rfl rfl
  | stored output head _ hset =>
    rw [setHead_eq_ok hset]
    exact hexact.congr rfl rfl
  | counted => exact hexact.congr rfl rfl
  | _ => exact hexact

theorem Exact.adopt {fetched : Fetched} (ids : Text → Bytes) (head : HeadRecord)
    (hnew : h.isNew fetched.record = true) :
    Exact E (adoptSnapshot E ids h.store head fetched).1 h.verified := by
  obtain ⟨tracked, htra⟩ := trackFiles_frame ids fetched.manifest.live h.store
  simp only [adoptSnapshot, htra]
  split
  · exact hexact.congr rfl rfl
  · rename_i saved hsave
    have hsaved : Exact E saved h.verified :=
      hexact.save (s := { h.store with trackedFiles := tracked }) hnew rfl rfl hsave
    split
    · exact hsaved
    · rename_i hset
      rw [setHead_eq_ok hset]
      exact hsaved.congr rfl rfl

theorem Exact.act {action : Action} {m : Machine} (hreports : h.reports E (.act action) = true)
    (hact : act E h.machine action = some m) :
    Exact E m.store (replicatedBy E h.machine action ++ h.verified) := by
  cases action with
  | launch pid job =>
    simp only [Device.act] at hact
    split at hact
    · cases hact
      exact hexact
    · cases hact
  | crash pid => cases hreports
  | retry item upload =>
    simp only [Device.act, Option.ite_none_right_eq_some, Option.some.injEq] at hact
    obtain ⟨_, rfl⟩ := hact
    exact hexact.retry item upload
  | step pid =>
    simp only [Device.act] at hact
    split at hact
    · cases hact
    · cases hact
    · rename_i job phase _ hp
      simp only [replicatedBy, hp]
      split at hact
      · rename_i e hadv
        cases hact
        -- The last step of a capture does not fail.
        cases phase with
        | stored => cases hadv
        | _ => exact hexact
      · rename_i s' phase' hadv
        cases hact
        exact hexact.call hp hreports (call_of_advance hadv)

end

theorem Exact.step (command : Command) (hreports : h.reports E command = true)
    (hexact : Exact E h.store h.verified) :
    Exact E (h.step E command).store (h.step E command).verified := by
  cases command with
  | act action =>
    rw [History.step]
    cases hact : Device.act E h.machine action with
    | none => exact hexact
    | some m => exact hexact.act hreports hact
  | pull ids disk pool dryRun force =>
    show Exact E (cmdPull E ids h.store disk pool dryRun force).1 h.verified
    rcases cmdPull_store with hs | ⟨chosen, fetched, hcho, hfet, hs⟩
    · rw [hs]
      exact hexact
    · rw [hs]
      simp only [History.reports, hcho, hfet] at hreports
      exact hexact.adopt ids chosen.1 hreports
  | repair replication =>
    have hknown : ∀ id ∈ repaired E h.store replication, id ∈ h.verified := by
      simpa [History.reports] using hreports
    have hsa (id : Bytes) : id ∈ repaired E h.store replication ++ h.verified ↔ id ∈ h.verified :=
      ⟨fun hid => (mem_append.mp hid).elim (hknown id) fun hid => hid, mem_append_right _⟩
    constructor
    · intro row hrow hid
      exact hexact.waiting row hrow ((hsa _).not.mp hid)
    · intro item hi
      exact (hsa _).not.mpr (hexact.unverified item hi)

end

def History.start (elsewhere : List Bytes) : History := { machine := boot s, verified := elsewhere }

/-- Along every run in which only the watcher has something to report, and only after a replication,
a snapshot is pending exactly as long as no replication of it was verified. -/
theorem pending_until_verified (elsewhere : List Bytes) (commands : List Command)
    (hsnapshots : s.snapshots = []) (hpending : s.pendingUploads = [])
    (hreports : Runs.Along (History.step E) (fun h command => h.reports E command = true) (.start s elsewhere)
      commands) : PendingExact E (commands.foldl (History.step E) (.start s elsewhere)) := by
  have hst : Exact E s elsewhere := by
    constructor
    · intro record hrec
      rw [records, hsnapshots] at hrec
      cases hrec
    · intro upload hupload
      rw [uploads, hpending] at hupload
      cases hupload
  have hexact := hreports.keeps (I := fun h => Exact E h.store h.verified)
    (fun h command => Exact.step command) hst
  exact hexact.pendingExact

def captureCommands (pid : Nat) (program : Program) (replication : Replication) : List Command :=
  .act (.launch pid { demoJob program (fileTree [1#8]) (pid + 1) with replication := replication }) ::
    replicate 12 (.act (.step pid))

def demoHistory (commands : List Command) : History :=
  commands.foldl (History.step reference) (.start demoStore [])

def History.rows (h : History) : List (Bool × Bool) :=
  h.store.snapshots.map fun row =>
    (h.store.listPendingUploads.any fun item => item.snapshotId == row.record.snapshotId,
      h.verified.contains row.record.snapshotId)

theorem PendingExact.rows {h : History} {E : Externals} (hexact : PendingExact E h) :
    ∀ row ∈ h.rows, row.1 = !row.2 := by
  intro row hrow
  obtain ⟨stored, hst, rfl⟩ := mem_map.mp hrow
  have hlisted := hexact.listed stored hst
  rw [Bool.eq_iff_iff]
  simpa using hlisted

theorem demoHistories_evaluated :
    (demoHistory (captureCommands 0 .push .verified)).rows = [(true, true), (true, true)] ∧
      (demoHistory (captureCommands 0 .watch .skipped)).rows = [(false, false), (false, false)] := by
  decide +kernel

/-- A push whose replication was verified stays pending, and a capture that the watcher did not
replicate is not. -/
theorem push_pending_watch_not :
    ¬ PendingExact reference (demoHistory (captureCommands 0 .push .verified)) ∧
      ¬ PendingExact reference (demoHistory (captureCommands 0 .watch .skipped)) := by
  obtain ⟨hpush, hwatch⟩ := demoHistories_evaluated
  constructor
  · intro hexact
    have hrow := hexact.rows (true, true) (by rw [hpush]; exact mem_cons_self)
    cases hrow
  · intro hexact
    have hrow := hexact.rows (false, false) (by rw [hwatch]; exact mem_cons_self)
    cases hrow

def replicatedThenFailed : List Command :=
  captureCommands 0 .watch .verified ++ captureCommands 1 .push (.failed "offline")

theorem pending_until_verified_two_captures : PendingExact reference (demoHistory replicatedThenFailed) :=
  pending_until_verified reference demoStore [] replicatedThenFailed rfl rfl (by decide +kernel)

end CipherVault.Device
