import CipherVault.Device.Pull
import CipherVault.Network.Federation
import CipherVault.Snapshot.Publish

/-!
# Device.PullSafety

Which local files a pull without force can cost. The guard of `cmd_pull` looks at the tracked files;
the files that are written are those of the remote snapshot.
-/

namespace CipherVault.Device

open Crypto Format Snapshot Store Network Trust List

/-- Some tracked path leads to the place. -/
def Tracked (s : LocalStore) (p : List Component) : Prop := ∃ row ∈ s.trackedFiles, locate row.1 = p

/-- Paths are tracked under their portable form, as `track_file` stores them. -/
def TracksPortable (s : LocalStore) : Prop := ∀ row ∈ s.trackedFiles, portable row.1 = row.1

/-- The content is, by its digest, that of the place in the snapshot of the active head. -/
def HeadHolds (E : Externals) (s : LocalStore) (p : List Component) (bytes : Bytes) : Prop :=
  ∃ captured path, capturedHashes E s = .ok captured ∧ locate path = p ∧
    captured.lookup path = some (E.sha256 bytes)

/-- Every file is as before, or its content is in the snapshot of the active head. -/
def LosesNothing (E : Externals) (s : LocalStore) (t t' : Tree) : Prop :=
  ∀ p bytes, t.content p = some bytes → t'.content p = some bytes ∨ HeadHolds E s p bytes

/-- The files of the remote snapshot that a pull without force accepts to write. -/
def Overwrites (E : Externals) (s : LocalStore) (d : Disk) (pool : Pool)
    (files : List DecryptedFile) : Prop :=
  ∃ chosen fetched, chooseHead E s pool = .ok chosen ∧ upToDate s d.tree chosen.1 false = false ∧
    pullSnapshot E s d.tree pool chosen false = .ok fetched ∧
    decryptSnapshot E s.metadata.vaultId fetched.epochKey fetched.record.epoch fetched.encryptedManifest
      fetched.chunks = .ok files ∧
    (publishVerifiedFiles E d files).2.isOk = true

/-- An untracked file in the way has the content that is written or the one of the active head. -/
def UntrackedSafe (E : Externals) (s : LocalStore) (t : Tree) (files : List DecryptedFile) : Prop :=
  ∀ file ∈ files, ∀ bytes, ¬ Tracked s file.place → t.content file.place = some bytes →
    bytes = file.plaintext ∨ HeadHolds E s file.place bytes

/-- The tree that a restore begins with: what an interrupted one left is rolled back. -/
def rolledBack (E : Externals) (d : Disk) : Tree := (recoverLocked E d).1.tree

variable {chosen : Authenticated}

section

variable {E : Externals} {s : LocalStore} {t : Tree} {captured : List (Text × Bytes)}

theorem dirtyFiles_nil {tracked : List (Text × Bytes)} (h : dirtyFiles E t captured tracked = .ok []) :
    ∀ row ∈ tracked, isDirty E t captured row.1 = .ok false := by
  induction tracked with
  | nil => intro row hrow; cases hrow
  | cons row rest ih =>
    simp only [dirtyFiles, bind_eq_ok, pure_eq_ok] at h
    obtain ⟨dirty, hdirty, others, hos, hnil⟩ := h
    cases dirty with
    | true => cases hnil
    | false =>
      have hr : others = [] := hnil
      subst hr
      exact forall_mem_cons.mpr ⟨hdirty, ih hos⟩

variable {bytes : Bytes}

theorem isDirty_eq_false {path : Text} (h : isDirty E t captured path = .ok false)
    (hcontent : t.content (locate path) = some bytes) :
    captured.lookup (portable path) = some (E.sha256 bytes) := by
  have hexists : t.pathExists (locate path) = true := by
    by_contra hnot
    rw [content_of_not_pathExists hnot] at hcontent
    cases hcontent
  have hr : t.openRegularFile (locate path) = .ok bytes := openRegularFile_eq_ok.mpr hcontent
  rw [isDirty, if_pos hexists, hr] at h
  simp only [ite_error_eq_ok, Except.ok.injEq, bne_eq_false_iff_eq] at h
  exact h.2

theorem headHolds_of_clean {p : List Component} (h : checkClean E s t = .ok ()) (hportable : TracksPortable s)
    (htracked : Tracked s p) (hcontent : t.content p = some bytes) : HeadHolds E s p bytes := by
  simp only [checkClean, bind_eq_ok, ite_error_eq_ok, not_not] at h
  obtain ⟨captured, hcap, dirty, hdirty, rfl, _⟩ := h
  obtain ⟨row, hrow, rfl⟩ := htracked
  have hlisted : row ∈ s.listTrackedFiles := (mem_insertionSort _).mpr hrow
  have hl := isDirty_eq_false (dirtyFiles_nil hdirty row hlisted) hcontent
  rw [hportable row hrow] at hl
  exact ⟨captured, row.1, hcap, rfl, hl⟩

theorem clean_of_pullSnapshot {pool : Pool} {fetched : Fetched}
    (h : pullSnapshot E s t pool chosen false = .ok fetched) : checkClean E s t = .ok () := by
  simp only [pullSnapshot, Bool.false_eq_true, if_false, bind_eq_ok] at h
  obtain ⟨⟨⟩, hclean, _⟩ := h
  exact hclean

end

section

variable {E : Externals} {ids : Text → Bytes} {s : LocalStore} {d : Disk} {pool : Pool}

variable {files : List DecryptedFile}

theorem Overwrites.unique {files' : List DecryptedFile} (h : Overwrites E s d pool files)
    (h' : Overwrites E s d pool files') : files = files' := by
  obtain ⟨chosen, fetched, hcho, _, hfet, hfs, _⟩ := h
  obtain ⟨chosen', fetched', hcho', _, hfet', hfs', _⟩ := h'
  rw [hcho] at hcho'
  cases hcho'
  rw [hfet] at hfet'
  cases hfet'
  rw [hfs] at hfs'
  cases hfs'
  rfl

theorem applySnapshot_disk (head : HeadRecord) (fetched : Fetched) :
    (applySnapshot E ids s d head fetched).2.1 =
      (restoreSnapshot E d s.metadata.vaultId fetched.epochKey fetched.record.epoch fetched.encryptedManifest
        fetched.chunks).1 := by
  rw [applySnapshot]
  split
  · rename_i h
    rw [h]
  · rename_i h
    rw [h]
    split
    · rfl
    · rfl

theorem pullSnapshot_upToDate (hchosen : chooseHead E s pool = .ok chosen)
    (hupToDate : upToDate s d.tree chosen.1 false = true) (files : List DecryptedFile) :
    ¬ Overwrites E s d pool files := by
  rintro ⟨chosen', _, hcho', hnot, _⟩
  rw [hchosen] at hcho'
  cases hcho'
  rw [hupToDate] at hnot
  cases hnot

/-- What a pull accepts to write is what the restore decrypts and publishes. -/
theorem overwrites_iff {fetched : Fetched} (hchosen : chooseHead E s pool = .ok chosen)
    (hnew : upToDate s d.tree chosen.1 false = false)
    (hfetched : pullSnapshot E s d.tree pool chosen false = .ok fetched) :
    Overwrites E s d pool files ↔
      decryptSnapshot E s.metadata.vaultId fetched.epochKey fetched.record.epoch fetched.encryptedManifest
        fetched.chunks = .ok files ∧ (publishVerifiedFiles E d files).2.isOk = true := by
  constructor
  · rintro ⟨chosen', fetched', hok, _, hfetch, hwrites⟩
    rw [hchosen] at hok
    cases hok
    rw [hfetched] at hfetch
    cases hfetch
    exact hwrites
  · rintro ⟨hfiles, hpub⟩
    exact ⟨chosen, fetched, hchosen, hnew, hfetched, hfiles, hpub⟩

theorem cmdPull_disk (ids : Text → Bytes) :
    (∃ files, Overwrites E s d pool files ∧
      Writes (rolledBack E d) (cmdPull E ids s d pool false false).2.1.tree files) ∨
      (∀ files, ¬ Overwrites E s d pool files) ∧
        ((∀ p, (cmdPull E ids s d pool false false).2.1.tree.content p = d.tree.content p) ∨
          ∀ p, (cmdPull E ids s d pool false false).2.1.tree.content p = (rolledBack E d).content p) := by
  rw [cmdPull]
  cases hcho : chooseHead E s pool with
  | error e =>
    refine .inr ⟨fun files => ?_, .inl fun p => rfl⟩
    rintro ⟨_, _, hok, _⟩
    rw [hcho] at hok
    cases hok
  | ok chosen =>
    simp only [Bool.false_eq_true, if_false]
    cases hupT : upToDate s d.tree chosen.1 false with
    | true => exact .inr ⟨pullSnapshot_upToDate hcho hupT, .inl fun p => rfl⟩
    | false =>
      cases hfet : pullSnapshot E s d.tree pool chosen false with
      | error e =>
        refine .inr ⟨fun files => ?_, .inl fun p => rfl⟩
        rintro ⟨chosen', _, hok, _, hfetch, _⟩
        rw [hcho] at hok
        cases hok
        rw [hfet] at hfetch
        cases hfetch
      | ok fetched =>
        simp only [Bool.false_eq_true, if_false, applySnapshot_disk, restoreSnapshot]
        simp only [overwrites_iff hcho hupT hfet]
        cases hfs : decryptSnapshot E s.metadata.vaultId fetched.epochKey fetched.record.epoch
            fetched.encryptedManifest fetched.chunks with
        | error e => exact .inr ⟨fun files h => (by cases h.1), .inl fun p => rfl⟩
        | ok files =>
          have hspec := publishVerifiedFiles_spec (E := E) d files
          simp only
          cases hpub : publishVerifiedFiles E d files with
          | mk d' result =>
            rw [hpub] at hspec
            cases result with
            | ok places => exact .inl ⟨files, ⟨rfl, by rw [hpub]; rfl⟩, hspec⟩
            | error e =>
              refine .inr ⟨fun files' h => ?_, .inr hspec⟩
              cases h.1
              rw [hpub] at h
              cases h.2

theorem rolledBack_eq (hstage : d.stage = none) : rolledBack E d = d.tree := by
  rw [rolledBack, recoverLocked, hstage]

/-- The guard looks at the tree before an interrupted restore is rolled back. What a pull that writes
then keeps of the tree after it is up to the untracked files and those that the rollback put back. -/
theorem losesNothing_after_rollback_iff (ids : Text → Bytes) (hportable : TracksPortable s)
    (h : Overwrites E s d pool files) :
    LosesNothing E s (rolledBack E d) (cmdPull E ids s d pool false false).2.1.tree ↔
      ∀ file ∈ files, ∀ bytes, (rolledBack E d).content file.place = some bytes →
        ¬ (Tracked s file.place ∧ d.tree.content file.place = some bytes) →
          bytes = file.plaintext ∨ HeadHolds E s file.place bytes := by
  rcases cmdPull_disk ids with ⟨files', h', hwrites⟩ | ⟨hn, -⟩
  · cases h.unique h'
    constructor
    · intro hloses file hf bytes hcon _
      rcases hloses file.place bytes hcon with hk | hh
      · rw [hwrites.written file hf] at hk
        exact .inl (Option.some.inj hk).symm
      · exact .inr hh
    · intro hsafe p bytes hcon
      by_cases hp : p ∈ files.map DecryptedFile.place
      · obtain ⟨file, hf, rfl⟩ := mem_map.mp hp
        by_cases hguarded : Tracked s file.place ∧ d.tree.content file.place = some bytes
        · obtain ⟨_, _, _, _, hfet, _⟩ := h
          exact .inr (headHolds_of_clean (clean_of_pullSnapshot hfet) hportable hguarded.1 hguarded.2)
        · rcases hsafe file hf bytes hcon hguarded with rfl | hh
          · exact .inl (hwrites.written file hf)
          · exact .inr hh
      · exact .inl ((hwrites.kept p hp).trans hcon)
  · exact absurd h (hn files)

/-- A pull without force and without an interrupted restore loses no local content exactly when
every untracked file in its way has the content that is written, or its content in the snapshot of
the active head. -/
theorem cmdPull_losesNothing_iff (E : Externals) (ids : Text → Bytes) {s : LocalStore} {d : Disk}
    (pool : Pool)
    (hstage : d.stage = none) (hportable : TracksPortable s) :
    LosesNothing E s d.tree (cmdPull E ids s d pool false false).2.1.tree ↔
      ∀ files, Overwrites E s d pool files → UntrackedSafe E s d.tree files := by
  have hback : rolledBack E d = d.tree := rolledBack_eq hstage
  rcases cmdPull_disk ids with ⟨files, hfs, -⟩ | ⟨hn, hs⟩
  · have hiff := losesNothing_after_rollback_iff ids hportable hfs
    rw [hback] at hiff
    rw [hiff]
    constructor
    · intro hsafe files' hfs' file hf bytes huntracked hcon
      cases hfs.unique hfs'
      exact hsafe file hf bytes hcon fun hguarded => huntracked hguarded.1
    · intro hsafe file hf bytes hcon hnot
      exact hsafe files hfs file hf bytes (fun htracked => hnot ⟨htracked, hcon⟩) hcon
  · rw [hback, or_self] at hs
    constructor
    · exact fun _ files hfs => absurd hfs (hn files)
    · exact fun _ p bytes hcon => .inl ((hs p).trans hcon)

/-! ## A vault on a second machine -/

def overwrittenFiles (E : Externals) (s : LocalStore) (d : Disk) (pool : Pool) :
    Except String (List DecryptedFile) := do
  let chosen ← chooseHead E s pool
  let fetched ← pullSnapshot E s d.tree pool chosen false
  (decryptSnapshot E s.metadata.vaultId fetched.epochKey fetched.record.epoch fetched.encryptedManifest
    fetched.chunks).mapError SnapshotError.message

theorem Overwrites.files_eq (h : Overwrites E s d pool files) : overwrittenFiles E s d pool = .ok files := by
  obtain ⟨chosen, fetched, hcho, _, hfet, hfs, _⟩ := h
  rw [overwrittenFiles, hcho, ok_bind, hfet, ok_bind, mapError_eq_ok]
  exact hfs

end

section

def secondStore : LocalStore := { demoStore with trackedFiles := [] }

def secondDisk (bytes : Bytes) : Disk := { tree := fileTree bytes, stage := none }

def secondPool : Pool := .ofOperator (demoOperator (fileTree [1#8]))

theorem secondStore_tracksPortable : TracksPortable secondStore := by
  nofun

set_option maxRecDepth 100000 in
/-- What the pull writes, and that it writes it over the file; in one evaluation of the pool. -/
theorem secondPool_evaluated : overwrittenFiles reference secondStore (secondDisk [1#8]) secondPool =
      .ok [{ relativePath := ['a'], plaintext := [1#8] }] ∧
    (cmdPull reference (fun _ => []) secondStore (secondDisk [2#8]) secondPool false false).2.1.tree.content
      [.normal ['a']] = some [1#8] := by
  decide +kernel

theorem cmdPull_losesNothing_iff_same_content :
    LosesNothing reference secondStore (fileTree [1#8])
      (cmdPull reference (fun _ => []) secondStore (secondDisk [1#8]) secondPool false false).2.1.tree := by
  have hs : (secondDisk [1#8]).stage = none := rfl
  refine (cmdPull_losesNothing_iff reference (fun _ => []) secondPool hs secondStore_tracksPortable).mpr ?_
  intro files hove file hf bytes _ hcon
  have heq := hove.files_eq
  rw [secondPool_evaluated.1] at heq
  cases heq
  rw [mem_singleton.mp hf] at hcon ⊢
  cases hcon
  exact .inl rfl

/-- The local file `a` is the byte `2` and not tracked; the pull replaces it by the byte `1`. -/
theorem pull_overwrites_untracked_file :
    (secondDisk [2#8]).stage = none ∧ TracksPortable secondStore ∧
      (secondDisk [2#8]).tree.content [.normal ['a']] = some [2#8] ∧
      (cmdPull reference (fun _ => []) secondStore (secondDisk [2#8]) secondPool false false).2.1.tree.content
        [.normal ['a']] = some [1#8] ∧
      ¬ LosesNothing reference secondStore (fileTree [2#8])
        (cmdPull reference (fun _ => []) secondStore (secondDisk [2#8]) secondPool false false).2.1.tree := by
  have hafter := secondPool_evaluated.2
  refine ⟨rfl, secondStore_tracksPortable, rfl, hafter, fun hloses => ?_⟩
  rcases hloses [.normal ['a']] [2#8] rfl with hk | ⟨captured, path, hcap, _, hl⟩
  · rw [hafter] at hk
    exact absurd hk (by decide)
  · -- Without an active head there is no snapshot that holds the file.
    cases hcap
    cases hl

end

end CipherVault.Device
