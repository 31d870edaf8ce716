import CipherVault.Format.Lawful
import CipherVault.Snapshot.Interrupted

/-!
# Snapshot.Recoverable

A publication and the recoveries after it as a whole: which contents they leave, and when a recovery
gets to its end.
-/

namespace CipherVault.Snapshot.Faults

open Crypto Format Faulty List

def afterRecoveries (E : Externals) (C : JournalCodec) (runs : List (List (Fault Cut)))
    (v : Volume) : Volume :=
  runs.foldl (fun v faults => (recoverInterruptedRestore E C faults v).2.2) v

namespace Demo

open Reference

def optionBytes : Codec (Option Bytes) :=
  bytes.list.via Option.toList List.head? (by rintro (_ | _) <;> rfl)

def entry : Codec Entry :=
  (text.pair (optionBytes.pair bytes)).via (fun e => (e.path, e.previousDigest, e.newDigest))
    (fun (a, b, c) => ⟨a, b, c⟩) (fun _ => rfl)

def journal : Codec Journal :=
  (Codec.nat.pair (Codec.bool.pair (Codec.bool.pair entry.list))).via
    (fun j => (j.version, j.publishing, j.committed, j.entries)) (fun (a, b, c, d) => ⟨a, b, c, d⟩)
      (fun _ => rfl)

def journals : JournalCodec where
  write := journal.put
  read bytes := (journal.decode bytes).elim (.error "expected value") .ok
  read_write j := by rw [Codec.decode_put, Option.elim_some]

def twoFiles : Tree where
  node p := if p = locate ['a'] then some (.file [1#8]) else if p = locate ['b'] then
    some (.file [2#8]) else none

def replaced : List DecryptedFile := [⟨['a'], [3#8]⟩, ⟨['b'], [4#8]⟩]

def nowhere : Cut := ⟨0, fun _ => false⟩

def crashAt (n : Nat) (cut : Cut) : List (Fault Cut) := replicate n .none ++ [.crash cut]

def interrupted (faults : List (Fault Cut)) (runs : List (List (Fault Cut))) : Volume :=
  afterRecoveries reference journals runs
    (publishVerifiedFiles reference journals replaced faults ⟨twoFiles, none⟩).2.2

end Demo

variable {E : Externals} {C : JournalCodec} {t₀ : Tree} {files : List DecryptedFile} {strict : Prop}

section

/-- The committed journal is in place, its writing has failed all the same, and the rollback that
follows does not get to its end. -/
def RollbackUnfinished (E : Externals) (C : JournalCodec) (files : List DecryptedFile)
    (faults : List (Fault Cut))
    (v₀ : Volume) : Prop :=
  ∃ staged rest v e rest' v', prepare E C files faults v₀ = (.done staged, rest, v) ∧
    commit E C staged rest v = (.failed e, rest', v') ∧
    v'.stageFile .journal = some (C.write (journalOf E true staged)) ∧
    ∀ rest'' v'', abort E staged e rest' v' ≠ (.done (), rest'', v'')

/-- What a publication into `t₀`, and recoveries after it, can leave. -/
def Left (strict : Prop) (E : Externals) (C : JournalCodec) (t₀ : Tree) (files : List DecryptedFile)
    (v : Volume) :
    Prop :=
  Untouched t₀ v ∨ (Plan t₀ files ∧ Stopped strict E C t₀ files v)

theorem publishVerifiedFiles_left (faults : List (Fault Cut))
    (hfinished : strict → ¬ RollbackUnfinished E C files faults ⟨t₀, none⟩) :
    Left strict E C t₀ files (publishVerifiedFiles E C files faults ⟨t₀, none⟩).2.2 := by
  have hpre : Ending.Leaves (fun staged v => Prepared t₀ files v ∧ staged = files.map (stagedOf t₀))
    (Untouched t₀)
      (prepare E C files faults ⟨t₀, none⟩) := ensures_prepare faults ⟨t₀, none⟩ rfl
  match hres : prepare E C files faults ⟨t₀, none⟩ with
  | (.failed e, rest, v) =>
    rw [hres] at hpre
    rw [publishVerifiedFiles, bind_of_failed hres]
    exact .inl hpre
  | (.crashed, rest, v) =>
    rw [hres] at hpre
    rw [publishVerifiedFiles, bind_of_crashed hres]
    exact .inl hpre
  | (.done staged, rest, v) =>
    rw [hres] at hpre
    obtain ⟨hprep, rfl⟩ := hpre
    rw [publishVerifiedFiles, bind_of_done hres]
    refine .inr ⟨hprep.plan, ?_⟩
    have hfinish : Ending.Leaves (fun _ => Stopped strict E C t₀ files) (Stopped strict E C t₀ files)
        (finish E C (files.map (stagedOf t₀)) rest v) := by
      refine finish_leaves hprep.plan rest hprep.publishing (fun file _ => hprep.content file.place) ?_
      intro hstrict e rest' v' hfailed htrue
      by_contra hnot
      refine hfinished hstrict ⟨_, rest, v, e, rest', v', hres, hfailed, htrue, fun rest'' v'' hd => ?_⟩
      exact hnot ⟨rest'', v'', hd⟩
    rw [state_bind_pure]
    exact hfinish.state

theorem ensures_recoverInterruptedRestore : Ensures (Left strict E C t₀ files) (recoverInterruptedRestore E C)
      (fun _ v => (Left strict E C t₀ files v ∧ v.stage = none) ∧
        (strict → AllOld t₀ files v.tree ∨ AllNew files v.tree)) (Left strict E C t₀ files) := by
  refine ((ensures_inspect _ fun v hv => hv).mono (fun _ h => h) (fun _ _ h => h.1) fun _ h =>
    h).bind fun _ => ?_
  refine ensures_of_state fun v₀ hv₀ => ?_
  rcases hv₀ with hunt | ⟨hp, hsto⟩
  · refine ensures_recoverLocked_untouched.mono (fun v hv => hv ▸ hunt) (fun _ v hv => ?_) fun v hv => .inl hv
    exact ⟨⟨.inl hv.1, hv.2⟩, fun _ => .inl fun file _ => hv.1.content file.place⟩
  · refine (ensures_recoverLocked hp).mono (fun v hv => hv ▸ hsto) (fun _ v hv => ?_) fun v hv =>
      .inr ⟨hp, hv⟩
    exact ⟨⟨.inr ⟨hp, hv.1.stopped⟩, hv.2⟩, hv.1.settled⟩

theorem afterRecoveries_left {v : Volume} (runs : List (List (Fault Cut))) (h : Left strict E C t₀ files v) :
    Left strict E C t₀ files (afterRecoveries E C runs v) := by
  induction runs generalizing v with
  | nil => exact h
  | cons faults runs ih =>
    have hrec := ensures_recoverInterruptedRestore.mono (fun _ h => h) (fun _ _ h => h.1.1)
      (fun _ h => h) faults v h
    exact ih hrec.state

/-- Whatever befalls the publication and the recoveries, one that succeeds leaves all destinations
as they were or all with the new content. -/
theorem restore_all_or_nothing (E : Externals) (C : JournalCodec) (t₀ : Tree) (files : List DecryptedFile)
    (faults : List (Fault Cut)) (runs : List (List (Fault Cut))) (last : List (Fault Cut))
    (hfinished : ¬ RollbackUnfinished E C files faults ⟨t₀, none⟩) {recovered : Bool}
    {rest : List (Fault Cut)}
    {v : Volume} (hlast : recoverInterruptedRestore E C last
      (afterRecoveries E C runs (publishVerifiedFiles E C files faults ⟨t₀, none⟩).2.2) =
        (.done recovered, rest, v)) :
    AllOld t₀ files v.tree ∨ AllNew files v.tree := by
  have hleft : Left (¬ RollbackUnfinished E C files faults ⟨t₀, none⟩) E C t₀ files _ :=
    afterRecoveries_left runs (publishVerifiedFiles_left faults fun h => h)
  have hrec := ensures_recoverInterruptedRestore last _ hleft
  rw [hlast] at hrec
  exact hrec.2 hfinished

theorem interrupted_restore_all_or_nothing :
    ∃ v, (∃ rest, recoverInterruptedRestore reference Demo.journals []
        (Demo.interrupted (Demo.crashAt 21 Demo.nowhere) [Demo.crashAt 8 Demo.nowhere]) =
          (.done true, rest, v)) ∧
      (AllOld Demo.twoFiles Demo.replaced v.tree ∨ AllNew Demo.replaced v.tree) := by
  have hrun : (recoverInterruptedRestore reference Demo.journals []
      (Demo.interrupted (Demo.crashAt 21 Demo.nowhere) [Demo.crashAt 8 Demo.nowhere])).1 = .done true := by
    decide +kernel
  have hla := Ending.eq_of_done hrun
  refine ⟨_, ⟨_, hla⟩, restore_all_or_nothing _ _ _ _ _ [Demo.crashAt 8 Demo.nowhere] [] ?_ hla⟩
  -- The process dies in the publication: no rollback of its own follows.
  rintro ⟨staged, rest, v, e, rest', v', hpre, hcommit, _⟩
  have hcrash : (match prepare reference Demo.journals Demo.replaced (Demo.crashAt 21 Demo.nowhere)
        ⟨Demo.twoFiles, none⟩ with
      | (.done staged, rest, v) => decide ((commit reference Demo.journals staged rest v).1 = .crashed)
      | _ => false) = true := by
    decide +kernel
  rw [hpre] at hcrash
  simp only [hcommit] at hcrash
  cases hcrash

/-- The last sync fails after the committed journal is in place, and the process dies in the
rollback, after one of two files. -/
def unsyncedCommit : List (Fault Cut) :=
  replicate 27 .none ++ .fail Demo.nowhere :: Demo.crashAt 7 Demo.nowhere

theorem unsynced_commit_mixes_contents :
    ∃ v, (∃ rest, recoverInterruptedRestore reference Demo.journals [] (Demo.interrupted unsyncedCommit []) =
        (.done true, rest, v)) ∧
      ¬ (AllOld Demo.twoFiles Demo.replaced v.tree ∨ AllNew Demo.replaced v.tree) := by
  obtain ⟨hd, ha, hb⟩ : (recoverInterruptedRestore reference Demo.journals []
    (Demo.interrupted unsyncedCommit [])).1 =
        .done true ∧
      (recoverInterruptedRestore reference Demo.journals []
        (Demo.interrupted unsyncedCommit [])).2.2.tree.content
        (locate ['a']) = some [3#8] ∧
      (recoverInterruptedRestore reference Demo.journals []
        (Demo.interrupted unsyncedCommit [])).2.2.tree.content
        (locate ['b']) = some [2#8] := by
    decide +kernel
  refine ⟨_, ⟨_, Ending.eq_of_done hd⟩, ?_⟩
  rintro (hold | hnew)
  · have h := hold ⟨['a'], [3#8]⟩ mem_cons_self
    have h := ha.symm.trans h
    exact absurd h (by decide)
  · have h := hnew ⟨['b'], [4#8]⟩ (mem_cons_of_mem _ mem_cons_self)
    have h := hb.symm.trans h
    exact absurd h (by decide)

end

/-! ## Recoveries that are not interrupted -/

section

variable {v₀ v : Volume}

theorem inspect_nil {α : Type} {f : Volume → Except SnapshotError α} {a : α} (h : f v = .ok a) :
    inspect f [] v = (.done a, [], v) := step_nil_of_ok (by rw [h]; rfl)

variable {file : DecryptedFile}

theorem checkUnchanged_ok {t : Tree} (hframe : Frame t₀ files t) (hfile : file ∈ files)
    (hold : ∀ bytes, t₀.content file.place = some bytes → bytes.length ≤ maxFileSize)
    (hnew : file.plaintext.length ≤ maxFileSize) :
    checkUnchanged E t file.place (journalEntry E t₀ file) = .ok () := by
  rw [checkUnchanged]
  split
  · rename_i hexists
    rw [(hframe.writable file hfile).pathExists] at hexists
    obtain ⟨bytes, hb⟩ := Option.isSome_iff_exists.mp hexists
    rcases hframe.either file hfile with heq | heq
    · rw [hb] at heq
      have hdig : fileDigest E t file.place = .ok (E.sha256 bytes) :=
        fileDigest_eq_ok.mpr ⟨bytes, hb, hold bytes heq.symm, rfl⟩
      have hpre : (journalEntry E t₀ file).previousDigest = some (E.sha256 bytes) :=
        congrArg (Option.map E.sha256) heq.symm
      rw [hdig, hpre]
      simp [bind, Except.bind, pure, Except.pure]
    · have hdig : fileDigest E t file.place = .ok (journalEntry E t₀ file).newDigest :=
        fileDigest_eq_ok.mpr ⟨file.plaintext, heq, hnew, rfl⟩
      rw [hdig]
      simp [bind, Except.bind, pure, Except.pure]
  · rfl

theorem replace_nil {source : StageName} {bytes : Bytes} (place : List Component)
    (h : v.stageFile source = some bytes) : ∃ v', replace source place [] v = (.done (), [], v') :=
  ⟨_, step_nil_of_ok (by rw [h])⟩

theorem putBack_nil {previous : Option Bytes} (i : Nat) (place : List Component)
    (hstage : previous.isSome → v.stage ≠ none) :
    ∃ v', putBack i place previous [] v = (.done (), [], v') := by
  cases previous with
  | none => exact ⟨_, rfl⟩
  | some bytes =>
    have hwrite : writeSecret (.rollback i) bytes [] v =
      (.done (), [], v.setStageFile (.rollback i) (some bytes)) :=
      step_nil_of_ok rfl
    have hthere := v.stageFile_setStageFile (.rollback i) (some bytes) (hstage rfl)
    obtain ⟨v', hv'⟩ := replace_nil place hthere
    refine ⟨v', ?_⟩
    exact hv'

theorem rollbackEntry_nil {i : Nat} (hplan : Plan t₀ files) (hbegun : Begun E C t₀ files v₀)
    (hsizes : ∀ file ∈ files, file.plaintext.length ≤ maxFileSize)
    (hfile : files[i]? = some file) (hthere : (t₀.content file.place).isSome →
      (v₀.stageFile (.backup i)).isSome)
    (h : Reverts t₀ files v₀ v) : ∃ v', rollbackEntry E i (journalEntry E t₀ file) [] v =
      (.done (), [], v') := by
  have hmem := mem_of_getElem? hfile
  have hv : validateDestination v.tree (journalEntry E t₀ file).path = .ok file.place :=
    validateDestination_iff.mpr ⟨(validateDestination_iff.mp (hplan.valid file hmem)).1, rfl,
      h.frame.writable file hmem⟩
  have hc := checkUnchanged_ok (E := E) h.frame hmem (hbegun.sizes file hmem) (hsizes file hmem)
  have hbackup : backupOf E (v.stageFile (.backup i)) (journalEntry E t₀ file) =
    .ok (t₀.content file.place) := by
    rw [h.backups i]
    exact (backupOf_eq_ok_iff fun bytes => hbegun.backed i file bytes hfile).mpr
      ⟨rfl, hthere, hbegun.sizes file hmem⟩
  have hs : (t₀.content file.place).isSome → v.stage ≠ none := by
    intro hso hn
    have hbac := h.backups i
    rw [Volume.stageFile, hn] at hbac
    rw [← hbac] at hthere
    cases hthere hso
  obtain ⟨v', hput⟩ := putBack_nil i file.place hs
  refine ⟨v', ?_⟩
  rw [rollbackEntry, bind_of_done (inspect_nil hv), bind_of_done (inspect_nil hc),
    bind_of_done (inspect_nil hbackup), bind_of_done hput]
  exact inspect_nil rfl

theorem rollbackFrom_nil {rest : List DecryptedFile} (hplan : Plan t₀ files) (hbegun : Begun E C t₀ files v₀)
    (hsizes : ∀ file ∈ files, file.plaintext.length ≤ maxFileSize) :
    ∀ {front : List DecryptedFile}, files = front ++ rest → BackupsFrom t₀ front.length rest v₀ →
      Reverts t₀ files v₀ v →
      ∃ v', rollbackFrom E front.length (rest.map (journalEntry E t₀)) [] v = (.done (), [], v') := by
  induction rest with
  | nil => exact fun _ _ _ => ⟨v, rfl⟩
  | cons file rest ih =>
    intro front hfs hbac hv
    obtain ⟨hr, hget, hlen⟩ := next_of_append hfs
    obtain ⟨hf, hla⟩ := backupsFrom_cons.mp hbac
    rw [← hlen] at hla
    obtain ⟨v₁, hv₁⟩ := ih hr hla hv
    have hrev := ensures_rollbackFrom (E := E) hplan hbegun.backed hr [] v hv
    rw [hv₁] at hrev
    rw [hlen] at hv₁
    obtain ⟨v', hv'⟩ := rollbackEntry_nil hplan hbegun hsizes hget hf hrev.1.1
    refine ⟨v', ?_⟩
    rw [map_cons, rollbackFrom, bind_of_done hv₁]
    exact hv'

theorem recoverInterruptedRestore_nil : recoverInterruptedRestore E C [] v = recoverLocked E C [] v := rfl

/-- What a stage must hold for a recovery to get to its end: a journal that is not too large, and
every backup that a rollback needs. -/
def Recoverable (E : Externals) (C : JournalCodec) (t₀ : Tree) (files : List DecryptedFile)
    (v : Volume) : Prop :=
  ∀ bytes, v.stageFile .journal = some bytes → bytes.length ≤ maxJournalSize ∧
    (bytes = journalBytes E C t₀ files false → BackupsFrom t₀ 0 files v)

theorem recoverLocked_nil {journal : Option Journal} (hread : readJournal C v = .ok journal)
    (hundo : ∃ v', undo E journal [] v = (.done (), [], v')) :
    ∃ recovered v', recoverLocked E C [] v = (.done recovered, [], v') := by
  have hins : inspect (fun v => .ok v.stage.isSome) [] v = (.done v.stage.isSome, [], v) := inspect_nil rfl
  rw [recoverLocked, bind_of_done hins]
  split
  · obtain ⟨v', hundo⟩ := hundo
    refine ⟨true, { v' with stage := none }, ?_⟩
    rw [clearStage, bind_of_done (inspect_nil hread), bind_of_done hundo]
    rfl
  · exact ⟨false, v, rfl⟩

theorem Recoverable.completes (hplan : Plan t₀ files)
    (hsizes : ∀ file ∈ files, file.plaintext.length ≤ maxFileSize)
    (hv : Stopped strict E C t₀ files v) (h : Recoverable E C t₀ files v) :
    ∃ recovered v', recoverLocked E C [] v = (.done recovered, [], v') := by
  cases hjou : v.stageFile .journal with
  | none => exact recoverLocked_nil (by rw [readJournal, hjou]) ⟨v, rfl⟩
  | some bytes =>
    obtain ⟨committed, rfl⟩ := hv.journal bytes hjou
    obtain ⟨hs, hbac⟩ := h _ hjou
    have hr : readJournal C v = .ok (some (journalOf E committed (files.map (stagedOf t₀)))) := by
      rw [readJournal, hjou]
      simp only [read_journalBytes]
      rw [if_neg (Nat.not_lt.mpr hs)]
      exact if_neg (not_not.mpr rfl)
    refine recoverLocked_nil hr ?_
    cases committed with
    | true => exact ⟨v, rfl⟩
    | false =>
      have hrol := rollbackFrom_nil hplan hv.toBegun hsizes (nil_append files).symm (hbac rfl)
        (Reverts.refl hv.frame)
      show ∃ v', rollback E (journalOf E false (files.map (stagedOf t₀))) [] v = (.done (), [], v')
      rw [rollback, journalOf, map_map]
      exact hrol

theorem ensures_recoverable (hplan : Plan t₀ files) (hv₀ : Stopped strict E C t₀ files v₀) :
    Ensures (· = v₀) (recoverLocked E C) (fun _ _ => Recoverable E C t₀ files v₀) (fun _ => True) := by
  refine (ensures_inspect _ fun v hv => trivial).bind fun there => ?_
  split
  · refine ((ensures_inspect _ fun v hv => trivial).pre fun v hv => hv.1).bind
      fun journal => ?_
    have hundo : Ensures (fun v => v = v₀ ∧ readJournal C v = .ok journal) (undo E journal)
        (fun _ _ => Recoverable E C t₀ files v₀) (fun _ => True) := by
      refine ensures_of_state fun v ⟨hv, hr⟩ => ?_
      subst hv
      cases journal with
      | none =>
        refine ensures_pure fun _ _ bytes hb => ?_
        rw [readJournal_eq_none hr] at hb
        cases hb
      | some j =>
        obtain ⟨bytes, hb, hs, hj⟩ := readJournal_eq_some hr
        obtain ⟨committed, rfl, hcur⟩ := hv₀.toBegun.readJournal hr
        cases committed with
        | true =>
          refine ensures_pure fun _ _ other ho => ?_
          rw [hb] at ho hcur
          cases ho
          cases hcur
          exact ⟨hs, fun heq => absurd heq journalBytes_committed_ne⟩
        | false =>
          refine (ensures_rollback hplan hv₀.backed false).mono ?_ (fun _ v' hv' => ?_) fun _ _ => trivial
          · rintro v' rfl
            exact Reverts.refl hv₀.frame
          · intro other ho
            rw [hb] at ho
            cases ho
            exact ⟨hs, fun _ => hv'.2⟩
    exact hundo.bind fun _ => ensures_keep
  · rename_i hthere
    refine ensures_pure fun v hv bytes hb => ?_
    obtain ⟨rfl, hso⟩ := hv
    rw [Volume.stageFile, stage_eq_none hthere hso] at hb
    cases hb

/-- After any interruptions, an uninterrupted recovery succeeds and leaves no stage exactly when it
finds the backups that the journal asks for, and a journal that is not too large. -/
theorem recovery_succeeds_iff (E : Externals) (C : JournalCodec) (t₀ : Tree) (files : List DecryptedFile)
    (faults : List (Fault Cut)) (runs : List (List (Fault Cut)))
    (hsizes : ∀ file ∈ files, file.plaintext.length ≤ maxFileSize) :
    (∃ recovered v, recoverInterruptedRestore E C []
        (afterRecoveries E C runs (publishVerifiedFiles E C files faults ⟨t₀, none⟩).2.2) =
          (.done recovered, [], v) ∧
      v.stage = none) ↔
    Recoverable E C t₀ files (afterRecoveries E C runs
      (publishVerifiedFiles E C files faults ⟨t₀, none⟩).2.2) := by
  have hleft : Left False E C t₀ files
      (afterRecoveries E C runs (publishVerifiedFiles E C files faults ⟨t₀, none⟩).2.2) :=
    afterRecoveries_left runs (publishVerifiedFiles_left faults False.elim)
  generalize afterRecoveries E C runs (publishVerifiedFiles E C files faults ⟨t₀, none⟩).2.2 = v at hleft
  constructor
  · rintro ⟨recovered, v', hrun, _⟩ bytes hb
    rw [recoverInterruptedRestore_nil] at hrun
    rcases hleft with hunt | ⟨hp, hsto⟩
    · rw [hunt.journal] at hb
      cases hb
    · have hrec := ensures_recoverable hp hsto [] v rfl
      rw [hrun] at hrec
      exact hrec bytes hb
  · intro hrec
    have hcom : ∃ recovered v', recoverLocked E C [] v = (.done recovered, [], v') := by
      rcases hleft with hunt | ⟨hp, hsto⟩
      · exact recoverLocked_nil (by rw [readJournal, hunt.journal]) ⟨v, rfl⟩
      · exact hrec.completes hp hsizes hsto
    obtain ⟨recovered, v', hrun⟩ := hcom
    have hwhole : recoverInterruptedRestore E C [] v = (.done recovered, [], v') := by
      exact hrun
    have hens := ensures_recoverInterruptedRestore [] v hleft
    rw [hwhole] at hens
    exact ⟨recovered, v', hwhole, hens.1.2⟩

/-- A process dies while it publishes, and the next one while it removes the stage after the
rollback, with the journal left. -/
def journalLeft : List (List (Fault Cut)) := [Demo.crashAt 15 ⟨0, fun name => name == .journal⟩]

theorem journal_without_backups_is_final :
    (recoverInterruptedRestore reference Demo.journals []
      (Demo.interrupted (Demo.crashAt 21 Demo.nowhere) journalLeft)).1 =
      .failed (.invalidInput "Restore backup missing; journal retained") := by
  decide +kernel

theorem interrupted_recovery_succeeds :
    ∃ recovered v, recoverInterruptedRestore reference Demo.journals []
        (Demo.interrupted (Demo.crashAt 21 Demo.nowhere) [Demo.crashAt 8 Demo.nowhere]) =
          (.done recovered, [], v) ∧
      v.stage = none := by
  refine (recovery_succeeds_iff reference Demo.journals Demo.twoFiles Demo.replaced
    (Demo.crashAt 21 Demo.nowhere)
    [Demo.crashAt 8 Demo.nowhere] (by decide)).mpr fun bytes hby => ?_
  obtain ⟨hs, ha, hb⟩ : ((Demo.interrupted (Demo.crashAt 21 Demo.nowhere)
          [Demo.crashAt 8 Demo.nowhere]).stageFile .journal).all (·.length ≤ maxJournalSize) ∧
      ((Demo.interrupted (Demo.crashAt 21 Demo.nowhere) [Demo.crashAt 8 Demo.nowhere]).stageFile
        (.backup 0)).isSome ∧
      ((Demo.interrupted (Demo.crashAt 21 Demo.nowhere) [Demo.crashAt 8 Demo.nowhere]).stageFile
        (.backup 1)).isSome := by
    decide +kernel
  refine ⟨?_, fun _ => backupsFrom_cons.mpr
    ⟨fun _ => ha, backupsFrom_cons.mpr ⟨fun _ => hb, fun i g hg => ?_⟩⟩⟩
  · rw [Demo.interrupted, hby] at hs
    exact of_decide_eq_true hs
  · cases hg

end

end CipherVault.Snapshot.Faults
