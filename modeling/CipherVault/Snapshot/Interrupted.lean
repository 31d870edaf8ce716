import CipherVault.Snapshot.Faults
import CipherVault.Snapshot.Publish

/-!
# Snapshot.Interrupted

What an interrupted publication of `files` and the recoveries after it leave in a directory that had
the tree `t₀`.
-/

namespace CipherVault.Snapshot.Faults

open Crypto Format Faulty Option Nat Function Snapshot.Tree List

variable {bytes : Bytes}

section

variable {α : Type} {P S : Volume → Prop}

theorem ensures_inspect (f : Volume → Except SnapshotError α) (hstop : ∀ v, P v → S v) :
    Ensures P (inspect f) (fun a v => P v ∧ f v = .ok a) S := by
  refine ensures_step (fun v a v' hv hact => ?_) hstop (fun v _ hv => hstop v hv)
  obtain ⟨b, hb, heq⟩ := map_eq_ok.mp hact
  cases heq
  exact ⟨hv, hb⟩

theorem ensures_syncDirectory (hstop : ∀ v, P v → S v) : Ensures P syncDirectory (fun _ => P) S :=
  (ensures_inspect _ hstop).mono (fun _ h => h) (fun _ _ h => h.1) (fun _ h => h)

variable {Q : Volume → Prop} {source : StageName}

section

variable (hstop : ∀ v, P v → S v)
include hstop

theorem ensures_writeSecret {name : StageName}
    (hcutOff : ∀ v content, P v → S (v.setStageFile name (some content)))
    (hdone : ∀ v, P v → Q (v.setStageFile name (some bytes))) :
    Ensures P (writeSecret name bytes) (fun _ => Q) S := by
  refine ensures_step (fun v a v' hv hact => ?_) hstop (fun v cut hv => ?_)
  · cases hact
    exact hdone v hv
  · split
    · exact hstop v hv
    · exact hcutOff v _ hv

theorem ensures_move {error : SnapshotError} {move : Volume → Bytes → Volume}
    (hdone : ∀ v bytes, P v → v.stageFile source = some bytes → Q (move v bytes)) :
    Ensures P (step (fun v =>
        match v.stageFile source with
        | some bytes => .ok ((), move v bytes)
        | none => .error error) (fun _ v => v) ioFailure : Action Unit) (fun _ => Q) S := by
  refine ensures_step (fun v a v' hv hact => ?_) hstop (fun v _ hv => hstop v hv)
  split at hact
  · rename_i bytes hb
    cases hact
    exact hdone v bytes hv hb
  · cases hact

theorem ensures_renameStage {name : StageName}
    (hdone : ∀ v bytes, P v → v.stageFile source = some bytes →
      Q ((v.setStageFile name (some bytes)).setStageFile source none)) :
    Ensures P (renameStage source name) (fun _ => Q) S :=
  ensures_move hstop hdone

variable {place : List Component}

theorem ensures_replace
    (hdone : ∀ v bytes, P v → v.stageFile source = some bytes →
      Q { v.setStageFile source none with tree := v.tree.setNode place (some (.file bytes)) }) :
    Ensures P (replace source place) (fun _ => Q) S :=
  ensures_move hstop hdone

theorem ensures_removeIfThere
    (hthere : ∀ v, P v → v.tree.pathExists place = true → Q { v with tree := v.tree.setNode place none })
    (hgone : ∀ v, P v → ¬ v.tree.pathExists place = true → Q v) :
    Ensures P (removeIfThere place) (fun _ => Q) S := by
  refine ensures_step (fun v a v' hv hact => ?_) hstop (fun v _ hv => hstop v hv)
  cases hact
  split
  · rename_i hexists
    exact hthere v hv hexists
  · rename_i hexists
    exact hgone v hv hexists

end

theorem ensures_removeStage (hcutOff : ∀ v kept, P v → S (v.keepOnly kept))
    (hdone : ∀ v, P v → Q { v with stage := none }) (hstop : ∀ v, P v → S v) :
    Ensures P removeStage (fun _ => Q) S := by
  refine ensures_step (fun v a v' hv hact => ?_) hstop (fun v cut hv => hcutOff v cut.kept hv)
  cases hact
  exact hdone v hv

end

namespace Volume

variable (v : Volume) (name other : StageName) (content : Option Bytes)

theorem stageFile_setStageFile_of_ne (h : other ≠ name) :
    (v.setStageFile name content).stageFile other = v.stageFile other := by
  rw [stageFile, stageFile, setStageFile]
  cases v.stage with
  | none => rfl
  | some files => exact update_of_ne h content files

theorem stageFile_setStageFile_none : (v.setStageFile name none).stageFile name = none := by
  rw [stageFile, setStageFile]
  cases v.stage with
  | none => rfl
  | some files => exact update_self name none files

theorem stageFile_setStageFile_self
    (h : (v.setStageFile name content).stageFile name = some bytes) : content = some bytes := by
  rw [stageFile, setStageFile] at h
  cases hs : v.stage with
  | none =>
    rw [hs] at h
    cases h
  | some files =>
    rw [hs] at h
    have h : update files name content name = some bytes := h
    rwa [update_self] at h

theorem stageFile_setStageFile (h : v.stage ≠ none) :
    (v.setStageFile name content).stageFile name = content := by
  rw [stageFile, setStageFile]
  cases hs : v.stage with
  | none => exact absurd hs h
  | some files => exact update_self name content files

theorem stageFile_keepOnly (kept : StageName → Bool) :
    (v.keepOnly kept).stageFile name = v.stageFile name ∨ (v.keepOnly kept).stageFile name = none := by
  rw [stageFile, stageFile, keepOnly]
  cases v.stage with
  | none => exact .inr rfl
  | some files =>
    by_cases hk : kept name = true
    · exact .inl (if_pos hk)
    · exact .inr (if_neg hk)

end Volume

variable {t₀ : Tree} {files : List DecryptedFile}

/-! ## A tree in which destinations are written -/

section

variable {t : Tree}

/-- Every destination holds what it held before, or what is published; no other file has changed. -/
structure Frame (t₀ : Tree) (files : List DecryptedFile) (t : Tree) : Prop where
  writable : ∀ file ∈ files, Writable t file.place
  either : ∀ file ∈ files, t.content file.place = t₀.content file.place ∨
    t.content file.place = some file.plaintext
  kept : ∀ p, p ∉ files.map DecryptedFile.place → t.content p = t₀.content p

theorem frame_of_plan (hplan : Plan t₀ files) : Frame t₀ files t₀ where
  writable file hfile := (validateDestination_iff.mp (hplan.valid file hfile)).2.2
  either _ _ := .inl rfl
  kept _ _ := rfl

theorem Frame.setNode {file : DecryptedFile} (h : Frame t₀ files t) (hplan : Plan t₀ files)
    (hfile : file ∈ files)
    {content : Option Bytes} (hcontent : content = t₀.content file.place ∨ content = some file.plaintext) :
    Frame t₀ files (t.setNode file.place (content.map .file)) := by
  have hnode : content.map Node.file = none ∨ ∃ bytes, content.map Node.file = some (.file bytes) := by
    cases content with
    | none => exact .inl rfl
    | some bytes => exact .inr ⟨bytes, rfl⟩
  refine ⟨fun g hg => ?_, fun g hg => ?_, fun p hp => ?_⟩
  · by_cases heq : g.place = file.place
    · rw [heq]
      exact (heq ▸ h.writable g hg).setNode_self hnode
    · exact (h.writable g hg).setNode (hplan.apart_places hfile hg (Ne.symm heq)).1 _
  · by_cases heq : g.place = file.place
    · rw [heq, content_setNode_self, hplan.place_inj hg hfile heq]
      exact hcontent
    · rw [content_congr (node_setNode_of_ne heq _)]
      exact h.either g hg
  · have hne : p ≠ file.place := by
      rintro rfl
      exact hp (mem_map_of_mem hfile)
    rw [content_congr (node_setNode_of_ne hne _)]
    exact h.kept p hp

end

variable {E : Externals} {v₀ v : Volume} {file : DecryptedFile}

section

def stagedOf (t : Tree) (file : DecryptedFile) : Staged :=
  { file := file, place := file.place, backup := t.content file.place }

def journalEntry (E : Externals) (t : Tree) (file : DecryptedFile) : Entry := (stagedOf t file).entry E

/-- A backup has the content before the restore. -/
def Backed (t₀ : Tree) (files : List DecryptedFile) (v : Volume) : Prop :=
  ∀ (i : Nat) file bytes, files[i]? = some file → v.stageFile (.backup i) = some bytes →
    t₀.content file.place = some bytes

/-- The files have their content from before the restore. -/
def AllOld (t₀ : Tree) (files : List DecryptedFile) (t : Tree) : Prop :=
  ∀ file ∈ files, t.content file.place = t₀.content file.place

/-- The files have their new content. -/
def AllNew (files : List DecryptedFile) (t : Tree) : Prop :=
  ∀ file ∈ files, t.content file.place = some file.plaintext

/-- What a rollback that started in `v₀` has done so far. -/
structure Reverts (t₀ : Tree) (files : List DecryptedFile) (v₀ v : Volume) : Prop where
  frame : Frame t₀ files v.tree
  back : ∀ file ∈ files, v.tree.content file.place = t₀.content file.place ∨
    v.tree.content file.place = v₀.tree.content file.place
  journal : v.stageFile .journal = v₀.stageFile .journal
  backups : ∀ i, v.stageFile (.backup i) = v₀.stageFile (.backup i)

theorem Reverts.refl (h : Frame t₀ files v.tree) : Reverts t₀ files v v :=
  ⟨h, fun _ _ => .inr rfl, rfl, fun _ => rfl⟩

theorem Reverts.setStageFile (h : Reverts t₀ files v₀ v) (i : Nat) (content : Option Bytes) :
    Reverts t₀ files v₀ (v.setStageFile (.rollback i) content) where
  frame := h.frame
  back := h.back
  journal := (v.stageFile_setStageFile_of_ne (.rollback i) .journal content nofun).trans h.journal
  backups j := (v.stageFile_setStageFile_of_ne (.rollback i) (.backup j) content nofun).trans (h.backups j)

variable {rest : List DecryptedFile}

theorem Reverts.putBack {v' : Volume} (h : Reverts t₀ files v₀ v) (hplan : Plan t₀ files)
    (hfile : file ∈ files)
    (htree : v'.tree = v.tree.setNode file.place ((t₀.content file.place).map .file))
    (hstage : v'.stage = v.stage) :
    Reverts t₀ files v₀ v' where
  frame := by
    rw [htree]
    exact h.frame.setNode hplan hfile (.inl rfl)
  back g hg := by
    rw [htree]
    by_cases heq : g.place = file.place
    · left
      rw [heq]
      exact content_setNode_self v.tree file.place _
    · rw [content_congr (node_setNode_of_ne heq _)]
      exact h.back g hg
  journal := by
    rw [Volume.stageFile, hstage]
    exact h.journal
  backups i := by
    rw [Volume.stageFile, hstage]
    exact h.backups i

theorem backupOf_eq_ok_iff {backup previous : Option Bytes}
    (hbacked : ∀ bytes, backup = some bytes → t₀.content file.place = some bytes) :
    backupOf E backup (journalEntry E t₀ file) = .ok previous ↔
      t₀.content file.place = previous ∧ ((t₀.content file.place).isSome → backup.isSome) ∧
        ∀ bytes, t₀.content file.place = some bytes → bytes.length ≤ maxFileSize := by
  have hdig : (journalEntry E t₀ file).previousDigest = (t₀.content file.place).map E.sha256 := rfl
  cases hcon : t₀.content file.place with
  | none => simp [backupOf, hdig, hcon]
  | some old =>
    cases backup with
    | none => simp [backupOf, hdig, hcon]
    | some bytes =>
      cases (hbacked bytes rfl).symm.trans hcon
      simp [backupOf, hdig, hcon, ite_error_eq_ok, and_comm]

/-- Every file that existed has its backup. -/
def BackupsFrom (t₀ : Tree) (index : Nat) (files : List DecryptedFile) (v : Volume) : Prop :=
  ∀ (i : Nat) file, files[i]? = some file → (t₀.content file.place).isSome →
    (v.stageFile (.backup (index + i))).isSome

theorem backupsFrom_cons {index : Nat} : BackupsFrom t₀ index (file :: rest) v ↔
      ((t₀.content file.place).isSome → (v.stageFile (.backup index)).isSome) ∧
      BackupsFrom t₀ (index + 1) rest v := by
  constructor
  · intro h
    refine ⟨h 0 file rfl, fun i g hg => ?_⟩
    rw [add_right_comm, add_assoc]
    exact h (i + 1) g hg
  · rintro ⟨hf, hr⟩ i g hg
    cases i with
    | zero =>
      cases hg
      exact hf
    | succ i =>
      have h := hr i g hg
      rwa [add_right_comm, add_assoc] at h

variable {done : List DecryptedFile}

theorem ensures_putBack {i : Nat} (hplan : Plan t₀ files) (hfile : file ∈ files) :
    Ensures (fun v => Reverts t₀ files v₀ v ∧ AllOld t₀ done v.tree)
    (putBack i file.place (t₀.content file.place))
      (fun _ v => Reverts t₀ files v₀ v ∧ AllOld t₀ (file :: done) v.tree) (Reverts t₀ files v₀) := by
  -- The destinations that are back already stay so.
  have hold : ∀ (v : Volume) t, AllOld t₀ done v.tree →
    t = v.tree.setNode file.place ((t₀.content file.place).map .file) →
      AllOld t₀ (file :: done) t := by
    rintro v t hv rfl g hg
    by_cases heq : g.place = file.place
    · rw [heq]
      exact content_setNode_self v.tree file.place _
    · rw [content_congr (node_setNode_of_ne heq _)]
      rcases mem_cons.mp hg with rfl | hg
      · exact absurd rfl heq
      · exact hv g hg
  cases hcon : t₀.content file.place with
  | some bytes =>
    have hwrite : Ensures (fun v => Reverts t₀ files v₀ v ∧ AllOld t₀ done v.tree)
      (writeSecret (.rollback i) bytes)
        (fun _ v => (Reverts t₀ files v₀ v ∧ AllOld t₀ done v.tree) ∧
          ∀ content, v.stageFile (.rollback i) = some content → content = bytes) (Reverts t₀ files v₀) := by
      refine ensures_writeSecret (fun v hv => hv.1) (fun v content hv => hv.1.setStageFile i _) fun v hv => ?_
      refine ⟨⟨hv.1.setStageFile i _, hv.2⟩, fun content h => ?_⟩
      cases v.stageFile_setStageFile_self _ _ h
      rfl
    refine hwrite.bind fun _ => ensures_replace (fun v hv => hv.1.1) fun v content hv h => ?_
    cases hv.2 content h
    have htree : v.tree.setNode file.place (some (.file bytes)) =
        v.tree.setNode file.place ((t₀.content file.place).map .file) := by rw [hcon]; rfl
    exact ⟨(hv.1.1.setStageFile i none).putBack hplan hfile htree rfl, hold v _ hv.1.2 htree⟩
  | none =>
    refine ensures_removeIfThere (fun v hv => hv.1) (fun v hv _ => ?_) fun v hv hexists => ?_
    · have htree : v.tree.setNode file.place none =
        v.tree.setNode file.place ((t₀.content file.place).map .file) := by
        rw [hcon]; rfl
      exact ⟨hv.1.putBack hplan hfile htree rfl, hold v _ hv.2 htree⟩
    · refine ⟨hv.1, fun g hg => ?_⟩
      rcases mem_cons.mp hg with rfl | hg
      · rw [hcon]
        exact content_of_not_pathExists hexists
      · exact hv.2 g hg

theorem ensures_rollbackEntry {i : Nat} (hplan : Plan t₀ files) (hbacked : Backed t₀ files v₀)
    (hfile : files[i]? = some file) :
    Ensures (fun v => Reverts t₀ files v₀ v ∧ AllOld t₀ done v.tree)
    (rollbackEntry E i (journalEntry E t₀ file))
      (fun _ v => (Reverts t₀ files v₀ v ∧ AllOld t₀ (file :: done) v.tree) ∧
        ((t₀.content file.place).isSome → (v₀.stageFile (.backup i)).isSome)) (Reverts t₀ files v₀) := by
  refine (ensures_inspect _ fun v hv => hv.1).bind fun place => ?_
  refine ensures_of_fact _ (fun v hv => (validateDestination_eq_ok hv.2).2) ?_
  rintro rfl
  refine (ensures_inspect _ fun v hv => hv.1.1).bind fun _ => ?_
  refine (ensures_inspect _ fun v hv => hv.1.1.1).bind fun previous => ?_
  refine ensures_of_fact _ (fun v hv => (backupOf_eq_ok_iff fun bytes => hbacked i file bytes hfile).mp
    (hv.1.1.1.1.backups i ▸ hv.2)) ?_
  rintro ⟨rfl, hthere, -⟩
  refine ((ensures_putBack hplan (mem_of_getElem? hfile)).pre fun v hv => hv.1.1.1).bind fun _ => ?_
  exact (ensures_syncDirectory fun v hv => hv.1).mono (fun _ h => h) (fun _ _ h => ⟨h, hthere⟩) fun _ h => h

theorem next_of_append {front : List DecryptedFile} (h : files = front ++ file :: rest) :
    files = (front ++ [file]) ++ rest ∧ files[front.length]? = some file ∧
      (front ++ [file]).length = front.length + 1 := by
  subst h
  refine ⟨?_, ?_, length_append⟩
  · rw [append_assoc, singleton_append]
  · rw [List.getElem?_append_right le_rfl, Nat.sub_self, List.getElem?_cons_zero]

theorem ensures_rollbackFrom (hplan : Plan t₀ files) (hbacked : Backed t₀ files v₀) :
    ∀ {front : List DecryptedFile}, files = front ++ rest →
      Ensures (Reverts t₀ files v₀) (rollbackFrom E front.length (rest.map (journalEntry E t₀)))
        (fun _ v => (Reverts t₀ files v₀ v ∧ AllOld t₀ rest v.tree) ∧ BackupsFrom t₀ front.length rest v₀)
        (Reverts t₀ files v₀) := by
  induction rest with
  | nil => exact fun _ => ensures_pure fun v hv => ⟨⟨hv, nofun⟩, nofun⟩
  | cons file rest ih =>
    intro front hfs
    obtain ⟨hr, hget, hlen⟩ := next_of_append hfs
    have hn := ih hr
    rw [hlen] at hn
    refine hn.bind fun _ => ensures_of_fact _ (fun v hv => hv.2) fun hla => ?_
    refine (ensures_rollbackEntry hplan hbacked hget).mono (fun v hv => hv.1) (fun _ v hv => ?_) fun _ h => h
    exact ⟨hv.1, backupsFrom_cons.mpr ⟨hv.2, hla⟩⟩

theorem ensures_rollback (hplan : Plan t₀ files) (hbacked : Backed t₀ files v₀) (committed : Bool) :
    Ensures (Reverts t₀ files v₀) (rollback E (journalOf E committed (files.map (stagedOf t₀))))
      (fun _ v => (Reverts t₀ files v₀ v ∧ AllOld t₀ files v.tree) ∧ BackupsFrom t₀ 0 files v₀)
      (Reverts t₀ files v₀) := by
  have h := ensures_rollbackFrom (E := E) hplan hbacked (nil_append files).symm
  rw [rollback, journalOf, List.map_map]
  exact h

end

variable {C : JournalCodec} {strict : Prop}

/-! ## States in which a process has stopped -/

section

def journalBytes (E : Externals) (C : JournalCodec) (t₀ : Tree) (files : List DecryptedFile)
    (committed : Bool) : Bytes :=
  C.write (journalOf E committed (files.map (stagedOf t₀)))

theorem read_journalBytes (committed : Bool) :
    C.read (journalBytes E C t₀ files committed) = .ok (journalOf E committed (files.map (stagedOf t₀))) :=
  C.read_write _

/-- The publication has not begun: no file has changed and there is no journal. -/
structure Untouched (t₀ : Tree) (v : Volume) : Prop where
  journal : v.stageFile .journal = none
  content : ∀ p, v.tree.content p = t₀.content p

/-- The publication has begun, or is over. -/
structure Begun (E : Externals) (C : JournalCodec) (t₀ : Tree) (files : List DecryptedFile)
    (v : Volume) : Prop where
  sizes : ∀ file ∈ files, ∀ bytes, t₀.content file.place = some bytes → bytes.length ≤ maxFileSize
  frame : Frame t₀ files v.tree
  backed : Backed t₀ files v
  journal : ∀ bytes, v.stageFile .journal = some bytes →
    ∃ committed, bytes = journalBytes E C t₀ files committed

/-- With `strict`: all destinations are as before, or all hold what is published, except while there
is a journal that asks for a rollback. -/
structure Stopped (strict : Prop) (E : Externals) (C : JournalCodec) (t₀ : Tree) (files : List DecryptedFile)
    (v : Volume) : Prop extends Begun E C t₀ files v where
  settled : strict → v.stageFile .journal ≠ some (journalBytes E C t₀ files false) →
    AllOld t₀ files v.tree ∨ AllNew files v.tree

/-- After a recovery, with all old or all new files where `strict` holds. -/
structure Clear (strict : Prop) (E : Externals) (C : JournalCodec) (t₀ : Tree) (files : List DecryptedFile)
    (v : Volume) : Prop extends Begun E C t₀ files v where
  settled : strict → AllOld t₀ files v.tree ∨ AllNew files v.tree

theorem Untouched.keepOnly (h : Untouched t₀ v) (kept : StageName → Bool) :
    Untouched t₀ (v.keepOnly kept) := by
  refine ⟨?_, h.content⟩
  rcases v.stageFile_keepOnly .journal kept with heq | hn
  · exact heq.trans h.journal
  · exact hn

theorem Clear.stopped (h : Clear strict E C t₀ files v) : Stopped strict E C t₀ files v where
  toBegun := h.toBegun
  settled hstrict _ := h.settled hstrict

theorem Begun.reverts (h : Begun E C t₀ files v₀) (hreverts : Reverts t₀ files v₀ v) :
    Begun E C t₀ files v where
  sizes := h.sizes
  frame := hreverts.frame
  backed i file bytes hfile hbytes := h.backed i file bytes hfile (hreverts.backups i ▸ hbytes)
  journal bytes hbytes := h.journal bytes (hreverts.journal ▸ hbytes)

theorem Clear.removeSome {v' : Volume} (h : Clear strict E C t₀ files v) (htree : v'.tree = v.tree)
    (hstage : ∀ name, v'.stageFile name = v.stageFile name ∨ v'.stageFile name = none) :
    Clear strict E C t₀ files v' where
  sizes := h.sizes
  frame := htree ▸ h.frame
  backed i file bytes hfile hb := by
    rcases hstage (.backup i) with heq | hn
    · exact h.backed i file bytes hfile (heq ▸ hb)
    · rw [hn] at hb
      cases hb
  journal bytes hb := by
    rcases hstage .journal with heq | hn
    · exact h.journal bytes (heq ▸ hb)
    · rw [hn] at hb
      cases hb
  settled hstrict := htree ▸ h.settled hstrict

theorem ensures_removeStage_untouched :
    Ensures (Untouched t₀) removeStage (fun _ v => Untouched t₀ v ∧ v.stage = none) (Untouched t₀) :=
  ensures_removeStage (fun _ kept hv => hv.keepOnly kept) (fun _ hv => ⟨⟨rfl, hv.content⟩, rfl⟩)
    fun _ hv => hv

theorem ensures_removeStage_clear :
    Ensures (Clear strict E C t₀ files) removeStage (fun _ v => Clear strict E C t₀ files v ∧ v.stage = none)
      (Stopped strict E C t₀ files) :=
  ensures_removeStage (fun v kept hv =>
    Clear.stopped (hv.removeSome rfl fun name => v.stageFile_keepOnly name kept))
    (fun _ hv => ⟨hv.removeSome rfl fun _ => .inr rfl, rfl⟩) fun _ hv => hv.stopped

end

section

theorem readJournal_eq_none (h : readJournal C v = .ok none) : v.stageFile .journal = none := by
  rw [readJournal] at h
  split at h
  · assumption
  · rw [ite_error_eq_ok] at h
    obtain ⟨_, h⟩ := h
    split at h
    · cases h
    · split at h
      · cases h
      · cases h

theorem readJournal_eq_some {j : Journal} (h : readJournal C v = .ok (some j)) :
    ∃ bytes, v.stageFile .journal = some bytes ∧ bytes.length ≤ maxJournalSize ∧ C.read bytes = .ok j := by
  rw [readJournal] at h
  split at h
  · cases h
  · rename_i bytes hb
    rw [ite_error_eq_ok] at h
    obtain ⟨hs, h⟩ := h
    split at h
    · cases h
    · rename_i j' hr
      split at h
      · cases h
      · cases h
        exact ⟨bytes, hb, Nat.le_of_not_lt hs, hr⟩

theorem Begun.readJournal {j : Journal} (h : Begun E C t₀ files v) (hread : readJournal C v = .ok (some j)) :
    ∃ committed, j = journalOf E committed (files.map (stagedOf t₀)) ∧
      v.stageFile .journal = some (journalBytes E C t₀ files committed) := by
  obtain ⟨bytes, hb, _, hj⟩ := readJournal_eq_some hread
  obtain ⟨committed, rfl⟩ := h.journal bytes hb
  rw [read_journalBytes] at hj
  cases hj
  exact ⟨committed, rfl, hb⟩

theorem journalBytes_committed_ne : journalBytes E C t₀ files true ≠ journalBytes E C t₀ files false := by
  intro heq
  have hr := congrArg C.read heq
  rw [read_journalBytes, read_journalBytes] at hr
  cases hr

theorem ensures_undo (hplan : Plan t₀ files) (journal : Option Journal) :
    Ensures (fun v => Stopped strict E C t₀ files v ∧ readJournal C v = .ok journal) (undo E journal)
      (fun _ => Clear strict E C t₀ files) (Stopped strict E C t₀ files) := by
  refine ensures_of_state fun v₀ ⟨hv₀, hr⟩ => ?_
  cases journal with
  | none =>
    refine ensures_pure fun v hv => ?_
    subst hv
    refine ⟨hv₀.toBegun, fun hstrict => hv₀.settled hstrict ?_⟩
    rw [readJournal_eq_none hr]
    exact nofun
  | some j =>
    obtain ⟨committed, rfl, hb⟩ := hv₀.toBegun.readJournal hr
    cases committed with
    | true =>
      refine ensures_pure fun v hv => ?_
      subst hv
      refine ⟨hv₀.toBegun, fun hstrict => hv₀.settled hstrict ?_⟩
      rw [hb]
      exact fun heq => journalBytes_committed_ne (some.inj heq)
    | false =>
      refine (ensures_rollback hplan hv₀.backed false).mono ?_ ?_ ?_
      · rintro v rfl
        exact Reverts.refl hv₀.frame
      · rintro _ v ⟨⟨hrev, hold⟩, _⟩
        exact ⟨hv₀.toBegun.reverts hrev, fun _ => .inl hold⟩
      · intro v hrev
        refine ⟨hv₀.toBegun.reverts hrev, fun _ hne => ?_⟩
        rw [hrev.journal] at hne
        exact absurd hb hne

theorem stage_eq_none {there : Bool} (hthere : ¬ there = true)
    (h : (Except.ok v.stage.isSome : Except SnapshotError Bool) = .ok there) : v.stage = none := by
  cases hs : v.stage with
  | none => rfl
  | some stage =>
    rw [hs] at h
    cases h
    exact absurd rfl hthere

/-- A recovery that succeeds leaves no stage, and one that stops leaves a state to recover from. -/
theorem ensures_recoverLocked (hplan : Plan t₀ files) :
    Ensures (Stopped strict E C t₀ files) (recoverLocked E C)
      (fun _ v => Clear strict E C t₀ files v ∧ v.stage = none) (Stopped strict E C t₀ files) := by
  refine (ensures_inspect _ fun v hv => hv).bind fun there => ?_
  split
  · refine ((ensures_inspect _ fun v hv => hv).pre fun v hv => hv.1).bind fun journal => ?_
    refine (ensures_undo hplan journal).bind fun _ => ?_
    refine ensures_removeStage_clear.bind fun _ => ?_
    refine (ensures_syncDirectory fun v hv => hv.1.stopped).bind fun _ => ?_
    exact ensures_pure fun v hv => hv
  · rename_i hthere
    refine ensures_pure fun v hv => ?_
    have hn := stage_eq_none hthere hv.2
    refine ⟨⟨hv.1.toBegun, fun hstrict => hv.1.settled hstrict ?_⟩, hn⟩
    rw [Volume.stageFile, hn]
    exact nofun

theorem ensures_recoverLocked_untouched :
    Ensures (Untouched t₀) (recoverLocked E C) (fun _ v => Untouched t₀ v ∧ v.stage = none)
    (Untouched t₀) := by
  refine (ensures_inspect _ fun v hv => hv).bind fun there => ?_
  split
  · refine ((ensures_inspect _ fun v hv => hv).pre fun v hv => hv.1).bind fun journal => ?_
    have hundo : Ensures (fun v => Untouched t₀ v ∧ readJournal C v = .ok journal) (undo E journal)
        (fun _ => Untouched t₀) (Untouched t₀) := by
      refine ensures_of_fact (journal = none) (fun v hv => ?_) ?_
      · obtain ⟨hv, hr⟩ := hv
        rw [readJournal, hv.journal] at hr
        cases hr
        rfl
      · rintro rfl
        exact ensures_pure fun v hv => hv.1
    refine hundo.bind fun _ => ?_
    refine ensures_removeStage_untouched.bind fun _ => ?_
    refine (ensures_syncDirectory fun v hv => hv.1).bind fun _ => ?_
    exact ensures_pure fun v hv => hv
  · rename_i hthere
    exact ensures_pure fun v hv => ⟨hv.1, stage_eq_none hthere hv.2⟩

end

section

/-- While destinations are backed up, no file changes. -/
structure Staging (t₀ : Tree) (files : List DecryptedFile) (v : Volume) : Prop extends Untouched t₀ v where
  writable : ∀ file ∈ files, Writable v.tree file.place
  new : ∀ (i : Nat) file bytes, files[i]? = some file → v.stageFile (.new i) = some bytes →
    bytes = file.plaintext
  backed : Backed t₀ files v

theorem Untouched.setStageFile (h : Untouched t₀ v) (name : StageName) (content : Option Bytes)
    (hname : .journal ≠ name) : Untouched t₀ (v.setStageFile name content) :=
  ⟨(v.stageFile_setStageFile_of_ne name .journal content hname).trans h.journal, h.content⟩

variable {i : Nat}

theorem Staging.setNew (h : Staging t₀ files v) (hfile : files[i]? = some file) :
    Staging t₀ files (v.setStageFile (.new i) (some file.plaintext)) where
  toUntouched := h.toUntouched.setStageFile _ _ nofun
  writable := h.writable
  new j g bytes hg hb := by
    by_cases hj : j = i
    · subst hj
      rw [hfile] at hg
      cases hg
      exact (some.inj (v.stageFile_setStageFile_self _ _ hb)).symm
    · rw [v.stageFile_setStageFile_of_ne (.new i) (.new j) _ (fun heq => hj (StageName.new.inj heq))] at hb
      exact h.new j g bytes hg hb
  backed j g bytes hg hb := by
    rw [v.stageFile_setStageFile_of_ne (.new i) (.backup j) _ nofun] at hb
    exact h.backed j g bytes hg hb

theorem Staging.setBackup {old : Bytes} (h : Staging t₀ files v) (hfile : files[i]? = some file)
    (hold : t₀.content file.place = some old) : Staging t₀ files (v.setStageFile (.backup i) (some old)) where
  toUntouched := h.toUntouched.setStageFile _ _ nofun
  writable := h.writable
  new j g bytes hg hb := by
    rw [v.stageFile_setStageFile_of_ne (.backup i) (.new j) _ nofun] at hb
    exact h.new j g bytes hg hb
  backed j g bytes hg hb := by
    by_cases hj : j = i
    · subst hj
      rw [hfile] at hg
      cases hg
      rw [hold]
      exact v.stageFile_setStageFile_self _ _ hb
    · rw [v.stageFile_setStageFile_of_ne (.backup i) (.backup j) _
        (fun heq => hj (StageName.backup.inj heq))] at hb
      exact h.backed j g bytes hg hb

theorem Untouched.grow {t : Tree} (h : Untouched t₀ v) {above : List Component → Prop}
    (hgrows : Tree.Grows above v.tree t) :
    Untouched t₀ { v with tree := t } := ⟨h.journal, fun p => (hgrows.content p).trans (h.content p)⟩

theorem ensures_makeDirs (hplan : Plan t₀ files) (hfile : file ∈ files) :
    Ensures (Staging t₀ files) (makeDirs file.place) (fun _ => Staging t₀ files) (Untouched t₀) := by
  refine ensures_step (fun v a v' hv hact => ?_) (fun v hv => hv.toUntouched) fun v cut hv => ?_
  · obtain ⟨t, ht, heq⟩ := map_eq_ok.mp hact
    cases heq
    have hgrows := createDirs_grows ht
    refine ⟨hv.grow hgrows, fun g hg => ?_, hv.new, hv.backed⟩
    refine (hv.writable g hg).grow hgrows fun habove => ?_
    exact hplan.not_above hg ⟨_, mem_map_of_mem hfile, habove⟩
  · split
    · rename_i t ht
      exact hv.grow (createDirs_grows ht)
    · exact hv.toUntouched

theorem ensures_keepBackup (hfile : files[i]? = some file) :
    Ensures (Staging t₀ files) (keepBackup E i file (t₀.content file.place)) (fun _ => Staging t₀ files)
      (Untouched t₀) := by
  cases hold : t₀.content file.place with
  | none => exact ensures_pure fun v hv => hv
  | some old =>
    have hwrite : Ensures (Staging t₀ files) (writeSecret (.backup i) old)
      (fun _ => Staging t₀ files) (Untouched t₀) :=
      ensures_writeSecret (fun v hv => hv.toUntouched)
        (fun v content hv => hv.toUntouched.setStageFile _ _ nofun)
        fun v hv => hv.setBackup hfile hold
    refine hwrite.bind fun _ => ?_
    exact (ensures_inspect _ fun v hv => hv.toUntouched).mono (fun _ h => h) (fun _ _ h => h.1) fun _ h => h

theorem ensures_stageEntry (hplan : Plan t₀ files) (hfile : files[i]? = some file) :
    Ensures (Staging t₀ files) (stageEntry E i file file.place) (fun x v => Staging t₀ files v ∧
      x = stagedOf t₀ file ∧
        ∀ bytes, t₀.content file.place = some bytes → bytes.length ≤ maxFileSize) (Untouched t₀) := by
  have hwrite : Ensures (Staging t₀ files) (writeSecret (.new i) file.plaintext) (fun _ => Staging t₀ files)
      (Untouched t₀) :=
    ensures_writeSecret (fun v hv => hv.toUntouched)
      (fun v content hv => hv.toUntouched.setStageFile _ _ nofun)
      fun v hv => hv.setNew hfile
  refine hwrite.bind fun _ => ?_
  refine (ensures_inspect _ fun v hv => hv.toUntouched).bind fun backup => ?_
  -- What is backed up is what was there before the staging began.
  refine ensures_of_fact (backup = t₀.content file.place ∧ ∀ bytes, backup = some bytes →
    bytes.length ≤ maxFileSize)
    (fun v hv => ?_) ?_
  · obtain ⟨hcon, hs⟩ := backUp_eq_ok hv.2
    exact ⟨hcon.trans (hv.1.content file.place), hs⟩
  rintro ⟨rfl, hs⟩
  refine ((ensures_keepBackup hfile).pre fun v hv => hv.1).bind fun _ => ?_
  refine (ensures_makeDirs hplan (mem_of_getElem? hfile)).bind fun _ => ?_
  exact ensures_pure fun v hv => ⟨hv, rfl, hs⟩

theorem ensures_stageEntries {rest : List DecryptedFile} (hplan : Plan t₀ files) :
    ∀ {front : List DecryptedFile}, files = front ++ rest →
      Ensures (Staging t₀ files) (stageEntries E front.length (targets rest))
        (fun xs v => Staging t₀ files v ∧ xs = rest.map (stagedOf t₀) ∧
          ∀ file ∈ rest, ∀ bytes, t₀.content file.place = some bytes → bytes.length ≤ maxFileSize)
            (Untouched t₀) := by
  induction rest with
  | nil => exact fun _ => ensures_pure fun v hv => ⟨hv, rfl, nofun⟩
  | cons file rest ih =>
    intro front hfs
    obtain ⟨hr, hget, hlen⟩ := next_of_append hfs
    refine (ensures_stageEntry hplan hget).bind fun x => ?_
    refine ensures_of_fact _ (fun v hv => hv.2) fun hx => ?_
    have hn := ih hr
    rw [hlen] at hn
    refine (hn.pre fun v hv => hv.1).bind fun xs => ?_
    refine ensures_pure fun v hv => ⟨hv.1, ?_, forall_mem_cons.mpr ⟨hx.2, hv.2.2⟩⟩
    rw [hx.1, hv.2.1, map_cons]

/-- Everything is staged, and nothing published. -/
structure Prepared (t₀ : Tree) (files : List DecryptedFile) (v : Volume) :
    Prop extends Staging t₀ files v where
  plan : Plan t₀ files
  sizes : ∀ file ∈ files, ∀ bytes, t₀.content file.place = some bytes → bytes.length ≤ maxFileSize

theorem plan_of_acceptDestinations {t : Tree} {places : List (List Component)}
    (h : acceptDestinations t files = .ok places) : Plan t files ∧ files.zip places = targets files := by
  rw [acceptDestinations] at h
  split at h
  · cases h
  · rename_i places' hplaces
    rw [ite_error_eq_ok] at h
    obtain ⟨hcol, h⟩ := h
    cases h
    have hp := plan_of_accepted hplaces (Bool.eq_false_iff.mpr hcol)
    exact ⟨hp, zip_targets hplaces⟩

theorem ensures_recoverLocked_none :
    Ensures (· = ⟨t₀, none⟩) (recoverLocked E C) (fun _ v => v = ⟨t₀, none⟩) (· = ⟨t₀, none⟩) := by
  refine (ensures_inspect _ fun v hv => hv).bind fun there => ?_
  refine ensures_of_fact (there = false) (fun v hv => ?_) ?_
  · obtain ⟨rfl, h⟩ := hv
    cases h
    rfl
  · rintro rfl
    exact ensures_pure fun v hv => hv.1

theorem ensures_createStage (hplan : Plan t₀ files) :
    Ensures (· = ⟨t₀, none⟩) createStage (fun _ => Staging t₀ files) (Untouched t₀) := by
  refine ensures_step (fun v a v' hv hact => ?_) (fun v hv => ?_) fun v cut hv => ?_
  · subst hv
    cases hact
    exact ⟨⟨rfl, fun _ => rfl⟩, (frame_of_plan hplan).writable, fun _ _ _ _ h => (nomatch h),
      fun _ _ _ _ h => (nomatch h)⟩
  · subst hv
    exact ⟨rfl, fun _ => rfl⟩
  · subst hv
    split
    · exact ⟨rfl, fun _ => rfl⟩
    · exact ⟨rfl, fun _ => rfl⟩

theorem ensures_prepare : Ensures (· = ⟨t₀, none⟩) (prepare E C files)
      (fun staged v => Prepared t₀ files v ∧ staged = files.map (stagedOf t₀)) (Untouched t₀) := by
  have hst : ∀ v : Volume, v = ⟨t₀, none⟩ → Untouched t₀ v := by
    rintro v rfl
    exact ⟨rfl, fun _ => rfl⟩
  refine ((ensures_inspect _ hst).mono (fun _ h => h) (fun _ _ h => h.1) fun _ h => h).bind fun _ => ?_
  refine (ensures_recoverLocked_none.mono (fun _ h => h) (fun _ _ h => h) hst).bind fun _ => ?_
  refine (ensures_inspect _ hst).bind fun places => ?_
  refine ensures_of_fact (Plan t₀ files ∧ files.zip places = targets files) (fun v hv => ?_) ?_
  · obtain ⟨rfl, hv⟩ := hv
    exact plan_of_acceptDestinations hv
  rintro ⟨hp, hzip⟩
  rw [hzip]
  refine ((ensures_createStage hp).pre fun _ h => h.1).bind fun _ => ?_
  refine (ensures_stageEntries hp (nil_append files).symm).attempt.bind fun result => ?_
  cases result with
  | ok staged => exact ensures_pure fun v ⟨hv, hstaged, hsizes⟩ => ⟨⟨hv, hp, hsizes⟩, hstaged⟩
  | error e =>
    exact ensures_removeStage_untouched.bind fun _ => ensures_fail fun v hv => hv.1

end

section

/-- From the writing of the first journal on; `j` is the journal that is in place. -/
structure Publishing (E : Externals) (C : JournalCodec) (t₀ : Tree) (files : List DecryptedFile)
    (j : Option Bytes)
    (v : Volume) : Prop extends Begun E C t₀ files v where
  new : ∀ (i : Nat) file bytes, files[i]? = some file → v.stageFile (.new i) = some bytes →
    bytes = file.plaintext
  current : v.stageFile .journal = j

theorem Prepared.publishing (h : Prepared t₀ files v) : Publishing E C t₀ files none v where
  sizes := h.sizes
  frame := ⟨h.writable, fun file _ => .inl (h.content file.place), fun p _ => h.content p⟩
  backed := h.backed
  journal bytes hb := by
    rw [h.toUntouched.journal] at hb
    cases hb
  new := h.new
  current := h.toUntouched.journal

/-- Where the publication can stop: what the journal says of the destinations. -/
structure Halted (E : Externals) (C : JournalCodec) (t₀ : Tree) (files : List DecryptedFile)
    (v : Volume) : Prop
    extends Begun E C t₀ files v where
  told : (v.stageFile .journal = none ∧ AllOld t₀ files v.tree) ∨
    v.stageFile .journal = some (journalBytes E C t₀ files false) ∨
    (v.stageFile .journal = some (journalBytes E C t₀ files true) ∧ AllNew files v.tree)

variable {j : Option Bytes} {committed : Bool}

theorem Publishing.setJournalTmp (h : Publishing E C t₀ files j v) (content : Option Bytes) :
    Publishing E C t₀ files j (v.setStageFile .journalTmp content) where
  sizes := h.sizes
  frame := h.frame
  backed i file bytes hfile hb := by
    rw [v.stageFile_setStageFile_of_ne .journalTmp (.backup i) _ nofun] at hb
    exact h.backed i file bytes hfile hb
  journal bytes hb := by
    rw [v.stageFile_setStageFile_of_ne .journalTmp .journal _ nofun] at hb
    exact h.journal bytes hb
  new i file bytes hfile hb := by
    rw [v.stageFile_setStageFile_of_ne .journalTmp (.new i) _ nofun] at hb
    exact h.new i file bytes hfile hb
  current := (v.stageFile_setStageFile_of_ne .journalTmp .journal _ nofun).trans h.current

theorem Publishing.setJournal (h : Publishing E C t₀ files j v) (committed : Bool) (hstage : v.stage ≠ none) :
    Publishing E C t₀ files (some (journalBytes E C t₀ files committed))
      (v.setStageFile .journal (some (journalBytes E C t₀ files committed))) where
  sizes := h.sizes
  frame := h.frame
  backed i file bytes hfile hb := by
    rw [v.stageFile_setStageFile_of_ne .journal (.backup i) _ nofun] at hb
    exact h.backed i file bytes hfile hb
  journal bytes hb := ⟨committed, (some.inj (v.stageFile_setStageFile_self _ _ hb)).symm⟩
  new i file bytes hfile hb := by
    rw [v.stageFile_setStageFile_of_ne .journal (.new i) _ nofun] at hb
    exact h.new i file bytes hfile hb
  current := v.stageFile_setStageFile .journal _ hstage

/-- While one journal takes the place of another. -/
def Switching (E : Externals) (C : JournalCodec) (t₀ : Tree) (files : List DecryptedFile) (K : Tree → Prop)
    (j j' : Option Bytes) (v : Volume) : Prop :=
  (Publishing E C t₀ files j v ∨ Publishing E C t₀ files j' v) ∧ K v.tree

variable {K : Tree → Prop} {front : List DecryptedFile}

theorem Switching.setJournalTmp {j' : Option Bytes} (h : Switching E C t₀ files K j j' v)
    (content : Option Bytes) :
    Switching E C t₀ files K j j' (v.setStageFile .journalTmp content) :=
  ⟨h.1.imp (·.setJournalTmp content) (·.setJournalTmp content), h.2⟩

theorem ensures_putJournal :
    Ensures (fun v => Publishing E C t₀ files j v ∧ K v.tree)
      (do
        writeSecret .journalTmp (C.write (journalOf E committed (files.map (stagedOf t₀))))
        renameStage .journalTmp .journal
        syncDirectory : Action Unit)
      (fun _ v => Publishing E C t₀ files (some (journalBytes E C t₀ files committed)) v ∧ K v.tree)
      (Switching E C t₀ files K j (some (journalBytes E C t₀ files committed))) := by
  have hwrite : Ensures (fun v => Publishing E C t₀ files j v ∧ K v.tree)
      (writeSecret .journalTmp (C.write (journalOf E committed (files.map (stagedOf t₀)))))
      (fun _ v => (Publishing E C t₀ files j v ∧ K v.tree) ∧ ∀ bytes, v.stageFile .journalTmp = some bytes →
        bytes = journalBytes E C t₀ files committed)
      (Switching E C t₀ files K j (some (journalBytes E C t₀ files committed))) := by
    refine ensures_writeSecret (fun v hv => ⟨.inl hv.1, hv.2⟩) (fun v content hv => ?_) fun v hv => ?_
    · exact ⟨.inl (hv.1.setJournalTmp _), hv.2⟩
    · refine ⟨⟨hv.1.setJournalTmp _, hv.2⟩, fun bytes hb => ?_⟩
      exact (some.inj (v.stageFile_setStageFile_self _ _ hb)).symm
  refine hwrite.bind fun _ => ?_
  have hrename : Ensures (fun v => (Publishing E C t₀ files j v ∧ K v.tree) ∧
        ∀ bytes, v.stageFile .journalTmp = some bytes → bytes = journalBytes E C t₀ files committed)
      (renameStage .journalTmp .journal)
      (fun _ v => Publishing E C t₀ files (some (journalBytes E C t₀ files committed)) v ∧ K v.tree)
      (Switching E C t₀ files K j (some (journalBytes E C t₀ files committed))) := by
    refine ensures_renameStage (fun v hv => ⟨.inl hv.1.1, hv.1.2⟩) fun v bytes hv hb => ?_
    cases hv.2 bytes hb
    have hs : v.stage ≠ none := by
      intro hn
      rw [Volume.stageFile, hn] at hb
      cases hb
    exact ⟨(hv.1.1.setJournal committed hs).setJournalTmp none, hv.1.2⟩
  refine hrename.bind fun _ => ?_
  exact ensures_syncDirectory fun v hv => ⟨.inr hv.1, hv.2⟩

/-- A journal is in place as a whole, or the one before it is. -/
theorem ensures_writeJournal (hbefore : ∀ v, Publishing E C t₀ files j v → K v.tree → Halted E C t₀ files v)
    (hafter : ∀ v, Publishing E C t₀ files (some (journalBytes E C t₀ files committed)) v → K v.tree →
      Halted E C t₀ files v) : Ensures (fun v => Publishing E C t₀ files j v ∧ K v.tree)
      (writeJournal C (journalOf E committed (files.map (stagedOf t₀))))
      (fun _ v => Publishing E C t₀ files (some (journalBytes E C t₀ files committed)) v ∧ K v.tree)
      (Halted E C t₀ files) := by
  have hhalted : ∀ v, Switching E C t₀ files K j (some (journalBytes E C t₀ files committed)) v →
      Halted E C t₀ files v := by
    rintro v ⟨hv | hv, hK⟩
    · exact hbefore v hv hK
    · exact hafter v hv hK
  refine (ensures_putJournal.attempt.mono (fun _ h => h) (fun _ _ h => h) hhalted).bind fun result => ?_
  cases result with
  | ok _ => exact ensures_pure fun v hv => hv
  | error e =>
    have hremove : Ensures (Switching E C t₀ files K j (some (journalBytes E C t₀ files committed)))
        (removeStageFile .journalTmp) (fun _ => Halted E C t₀ files) (Halted E C t₀ files) := by
      refine ensures_step (fun v a v' hv hact => ?_) hhalted fun v _ hv => hhalted v hv
      cases hact
      exact hhalted _ (hv.setJournalTmp none)
    refine hremove.attempt.bind fun outcome => ?_
    cases outcome with
    | ok _ => exact ensures_fail fun v hv => hv
    | error _ => exact ensures_fail fun v hv => hv

theorem Publishing.replace {i : Nat} {v' : Volume} (h : Publishing E C t₀ files j v)
    (hplan : Plan t₀ files) (hfile : file ∈ files)
    (htree : v'.tree = v.tree.setNode file.place (some (.file file.plaintext)))
    (hstage : v'.stage = (v.setStageFile (.new i) none).stage) : Publishing E C t₀ files j v' := by
  have hsta : ∀ name, v'.stageFile name = (v.setStageFile (.new i) none).stageFile name := fun name => by
    rw [Volume.stageFile, hstage, Volume.stageFile]
  have hos : ∀ name, name ≠ .new i → v'.stageFile name = v.stageFile name := fun name hn =>
    (hsta name).trans (v.stageFile_setStageFile_of_ne (.new i) name none hn)
  constructor
  · refine ⟨h.sizes, htree ▸ h.frame.setNode hplan hfile (.inr rfl), fun k g old hg hold => ?_,
      fun bytes hb => ?_⟩
    · rw [hos (.backup k) nofun] at hold
      exact h.backed k g old hg hold
    · rw [hos .journal nofun] at hb
      exact h.journal bytes hb
  · intro k g bytes hg hb
    by_cases hk : k = i
    · rw [hk, hsta, v.stageFile_setStageFile_none] at hb
      cases hb
    · rw [hos _ fun heq => hk (StageName.new.inj heq)] at hb
      exact h.new k g bytes hg hb
  · exact (hos .journal nofun).trans h.current

theorem AllNew.replace {t : Tree} (hplan : Plan t₀ files) (h : AllNew front t)
    (hfront : ∀ g ∈ front, g ∈ files)
    (hfile : file ∈ files) : AllNew (front ++ [file])
    (t.setNode file.place (some (.file file.plaintext))) := by
  intro g hg
  by_cases heq : g.place = file.place
  · have hmem : g ∈ files := by
      rcases mem_append.mp hg with hg | hg
      · exact hfront g hg
      · rwa [mem_singleton.mp hg]
    rw [hplan.place_inj hmem hfile heq]
    exact t.content_setNode_self file.place (some file.plaintext)
  · rw [content_congr (node_setNode_of_ne heq _)]
    rcases mem_append.mp hg with hg | hg
    · exact h g hg
    · exact absurd (congrArg DecryptedFile.place (mem_singleton.mp hg)) heq

/-- The first journal is in place and the files of `front` are published. -/
def Replaced (E : Externals) (C : JournalCodec) (t₀ : Tree) (files front : List DecryptedFile)
    (v : Volume) : Prop :=
  Publishing E C t₀ files (some (journalBytes E C t₀ files false)) v ∧ AllNew front v.tree

theorem Replaced.halted (h : Replaced E C t₀ files front v) : Halted E C t₀ files v :=
  ⟨h.1.toBegun, .inr (.inl h.1.current)⟩

theorem ensures_publishEntry {i : Nat} (hplan : Plan t₀ files) (hfile : files[i]? = some file)
    (hfront : ∀ g ∈ front, g ∈ files) :
    Ensures (Replaced E C t₀ files front) (publishEntry E i (stagedOf t₀ file))
      (fun _ => Replaced E C t₀ files (front ++ [file])) (Halted E C t₀ files) := by
  have hmem := mem_of_getElem? hfile
  refine (ensures_inspect _ fun v hv => hv.halted).bind fun _ => ?_
  refine (ensures_inspect _ fun v hv => Replaced.halted hv.1).bind fun current => ?_
  split
  · exact ensures_fail fun v hv => Replaced.halted hv.1.1
  have hrep : Ensures (Replaced E C t₀ files front) (replace (.new i) file.place)
      (fun _ => Replaced E C t₀ files (front ++ [file])) (Halted E C t₀ files) := by
    refine ensures_replace (fun v hv => hv.halted) fun v bytes hv hb => ?_
    cases hv.1.new i file bytes hfile hb
    exact ⟨hv.1.replace hplan hmem rfl rfl, hv.2.replace hplan hfront hmem⟩
  refine (hrep.pre fun v hv => hv.1.1).bind fun _ => ?_
  exact ensures_syncDirectory fun v hv => hv.halted

theorem ensures_publishEntries {rest : List DecryptedFile} (hplan : Plan t₀ files) :
    ∀ {front : List DecryptedFile}, files = front ++ rest →
      Ensures (Replaced E C t₀ files front) (publishEntries E front.length (rest.map (stagedOf t₀)))
        (fun _ => Replaced E C t₀ files files) (Halted E C t₀ files) := by
  induction rest with
  | nil =>
    intro front hfs
    rw [append_nil] at hfs
    exact ensures_pure fun v hv => hfs ▸ hv
  | cons file rest ih =>
    intro front hfs
    obtain ⟨hr, hget, hlen⟩ := next_of_append hfs
    have hfront : ∀ g ∈ front, g ∈ files := fun g hg => by
      rw [hfs]
      exact mem_append_left _ hg
    have hn := ih hr
    rw [hlen] at hn
    exact (ensures_publishEntry hplan hget hfront).bind fun _ => hn

theorem ensures_commit (hplan : Plan t₀ files) :
    Ensures (fun v => Publishing E C t₀ files none v ∧ AllOld t₀ files v.tree)
    (commit E C (files.map (stagedOf t₀)))
      (fun _ v => Publishing E C t₀ files (some (journalBytes E C t₀ files true)) v ∧ AllNew files v.tree)
      (Halted E C t₀ files) := by
  have hbegin : Ensures (fun v => Publishing E C t₀ files none v ∧ AllOld t₀ files v.tree)
      (writeJournal C (journalOf E false (files.map (stagedOf t₀)))) (fun _ => Replaced E C t₀ files [])
      (Halted E C t₀ files) := by
    refine (ensures_writeJournal (fun v hv hold => ?_) fun v hv hold => ?_).mono (fun _ h => h) ?_
      fun _ h => h
    · exact ⟨hv.toBegun, .inl ⟨hv.current, hold⟩⟩
    · exact ⟨hv.toBegun, .inr (.inl hv.current)⟩
    · exact fun _ v hv => ⟨hv.1, nofun⟩
  refine hbegin.bind fun _ => ?_
  refine (ensures_publishEntries hplan (nil_append files).symm).bind fun _ => ?_
  refine ensures_writeJournal (fun v hv hnew => ?_) fun v hv hnew => ?_
  · exact ⟨hv.toBegun, .inr (.inl hv.current)⟩
  · exact ⟨hv.toBegun, .inr (.inr ⟨hv.current, hnew⟩)⟩

end

section

variable {v' : Volume}

theorem Halted.stopped (h : Halted E C t₀ files v) : Stopped strict E C t₀ files v where
  toBegun := h.toBegun
  settled _ hne := by
    rcases h.told with ⟨_, hold⟩ | hfalse | ⟨_, hnew⟩
    · exact .inl hold
    · exact absurd hfalse hne
    · exact .inr hnew

theorem Halted.reverts (h : Halted E C t₀ files v) (hreverts : Reverts t₀ files v v')
    (hnot : strict → v.stageFile .journal ≠ some (journalBytes E C t₀ files true)) :
    Stopped strict E C t₀ files v' where
  toBegun := h.toBegun.reverts hreverts
  settled hstrict hne := by
    rw [hreverts.journal] at hne
    rcases h.told with ⟨_, hold⟩ | hfalse | ⟨htrue, _⟩
    · refine .inl fun file hf => ?_
      rcases hreverts.back file hf with hback | hk
      · exact hback
      · exact hk.trans (hold file hf)
    · exact absurd hfalse hne
    · exact absurd htrue (hnot hstrict)

theorem ensures_removeStage_fail {e : SnapshotError} :
    Ensures (Clear strict E C t₀ files) (do removeStage; fail e : Action Unit)
      (fun _ => Stopped strict E C t₀ files) (Stopped strict E C t₀ files) :=
  ensures_removeStage_clear.bind fun _ => ensures_fail fun _ hv => hv.1.stopped

theorem ensures_removeStage_sync :
    Ensures (Clear strict E C t₀ files) (do removeStage; syncDirectory : Action Unit)
      (fun _ => Stopped strict E C t₀ files) (Stopped strict E C t₀ files) := by
  refine ensures_removeStage_clear.bind fun _ => ?_
  exact (ensures_syncDirectory fun v hv => hv.1.stopped).mono (fun _ h => h)
    (fun _ v hv => hv.1.stopped) fun _ h => h

theorem abort_leaves (hplan : Plan t₀ files) (h : Halted E C t₀ files v) (e : SnapshotError)
    (faults : List (Fault Cut))
    (hfinished : strict → v.stageFile .journal = some (journalBytes E C t₀ files true) →
      ∃ rest v', abort E (files.map (stagedOf t₀)) e faults v = (.done (), rest, v')) :
    Ending.Leaves (fun _ => Stopped strict E C t₀ files) (Stopped strict E C t₀ files)
      ((do abort E (files.map (stagedOf t₀)) e; removeStage; fail e : Action Unit) faults v) := by
  have hens : Ensures (Reverts t₀ files v) (abort E (files.map (stagedOf t₀)) e)
      (fun _ v' => (Reverts t₀ files v v' ∧ AllOld t₀ files v'.tree) ∧ BackupsFrom t₀ 0 files v)
        (Reverts t₀ files v) :=
    (ensures_rollback hplan h.backed true).mapError (rollbackFailure e)
  have habort := hens faults v (Reverts.refl h.frame)
  match hres : abort E (files.map (stagedOf t₀)) e faults v with
  | (.done _, rest, v') =>
    rw [hres] at habort
    rw [bind_of_done hres]
    exact ensures_removeStage_fail rest v' ⟨h.toBegun.reverts habort.1.1, fun _ => .inl habort.1.2⟩
  | (.failed e', rest, v') =>
    rw [hres] at habort
    rw [bind_of_failed hres]
    refine h.reverts habort fun hstrict htrue => ?_
    obtain ⟨rest', v'', hd⟩ := hfinished hstrict htrue
    rw [hres] at hd
    cases hd
  | (.crashed, rest, v') =>
    rw [hres] at habort
    rw [bind_of_crashed hres]
    refine h.reverts habort fun hstrict htrue => ?_
    obtain ⟨rest', v'', hd⟩ := hfinished hstrict htrue
    rw [hres] at hd
    cases hd

theorem finish_leaves (hplan : Plan t₀ files) (faults : List (Fault Cut))
    (hv : Publishing E C t₀ files none v)
    (hold : AllOld t₀ files v.tree)
    (hfinished : strict → ∀ e rest v', commit E C (files.map (stagedOf t₀)) faults v = (.failed e, rest, v') →
      v'.stageFile .journal = some (journalBytes E C t₀ files true) →
      ∃ rest' v'', abort E (files.map (stagedOf t₀)) e rest v' = (.done (), rest', v'')) :
    Ending.Leaves (fun _ => Stopped strict E C t₀ files) (Stopped strict E C t₀ files)
      (finish E C (files.map (stagedOf t₀)) faults v) := by
  have hcommit := ensures_commit (E := E) (C := C) hplan faults v ⟨hv, hold⟩
  match hres : commit E C (files.map (stagedOf t₀)) faults v with
  | (.crashed, rest, v') =>
    rw [hres] at hcommit
    rw [finish, bind_of_crashed (attempt_of_crashed hres)]
    exact Halted.stopped hcommit
  | (.done _, rest, v') =>
    rw [hres] at hcommit
    rw [finish, bind_of_done (attempt_of_done hres)]
    exact ensures_removeStage_sync rest v' ⟨hcommit.1.toBegun, fun _ => .inr hcommit.2⟩
  | (.failed e, rest, v') =>
    rw [hres] at hcommit
    rw [finish, bind_of_done (attempt_of_failed hres)]
    exact abort_leaves hplan hcommit e rest fun hstrict => hfinished hstrict e rest v' hres

end

end CipherVault.Snapshot.Faults
