import CipherVault.Snapshot.Destinations
import Mathlib.Data.List.Pairwise

/-!
# Snapshot.Publish

A publication that no other program disturbs: once the destinations are accepted and staged, it
cannot fail, so that nothing is rolled back.
-/

namespace CipherVault.Snapshot

open Crypto Format List Snapshot.Tree

variable {t t' : Tree} {p q : List Component} {above : List Component → Prop}

variable {places : List (List Component)} {file : DecryptedFile}

namespace Tree

theorem node_setNode_self (t : Tree) (p : List Component) (n : Option Node) : (t.setNode p n).node p = n := by
  simp [setNode]

theorem node_setNode_of_ne (h : q ≠ p) (n : Option Node) : (t.setNode p n).node q = t.node q := by
  simp [setNode, h]

theorem content_setNode_self (t : Tree) (p : List Component) (bytes : Option Bytes) :
    (t.setNode p (bytes.map .file)).content p = bytes := by
  rw [content, node_setNode_self]
  cases bytes with
  | none | some => rfl

theorem content_congr (h : t'.node q = t.node q) : t'.content q = t.content q := by
  rw [content, content, h]

theorem mem_parents (h : q ∈ parents p) : q <+: p ∧ q ≠ p := by
  obtain ⟨i, hi, rfl⟩ := mem_iff_getElem.mp (mem_of_mem_tail h)
  rw [length_dropLast, length_inits, Nat.add_sub_cancel] at hi
  rw [getElem_dropLast, getElem_inits]
  refine ⟨ take_prefix i p, fun heq => ?_⟩
  have hlen := congrArg length heq
  rw [length_take] at hlen
  omega

theorem mem_parents_of_isPrefix {r : List Component} (hr : r ∈ parents q) (h : q <+: p) : r ∈ parents p := by
  obtain ⟨rest, rfl⟩ := h
  cases rest with
  | nil => rwa [append_nil]
  | cons c rest =>
    have htail : r ∈ q.inits.tail := (dropLast_sublist q.inits).tail.subset hr
    have hinits : ∀ l : List Component, l.inits ≠ [] := fun l =>
      ne_nil_of_length_pos (by rw [length_inits]; omega)
    rw [parents, inits_append, inits_cons, tail_cons,
      dropLast_append_of_ne_nil (by simp [hinits rest]), tail_append_of_ne_nil (hinits q)]
    exact mem_append_left _ htail

theorem belowFile_eq_false :
    t.belowFile p = false ↔ (t.node p = none → ∀ q ∈ parents p, t.content q = none) := by
  rw [belowFile]
  cases t.node p with
  | none => simp
  | some node => simp

/-- `t'` is `t` with directories where there was nothing. -/
def Grows (above : List Component → Prop) (t t' : Tree) : Prop :=
  ∀ q, t'.node q = t.node q ∨ (t.node q = none ∧ t'.node q = some .directory ∧ above q)

theorem grows_refl (above : List Component → Prop) (t : Tree) : Grows above t t := fun _ => .inl rfl

theorem Grows.trans {t'' : Tree} (h : Grows above t t') (h' : Grows above t' t'') : Grows above t t'' := by
  intro q
  rcases h' q with heq | ⟨hn, hdir, habove⟩
  · rw [heq]
    exact h q
  · rcases h q with heq | ⟨_, hdir', _⟩
    · exact .inr ⟨heq ▸ hn, hdir, habove⟩
    · rw [hdir'] at hn
      cases hn

theorem Grows.mono {above above' : List Component → Prop} (h : Grows above t t')
    (himp : ∀ q, above q → above' q) :
    Grows above' t t' := by
  intro q
  rcases h q with heq | ⟨hn, hdir, habove⟩
  · exact .inl heq
  · exact .inr ⟨hn, hdir, himp q habove⟩

theorem Grows.content (h : Grows above t t') (q : List Component) : t'.content q = t.content q := by
  rcases h q with heq | ⟨hn, hdir, _⟩
  · exact content_congr heq
  · rw [Tree.content, Tree.content, hn, hdir]

theorem createDirs_grows (h : t.createDirs places = .ok t') : Grows (· ∈ places) t t' := by
  induction places generalizing t with
  | nil =>
    cases h
    exact grows_refl _ _
  | cons place rest ih =>
    rw [createDirs] at h
    split at h
    · rename_i hn
      have hf : Grows (· ∈ place :: rest) t (t.setNode place (some .directory)) := by
        intro q
        by_cases hq : q = place
        · subst hq
          exact .inr ⟨hn, node_setNode_self t q _, mem_cons_self⟩
        · exact .inl (node_setNode_of_ne hq _)
      exact hf.trans ((ih h).mono fun q => mem_cons_of_mem place)
    · exact (ih h).mono fun q => mem_cons_of_mem place
    · cases h

end Tree

/-! ## Destinations in a tree that changes -/

/-- A path that a restore may write to. -/
def Admissible (relative : Text) : Prop :=
  validateSafeRelativePath relative = .ok () ∧
    (eqIgnoreAsciiCase (firstPart relative) stageName || eqIgnoreAsciiCase (firstPart relative)
      lockName) = false

/-- A directory, or a place where one can be made. -/
def CanHold (t : Tree) (q : List Component) : Prop :=
  t.node q = some .directory ∨ (t.node q = none ∧ ∀ p ∈ parents q, t.content p = none)

/-- A file can be put there. -/
structure Writable (t : Tree) (p : List Component) : Prop where
  noLinks : ∀ q, q <+: p → t.isLink q = false
  notDirectory : t.node p ≠ some .directory
  parents : ∀ q ∈ parents p, CanHold t q

theorem linkError_eq_none : linkError t p = none ↔ t.isLink p = false ∧ t.belowFile p = false := by
  rw [linkError]
  cases t.isLink p with
  | true => simp
  | false => cases t.belowFile p with
    | true | false => simp

theorem validateNoLinks_eq_ok : validateNoLinks t p = .ok () ↔ ∀ q, q <+: p → linkError t q = none := by
  have hmem : ∀ q, q ∈ ancestors p ↔ q <+: p := fun q => mem_reverse.trans (mem_inits q p)
  rw [validateNoLinks]
  cases hfound : (ancestors p).findSome? (linkError t) with
  | some e =>
    obtain ⟨q, hq, herror⟩ := exists_of_findSome?_eq_some hfound
    refine ⟨nofun, fun h => ?_⟩
    rw [h q ((hmem q).mp hq)] at herror
    cases herror
  | none =>
    refine ⟨fun _ q hq => ?_, fun _ => rfl⟩
    exact findSome?_eq_none_iff.mp hfound q ((hmem q).mpr hq)

theorem CanHold.content (h : CanHold t q) : t.content q = none := by
  rcases h with hnode | ⟨hnode, -⟩ <;> rw [Tree.content, hnode]

theorem Writable.linkError (h : Writable t p) (hq : q <+: p) : linkError t q = none := by
  refine linkError_eq_none.mpr ⟨h.noLinks q hq, belowFile_eq_false.mpr fun _ r hr => ?_⟩
  exact (h.parents r (mem_parents_of_isPrefix hr hq)).content

theorem checkParent_eq_ok : checkParent t q = .ok () ↔ CanHold t q := by
  rw [checkParent, CanHold]
  split
  · rename_i hnode
    simp [hnode]
  · rename_i hnode
    simp_all
  · rename_i hnode
    simp only [hnode, ite_error_eq_ok, Bool.not_eq_true, belowFile_eq_false]
    simp

theorem validateDestination_iff {relative : Text} :
    validateDestination t relative = .ok p ↔ Admissible relative ∧ p = locate relative ∧ Writable t p := by
  simp only [validateDestination, bind_eq_ok, ite_error_eq_ok, pure_eq_ok, Admissible]
  constructor
  · rintro ⟨⟨⟩, hsafe, hres, ⟨⟩, hlinks, hdir, ⟨⟩, hpar, rfl⟩
    refine ⟨⟨hsafe, Bool.not_eq_true _ ▸ hres⟩, rfl, fun q hq => ?_, hdir, fun q hq => ?_⟩
    · exact (linkError_eq_none.mp (validateNoLinks_eq_ok.mp hlinks q hq)).1
    exact checkParent_eq_ok.mp (forM_eq_ok.mp hpar q (mem_reverse.mpr hq))
  · rintro ⟨⟨hsafe, hres⟩, rfl, hwri⟩
    refine ⟨(), hsafe, ?_, (), validateNoLinks_eq_ok.mpr fun q hq => hwri.linkError hq,
      hwri.notDirectory, (), ?_, rfl⟩
    · rw [hres]
      exact Bool.false_ne_true
    · exact forM_eq_ok.mpr fun q hq => checkParent_eq_ok.mpr (hwri.parents q (mem_reverse.mp hq))

section

theorem CanHold.grow (h : CanHold t q) (hgrows : Grows above t t') : CanHold t' q := by
  rcases hgrows q with heq | ⟨_, hdir, _⟩
  · rcases h with hnode | ⟨hn, hfree⟩
    · exact .inl (heq.trans hnode)
    · exact .inr ⟨heq.trans hn, fun p hp => (hgrows.content p).trans (hfree p hp)⟩
  · exact .inl hdir

theorem Writable.grow (h : Writable t p) (hgrows : Grows above t t') (hp : ¬ above p) : Writable t' p where
  noLinks q hq := by
    have hlink := h.noLinks q hq
    rcases hgrows q with heq | ⟨_, hdir, _⟩
    · rw [isLink, heq]
      exact hlink
    · rw [isLink, hdir]
  notDirectory := by
    rcases hgrows p with heq | ⟨_, _, habove⟩
    · rw [heq]
      exact h.notDirectory
    · exact absurd habove hp
  parents q hq := (h.parents q hq).grow hgrows

theorem Writable.congr (h : Writable t p) (hsame : ∀ q, q <+: p → t'.node q = t.node q) : Writable t' p where
  noLinks q hq := by
    rw [isLink, hsame q hq]
    exact h.noLinks q hq
  notDirectory := by
    rw [hsame p (prefix_refl p)]
    exact h.notDirectory
  parents q hq := by
    have hqp := (mem_parents hq).1
    rcases h.parents q hq with hdir | ⟨hn, hfree⟩
    · exact .inl ((hsame q hqp).trans hdir)
    · refine .inr ⟨(hsame q hqp).trans hn, fun r hr => ?_⟩
      rw [content_congr (hsame r ((mem_parents hr).1.trans hqp))]
      exact hfree r hr

theorem Writable.setNode (h : Writable t p) (hq : ¬ q <+: p) (n : Option Node) :
    Writable (t.setNode q n) p := by
  refine h.congr fun r hr => node_setNode_of_ne ?_ n
  rintro rfl
  exact hq hr

theorem Writable.setNode_self (h : Writable t p) {node : Option Node}
    (hnode : node = none ∨ ∃ bytes, node = some (.file bytes)) : Writable (t.setNode p node) p where
  noLinks q hq := by
    by_cases heq : q = p
    · subst heq
      rw [isLink, node_setNode_self]
      rcases hnode with rfl | ⟨bytes, rfl⟩
      · rfl
      · rfl
    · rw [isLink, node_setNode_of_ne heq]
      exact h.noLinks q hq
  notDirectory := by
    rw [node_setNode_self]
    rcases hnode with rfl | ⟨bytes, rfl⟩
    · exact nofun
    · exact nofun
  parents q hq := by
    have hqp := mem_parents hq
    rcases h.parents q hq with hdir | ⟨hn, hfree⟩
    · exact .inl ((node_setNode_of_ne hqp.2 _).trans hdir)
    · refine .inr ⟨(node_setNode_of_ne hqp.2 _).trans hn, fun r hr => ?_⟩
      have hrq := mem_parents hr
      have hne : r ≠ p := by
        rintro rfl
        exact hqp.2 (IsPrefix.eq_of_length_le hqp.1 hrq.1.length_le)
      rw [Tree.content_congr (Tree.node_setNode_of_ne hne _)]
      exact hfree r hr

theorem Writable.pathExists (h : Writable t p) : t.pathExists p = (t.content p).isSome := by
  have hlink := h.noLinks p (prefix_refl p)
  have hdir := h.notDirectory
  rw [Tree.isLink] at hlink
  rw [Tree.pathExists, Tree.content]
  cases hnode : t.node p with
  | none => rfl
  | some node =>
    rw [hnode] at hlink hdir
    cases node with
    | file bytes => rfl
    | directory => exact absurd rfl hdir
    | link resolves => cases hlink

end

variable {E : Externals}

section

theorem fileDigest_eq_ok {digest : Bytes} :
    fileDigest E t p = .ok digest ↔ ∃ bytes, t.content p = some bytes ∧ bytes.length ≤ maxFileSize ∧
      E.sha256 bytes = digest := by
  simp only [fileDigest, bind_eq_ok, openRegularFile_eq_ok, ite_error_eq_ok, pure_eq_ok, Nat.not_lt]

/-- The file is staged with a backup of what was there. -/
structure Stages (t : Tree) (f : DecryptedFile × List Component) (x : Staged) : Prop where
  file : x.file = f.1
  place : x.place = f.2
  backup : x.backup = t.content f.2
  size : ∀ bytes, x.backup = some bytes → bytes.length ≤ maxFileSize

theorem backUp_eq_ok {backup : Option Bytes} (h : backUp E t p = .ok backup) :
    backup = t.content p ∧ ∀ bytes, backup = some bytes → bytes.length ≤ maxFileSize := by
  rw [backUp] at h
  split at h
  · simp only [bind_eq_ok, openRegularFile_eq_ok, fileDigest_eq_ok, pure_eq_ok] at h
    obtain ⟨_, ⟨bytes, hby, hs, _⟩, bytes', hb', rfl⟩ := h
    rw [hby] at hb'
    cases hb'
    refine ⟨hby.symm, fun b hb => ?_⟩
    cases hb
    exact hs
  · rename_i hexists
    cases h
    refine ⟨(content_of_not_pathExists hexists).symm, fun b hb => ?_⟩
    cases hb

theorem stageFile_eq_ok {place : List Component} {x : Staged}
    (h : stageFile E t file place = .ok (t', x)) : Stages t (file, place) x ∧
    Grows (· ∈ parents place) t t' := by
  simp only [stageFile, bind_eq_ok, pure_eq_ok, Prod.mk.injEq] at h
  obtain ⟨backup, hbackup, t'', hdirs, rfl, rfl⟩ := h
  obtain ⟨hcon, hs⟩ := backUp_eq_ok hbackup
  exact ⟨⟨rfl, rfl, hcon, hs⟩, createDirs_grows hdirs⟩

theorem stageFiles_spec (files : List (DecryptedFile × List Component)) :
    ∀ t : Tree, Grows (fun q => ∃ f ∈ files, q ∈ parents f.2) t (stageFiles E t files).1 ∧
      ∀ staged, (stageFiles E t files).2 = .ok staged → Forall₂ (Stages t) files staged := by
  induction files with
  | nil =>
    intro t
    refine ⟨grows_refl _ t, fun staged h => ?_⟩
    cases h
    exact .nil
  | cons f rest ih =>
    intro t
    rw [stageFiles]
    cases hf : stageFile E t f.1 f.2 with
    | error e => exact ⟨grows_refl _ t, nofun⟩
    | ok p =>
      obtain ⟨t', x⟩ := p
      obtain ⟨hx, hgrows⟩ := stageFile_eq_ok hf
      obtain ⟨hr, hstaged⟩ := ih t'
      have hall : Grows (fun q => ∃ g ∈ f :: rest, q ∈ parents g.2) t (stageFiles E t' rest).1 :=
        (hgrows.mono fun q hq => ⟨f, mem_cons_self, hq⟩).trans
          (hr.mono fun q ⟨g, hg, hq⟩ => ⟨g, mem_cons_of_mem f hg, hq⟩)
      -- The contents that the rest finds are still those of the first tree.
      have hsa : ∀ g y, Stages t' g y → Stages t g y := fun g y hy =>
        ⟨hy.file, hy.place, hy.backup.trans (hgrows.content g.2), hy.size⟩
      simp only
      split
      · rename_i t'' e hs
        rw [hs] at hall
        exact ⟨hall, nofun⟩
      · rename_i t'' xs hs
        rw [hs] at hall hstaged
        refine ⟨hall, fun staged h => ?_⟩
        cases h
        exact .cons hx ((hstaged xs rfl).imp hsa)

end

section

variable {x y : Staged}

/-- Nothing changed since the file was staged. -/
structure Ready (t : Tree) (x : Staged) : Prop where
  admissible : Admissible x.file.relativePath
  located : x.place = locate x.file.relativePath
  writable : Writable t x.place
  backup : t.content x.place = x.backup
  size : ∀ bytes, x.backup = some bytes → bytes.length ≤ maxFileSize

def write (t : Tree) (x : Staged) : Tree := t.setNode x.place (some (.file x.file.plaintext))

theorem Ready.publish (h : Ready t x) : publishFile E t x = .ok (write t x) := by
  have hv : validateDestination t x.file.relativePath = .ok x.place :=
    validateDestination_iff.mpr ⟨h.admissible, h.located, h.writable⟩
  have hcur : currentDigest E t x.place = .ok (x.entry E).previousDigest := by
    rw [currentDigest, h.writable.pathExists, h.backup, Staged.entry]
    cases hbackup : x.backup with
    | none => rfl
    | some bytes =>
      have hdig : fileDigest E t x.place = .ok (E.sha256 bytes) :=
        fileDigest_eq_ok.mpr ⟨bytes, h.backup.trans hbackup, h.size bytes hbackup, rfl⟩
      rw [hdig]
      rfl
  rw [publishFile, hv, ok_bind, hcur, ok_bind, if_neg (not_not.mpr rfl)]
  rfl

theorem Ready.write (h : Ready t x) (hapart : ¬ y.place <+: x.place) : Ready (write t y) x where
  admissible := h.admissible
  located := h.located
  writable := h.writable.setNode hapart _
  backup := by
    have hne : x.place ≠ y.place := fun heq => hapart (heq ▸ prefix_refl _)
    rw [Snapshot.write, content_congr (node_setNode_of_ne hne _)]
    exact h.backup
  size := h.size

variable {staged : List Staged}

theorem publishFiles_ready (hready : ∀ x ∈ staged, Ready t x)
    (hapart : (staged.map Staged.place).Pairwise Apart) :
    publishFiles E t staged = (staged.foldl write t, .ok ()) := by
  induction staged generalizing t with
  | nil => rfl
  | cons x rest ih =>
    rw [map_cons, pairwise_cons] at hapart
    rw [publishFiles, (hready x mem_cons_self).publish]
    refine ih (fun y hy => ?_) hapart.2
    exact (hready y (mem_cons_of_mem x hy)).write (hapart.1 y.place (mem_map_of_mem hy)).1

theorem content_foldl_write_of_not_mem (hp : p ∉ staged.map Staged.place) :
    (staged.foldl write t).content p = t.content p := by
  induction staged generalizing t with
  | nil => rfl
  | cons x rest ih =>
    rw [map_cons, mem_cons, not_or] at hp
    rw [foldl_cons, ih hp.2]
    exact content_congr (node_setNode_of_ne hp.1 _)

theorem content_foldl_write_of_mem (hapart : (staged.map Staged.place).Pairwise Apart)
    (hx : x ∈ staged) : (staged.foldl write t).content x.place = some x.file.plaintext := by
  induction staged generalizing t with
  | nil => cases hx
  | cons y rest ih =>
    rw [map_cons, pairwise_cons] at hapart
    rw [foldl_cons]
    rcases mem_cons.mp hx with rfl | hr
    · have hnot : x.place ∉ rest.map Staged.place := fun hmem => (hapart.1 _ hmem).1 (prefix_refl _)
      rw [content_foldl_write_of_not_mem hnot]
      exact content_setNode_self t x.place (some x.file.plaintext)
    · exact ih hapart.2 hr

end

section

variable {t₁ : Tree} {files : List DecryptedFile} {staged : List Staged}

def targets (files : List DecryptedFile) : List (DecryptedFile × List Component) :=
  files.map fun file => (file, file.place)

theorem zip_targets (h : planDestinations t files [] = .ok places) : files.zip places = targets files := by
  rw [(planDestinations_eq_ok h).1]
  exact map_prod_left_eq_zip.symm

theorem stages_targets (h : Forall₂ (Stages t) (targets files) staged) :
    staged.map Staged.file = files ∧ staged.map Staged.place = files.map DecryptedFile.place ∧
      ∀ x ∈ staged, x.place = x.file.place ∧ Stages t (x.file, x.file.place) x := by
  rw [targets, forall₂_map_left_iff] at h
  induction h with
  | nil => simp
  | cons hx _ ih =>
    obtain ⟨hf, hplace, hall⟩ := ih
    rw [map_cons, map_cons, map_cons, hf, hplace, hx.file, hx.place]
    refine ⟨rfl, rfl, forall_mem_cons.mpr ⟨?_, hall⟩⟩
    rw [hx.file]
    exact ⟨hx.place, hx⟩

variable {f g : DecryptedFile}

theorem Plan.apart_places (hplan : Plan t files) (hf : f ∈ files) (hg : g ∈ files)
    (hne : f.place ≠ g.place) : Apart f.place g.place := by
  have hsymm : Std.Symm Apart := ⟨fun _ _ h => ⟨h.2, h.1⟩⟩
  exact hplan.apart.forall (mem_map_of_mem hf) (mem_map_of_mem hg) hne

theorem Plan.place_inj (hplan : Plan t files) (hf : f ∈ files) (hg : g ∈ files)
    (heq : f.place = g.place) : f = g := by
  have hnd : (files.map DecryptedFile.place).Nodup := by
    refine hplan.apart.imp fun {a b} h => ?_
    rintro rfl
    exact h.1 (prefix_refl a)
  exact inj_on_of_nodup_map hnd hf hg heq

theorem Plan.not_above (hplan : Plan t files) (hfile : file ∈ files) :
    ¬ ∃ f ∈ targets files, file.place ∈ parents f.2 := by
  rintro ⟨f, hf, habove⟩
  obtain ⟨g, hg, rfl⟩ := mem_map.mp hf
  obtain ⟨hw, hne⟩ := mem_parents habove
  exact (hplan.apart_places hfile hg hne).1 hw

theorem Plan.ready (hplan : Plan t files)
    (hgrows : Grows (fun q => ∃ f ∈ targets files, q ∈ parents f.2) t t₁)
    (hstaged : Forall₂ (Stages t) (targets files) staged) : ∀ x ∈ staged, Ready t₁ x := by
  obtain ⟨hfs, _, hall⟩ := stages_targets hstaged
  intro x hx
  obtain ⟨hplace, hstages⟩ := hall x hx
  have hmem : x.file ∈ files := hfs ▸ mem_map_of_mem hx
  obtain ⟨hadm, hloc, hwri⟩ := validateDestination_iff.mp (hplan.valid x.file hmem)
  exact {
    admissible := hadm
    located := hplace.trans hloc
    writable := by rw [hplace]; exact hwri.grow hgrows (hplan.not_above hmem)
    backup := by rw [hgrows.content, hplace]; exact hstages.backup.symm
    size := hstages.size }

/-- The files are written, and nothing else. -/
structure Writes (t t' : Tree) (files : List DecryptedFile) : Prop where
  written : ∀ file ∈ files, t'.content file.place = some file.plaintext
  kept : ∀ p, p ∉ files.map DecryptedFile.place → t'.content p = t.content p

/-- All files are written, or none. -/
def Settles (t : Tree) (files : List DecryptedFile) {α : Type} : Disk × Except SnapshotError α → Prop
  | (d, .ok _) => Writes t d.tree files
  | (d, .error _) => ∀ p, d.tree.content p = t.content p

theorem publishStaged_spec (hplan : Plan t files) : Settles t files (publishStaged E t (targets files)) := by
  obtain ⟨hgrows, hstaged⟩ := stageFiles_spec (E := E) (targets files) t
  rw [publishStaged]
  cases hs : stageFiles E t (targets files) with
  | mk t₁ result =>
    rw [hs] at hgrows hstaged
    cases result with
    | error e => exact fun p => hgrows.content p
    | ok staged =>
      have hstaged := hstaged staged rfl
      obtain ⟨hfs, hplaces, hall⟩ := stages_targets hstaged
      have hapart : (staged.map Staged.place).Pairwise Apart := hplaces ▸ hplan.apart
      simp only [publishFiles_ready (hplan.ready hgrows hstaged) hapart]
      refine ⟨fun file hf => ?_, fun p hp => ?_⟩
      · rw [← hfs] at hf
        obtain ⟨x, hx, rfl⟩ := mem_map.mp hf
        rw [← (hall x hx).1]
        exact content_foldl_write_of_mem hapart hx
      · rw [← hplaces] at hp
        rw [content_foldl_write_of_not_mem hp]
        exact hgrows.content p

/-- After what the recovery of an interrupted restore leaves, a publication writes all its files and
changes no other, or it fails and changes none. -/
theorem publishVerifiedFiles_spec (d : Disk) (files : List DecryptedFile) :
    Settles (recoverLocked E d).1.tree files (publishVerifiedFiles E d files) := by
  rw [publishVerifiedFiles]
  cases recoverLocked E d with
  | mk d' recovered =>
  cases recovered with
  | error e => exact fun p => rfl
  | ok found =>
    simp only
    cases hp : planDestinations d'.tree files [] with
    | error e => exact fun p => rfl
    | ok places =>
      simp only
      split
      · exact fun p => rfl
      · rename_i hcol
        have hspec := publishStaged_spec (E := E) (plan_of_accepted hp (Bool.not_eq_true _ ▸ hcol))
        rw [zip_targets hp]
        cases hpub : publishStaged E d'.tree (targets files) with
        | mk d'' result =>
          rw [hpub] at hspec
          cases result with
          | error | ok => exact hspec

end

end CipherVault.Snapshot
