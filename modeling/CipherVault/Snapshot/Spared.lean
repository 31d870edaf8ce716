import CipherVault.Snapshot.Interrupted

/-!
# Snapshot.Spared

A rollback leaves foreign edits alone. It changes a file only if a journal entry knows its content,
as the new or the previous one; this holds for every journal and tree, and wherever the rollback
stops.
-/

namespace CipherVault.Snapshot.Faults

open Crypto Format Faulty

/-- The content has the digest of the restored file, or the one of the file before. -/
def Recognizes (E : Externals) (entry : Entry) (bytes : Bytes) : Prop :=
  E.sha256 bytes = entry.newDigest ∨ entry.previousDigest = some (E.sha256 bytes)

/-- Every file of the first tree is in the second, or is the destination of an entry that recognizes
it. -/
def Spared (E : Externals) (mine : Entry → Prop) (t₀ t : Tree) : Prop :=
  ∀ place bytes, t₀.content place = some bytes →
    t.content place = some bytes ∨ ∃ entry, mine entry ∧ locate entry.path = place ∧ Recognizes E entry bytes

section

variable {E : Externals} {C : JournalCodec} {mine : Entry → Prop} {t₀ t : Tree} {entry : Entry}

theorem Spared.setNode (h : Spared E mine t₀ t) (hmine : mine entry)
    (hknown : ∀ bytes, t.content (locate entry.path) = some bytes → Recognizes E entry bytes)
    (node : Option Node) :
    Spared E mine t₀ (t.setNode (locate entry.path) node) := by
  intro place bytes hb
  by_cases heq : place = locate entry.path
  · rcases h place bytes hb with hs | hf
    · exact .inr ⟨entry, hmine, heq.symm, hknown bytes (heq ▸ hs)⟩
    · exact .inr hf
  · rw [Tree.content_congr (Tree.node_setNode_of_ne heq _)]
    exact h place bytes hb

theorem recognizes_of_checkUnchanged {place : List Component} {bytes : Bytes}
    (h : checkUnchanged E t place entry = .ok ())
    (hbytes : t.content place = some bytes) : Recognizes E entry bytes := by
  rw [checkUnchanged] at h
  split at h
  · obtain ⟨digest, hdig, h⟩ := bind_eq_ok.mp h
    rw [fileDigest, openRegularFile_eq_ok.mpr hbytes, ok_bind] at hdig
    split at hdig
    · cases hdig
    · cases hdig
      split at h
      · cases h
      · next hs =>
        tauto
  · next hgone =>
    rw [content_of_not_pathExists hgone] at hbytes
    cases hbytes

/-- What the check leaves: the destination may be written, until the tree changes. -/
def Checked (E : Externals) (mine : Entry → Prop) (t₀ : Tree) (entry : Entry) (v : Volume) : Prop :=
  Spared E mine t₀ v.tree ∧ ∀ bytes, v.tree.content (locate entry.path) = some bytes →
    Recognizes E entry bytes

theorem ensures_putBack_checked (hmine : mine entry) (index : Nat) (previous : Option Bytes) :
    Ensures (Checked E mine t₀ entry) (putBack index (locate entry.path) previous)
      (fun _ v => Spared E mine t₀ v.tree) (fun v => Spared E mine t₀ v.tree) := by
  cases previous with
  | some bytes =>
    have hstaged : Ensures (Checked E mine t₀ entry) (writeSecret (.rollback index) bytes)
        (fun _ => Checked E mine t₀ entry) (fun v => Spared E mine t₀ v.tree) :=
      ensures_writeSecret (fun _ hv => hv.1) (fun _ _ hv => hv.1) fun _ hv => hv
    refine hstaged.bind fun _ => ensures_replace (fun _ hv => hv.1) ?_
    intro v content hv _
    exact hv.1.setNode hmine hv.2 _
  | none =>
    refine ensures_removeIfThere (fun _ hv => hv.1) ?_ (fun _ hv _ => hv.1)
    intro v hv _
    exact hv.1.setNode hmine hv.2 _

theorem keeps_rollbackEntry (hmine : mine entry) (index : Nat) :
    Keeps (fun v : Volume => Spared E mine t₀ v.tree) (rollbackEntry E index entry) := by
  refine (ensures_inspect _ fun v hv => hv).bind fun place => ?_
  refine ensures_of_fact _ (fun v hv => (validateDestination_eq_ok hv.2).2) ?_
  rintro rfl
  refine (ensures_inspect _ fun v hv => hv.1).bind fun _ => ?_
  refine (ensures_inspect _ fun v hv => hv.1.1).bind fun previous => ?_
  refine Ensures.bind ((ensures_putBack_checked hmine index previous).pre ?_) fun _ =>
    ensures_syncDirectory fun _ hv => hv
  intro v hv
  exact ⟨hv.1.1.1, fun bytes hb => recognizes_of_checkUnchanged hv.1.2 hb⟩

theorem keeps_rollbackFrom (entries : List Entry) (hmine : ∀ entry ∈ entries, mine entry) (index : Nat) :
    Keeps (fun v : Volume => Spared E mine t₀ v.tree) (rollbackFrom E index entries) := by
  induction entries generalizing index with
  | nil => exact keeps_pure
  | cons entry rest ih =>
    refine Keeps.bind (ih (fun e he => hmine e (List.mem_cons_of_mem _ he)) (index + 1)) ?_
    intro _
    exact keeps_rollbackEntry (hmine entry List.mem_cons_self) index

/-- The entries that a recovery of the volume rolls back. -/
def Journaled (C : JournalCodec) (v : Volume) (entry : Entry) : Prop :=
  ∃ journal, readJournal C v = .ok (some journal) ∧ journal.publishing = true ∧ journal.committed = false ∧
    entry ∈ journal.entries

theorem keeps_undo {v₀ : Volume} {journal : Option Journal} (hread : readJournal C v₀ = .ok journal) :
    Keeps (fun v : Volume => Spared E (Journaled C v₀) t₀ v.tree) (undo E journal) := by
  cases journal with
  | none => exact keeps_pure
  | some journal =>
    rw [undo]
    split
    · next hpen =>
      simp only [Bool.and_eq_true, Bool.not_eq_true'] at hpen
      exact keeps_rollbackFrom _ (fun entry he => ⟨journal, hread, hpen.1, hpen.2, he⟩) 0
    · exact keeps_pure

theorem ensures_recover (v₀ : Volume) :
    Ensures (· = v₀) (recoverInterruptedRestore E C) (fun _ v => Spared E (Journaled C v₀) v₀.tree v.tree)
      (fun v => Spared E (Journaled C v₀) v₀.tree v.tree) := by
  have hst : ∀ v, v = v₀ → Spared E (Journaled C v₀) v₀.tree v.tree := by
    rintro v rfl place bytes hb
    exact .inl hb
  refine (ensures_inspect _ hst).bind fun _ => ?_
  refine (ensures_inspect _ fun v hv => hst v hv.1).bind fun there => ?_
  split
  · refine (ensures_inspect _ fun v hv => hst v hv.1.1).bind fun journal => ?_
    refine ensures_of_fact (readJournal C v₀ = .ok journal) (fun v hv => hv.1.1.1 ▸ hv.2) ?_
    intro hr
    refine ((keeps_undo hr).pre fun v hv => hst v hv.1.1.1).bind fun _ => ?_
    have hremove : Keeps (fun v : Volume => Spared E (Journaled C v₀) v₀.tree v.tree) removeStage :=
      ensures_removeStage (fun _ _ hv => hv) (fun _ hv => hv) fun _ hv => hv
    refine hremove.bind fun _ => ?_
    refine (ensures_syncDirectory fun _ hv => hv).bind fun _ => ?_
    exact ensures_pure fun _ hv => hv
  · exact ensures_pure fun v hv => hst v hv.1.1

end

/-- Whatever befalls a rollback or a recovery, a file whose content no entry recognizes is as it
was. -/
theorem rollback_spares_edits (E : Externals) (C : JournalCodec) (faults : List (Fault Cut)) (v : Volume) :
    (∀ journal, Spared E (· ∈ journal.entries) v.tree (rollback E journal faults v).2.2.tree) ∧
      Spared E (Journaled C v) v.tree (recoverInterruptedRestore E C faults v).2.2.tree := by
  refine ⟨?_, (ensures_recover v faults v rfl).state⟩
  intro journal
  have hk : Keeps (fun v' : Volume => Spared E (· ∈ journal.entries) v.tree v'.tree) (rollback E journal) :=
    keeps_rollbackFrom journal.entries (fun _ he => he) 0
  exact (hk faults v fun _ _ hb => .inl hb).state

end CipherVault.Snapshot.Faults
