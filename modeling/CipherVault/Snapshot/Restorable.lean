import CipherVault.Snapshot.Faults
import CipherVault.Snapshot.Publish
import CipherVault.Snapshot.RoundTrip

/-!
# Snapshot.Restorable

Which captures can be restored into an empty directory, in terms of the captured paths.
-/

namespace CipherVault.Snapshot

open Crypto Format List Demo Snapshot.Tree

def Tree.empty : Tree := { node := fun _ => none }

/-- The names of two destinations are apart: neither is the other one, or above it. -/
def NamesApart (p q : Text) : Prop := ¬ nameParts p <+: nameParts q ∧ ¬ nameParts q <+: nameParts p

instance (p q : Text) : Decidable (NamesApart p q) := inferInstanceAs (Decidable (¬ _ ∧ ¬ _))

instance : Std.Symm NamesApart := ⟨fun _ _ h => ⟨h.2, h.1⟩⟩

def reserved (path : Text) : Bool :=
  eqIgnoreAsciiCase (firstPart path) stageName || eqIgnoreAsciiCase (firstPart path) lockName

/-- Paths that a restore takes together. -/
structure Restorable (paths : List Text) : Prop where
  unreserved : ∀ path ∈ paths, reserved path = false
  apart : paths.Pairwise NamesApart

/-! ## Destinations in an empty directory -/

theorem writable_empty (p : List Component) : Writable empty p where
  noLinks _ _ := rfl
  notDirectory := nofun
  parents _ _ := .inr ⟨rfl, fun _ _ => rfl⟩

theorem validateDestination_empty {path : Text} (hsafe : validateSafeRelativePath path = .ok ()) :
    validateDestination empty path = .ok (locate path) ↔ reserved path = false := by
  rw [validateDestination_iff]
  constructor
  · exact fun h => h.1.2
  · exact fun h => ⟨⟨hsafe, h⟩, rfl, writable_empty _⟩

theorem planDestinations_ok {files : List DecryptedFile} {t : Tree} {seen : List Text}
    (hvalid : ∀ file ∈ files, validateDestination t file.relativePath = .ok file.place)
    (hunseen : ∀ file ∈ files, normalized file.relativePath ∉ seen)
    (hnodup : (files.map fun file => normalized file.relativePath).Nodup) :
    planDestinations t files seen = .ok (files.map DecryptedFile.place) := by
  induction files generalizing seen with
  | nil => rfl
  | cons file rest ih =>
    rw [map_cons, nodup_cons] at hnodup
    have hseen : seen.contains (normalized file.relativePath) = false := by
      rw [← Bool.not_eq_true, contains_iff_mem]
      exact hunseen file mem_cons_self
    have hr : planDestinations t rest (normalized file.relativePath :: seen) =
      .ok (rest.map DecryptedFile.place) := by
      refine ih (fun f hf => hvalid f (mem_cons_of_mem _ hf)) (fun f hf hmem => ?_) hnodup.2
      rcases mem_cons.mp hmem with heq | hmem
      · exact hnodup.1 (heq ▸ mem_map_of_mem hf)
      · exact hunseen f (mem_cons_of_mem _ hf) hmem
    rw [planDestinations, hseen, if_neg Bool.false_ne_true, hvalid file mem_cons_self, hr]
    rfl

section

variable {files : List DecryptedFile}

theorem collides_eq_true_iff (hsafe : ∀ file ∈ files, SafePath file.relativePath) :
    collides (files.map fun file => normalized file.relativePath) = true ↔
      ∃ f ∈ files, ∃ g ∈ files, nameParts f.relativePath <+: nameParts g.relativePath ∧
        nameParts f.relativePath ≠ nameParts g.relativePath := by
  simp only [collides, any_eq_true, Bool.and_eq_true, bne_iff_ne, contains_iff_mem, mem_map]
  constructor
  · rintro ⟨_, ⟨g, hg, rfl⟩, _, hmem, hne, f, hf, rfl⟩
    refine ⟨f, hf, g, hg, (normalized_mem_namePrefixes (hsafe f hf) (hsafe g hg)).mp hmem, ?_⟩
    rwa [ne_eq, ← normalized_inj (hsafe f hf) (hsafe g hg)]
  · rintro ⟨f, hf, g, hg, hw, hne⟩
    refine ⟨_, ⟨g, hg, rfl⟩, _, (normalized_mem_namePrefixes (hsafe f hf) (hsafe g hg)).mpr hw, ?_,
      f, hf, rfl⟩
    rwa [ne_eq, normalized_inj (hsafe f hf) (hsafe g hg)]

theorem acceptDestinations_empty_iff
    (hsafe : ∀ file ∈ files, validateSafeRelativePath file.relativePath = .ok ()) :
    (∃ places, Faults.acceptDestinations empty files = .ok places) ↔
      Restorable (files.map DecryptedFile.relativePath) := by
  have hpaths : ∀ file ∈ files, SafePath file.relativePath :=
    fun file hfi => safePath_of_valid (hsafe file hfi)
  have hcol := collides_eq_true_iff hpaths
  constructor
  · rintro ⟨places, haccept⟩
    rw [Faults.acceptDestinations] at haccept
    split at haccept
    · cases haccept
    rename_i places' hp
    obtain ⟨hfree, _⟩ := ite_error_eq_ok.mp haccept
    obtain ⟨_, hv, _, hnd⟩ := planDestinations_eq_ok hp
    refine ⟨fun path hpath => ?_, pairwise_map.mpr ?_⟩
    · obtain ⟨file, hfi, rfl⟩ := mem_map.mp hpath
      exact (validateDestination_empty (hsafe file hfi)).mp (hv file hfi)
    · refine (pairwise_map.mp hnd).imp_of_mem fun {f g} hf hg hne => ?_
      rw [ne_eq, normalized_inj (hpaths f hf) (hpaths g hg)] at hne
      refine ⟨fun hw => hfree (hcol.mpr ⟨f, hf, g, hg, hw, hne⟩), fun hw => ?_⟩
      exact hfree (hcol.mpr ⟨g, hg, f, hf, hw, Ne.symm hne⟩)
  · rintro ⟨hunr, hapart⟩
    have hpairs := pairwise_map.mp hapart
    have hv : ∀ file ∈ files, validateDestination empty file.relativePath = .ok file.place := fun file hfi =>
      (validateDestination_empty (hsafe file hfi)).mpr (hunr _ (mem_map_of_mem hfi))
    have hnd : (files.map fun file => normalized file.relativePath).Nodup := by
      refine pairwise_map.mpr (hpairs.imp_of_mem fun {f g} hf hg hne heq => ?_)
      rw [normalized_inj (hpaths f hf) (hpaths g hg)] at heq
      exact hne.1 (heq ▸ prefix_refl _)
    have hfree : ¬ collides (files.map fun file => normalized file.relativePath) = true := by
      intro htrue
      obtain ⟨f, hf, g, hg, hw, hne⟩ := hcol.mp htrue
      have hne' : f.relativePath ≠ g.relativePath := fun heq => hne (congrArg nameParts heq)
      exact (hapart.forall (mem_map_of_mem hf) (mem_map_of_mem hg) hne').1 hw
    refine ⟨files.map DecryptedFile.place, ?_⟩
    rw [Faults.acceptDestinations, planDestinations_ok hv (fun _ _ => not_mem_nil) hnd]
    exact if_neg hfree

end

section

variable {E : Externals} {t : Tree} {vaultId epochKey : Bytes} {epoch : Nat}

def capturedPaths (t : Tree) (tracked : List (Text × Bytes)) : List Text :=
  tracked.filterMap fun (path, _) => (t.content (locate path)).map fun _ => path

theorem relativePath_capturedFiles (t : Tree) (tracked : List (Text × Bytes)) :
    (capturedFiles t tracked).map DecryptedFile.relativePath = (capturedPaths t tracked).map portable := by
  rw [capturedFiles, capturedPaths, map_filterMap, map_filterMap]
  refine congrArg (tracked.filterMap ·) (funext fun file => ?_)
  simp only [Option.map_map, Function.comp_def]

theorem firstPart_portable (path : Text) : firstPart (portable path) = firstPart path := by
  induction path with
  | nil => rfl
  | cons c rest ih =>
    rw [firstPart, firstPart, portable, map_cons, takeWhile_cons, takeWhile_cons]
    by_cases hslash : c = '\\'
    · subst hslash
      rfl
    · rw [if_neg hslash]
      split
      · exact congrArg (c :: ·) ih
      · rfl

theorem restorable_map_portable {paths : List Text} : Restorable (paths.map portable) ↔ Restorable paths := by
  have hparts : ∀ path, nameParts (portable path) = nameParts path := fun path => by
    rw [nameParts, portable_portable, nameParts]
  have hres : ∀ path, reserved (portable path) = reserved path := fun path => by
    rw [reserved, firstPart_portable, reserved]
  have hapart : ∀ p q, NamesApart (portable p) (portable q) ↔ NamesApart p q := fun p q => by
    rw [NamesApart, hparts, hparts, NamesApart]
  constructor
  · rintro ⟨hunr, hpairs⟩
    refine ⟨fun path hpath => hres path ▸ hunr _ (mem_map_of_mem hpath), ?_⟩
    exact (pairwise_map.mp hpairs).imp fun h => (hapart _ _).mp h
  · rintro ⟨hunr, hpairs⟩
    refine ⟨fun path hpath => ?_, pairwise_map.mpr (hpairs.imp fun h => (hapart _ _).mpr h)⟩
    obtain ⟨original, hori, rfl⟩ := mem_map.mp hpath
    exact hres original ▸ hunr original hori

variable {tracked : List (Text × Bytes)} {parentIds : List Bytes} {deviceId signer : Bytes}
  {counter generation : Nat} {entropy : Entropy} {output : SnapshotOutput}

theorem validateSafeRelativePath_captured {settings : Settings}
    (hcreate : createSnapshot E settings t tracked vaultId epoch epochKey parentIds deviceId counter
      generation signer
      entropy = .ok output) :
    ∀ file ∈ capturedFiles t tracked, validateSafeRelativePath file.relativePath = .ok () := by
  simp only [createSnapshot, bind_eq_ok] at hcreate
  obtain ⟨captured, hcap, _⟩ := hcreate
  intro file hf
  obtain ⟨⟨path, fileId⟩, htra, hf⟩ := mem_filterMap.mp hf
  obtain ⟨bytes, _, rfl⟩ := Option.map_eq_some_iff.mp hf
  obtain ⟨acc, acc', hturn⟩ := Result.exists_of_foldlM hcap htra
  simp only [captureFile, bind_eq_ok] at hturn
  obtain ⟨⟨⟩, hpath, _⟩ := hturn
  exact validateSafeRelativePath_portable hpath

/-- A capture can be restored into an empty directory exactly when no captured path begins with a
reserved name, and no two have names, without regard to case and to the kind of slash, of which one
is the other or above it. -/
theorem capture_restores_iff (hE : Lawful E) (hP : Faithful E.toPrimitives)
    {version : ChunkWriteVersion} {profile : Option Text}
        (hnonce : entropy.manifestNonce.length = 24)
    (hcreate : createSnapshot E ⟨version, configFromEnv profile⟩ t tracked vaultId epoch epochKey
      parentIds deviceId
      counter generation signer entropy = .ok output) (hcollision : ∀ a ∈ output.chunks, ∀ b ∈ output.chunks,
      E.sha256 (E.encode (.chunk a)) = E.sha256 (E.encode (.chunk b)) →
      E.encode (.chunk a) = E.encode (.chunk b)) :
    ∃ files, decryptSnapshot E vaultId epochKey epoch output.encryptedManifest output.chunks = .ok files ∧
      ((∃ places, Faults.acceptDestinations empty files = .ok places) ↔
        Restorable (capturedPaths t tracked)) := by
  obtain ⟨hc, hdec⟩ := decryptSnapshot_of_index hE hP hnonce hcreate
  obtain ⟨index, hi⟩ := indexChunks_ok hc
  refine ⟨capturedFiles t tracked, ?_, ?_⟩
  · exact hdec _ index hi fun chunk hch cid hcid => lookup_indexChunks hE hi hcollision hch hcid
  · rw [acceptDestinations_empty_iff (validateSafeRelativePath_captured hcreate), relativePath_capturedFiles,
      restorable_map_portable]

end

namespace Demo

def caseTree : Tree where
  node p := if p = locate ['A'] then some (.file [1#8]) else if p = locate ['a'] then
    some (.file [2#8]) else none

def caseSnapshot : Except SnapshotError SnapshotOutput :=
  createSnapshot reference ⟨.legacyV1, configFromEnv none⟩ caseTree [(['A'], vault), (['a'], vault)]
    vault 0 epochKey []
    vault 0 0 epochKey ⟨vault, replicate 24 3#8, 0⟩

end Demo

theorem demo_capture_restores :
    ∃ output, snapshot = .ok output ∧
      ∃ files, decryptSnapshot reference vault epochKey 0 output.encryptedManifest output.chunks = .ok files ∧
        ∃ places, Faults.acceptDestinations empty files = .ok places := by
  obtain ⟨output, houtput, hfacts⟩ := demo_snapshot
  simp only [Bool.and_eq_true] at hfacts
  obtain ⟨files, hfs, hiff⟩ :=
    capture_restores_iff reference_lawful reference_faithful length_replicate houtput
    (of_chunksApart hfacts.1.1.2)
  exact ⟨output, houtput, files, hfs, hiff.mpr ⟨by decide +kernel, by decide +kernel⟩⟩

set_option maxRecDepth 100000 in
theorem case_capture_does_not_restore :
    ∃ output, caseSnapshot = .ok output ∧
      ∃ files, decryptSnapshot reference vault epochKey 0 output.encryptedManifest output.chunks = .ok files ∧
        Faults.acceptDestinations empty files = .error (.unsafePath "Duplicate restore destination") := by
  obtain ⟨output, houtput, hfacts⟩ : ∃ output, caseSnapshot = .ok output ∧
      (match decryptSnapshot reference vault epochKey 0 output.encryptedManifest output.chunks with
      | .ok files => decide (Faults.acceptDestinations empty files =
          .error (.unsafePath "Duplicate restore destination"))
      | .error _ => false) = true := by
    apply exists_of_any
    decide +kernel
  cases hdec : decryptSnapshot reference vault epochKey 0 output.encryptedManifest output.chunks with
  | error e =>
    rw [hdec] at hfacts
    cases hfacts
  | ok files =>
    rw [hdec] at hfacts
    exact ⟨output, houtput, files, hdec, of_decide_eq_true hfacts⟩

end CipherVault.Snapshot
