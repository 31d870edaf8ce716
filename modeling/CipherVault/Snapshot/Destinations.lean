import CipherVault.Snapshot.Restore

/-!
# Snapshot.Destinations

The destinations that the first loop of `publish_with` accepts. Names are compared with the
backslash as a slash and in lower case; a file is written where the path itself leads. `Plan`:
accepted destinations are different places, none below another.
-/

namespace CipherVault.Snapshot

open Crypto Format List

/-! ## The two readings of a path -/

theorem splitOn_append_slash (xs ys : Text) :
    (xs ++ '/' :: ys).splitOn '/' = xs.splitOn '/' ++ ys.splitOn '/' :=
  splitOnP_append_cons xs ys rfl

variable {parts : List Text} {c : Char} {files : List DecryptedFile} {places : List (List Component)}

theorem intercalate_cons (part : Text) (h : parts ≠ []) :
    intercalate ['/'] (part :: parts) = part ++ '/' :: intercalate ['/'] parts := by
  cases parts with
  | nil => exact absurd rfl h
  | cons q rest => rfl

theorem splitOn_intercalate_parts (h : parts ≠ []) :
    (intercalate ['/'] parts).splitOn '/' = parts.flatMap fun part => part.splitOn '/' := by
  induction parts with
  | nil => exact absurd rfl h
  | cons part rest ih =>
    cases rest with
    | nil => simp [intercalate]
    | cons q rest =>
      rw [intercalate_cons part (cons_ne_nil q rest), splitOn_append_slash, ih (cons_ne_nil q rest)]
      exact flatMap_cons.symm

theorem portable_append (xs ys : Text) : portable (xs ++ ys) = portable xs ++ portable ys := map_append

theorem portable_intercalate (parts : List Text) :
    portable (intercalate ['/'] parts) = intercalate ['/'] (parts.map portable) := by
  induction parts with
  | nil => rfl
  | cons part rest ih =>
    cases rest with
    | nil => simp [intercalate]
    | cons q rest =>
      have hr : (q :: rest).map portable ≠ [] := by simp
      rw [intercalate_cons part (cons_ne_nil q rest), map_cons, intercalate_cons (portable part) hr,
        portable_append, ← ih]
      rfl

theorem splitOn_portable (path : Text) :
    (portable path).splitOn '/' = (path.splitOn '/').flatMap fun part => (portable part).splitOn '/' := by
  have hjoin : portable path = intercalate ['/'] ((path.splitOn '/').map portable) := by
    rw [← portable_intercalate, intercalate_splitOn]
  have hne : (path.splitOn '/').map portable ≠ [] := by
    rw [ne_eq, map_eq_nil_iff]
    exact splitOnP_ne_nil _ _
  rw [hjoin, splitOn_intercalate_parts hne, flatMap_map]

def partsOf (path : Text) : List Component := (path.splitOn '/').filterMap componentOf

variable {part path other : Text} {t : Tree}

theorem componentOf_text {c : Component} (h : componentOf part = some c) : c.text = part := by
  rw [componentOf] at h
  split at h
  · cases h
  · split at h
    · rename_i hdots
      cases h
      exact hdots.symm
    · cases h
      rfl

theorem partsOf_portable_skipped (h : componentOf part = none) : partsOf (portable part) = [] := by
  rw [componentOf] at h
  split at h
  · rename_i hskip
    rcases hskip with rfl | rfl
    · rfl
    · rfl
  · split at h <;> cases h

theorem partsOf_portable (path : Text) :
    partsOf (portable path) = (partsOf path).flatMap fun c => partsOf (portable c.text) := by
  rw [partsOf, splitOn_portable, partsOf]
  induction path.splitOn '/' with
  | nil => rfl
  | cons part rest ih =>
    rw [flatMap_cons, filterMap_append, ih, filterMap_cons]
    cases hpart : componentOf part with
    | none =>
      show partsOf (portable part) ++ _ = _
      rw [partsOf_portable_skipped hpart]
      rfl
    | some c =>
      show partsOf (portable part) ++ _ = _
      rw [flatMap_cons, componentOf_text hpart]

theorem components_eq_partsOf (hroot : path.head? ≠ some '/') (hdot : (path.splitOn '/').head? ≠ some ['.']) :
    components path = partsOf path := by
  unfold components
  split
  · exact absurd rfl hroot
  · split
    · rename_i rest hsp
      rw [hsp] at hdot
      exact absurd rfl hdot
    · rfl

theorem rootDir_mem_components (h : path.head? = some '/') : .rootDir ∈ components path := by
  obtain ⟨rest, rfl⟩ := head?_eq_some_iff.mp h
  exact mem_cons_self

theorem curDir_mem_components (hroot : path.head? ≠ some '/') (hdot : (path.splitOn '/').head? = some ['.']) :
    .curDir ∈ components path := by
  obtain ⟨rest, hsp⟩ := head?_eq_some_iff.mp hdot
  unfold components
  split
  · exact absurd rfl hroot
  · rw [hsp]
    exact mem_cons_self

theorem normal_of_checkComponents {cs : List Component} (h : checkComponents path cs = .ok ()) :
    ∀ c ∈ cs, ∃ name, c = .normal name := by
  induction cs with
  | nil => intro c hc; cases hc
  | cons d rest ih =>
    rw [checkComponents] at h
    split at h
    · cases h
    · rename_i hd
      intro c hc
      rcases mem_cons.mp hc with rfl | hr
      · cases c with
        | normal name => exact ⟨name, rfl⟩
        | rootDir | curDir | parentDir => cases hd
      · exact ih h c hr

theorem normal_of_safe (h : validateSafeRelativePath path = .ok ()) :
    path ≠ [] ∧ ∀ c ∈ components (portable path), ∃ name, c = .normal name := by
  rw [validateSafeRelativePath, ite_error_eq_ok] at h
  obtain ⟨hne, h⟩ := h
  split at h
  · cases h
  · exact ⟨hne, normal_of_checkComponents h⟩

/-- What the path check makes sure of. -/
structure SafePath (path : Text) : Prop where
  nonempty : path ≠ []
  place : locate path = partsOf path
  portable : components (portable path) = partsOf (Snapshot.portable path)
  relative : (Snapshot.portable path).head? ≠ some '/'
  undotted : ((Snapshot.portable path).splitOn '/').head? ≠ some ['.']

theorem relative_of_portable (h : (portable path).head? ≠ some '/') : path.head? ≠ some '/' := by
  intro hroot
  obtain ⟨rest, rfl⟩ := head?_eq_some_iff.mp hroot
  exact h rfl

theorem undotted_of_portable (h : ((portable path).splitOn '/').head? ≠ some ['.']) :
    (path.splitOn '/').head? ≠ some ['.'] := by
  intro hdot
  obtain ⟨rest, hsp⟩ := head?_eq_some_iff.mp hdot
  apply h
  rw [splitOn_portable, hsp]
  rfl

theorem safePath_of_valid (h : validateSafeRelativePath path = .ok ()) : SafePath path := by
  obtain ⟨hne, hnormal⟩ := normal_of_safe h
  have hrel : (portable path).head? ≠ some '/' := by
    intro hroot
    obtain ⟨name, hn⟩ := hnormal _ (rootDir_mem_components hroot)
    cases hn
  have hund : ((portable path).splitOn '/').head? ≠ some ['.'] := by
    intro hdot
    obtain ⟨name, hn⟩ := hnormal _ (curDir_mem_components hrel hdot)
    cases hn
  refine ⟨hne, ?_, components_eq_partsOf hrel hund, hrel, hund⟩
  rw [locate, components_eq_partsOf (relative_of_portable hrel) (undotted_of_portable hund), filter_eq_self]
  intro c hc
  obtain ⟨part, _, hpart⟩ := mem_filterMap.mp hc
  rw [componentOf] at hpart
  split at hpart
  · cases hpart
  · split at hpart
    · cases hpart; rfl
    · cases hpart; rfl

theorem SafePath.components_portable (h : SafePath path) :
    components (Snapshot.portable path) = (locate path).flatMap fun c =>
      partsOf (Snapshot.portable c.text) := by
  rw [h.portable, partsOf_portable, h.place]

theorem splitOn_cons_of_ne (h : c ≠ '/') (rest : Text) :
    ∃ part parts, rest.splitOn '/' = part :: parts ∧ (c :: rest).splitOn '/' = (c :: part) :: parts := by
  obtain ⟨part, parts, hsp⟩ := exists_cons_of_ne_nil (splitOnP_ne_nil (· == '/') rest)
  refine ⟨part, parts, hsp, ?_⟩
  rw [splitOn, splitOnP_cons_eq_if_modifyHead, hsp]
  simp [h]

theorem SafePath.components_ne_nil (h : SafePath path) : components (Snapshot.portable path) ≠ [] := by
  have hund := h.undotted
  rw [h.portable, partsOf]
  -- The first part is neither empty nor a dot.
  cases hpath : Snapshot.portable path with
  | nil => exact absurd (map_eq_nil_iff.mp hpath) h.nonempty
  | cons c rest =>
    have hc : c ≠ '/' := by
      rintro rfl
      exact h.relative (by rw [hpath]; rfl)
    obtain ⟨part, parts, _, hsp⟩ := splitOn_cons_of_ne hc rest
    rw [hpath, hsp] at hund
    rw [hsp, filterMap_cons]
    cases hcom : componentOf (c :: part) with
    | some d => simp
    | none =>
      rw [componentOf] at hcom
      split at hcom
      · rename_i hskip
        rcases hskip with hskip | hskip
        · cases hskip
        · rw [hskip] at hund
          exact absurd rfl hund
      · split at hcom <;> cases hcom

def nameParts (path : Text) : List Text := (components (portable path)).map fun c => toAsciiLowercase c.text

theorem of_mem_splitOn (h : part ∈ path.splitOn '/') : '/' ∉ part ∧ part ⊆ path := by
  induction path generalizing part with
  | nil =>
    rw [mem_singleton.mp h]
    simp
  | cons c rest ih =>
    by_cases hc : c = '/'
    · subst hc
      have hsp : ('/' :: rest).splitOn '/' = [] :: rest.splitOn '/' := splitOn_append_slash [] rest
      rcases mem_cons.mp h with rfl | hr
      · simp
      · exact ⟨(ih hr).1, subset_cons_of_subset _ (ih hr).2⟩
    · obtain ⟨first, parts, hr, hsp⟩ := splitOn_cons_of_ne hc rest
      rw [hsp] at h
      rw [hr] at ih
      rcases mem_cons.mp h with rfl | hparts
      · rw [mem_cons, not_or]
        obtain ⟨hslash, hsubset⟩ := ih mem_cons_self
        exact ⟨⟨Ne.symm hc, hslash⟩, cons_subset_cons _ hsubset⟩
      · obtain ⟨hslash, hsubset⟩ := ih (mem_cons_of_mem _ hparts)
        exact ⟨hslash, subset_cons_of_subset _ hsubset⟩

theorem toLower_eq_slash (h : c.toLower = '/') : c = '/' := by
  unfold Char.toLower at h
  split at h
  · rename_i hupper
    have hval := congrArg UInt32.toNat (congrArg Char.val h)
    have hlo : 65 ≤ c.val.toNat := hupper.1
    have hhi : c.val.toNat ≤ 90 := hupper.2
    have hsum : (c.val + 32).toNat = 47 := hval
    have h32 : (32 : UInt32).toNat = 32 := rfl
    rw [UInt32.toNat_add] at hsum
    omega
  · exact h

section

variable (h : SafePath path)
include h

theorem slash_not_mem_nameParts : ∀ part ∈ nameParts path, '/' ∉ part := by
  intro part hpart hslash
  obtain ⟨c, hc, rfl⟩ := mem_map.mp hpart
  have hc' : c ∈ components (portable path) := hc
  rw [h.portable] at hc'
  obtain ⟨raw, hraw, hcom⟩ := mem_filterMap.mp hc'
  obtain ⟨x, hx, hlower⟩ := mem_map.mp hslash
  rw [componentOf_text hcom, toLower_eq_slash hlower] at hx
  exact (of_mem_splitOn hraw).1 hx

theorem nameParts_ne_nil : nameParts path ≠ [] := by
  rw [nameParts, ne_eq, map_eq_nil_iff]
  exact h.components_ne_nil

theorem splitOn_normalized : (normalized path).splitOn '/' = nameParts path :=
  splitOn_intercalate '/' (slash_not_mem_nameParts h) (nameParts_ne_nil h)

theorem nameParts_within (h' : SafePath other) (hwithin : locate path <+: locate other) :
    nameParts path <+: nameParts other := by
  rw [nameParts, nameParts, h.components_portable, h'.components_portable]
  obtain ⟨rest, hr⟩ := hwithin
  rw [← hr, flatMap_append, map_append]
  exact prefix_append _ _

theorem normalized_mem_namePrefixes (h' : SafePath other) :
    normalized path ∈ namePrefixes (normalized other) ↔ nameParts path <+: nameParts other := by
  rw [namePrefixes, splitOn_normalized h', mem_map]
  have ht : ∀ parts, parts ∈ (nameParts other).inits.tail ↔ parts ≠ [] ∧ parts <+: nameParts other := by
    intro parts
    cases ho : nameParts other with
    | nil => exact absurd ho (nameParts_ne_nil h')
    | cons part rest =>
      rw [← mem_inits, inits_cons, tail_cons, mem_cons]
      constructor
      · intro hmem
        obtain ⟨_, _, rfl⟩ := mem_map.mp hmem
        exact ⟨cons_ne_nil _ _, .inr hmem⟩
      · exact fun hmem => hmem.2.resolve_left hmem.1
  constructor
  · rintro ⟨parts, hparts, hn⟩
    obtain ⟨hne, hw⟩ := (ht parts).mp hparts
    have hslash : ∀ part ∈ parts, '/' ∉ part := fun part hpart =>
      slash_not_mem_nameParts h' part (hw.subset hpart)
    have hsp := congrArg (splitOn '/') hn
    rw [splitOn_intercalate '/' hslash hne, splitOn_normalized h] at hsp
    exact hsp ▸ hw
  · exact fun hw => ⟨nameParts path, (ht _).mpr ⟨nameParts_ne_nil h, hw⟩, rfl⟩

theorem normalized_inj (h' : SafePath other) :
    normalized path = normalized other ↔ nameParts path = nameParts other := by
  constructor
  · intro heq
    rw [← splitOn_normalized h, heq, splitOn_normalized h']
  · exact fun heq => congrArg (intercalate ['/']) heq

end

theorem validateDestination_eq_ok {relative : Text} {place : List Component}
    (h : validateDestination t relative = .ok place) : SafePath relative ∧ place = locate relative := by
  simp only [validateDestination, bind_eq_ok, ite_error_eq_ok, pure_eq_ok] at h
  obtain ⟨_, hsafe, _, _, _, _, _, _, rfl⟩ := h
  exact ⟨safePath_of_valid hsafe, rfl⟩

def DecryptedFile.place (file : DecryptedFile) : List Component := locate file.relativePath

/-- Neither lies above the other. -/
def Apart (a b : List Component) : Prop := ¬ a <+: b ∧ ¬ b <+: a

/-- Destinations that are valid and do not meet. -/
structure Plan (t : Tree) (files : List DecryptedFile) : Prop where
  valid : ∀ file ∈ files, validateDestination t file.relativePath = .ok file.place
  apart : (files.map DecryptedFile.place).Pairwise Apart

theorem planDestinations_eq_ok {seen : List Text} (h : planDestinations t files seen = .ok places) :
    places = files.map DecryptedFile.place ∧
      (∀ file ∈ files, validateDestination t file.relativePath = .ok file.place) ∧
      (∀ file ∈ files, normalized file.relativePath ∉ seen) ∧
      (files.map fun file => normalized file.relativePath).Nodup := by
  induction files generalizing seen places with
  | nil =>
    cases h
    simp
  | cons file rest ih =>
    simp only [planDestinations, ite_error_eq_ok, bind_eq_ok, pure_eq_ok, contains_iff_mem] at h
    obtain ⟨hnew, place, hplace, places, hr, rfl⟩ := h
    obtain ⟨rfl, hv, hunseen, hnd⟩ := ih hr
    have hloc := (validateDestination_eq_ok hplace).2
    subst hloc
    refine ⟨rfl, ?_, ?_, ?_⟩
    · intro f hf
      rcases mem_cons.mp hf with rfl | hf
      · exact hplace
      · exact hv f hf
    · intro f hf
      rcases mem_cons.mp hf with rfl | hf
      · exact hnew
      · exact fun hmem => hunseen f hf (mem_cons_of_mem _ hmem)
    · rw [map_cons, nodup_cons]
      refine ⟨fun hmem => ?_, hnd⟩
      obtain ⟨f, hf, heq⟩ := mem_map.mp hmem
      exact hunseen f hf (by rw [heq]; exact mem_cons_self)

theorem plan_of_accepted (h : planDestinations t files [] = .ok places)
    (hcollides : collides (files.map fun file => normalized file.relativePath) = false) : Plan t files := by
  obtain ⟨_, hv, _, hnd⟩ := planDestinations_eq_ok h
  have hsafe : ∀ file ∈ files, SafePath file.relativePath := fun file hfi =>
    (validateDestination_eq_ok (hv file hfi)).1
  -- A place above another one would have its name among the prefixes of the other name.
  have habove : ∀ f ∈ files, ∀ g ∈ files, normalized f.relativePath ≠ normalized g.relativePath →
      ¬ f.place <+: g.place := by
    intro f hf g hg hne hw
    have hmem := (normalized_mem_namePrefixes (hsafe f hf) (hsafe g hg)).mpr
      (nameParts_within (hsafe f hf) (hsafe g hg) hw)
    have : collides (files.map fun file => normalized file.relativePath) = true := by
      rw [collides, any_eq_true]
      refine ⟨normalized g.relativePath, mem_map_of_mem hg, any_eq_true.mpr
        ⟨normalized f.relativePath, hmem, ?_⟩⟩
      rw [Bool.and_eq_true, bne_iff_ne, contains_iff_mem]
      exact ⟨hne, mem_map_of_mem hf⟩
    rw [hcollides] at this
    cases this
  refine ⟨hv, pairwise_map.mpr ?_⟩
  exact (pairwise_map.mp hnd).imp_of_mem fun {f g} hf hg hne =>
    ⟨habove f hf g hg hne, habove g hg f hf (Ne.symm hne)⟩

def join (target path : Text) : Text :=
  if path.head? = some '/' then path
  else if target = [] ∨ target.getLast? = some '/' then target ++ path
  else target ++ '/' :: path

def Component.isPlain : Component → Bool
  | .normal name => !name.contains ':'
  | _ => false

theorem components_append_slash {target : Text} (h : target ≠ []) (path : Text) :
    components (target ++ '/' :: path) = components target ++ partsOf path := by
  cases target with
  | nil => exact absurd rfl h
  | cons c rest =>
    by_cases hc : c = '/'
    · subst hc
      simp [components, partsOf, splitOn_append_slash]
    · obtain ⟨part, parts, -, hsp⟩ := splitOn_cons_of_ne hc rest
      have hjoined : (c :: rest ++ '/' :: path).splitOn '/' = (c :: part) :: (parts ++ path.splitOn '/') := by
        rw [splitOn_append_slash, hsp, cons_append]
      by_cases hdot : c :: part = ['.']
      · unfold components
        rw [hjoined, hsp]
        simp [hc, hdot, partsOf]
      · rw [components_eq_partsOf (by simpa using hc) (by rw [hjoined]; simpa using hdot),
          components_eq_partsOf (by simpa using hc) (by rw [hsp]; simpa using hdot), partsOf,
            splitOn_append_slash,
          filterMap_append]
        rfl

theorem components_join (hroot : path.head? ≠ some '/')
    (hdot : (path.splitOn '/').head? ≠ some ['.']) (target : Text) :
    components (join target path) = components target ++ partsOf path := by
  rw [join, if_neg hroot]
  split
  · next htarget =>
    rcases htarget with rfl | hslash
    · rw [nil_append, components_eq_partsOf hroot hdot]
      rfl
    · obtain ⟨front, rfl⟩ := getLast?_eq_some_iff.mp hslash
      rw [append_assoc, singleton_append]
      cases front with
      | nil => rfl
      | cons c rest =>
        rw [components_append_slash (cons_ne_nil c rest), components_append_slash (cons_ne_nil c rest)]
        simp [partsOf, componentOf]
  · next htarget => exact components_append_slash (fun h => htarget (.inl h)) path

theorem plain_of_mem_partsOf (hcolon : ':' ∉ path) (hparent : .parentDir ∉ partsOf path) :
    ∀ c ∈ partsOf path, c.isPlain = true := by
  intro c hc
  obtain ⟨part, hpart, hcom⟩ := mem_filterMap.mp hc
  rw [componentOf] at hcom
  split at hcom
  · cases hcom
  · split at hcom
    · cases hcom
      exact absurd hc hparent
    · cases hcom
      have : ':' ∉ part := fun h => hcolon ((of_mem_splitOn hpart).2 h)
      simpa [Component.isPlain] using this

theorem colon_not_mem_of_safe (h : validateSafeRelativePath path = .ok ()) : ':' ∉ path := by
  rw [validateSafeRelativePath, ite_error_eq_ok] at h
  obtain ⟨-, h⟩ := h
  split at h
  · cases h
  · next hf =>
    intro hcolon
    exact absurd rfl (find?_eq_none.mp hf ':' hcolon)

/-- Under both readings of the backslash, what an accepted path adds to a target are plain names;
and so is the place that a restore writes to. -/
theorem restored_paths_inside (target path : Text) (h : validateSafeRelativePath path = .ok ()) :
    (∀ reading ∈ [path, portable path], components (join target reading) = components target ++
      partsOf reading ∧
      ∀ c ∈ partsOf reading, c.isPlain = true) ∧
    ∀ t place, validateDestination t path = .ok place →
      components (join target path) = components target ++ place ∧ ∀ c ∈ place, c.isPlain = true := by
  have hsafe := safePath_of_valid h
  have hcolon := colon_not_mem_of_safe h
  have hp : .parentDir ∉ partsOf (portable path) := by
    intro hmem
    obtain ⟨name, hn⟩ := (normal_of_safe h).2 _ (hsafe.portable ▸ hmem)
    cases hn
  -- Dots between slashes are dots between separators.
  have hpar' : .parentDir ∉ partsOf path := by
    intro hmem
    rw [partsOf_portable] at hp
    exact hp (mem_flatMap.mpr ⟨_, hmem, mem_singleton.mpr rfl⟩)
  have hk : components (join target path) = components target ++ partsOf path ∧
    ∀ c ∈ partsOf path, c.isPlain = true :=
    ⟨components_join (relative_of_portable hsafe.relative) (undotted_of_portable hsafe.undotted) target,
      plain_of_mem_partsOf hcolon hpar'⟩
  refine ⟨?_, ?_⟩
  · intro reading hrea
    rcases mem_cons.mp hrea with rfl | hrea
    · exact hk
    · cases mem_singleton.mp hrea
      refine ⟨components_join hsafe.relative hsafe.undotted target, plain_of_mem_partsOf ?_ hp⟩
      intro hmem
      obtain ⟨c, hc, heq⟩ := mem_map.mp hmem
      split at heq
      · cases heq
      · exact hcolon (heq ▸ hc)
  · intro t place hplace
    rw [(validateDestination_eq_ok hplace).2, hsafe.place]
    exact hk

theorem restored_paths_inside_backslash :
    validateSafeRelativePath ['a', '\\', 'b'] = .ok () ∧
      components (join ['/', 't'] ['a', '\\', 'b']) = [.rootDir, .normal ['t'], .normal ['a', '\\', 'b']] ∧
      components (join ['/', 't'] (portable ['a', '\\', 'b'])) =
        [.rootDir, .normal ['t'], .normal ['a'], .normal ['b']] := by
  have hsafe : validateSafeRelativePath ['a', '\\', 'b'] = .ok () := by decide +kernel
  obtain ⟨hrea, -⟩ := restored_paths_inside ['/', 't'] _ hsafe
  refine ⟨hsafe, ?_, ?_⟩
  · rw [(hrea _ mem_cons_self).1]
    decide +kernel
  · rw [(hrea _ (mem_cons_of_mem _ mem_cons_self)).1]
    decide +kernel

end CipherVault.Snapshot
