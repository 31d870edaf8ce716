import CipherVault.Base.Dict
import CipherVault.Migrate.Dotenv
import Mathlib.Data.List.Lex
import Mathlib.Data.Prod.Lex

/-!
# Migrate.Classify

What the migration takes from the files of a snapshot, beside what `run` takes. Both let the last
assignment of a name win. `run` takes the files in the order of the snapshot, `.env` files first;
the migration sorts them by kind and path.
-/

namespace CipherVault.Migrate

open Crypto Network List Prod

section

variable {α κ : Type} [LinearOrder κ]

def sortBy (key : α → κ) (xs : List α) : List α := xs.insertionSort fun a b => key a ≤ key b

theorem sortBy_perm (key : α → κ) (xs : List α) : (sortBy key xs).Perm xs := perm_insertionSort _ xs

theorem mem_sortBy {key : α → κ} {xs : List α} {a : α} : a ∈ sortBy key xs ↔ a ∈ xs :=
  (sortBy_perm key xs).mem_iff

theorem sorted_sortBy (key : α → κ) (xs : List α) : (sortBy key xs).Pairwise fun a b => key a ≤ key b := by
  exact pairwise_insertionSort _ xs

theorem exists_last {xs : List α} {a : α} (h : a ∈ xs) : ∃ w, xs.getLast? = some w :=
  Option.isSome_iff_exists.mp (getLast?_isSome.mpr (ne_nil_of_mem h))

theorem le_last_sortBy {key : α → κ} {xs : List α} {a w : α} (h : (sortBy key xs).getLast? = some w)
    (ha : a ∈ xs) : key a ≤ key w := by
  obtain ⟨front, hfront⟩ := getLast?_eq_some_iff.mp h
  have hsorted := sorted_sortBy key xs
  have hmem : a ∈ sortBy key xs := mem_sortBy.mpr ha
  rw [hfront] at hsorted hmem
  rcases mem_append.mp hmem with hin | hlast
  · exact (pairwise_append.mp hsorted).2.2 a hin w (mem_singleton_self w)
  · rw [mem_singleton.mp hlast]

theorem sortBy_congr {key : α → κ} {xs ys : List α} (hperm : xs.Perm ys)
    (hkey : ∀ a ∈ xs, ∀ b ∈ xs, key a = key b → a = b) : sortBy key xs = sortBy key ys := by
  refine Perm.eq_of_pairwise ?_ (sorted_sortBy key xs) (sorted_sortBy key ys)
    ((sortBy_perm key xs).trans (hperm.trans (sortBy_perm key ys).symm))
  intro a b ha hb hab hba
  exact hkey a (mem_sortBy.mp ha) b (hperm.symm.subset (mem_sortBy.mp hb)) (le_antisymm hab hba)

end

structure File where
  path : Text
  bytes : Bytes

variable (path : Text)

def fileName : Text := ((path.splitOnP fun c => c == '/' || c == '\\').getLast?).getD path

def isEnvFile : Bool :=
  let name := fileName path
  name == ".env".toList || ".env.".toList.isPrefixOf name || ".env".toList.isSuffixOf name

def guessEnv (name defaultEnv : Text) : Text × Bool :=
  if name = ".env".toList then (defaultEnv, true)
  else match stripStart ".env.".toList name with
    | some rest => (rest, rest == "local".toList)
    | none =>
      if ".env".toList.isSuffixOf name then
        let stem := ((name.take (name.length - 4)).reverse.dropWhile (· == '.')).reverse
        if stem = [] then (defaultEnv, true) else (stem, true)
      else (defaultEnv, true)

structure Occurrence where
  path : Text
  line : Nat
  (name value : Text)
deriving DecidableEq

def assignments (file : File) : List Occurrence :=
  ((parseDotenvWithLines file.bytes).toOption.getD []).map fun a => ⟨file.path, a.2.2, a.1, a.2.1⟩

def parseFile (label : String) (file : File) : Except String (List Occurrence) :=
  match parseDotenvWithLines file.bytes with
  | .error e => .error (label ++ " '" ++ String.ofList file.path ++ "': " ++ e)
  | .ok _ => .ok (assignments file)

def parseAll (label : String) (files : List File) : Except String (List Occurrence) :=
  (files.mapM (parseFile label)).map flatten

def isBase : Bool := fileName path == ".env".toList

variable (files : List File)

def envFiles : List File :=
  let env := files.filter fun f => isEnvFile f.path
  env.filter (fun f => isBase f.path) ++ env.filter fun f => !isBase f.path

def loadedVars : Except String (List Occurrence) := parseAll "Failed to parse" (envFiles files)

variable (loaded : List Occurrence)

/-- `apply_overrides` without overrides: the map keeps the last value of a name. -/
def applyOverrides : Dict Text Text := loaded.foldl (fun vars o => vars.insert o.name o.value) ∅

def runSnapshot : Except String (Dict Text Text) := (loadedVars files).map applyOverrides

/-- The order of texts is that of their bytes. -/
def textKey (text : Text) : List Nat := (utf8 text).map BitVec.toNat

/-- The layer of a dotenv file: its rank, then its path. -/
def layer : Nat ×ₗ List Nat :=
  toLex (if isBase path then 0 else if ".env.".toList.isPrefixOf (fileName path) then 1 else 2, textKey path)

def ranked : List Text :=
  sortBy layer ((files.filter fun f => isEnvFile f.path).map File.path)

/-- Where an occurrence stands in its group. The line comes twice in the source. -/
def placeOf (order : List Text) (o : Occurrence) : Nat ×ₗ Nat ×ₗ List Nat ×ₗ List Nat :=
  toLex (order.idxOf o.path, toLex (o.line, toLex (textKey o.path, textKey o.value)))

inductive SecretType where
  | file
  | keyValue
deriving DecidableEq

structure Classified where
  path : Text
  line : Nat
  name : Text
  value : Bytes
  envGuess : Text
  ambiguous : Bool
  secretType : SecretType
deriving DecidableEq

structure Dropped where
  path : Text
  line : Nat
  name : Text
deriving DecidableEq

def sanitizeFileName : Text :=
  ("FILE_".toList ++ path.map fun c => if c.isAlphanum then c.toUpper else '_').take 128

variable (defaultEnv : Text)

def wholeFile (file : File) : Classified where
  path := file.path
  line := 1
  name := if (fromUtf8 file.bytes).isSome then sanitizeFileName file.path else file.path
  value := file.bytes
  envGuess := defaultEnv
  ambiguous := true
  secretType := .file

def groupOf (o : Occurrence) : Text × Text := ((guessEnv (fileName o.path) defaultEnv).1, o.name)

def groups (order : List Text) (defaultEnv : Text) (found : List Occurrence) :
    List ((Text × Text) × List Occurrence) :=
  (found.map (groupOf defaultEnv)).dedup.map fun group =>
    (group, sortBy (placeOf order) (found.filter fun o => groupOf defaultEnv o = group))

def winner (group : (Text × Text) × List Occurrence) : Option Classified :=
  group.2.getLast?.map fun o =>
    { path := o.path, line := o.line, name := group.1.2, value := utf8 o.value, envGuess := group.1.1
      ambiguous := (guessEnv (fileName o.path) defaultEnv).2, secretType := .keyValue }

def losers (group : (Text × Text) × List Occurrence) : List Dropped :=
  group.2.dropLast.map fun o => ⟨o.path, o.line, group.1.2⟩

/-- The values that are migrated, and those dropped for another file's. -/
def classifyFiles : Except String (List Classified × List Dropped) := do
  let found ← parseAll "failed to parse" (files.filter fun f => isEnvFile f.path)
  let layered := groups (ranked files) defaultEnv found
  let classified := (files.filter fun f => !isEnvFile f.path).map (wholeFile defaultEnv) ++
    layered.filterMap (winner defaultEnv)
  return (sortBy (fun c => toLex
    (textKey c.envGuess, toLex (textKey c.name, toLex (textKey c.path, c.line)))) classified,
    sortBy (fun d => toLex (textKey d.path, d.line)) (layered.flatMap losers))

theorem of_parseAll {label : String} {found : List Occurrence} {files : List File}
    (h : parseAll label files = .ok found) :
    found = files.flatMap assignments ∧ ∀ f ∈ files, (parseDotenvWithLines f.bytes).isOk = true := by
  obtain ⟨lists, hlists, rfl⟩ := map_eq_ok.mp h
  clear h
  rw [mapM_eq_ok] at hlists
  induction hlists with
  | nil => exact ⟨rfl, nofun⟩
  | @cons f list files _ hf _ ih =>
    obtain ⟨hfo, hok⟩ := ih
    unfold parseFile at hf
    split at hf
    · cases hf
    · next parsed hparsed =>
      cases hf
      refine ⟨by rw [flatten_cons, hfo, flatMap_cons], ?_⟩
      intro g hg
      rcases mem_cons.mp hg with rfl | hg
      · rw [hparsed]
        rfl
      · exact hok g hg

theorem parseAll_of_ok (label : String) {files : List File}
    (h : ∀ f ∈ files, (parseDotenvWithLines f.bytes).isOk = true) :
    parseAll label files = .ok (files.flatMap assignments) := by
  have hfs : files.mapM (parseFile label) = .ok (files.map assignments) := by
    rw [mapM_eq_ok]
    induction files with
    | nil => exact .nil
    | cons f files ih =>
      refine .cons ?_ (ih fun g hg => h g (mem_cons_of_mem f hg))
      have hf := h f mem_cons_self
      unfold parseFile
      cases hparsed : parseDotenvWithLines f.bytes with
      | error e =>
        rw [hparsed] at hf
        cases hf
      | ok parsed => rfl
  rw [parseAll, hfs]
  rfl

theorem path_of_assignments {file : File} {o : Occurrence} (h : o ∈ assignments file) :
    o.path = file.path := by
  obtain ⟨a, -, rfl⟩ := mem_map.mp h
  rfl

theorem lines_of_assignments (file : File) : (assignments file).Pairwise fun a b => a.line < b.line := by
  rw [assignments, pairwise_map]
  cases hparsed : parseDotenvWithLines file.bytes with
  | error e => exact Pairwise.nil
  | ok parsed => exact lines_of_parseDotenvWithLines hparsed

/-- The occurrence whose value a name gets: the last one of it. -/
def injected (name : Text) : Option Occurrence :=
  (loaded.filter fun o => o.name = name).getLast?

theorem lookup_applyOverrides (name : Text) :
    (applyOverrides loaded).lookup name = (injected loaded name).map Occurrence.value := by
  induction loaded using reverseRecOn with
  | nil => rfl
  | append_singleton loaded o ih =>
    rw [applyOverrides, foldl_append, foldl_cons, foldl_nil, ← applyOverrides, injected, filter_append]
    by_cases hn : o.name = name
    · subst hn
      simp
    · rw [lookup_insert_ne (Ne.symm hn), ih]
      simp [injected, hn]

theorem envFiles_perm : (files.filter fun f => isEnvFile f.path).Perm (envFiles files) :=
  (filter_append_perm _ _).symm

theorem textKey_injective : Function.Injective textKey := by
  intro a b h
  exact utf8_inj (map_injective_iff.mpr (fun _ _ => BitVec.eq_of_toNat_eq) h)

theorem layer_injective : Function.Injective layer := by
  intro a b h
  exact textKey_injective (mk.inj (toLex.injective h)).2

/-! ## What is found in the files -/

def occurrences : List Occurrence := (files.filter fun f => isEnvFile f.path).flatMap assignments

def layeredGroup (group : Text × Text) : List Occurrence :=
  sortBy (placeOf (ranked files)) ((occurrences files).filter fun o => groupOf defaultEnv o = group)

variable {order : List Text}

section

variable {files : List File} {defaultEnv : Text} {classified : List Classified} {dropped : List Dropped}

theorem of_classifyFiles (h : classifyFiles files defaultEnv = .ok (classified, dropped)) :
    (∀ f ∈ files, isEnvFile f.path = true → (parseDotenvWithLines f.bytes).isOk = true) ∧
      (∀ c, c ∈ classified ↔ (∃ f ∈ files, isEnvFile f.path = false ∧ wholeFile defaultEnv f = c) ∨
        ∃ o ∈ occurrences files, winner defaultEnv (groupOf defaultEnv o,
          layeredGroup files defaultEnv (groupOf defaultEnv o)) =
          some c) ∧ ∀ d, d ∈ dropped ↔ ∃ o ∈ occurrences files,
        d ∈ losers (groupOf defaultEnv o, layeredGroup files defaultEnv (groupOf defaultEnv o)) := by
  simp only [classifyFiles, bind_eq_ok, pure_eq_ok, mk.injEq] at h
  obtain ⟨found, hfo, rfl, rfl⟩ := h
  obtain ⟨rfl, hok⟩ := of_parseAll hfo
  have hgroups : ∀ Q : (Text × Text) × List Occurrence → Prop,
    (∃ group ∈ groups (ranked files) defaultEnv (occurrences files), Q group) ↔
      ∃ o ∈ occurrences files, Q (groupOf defaultEnv o,
        layeredGroup files defaultEnv (groupOf defaultEnv o)) := by
    intro Q
    simp only [groups, mem_map, mem_dedup]
    constructor
    · rintro ⟨_, ⟨key, ⟨o, ho, rfl⟩, rfl⟩, hQ⟩
      exact ⟨o, ho, hQ⟩
    · rintro ⟨o, ho, hQ⟩
      exact ⟨_, ⟨_, ⟨o, ho, rfl⟩, rfl⟩, hQ⟩
  refine ⟨fun f hf henv => hok f (mem_filter.mpr ⟨hf, henv⟩), fun c => ?_, fun d => ?_⟩
  · simp only [mem_sortBy, mem_append, mem_map, mem_filter, mem_filterMap, Bool.not_eq_true', and_assoc]
    exact or_congr Iff.rfl (hgroups _)
  · rw [mem_sortBy, mem_flatMap]
    exact hgroups _

theorem exists_classifyFiles (defaultEnv : Text)
    (h : ∀ f ∈ files, isEnvFile f.path = true → (parseDotenvWithLines f.bytes).isOk = true) :
    ∃ classified dropped, classifyFiles files defaultEnv = .ok (classified, dropped) := by
  have hparse : parseAll "failed to parse" (files.filter fun f => isEnvFile f.path) =
    .ok (occurrences files) :=
    parseAll_of_ok _ fun f hf => h f (mem_filter.mp hf).1 (mem_filter.mp hf).2
  rw [classifyFiles, hparse]
  exact ⟨_, _, rfl⟩

variable {a b : Occurrence} {files' : List File}

theorem placeOf_inj (h : placeOf order a = placeOf order b) (hname : a.name = b.name) : a = b := by
  obtain ⟨-, h⟩ := mk.inj (toLex.injective h)
  obtain ⟨hline, h⟩ := mk.inj (toLex.injective h)
  obtain ⟨hpath, hv⟩ := mk.inj (toLex.injective h)
  cases a
  cases b
  cases textKey_injective hpath
  cases textKey_injective hv
  cases hline
  cases hname
  rfl

theorem layeredGroup_perm (hperm : files.Perm files') (group : Text × Text) :
    layeredGroup files defaultEnv group = layeredGroup files' defaultEnv group := by
  have henv := hperm.filter fun f => isEnvFile f.path
  have hranked : ranked files = ranked files' :=
    sortBy_congr (henv.map File.path) fun _ _ _ _ hlayer => layer_injective hlayer
  rw [layeredGroup, layeredGroup, hranked]
  refine sortBy_congr ((henv.flatMap_right assignments).filter _) ?_
  intro a ha b hb hplace
  have hgroup := (of_decide_eq_true (mem_filter.mp ha).2).trans (of_decide_eq_true (mem_filter.mp hb).2).symm
  exact placeOf_inj hplace (mk.inj hgroup).2

theorem classified_perm (hperm : files.Perm files')
    (h : classifyFiles files defaultEnv = .ok (classified, dropped)) :
    ∃ classified' dropped', classifyFiles files' defaultEnv = .ok (classified', dropped') ∧
      ∀ c, c ∈ classified ↔ c ∈ classified' := by
  obtain ⟨hok, hmem, -⟩ := of_classifyFiles h
  obtain ⟨classified', dropped', h'⟩ :=
    exists_classifyFiles defaultEnv fun f hf => hok f (hperm.symm.subset hf)
  refine ⟨classified', dropped', h', ?_⟩
  intro c
  rw [hmem, (of_classifyFiles h').2.1]
  have hfo : (occurrences files).Perm (occurrences files') := (hperm.filter _).flatMap_right assignments
  simp only [hperm.mem_iff, hfo.mem_iff, layeredGroup_perm hperm]

theorem occurrence_eq (hpaths : (files.map File.path).Nodup) (ha : a ∈ occurrences files)
    (hb : b ∈ occurrences files) (hpath : a.path = b.path) (hline : a.line = b.line) : a = b := by
  obtain ⟨f, hf, haf⟩ := mem_flatMap.mp ha
  obtain ⟨g, hg, hbg⟩ := mem_flatMap.mp hb
  rw [path_of_assignments haf, path_of_assignments hbg] at hpath
  cases inj_on_of_nodup_map hpaths (mem_filter.mp hf).1 (mem_filter.mp hg).1 hpath
  refine inj_on_of_nodup_map (f := Occurrence.line) ?_ haf hbg hline
  exact (pairwise_map.mpr (lines_of_assignments f)).imp Nat.ne_of_lt

theorem mem_ranked {o : Occurrence} (ho : o ∈ occurrences files) : o.path ∈ ranked files := by
  obtain ⟨f, hf, hof⟩ := mem_flatMap.mp ho
  rw [path_of_assignments hof]
  exact mem_sortBy.mpr (mem_map_of_mem hf)

theorem isEnvFile_of_occurrence {o : Occurrence} (ho : o ∈ occurrences files) : isEnvFile o.path = true := by
  obtain ⟨f, hf, hof⟩ := mem_flatMap.mp ho
  rw [path_of_assignments hof]
  exact (mem_filter.mp hf).2

theorem idxOf_lt_of_layer {a b : Text} (ha : a ∈ ranked files) (hb : b ∈ ranked files)
    (h : layer a < layer b) :
    (ranked files).idxOf a < (ranked files).idxOf b := by
  by_contra hle
  rcases Nat.lt_or_eq_of_le (Nat.le_of_not_lt hle) with hlt | heq
  · have hsorted := pairwise_iff_getElem.mp (sorted_sortBy layer _) _ _ (idxOf_lt_length_of_mem hb)
      (idxOf_lt_length_of_mem ha) hlt
    rw [getElem_idxOf, getElem_idxOf] at hsorted
    exact absurd h (not_lt_of_ge hsorted)
  · rw [(idxOf_inj hb).mp heq] at h
    exact lt_irrefl _ h

variable {a b : Occurrence}

theorem place_lt_of_layer (ha : a ∈ occurrences files) (hb : b ∈ occurrences files)
    (h : layer a.path < layer b.path) : placeOf (ranked files) a < placeOf (ranked files) b :=
  Prod.Lex.toLex_lt_toLex.mpr (.inl (idxOf_lt_of_layer (mem_ranked ha) (mem_ranked hb) h))

theorem layer_le_of_place (ha : a ∈ occurrences files) (hb : b ∈ occurrences files)
    (h : placeOf (ranked files) a ≤ placeOf (ranked files) b) : layer a.path ≤ layer b.path :=
  le_of_not_gt fun hlt => not_lt_of_ge h (place_lt_of_layer hb ha hlt)

/-- An occurrence that stands last in its group. -/
def Wins (files : List File) (defaultEnv : Text) (w : Occurrence) : Prop :=
  w ∈ occurrences files ∧ ∀ o ∈ occurrences files, groupOf defaultEnv o = groupOf defaultEnv w →
    placeOf (ranked files) o ≤ placeOf (ranked files) w

theorem last_of_group {w : Occurrence} {group : Text × Text} :
    (layeredGroup files defaultEnv group).getLast? = some w ↔
    Wins files defaultEnv w ∧ groupOf defaultEnv w = group := by
  have hmem : ∀ o, o ∈ (occurrences files).filter (fun o => groupOf defaultEnv o = group) ↔
      o ∈ occurrences files ∧ groupOf defaultEnv o = group := by
    intro o
    rw [mem_filter, decide_eq_true_eq]
  constructor
  · intro hlast
    have hw := (hmem w).mp (mem_sortBy.mp (mem_of_getLast? hlast))
    exact ⟨⟨hw.1, fun o ho hgroup => le_last_sortBy hlast ((hmem o).mpr ⟨ho, hgroup.trans hw.2⟩)⟩, hw.2⟩
  · rintro ⟨⟨hw, hlast⟩, rfl⟩
    have hin : w ∈ layeredGroup files defaultEnv (groupOf defaultEnv w) :=
      mem_sortBy.mpr ((hmem w).mpr ⟨hw, rfl⟩)
    obtain ⟨last, hla⟩ := exists_last hin
    have hmore := (hmem last).mp (mem_sortBy.mp (mem_of_getLast? hla))
    rw [hla, placeOf_inj (le_antisymm (hlast last hmore.1 hmore.2)
      (le_last_sortBy hla ((hmem w).mpr ⟨hw, rfl⟩)))
      (mk.inj hmore.2).2]

def entry (defaultEnv : Text) (w : Occurrence) : Classified where
  path := w.path
  line := w.line
  name := w.name
  value := utf8 w.value
  envGuess := (guessEnv (fileName w.path) defaultEnv).1
  ambiguous := (guessEnv (fileName w.path) defaultEnv).2
  secretType := .keyValue

theorem mem_classified (h : classifyFiles files defaultEnv = .ok (classified, dropped)) (c : Classified) :
    c ∈ classified ↔ (∃ f ∈ files, isEnvFile f.path = false ∧ wholeFile defaultEnv f = c) ∨
      ∃ w, Wins files defaultEnv w ∧ entry defaultEnv w = c := by
  rw [(of_classifyFiles h).2.1]
  refine or_congr Iff.rfl ⟨?_, ?_⟩
  · rintro ⟨o, ho, hwinner⟩
    obtain ⟨w, hw, rfl⟩ := Option.map_eq_some_iff.mp hwinner
    obtain ⟨hwins, hgroup⟩ := last_of_group.mp hw
    refine ⟨w, hwins, ?_⟩
    rw [← hgroup]
    rfl
  · rintro ⟨w, hwins, rfl⟩
    exact ⟨w, hwins.1, congrArg (Option.map _) (last_of_group.mpr ⟨hwins, rfl⟩)⟩

/-- Which occurrences are dropped; of one file a name can be dropped several times. -/
theorem mem_dropped (h : classifyFiles files defaultEnv = .ok (classified, dropped)) (d : Dropped) :
    d ∈ dropped ↔ ∃ o ∈ occurrences files,
      o ∈ (layeredGroup files defaultEnv (groupOf defaultEnv o)).dropLast ∧ ⟨o.path, o.line, o.name⟩ = d := by
  have hgroup : ∀ {group o}, o ∈ (layeredGroup files defaultEnv group).dropLast →
      o ∈ occurrences files ∧ groupOf defaultEnv o = group := by
    intro group o ho
    have hmem := mem_filter.mp (mem_sortBy.mp (mem_of_mem_dropLast ho))
    exact ⟨hmem.1, of_decide_eq_true hmem.2⟩
  rw [(of_classifyFiles h).2.2]
  constructor
  · rintro ⟨o, -, hd⟩
    obtain ⟨loser, hloser, rfl⟩ := mem_map.mp hd
    obtain ⟨hmem, heq⟩ := hgroup hloser
    rw [← heq] at hloser
    exact ⟨loser, hmem, hloser, congrArg (Dropped.mk _ _) (mk.inj heq).2⟩
  · rintro ⟨o, ho, hlo, rfl⟩
    exact ⟨o, ho, mem_map.mpr ⟨o, hlo, rfl⟩⟩

theorem value_of_place {c c' : Classified} (hpaths : (files.map File.path).Nodup)
    (h : classifyFiles files defaultEnv = .ok (classified, dropped)) (hc : c ∈ classified)
    (hc' : c' ∈ classified) (hpath : c.path = c'.path) (hline : c.line = c'.line) : c.value = c'.value := by
  rw [mem_classified h] at hc hc'
  rcases hc with ⟨f, hf, hfi, rfl⟩ | ⟨w, hw, rfl⟩
  · rcases hc' with ⟨g, hg, -, rfl⟩ | ⟨w', hw', rfl⟩
    · cases inj_on_of_nodup_map hpaths hf hg hpath
      rfl
    · have henv := isEnvFile_of_occurrence hw'.1
      rw [show w'.path = f.path from hpath.symm, hfi] at henv
      cases henv
  · rcases hc' with ⟨g, hg, hgi, rfl⟩ | ⟨w', hw', rfl⟩
    · have henv := isEnvFile_of_occurrence hw.1
      rw [show w.path = g.path from hpath, hgi] at henv
      cases henv
    · rw [occurrence_eq hpaths hw.1 hw'.1 hpath hline]

end

variable {name : Text} {f : File}

section

variable {files : List File} {defaultEnv : Text}

theorem nodup_occurrences (hpaths : (files.map File.path).Nodup) : (occurrences files).Nodup := by
  rw [occurrences, nodup_flatMap]
  refine ⟨fun f _ => Nodup.of_map Occurrence.line
    ((pairwise_map.mpr (lines_of_assignments f)).imp Nat.ne_of_lt), ?_⟩
  refine (pairwise_map.mp (hpaths.sublist (filter_sublist.map File.path))).imp ?_
  intro f g hne o hof hog
  exact hne ((path_of_assignments hof).symm.trans (path_of_assignments hog))

def assigns (name : Text) (file : File) : Bool := (assignments file).any fun o => o.name = name

theorem assigns_iff : assigns name f = true ↔ ∃ o ∈ assignments f, o.name = name := by
  simp [assigns]

/-- What is injected for a name is the last assignment in the last file that has one. -/
theorem of_injected {list : List File} {o : Occurrence}
    (h : injected (list.flatMap assignments) name = some o) :
    ∃ f, (list.filter (assigns name)).getLast? = some f ∧ o ∈ assignments f ∧ o.name = name ∧
      ∀ o' ∈ assignments f, o'.name = name → o'.line ≤ o.line := by
  induction list using reverseRecOn with
  | nil => cases h
  | append_singleton list f ih =>
    rw [injected, flatMap_append, filter_append, flatMap_singleton] at h
    cases hlast : ((assignments f).filter fun o => o.name = name).getLast? with
    | none =>
      have hnil := getLast?_eq_none_iff.mp hlast
      rw [hnil, append_nil] at h
      obtain ⟨g, hg, hrest⟩ := ih h
      have hno : assigns name f = false := by
        rw [← Bool.not_eq_true, assigns_iff]
        rintro ⟨o', ho', hname⟩
        exact filter_eq_nil_iff.mp hnil o' ho' (decide_eq_true hname)
      refine ⟨g, ?_, hrest⟩
      rw [filter_append, filter_singleton, hno, cond_false, append_nil]
      exact hg
    | some last =>
      rw [getLast?_append, hlast, Option.some_or] at h
      obtain rfl : last = o := Option.some.inj h
      obtain ⟨front, hfront⟩ := getLast?_eq_some_iff.mp hlast
      have hmem := mem_filter.mp (mem_of_getLast? hlast)
      have hyes : assigns name f = true := assigns_iff.mpr ⟨last, hmem.1, of_decide_eq_true hmem.2⟩
      refine ⟨f, ?_, hmem.1, of_decide_eq_true hmem.2, fun o' ho' hname => ?_⟩
      · rw [filter_append, filter_singleton, hyes, cond_true, getLast?_append]
        rfl
      have hlines := (lines_of_assignments f).filter fun o => decide (o.name = name)
      have hin : o' ∈ (assignments f).filter fun o => o.name = name :=
        mem_filter.mpr ⟨ho', decide_eq_true hname⟩
      rw [hfront] at hlines hin
      rcases mem_append.mp hin with hbefore | hsame
      · exact ((pairwise_append.mp hlines).2.2 o' hbefore last (mem_singleton_self last)).le
      · rw [mem_singleton.mp hsame]

theorem exists_injected {o : Occurrence} {loaded : List Occurrence} (ho : o ∈ loaded) :
    ∃ last, injected loaded o.name = some last :=
  exists_last (mem_filter.mpr ⟨ho, decide_eq_true rfl⟩)

/-- Of the files that assign a name, the last one that `run` takes stands last by layer. -/
def LastByLayer (files : List File) : Prop :=
  ∀ name f, ((envFiles files).filter (assigns name)).getLast? = some f →
    ∀ g ∈ envFiles files, assigns name g = true → layer g.path ≤ layer f.path

theorem mem_loaded {o : Occurrence} : o ∈ (envFiles files).flatMap assignments ↔ o ∈ occurrences files :=
  ((envFiles_perm files).flatMap_right assignments).symm.mem_iff

theorem mem_occurrences {o : Occurrence} (hf : f ∈ envFiles files) (ho : o ∈ assignments f) :
    o ∈ occurrences files :=
  mem_loaded.mp (mem_flatMap.mpr ⟨f, hf, ho⟩)

/-- The live occurrence wins in its group, for every name, exactly if the last files are last by
layer. -/
theorem injected_wins_iff {env : Text} (hpaths : (files.map File.path).Nodup)
    (hgroup : ∀ o ∈ occurrences files, groupOf defaultEnv o = (env, o.name)) :
    (∀ name o, injected ((envFiles files).flatMap assignments) name = some o → Wins files defaultEnv o) ↔
      LastByLayer files := by
  constructor
  · intro hwins name f hlast g hg hassigns
    obtain ⟨o', ho', rfl⟩ := assigns_iff.mp hassigns
    have hmem' := mem_occurrences hg ho'
    obtain ⟨o, ho⟩ := exists_injected (mem_loaded.mpr hmem')
    obtain ⟨f', hf', hof, hname, -⟩ := of_injected ho
    cases hlast.symm.trans hf'
    have hwin := hwins _ o ho
    have hplace := hwin.2 o' hmem' (by rw [hgroup o' hmem', hgroup o hwin.1, hname])
    rw [← path_of_assignments ho', ← path_of_assignments hof]
    exact layer_le_of_place hmem' hwin.1 hplace
  · intro hlast name o ho
    obtain ⟨f, hf, hof, rfl, hlines⟩ := of_injected ho
    have hfile := (mem_filter.mp (mem_of_getLast? hf)).1
    refine ⟨mem_occurrences hfile hof, fun o' ho' hsame => ?_⟩
    rw [hgroup o' ho', hgroup o (mem_occurrences hfile hof)] at hsame
    have hname : o'.name = o.name := (mk.inj hsame).2
    obtain ⟨g, hg, hog⟩ := mem_flatMap.mp (mem_loaded.mpr ho')
    have hlayer := hlast o.name f hf g hg (assigns_iff.mpr ⟨o', hog, hname⟩)
    rw [← path_of_assignments hog, ← path_of_assignments hof] at hlayer
    rcases hlayer.lt_or_eq with hlt | heq
    · exact (place_lt_of_layer ho' (mem_occurrences hfile hof) hlt).le
    · -- the same file: the later line wins
      have hpath := layer_injective heq
      have hfg : g = f := inj_on_of_nodup_map hpaths
        ((envFiles_perm files).symm.subset hg |> mem_of_mem_filter)
        ((envFiles_perm files).symm.subset hfile |> mem_of_mem_filter)
        (by rw [← path_of_assignments hog, ← path_of_assignments hof, hpath])
      subst hfg
      rcases (hlines o' hog hname).lt_or_eq with hlt | heq
      · refine le_of_lt (Prod.Lex.toLex_lt_toLex.mpr
          (.inr ⟨by rw [hpath], Prod.Lex.toLex_lt_toLex.mpr (.inl hlt)⟩))
      · rw [occurrence_eq hpaths ho' (mem_occurrences hfile hof) hpath heq]

end

/-- Every dotenv file can be read. -/
def Readable (files : List File) : Prop :=
  ∀ f ∈ files, isEnvFile f.path = true → (parseDotenvWithLines f.bytes).isOk = true

instance (files : List File) : Decidable (Readable files) := inferInstanceAs (Decidable (∀ f ∈ files, _))

/-- The migration keeps what `run` injects, and nothing that it drops is injected. -/
def KeepsLiveValues : Prop :=
  ∀ classified dropped, classifyFiles files defaultEnv = .ok (classified, dropped) →
    ∃ loaded vars, loadedVars files = .ok loaded ∧ runSnapshot files = .ok vars ∧
      (∀ c ∈ classified, c.secretType = .keyValue → ∃ value, vars.lookup c.name = some value ∧
        c.value = utf8 value) ∧
      (∀ name value, vars.lookup name = some value →
        ∃ c ∈ classified, c.secretType = .keyValue ∧ c.name = name ∧ c.value = utf8 value) ∧
      ∀ d ∈ dropped, ∀ o, injected loaded d.name = some o → (o.path, o.line) ≠ (d.path, d.line)

section

variable {files : List File} {defaultEnv env : Text}

theorem loadedVars_eq (hread : Readable files) :
    loadedVars files = .ok ((envFiles files).flatMap assignments) := by
  refine parseAll_of_ok _ fun f hf => ?_
  obtain ⟨hmem, henv⟩ := mem_filter.mp ((envFiles_perm files).symm.subset hf)
  exact hread f hmem henv

theorem keepsLiveValues_of_wins (hpaths : (files.map File.path).Nodup)
    (hgroup : ∀ o ∈ occurrences files, groupOf defaultEnv o = (env, o.name))
    (hwins : ∀ name o, injected ((envFiles files).flatMap assignments) name = some o →
      Wins files defaultEnv o) :
    KeepsLiveValues files defaultEnv := by
  intro classified dropped h
  have hloaded := loadedVars_eq (of_classifyFiles h).1
  have hname : ∀ {name o}, injected ((envFiles files).flatMap assignments) name = some o → o.name = name := by
    intro name o ho
    exact of_decide_eq_true (mem_filter.mp (mem_of_getLast? ho)).2
  -- of the occurrences of one name, one wins
  have hunique : ∀ {w o}, Wins files defaultEnv w →
      injected ((envFiles files).flatMap assignments) w.name = some o → o = w := by
    intro w o hw ho
    have hwin := hwins _ o ho
    have hsame : groupOf defaultEnv o = groupOf defaultEnv w := by
      rw [hgroup o hwin.1, hgroup w hw.1, hname ho]
    exact placeOf_inj (le_antisymm (hw.2 o hwin.1 hsame) (hwin.2 w hw.1 hsame.symm)) (hname ho)
  refine ⟨_, applyOverrides ((envFiles files).flatMap assignments),
    hloaded, by rw [runSnapshot, hloaded]; rfl, ?_, ?_, ?_⟩
  · intro c hc hkind
    rcases (mem_classified h c).mp hc with ⟨f, -, -, rfl⟩ | ⟨w, hw, rfl⟩
    · cases hkind
    · obtain ⟨o, ho⟩ := exists_injected (mem_loaded.mpr hw.1)
      refine ⟨w.value, ?_, rfl⟩
      rw [lookup_applyOverrides, show (entry defaultEnv w).name = w.name from rfl, ho, hunique hw ho]
      rfl
  · intro name value hv
    rw [lookup_applyOverrides] at hv
    obtain ⟨o, ho, rfl⟩ := Option.map_eq_some_iff.mp hv
    exact ⟨entry defaultEnv o, (mem_classified h _).mpr (.inr ⟨o, hwins _ o ho, rfl⟩), rfl, hname ho, rfl⟩
  · intro d hd last hla hplace
    obtain ⟨o, ho, hlo, rfl⟩ := (mem_dropped h d).mp hd
    obtain ⟨hpath, hline⟩ := mk.inj hplace
    have hwin := hwins _ last hla
    obtain rfl : last = o := occurrence_eq hpaths hwin.1 ho hpath hline
    have hlast := last_of_group.mpr ⟨hwin, rfl⟩
    have hnodup : (layeredGroup files defaultEnv (groupOf defaultEnv last)).Nodup :=
      (sortBy_perm _ _).nodup_iff.mpr ((nodup_occurrences hpaths).filter _)
    rw [← dropLast_append_getLast? last hlast] at hnodup
    exact (nodup_append.mp hnodup).2.2 last hlo last (mem_singleton_self last) rfl

theorem KeepsLiveValues.wins {o : Occurrence} (hkeeps : KeepsLiveValues files defaultEnv)
    (hread : Readable files)
    (ho : injected ((envFiles files).flatMap assignments) name = some o) : Wins files defaultEnv o := by
  obtain ⟨classified, dropped, h⟩ := exists_classifyFiles defaultEnv hread
  obtain ⟨loaded, vars, hloaded, -, -, -, hdropped⟩ := hkeeps classified dropped h
  cases (loadedVars_eq hread).symm.trans hloaded
  have hmem := mem_filter.mp (mem_of_getLast? ho)
  obtain rfl : o.name = name := of_decide_eq_true hmem.2
  have hin : o ∈ layeredGroup files defaultEnv (groupOf defaultEnv o) :=
    mem_sortBy.mpr (mem_filter.mpr ⟨mem_loaded.mp hmem.1, decide_eq_true rfl⟩)
  obtain ⟨last, hla⟩ := exists_last hin
  rw [← dropLast_append_getLast? last hla, mem_append, mem_singleton] at hin
  rcases hin with hlo | rfl
  · -- it would be dropped
    have hd := (mem_dropped h ⟨o.path, o.line, o.name⟩).mpr ⟨o, mem_loaded.mp hmem.1, hlo, rfl⟩
    exact absurd rfl (hdropped _ hd o ho)
  · exact (last_of_group.mp hla).1

end

/-- Where all dotenv files guess one environment, the migration keeps the live values exactly if,
for each name, the last file that `run` takes is last by layer. Files that cannot be read are
refused. -/
theorem keeps_live_values (defaultEnv env : Text) (hpaths : (files.map File.path).Nodup)
    (hguess : ∀ f ∈ files, isEnvFile f.path = true → (guessEnv (fileName f.path) defaultEnv).1 = env) :
    KeepsLiveValues files defaultEnv ↔ (Readable files → LastByLayer files) := by
  have hgroup : ∀ o ∈ occurrences files, groupOf defaultEnv o = (env, o.name) := by
    intro o ho
    obtain ⟨f, hf, hof⟩ := mem_flatMap.mp ho
    obtain ⟨hmem, henv⟩ := mem_filter.mp hf
    rw [groupOf, path_of_assignments hof, hguess f hmem henv]
  constructor
  · intro hkeeps hread
    exact (injected_wins_iff hpaths hgroup).mp fun name o ho => hkeeps.wins hread ho
  · intro hlast classified dropped h
    have hwins := (injected_wins_iff hpaths hgroup).mpr (hlast (of_classifyFiles h).1)
    exact keepsLiveValues_of_wins hpaths hgroup hwins classified dropped h

section

def twoDirectories (first second : String) : List File :=
  [⟨("a/" ++ first).toList, utf8 "K=1".toList⟩, ⟨("z/" ++ second).toList, utf8 "K=2".toList⟩]

/-- `run` injects the value of `z/.env.local`, which is the later path; the migration drops it for
that of `a/local.env`. -/
theorem later_layer_dropped : ¬KeepsLiveValues (twoDirectories "local.env" ".env.local")
    "development".toList := by
  intro h
  have hcla : classifyFiles (twoDirectories "local.env" ".env.local") "development".toList =
      .ok ([⟨"a/local.env".toList, 1, ['K'], utf8 ['1'], "local".toList, true, .keyValue⟩],
        [⟨"z/.env.local".toList, 1, ['K']⟩]) := by decide +kernel
  have hrun : loadedVars (twoDirectories "local.env" ".env.local") =
      .ok [⟨"a/local.env".toList, 1, ['K'], ['1']⟩, ⟨"z/.env.local".toList, 1, ['K'], ['2']⟩] := by
        decide +kernel
  obtain ⟨loaded, vars, hloaded, -, -, -, hdro⟩ := h _ _ hcla
  cases hloaded
  exact hdro _ (mem_singleton_self _) ⟨"z/.env.local".toList, 1, ['K'], ['2']⟩ (by decide) rfl

/-- Files that assign different names can stand in any order. -/
theorem keeps_live_values_apart :
    KeepsLiveValues [⟨"a/local.env".toList, utf8 "K=1".toList⟩, ⟨"z/.env.local".toList, utf8 "L=2".toList⟩]
      "development".toList := by
  refine (keeps_live_values _ _ "local".toList (by decide +kernel) (by decide +kernel)).mpr fun _ => ?_
  intro name f hlast g hg hassigns
  have hf := mem_filter.mp (mem_of_getLast? hlast)
  obtain ⟨o, ho, rfl⟩ := assigns_iff.mp hf.2
  have hapart :
      ∀ f ∈ envFiles [⟨"a/local.env".toList, utf8 "K=1".toList⟩,
        ⟨"z/.env.local".toList, utf8 "L=2".toList⟩],
      ∀ g ∈ envFiles [⟨"a/local.env".toList, utf8 "K=1".toList⟩,
        ⟨"z/.env.local".toList, utf8 "L=2".toList⟩],
      ∀ o ∈ assignments f, assigns o.name g = true → f.path = g.path := by
    decide +kernel
  exact le_of_eq (congrArg layer (hapart f hf.1 g hg o ho hassigns).symm)

end

/-! ## Another default name -/

section

variable {files : List File} {defaultEnv : Text}

theorem flatMap_filter_perm {α κ : Type} [DecidableEq κ] (key : α → κ) (xs : List α) {keys : List κ}
    (hkeys : keys.Nodup) :
    (keys.flatMap fun k => xs.filter fun x => key x = k).Perm (xs.filter fun x => key x ∈ keys) := by
  induction keys with
  | nil => simp
  | cons k keys ih =>
    obtain ⟨hk, hkeys⟩ := nodup_cons.mp hkeys
    refine ((ih hkeys).append_left _).trans ?_
    refine .trans (.of_eq ?_) (filter_append_perm (fun x => decide (key x = k))
      (xs.filter fun x => key x ∈ k :: keys))
    simp only [filter_filter]
    congr 1 <;> refine filter_congr fun x _ => ?_
    · by_cases h : key x = k <;> simp [h]
    · by_cases h : key x = k <;> simp [h, hk]

theorem groups_perm (found : List Occurrence) :
    ((groups order defaultEnv found).flatMap Prod.snd).Perm found := by
  rw [groups, flatMap_map]
  refine (Perm.flatMap_left _ fun _ _ => sortBy_perm _ _).trans ?_
  refine (flatMap_filter_perm _ found (nodup_dedup _)).trans (.of_eq (filter_eq_self.mpr fun o ho => ?_))
  simpa using mem_map_of_mem (f := groupOf defaultEnv) ho

end

variable {files : List File} (defaultEnv defaultEnv' : Text)

/-- Every occurrence in a dotenv file is either kept or dropped. -/
def EitherWay (files : List File) (classified : List Classified) (dropped : List Dropped) : Prop :=
  ((classified.filter fun c => c.secretType = .keyValue).map (fun c => (c.path, c.line)) ++
    dropped.map fun d => (d.path, d.line)).Perm ((occurrences files).map fun o => (o.path, o.line))

/-- What is kept under one default name is kept with its bytes under the other. -/
def SameValues (files : List File) (defaultEnv defaultEnv' : Text) : Prop :=
  ∀ classified dropped, classifyFiles files defaultEnv = .ok (classified, dropped) →
    (∃ classified' dropped', classifyFiles files defaultEnv' = .ok (classified', dropped') ∧
      ∀ c ∈ classified, ∃ c' ∈ classified', c'.path = c.path ∧ c'.line = c.line ∧ c'.value = c.value) ∧
    EitherWay files classified dropped

theorem kept_or_dropped {classified : List Classified} {dropped : List Dropped}
    (h : classifyFiles files defaultEnv = .ok (classified, dropped)) :
    EitherWay files classified dropped := by
  simp only [classifyFiles, bind_eq_ok, pure_eq_ok, mk.injEq] at h
  obtain ⟨found, hf, rfl, rfl⟩ := h
  obtain ⟨rfl, -⟩ := of_parseAll hf
  have hgroup : ∀ group : (Text × Text) × List Occurrence,
      (((winner defaultEnv group).toList.map fun c => (c.path, c.line)) ++ (losers group).map
        fun d => (d.path, d.line)).Perm (group.2.map fun o => (o.path, o.line)) := by
    rintro ⟨key, list⟩
    cases hla : list.getLast? with
    | none => simp [winner, losers, getLast?_eq_none_iff.mp hla]
    | some o =>
      nth_rewrite 3 [← dropLast_append_getLast? o hla]
      simpa [winner, losers, hla, Function.comp_def] using (perm_append_singleton _ _).symm
  have hwhole : ((files.filter fun f => !isEnvFile f.path).map (wholeFile defaultEnv)).filter
      (fun c => c.secretType = .keyValue) = [] := by
    simp [filter_map, Function.comp_def, wholeFile]
  have hwin : ((groups (ranked files) defaultEnv (occurrences files)).filterMap (winner defaultEnv)).filter
      (fun c => c.secretType = .keyValue) =
        (groups (ranked files) defaultEnv (occurrences files)).flatMap fun group =>
          (winner defaultEnv group).toList := by
    rw [filterMap_eq_flatMap_toList]
    refine filter_eq_self.mpr fun c hc => ?_
    obtain ⟨group, -, hc⟩ := mem_flatMap.mp hc
    obtain ⟨o, -, rfl⟩ := Option.map_eq_some_iff.mp (Option.mem_toList.mp hc)
    rfl
  refine ((((sortBy_perm _ _).filter _).map _).append ((sortBy_perm _ _).map _)).trans ?_
  rw [filter_append, hwhole, nil_append]
  refine (Perm.of_eq (congrArg₂ _ (congrArg _ hwin) rfl)).trans ?_
  rw [map_flatMap, map_flatMap]
  refine (flatMap_append_perm _ _ _).trans ((Perm.flatMap_left _ fun group _ => hgroup group).trans ?_)
  rw [← map_flatMap]
  exact (groups_perm _).map _

/-- Two dotenv files are together under a default name. -/
def Together (defaultEnv : Text) (f g : File) : Prop :=
  (guessEnv (fileName f.path) defaultEnv).1 = (guessEnv (fileName g.path) defaultEnv).1

/-- Of two files that assign a name, apart under the first default and together under the second,
the lower one is below another such file that is together with it under the first. -/
def OverriddenAlready (files : List File) (defaultEnv defaultEnv' : Text) : Prop :=
  ∀ name, ∀ f ∈ envFiles files, ∀ g ∈ envFiles files, assigns name f = true → assigns name g = true →
    ¬Together defaultEnv f g → Together defaultEnv' f g → layer f.path < layer g.path →
    ∃ h ∈ envFiles files, assigns name h = true ∧ Together defaultEnv f h ∧ layer f.path < layer h.path

section

variable {defaultEnv defaultEnv'} {o o' w : Occurrence}

theorem file_of_occurrence (ho : o ∈ occurrences files) :
    ∃ f ∈ envFiles files, o ∈ assignments f ∧ f.path = o.path := by
  obtain ⟨f, hf, hof⟩ := mem_flatMap.mp (mem_loaded.mpr ho)
  exact ⟨f, hf, hof, (path_of_assignments hof).symm⟩

theorem groupOf_eq_iff {g : File} (hf : f.path = o.path) (hg : g.path = o'.path) :
    groupOf defaultEnv o = groupOf defaultEnv o' ↔ Together defaultEnv f g ∧ o.name = o'.name := by
  rw [groupOf, groupOf, mk.injEq, Together, hf, hg]

/-- What wins under the first default wins under the second. -/
theorem wins_of_overridden (hover : OverriddenAlready files defaultEnv defaultEnv')
    (hw : Wins files defaultEnv w) :
    Wins files defaultEnv' w := by
  refine ⟨hw.1, fun o ho hgroup => ?_⟩
  by_contra hlt
  have hplace := lt_of_not_ge hlt
  obtain ⟨f, hf, hwf, hfpath⟩ := file_of_occurrence hw.1
  obtain ⟨g, hg, hog, hgpath⟩ := file_of_occurrence ho
  obtain ⟨htogether', hname⟩ := (groupOf_eq_iff hgpath hfpath).mp hgroup
  have hapart : ¬Together defaultEnv f g := by
    intro htogether
    exact hlt (hw.2 o ho ((groupOf_eq_iff hgpath hfpath).mpr ⟨htogether.symm, hname⟩))
  have hlayer : layer f.path < layer g.path := by
    have hle := layer_le_of_place hw.1 ho hplace.le
    rw [← hfpath, ← hgpath] at hle
    refine lt_of_le_of_ne hle fun heq => hapart ?_
    rw [Together, layer_injective heq]
  obtain ⟨h, hh, hassigns, htogether, habove⟩ := hover w.name f hf g hg (assigns_iff.mpr ⟨w, hwf, rfl⟩)
    (assigns_iff.mpr ⟨o, hog, hname⟩) hapart htogether'.symm hlayer
  obtain ⟨o', ho', hname'⟩ := assigns_iff.mp hassigns
  have hmem' := mem_occurrences hh ho'
  rw [hfpath, ← path_of_assignments ho'] at habove
  have hle := hw.2 o' hmem' ((groupOf_eq_iff (path_of_assignments ho').symm hfpath).mpr
    ⟨htogether.symm, hname'⟩)
  exact not_lt_of_ge hle (place_lt_of_layer hw.1 hmem' habove)

theorem sameValues_of_overridden (hover : Readable files → OverriddenAlready files defaultEnv defaultEnv') :
    SameValues files defaultEnv defaultEnv' := by
  intro classified dropped h
  refine ⟨?_, kept_or_dropped defaultEnv h⟩
  have hread := (of_classifyFiles h).1
  obtain ⟨classified', dropped', h'⟩ := exists_classifyFiles defaultEnv' hread
  refine ⟨classified', dropped', h', fun c hc => ?_⟩
  rcases (mem_classified h c).mp hc with ⟨f, hf, hfi, rfl⟩ | ⟨w, hw, rfl⟩
  · exact ⟨_, (mem_classified h' _).mpr (.inl ⟨f, hf, hfi, rfl⟩), rfl, rfl, rfl⟩
  · refine ⟨entry defaultEnv' w, (mem_classified h' _).mpr (.inr ⟨w, ?_, rfl⟩), rfl, rfl, rfl⟩
    exact wins_of_overridden (hover hread) hw

theorem SameValues.wins (hsame : SameValues files defaultEnv defaultEnv') (hread : Readable files)
    (hpaths : (files.map File.path).Nodup) (hw : Wins files defaultEnv w) : Wins files defaultEnv' w := by
  obtain ⟨classified, dropped, h⟩ := exists_classifyFiles defaultEnv hread
  obtain ⟨⟨classified', dropped', h', hkept⟩, -⟩ := hsame classified dropped h
  obtain ⟨c', hc', hpath, hline, -⟩ := hkept _ ((mem_classified h _).mpr (.inr ⟨w, hw, rfl⟩))
  rcases (mem_classified h' c').mp hc' with ⟨f, -, hfi, rfl⟩ | ⟨w', hw', rfl⟩
  · have henv := isEnvFile_of_occurrence hw.1
    rw [show w.path = f.path from hpath.symm, hfi] at henv
    cases henv
  · exact occurrence_eq hpaths hw'.1 hw.1 hpath hline ▸ hw'

theorem overridden_of_sameValues (hsame : SameValues files defaultEnv defaultEnv') (hread : Readable files)
    (hpaths : (files.map File.path).Nodup) : OverriddenAlready files defaultEnv defaultEnv' := by
  intro name f hf g hg hassigns hassigns' _ htogether' hlayer
  obtain ⟨a, ha, rfl⟩ := assigns_iff.mp hassigns
  obtain ⟨b, hb, hname⟩ := assigns_iff.mp hassigns'
  have hmema := mem_occurrences hf ha
  have hmemb := mem_occurrences hg hb
  have hin : a ∈ layeredGroup files defaultEnv (groupOf defaultEnv a) :=
    mem_sortBy.mpr (mem_filter.mpr ⟨hmema, decide_eq_true rfl⟩)
  obtain ⟨w, hla⟩ := exists_last hin
  obtain ⟨hw, hgroup⟩ := last_of_group.mp hla
  obtain ⟨h, hh, hwh, hhpath⟩ := file_of_occurrence hw.1
  obtain ⟨htogether, hwname⟩ := (groupOf_eq_iff hhpath (path_of_assignments ha).symm).mp hgroup
  refine ⟨h, hh, assigns_iff.mpr ⟨w, hwh, hwname⟩, htogether.symm, ?_⟩
  have hle := layer_le_of_place hmema hw.1 (hw.2 a hmema hgroup.symm)
  rw [path_of_assignments ha, ← hhpath] at hle
  refine lt_of_le_of_ne hle fun heq => ?_
  -- otherwise it wins under the second default too, where the other file is above it
  have hpath := layer_injective heq
  have htogether'' : Together defaultEnv' g h := by
    rw [Together, ← hpath]
    exact htogether'.symm
  have hplace := (hsame.wins hread hpaths hw).2 b hmemb
    ((groupOf_eq_iff (path_of_assignments hb).symm hhpath).mpr ⟨htogether'', hname.trans hwname.symm⟩)
  have hlayers := layer_le_of_place hmemb hw.1 hplace
  rw [path_of_assignments hb, ← hhpath, ← hpath] at hlayers
  exact not_lt_of_ge hlayers hlayer

end

/-- What is kept under one default name is kept under the other, exactly if what the second
overrides is overridden under the first already. -/
theorem same_values_under_defaults (hpaths : (files.map File.path).Nodup) :
    SameValues files defaultEnv defaultEnv' ↔
    (Readable files → OverriddenAlready files defaultEnv defaultEnv') :=
  ⟨fun hsame hread => overridden_of_sameValues hsame hread hpaths, sameValues_of_overridden⟩

/-- The plan for `dev` keeps both values; the default of `apply` puts the files together, and the
first is dropped. -/
theorem kept_under_one_default :
    ¬ SameValues (twoDirectories ".env" ".env.development") "dev".toList "development".toList := by
  intro h
  have hdev : classifyFiles (twoDirectories ".env" ".env.development") "dev".toList =
      .ok ([⟨"a/.env".toList, 1, ['K'], utf8 ['1'], "dev".toList, true, .keyValue⟩,
        ⟨"z/.env.development".toList, 1, ['K'], utf8 ['2'], "development".toList, false,
          .keyValue⟩], []) := by decide +kernel
  have hdeve : classifyFiles (twoDirectories ".env" ".env.development") "development".toList =
      .ok ([⟨"z/.env.development".toList, 1, ['K'], utf8 ['2'], "development".toList, false, .keyValue⟩],
        [⟨"a/.env".toList, 1, ['K']⟩]) := by decide +kernel
  obtain ⟨⟨classified', dropped', h', hk⟩, -⟩ := h _ _ hdev
  cases hdeve.symm.trans h'
  exact absurd (hk _ mem_cons_self) (by decide)

/-- The other way round, nothing is lost: the plan has the file that wins under every default. -/
theorem same_values_development_dev :
    SameValues (twoDirectories ".env" ".env.development") "development".toList "dev".toList := by
  refine (same_values_under_defaults _ _ (by decide +kernel)).mpr fun _ => ?_
  intro name f hf g hg _ _ _ htogether hlayer
  have hapart : ∀ f ∈ envFiles (twoDirectories ".env" ".env.development"),
      ∀ g ∈ envFiles (twoDirectories ".env" ".env.development"),
      (guessEnv (fileName f.path) "dev".toList).1 = (guessEnv (fileName g.path) "dev".toList).1 →
        f.path = g.path := by
    decide +kernel
  rw [hapart f hf g hg htogether] at hlayer
  exact absurd hlayer (lt_irrefl _)

end CipherVault.Migrate
