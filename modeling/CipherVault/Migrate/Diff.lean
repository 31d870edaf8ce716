import CipherVault.Migrate.Classify

/-!
# Migrate.Diff

The comparison of two contents of a file: `apps/cli/src/diff.rs`, with a missing file as
`generate_diff_report` passes it on. `lossy` is `String::from_utf8_lossy`.
-/

namespace CipherVault.Migrate.Diff

open Crypto List

inductive ChangeType where
  | added (value : Text)
  | removed (value : Text)
  | modified (oldValue newValue : Text)
  | unchanged (value : Text)

structure SecretDiffEntry where
  key : Text
  change : ChangeType

structure FileDiffReport where
  filePath : Text
  isDotenv : Bool
  entries : List SecretDiffEntry
  (addedCount removedCount modifiedCount : Nat)

def maskValue (val : Text) : Text :=
  if val.length ≤ 6 then "***".toList
  else
    let shown := if val.length ≤ 12 then 2 else 3
    val.take shown ++ "***".toList ++ val.drop (val.length - shown)

variable (reveal : Bool)

def display (val : Text) : Text := if reveal then val else maskValue val

def ChangeType.isAdded : ChangeType → Bool
  | .added _ => true
  | _ => false

def ChangeType.isRemoved : ChangeType → Bool
  | .removed _ => true
  | _ => false

def ChangeType.isModified : ChangeType → Bool
  | .modified _ _ => true
  | _ => false

/-- A report with its counters, each raised where an entry of its kind is pushed. -/
def reportOf (filePath : Text) (isDotenv : Bool) (entries : List SecretDiffEntry) : FileDiffReport :=
  ⟨filePath, isDotenv, entries, entries.countP (·.change.isAdded), entries.countP (·.change.isRemoved),
    entries.countP (·.change.isModified)⟩

/-- What the map of the variables has for a key: the last value. -/
def effective (vars : List (Text × Text)) (key : Text) : Option Text := vars.reverse.lookup key

def changeOf (oldVars newVars : List (Text × Text)) (key : Text) : Option ChangeType :=
  match effective oldVars key, effective newVars key with
  | none, some new => some (.added (display reveal new))
  | some old, none => some (.removed (display reveal old))
  | some old, some new =>
    some (if old = new then .unchanged (display reveal old)
      else .modified (display reveal old) (display reveal new))
  | none, none => none

/-- By key. -/
def diffDotenv (filePath : Text) (oldVars newVars : List (Text × Text)) : FileDiffReport :=
  reportOf filePath true ((sortBy textKey ((oldVars ++ newVars).map Prod.fst).dedup).filterMap fun key =>
    (changeOf reveal oldVars newVars key).map (⟨key, ·⟩))

/-- The lines of a content, without the ends of the lines. -/
def linesOf {α : Type} [DecidableEq α] (newline ret : α) (content : List α) : List (List α) :=
  let parts := content.splitOnP fun c => decide (c = newline)
  parts.dropLast.map (fun line => if line.getLast? = some ret then line.dropLast else line) ++
    (parts.getLast?.filter (· ≠ [])).toList

/-- `str::lines`. -/
def textLines (text : Text) : List Text := linesOf '\n' '\r' text

def diffText (filePath oldText newText : Text) : FileDiffReport :=
  let oldLines := textLines oldText
  let newLines := textLines newText
  reportOf filePath false
    ((oldLines.filter (!newLines.contains ·)).map (fun line => ⟨['-'], .removed (display reveal line)⟩) ++
      (newLines.filter (!oldLines.contains ·)).map fun line => ⟨['+'], .added (display reveal line)⟩)

def parseDotenvBytes (bytes : Bytes) : Except String (List (Text × Text)) :=
  (parseDotenvWithLines bytes).map (·.map fun a => (a.1, a.2.1))

variable (lossy : Bytes → Text)

def isDotenvFile (path : Text) : Bool :=
  let name := ((path.splitOn '/').getLast?).getD path
  name == ".env".toList || ".env.".toList.isPrefixOf name || ".env".toList.isSuffixOf name

/-- By key for a dotenv file, otherwise by line. -/
def diffFileBytes (path : Text) (oldBytes newBytes : Bytes) : FileDiffReport :=
  match isDotenvFile path, parseDotenvBytes oldBytes, parseDotenvBytes newBytes with
  | true, .ok oldVars, .ok newVars => diffDotenv reveal path oldVars newVars
  | _, _, _ => diffText reveal path (lossy oldBytes) (lossy newBytes)

/-- The report on a path of two trees, either of which may not have it. -/
def diffPath (path : Text) (old new : Option Bytes) : FileDiffReport :=
  diffFileBytes reveal lossy path (old.getD []) (new.getD [])

/-- Nothing is reported as added, removed or modified. -/
def Clean (report : FileDiffReport) : Prop :=
  report.addedCount = 0 ∧ report.removedCount = 0 ∧ report.modifiedCount = 0

instance instDecidableClean (report : FileDiffReport) : Decidable (Clean report) :=
  inferInstanceAs (Decidable (_ ∧ _))

variable {reveal lossy}

variable {path : Text}

theorem clean_reportOf {flag : Bool} {entries : List SecretDiffEntry} :
    Clean (reportOf path flag entries) ↔ ∀ e ∈ entries, ∃ value, e.change = .unchanged value := by
  simp only [Clean, reportOf, countP_eq_zero]
  constructor
  · rintro ⟨hadded, hremoved, hmodified⟩ e he
    cases hchange : e.change with
    | added => exact absurd (by rw [hchange]; rfl) (hadded e he)
    | removed => exact absurd (by rw [hchange]; rfl) (hremoved e he)
    | modified => exact absurd (by rw [hchange]; rfl) (hmodified e he)
    | unchanged value => exact ⟨value, rfl⟩
  · intro h
    refine ⟨fun e he => ?_, fun e he => ?_, fun e he => ?_⟩
    all_goals
      obtain ⟨value, hchange⟩ := h e he
      rw [hchange]
      nofun

theorem clean_diffText {oldText newText : Text} : Clean (diffText reveal path oldText newText) ↔
    ∀ line, line ∈ textLines oldText ↔ line ∈ textLines newText := by
  rw [diffText, clean_reportOf]
  simp only [mem_append, mem_map, mem_filter, Bool.not_eq_true', ← Bool.not_eq_true, contains_iff_mem]
  constructor
  · intro h line
    constructor
    · intro hline
      by_contra hgone
      obtain ⟨_, hchange⟩ := h _ (.inl ⟨line, ⟨hline, hgone⟩, rfl⟩)
      cases hchange
    · intro hline
      by_contra hgone
      obtain ⟨_, hchange⟩ := h _ (.inr ⟨line, ⟨hline, hgone⟩, rfl⟩)
      cases hchange
  · rintro h e (⟨line, ⟨hline, hgone⟩, -⟩ | ⟨line, ⟨hline, hgone⟩, -⟩)
    · exact absurd ((h line).mp hline) hgone
    · exact absurd ((h line).mpr hline) hgone

theorem effective_eq_none {vars : List (Text × Text)} {key : Text} (h : key ∉ vars.map Prod.fst) :
    effective vars key = none := by
  refine lookup_eq_none_iff.mpr fun p hp => bne_iff_ne.mpr ?_
  rintro rfl
  exact h (mem_map_of_mem (mem_reverse.mp hp))

theorem clean_diffDotenv {oldVars newVars : List (Text × Text)} :
    Clean (diffDotenv reveal path oldVars newVars) ↔
    ∀ key, effective oldVars key = effective newVars key := by
  rw [diffDotenv, clean_reportOf]
  simp only [mem_filterMap, mem_sortBy, mem_dedup, Option.map_eq_some_iff]
  constructor
  · intro h key
    by_cases hkey : key ∈ (oldVars ++ newVars).map Prod.fst
    · have hchange := fun change hc => h ⟨key, change⟩ ⟨key, hkey, change, hc, rfl⟩
      rw [changeOf] at hchange
      cases hold : effective oldVars key <;> cases hnew : effective newVars key <;> simp_all
      split_ifs at hchange <;> simp_all
    · rw [map_append, mem_append, not_or] at hkey
      rw [effective_eq_none hkey.1, effective_eq_none hkey.2]
  · rintro h e ⟨key, -, change, hchange, rfl⟩
    rw [changeOf, h key] at hchange
    cases hnew : effective newVars key with
    | none => simp [hnew] at hchange
    | some value => exact ⟨_, by simpa [hnew] using hchange.symm⟩

/-- The contents are compared as texts: the path is not that of a dotenv file, or one of them does
not parse. -/
def ComparesText (path : Text) (old new : Bytes) : Prop :=
  isDotenvFile path = false ∨ (parseDotenvBytes old).isOk = false ∨ (parseDotenvBytes new).isOk = false

theorem diffFileBytes_cases (path : Text) (old new : Bytes) :
    (∃ oldVars newVars, isDotenvFile path = true ∧ parseDotenvBytes old = .ok oldVars ∧
      parseDotenvBytes new = .ok newVars ∧
      diffFileBytes reveal lossy path old new = diffDotenv reveal path oldVars newVars) ∨
    ComparesText path old new ∧
      diffFileBytes reveal lossy path old new = diffText reveal path (lossy old) (lossy new) := by
  unfold diffFileBytes ComparesText
  cases hpath : isDotenvFile path with
  | false => exact .inr ⟨.inl rfl, rfl⟩
  | true =>
    cases hold : parseDotenvBytes old with
    | error e => exact .inr ⟨.inr (.inl rfl), rfl⟩
    | ok oldVars =>
      cases hnew : parseDotenvBytes new with
      | error e => exact .inr ⟨.inr (.inr rfl), rfl⟩
      | ok newVars => exact .inl ⟨oldVars, newVars, rfl, rfl, rfl, rfl⟩

theorem clean_diff_self (path : Text) (content : Option Bytes) :
    Clean (diffPath reveal lossy path content content) := by
  rw [diffPath]
  rcases diffFileBytes_cases path (content.getD []) (content.getD []) with
    ⟨_, _, -, hold, hnew, heq⟩ | ⟨-, heq⟩
  · obtain rfl := Except.ok.inj (hold.symm.trans hnew)
    rw [heq, clean_diffDotenv]
    exact fun key => rfl
  · rw [heq, clean_diffText]
    exact fun line => Iff.rfl

/-- The lines of a content that need not be a text. -/
def byteLines (bytes : Bytes) : List Bytes := linesOf 0x0a#8 0x0d#8 bytes

/-- Both sides exist or both are missing, with the same sequence of lines or, for a dotenv file, the
same variables with the same effective values. -/
def Unchanged (path : Text) (old new : Option Bytes) : Prop :=
  old.isSome = new.isSome ∧ (byteLines (old.getD []) = byteLines (new.getD []) ∨
    isDotenvFile path = true ∧ ∃ oldVars newVars, parseDotenvBytes (old.getD []) = .ok oldVars ∧
      parseDotenvBytes (new.getD []) = .ok newVars ∧ ∀ key, effective oldVars key = effective newVars key)

/-- A content without variables or, where texts are compared, without lines. -/
def Blank (lossy : Bytes → Text) (path : Text) (bytes : Bytes) : Prop :=
  match isDotenvFile path, parseDotenvBytes bytes with
  | true, .ok vars => vars = []
  | _, _ => textLines (lossy bytes) = []

/-- A side that is there alone is not blank; and where two texts are compared, they have the same
sequence of lines if they have the same set of lines. -/
def Telling (lossy : Bytes → Text) (path : Text) : Option Bytes → Option Bytes → Prop
  | none, none => True
  | some bytes, none => ¬Blank lossy path bytes
  | none, some bytes => ¬Blank lossy path bytes
  | some old, some new => ComparesText path old new →
      (∀ line, line ∈ textLines (lossy old) ↔ line ∈ textLines (lossy new)) → byteLines old = byteLines new

theorem effective_eq_nil {vars : List (Text × Text)} : (∀ key, effective vars key = none) ↔ vars = [] := by
  constructor
  · intro h
    cases vars with
    | nil => rfl
    | cons first rest =>
      have hfirst := lookup_eq_none_iff.mp (h first.1) first (mem_reverse.mpr mem_cons_self)
      exact absurd rfl (bne_iff_ne.mp hfirst)
  · rintro rfl key
    rfl

theorem clean_blank (reveal : Bool) (hlossy : lossy [] = []) (path : Text) (bytes : Bytes) :
    (Clean (diffFileBytes reveal lossy path bytes []) ↔ Blank lossy path bytes) ∧
      (Clean (diffFileBytes reveal lossy path [] bytes) ↔ Blank lossy path bytes) := by
  have hnil : parseDotenvBytes [] = .ok [] := by decide +kernel
  have hset : ∀ lines : List Text, (∀ line, line ∈ lines ↔ line ∈ textLines []) ↔ lines = [] := by
    intro lines
    rw [eq_nil_iff_forall_not_mem]
    exact forall_congr' fun line => iff_false_right (by simp [textLines, linesOf])
  have hset' : ∀ lines : List Text, (∀ line, line ∈ textLines [] ↔ line ∈ lines) ↔ lines = [] := fun lines =>
    (forall_congr' fun line => Iff.comm).trans (hset lines)
  have heff : ∀ vars : List (Text × Text), (∀ key, none = effective vars key) ↔ vars = [] := fun vars =>
    (forall_congr' fun key => eq_comm).trans effective_eq_nil
  unfold diffFileBytes Blank
  cases isDotenvFile path with
  | false => simp only [clean_diffText, hlossy, hset, hset', and_self]
  | true =>
    cases parseDotenvBytes bytes with
    | error e => simp only [hnil, clean_diffText, hlossy, hset, hset', and_self]
    | ok vars =>
      simp only [hnil, clean_diffDotenv]
      exact ⟨effective_eq_nil, heff vars⟩

theorem clean_diff_both (path : Text) (old new : Bytes) :
    (Clean (diffFileBytes reveal lossy path old new) → Unchanged path (some old) (some new)) ↔
      Telling lossy path (some old) (some new) := by
  rcases diffFileBytes_cases path old new with ⟨oldVars, newVars, hpath, hold, hnew, heq⟩ | ⟨htext, heq⟩
  · rw [heq, clean_diffDotenv]
    refine iff_of_true (fun heff => ⟨rfl, .inr ⟨hpath, oldVars, newVars, hold, hnew, heff⟩⟩) ?_
    rintro (hno | hno | hno)
    · rw [hpath] at hno
      cases hno
    · rw [hold] at hno
      cases hno
    · rw [hnew] at hno
      cases hno
  · rw [heq, clean_diffText]
    refine ⟨fun h _ hsame => (h hsame).2.resolve_right ?_, fun h hsame => ⟨rfl, .inl (h htext hsame)⟩⟩
    rintro ⟨hpath, oldVars, newVars, hold, hnew, -⟩
    rcases htext with hno | hno | hno
    · rw [hpath] at hno
      cases hno
    · rw [Option.getD_some] at hold
      rw [hold] at hno
      cases hno
    · rw [Option.getD_some] at hnew
      rw [hnew] at hno
      cases hno

/-- Equal contents give a clean report, and a clean report means no change exactly if the contents
are `Telling`. -/
theorem clean_diff_unchanged (reveal : Bool) (lossy : Bytes → Text) (hlossy : lossy [] = []) (path : Text)
    (old new : Option Bytes) : Clean (diffPath reveal lossy path old old) ∧
      ((Clean (diffPath reveal lossy path old new) → Unchanged path old new) ↔
        Telling lossy path old new) := by
  refine ⟨clean_diff_self path old, ?_⟩
  match old, new with
  | none, none => exact iff_of_true (fun _ => ⟨rfl, .inl rfl⟩) trivial
  | some bytes, none =>
    refine Iff.trans ?_ (not_congr (clean_blank reveal hlossy path bytes).1)
    exact ⟨fun h hclean => absurd (h hclean).1 (by simp), fun h hclean => absurd hclean h⟩
  | none, some bytes =>
    refine Iff.trans ?_ (not_congr (clean_blank reveal hlossy path bytes).2)
    exact ⟨fun h hclean => absurd (h hclean).1 (by simp), fun h hclean => absurd hclean h⟩
  | some old, some new => exact clean_diff_both path old new

def decode (bytes : Bytes) : Text := (fromUtf8 bytes).getD []

def report (old new : Option String) : FileDiffReport :=
  diffPath true decode "a.txt".toList (old.map fun s => Network.utf8 s.toList)
    (new.map fun s => Network.utf8 s.toList)

/-- Lines in another order, a repeated line, and a file that is gone. -/
theorem changes_not_reported :
    (Clean (report (some "x\ny") (some "y\nx")) ∧ Clean (report (some "x\nx") (some "x")) ∧
      Clean (report (some "") none)) ∧
    ¬Unchanged "a.txt".toList (some (Network.utf8 "x\ny".toList)) (some (Network.utf8 "y\nx".toList)) ∧
    ¬Unchanged "a.txt".toList (some (Network.utf8 "x\nx".toList)) (some (Network.utf8 "x".toList)) ∧
    ¬Unchanged "a.txt".toList (some []) none := by
  have hpath : isDotenvFile "a.txt".toList = false := by decide
  have hlines : ∀ old new, byteLines old ≠ byteLines new →
    ¬Unchanged "a.txt".toList (some old) (some new) := by
    rintro old new hne ⟨-, hsame | ⟨hdotenv, -⟩⟩
    · exact hne hsame
    · rw [hpath] at hdotenv
      cases hdotenv
  exact ⟨by decide +kernel, hlines _ _ (by decide +kernel), hlines _ _ (by decide +kernel),
    fun h => nomatch h.1⟩

/-- A line end after the last line is no change, and the report of both files is clean. -/
theorem last_line_end_unreported : Clean (report (some "x\ny") (some "x\ny")) ∧
    Unchanged "a.txt".toList (some (Network.utf8 "x\ny".toList)) (some (Network.utf8 "x\ny\n".toList)) := by
  have h := clean_diff_unchanged true decode rfl "a.txt".toList (some (Network.utf8 "x\ny".toList))
    (some (Network.utf8 "x\ny\n".toList))
  exact ⟨h.1, h.2.mpr (fun _ _ => by decide +kernel) (by decide +kernel)⟩

end CipherVault.Migrate.Diff
