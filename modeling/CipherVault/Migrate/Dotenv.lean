import CipherVault.Network.Invites

/-!
# Migrate.Dotenv

The parser of `.env` files, for `run` and for the migration.
-/

namespace CipherVault.Migrate

open Crypto Network

def fromUtf8 (bytes : Bytes) : Option Text := Utf8.decodeText bytes.length bytes

def trimStart (text : Text) : Text := text.dropWhile Snapshot.isWhiteSpace

def trimEnd (text : Text) : Text := (text.reverse.dropWhile Snapshot.isWhiteSpace).reverse

def stripStart (start text : Text) : Option Text :=
  if start.isPrefixOf text then some (text.drop start.length) else none

def splitOnce (c : Char) (text : Text) : Option (Text × Text) :=
  match text.dropWhile (· != c) with
  | [] => none
  | _ :: rest => some (text.takeWhile (· != c), rest)

def lines (text : Text) : List Text :=
  let parts := text.splitOnP (· == '\n')
  if parts.getLast? = some [] then parts.dropLast else parts

def unescapeDoubleQuoted : Text → Text
  | [] => []
  | '\\' :: c :: rest =>
    (match c with
      | 'n' => ['\n']
      | 'r' => ['\r']
      | 't' => ['\t']
      | '\\' => ['\\']
      | '"' => ['"']
      | '\'' => ['\'']
      | '$' => ['$']
      | other => ['\\', other]) ++ unescapeDoubleQuoted rest
  | c :: rest => c :: unescapeDoubleQuoted rest

def unquote (quote : Char) (text : Text) : Option Text :=
  if 2 ≤ text.length ∧ text.head? = some quote ∧ text.getLast? = some quote then
    some (text.tail.dropLast) else none

def beforeComment (blank : Char) : Text → Option Text
  | [] => none
  | c :: rest =>
    if c = blank ∧ rest.head? = some '#' then some [] else (beforeComment blank rest).map (c :: ·)

/-- A value as written: quoted, or plain up to a comment. -/
def parseValue (raw : Text) : Text :=
  let trimmed := trim raw
  match unquote '"' trimmed, unquote '\'' trimmed with
  | some inner, _ => unescapeDoubleQuoted inner
  | none, some inner => inner
  | none, none =>
    match beforeComment ' ' trimmed, beforeComment '\t' trimmed with
    | some value, _ => trimEnd value
    | none, some value => trimEnd value
    | none, none => trimmed

def isKeyChar (c : Char) : Bool := c.isAlphanum || c == '_'

/-- An assignment, nothing, or an error. -/
def parseLine (raw : Text) (number : Nat) : Except String (Option (Text × Text)) :=
  let line := trim raw
  if line = [] ∨ line.head? = some '#' then .ok none
  else
    let line := ((stripStart "export ".toList line).map trimStart).getD line
    match splitOnce '=' line with
    | none => .ok none
    | some (rawKey, rawValue) =>
      let key := trim rawKey
      if key = [] then .error s!"Malformed .env line {number}: missing variable key"
      else if !key.all isKeyChar then
        .error ("Invalid environment variable name '" ++ String.ofList key ++ s!"' at line {number}")
      else .ok (some (key, parseValue (trim rawValue)))

def parseLines : Nat → List Text → Except String (List (Text × Text × Nat))
  | _, [] => .ok []
  | number, raw :: rest => do
    let assignment ← parseLine raw number
    let parsed ← parseLines (number + 1) rest
    return (assignment.map fun a => (a.1, a.2, number)).toList ++ parsed

def parseDotenvWithLines (bytes : Bytes) : Except String (List (Text × Text × Nat)) :=
  match fromUtf8 bytes with
  | none => .error "Invalid UTF-8 in secret file"
  | some text => parseLines 1 (lines ((stripStart ['\uFEFF'] text).getD text))

variable {number : Nat} {parsed : List (Text × Text × Nat)}

theorem lines_of_parseLines {raws : List Text} (h : parseLines number raws = .ok parsed) :
    (parsed.Pairwise fun a b => a.2.2 < b.2.2) ∧ ∀ a ∈ parsed, number ≤ a.2.2 := by
  induction raws generalizing number parsed with
  | nil =>
    cases h
    exact ⟨List.Pairwise.nil, nofun⟩
  | cons raw rest ih =>
    simp only [parseLines, bind_eq_ok, pure_eq_ok] at h
    obtain ⟨assignment, -, parsed', hr, rfl⟩ := h
    obtain ⟨hsrt, hfrom⟩ := ih hr
    cases assignment with
    | none => exact ⟨hsrt, fun a ha => Nat.le_of_succ_le (hfrom a ha)⟩
    | some a =>
      simp only [Option.map_some, Option.toList_some, List.singleton_append,
        List.pairwise_cons, List.mem_cons]
      refine ⟨⟨fun b hb => hfrom b hb, hsrt⟩, ?_⟩
      rintro b (rfl | hb)
      · exact Nat.le_refl _
      · exact Nat.le_of_succ_le (hfrom b hb)

theorem lines_of_parseDotenvWithLines {bytes : Bytes}
    (h : parseDotenvWithLines bytes = .ok parsed) : parsed.Pairwise fun a b => a.2.2 < b.2.2 := by
  unfold parseDotenvWithLines at h
  split at h
  · cases h
  · exact (lines_of_parseLines h).1

section

open List Snapshot

/-- An escape for a character, behind the backslash. -/
def escapeCode : Char → Char
  | '\n' => 'n'
  | '\r' => 'r'
  | '\t' => 't'
  | c => c

/-- Characters between double quotes, with a flag for those that are escaped. -/
def writeEscaped (pieces : List (Char × Bool)) : Text :=
  pieces.flatMap fun p => if p.2 then ['\\', escapeCode p.1] else [p.1]

/-- A value that needs no quotes. -/
structure Plain (value : Text) : Prop where
  start : trimStart value = value
  stop : trimEnd value = value
  unquoted : value.head? ≠ some '"' ∧ value.head? ≠ some '\''
  uncommented : beforeComment ' ' value = none ∧ beforeComment '\t' value = none

/-- The ways to write a value behind `=`. -/
inductive Form where
  | single (value : Text)
  | double (pieces : List (Char × Bool))
  | plain (value : Text)

def Form.value : Form → Text
  | .single value => value
  | .double pieces => pieces.map Prod.fst
  | .plain value => value

def Form.text : Form → Text
  | .single value => '\'' :: (value ++ ['\''])
  | .double pieces => '"' :: (writeEscaped pieces ++ ['"'])
  | .plain value => value

/-- Between double quotes a character stands for itself or is one of the supported escapes. -/
def Form.WellFormed : Form → Prop
  | .single value => '\'' ∉ value
  | .double pieces => ∀ p ∈ pieces,
    if p.2 then p.1 ∈ ['\n', '\r', '\t', '\\', '"', '\'', '$'] else p.1 ∉ ['"', '\\']
  | .plain value => Plain value

/-- A comment with the blank before it. -/
structure Comment where
  blank : Char
  text : Text
  isBlank : blank = ' ' ∨ blank = '\t'

/-- What stands behind `=`. -/
def Form.line (form : Form) : Option Comment → Text
  | none => form.text
  | some comment => form.text ++ comment.blank :: '#' :: comment.text

/-- There is no comment, or one behind a value without quotes that is not empty; behind a tab it has
no blank and hash inside. -/
def Form.Readable : Form → Option Comment → Prop
  | _, none => True
  | .plain value, some comment =>
    value ≠ [] ∧ (comment.blank = '\t' → beforeComment ' ' (trimEnd comment.text) = none)
  | _, some _ => False

variable {c blank quote : Char} {value text : Text} {pieces : List (Char × Bool)}

theorem isWhiteSpace_of_key (h : isKeyChar c = true) : isWhiteSpace c = false := by
  have hrange : 48 ≤ c.toNat ∧ c.toNat ≤ 122 := by
    delta isKeyChar Char.isAlphanum Char.isAlpha Char.isUpper Char.isLower Char.isDigit at h
    simp only [Bool.or_eq_true, Bool.and_eq_true, decide_eq_true_eq, beq_iff_eq, UInt32.le_iff_toNat_le] at h
    rcases h with ((h | h) | h) | rfl
    all_goals first | decide | exact ⟨h.1.trans' (by decide), h.2.trans (by decide)⟩
  simp only [isWhiteSpace, Bool.or_eq_false_iff, Bool.and_eq_false_iff, decide_eq_false_iff_not,
    beq_eq_false_iff_ne]
  omega

theorem trimEnd_append (h : isWhiteSpace c = false) (front rest : Text) :
    trimEnd (front ++ c :: rest) = front ++ c :: trimEnd rest := by
  rw [trimEnd, trimEnd, reverse_append, reverse_cons, append_assoc, dropWhile_append]
  split
  · next hrest => simp_all
  · simp

theorem trim_cons (h : isWhiteSpace c = false) (rest : Text) : trim (c :: rest) = trimEnd (c :: rest) := by
  rw [trim, dropWhile_cons_of_neg (by simp [h]), trimEnd]

theorem parseLine_assignment {key : List Char} {raw : Text} {rest : List Char} (hkey : key ≠ [])
    (hchars : ∀ c ∈ key, isKeyChar c = true)
    (hraw : trim raw = key ++ '=' :: rest) (number : Nat) :
    parseLine raw number = .ok (some (key, parseValue rest)) := by
  have hnot : ∀ c, isKeyChar c = false → c ∉ key := fun c hc hmem => Bool.eq_false_iff.mp hc (hchars c hmem)
  have hstop : ∀ c ∈ key, (c != '=') = true := fun c hc =>
    bne_iff_ne.mpr fun heq => hnot '=' (by decide) (heq ▸ hc)
  have htake : (key ++ '=' :: rest).takeWhile (· != '=') = key := by
    rw [takeWhile_append_of_pos hstop, takeWhile_cons_of_neg (by decide), append_nil]
  have hsplit : splitOnce '=' (key ++ '=' :: rest) = some (key, rest) := by
    rw [splitOnce, htake, dropWhile_append_of_pos hstop, dropWhile_cons_of_neg (by decide)]
  have hexport : stripStart "export ".toList (key ++ '=' :: rest) = none := by
    refine if_neg fun hpre => ?_
    obtain ⟨tail, heq⟩ := isPrefixOf_iff_prefix.mp hpre
    -- the blank of `export ` would stand in the key
    rw [← heq, takeWhile_append_of_pos (all_eq_true.mp (by decide))] at htake
    exact hnot ' ' (by decide) (htake ▸ mem_append_left _ (by decide))
  have hhead : key.head? ≠ some '#' := fun h => hnot '#' (by decide) (mem_of_head? h)
  rw [parseLine]
  simp only [hraw, hexport, hsplit, Option.map_none, Option.getD_none, head?_append_of_ne_nil _ hkey, hhead,
    trim_eq_self fun c hc => isWhiteSpace_of_key (hchars c hc), hkey, all_eq_true.mpr hchars,
      append_eq_nil_iff,
    reduceCtorEq, and_false, or_false, if_false, Bool.not_true, Bool.false_eq_true]
  rw [parseValue, parseValue, trim_trim]

theorem parseLines_append {before rest : List Text} {later : List (Text × Text × Nat)}
    (h : parseLines number before = .ok parsed)
    (h' : parseLines (number + before.length) rest = .ok later) :
    parseLines number (before ++ rest) = .ok (parsed ++ later) := by
  induction before generalizing number parsed with
  | nil =>
    cases h
    exact h'
  | cons raw before ih =>
    simp only [parseLines, bind_eq_ok, pure_eq_ok] at h
    obtain ⟨assignment, hraw, parsed', hbefore, rfl⟩ := h
    rw [cons_append, parseLines, hraw,
      ih hbefore (by rwa [length_cons, Nat.add_comm _ 1, ← Nat.add_assoc] at h')]
    simp [Except.bind, bind, pure, Except.pure]

theorem beforeComment_append {next : Text} (h : beforeComment blank value = none)
    (hnext : next.head? ≠ some '#') :
    beforeComment blank (value ++ next) = (beforeComment blank next).map (value ++ ·) := by
  induction value with
  | nil => simp
  | cons c value ih =>
    simp only [beforeComment] at h
    split at h
    · cases h
    · next hc =>
      rw [cons_append, beforeComment, if_neg, ih (Option.map_eq_none_iff.mp h), Option.map_map]
      · rfl
      · rintro ⟨rfl, hhash⟩
        cases value with
        | nil => exact hnext hhash
        | cons d value => exact hc ⟨rfl, hhash⟩

theorem unescape_writeEscaped
    (h : (Form.double pieces).WellFormed) (rest : Text) :
    unescapeDoubleQuoted (writeEscaped pieces ++ rest) =
      pieces.map Prod.fst ++ unescapeDoubleQuoted rest := by
  induction pieces with
  | nil => rfl
  | cons p pieces ih =>
    obtain ⟨c, escaped⟩ := p
    have ih := ih fun p hp => h p (mem_cons_of_mem _ hp)
    have hc := h _ mem_cons_self
    cases escaped with
    | true =>
      simp only [if_true, mem_cons, not_mem_nil, or_false] at hc
      rcases hc with rfl | rfl | rfl | rfl | rfl | rfl | rfl <;> exact congrArg (_ :: ·) ih
    | false =>
      have hne : c ≠ '\\' := fun heq => hc (by simp [heq])
      rw [map_cons, cons_append, ← ih]
      simp [writeEscaped, unescapeDoubleQuoted, hne]

theorem length_le_writeEscaped (pieces : List (Char × Bool)) :
    pieces.length ≤ (writeEscaped pieces).length := by
  induction pieces with
  | nil => exact Nat.le_refl 0
  | cons p pieces ih =>
    rw [writeEscaped, flatMap_cons, length_append, length_cons]
    have hpos : 1 ≤ (if p.2 then ['\\', escapeCode p.1] else [p.1]).length := by split <;> simp
    have := ih
    rw [writeEscaped] at this
    omega

theorem trim_quoted (h : isWhiteSpace quote = false) (inner : Text) :
    trimEnd (quote :: (inner ++ [quote])) = quote :: (inner ++ [quote]) := by
  rw [← cons_append, trimEnd_append h]
  rfl

theorem unquote_quoted (quote : Char) (inner : Text) :
    unquote quote (quote :: (inner ++ [quote])) = some inner := by
  simp [unquote, getLast?_cons]

theorem unquote_of_head (h : text.head? ≠ some quote) : unquote quote text = none := if_neg fun hq => h hq.2.1

theorem parseValue_bare (htrim : trim text = text)
    (hdouble : unquote '"' text = none) (hsingle : unquote '\'' text = none) :
    parseValue text =
      (((beforeComment ' ' text).or (beforeComment '\t' text)).map trimEnd).getD text := by
  rw [parseValue, htrim, hdouble, hsingle]
  cases beforeComment ' ' text with
  | some value => rfl
  | none => cases beforeComment '\t' text <;> rfl

theorem beforeComment_eq_some {front : Text}
    (h : beforeComment blank text = some front) : ∃ rest, text = front ++ blank :: '#' :: rest := by
  induction text generalizing front with
  | nil => cases h
  | cons c text ih =>
    rw [beforeComment] at h
    split at h
    · rename_i hc
      cases h
      obtain ⟨rest, rfl⟩ := head?_eq_some_iff.mp hc.2
      exact ⟨rest, by rw [hc.1, nil_append]⟩
    · obtain ⟨front, hfront, rfl⟩ := Option.map_eq_some_iff.mp h
      obtain ⟨rest, rfl⟩ := ih hfront
      exact ⟨rest, rfl⟩

/-- Without quotes around it a text is read whole, or up to a blank. -/
theorem parseValue_cases (htrim : trim text = text)
    (hdouble : unquote '"' text = none) (hsingle : unquote '\'' text = none) :
    parseValue text = text ∨
      ∃ blank rest, isWhiteSpace blank = true ∧ text = parseValue text ++ blank :: rest := by
  rw [parseValue_bare htrim hdouble hsingle]
  cases hcut : (beforeComment ' ' text).or (beforeComment '\t' text) with
  | none => exact .inl rfl
  | some front =>
    obtain ⟨blank, hblank, rest, htext⟩ : ∃ blank, isWhiteSpace blank = true ∧
        ∃ rest, text = front ++ blank :: '#' :: rest := by
      rcases Option.or_eq_some_iff.mp hcut with h | ⟨-, h⟩
      · exact ⟨' ', by decide, beforeComment_eq_some h⟩
      · exact ⟨'\t', by decide, beforeComment_eq_some h⟩
    right
    rw [Option.map_some, Option.getD_some]
    -- what is trimmed at the end of the front is white space as well
    have hfront : trimEnd front ++ front.rtakeWhile isWhiteSpace = front := rdropWhile_append_rtakeWhile
    cases hspaces : front.rtakeWhile isWhiteSpace with
    | nil =>
      rw [hspaces, append_nil] at hfront
      exact ⟨blank, '#' :: rest, hblank, by rw [hfront, htext]⟩
    | cons space spaces =>
      have hspace : space ∈ front.rtakeWhile isWhiteSpace := hspaces ▸ mem_cons_self
      refine ⟨space, spaces ++ blank :: '#' :: rest, mem_rtakeWhile_imp hspace, ?_⟩
      rw [← cons_append, ← hspaces, ← append_assoc, hfront, htext]

theorem parseValue_plain (h : Plain value) : parseValue (trimEnd value) = value := by
  have htrim : trim value = value := (congrArg trimEnd h.start).trans h.stop
  rw [h.stop, parseValue_bare htrim (unquote_of_head h.unquoted.1) (unquote_of_head h.unquoted.2),
    h.uncommented.1, h.uncommented.2]
  rfl

theorem trimEnd_comment (front comment : Text) (blank : Char) :
    trimEnd (front ++ blank :: '#' :: comment) = front ++ blank :: '#' :: trimEnd comment := by
  rw [append_cons, trimEnd_append (by decide), ← append_cons]

theorem trim_comment (hc : isWhiteSpace c = false) (front comment : Text) (blank : Char) :
    trim (c :: front ++ blank :: '#' :: trimEnd comment) =
      c :: front ++ blank :: '#' :: trimEnd comment := by
  rw [cons_append, trim_cons hc, ← cons_append, trimEnd_comment]
  exact congrArg (c :: front ++ blank :: '#' :: ·) (rdropWhile_idempotent _ _)

/-- A comment behind a value without quotes is cut off where it begins, or behind the beginning of a
comment that has a tab before it and a blank and a hash inside. -/
theorem parseValue_commented (h : Plain value) (hvalue : value ≠ []) (comment : Comment) :
    parseValue (trimEnd (value ++ comment.blank :: '#' :: comment.text)) = value ↔
      (comment.blank = '\t' → beforeComment ' ' (trimEnd comment.text) = none) := by
  obtain ⟨blank, comment, hblank⟩ := comment
  obtain ⟨c, tail, rfl⟩ := exists_cons_of_ne_nil hvalue
  have hc : isWhiteSpace c = false := by
    by_contra hspace
    have hshort := congrArg length h.start
    have hle := (dropWhile_sublist isWhiteSpace (l := tail)).length_le
    rw [trimStart, dropWhile_cons_of_pos (by simpa using hspace), length_cons] at hshort
    omega
  rw [trimEnd_comment, parseValue_bare (trim_comment hc tail comment blank)
    (unquote_of_head h.unquoted.1) (unquote_of_head h.unquoted.2),
      beforeComment_append h.uncommented.1 (by rcases hblank with rfl | rfl <;> simp),
    beforeComment_append h.uncommented.2 (by rcases hblank with rfl | rfl <;> simp)]
  rcases hblank with rfl | rfl
  · simp [beforeComment, h.stop]
  · cases hcomment : beforeComment ' ' (trimEnd comment) with
    | none => simp [beforeComment, hcomment, h.stop]
    | some cut =>
      -- the tab and the hash are left in front of the cut
      have hread : trimEnd (c :: (tail ++ '\t' :: '#' :: cut)) = c :: tail ++ '\t' :: '#' :: trimEnd cut :=
        trimEnd_comment (c :: tail) cut '\t'
      simp [beforeComment, hcomment, hread]

/-- Of a comment behind an empty value the hash is read. -/
theorem parseValue_empty_commented (comment : Comment) :
    parseValue (trimEnd (comment.blank :: '#' :: comment.text)) ≠ [] := by
  obtain ⟨blank, comment, hblank⟩ := comment
  have hwhite : isWhiteSpace blank = true := by rcases hblank with rfl | rfl <;> decide
  have htrim : ∀ text, trim ('#' :: trimEnd text) = '#' :: trimEnd text := by
    intro text
    rw [trim_cons (by decide), ← nil_append ('#' :: _), trimEnd_append (by decide)]
    exact congrArg ('#' :: ·) (rdropWhile_idempotent _ _)
  have hsame : parseValue (trimEnd (blank :: '#' :: comment)) = parseValue ('#' :: trimEnd comment) := by
    have hstart : trim (trimEnd (blank :: '#' :: comment)) = trim ('#' :: trimEnd comment) := by
      rw [← nil_append (blank :: _), trimEnd_comment, nil_append, trim, trim,
        dropWhile_cons_of_pos hwhite]
    rw [parseValue, parseValue, hstart]
  rw [hsame]
  intro hnil
  rcases parseValue_cases (htrim comment) (unquote_of_head (by simp)) (unquote_of_head (by simp)) with
    h | ⟨blank, rest, hspace, h⟩
  · rw [hnil] at h
    cases h
  · rw [hnil, nil_append] at h
    cases h
    exact absurd hspace (by decide)

/-- A comment behind single quotes: the first of them is read. -/
theorem parseValue_single_commented (h : '\'' ∉ value) (comment : Comment) :
    parseValue (trimEnd ('\'' :: (value ++ ['\'']) ++ comment.blank :: '#' :: comment.text)) ≠ value := by
  rw [trimEnd_comment]
  have htrim := trim_comment (c := '\'') (by decide) (value ++ ['\'']) comment.text comment.blank
  generalize htext : '\'' :: (value ++ ['\'']) ++ comment.blank :: '#' :: trimEnd comment.text = text at htrim
  have hlength : text.length = value.length + 4 + (trimEnd comment.text).length := by
    rw [← htext]
    simp only [length_append, length_cons, length_nil]
    omega
  have hdouble : unquote '"' text = none := unquote_of_head (by rw [← htext]; simp)
  intro hread
  cases hsingle : unquote '\'' text with
  | some inner =>
    rw [parseValue, htrim, hdouble, hsingle] at hread
    have hinner : inner = text.tail.dropLast := by
      rw [unquote] at hsingle
      split at hsingle
      · exact (Option.some.inj hsingle).symm
      · cases hsingle
    have hshort := congrArg length (hinner.symm.trans hread)
    rw [length_dropLast, length_tail, hlength] at hshort
    omega
  | none =>
    have hfirst : ∃ rest, text = '\'' :: rest := ⟨_, htext.symm⟩
    obtain ⟨rest, hrest⟩ := hfirst
    rcases parseValue_cases htrim hdouble hsingle with hwhole | ⟨blank, after, hspace, hcut⟩
    · rw [hread] at hwhole
      exact h (by rw [hwhole, hrest]; exact mem_cons_self)
    · rw [hread, hrest] at hcut
      cases value with
      | nil =>
        cases hcut
        exact absurd hspace (by decide)
      | cons c value =>
        cases hcut
        exact h mem_cons_self

/-- No text of quotes and backslashes with an escaped text behind it begins with the characters that
are escaped and a blank. -/
theorem escaped_ne (h : (Form.double pieces).WellFormed)
    (lead : Text) {tail after : Text} (hlead : ∀ c ∈ lead, c = '"' ∨ c = '\\') (hne : lead ≠ [])
    (hblank : isWhiteSpace blank = true) :
    lead ++ (writeEscaped pieces ++ tail) ≠ pieces.map Prod.fst ++ blank :: after := by
  induction pieces generalizing lead with
  | nil =>
    obtain ⟨c, lead, rfl⟩ := exists_cons_of_ne_nil hne
    intro heq
    cases heq
    rcases hlead blank mem_cons_self with rfl | rfl
    · exact absurd hblank (by decide)
    · exact absurd hblank (by decide)
  | cons p pieces ih =>
    obtain ⟨c, escaped⟩ := p
    obtain ⟨d, lead, rfl⟩ := exists_cons_of_ne_nil hne
    intro heq
    obtain ⟨rfl, heq⟩ := cons.inj heq
    have hd := hlead d mem_cons_self
    have hp := h (d, escaped) mem_cons_self
    -- a quote or a backslash is escaped, so the lead grows by it
    cases escaped with
    | false => exact hp (by rcases hd with rfl | rfl <;> simp)
    | true =>
      have hcode : escapeCode d = d := by rcases hd with rfl | rfl <;> rfl
      refine ih (fun p hp => h p (mem_cons_of_mem _ hp)) (lead ++ ['\\', d]) ?_ (by simp) ?_
      · intro x hx
        rcases mem_append.mp hx with hx | hx
        · exact hlead x (mem_cons_of_mem _ hx)
        · rcases mem_cons.mp hx with rfl | hx
          · exact .inr rfl
          · rw [mem_singleton.mp hx]
            exact hd
      · refine Eq.trans ?_ heq
        simp [writeEscaped, hcode]

/-- A comment behind double quotes: the first of them is read, or the last too. -/
theorem parseValue_double_commented
    (h : (Form.double pieces).WellFormed) (comment : Comment) :
    parseValue (trimEnd ('"' :: (writeEscaped pieces ++ ['"']) ++ comment.blank :: '#' :: comment.text)) ≠
      pieces.map Prod.fst := by
  rw [trimEnd_comment]
  have htrim := trim_comment (c := '"') (by decide) (writeEscaped pieces ++ ['"']) comment.text
    comment.blank
  have hsplit : '"' :: (writeEscaped pieces ++ ['"']) ++ comment.blank :: '#' :: trimEnd comment.text =
      '"' :: (writeEscaped pieces ++ '"' :: (comment.blank :: '#' :: trimEnd comment.text)) := by
    simp
  rw [hsplit] at htrim ⊢
  intro hread
  cases hdouble : unquote '"'
      ('"' :: (writeEscaped pieces ++ '"' :: (comment.blank :: '#' :: trimEnd comment.text))) with
  | some inner =>
    rw [unquote] at hdouble
    split at hdouble
    · rename_i hquoted
      rw [parseValue, htrim, unquote, if_pos hquoted, tail_cons, dropLast_append_cons,
        dropLast_cons_cons] at hread
      dsimp only at hread
      rw [unescape_writeEscaped h, append_right_eq_self, unescapeDoubleQuoted] at hread
      · cases hread
      · exact fun c rest hslash => absurd hslash (by decide)
    · cases hdouble
  | none =>
    rcases parseValue_cases htrim hdouble (unquote_of_head (by simp)) with
      hwhole | ⟨blank, after, hspace, hcut⟩
    · have hlength := congrArg length (hread.symm.trans hwhole)
      have hle := length_le_writeEscaped pieces
      simp only [length_map, length_cons, length_append] at hlength
      omega
    · rw [hread] at hcut
      exact escaped_ne h ['"'] (by simp) (by simp) hspace hcut

/-- A form is read as its value exactly when it is readable. -/
theorem parseValue_line {form : Form} (h : form.WellFormed) (comment : Option Comment) :
    parseValue (trimEnd (form.line comment)) = form.value ↔ form.Readable comment := by
  cases comment with
  | none =>
    refine iff_of_true ?_ (by cases form <;> trivial)
    cases form with
    | single value =>
      rw [Form.line, Form.text, trim_quoted (by decide), parseValue, trim_cons (by decide),
        trim_quoted (by decide), unquote_quoted, unquote_of_head (by simp)]
      rfl
    | double pieces =>
      rw [Form.line, Form.text, trim_quoted (by decide), parseValue, trim_cons (by decide),
        trim_quoted (by decide), unquote_quoted]
      have hinner := unescape_writeEscaped h []
      rw [append_nil] at hinner
      exact hinner.trans (append_nil _)
    | plain value => exact parseValue_plain h
  | some comment =>
    cases form with
    | single value => exact iff_of_false (parseValue_single_commented h comment) id
    | double pieces => exact iff_of_false (parseValue_double_commented h comment) id
    | plain value =>
      by_cases hvalue : value = []
      · subst hvalue
        exact iff_of_false (parseValue_empty_commented comment) fun hread => hread.1 rfl
      · exact (parseValue_commented h hvalue comment).trans
          ⟨fun hread => ⟨hvalue, hread⟩, fun hread => hread.2⟩

/-- A value that is written in one of the ways, with or without a comment behind it, is read as it
is, with its key and line, in every file whose other lines are well formed, exactly when the form is
readable. -/
theorem written_value_read (bytes : Bytes) (text : Text) (before rest : List Text) (raw key : Text)
    (parsed later : List (Text × Text × Nat)) (htext : fromUtf8 bytes = some text)
    (hlines : lines ((stripStart ['\uFEFF'] text).getD text) = before ++ raw :: rest)
    (hbefore : parseLines 1 before = .ok parsed)
    (hrest : parseLines (before.length + 2) rest = .ok later) (hkey : key ≠ [])
    (hchars : ∀ c ∈ key, isKeyChar c = true) (form : Form) (hform : form.WellFormed)
    (comment : Option Comment)
    (hraw : raw = key ++ '=' :: form.line comment ∨ raw = key ++ '=' :: form.line comment ++ ['\r']) :
    parseDotenvWithLines bytes = .ok (parsed ++ (key, form.value, before.length + 1) :: later) ↔
      form.Readable comment := by
  have htrim : trim raw = key ++ '=' :: trimEnd (form.line comment) := by
    obtain ⟨c, tail, rfl⟩ := exists_cons_of_ne_nil hkey
    have hc := isWhiteSpace_of_key (hchars c mem_cons_self)
    rcases hraw with rfl | rfl
    · rw [cons_append, trim_cons hc, ← cons_append, trimEnd_append (by decide)]
    · rw [append_assoc, cons_append, cons_append, trim_cons hc, ← cons_append,
        trimEnd_append (by decide)]
      exact congrArg (c :: tail ++ '=' :: ·) (rdropWhile_concat_pos _ _ _ (by decide))
  have hline := parseLine_assignment hkey hchars htrim (1 + before.length)
  have hparse : parseDotenvWithLines bytes =
      .ok (parsed ++ (key, parseValue (trimEnd (form.line comment)), before.length + 1) :: later) := by
    rw [parseDotenvWithLines, htext, ← Nat.add_comm 1]
    dsimp only
    rw [hlines]
    refine parseLines_append hbefore ?_
    rw [parseLines, hline, Nat.add_comm 1, hrest]
    rfl
  rw [hparse, ← parseValue_line hform comment]
  simp

/-- What is read of a comment behind quotes, of one behind an empty value, and of a tab before a
comment. -/
theorem comments_misread :
    (parseDotenvWithLines (utf8 "A='v' # c\nB= # c\nC=v\t# c #d".toList)).toOption =
      some [("A".toList, "'v'".toList, 1), ("B".toList, "# c".toList, 2),
        ("C".toList, "v\t# c".toList, 3)] := by
  decide +kernel

theorem quoted_value_read :
    parseDotenvWithLines (utf8 "A='v # c'\nB=w".toList) = .ok ([] ++ ("A".toList, "v # c".toList, 1) ::
      [("B".toList, "w".toList, 2)]) :=
  (written_value_read _ "A='v # c'\nB=w".toList [] ["B=w".toList] "A='v # c'".toList "A".toList [] _
    (by decide +kernel) (by decide +kernel) rfl (by rfl) (by decide) (all_eq_true.mp (by decide))
    (.single "v # c".toList) (show '\'' ∉ _ by decide) none (.inl (by decide))).mpr trivial

end

end CipherVault.Migrate
