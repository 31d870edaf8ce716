import Mathlib.Data.List.TakeWhile
import CipherVault.Base.Hex
import CipherVault.Base.Scan
import CipherVault.Crypto.Basic

/-!
# Audit.Redact

The log scrubber of `crates/redact/src/lib.rs`. Texts are lists of characters; the source looks at
bytes, but only for ASCII, so that positions can be counted in either.
-/

namespace CipherVault.Audit

open Crypto Scan List Option Nat Char

variable (c : Char)

def isAsciiWhitespace : Bool := [9, 10, 12, 13, 32].contains c.toNat

def isTokenChar : Bool := c.isAlphanum || c == '_' || c == '-' || c == '=' || c == '~'

def isWordChar : Bool := c.isAlphanum || c == '_'

def isQuote : Bool := c.toNat == 34 || c.toNat == 39

/-- Not whitespace, and none of `, ; " ' } ] ) ( { [`. -/
def isValueChar : Bool :=
  !(isAsciiWhitespace c || [44, 59, 34, 39, 125, 93, 41, 40, 123, 91].contains c.toNat)

def redacted : Text := "[REDACTED]".toList

def credentialKeys : List Text :=
  ["password", "passwd", "secret", "api_key", "apikey", "access_token", "refresh_token",
    "auth_token", "private_key",
    "client_secret", "session_token"].map String.toList

variable (input : Text) (start : Nat)

def wordBefore : Bool := 0 < start && (input[start - 1]?).any isWordChar

def scopePrefix : Text := "cvst1.".toList

/-- The length of the segments at the beginning of a text, with the dots between them; `within` says
that a segment has begun. -/
def segmentsLength : Bool → Text → Nat
  | _, [] => 0
  | within, c :: rest =>
    if isTokenChar c then segmentsLength true rest + 1
    else if within && c == '.' && rest.head?.any isTokenChar then segmentsLength false rest + 1
    else 0

def matchScopeToken : Option Nat :=
  let rest := input.drop start
  if scopePrefix.isPrefixOf rest then
    let length := segmentsLength false (rest.drop scopePrefix.length)
    if length = 0 then none else some (start + scopePrefix.length + length)
  else none

def bearer : Text := "bearer".toList

def matchBearer : Option Nat :=
  let rest := input.drop start
  if wordBefore input start then none
  else if Hex.lower (rest.take bearer.length) ≠ bearer then none
  else match rest.drop bearer.length with
    | [] => none
    | c :: value =>
      if !isAsciiWhitespace c then none
      else
        let spaces := (value.takeWhile isAsciiWhitespace).length
        let run := ((value.drop spaces).takeWhile isTokenChar).length
        if run = 0 then none else some (start + (bearer.length + 1 + spaces + run))

def position (pattern : Text) : Text → Option Nat
  | [] => none
  | c :: rest => if pattern.isPrefixOf (c :: rest) then some 0 else (position pattern rest).map (· + 1)

def fence : Text := "-----".toList

def beginMark : Text := "-----BEGIN ".toList

def endMark : Text := "-----END ".toList

@[simp] theorem length_beginMark : beginMark.length = 11 := rfl

def isPrivateLabel (label : Text) : Bool := (position "private".toList (Hex.lower label)).isSome

/-- The end of a private block whose body begins at `header`: after the closing fence and one line
feed, or that of the text. -/
def pemEnd (header : Nat) : Nat :=
  match position endMark (input.drop header) with
  | none => input.length
  | some at_ =>
    let afterMark := header + at_ + endMark.length
    let stop :=
      match position fence (input.drop afterMark) with
      | some length => afterMark + length + fence.length
      | none => input.length
    if (input[stop]?).any fun c => c.toNat == 10 then stop + 1 else stop

def matchPrivatePem : Option Nat :=
  let rest := input.drop start
  if beginMark.isPrefixOf rest then
    match position fence (rest.drop beginMark.length) with
    | none => none
    | some length =>
      if isPrivateLabel ((rest.drop beginMark.length).take length) then
        some (pemEnd input (start + beginMark.length + length + fence.length))
      else none
  else none

/-- The length of a value. A quoted one has its quotes, or ends with the text. -/
def valueLength : Text → Nat
  | [] => 0
  | c :: rest =>
    if isQuote c then
      let inner := (rest.takeWhile (· ≠ c)).length
      if inner < rest.length then inner + 2 else inner + 1
    else ((c :: rest).takeWhile isValueChar).length

def dropQuote : Text → Text
  | [] => []
  | c :: rest => if isQuote c then rest else c :: rest

/-- The assignment of a key: where its value begins, and where it ends. -/
def matchAssignment (key : Text) : Option (Nat × Nat) :=
  let rest := input.drop start
  if Hex.lower (rest.take key.length) ≠ key then none
  else if (rest.drop key.length).head?.any isWordChar then none
  else match (dropQuote (rest.drop key.length)).dropWhile isAsciiWhitespace with
    | [] => none
    | separator :: afterSeparator =>
      if separator ≠ ':' ∧ separator ≠ '=' then none
      else
        let value := afterSeparator.dropWhile isAsciiWhitespace
        let valueStart := input.length - value.length
        if valueLength value = 0 then none else some (valueStart, valueStart + valueLength value)

def matchCredentialAssignment : Option (Nat × Nat) :=
  if wordBefore input start then none else credentialKeys.findSome? (matchAssignment input start)

/-- The matchers in their order of precedence. -/
def action (idx : Nat) : Action Char :=
  match matchScopeToken input idx with
  | some stop => { kept := 0, mark := scopePrefix ++ redacted, next := stop }
  | none =>
    match matchBearer input idx with
    | some stop => { kept := bearer.length, mark := ' ' :: redacted, next := stop }
    | none =>
      match matchPrivatePem input idx with
      | some stop => { kept := 0, mark := redacted ++ " PRIVATE KEY".toList, next := stop }
      | none =>
        match matchCredentialAssignment input idx with
        | some (keyEnd, valueEnd) => { kept := keyEnd - idx, mark := redacted, next := valueEnd }
        | none => { kept := 1, mark := [], next := idx + 1 }

def redactText : Text := loop input (action input) input.length 0

def secretAt (idx : Nat) : Bool :=
  (matchScopeToken input idx).isSome || (matchBearer input idx).isSome ||
    (matchPrivatePem input idx).isSome ||
    (matchCredentialAssignment input idx).isSome

def containsSecretShaped : Bool := (range input.length).any (secretAt input)

variable {text key input rest : Text} {c : Char} {start stop : Nat}

theorem matchScopeToken_lt (h : matchScopeToken input start = some stop) : start < stop := by
  rw [matchScopeToken] at h
  split at h
  · dsimp only at h
    split at h
    · cases h
    · cases h
      omega
  · cases h

theorem matchBearer_lt (h : matchBearer input start = some stop) : start < stop := by
  rw [matchBearer] at h
  split at h
  · cases h
  split at h
  · cases h
  split at h
  · cases h
  split at h
  · cases h
  dsimp only at h
  split at h
  · cases h
  · cases h
    omega

theorem lt_pemEnd {header : Nat} (hstart : start < input.length) (h : start < header) :
    start < pemEnd input header := by
  rw [pemEnd]
  split
  · exact hstart
  · next at_ _ =>
    have hstop : ∀ stop, start < stop →
      start < if (input[stop]?).any fun c => c.toNat == 10 then stop + 1 else stop := by
      intro stop hlt
      split <;> omega
    apply hstop
    split
    · next length _ =>
      show start < header + at_ + 9 + length + 5
      omega
    · exact hstart

theorem matchPrivatePem_lt (hstart : start < input.length) (h : matchPrivatePem input start = some stop) :
    start < stop := by
  rw [matchPrivatePem] at h
  split at h
  · split at h
    · cases h
    · split at h
      · cases h
        exact lt_pemEnd hstart (by rw [length_beginMark]; omega)
      · cases h
  · cases h

theorem dropQuote_suffix (text : Text) : ∃ quote, text = quote ++ dropQuote text := by
  cases text with
  | nil => exact ⟨[], rfl⟩
  | cons c rest =>
    rw [dropQuote]
    split
    · exact ⟨[c], rfl⟩
    · exact ⟨[], rfl⟩

variable {keyEnd valueEnd : Nat}

theorem matchAssignment_spec (h : matchAssignment input start key = some (keyEnd, valueEnd)) :
    ∃ copied value, input.drop start = copied ++ value ∧ keyEnd - start = copied.length ∧
      start < valueEnd ∧ valueLength value ≠ 0 := by
  rw [matchAssignment] at h
  split at h
  · cases h
  split at h
  · cases h
  split at h
  · cases h
  next separator afterSeparator hsep =>
  split at h
  · cases h
  dsimp only at h
  split at h
  · cases h
  next hv =>
  cases h
  set rest := input.drop start with hr
  obtain ⟨quote, hquote⟩ := dropQuote_suffix (rest.drop key.length)
  have hblank := takeWhile_append_dropWhile (p := isAsciiWhitespace)
    (l := dropQuote (rest.drop key.length))
  have hblank' := takeWhile_append_dropWhile (p := isAsciiWhitespace) (l := afterSeparator)
  set value := afterSeparator.dropWhile isAsciiWhitespace with hval
  rw [hsep] at hblank
  set blank := (dropQuote (rest.drop key.length)).takeWhile isAsciiWhitespace
  set blank' := afterSeparator.takeWhile isAsciiWhitespace
  have hsp : rest = (rest.take key.length ++ (quote ++ (blank ++ separator :: blank'))) ++ value := by
    calc rest = rest.take key.length ++ rest.drop key.length := (take_append_drop _ _).symm
      _ = rest.take key.length ++ (quote ++ (blank ++ separator :: (blank' ++ value))) := by
        rw [hblank', hblank, ← hquote]
      _ = _ := by simp only [append_assoc, cons_append]
  have hlen := congrArg length hsp
  have hdrop : rest.length = input.length - start := length_drop
  simp only [length_append, length_cons] at hlen
  refine ⟨_, value, hsp, ?_, ?_, hv⟩
  · simp only [length_append, length_cons]
    omega
  · omega

theorem matchCredentialAssignment_spec
    (h : matchCredentialAssignment input start = some (keyEnd, valueEnd)) :
    ∃ copied value, input.drop start = copied ++ value ∧ keyEnd - start = copied.length ∧
      start < valueEnd ∧ valueLength value ≠ 0 := by
  rw [matchCredentialAssignment] at h
  split at h
  · cases h
  · obtain ⟨key, -, hm⟩ := exists_of_findSome?_eq_some h
    exact matchAssignment_spec hm

/-- The scrubber gets on at every position. -/
theorem lt_next_action (hstart : start < input.length) : start < (action input start).next := by
  rw [action]
  split
  · next h => exact matchScopeToken_lt h
  split
  · next h => exact matchBearer_lt h
  split
  · next h => exact matchPrivatePem_lt hstart h
  split
  · next h =>
    obtain ⟨copied, value, -, -, hlt, -⟩ := matchCredentialAssignment_spec h
    exact hlt
  · exact lt_succ_self start

/-- More fuel than the length of the text changes nothing. -/
theorem loop_eq_redactText (input : Text) {fuel : Nat} (h : input.length ≤ fuel) :
    loop input (action input) fuel 0 = redactText input :=
  loop_fuel (fun _ hi => lt_next_action hi) (by omega) (by omega)

/-! ## What is written is not what was there -/

theorem matchScopeToken_mark (h : scopePrefix ++ redacted <+: input.drop start) :
    matchScopeToken input start = none := by
  obtain ⟨rest, hr⟩ := h
  rw [matchScopeToken, ← hr]
  rfl

theorem matchBearer_mark (h : ' ' :: redacted <+: (input.drop start).drop bearer.length) :
    matchBearer input start = none := by
  obtain ⟨rest, hr⟩ := h
  rw [matchBearer]
  split
  · rfl
  split
  · rfl
  rw [← hr]
  rfl

theorem matchPrivatePem_mark (h : redacted ++ " PRIVATE KEY".toList <+: input.drop start) :
    matchPrivatePem input start = none := by
  obtain ⟨rest, hr⟩ := h
  rw [matchPrivatePem, ← hr]
  rfl

theorem matchCredentialAssignment_mark (h : redacted <+: (input.drop start).drop (keyEnd - start)) :
    matchCredentialAssignment input start ≠ some (keyEnd, valueEnd) := by
  intro hm
  obtain ⟨copied, value, hsp, hlen, -, hv⟩ := matchCredentialAssignment_spec hm
  obtain ⟨rest, hr⟩ := h
  rw [hsp, hlen, drop_left] at hr
  rw [← hr] at hv
  exact hv rfl

theorem action_eq_copy (h : secretAt input start = false) : action input start = .copy start := by
  simp only [secretAt, Bool.or_eq_false_iff, isSome_eq_false_iff, isNone_iff_eq_none] at h
  obtain ⟨⟨⟨hscope, hbearer⟩, hpem⟩, hass⟩ := h
  rw [action, hscope, hbearer, hpem, hass]
  rfl

theorem not_prefix_of_secretAt (h : secretAt input start = true) :
    ¬ (action input start).write input start <+: input.drop start := by
  intro hpre
  replace hpre := prefix_of_write hpre
  rw [action] at hpre
  split at hpre
  · next hm =>
    have hn : matchScopeToken input start = none := matchScopeToken_mark hpre
    simp [hn] at hm
  split at hpre
  · next hm => simp [matchBearer_mark hpre] at hm
  split at hpre
  · next hm =>
    have hn : matchPrivatePem input start = none := matchPrivatePem_mark hpre
    simp [hn] at hm
  split at hpre
  · next hm => exact matchCredentialAssignment_mark hpre hm
  · simp_all [secretAt]

theorem redactText_eq_self_iff (input : Text) :
    redactText input = input ↔ ∀ i, i < input.length → secretAt input i = false := by
  have hacts : ∀ i, i < input.length →
      action input i = .copy i ∨ ¬ (action input i).write input i <+: input.drop i := by
    intro i _
    cases h : secretAt input i with
    | false => exact .inl (action_eq_copy h)
    | true => exact .inr (not_prefix_of_secretAt h)
  refine (loop_eq_drop_iff hacts (i := 0) (by omega)).trans ⟨fun hcopy i hi => ?_, fun hclear i _ hi => ?_⟩
  · refine Bool.eq_false_iff.mpr fun h => not_prefix_of_secretAt h ?_
    rw [hcopy i (zero_le i) hi]
    exact ⟨_, (write_copy hi).symm⟩
  · exact action_eq_copy (hclear i hi)

/-- The detector finds something exactly in the texts that the scrubber changes. -/
theorem containsSecretShaped_iff (input : Text) : containsSecretShaped input = true ↔
    redactText input ≠ input := by
  rw [Ne, redactText_eq_self_iff, containsSecretShaped, List.any_eq_true]
  simp only [mem_range, not_forall, Bool.not_eq_false, exists_prop]

end CipherVault.Audit
