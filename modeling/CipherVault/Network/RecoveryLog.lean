import CipherVault.Base.Frames
import CipherVault.Network.Authority

/-!
# Network.RecoveryLog

The file behind the recovery log of a locator: `scan_recovery_log`, `get_recovery_page` and the
write of `append_authorized_recovery_record` in `services/operator/src/state.rs`, with appends that
are cut off anywhere. `Holds` is the invariant of the file: complete frames, and at most one torn
frame behind them.
-/

namespace CipherVault.Network.RecoveryLog

open Crypto Format Frames List Nat

def recoveryPageBytes : Nat := 1024 * 1024

def operatorLimits (recordSize : Nat) : Limits := { defaultLimits with recordSize := recordSize }

def scanFrames (limits : Limits) : Nat → List Bytes → Nat → Bytes → Except String (List Bytes × Nat)
  | 0, records, offset, _ => .ok (records, offset)
  | fuel + 1, records, offset, rest =>
    if rest.length < 4 then .ok (records, offset)
    else
      let len := beValue (rest.take 4)
      if len = 0 ∨ len > limits.recordSize then .error "Invalid recovery record length"
      else if (rest.drop 4).length < len then .ok (records, offset)
      else if records.length + 1 > limits.recordsPerLocator then .error "Recovery log exceeds record limit"
      else scanFrames limits fuel (records ++ [(rest.drop 4).take len]) (offset + (4 + len))
        (rest.drop (4 + len))

variable (limits : Limits)

/-- The whole frames of a log, and where they end. -/
def scanRecoveryLog : Option Bytes → Except String (List Bytes × Nat)
  | none => .ok ([], 0)
  | some contents =>
    if contents.length > limits.logBytes then .error "Recovery log exceeds byte limit"
    else scanFrames limits (contents.length + 1) [] 0 contents

structure RecoveryPage where
  records : List Bytes
  nextCursor : Option Nat
deriving DecidableEq

def pageFrames (limits : Limits) (contents : Bytes) : Nat → Nat → Nat → List Bytes →
    Except String (List Bytes × Nat)
  | 0, offset, _, records => .ok (records, offset)
  | fuel + 1, offset, bytes, records =>
    if offset < contents.length then
      let rest := contents.drop offset
      if rest.length < 4 then .error "Incomplete recovery log tail; repair required"
      else
        let len := beValue (rest.take 4)
        if len = 0 ∨ len > limits.recordSize ∨ offset + 4 + len > contents.length then
          .error "Invalid or incomplete recovery record"
        else if bytes + len > recoveryPageBytes ∧ records ≠ [] then .ok (records, offset)
        else pageFrames limits contents fuel (offset + (4 + len)) (bytes + len)
          (records ++ [(rest.drop 4).take len])
    else .ok (records, offset)

/-- As many records from the cursor on as fit on a page. -/
def getRecoveryPage (file : Option Bytes) (cursor : Nat) : Except String RecoveryPage :=
  match file with
  | none => if cursor = 0 then .ok { records := [], nextCursor := none }
      else .error "No such file or directory (os error 2)"
  | some contents =>
    if contents.length > limits.logBytes ∨ cursor > contents.length then
      .error "Invalid recovery cursor or oversized log"
    else do
      let (records, offset) ← pageFrames limits contents (contents.length + 1) cursor 0 []
      return { records := records, nextCursor := if offset < contents.length then some offset else none }

/-- A client that asks for page after page. Without an answer when the pages have not ended by then.
-/
def followPages (limits : Limits) (file : Option Bytes) : Nat → Nat → List Bytes →
    Option (Except String (List Bytes))
  | 0, _, _ => none
  | fuel + 1, cursor, records =>
    match getRecoveryPage limits file cursor with
    | .error e => some (.error e)
    | .ok page =>
      match page.nextCursor with
      | none => some (.ok (records ++ page.records))
      | some next => followPages limits file fuel next (records ++ page.records)

def admitRecord (E : Externals) (limits : Limits) (file : Option Bytes) (record : Bytes)
    (caller : Option Bytes) :
    Except String (Nat × Nat) :=
  if record.length > limits.recordSize then
    .error s!"Record exceeds maximum size limit of {limits.recordSize} bytes"
  else do
    let (records, offset) ← scanRecoveryLog limits file
    let log ← appendAuthorizedRecoveryRecord E limits records record caller
    return (offset, log.length)

inductive Event where
  | append (record : Bytes) (caller : Option Bytes)
  /-- An append that is cut off, before it changes the contents or after so many bytes of its frame.
  The operator is started again. -/
  | interrupted (record : Bytes) (caller : Option Bytes) (written : Option Nat)

/-- The record whose frame the event may have brought into the file as a whole. -/
def Event.submitted : Event → Option Bytes
  | .append record _ => some record
  | .interrupted record _ (some n) => if (frame record).length ≤ n then some record else none
  | .interrupted _ _ none => none

def Event.request : Event → Bytes × Option Bytes
  | .append record caller => (record, caller)
  | .interrupted record caller _ => (record, caller)

structure LogState where
  file : Option Bytes
  acknowledged : List Bytes

def LogState.contents (s : LogState) : Bytes := s.file.getD []

def step (E : Externals) (limits : Limits) (s : LogState) : Event → LogState
  | .append record caller =>
    match admitRecord E limits s.file record caller with
    | .error _ => s
    | .ok (offset, _) =>
      { file := some (s.contents.take offset ++ frame record), acknowledged := s.acknowledged ++ [record] }
  | .interrupted record caller written =>
    match admitRecord E limits s.file record caller with
    | .error _ => s
    | .ok (offset, _) =>
      match written with
      -- The file is created where there is none.
      | none => { s with file := some s.contents }
      | some n => { s with file := some (s.contents.take offset ++ (frame record).take n) }

def run (E : Externals) (limits : Limits) (events : List Event) : LogState :=
  events.foldl (step E limits) { file := none, acknowledged := [] }

/-- A record that the log takes. -/
structure Fits (limits : Limits) (record : Bytes) : Prop where
  pos : 0 < record.length
  size : record.length ≤ limits.recordSize
  header : record.length < 2 ^ 32

/-- What an interrupted append leaves at the end of the log. -/
def TornTail (tail : Bytes) : Prop := tail = [] ∨ ∃ record, Torn tail record ∧ Fits limits record

/-- Whole frames, and at most one that is cut short. -/
structure Holds (limits : Limits) (contents : Bytes) (records : List Bytes) (tail : Bytes) : Prop where
  split : contents = frames records ++ tail
  torn : TornTail limits tail
  fits : ∀ record ∈ records, Fits limits record
  bytes : contents.length ≤ limits.logBytes
  count : records.length ≤ limits.recordsPerLocator

theorem holds_nil : Holds limits [] [] [] where
  split := rfl
  torn := .inl rfl
  fits record hmem := by cases hmem
  bytes := zero_le _
  count := zero_le _

variable {limits : Limits} {contents tail : Bytes} {records : List Bytes}

theorem Holds.frames_le (h : Holds limits contents records tail) :
    (frames records).length ≤ contents.length := by
  rw [h.split, length_append]
  exact le_add_right _ _

theorem Holds.length_lt (h : Holds limits contents records tail) : records.length < contents.length + 1 :=
  lt_succ_of_le (le_trans (length_le_length_frames records) h.frames_le)

section

variable {limits : Limits} {contents record rest tail : Bytes} {records : List Bytes}

variable {seen : List Bytes}

theorem scanFrames_frame {fuel offset : Nat} (hfits : Fits limits record)
    (hcount : seen.length + 1 ≤ limits.recordsPerLocator) :
    scanFrames limits (fuel + 1) seen offset (frame record ++ rest) =
      scanFrames limits fuel (seen ++ [record]) (offset + (4 + record.length)) rest := by
  obtain ⟨hpos, hs, hlen⟩ := hfits
  have hhd : ¬ (frame record ++ rest).length < 4 := by
    rw [length_append, length_frame]
    omega
  have hbody : ¬ (record ++ rest).length < record.length := by
    rw [length_append]
    omega
  rw [scanFrames, if_neg hhd]
  simp only [header_frame hlen, drop_header_frame, drop_frame]
  rw [if_neg (by omega), if_neg hbody, if_neg (by omega), take_left]

theorem scanFrames_torn {fuel offset : Nat} (htorn : TornTail limits tail) :
    scanFrames limits (fuel + 1) seen offset tail = .ok (seen, offset) := by
  rw [scanFrames]
  by_cases hhd : tail.length < 4
  · rw [if_pos hhd]
  · rcases htorn with rfl | ⟨record, htorn, hpos, hs, hlen⟩
    · exact absurd (zero_lt_succ 3) hhd
    · obtain ⟨hv, hshort⟩ := htorn.header hlen (not_lt.mp hhd)
      rw [if_neg hhd, hv, if_neg (by omega), if_pos hshort]

theorem scanFrames_frames (htorn : TornTail limits tail) (records : List Bytes) :
    ∀ (seen : List Bytes) (fuel offset : Nat), records.length < fuel →
    (∀ record ∈ records, Fits limits record) →
      seen.length + records.length ≤ limits.recordsPerLocator →
      scanFrames limits fuel seen offset (frames records ++ tail) =
        .ok (seen ++ records, offset + (frames records).length) := by
  induction records with
  | nil =>
    intro seen fuel offset hf _ _
    obtain ⟨fuel, rfl⟩ := Nat.exists_eq_add_of_lt hf
    rw [frames_nil, nil_append, scanFrames_torn htorn, append_nil]
    rfl
  | cons record records ih =>
    intro seen fuel offset hf hfi hc
    obtain ⟨fuel, rfl⟩ := Nat.exists_eq_add_of_lt hf
    simp only [length_cons] at hc ⊢
    rw [frames_cons, append_assoc, scanFrames_frame (hfi record mem_cons_self) (by omega),
      ih (seen ++ [record]) _ _ (by omega) (fun r hr => hfi r (mem_cons_of_mem record hr))
        (by rw [length_append, length_singleton]; omega)]
    rw [append_assoc, singleton_append, length_append, length_frame, add_assoc]

theorem scanRecoveryLog_of_holds (h : Holds limits contents records tail) :
    scanRecoveryLog limits (some contents) = .ok (records, (frames records).length) := by
  have hscan := scanFrames_frames h.torn records [] (contents.length + 1) 0 h.length_lt h.fits
    (by simpa using h.count)
  rw [← h.split, nil_append, zero_add] at hscan
  rw [scanRecoveryLog, if_neg (not_lt.mpr h.bytes), hscan]

end

section

variable {limits : Limits} {contents tail : Bytes} {fuel offset bytes : Nat} {page records : List Bytes}

theorem offset_le_of_drop {record rest : Bytes} (hat : contents.drop offset = frame record ++ rest) :
    offset + (4 + record.length) ≤ contents.length := by
  have hdrop := congrArg length hat
  rw [length_drop, length_append, length_frame] at hdrop
  omega

theorem pageFrames_frame {record rest : Bytes} (hfits : Fits limits record)
    (hat : contents.drop offset = frame record ++ rest) (hoffset : offset ≤ contents.length) :
    pageFrames limits contents (fuel + 1) offset bytes page =
      if bytes + record.length > recoveryPageBytes ∧ page ≠ [] then .ok (page, offset)
      else pageFrames limits contents fuel (offset + (4 + record.length)) (bytes + record.length)
      (page ++ [record]) := by
  obtain ⟨hpos, hs, hlen⟩ := hfits
  have hlength := offset_le_of_drop hat
  have hhd : ¬ (frame record ++ rest).length < 4 := by
    rw [length_append, length_frame]
    omega
  rw [pageFrames, if_pos (by omega), hat]
  simp only [if_neg hhd, header_frame hlen, drop_header_frame, take_left]
  rw [if_neg (by omega)]

section

variable (htorn : TornTail limits tail)
include htorn

theorem pageFrames_torn (htail : tail ≠ []) (hat : contents.drop offset = tail) :
    ∃ e, pageFrames limits contents (fuel + 1) offset bytes page = .error e := by
  have hlen : offset + tail.length = contents.length := by
    have hpos := length_pos_iff.mpr htail
    have hdrop := congrArg length hat
    rw [length_drop] at hdrop
    omega
  have hpos := length_pos_iff.mpr htail
  rw [pageFrames, if_pos (by omega), hat]
  by_cases hhd : tail.length < 4
  · exact ⟨"Incomplete recovery log tail; repair required", if_pos hhd⟩
  · rcases htorn with hnil | ⟨record, htorn, hf⟩
    · exact absurd hnil htail
    · obtain ⟨hv, hshort⟩ := htorn.header hf.header (not_lt.mp hhd)
      rw [length_drop] at hshort
      refine ⟨"Invalid or incomplete recovery record", ?_⟩
      simp only [if_neg hhd, hv]
      rw [if_pos (by omega)]

/-- One page from a frame boundary takes some of the records to come, at least one if there is one;
or it meets the torn frame. -/
theorem pageFrames_frames (records : List Bytes) :
    ∀ (fuel offset bytes : Nat) (page : List Bytes), records.length < fuel →
    (∀ record ∈ records, Fits limits record) →
      contents.drop offset = frames records ++ tail → offset ≤ contents.length →
      (∃ taken left, records = taken ++ left ∧ (left = [] → tail = []) ∧
        (page = [] → taken = [] → records = []) ∧
        pageFrames limits contents fuel offset bytes page =
          .ok (page ++ taken, offset + (frames taken).length)) ∨
      tail ≠ [] ∧ ∃ e, pageFrames limits contents fuel offset bytes page = .error e := by
  induction records with
  | nil =>
    intro fuel offset bytes page hf _ hat hoffset
    obtain ⟨fuel, rfl⟩ := Nat.exists_eq_add_of_lt hf
    by_cases ht : tail = []
    · refine .inl ⟨[], [], rfl, fun _ => ht, fun _ _ => rfl, ?_⟩
      have hend : contents.length ≤ offset := by
        rw [ht] at hat
        exact drop_eq_nil_iff.mp hat
      rw [pageFrames, if_neg (not_lt.mpr hend), append_nil]
      rfl
    · exact .inr ⟨ht, pageFrames_torn htorn ht hat⟩
  | cons record records ih =>
    intro fuel offset bytes page hf hfi hat hoffset
    obtain ⟨fuel, rfl⟩ := Nat.exists_eq_add_of_lt hf
    rw [frames_cons, append_assoc] at hat
    have hlen := offset_le_of_drop hat
    rw [pageFrames_frame (hfi record mem_cons_self) hat hoffset]
    by_cases hfull : bytes + record.length > recoveryPageBytes ∧ page ≠ []
    · refine .inl ⟨[], record :: records, rfl, fun hleft => ?_, fun hpage => absurd hpage hfull.2, ?_⟩
      · cases hleft
      · rw [if_pos hfull, append_nil]
        rfl
    · have hn : contents.drop (offset + (4 + record.length)) = frames records ++ tail := by
        rw [← drop_drop, hat, drop_frame]
      rw [if_neg hfull]
      have hf' : records.length < (record :: records).length + fuel := by
        rw [length_cons]
        omega
      rcases ih _ _ (bytes + record.length) (page ++ [record]) hf'
        (fun r hr => hfi r (mem_cons_of_mem record hr)) hn hlen with ⟨taken, left, hsp, hleft, _,
          hpage⟩ | herror
      · refine .inl ⟨record :: taken, left, ?_, hleft, fun _ htaken => ?_, ?_⟩
        · rw [hsp]
          rfl
        · cases htaken
        · rw [hpage, append_assoc, singleton_append, frames_cons, length_append, length_frame, add_assoc]
      · exact .inr herror

theorem getRecoveryPage_frames {cursor : Nat} (hfits : ∀ record ∈ records, Fits limits record)
    (hbytes : contents.length ≤ limits.logBytes) (hat : contents.drop cursor = frames records ++ tail)
    (hcursor : cursor ≤ contents.length) :
    (∃ taken left, records = taken ++ left ∧ (left = [] → tail = []) ∧ (taken = [] → records = []) ∧
      getRecoveryPage limits (some contents) cursor = .ok
        { records := taken
          nextCursor := if left = [] then none else some (cursor + (frames taken).length) }) ∨
    tail ≠ [] ∧ ∃ e, getRecoveryPage limits (some contents) cursor = .error e := by
  have hlen : cursor + (frames records ++ tail).length = contents.length := by
    have hdrop := congrArg length hat
    rw [length_drop] at hdrop
    omega
  have hf : records.length < contents.length + 1 := by
    have hle := length_le_length_frames records
    rw [length_append] at hlen
    omega
  have ho : ¬ (contents.length > limits.logBytes ∨ cursor > contents.length) := by omega
  rcases pageFrames_frames htorn records (contents.length + 1) cursor 0 [] hf hfits hat hcursor with
    ⟨taken, left, hsp, hleft, htaken, hpage⟩ | ⟨ht, e, herror⟩
  · refine .inl ⟨taken, left, hsp, hleft, htaken rfl, ?_⟩
    have hend : cursor + (frames taken).length < contents.length ↔ left ≠ [] := by
      rw [← hlen, hsp, frames_append, append_assoc, length_append, length_append]
      cases left with
      | nil => simp [hleft rfl]
      | cons record left =>
        simp only [frames_cons, length_append, length_frame]
        constructor
        · exact fun _ => cons_ne_nil record left
        · omega
    rw [getRecoveryPage, if_neg ho, hpage, ok_bind]
    by_cases hnil : left = []
    · rw [if_pos hnil, nil_append]
      simp only [if_neg fun hlt => hend.mp hlt hnil]
      rfl
    · rw [if_neg hnil, nil_append]
      simp only [if_pos (hend.mpr hnil)]
      rfl
  · refine .inr ⟨ht, e, ?_⟩
    rw [getRecoveryPage, if_neg ho, herror]
    rfl

theorem followPages_frames (hbytes : contents.length ≤ limits.logBytes) (fuel : Nat) :
    ∀ (records : List Bytes) (cursor : Nat) (seen : List Bytes), records.length < fuel →
      (∀ record ∈ records, Fits limits record) → contents.drop cursor = frames records ++ tail →
      cursor ≤ contents.length →
      (tail = [] → followPages limits (some contents) fuel cursor seen = some (.ok (seen ++ records))) ∧
        (tail ≠ [] → ∃ e, followPages limits (some contents) fuel cursor seen = some (.error e)) := by
  induction fuel with
  | zero => exact fun records cursor seen hf => absurd hf (not_lt_zero _)
  | succ fuel ih =>
    intro records cursor seen hf hfi hat hcursor
    rw [followPages]
    rcases getRecoveryPage_frames htorn hfi hbytes hat hcursor with
      ⟨taken, left, hsp, hleft, htaken, hpage⟩ | ⟨ht, e, herror⟩
    · rw [hpage]
      by_cases hnil : left = []
      · simp only [if_pos hnil]
        refine ⟨fun _ => ?_, fun ht => absurd (hleft hnil) ht⟩
        rw [hsp, hnil, append_nil]
      · simp only [if_neg hnil]
        -- Every page but the last takes a record, so fewer are left for the next one.
        have hpos : 0 < taken.length := by
          refine length_pos_iff.mpr fun hemp => hnil ?_
          have hrec := htaken hemp
          rw [hsp] at hrec
          exact (append_eq_nil_iff.mp hrec).2
        have hsho : left.length < fuel := by
          rw [hsp, length_append] at hf
          omega
        have hdrop : contents.drop (cursor + (frames taken).length) = frames left ++ tail := by
          rw [← drop_drop, hat, hsp, frames_append, append_assoc]
          exact drop_left
        have hn : cursor + (frames taken).length ≤ contents.length := by
          have hlen := congrArg length hat
          rw [length_drop, hsp, frames_append, length_append, length_append] at hlen
          omega
        have hre := ih left _ (seen ++ taken) hsho
          (fun r hr => hfi r (by rw [hsp]; exact mem_append_right taken hr)) hdrop hn
        rw [append_assoc, ← hsp] at hre
        exact hre
    · rw [herror]
      exact ⟨fun hnil => absurd hnil ht, fun _ => ⟨e, rfl⟩⟩

end

theorem followPages_of_holds (h : Holds limits contents records tail) (hfuel : contents.length < fuel) :
    (tail = [] → followPages limits (some contents) fuel 0 [] = some (.ok records)) ∧
      (tail ≠ [] → ∃ e, followPages limits (some contents) fuel 0 [] = some (.error e)) := by
  have hlen := h.length_lt
  exact followPages_frames h.torn h.bytes fuel records 0 [] (by omega) h.fits h.split (zero_le _)

end

/-- An input without bytes is no CBOR item. -/
structure RejectsEmpty (E : Externals) : Prop where
  genesis : E.decodeGenesis [] = none
  certificate : E.decodeCertificate [] = none
  envelope : E.decodeEnvelope [] = none
  snapshot : E.decodeSnapshot [] = none
  head : E.decodeHead [] = none

theorem RejectsEmpty.isAuthorized {E : Externals} (hE : RejectsEmpty E) (a : Authority) :
    isAuthorized E a [] = false := by
  obtain ⟨_, hgen⟩ := fromCanonicalCbor_error hE.genesis
  obtain ⟨_, hcer⟩ := fromCanonicalCbor_error hE.certificate
  obtain ⟨_, hh⟩ := fromCanonicalCbor_error hE.head
  obtain ⟨_, henv⟩ := fromCanonicalCbor_error hE.envelope
  obtain ⟨_, hsna⟩ := fromCanonicalCbor_error hE.snapshot
  simp only [Network.isAuthorized, genesisAuthorized, hgen, certificateAuthorized, hcer, headAuthorized,
    hh, envelopeAuthorized, henv, snapshotAuthorized, hsna, Bool.or_false]

section

variable {E : Externals} {limits : Limits} {records : List Bytes} {record tail : Bytes}
  {caller : Option Bytes}

theorem append_fits {log : List Bytes} (hE : RejectsEmpty E) (hlog : limits.logBytes < 2 ^ 32)
    (h : appendAuthorizedRecoveryRecord E limits records record caller = .ok log) :
    Fits limits record ∧ records.length + 1 ≤ limits.recordsPerLocator ∧
      (frames records).length + (4 + record.length) ≤ limits.logBytes := by
  have haut := append_authorized h
  simp only [appendAuthorizedRecoveryRecord, ite_error_eq_ok] at h
  obtain ⟨hs, hcap, _⟩ := h
  rw [← length_frames] at hcap
  have hpos : 0 < record.length := by
    refine length_pos_iff.mpr fun hemp => ?_
    rw [hemp, hE.isAuthorized] at haut
    cases haut
  exact ⟨⟨hpos, by omega, by omega⟩, by omega, by omega⟩

theorem admitRecord_eq_ok {file : Option Bytes} {offset : Nat} {sequence : Nat}
    (hscan : scanRecoveryLog limits file = .ok (records, (frames records).length))
    (h : admitRecord E limits file record caller = .ok (offset, sequence)) :
    offset = (frames records).length ∧ sequence = records.length + 1 ∧
      appendAuthorizedRecoveryRecord E limits records record caller = .ok (records ++ [record]) := by
  obtain ⟨_, h⟩ := ite_error_eq_ok.mp h
  rw [hscan, ok_bind] at h
  obtain ⟨log, hlog, hpure⟩ := bind_eq_ok.mp h
  cases pure_eq_ok.mp hpure
  have hla := append_eq_ok hlog
  refine ⟨rfl, ?_, by rw [hlog, hla]⟩
  rw [hla, length_append, length_singleton]

end

/-- The records are those of a run of appends, those acknowledged are among them in their order, and
each was submitted as a whole. -/
structure Sound (E : Externals) (limits : Limits) (events : List Event) (s : LogState) (records : List Bytes)
    (tail : Bytes) : Prop where
  holds : Holds limits s.contents records tail
  acknowledged : s.acknowledged.Sublist records
  submitted : records.Sublist (events.filterMap Event.submitted)
  served : ∃ requests, records = serveAll E limits requests []

section

variable {E : Externals} {limits : Limits} {events : List Event} {s : LogState}
  {records : List Bytes} {tail : Bytes}

section

variable (h : Sound E limits events s records tail)
include h

theorem Sound.scan : scanRecoveryLog limits s.file = .ok (records, (frames records).length) := by
  cases hf : s.file with
  | some contents =>
    have hcon : s.contents = contents := by
      rw [LogState.contents, hf]
      rfl
    rw [← hcon]
    exact scanRecoveryLog_of_holds h.holds
  | none =>
    have hemp : records = [] := by
      have hlen := length_le_length_frames records
      have hle := h.holds.frames_le
      rw [LogState.contents, hf] at hle
      exact length_eq_zero_iff.mp (le_zero.mp (le_trans hlen hle))
    rw [hemp]
    rfl

variable {s' : LogState}

theorem Sound.keep {tail' : Bytes} (event : Event) (hholds : Holds limits s'.contents records tail')
    (hack : s'.acknowledged = s.acknowledged) : Sound E limits (events ++ [event]) s' records tail' where
  holds := hholds
  acknowledged := by
    rw [hack]
    exact h.acknowledged
  submitted := by
    rw [filterMap_append]
    exact h.submitted.trans (sublist_append_left _ _)
  served := h.served

theorem Sound.extend {record : Bytes} {caller : Option Bytes} {event : Event}
    (hsubmitted : event.submitted = some record)
    (happend : appendAuthorizedRecoveryRecord E limits records record caller = .ok (records ++ [record]))
    (hholds : Holds limits s'.contents (records ++ [record]) [])
    (hack : s'.acknowledged.Sublist (records ++ [record])) :
    Sound E limits (events ++ [event]) s' (records ++ [record]) [] where
  holds := hholds
  acknowledged := hack
  submitted := by
    rw [filterMap_append]
    refine h.submitted.append ?_
    rw [filterMap_cons_some hsubmitted]
    exact Sublist.refl _
  served := by
    obtain ⟨requests, hserved⟩ := h.served
    refine ⟨requests ++ [(record, caller)], ?_⟩
    rw [serveAll_append, ← hserved, serve, happend]

end

theorem Holds.append {record : Bytes} (h : Holds limits contents records tail) (hfits : Fits limits record)
    (hcount : records.length + 1 ≤ limits.recordsPerLocator)
    (hbytes : (frames records).length + (4 + record.length) ≤ limits.logBytes) :
    Holds limits (contents.take (frames records).length ++ frame record) (records ++ [record]) [] := by
  have htake : contents.take (frames records).length = frames records := by
    rw [h.split]
    exact take_left
  rw [htake]
  refine ⟨?_, .inl rfl, ?_, ?_, ?_⟩
  · rw [frames_append, append_nil]
    simp
  · intro r hr
    rcases mem_append.mp hr with hold | hnew
    · exact h.fits r hold
    · rw [mem_singleton.mp hnew]
      exact hfits
  · rw [length_append, length_frame]
    exact hbytes
  · rw [length_append]
    exact hcount

theorem Holds.tear {record : Bytes} {n : Nat} (h : Holds limits contents records tail)
    (hfits : Fits limits record)
    (hbytes : (frames records).length + (4 + record.length) ≤ limits.logBytes)
    (hn : n < (frame record).length) :
    Holds limits (contents.take (frames records).length ++ (frame record).take n) records
      ((frame record).take n) := by
  have htake : contents.take (frames records).length = frames records := by
    rw [h.split]
    exact take_left
  rw [htake]
  refine ⟨rfl, .inr ⟨record, take_frame_torn hn, hfits⟩, h.fits, ?_, h.count⟩
  rw [length_append, length_take]
  rw [length_frame] at hn ⊢
  omega

theorem step_sound (hE : RejectsEmpty E) (hlog : limits.logBytes < 2 ^ 32)
    (h : Sound E limits events s records tail) (event : Event) :
    ∃ records' tail', Sound E limits (events ++ [event]) (step E limits s event) records' tail' := by
  cases hche : admitRecord E limits s.file event.request.1 event.request.2 with
  | error e =>
    have hs : step E limits s event = s := by
      cases event <;> simp only [step, Event.request] at hche ⊢ <;> rw [hche]
    rw [hs]
    exact ⟨records, tail, h.keep event h.holds rfl⟩
  | ok plan =>
    obtain ⟨hoffset, _, happend⟩ := admitRecord_eq_ok h.scan hche
    obtain ⟨hf, hc, hb⟩ := append_fits hE hlog happend
    cases event with
    | append record caller =>
      simp only [Event.request] at hche happend hf hb
      simp only [step, hche, hoffset]
      exact ⟨records ++ [record], [], h.extend rfl happend (h.holds.append hf hc hb)
        (h.acknowledged.append (Sublist.refl _))⟩
    | interrupted record caller written =>
      simp only [Event.request] at hche happend hf hb
      cases written with
      | none =>
        simp only [step, hche]
        exact ⟨records, tail, h.keep _ h.holds rfl⟩
      | some n =>
        simp only [step, hche, hoffset]
        by_cases hn : n < (frame record).length
        · exact ⟨records, (frame record).take n, h.keep _ (h.holds.tear hf hb hn) rfl⟩
        · -- Only the acknowledgement is missing.
          have hwhole : (frame record).length ≤ n := not_lt.mp hn
          rw [take_of_length_le hwhole]
          exact ⟨records ++ [record], [], h.extend (if_pos hwhole) happend (h.holds.append hf hc hb)
            (h.acknowledged.trans (sublist_append_left _ _))⟩

theorem run_append (E : Externals) (limits : Limits) (events : List Event) (event : Event) :
    run E limits (events ++ [event]) = step E limits (run E limits events) event := by
  rw [run, foldl_append]
  rfl

theorem run_sound (hE : RejectsEmpty E) (hlog : limits.logBytes < 2 ^ 32) (events : List Event) :
    ∃ records tail, Sound E limits events (run E limits events) records tail := by
  induction events using reverseRecOn with
  | nil =>
    exact ⟨[], [], holds_nil limits, Sublist.refl _, Sublist.refl _, [], rfl⟩
  | append_singleton events event ih =>
    obtain ⟨records, tail, h⟩ := ih
    rw [run_append]
    exact step_sound hE hlog h event

theorem operatorLimits_logBytes_lt (recordSize : Nat) : (operatorLimits recordSize).logBytes < 2 ^ 32 := by
  show 64 * 1024 * 1024 < 2 ^ 32
  omega

/-- Whatever is cut off, the file is within its limits and keeps the chain of authority: it holds
the records of a run of appends to a list. -/
theorem run_authorityChain (hE : RejectsEmpty E) (recordSize : Nat) (events : List Event) :
    let limits := operatorLimits recordSize
    let s := run E limits events
    s.contents.length ≤ limits.logBytes ∧
      ∃ records offset, scanRecoveryLog limits s.file = .ok (records, offset) ∧
      records.length ≤ limits.recordsPerLocator ∧
        ((∀ record ∈ records, SingleKind E record) → records = [] ∨ ∃ key, AuthorityChain E key records) := by
  intro limits s
  obtain ⟨records, tail, h⟩ := run_sound hE (operatorLimits_logBytes_lt recordSize) events
  obtain ⟨requests, hserved⟩ := h.served
  refine ⟨h.holds.bytes, records, _, h.scan, h.holds.count, fun hkind => ?_⟩
  rw [hserved] at hkind ⊢
  rcases serveAll_chained hkind with hemp | ⟨key, hc⟩
  · exact .inl hemp
  · exact .inr ⟨key, hc.chain⟩

end

/-- What was acknowledged is read back in its order, and nothing that was not submitted as a whole.
-/
theorem scan_after_interruptions (E : Externals) (hE : RejectsEmpty E) (recordSize : Nat)
    (events : List Event) :
    ∃ records offset,
      scanRecoveryLog (operatorLimits recordSize) (run E (operatorLimits recordSize) events).file =
        .ok (records, offset) ∧
        (run E (operatorLimits recordSize) events).acknowledged.Sublist records ∧
        records.Sublist (events.filterMap Event.submitted) := by
  obtain ⟨records, tail, h⟩ := run_sound hE (operatorLimits_logBytes_lt recordSize) events
  exact ⟨records, _, h.scan, h.acknowledged, h.submitted⟩

/-- Following the pages ends, with the records of the scan, or with an error if the file ends with a
torn frame. -/
theorem pages_after_interruptions (E : Externals) (hE : RejectsEmpty E) (recordSize : Nat)
    (events : List Event) :
    let limits := operatorLimits recordSize
    let s := run E limits events
    ∃ records offset, scanRecoveryLog limits s.file = .ok (records, offset) ∧ (offset = s.contents.length →
        ∀ fuel, s.contents.length < fuel → followPages limits s.file fuel 0 [] = some (.ok records)) ∧
      (offset ≠ s.contents.length →
        ∀ fuel, s.contents.length < fuel → ∃ e, followPages limits s.file fuel 0 [] = some (.error e)) := by
  intro limits s
  obtain ⟨records, tail, h⟩ := run_sound hE (operatorLimits_logBytes_lt recordSize) events
  have hscan : scanRecoveryLog limits s.file = .ok (records, (frames records).length) := h.scan
  have hholds : Holds limits s.contents records tail := h.holds
  have ht : (frames records).length = s.contents.length ↔ tail = [] := by
    rw [hholds.split, length_append, ← length_eq_zero_iff]
    omega
  refine ⟨records, _, hscan, ?_⟩
  rw [ne_eq, ht]
  cases hfi : s.file with
  | some contents =>
    have hcon : s.contents = contents := by
      rw [LogState.contents, hfi]
      rfl
    rw [hcon] at hholds ⊢
    exact ⟨fun hnil fuel hf => (followPages_of_holds hholds hf).1 hnil,
      fun hne fuel hf => (followPages_of_holds hholds hf).2 hne⟩
  | none =>
    have hemp : s.contents = [] := by
      rw [LogState.contents, hfi]
      rfl
    have hsp := hholds.split
    rw [hemp] at hsp
    obtain ⟨hframes, hnil⟩ := append_eq_nil_iff.mp hsp.symm
    have hrec : records = [] := by
      have hle := length_le_length_frames records
      rw [hframes] at hle
      exact length_eq_zero_iff.mp (Nat.le_zero.mp hle)
    refine ⟨fun _ fuel hf => ?_, fun hne => absurd hnil hne⟩
    obtain ⟨fuel, rfl⟩ := Nat.exists_eq_add_of_lt hf
    rw [hrec, followPages]
    rfl

theorem reference_rejectsEmpty : RejectsEmpty reference where
  genesis := rfl
  certificate := rfl
  envelope := rfl
  snapshot := rfl
  head := rfl

namespace Cut

def genesis : Bytes := reference.encode (.genesis TwoKeys.genesis)

def certificate : Bytes := reference.encode (.certificate (TwoKeys.certificate TwoKeys.rootPk))

def torn : List Event := [.append genesis none, .interrupted certificate none (some 3)]

theorem torn_file : scanRecoveryLog (operatorLimits 65536) (run reference (operatorLimits 65536) torn).file =
      .ok ([genesis], (frame genesis).length) ∧
    getRecoveryPage (operatorLimits 65536) (run reference (operatorLimits 65536) torn).file 0 =
      .error "Incomplete recovery log tail; repair required" := by
  decide +kernel

/-- With a torn frame at the end the scan returns the records before it, and the first page an
error. -/
theorem torn_frame_stops_pages : let s := run reference (operatorLimits 65536) torn
    scanRecoveryLog (operatorLimits 65536) s.file = .ok ([genesis], (frame genesis).length) ∧
      ∀ fuel, followPages (operatorLimits 65536) s.file fuel 0 [] ≠ some (.ok [genesis]) := by
  refine ⟨torn_file.1, fun fuel => ?_⟩
  cases fuel with
  | zero => simp [followPages]
  | succ fuel =>
    rw [followPages, torn_file.2]
    simp

theorem torn_authorityChain : let s := run reference (operatorLimits 65536) torn
    scanRecoveryLog (operatorLimits 65536) s.file = .ok ([genesis], (frame genesis).length) ∧
      s.contents.length ≤ (operatorLimits 65536).logBytes :=
  ⟨torn_file.1, (run_authorityChain reference_rejectsEmpty 65536 torn).1⟩

def retried : List Event := torn ++ [.append certificate none, .interrupted certificate none (some 1000)]

theorem retried_file : let s := run reference (operatorLimits 65536) retried
    s.acknowledged = [genesis, certificate] ∧
      scanRecoveryLog (operatorLimits 65536) s.file =
        .ok ([genesis, certificate, certificate], s.contents.length) := by
  decide +kernel

theorem retried_scan :
    (run reference (operatorLimits 65536) retried).acknowledged = [genesis, certificate] ∧ ∃ records offset,
        scanRecoveryLog (operatorLimits 65536) (run reference (operatorLimits 65536) retried).file =
          .ok (records, offset) ∧
          (run reference (operatorLimits 65536) retried).acknowledged.Sublist records ∧
          records.Sublist (retried.filterMap Event.submitted) :=
  ⟨retried_file.1, scan_after_interruptions reference reference_rejectsEmpty 65536 retried⟩

theorem retried_pages : let s := run reference (operatorLimits 65536) retried
    followPages (operatorLimits 65536) s.file (s.contents.length + 1) 0 [] =
      some (.ok [genesis, certificate, certificate]) := by
  intro s
  obtain ⟨records, offset, hscan, hpages, _⟩ :=
    pages_after_interruptions reference reference_rejectsEmpty 65536 retried
  have hs := retried_file.2.symm.trans hscan
  cases hs
  exact hpages rfl _ (lt_succ_self _)

end Cut

end CipherVault.Network.RecoveryLog
