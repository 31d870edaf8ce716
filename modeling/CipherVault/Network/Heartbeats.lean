import CipherVault.Network.Members

/-!
# Network.Heartbeats

The signed heartbeats of `services/operator/src/swarm/liveness.rs` and the table of live peers. The
table is kept by the peer id that a heartbeat claims, and the signature does not bind it to its
owner (`Usurped`). An entry can be forgotten before its heartbeat is out of date (`Replayed`).
-/

namespace CipherVault.Network.Heartbeats

open Crypto Format List Nat
open Members (PeerDescriptor)

abbrev PeerId := Bytes

def heartbeatVersion : Nat := 1

def heartbeatDomain : Bytes := ascii "ciphervault_heartbeat_v1"

def heartbeatClockSkewMs : Nat := 60000

structure Heartbeat where
  version : Nat
  (operatorId peerId : Text)
  (seq wallTimeMs : Nat)
  (signerPkHex signatureHex : Text)
deriving DecidableEq

def Heartbeat.signingBytes (hb : Heartbeat) : Bytes :=
  leBytes 4 hb.version ++ utf8 hb.operatorId ++ ascii ":" ++ utf8 hb.peerId ++ ascii ":" ++
    leBytes 8 hb.seq ++
    leBytes 8 hb.wallTimeMs ++ utf8 hb.signerPkHex

variable (E : Externals)

def Heartbeat.new (operatorId peerId : Text) (seq wallTimeMs : Nat) (signingKey : Bytes) : Heartbeat :=
  let hb : Heartbeat :=
    { version := heartbeatVersion, operatorId := operatorId, peerId := peerId, seq := seq,
      wallTimeMs := wallTimeMs
      signerPkHex := Hex.encode (E.ed25519Public signingKey), signatureHex := [] }
  { hb with signatureHex := Hex.encode (signWithDomain E signingKey heartbeatDomain hb.signingBytes) }

inductive HeartbeatReject where
  | badVersion
  | clockSkew
  | badSignature
  | staleSeq
deriving DecidableEq

inductive ControlInput where
  | heartbeat (hb : Heartbeat)
  | unknownKind
  | badEnvelope

def constantTimeEqHex (a b : Text) : Bool :=
  (utf8 a).length == (utf8 b).length &&
    ((utf8 a).zip (utf8 b)).foldl (fun diff e => diff ||| (e.1 ^^^ e.2)) (0 : Byte) == 0

def absDiff (a b : Nat) : Nat := if a < b then b - a else a - b

/-- Version, clock, sender, signature and sequence, in this order. -/
def verifyHeartbeat (hb : Heartbeat) (expectedPkHex : Option Text) (lastSeq : Option Nat) (nowMs : Nat) :
    Except HeartbeatReject Unit :=
  if hb.version ≠ heartbeatVersion then .error .badVersion
  else if absDiff hb.wallTimeMs nowMs > heartbeatClockSkewMs then .error .clockSkew
  else match expectedPkHex with
    | none => .error .badSignature
    | some expected =>
      if !constantTimeEqHex hb.signerPkHex expected then .error .badSignature
      else match Hex.decode hb.signerPkHex with
        | none => .error .badSignature
        | some pk =>
          if pk.length ≠ 32 then .error .badSignature
          else match Hex.decode hb.signatureHex with
            | none => .error .badSignature
            | some signature =>
              if signature.length ≠ 64 then .error .badSignature
              else match verifyWithDomain E pk heartbeatDomain hb.signingBytes signature with
                | .error _ => .error .badSignature
                | .ok () =>
                  match lastSeq with
                  | none => .ok ()
                  | some last => if hb.seq ≤ last then .error .staleSeq else .ok ()

structure LivenessEntry where
  operatorId : Text
  (lastSeq lastSeen : Nat)
deriving DecidableEq

abbrev LivenessTracker := Dict PeerId LivenessEntry

namespace LivenessTracker

variable (tracker : LivenessTracker)

def noteHeartbeat (peer : PeerId) (operatorId : Text) (seq now : Nat) : LivenessTracker :=
  tracker.insert peer { operatorId := operatorId, lastSeq := seq, lastSeen := now }

def lastSeq (peer : PeerId) : Option Nat := (tracker.lookup peer).map LivenessEntry.lastSeq

def prune (timeout now : Nat) : LivenessTracker :=
  Dict.retain (fun _ entry => now - entry.lastSeen < 4 * timeout) tracker

end LivenessTracker

inductive MessageAcceptance where
  | accept
  | reject
  | ignore
deriving DecidableEq

def nowMs (now : Nat) : Nat := now / 1000000

/-- `accept_control_message` for the routing table and the reading of peer ids;
`note_peer_heartbeat` does not touch the tracker. -/
def acceptControlMessage (parse : Text → Option PeerId) (table : Dict Text PeerDescriptor) (now : Nat)
    (tracker : LivenessTracker) : ControlInput → MessageAcceptance × LivenessTracker
  | .badEnvelope => (.reject, tracker)
  | .unknownKind => (.ignore, tracker)
  | .heartbeat hb =>
    match table.lookup hb.operatorId with
    | none => (.ignore, tracker)
    | some desc =>
      match parse hb.peerId with
      | none => (.reject, tracker)
      | some peer =>
        match verifyHeartbeat E hb (some desc.signingPkHex) (tracker.lastSeq peer) (nowMs now) with
        | .ok () => (.accept, tracker.noteHeartbeat peer hb.operatorId hb.seq now)
        | .error _ => (.reject, tracker)

/-- The clock, the tracker, and what it accepted. -/
structure World where
  clock : Nat
  tracker : LivenessTracker
  accepted : List (Heartbeat × Nat)

inductive Event where
  | advance (nanos : Nat)
  | prune
  | receive (table : Dict Text PeerDescriptor) (input : ControlInput)

def ControlInput.heartbeats : ControlInput → List Heartbeat
  | .heartbeat hb => [hb]
  | _ => []

section

variable (E : Externals) (parse : Text → Option PeerId) (timeout : Nat)

def step (w : World) : Event → World
  | .advance nanos => { w with clock := w.clock + nanos }
  | .prune => { w with tracker := w.tracker.prune timeout w.clock }
  | .receive table input =>
    match acceptControlMessage E parse table w.clock w.tracker input with
    | (.accept, tracker) =>
      { w with tracker := tracker, accepted := w.accepted ++ input.heartbeats.map fun hb => (hb, w.clock) }
    | (_, tracker) => { w with tracker := tracker }

def run (w : World) (events : List Event) : World := events.foldl (step E parse timeout) w

end

def World.new (clock : Nat) : World := { clock := clock, tracker := ∅, accepted := [] }

/-- The signature of the heartbeat verifies. -/
def Heartbeat.Signed (hb : Heartbeat) : Prop :=
  ∃ pk signature, Hex.decode hb.signerPkHex = some pk ∧ pk.length = 32 ∧
    Hex.decode hb.signatureHex = some signature ∧
    signature.length = 64 ∧ verifyWithDomain E pk heartbeatDomain hb.signingBytes signature = .ok ()

theorem Heartbeat.signed_new {E : Externals} (hE : Lawful E) (operatorId peerId : Text) (seq wallTimeMs : Nat)
    (signingKey : Bytes) : (Heartbeat.new E operatorId peerId seq wallTimeMs signingKey).Signed E := by
  refine ⟨E.ed25519Public signingKey, _, Hex.decode_encode _, hE.public_length signingKey,
    Hex.decode_encode _,
    hE.sign_length _ _, ?_⟩
  exact if_pos (hE.verify_sign _ _)

/-- The checks that a heartbeat passes. -/
structure Accepts (parse : Text → Option PeerId) (table : Dict Text PeerDescriptor) (now : Nat)
    (tracker : LivenessTracker) (hb : Heartbeat) (peer : PeerId) : Prop where
  announced : (table.lookup hb.operatorId).map PeerDescriptor.signingPkHex = some hb.signerPkHex
  parsed : parse hb.peerId = some peer
  version : hb.version = heartbeatVersion
  timely : absDiff hb.wallTimeMs (nowMs now) ≤ heartbeatClockSkewMs
  signed : hb.Signed E
  fresh : ∀ last, tracker.lastSeq peer = some last → last < hb.seq

theorem foldl_or_eq_zero (l : List (Byte × Byte)) (diff : Byte) :
    l.foldl (fun diff e => diff ||| (e.1 ^^^ e.2)) diff = 0 ↔ diff = 0 ∧ ∀ e ∈ l, e.1 = e.2 := by
  induction l generalizing diff with
  | nil => simp
  | cons e l ih =>
    rw [foldl_cons, ih, forall_mem_cons]
    have hor : diff ||| (e.1 ^^^ e.2) = 0 ↔ diff = 0 ∧ e.1 = e.2 := by
      rw [BitVec.ofNat_eq_ofNat, BitVec.or_eq_zero_iff, BitVec.xor_eq_zero_iff]
    rw [hor, and_assoc]

theorem constantTimeEqHex_iff {a b : Text} : constantTimeEqHex a b = true ↔ a = b := by
  rw [constantTimeEqHex, Bool.and_eq_true, beq_iff_eq, beq_iff_eq, foldl_or_eq_zero]
  constructor
  · rintro ⟨hlen, _, hall⟩
    refine utf8_inj (ext_getElem hlen fun i hi hi' => ?_)
    have hzip : i < ((utf8 a).zip (utf8 b)).length := by
      rw [length_zip]
      exact Nat.lt_min.mpr ⟨hi, hi'⟩
    have hmem := hall _ (getElem_mem hzip)
    rw [getElem_zip] at hmem
    exact hmem
  · rintro rfl
    refine ⟨rfl, rfl, fun e he => ?_⟩
    obtain ⟨i, hi, rfl⟩ := getElem_of_mem he
    rw [getElem_zip]

theorem verifyHeartbeat_iff {hb : Heartbeat} {expected : Text} {lastSeq : Option Nat}
    {E : Externals} {nowMs : Nat} :
    verifyHeartbeat E hb (some expected) lastSeq nowMs = .ok () ↔
      hb.version = heartbeatVersion ∧ absDiff hb.wallTimeMs nowMs ≤ heartbeatClockSkewMs ∧
      hb.signerPkHex = expected ∧
        hb.Signed E ∧ ∀ last, lastSeq = some last → last < hb.seq := by
  simp only [verifyHeartbeat, ite_error_eq_ok, not_not, not_lt, Bool.not_eq_true', Bool.not_eq_false,
    constantTimeEqHex_iff]
  refine and_congr_right fun _ => and_congr_right fun _ => and_congr_right fun _ => ?_
  unfold Heartbeat.Signed
  cases Hex.decode hb.signerPkHex with
  | none => simp
  | some pk =>
    cases Hex.decode hb.signatureHex with
    | none => simp
    | some signature =>
      simp only [ite_error_eq_ok, ne_eq, not_not]
      cases hver : verifyWithDomain E pk heartbeatDomain hb.signingBytes signature with
      | error e => simp [hver]
      | ok _ =>
        cases lastSeq with
        | none => simp [hver]
        | some last => simp [hver, and_assoc]

variable {E : Externals}

section

variable {parse : Text → Option PeerId} {table : Dict Text PeerDescriptor} {now : Nat}
  {tracker : LivenessTracker}

theorem acceptControlMessage_of_accepts {hb : Heartbeat} {peer : PeerId}
    (h : Accepts E parse table now tracker hb peer) :
    acceptControlMessage E parse table now tracker (.heartbeat hb) =
      (.accept, tracker.noteHeartbeat peer hb.operatorId hb.seq now) := by
  obtain ⟨desc, hdesc, hkey⟩ := Option.map_eq_some_iff.mp h.announced
  have hver := verifyHeartbeat_iff.mpr ⟨h.version, h.timely, hkey.symm, h.signed, h.fresh⟩
  simp only [acceptControlMessage, hdesc, h.parsed, hver]

theorem acceptControlMessage_cases (input : ControlInput) :
    (∃ hb peer, input = .heartbeat hb ∧ Accepts E parse table now tracker hb peer) ∨
      ∃ verdict, verdict ≠ .accept ∧
        acceptControlMessage E parse table now tracker input = (verdict, tracker) := by
  cases input with
  | badEnvelope => exact .inr ⟨.reject, MessageAcceptance.noConfusion, rfl⟩
  | unknownKind => exact .inr ⟨.ignore, MessageAcceptance.noConfusion, rfl⟩
  | heartbeat hb =>
    rw [acceptControlMessage]
    cases hdesc : table.lookup hb.operatorId with
    | none => exact .inr ⟨.ignore, MessageAcceptance.noConfusion, rfl⟩
    | some desc =>
      cases hp : parse hb.peerId with
      | none => exact .inr ⟨.reject, MessageAcceptance.noConfusion, rfl⟩
      | some peer =>
        dsimp only
        cases hverify : verifyHeartbeat E hb (some desc.signingPkHex) (tracker.lastSeq peer) (nowMs now) with
        | error e => exact .inr ⟨.reject, MessageAcceptance.noConfusion, rfl⟩
        | ok _ =>
          obtain ⟨hver, htimely, hkey, hsig, hfr⟩ := verifyHeartbeat_iff.mp hverify
          exact .inl ⟨hb, peer, rfl, by rw [hdesc, hkey]; rfl, hp, hver, htimely, hsig, hfr⟩

end

variable {timeout : Nat} {w : World} {hb : Heartbeat}

section

variable {parse : Text → Option PeerId}

theorem step_receive (table : Dict Text PeerDescriptor) (input : ControlInput) :
    (∃ hb peer, input = .heartbeat hb ∧ Accepts E parse table w.clock w.tracker hb peer ∧
      step E parse timeout w (.receive table input) = { w with
          tracker := w.tracker.noteHeartbeat peer hb.operatorId hb.seq w.clock
          accepted := w.accepted ++ [(hb, w.clock)] }) ∨
      step E parse timeout w (.receive table input) = w := by
  rw [step]
  rcases acceptControlMessage_cases input with ⟨hb, peer, rfl, hacc⟩ | ⟨verdict, hver, heq⟩
  · rw [acceptControlMessage_of_accepts hacc]
    exact .inl ⟨hb, peer, rfl, hacc, rfl⟩
  · rw [heq]
    cases verdict with
    | accept => exact absurd rfl hver
    | reject | ignore => exact .inr rfl

theorem clock_receive (table : Dict Text PeerDescriptor) (input : ControlInput) :
    (step E parse timeout w (.receive table input)).clock = w.clock := by
  rcases step_receive table input with ⟨_, _, _, _, hs⟩ | hs
  · rw [hs]
  · rw [hs]

variable {table : Dict Text PeerDescriptor} {peer : PeerId}

theorem lookup_of_accepts (h : Accepts E parse table w.clock w.tracker hb peer) :
    (step E parse timeout w (.receive table (.heartbeat hb))).tracker.lookup peer =
      some { operatorId := hb.operatorId, lastSeq := hb.seq, lastSeen := w.clock } := by
  rw [step, acceptControlMessage_of_accepts h]
  exact lookup_insert _

theorem lookup_of_not_accepts (h : ¬ Accepts E parse table w.clock w.tracker hb peer) :
    (step E parse timeout w (.receive table (.heartbeat hb))).tracker.lookup peer =
      w.tracker.lookup peer := by
  rcases step_receive table (.heartbeat hb) with ⟨hb', peer', heq, hacc, hs⟩ | hs
  · cases heq
    have hne : peer ≠ peer' := by
      rintro rfl
      exact h hacc
    rw [hs]
    exact lookup_insert_ne hne
  · rw [hs]

end

/-! ## Heartbeats are about their signer -/

section

variable {parse : Text → Option PeerId} {v : World} {operatorId key : Text} {peer : PeerId}

def Heartbeat.isOf (operatorId key : Text) (hb : Heartbeat) : Bool :=
  hb.operatorId == operatorId && hb.signerPkHex == key

def Event.isOwn (operatorId key : Text) : Event → Bool
  | .receive _ (.heartbeat hb) => hb.isOf operatorId key
  | _ => true

/-- The operator is registered with its key, and no heartbeat of another operator that passes the
checks claims its peer id. -/
def Separate (E : Externals) (parse : Text → Option PeerId) (operatorId key : Text) (peer : PeerId)
    (w : World) :
    Event → Prop
  | .receive table input => (table.lookup operatorId).map PeerDescriptor.signingPkHex = some key ∧
      ∀ hb, input = .heartbeat hb → hb.operatorId ≠ operatorId →
        ¬ Accepts E parse table w.clock w.tracker hb peer
  | _ => True

variable {table : Dict Text PeerDescriptor} {event : Event} {events : List Event}

theorem Accepts.isOf (h : Accepts E parse table w.clock w.tracker hb peer)
    (hseparate : Separate E parse operatorId key peer w (.receive table (.heartbeat hb))) :
    hb.isOf operatorId key = true := by
  obtain ⟨hreg, hclaims⟩ := hseparate
  have hope : hb.operatorId = operatorId := by
    by_contra hne
    exact hclaims hb rfl hne h
  have hkey := h.announced
  rw [hope, hreg] at hkey
  rw [Heartbeat.isOf, Bool.and_eq_true, beq_iff_eq, beq_iff_eq]
  exact ⟨hope, (Option.some.inj hkey).symm⟩

/-- Two worlds that show the peer alike. -/
structure Agree (peer : PeerId) (w v : World) : Prop where
  clock : w.clock = v.clock
  entry : w.tracker.lookup peer = v.tracker.lookup peer

section

variable (h : Agree peer w v)
include h

theorem Accepts.congr (haccepts : Accepts E parse table w.clock w.tracker hb peer) :
    Accepts E parse table v.clock v.tracker hb peer := by
  refine ⟨haccepts.announced, haccepts.parsed, haccepts.version, h.clock ▸ haccepts.timely,
    haccepts.signed, ?_⟩
  intro last hla
  refine haccepts.fresh last ?_
  rw [LivenessTracker.lastSeq, h.entry]
  exact hla

theorem Agree.symm : Agree peer v w := ⟨h.clock.symm, h.entry.symm⟩

theorem Agree.both (event : Event) :
    Agree peer (step E parse timeout w event) (step E parse timeout v event) := by
  cases event with
  | advance nanos => exact ⟨congrArg (· + nanos) h.clock, h.entry⟩
  | prune =>
    refine ⟨h.clock, ?_⟩
    rw [step, step, LivenessTracker.prune, LivenessTracker.prune, lookup_retain, lookup_retain,
      h.entry, h.clock]
  | receive table input =>
    refine ⟨by rw [clock_receive, clock_receive, h.clock], ?_⟩
    cases input with
    | badEnvelope | unknownKind => exact h.entry
    | heartbeat hb =>
      by_cases hacc : Accepts E parse table w.clock w.tracker hb peer
      · rw [lookup_of_accepts hacc, lookup_of_accepts (hacc.congr h), h.clock]
      · have hv : ¬ Accepts E parse table v.clock v.tracker hb peer := fun hv => hacc (hv.congr h.symm)
        rw [lookup_of_not_accepts hacc, lookup_of_not_accepts hv, h.entry]

theorem Agree.other (hevent : event.isOwn operatorId key = false)
    (hseparate : Separate E parse operatorId key peer w event) :
    Agree peer (step E parse timeout w event) v := by
  cases event with
  | advance | prune => cases hevent
  | receive table input =>
    refine ⟨by rw [clock_receive, h.clock], ?_⟩
    cases input with
    | badEnvelope | unknownKind => cases hevent
    | heartbeat hb =>
      have hnot : ¬ Accepts E parse table w.clock w.tracker hb peer := by
        intro hacc
        have hown : hb.isOf operatorId key = false := hevent
        rw [hacc.isOf hseparate] at hown
        cases hown
      rw [lookup_of_not_accepts hnot, h.entry]

theorem agree_run (hseparate : Runs.Along (step E parse timeout)
    (Separate E parse operatorId key peer) w events) :
    Agree peer (run E parse timeout w events)
    (run E parse timeout v (events.filter (Event.isOwn operatorId key))) := by
  induction events generalizing w v with
  | nil => exact h
  | cons event events ih =>
    obtain ⟨hfirst, hr⟩ := hseparate
    cases hown : event.isOwn operatorId key with
    | true =>
      rw [filter_cons_of_pos hown]
      exact ih (h.both event) hr
    | false =>
      rw [filter_cons_of_neg (Bool.eq_false_iff.mp hown)]
      exact ih (h.other hown hfirst) hr

end

/-- The entry of the peer is due to a heartbeat of this operator. -/
def OwnEntry (operatorId key : Text) (peer : PeerId) (w : World) : Prop :=
  ∀ entry, w.tracker.lookup peer = some entry →
    ∃ e ∈ w.accepted, e.1.isOf operatorId key = true ∧ e.1.seq = entry.lastSeq

theorem OwnEntry.step (h : OwnEntry operatorId key peer w)
    (hseparate : Separate E parse operatorId key peer w event) :
    OwnEntry operatorId key peer (step E parse timeout w event) := by
  cases event with
  | advance nanos => exact h
  | prune => exact fun entry hen => h entry (lookup_retain_eq_some.mp hen).1
  | receive table input =>
    intro entry hen
    rcases step_receive table input with ⟨hb, peer', rfl, hacc, hs⟩ | hs
    · rw [hs] at hen ⊢
      by_cases hp : peer = peer'
      · subst hp
        have hnew : some _ = some entry := (lookup_insert _).symm.trans hen
        refine ⟨(hb, w.clock), mem_append_right _ mem_cons_self, hacc.isOf hseparate, ?_⟩
        rw [← Option.some.inj hnew]
      · have hold : w.tracker.lookup peer = some entry := (lookup_insert_ne hp).symm.trans hen
        obtain ⟨e, he, hown, hseq⟩ := h entry hold
        exact ⟨e, mem_append_left _ he, hown, hseq⟩
    · rw [hs] at hen ⊢
      exact h entry hen

theorem ownEntry_run (h : OwnEntry operatorId key peer w)
    (hseparate : Runs.Along (step E parse timeout) (Separate E parse operatorId key peer) w events) :
    OwnEntry operatorId key peer (run E parse timeout w events) :=
  hseparate.keeps (fun _ _ hev hw => OwnEntry.step hw hev) h

/-- When no other operator can claim its peer id, the entry is what the operator's own heartbeats
make of it, and a timely heartbeat with a larger sequence number is accepted. -/
theorem heartbeats_about_signer (E : Externals) (parse : Text → Option PeerId) (timeout clock : Nat)
    (operatorId key : Text)
    (peer : PeerId) (events : List Event)
    (hseparate : Runs.Along (step E parse timeout) (Separate E parse operatorId key peer)
      (.new clock) events) :
    (run E parse timeout (.new clock) events).tracker.lookup peer =
        (run E parse timeout (.new clock) (events.filter (Event.isOwn operatorId key))).tracker.lookup peer ∧
      ∀ (table : Dict Text PeerDescriptor) (hb : Heartbeat),
        (table.lookup operatorId).map PeerDescriptor.signingPkHex = some key → hb.isOf operatorId key = true →
        parse hb.peerId = some peer → hb.version = heartbeatVersion → hb.Signed E →
        absDiff hb.wallTimeMs (nowMs (run E parse timeout (.new clock) events).clock) ≤ heartbeatClockSkewMs →
        (∀ e ∈ (run E parse timeout (.new clock) events).accepted, e.1.isOf operatorId key = true →
          e.1.seq < hb.seq) →
        (acceptControlMessage E parse table (run E parse timeout (.new clock) events).clock
          (run E parse timeout (.new clock) events).tracker (.heartbeat hb)).1 = .accept := by
  refine ⟨(agree_run ⟨rfl, rfl⟩ hseparate).entry, ?_⟩
  intro table hb hreg hown hp hver hsig htimely hlarger
  have hen : OwnEntry operatorId key peer (run E parse timeout (.new clock) events) := by
    refine ownEntry_run ?_ hseparate
    intro entry h
    cases h
  rw [Heartbeat.isOf, Bool.and_eq_true, beq_iff_eq, beq_iff_eq] at hown
  have hacc : Accepts E parse table (run E parse timeout (.new clock) events).clock
      (run E parse timeout (.new clock) events).tracker hb peer := by
    refine ⟨?_, hp, hver, htimely, hsig, ?_⟩
    · rw [hown.1, hown.2, hreg]
    · intro last hla
      obtain ⟨entry, hl, rfl⟩ := Option.map_eq_some_iff.mp hla
      obtain ⟨e, he, hof, hseq⟩ := hen entry hl
      rw [← hseq]
      exact hlarger e he hof
  rw [acceptControlMessage_of_accepts hacc]

end

namespace Usurped

open Members.Sample (peer)

def parse (text : Text) : Option PeerId := some (utf8 text)

def table : Dict Text PeerDescriptor :=
  AList.insert ['a'] (peer [2#8] ['a']) (AList.insert ['b'] (peer [3#8] ['b']) ∅)

def own (seq : Nat) : Heartbeat := .new reference ['a'] ['p'] seq 1000 [2#8]

def claim : Heartbeat := .new reference ['b'] ['p'] (2 ^ 64 - 1) 1000 [3#8]

def receive (hb : Heartbeat) : Event := .receive table (.heartbeat hb)

def after (heartbeats : List Heartbeat) : World :=
  run reference parse 15000000000 (.new 1000000000) (heartbeats.map receive)

def verdict (heartbeats : List Heartbeat) (hb : Heartbeat) : MessageAcceptance :=
  (acceptControlMessage reference parse table (after heartbeats).clock (after heartbeats).tracker
    (.heartbeat hb)).1

/-- The entry of the peer id goes over to the other operator, and the next heartbeat of its owner is
rejected. -/
theorem claim_takes_entry :
    (after [own 1]).tracker.lookup (utf8 ['p']) = some ⟨['a'], 1, 1000000000⟩ ∧
      (after [own 1, claim]).tracker.lookup (utf8 ['p']) = some ⟨['b'], 2 ^ 64 - 1, 1000000000⟩ ∧
      verdict [own 1] (own 2) = .accept ∧ verdict [own 1, claim] (own 2) = .reject := by
  decide +kernel

def events : List Event :=
  [receive (own 1), receive (.new reference ['b'] ['q'] (2 ^ 64 - 1) 1000 [3#8]), .prune,
    receive (.new reference ['a'] ['p'] (2 ^ 64 - 1) 1000 [3#8]),
    receive { claim with version := heartbeatVersion + 1 }]

def key : Text := Hex.encode (reference.ed25519Public [2#8])

theorem registered : (table.lookup ['a']).map PeerDescriptor.signingPkHex = some key := by decide +kernel

theorem separate_events : Runs.Along (step reference parse 15000000000)
    (Separate reference parse ['a'] key (utf8 ['p'])) (.new 1000000000) events := by
  refine ⟨⟨registered, ?_⟩, ⟨registered, ?_⟩, trivial, ⟨registered, ?_⟩, ⟨registered, ?_⟩, trivial⟩
  · rintro hb heq hne
    cases heq
    exact absurd rfl hne
  · rintro hb heq hne haccepts
    cases heq
    exact absurd haccepts.parsed (by decide)
  · rintro hb heq hne
    cases heq
    exact absurd rfl hne
  · rintro hb heq hne haccepts
    cases heq
    exact absurd haccepts.version (by decide)

theorem events_about_signer :
    (run reference parse 15000000000 (.new 1000000000) events).tracker.lookup (utf8 ['p']) =
        (run reference parse 15000000000 (.new 1000000000)
          (events.filter (Event.isOwn ['a'] key))).tracker.lookup
          (utf8 ['p']) ∧
      (acceptControlMessage reference parse table
        (run reference parse 15000000000 (.new 1000000000) events).clock
        (run reference parse 15000000000 (.new 1000000000) events).tracker (.heartbeat (own 2))).1 =
          .accept := by
  have h := heartbeats_about_signer reference parse 15000000000 1000000000 ['a'] key (utf8 ['p'])
    events separate_events
  exact ⟨h.1, h.2 table (own 2) registered (by decide +kernel) rfl rfl
    (Heartbeat.signed_new reference_lawful _ _ _ _ _)
    (by decide +kernel) (by decide +kernel)⟩

end Usurped

section

variable {parse : Text → Option PeerId}

/-- A heartbeat that is accepted is out of date before its entry can be forgotten. -/
def Outlived (E : Externals) (parse : Text → Option PeerId) (timeout : Nat) (w : World) : Event → Prop
  | .receive table input => ∀ hb, input = .heartbeat hb →
      (acceptControlMessage E parse table w.clock w.tracker input).1 = .accept →
      hb.wallTimeMs + heartbeatClockSkewMs < nowMs (w.clock + 4 * timeout)
  | _ => True

/-- Each accepted heartbeat was accepted once, and while it is in date the entry of its peer id has
its sequence number or a larger one. -/
structure Tracked (parse : Text → Option PeerId) (timeout : Nat) (w : World) : Prop where
  once : (w.accepted.map Prod.fst).Nodup
  past : ∀ e ∈ w.accepted, e.2 ≤ w.clock
  outlived : ∀ e ∈ w.accepted, e.1.wallTimeMs + heartbeatClockSkewMs < nowMs (e.2 + 4 * timeout)
  entry : ∀ e ∈ w.accepted, ∀ peer, parse e.1.peerId = some peer → e.2 + 4 * timeout ≤ w.clock ∨
    ∃ entry, w.tracker.lookup peer = some entry ∧ e.1.seq ≤ entry.lastSeq ∧ e.2 ≤ entry.lastSeen

variable {a b : Nat} {table : Dict Text PeerDescriptor} {peer : PeerId}

theorem absDiff_le {bound : Nat} (h : absDiff a b ≤ bound) : b ≤ a + bound := by
  unfold absDiff at h
  split at h
  · omega
  · omega

theorem nowMs_mono (h : a ≤ b) : nowMs a ≤ nowMs b := Nat.div_le_div_right h

theorem Tracked.fresh (h : Tracked parse timeout w)
    (haccepts : Accepts E parse table w.clock w.tracker hb peer) :
    hb ∉ w.accepted.map Prod.fst := by
  intro hmem
  obtain ⟨e, he, rfl⟩ := mem_map.mp hmem
  rcases h.entry e he peer haccepts.parsed with hold | ⟨entry, hl, hseq, _⟩
  · -- the entry may be gone, but the heartbeat is out of date
    have htimely := absDiff_le haccepts.timely
    have hlate := h.outlived e he
    have hclock := nowMs_mono hold
    omega
  · have hla : w.tracker.lastSeq peer = some entry.lastSeq := by
      rw [LivenessTracker.lastSeq, hl, Option.map_some]
    exact absurd (haccepts.fresh _ hla) (not_lt.mpr hseq)

theorem Tracked.receive (h : Tracked parse timeout w)
    (haccepts : Accepts E parse table w.clock w.tracker hb peer)
    (hlate : hb.wallTimeMs + heartbeatClockSkewMs < nowMs (w.clock + 4 * timeout)) :
    Tracked parse timeout
      { w with
        tracker := w.tracker.noteHeartbeat peer hb.operatorId hb.seq w.clock
        accepted := w.accepted ++ [(hb, w.clock)] } := by
  refine ⟨?_, fun e he => ?_, fun e he => ?_, fun e he other ho => ?_⟩
  · rw [map_append, map_singleton]
    refine nodup_append.mpr ⟨h.once, nodup_singleton _, ?_⟩
    rintro _ hold _ hnew rfl
    rw [mem_singleton.mp hnew] at hold
    exact h.fresh haccepts hold
  · rcases mem_append.mp he with hold | hnew
    · exact h.past e hold
    · rw [mem_singleton.mp hnew]
  · rcases mem_append.mp he with hold | hnew
    · exact h.outlived e hold
    · rw [mem_singleton.mp hnew]
      exact hlate
  · by_cases hp : other = peer
    · subst hp
      -- the new entry is at least as recent, and has the larger sequence number
      rcases mem_append.mp he with hold | hnew
      · rcases h.entry e hold other ho with hgone | ⟨entry, hl, hseq, _⟩
        · exact .inl hgone
        · refine .inr ⟨_, lookup_insert _, ?_, h.past e hold⟩
          have hla : w.tracker.lastSeq other = some entry.lastSeq := by
            rw [LivenessTracker.lastSeq, hl, Option.map_some]
          exact le_of_lt (lt_of_le_of_lt hseq (haccepts.fresh _ hla))
      · rw [mem_singleton.mp hnew]
        exact .inr ⟨_, lookup_insert _, le_refl _, le_refl _⟩
    · rcases mem_append.mp he with hold | hnew
      · rcases h.entry e hold other ho with hgone | ⟨entry, hl, hen⟩
        · exact .inl hgone
        · exact .inr ⟨entry, (lookup_insert_ne hp).trans hl, hen⟩
      · rw [mem_singleton.mp hnew, haccepts.parsed] at ho
        exact absurd (Option.some.inj ho).symm hp

theorem Tracked.step {event : Event} (h : Tracked parse timeout w)
    (hevent : Outlived E parse timeout w event) :
    Tracked parse timeout (step E parse timeout w event) := by
  cases event with
  | advance nanos =>
    refine ⟨h.once, fun e he => le_trans (h.past e he) (le_add_right _ _), h.outlived, fun e he peer hp => ?_⟩
    rcases h.entry e he peer hp with hgone | hen
    · exact .inl (le_trans hgone (le_add_right _ _))
    · exact .inr hen
  | prune =>
    refine ⟨h.once, h.past, h.outlived, fun e he peer hp => ?_⟩
    rcases h.entry e he peer hp with hgone | ⟨entry, hl, hseq, hseen⟩
    · exact .inl hgone
    · by_cases hk : w.clock - entry.lastSeen < 4 * timeout
      · exact .inr ⟨entry, lookup_retain_eq_some.mpr ⟨hl, decide_eq_true hk⟩, hseq, hseen⟩
      · -- an entry that is dropped was written after the heartbeat was accepted
        refine .inl ?_
        have hpast := h.past e he
        show e.2 + 4 * timeout ≤ w.clock
        omega
  | receive table input =>
    rcases step_receive table input with ⟨hb, peer, rfl, hacc, hs⟩ | hs
    · rw [hs]
      refine h.receive hacc (hevent hb rfl ?_)
      rw [acceptControlMessage_of_accepts hacc]
    · rw [hs]
      exact h

/-- No replay: a heartbeat is accepted at most once, if what is accepted is out of date before its
entry can be forgotten. -/
theorem no_heartbeat_replay (E : Externals) (parse : Text → Option PeerId) (timeout clock : Nat)
    (events : List Event)
    (hall : Runs.Along (step E parse timeout) (Outlived E parse timeout) (World.new clock) events)
    (hb : Heartbeat) :
    ((run E parse timeout (.new clock) events).accepted.map Prod.fst).count hb ≤ 1 := by
  have hst : Tracked parse timeout (World.new clock) :=
    ⟨nodup_nil, fun _ h => absurd h not_mem_nil, fun _ h => absurd h not_mem_nil,
      fun _ h => absurd h not_mem_nil⟩
  have hend : Tracked parse timeout (run E parse timeout (.new clock) events) :=
    hall.keeps (fun _ _ hev h => h.step hev) hst
  exact nodup_iff_count_le_one.mp hend.once hb

end

namespace Replayed

open Usurped (parse receive)

def heartbeat (wallTimeMs : Nat) : Heartbeat := .new reference ['a'] ['p'] 1 wallTimeMs [2#8]

def twice (hb : Heartbeat) : List Event := [receive hb, .advance 60000000000, .prune, receive hb]

def acceptances (events : List Event) (hb : Heartbeat) : Nat :=
  ((run reference parse 15000000000 (.new 1000000000000) events).accepted.map Prod.fst).count hb

/-- With a timeout of fifteen seconds: from a clock that is a minute ahead, and from one that is not
ahead at all. -/
theorem accepted_twice : acceptances (twice (heartbeat 1060000)) (heartbeat 1060000) = 2 ∧
    acceptances (twice (heartbeat 1000000)) (heartbeat 1000000) = 2 := by
  decide +kernel

theorem outlived_twice :
    Runs.Along (step reference parse 15000000000) (Outlived reference parse 15000000000) (.new 1000000000000)
      (twice (heartbeat 999000)) := by
  refine ⟨?_, trivial, trivial, ?_, trivial⟩
  · rintro hb heq _
    cases heq
    decide
  · rintro hb heq haccept
    cases heq
    revert haccept
    decide +kernel

theorem accepted_once : acceptances (twice (heartbeat 999000)) (heartbeat 999000) ≤ 1 :=
  no_heartbeat_replay reference parse 15000000000 1000000000000 (twice (heartbeat 999000)) outlived_twice
    (heartbeat 999000)

end Replayed

end CipherVault.Network.Heartbeats
