import CipherVault.Network.Heartbeats

/-!
# Network.Restarts

The heartbeats of one operator from its `run_loop` (`services/operator/src/swarm/mod.rs`) to a
receiver, with restarts. The sequence number starts again from zero, while the receiver keeps the
last one that it accepted until the entry is pruned. `Ordered.step`: heartbeats are under way in the
order of their process and number.
-/

namespace CipherVault.Network.Heartbeats

open Crypto Format Nat List
open Members (PeerDescriptor)

structure Identity where
  (operatorId peerId : Text)
  signingKey : Bytes

def Identity.key (E : Externals) (sender : Identity) : Text := Hex.encode (E.ed25519Public sender.signingKey)

structure Sent where
  life : Nat
  heartbeat : Heartbeat

/-- The sender, what is under way, and the receiver with its answers. `heard` is the life of the
sender that the last accepted one was from. -/
structure Link where
  (heartbeatSeq life wallTimeMs : Nat)
  channel : List Sent
  receiver : World
  heard : Nat
  verdicts : List MessageAcceptance

namespace Link

/-- A heartbeat is sent by the tick of the loop. The messages of the operator arrive in their order,
or get lost; `other` is what else happens at the receiver. -/
inductive Event where
  | tick (wallTimeMs : Nat)
  | restart
  | deliver (table : Dict Text PeerDescriptor)
  | lose
  | other (event : Heartbeats.Event)

section

variable (E : Externals) (parse : Text → Option PeerId) (timeout : Nat) (sender : Identity)

def step (s : Link) : Event → Link
  | .tick wallTimeMs =>
    let seq := (s.heartbeatSeq + 1) % 2 ^ 64
    { s with
      heartbeatSeq := seq
      wallTimeMs := wallTimeMs
      channel := s.channel ++ [⟨s.life, .new E sender.operatorId sender.peerId seq wallTimeMs
        sender.signingKey⟩] }
  | .restart => { s with heartbeatSeq := 0, life := s.life + 1 }
  | .deliver table =>
    match s.channel with
    | [] => s
    | sent :: channel =>
      let verdict :=
        (acceptControlMessage E parse table s.receiver.clock s.receiver.tracker (.heartbeat sent.heartbeat)).1
      { s with
        channel := channel
        receiver := Heartbeats.step E parse timeout s.receiver (.receive table (.heartbeat sent.heartbeat))
        heard := if verdict = .accept then sent.life else s.heard
        verdicts := s.verdicts ++ [verdict] }
  | .lose => { s with channel := s.channel.tail }
  | .other event => { s with receiver := Heartbeats.step E parse timeout s.receiver event }

def run (s : Link) (events : List Event) : Link := events.foldl (step E parse timeout sender) s

end

def new (clock : Nat) : Link :=
  { heartbeatSeq := 0, life := 0, wallTimeMs := 0, channel := [], receiver := .new clock,
    heard := 0, verdicts := [] }

section

variable (E : Externals) (parse : Text → Option PeerId) (sender : Identity) (peer : PeerId)

/-- The clock of the sender does not go back; its messages arrive within the skew at a receiver that
has its key; and other messages there do not claim its name or peer id. -/
def Genuine (s : Link) : Event → Prop
  | .tick wallTimeMs => s.wallTimeMs ≤ wallTimeMs
  | .restart => True
  | .deliver table => (table.lookup sender.operatorId).map PeerDescriptor.signingPkHex = some (sender.key E) ∧
      ∀ sent ∈ s.channel.head?, absDiff sent.heartbeat.wallTimeMs (nowMs s.receiver.clock) ≤
        heartbeatClockSkewMs
  | .lose => True
  | .other (.receive table input) =>
    (table.lookup sender.operatorId).map PeerDescriptor.signingPkHex = some (sender.key E) ∧
      ∀ hb ∈ input.heartbeats, hb.isOf sender.operatorId (sender.key E) = false ∧
        (hb.operatorId ≠ sender.operatorId → parse hb.peerId ≠ some peer)
  | .other _ => True

/-- The receiver has no entry from before a restart when a heartbeat from after it arrives; and the
number of heartbeats of a process fits into 64 bits. -/
def Forgotten (s : Link) : Event → Prop
  | .tick _ => s.heartbeatSeq + 1 < 2 ^ 64
  | .deliver _ => ∀ sent ∈ s.channel.head?, sent.life = s.heard ∨ s.receiver.tracker.lookup peer = none
  | _ => True

instance : ∀ s event, Decidable (Genuine E parse sender peer s event)
  | s, .tick wallTimeMs => inferInstanceAs (Decidable (s.wallTimeMs ≤ wallTimeMs))
  | _, .restart => .isTrue trivial
  | s, .deliver table =>
    inferInstanceAs (Decidable ((table.lookup sender.operatorId).map PeerDescriptor.signingPkHex =
      some (sender.key E) ∧
      ∀ sent ∈ s.channel.head?, absDiff sent.heartbeat.wallTimeMs (nowMs s.receiver.clock) ≤
        heartbeatClockSkewMs))
  | _, .lose => .isTrue trivial
  | _, .other (.receive table input) =>
    inferInstanceAs (Decidable ((table.lookup sender.operatorId).map PeerDescriptor.signingPkHex =
      some (sender.key E) ∧
      ∀ hb ∈ input.heartbeats, hb.isOf sender.operatorId (sender.key E) = false ∧
        (hb.operatorId ≠ sender.operatorId → parse hb.peerId ≠ some peer)))
  | _, .other (.advance _) => .isTrue trivial
  | _, .other .prune => .isTrue trivial

instance : ∀ s event, Decidable (Forgotten peer s event)
  | s, .tick _ => inferInstanceAs (Decidable (s.heartbeatSeq + 1 < 2 ^ 64))
  | s, .deliver _ =>
    inferInstanceAs (Decidable (∀ sent ∈ s.channel.head?, sent.life = s.heard ∨
      s.receiver.tracker.lookup peer = none))
  | _, .restart => .isTrue trivial
  | _, .lose => .isTrue trivial
  | _, .other _ => .isTrue trivial

end

/-! ## The order of the heartbeats -/

/-- The order of sequence numbers over restarts. -/
def Before (a b : Nat × Nat) : Prop := a.1 < b.1 ∨ a.1 = b.1 ∧ a.2 < b.2

def UpTo (a b : Nat × Nat) : Prop := a.1 < b.1 ∨ a.1 = b.1 ∧ a.2 ≤ b.2

variable {a b : Nat × Nat}

theorem UpTo.trans_before {c : Nat × Nat} (h : UpTo a b) (h' : Before b c) : Before a c := by
  unfold UpTo at h
  unfold Before at *
  omega

theorem Before.upTo (h : Before a b) : UpTo a b := by
  unfold UpTo
  unfold Before at h
  omega

def stamp (sent : Sent) : Nat × Nat := (sent.life, sent.heartbeat.seq)

/-- The heartbeats under way are the sender's own, in order, after the one of the entry; and all
that arrived were accepted. -/
structure Ordered (E : Externals) (sender : Identity) (peer : PeerId) (s : Link) : Prop where
  own : ∀ sent ∈ s.channel, ∃ seq wallTimeMs,
    sent.heartbeat = .new E sender.operatorId sender.peerId seq wallTimeMs sender.signingKey
  inOrder : s.channel.Pairwise fun a b => Before (stamp a) (stamp b)
  past : ∀ sent ∈ s.channel, UpTo (stamp sent) (s.life, s.heartbeatSeq)
  entry : ∀ entry, s.receiver.tracker.lookup peer = some entry →
    (∀ sent ∈ s.channel, Before (s.heard, entry.lastSeq) (stamp sent)) ∧
      UpTo (s.heard, entry.lastSeq) (s.life, s.heartbeatSeq)
  accepted : ∀ verdict ∈ s.verdicts, verdict = .accept

section

variable {E : Externals} {parse : Text → Option PeerId} {timeout : Nat} {sender : Identity}
  {peer : PeerId} {s : Link}

theorem ordered_new (E : Externals) (sender : Identity) (peer : PeerId) (clock : Nat) :
    Ordered E sender peer (new clock) := by
  refine ⟨nofun, .nil, nofun, ?_, nofun⟩
  nofun

theorem Ordered.tick (h : Ordered E sender peer s) {wallTimeMs : Nat} (hfits : s.heartbeatSeq + 1 < 2 ^ 64) :
    Ordered E sender peer (step E parse timeout sender s (.tick wallTimeMs)) := by
  have hseq : (s.heartbeatSeq + 1) % 2 ^ 64 = s.heartbeatSeq + 1 := mod_eq_of_lt hfits
  have hn : Before (s.life, s.heartbeatSeq) (s.life, s.heartbeatSeq + 1) := .inr ⟨rfl, lt_succ_self _⟩
  simp only [step, hseq]
  refine ⟨fun sent hsent => ?_, ?_, fun sent hsent => ?_,
    fun entry he => ⟨fun sent hsent => ?_, ?_⟩, h.accepted⟩
  · rcases mem_append.mp hsent with hold | hnew
    · exact h.own sent hold
    · rw [mem_singleton.mp hnew]
      exact ⟨_, _, rfl⟩
  · refine List.pairwise_append.mpr ⟨h.inOrder, List.pairwise_singleton _ _, fun sent hold new hnew => ?_⟩
    rw [mem_singleton.mp hnew]
    exact (h.past sent hold).trans_before hn
  · rcases mem_append.mp hsent with hold | hnew
    · exact ((h.past sent hold).trans_before hn).upTo
    · rw [mem_singleton.mp hnew]
      exact .inr ⟨rfl, le_refl _⟩
  · rcases mem_append.mp hsent with hold | hnew
    · exact (h.entry entry he).1 sent hold
    · rw [mem_singleton.mp hnew]
      exact (h.entry entry he).2.trans_before hn
  · exact ((h.entry entry he).2.trans_before hn).upTo

theorem Ordered.restart (h : Ordered E sender peer s) :
    Ordered E sender peer (step E parse timeout sender s .restart) := by
  have hn : Before (s.life, s.heartbeatSeq) (s.life + 1, 0) := .inl (lt_succ_self _)
  refine ⟨h.own, h.inOrder, fun sent hsent => ((h.past sent hsent).trans_before hn).upTo,
    fun entry he => ⟨(h.entry entry he).1, ?_⟩, h.accepted⟩
  exact ((h.entry entry he).2.trans_before hn).upTo

theorem Ordered.lose (h : Ordered E sender peer s) :
    Ordered E sender peer (step E parse timeout sender s .lose) := by
  have hmem : ∀ sent ∈ s.channel.tail, sent ∈ s.channel := fun _ => List.mem_of_mem_tail
  exact ⟨fun sent hsent => h.own sent (hmem sent hsent), h.inOrder.tail, fun sent hsent =>
    h.past sent (hmem sent hsent),
    fun entry he => ⟨fun sent hsent => (h.entry entry he).1 sent (hmem sent hsent), (h.entry entry he).2⟩,
    h.accepted⟩

variable {event : Heartbeats.Event} {table : Dict Text PeerDescriptor}

theorem lookup_other {entry : LivenessEntry} (hgenuine : Genuine E parse sender peer s (.other event))
    (h : (Heartbeats.step E parse timeout s.receiver event).tracker.lookup peer = some entry) :
    s.receiver.tracker.lookup peer = some entry := by
  cases event with
  | advance nanos => exact h
  | prune => exact (lookup_retain_eq_some.mp h).1
  | receive table input =>
    obtain ⟨hreg, hos⟩ := hgenuine
    cases input with
    | badEnvelope | unknownKind => exact h
    | heartbeat hb =>
      obtain ⟨hnotOwn, hclaims⟩ := hos hb mem_cons_self
      have hsep : Separate E parse sender.operatorId (sender.key E) peer s.receiver
        (.receive table (.heartbeat hb)) := by
        refine ⟨hreg, ?_⟩
        rintro _ heq hne haccepts
        cases heq
        exact hclaims hne haccepts.parsed
      have hnot : ¬ Accepts E parse table s.receiver.clock s.receiver.tracker hb peer := by
        intro hacc
        have hown := hacc.isOf hsep
        rw [hnotOwn] at hown
        cases hown
      rwa [lookup_of_not_accepts hnot] at h

theorem Ordered.other (h : Ordered E sender peer s)
    (hgenuine : Genuine E parse sender peer s (.other event)) :
    Ordered E sender peer (step E parse timeout sender s (.other event)) :=
  ⟨h.own, h.inOrder, h.past, fun entry he => h.entry entry (lookup_other hgenuine he), h.accepted⟩

theorem Ordered.accepts {sent : Sent} (hE : Lawful E) (hpeer : parse sender.peerId = some peer)
    (h : Ordered E sender peer s)
    {channel : List Sent} (hchannel : s.channel = sent :: channel)
    (hgenuine : Genuine E parse sender peer s (.deliver table))
    (hforgotten : Forgotten peer s (.deliver table)) :
    Accepts E parse table s.receiver.clock s.receiver.tracker sent.heartbeat peer := by
  have hmem : sent ∈ s.channel := by
    rw [hchannel]
    exact mem_cons_self
  have hh : sent ∈ s.channel.head? := by
    rw [hchannel]
    rfl
  obtain ⟨seq, wallTimeMs, hnew⟩ := h.own sent hmem
  refine ⟨?_, ?_, ?_, hgenuine.2 sent hh, ?_, ?_⟩
  · rw [hnew]
    exact hgenuine.1
  · rw [hnew]
    exact hpeer
  · rw [hnew]
    rfl
  · rw [hnew]
    exact Heartbeat.signed_new hE _ _ _ _ _
  · intro last hla
    obtain ⟨entry, hl, rfl⟩ := Option.map_eq_some_iff.mp hla
    rcases hforgotten sent hh with hlife | hn
    · -- the entry is of the same process, which has counted on
      rcases (h.entry entry hl).1 sent hmem with hlt | ⟨_, hlt⟩
      · exact absurd hlt (not_lt.mpr (le_of_eq hlife))
      · exact hlt
    · rw [hn] at hl
      cases hl

theorem Ordered.deliver (hE : Lawful E) (hpeer : parse sender.peerId = some peer)
    (h : Ordered E sender peer s)
    (hgenuine : Genuine E parse sender peer s (.deliver table))
    (hforgotten : Forgotten peer s (.deliver table)) :
    Ordered E sender peer (step E parse timeout sender s (.deliver table)) := by
  cases hcha : s.channel with
  | nil =>
    simp only [step, hcha]
    exact h
  | cons sent channel =>
    have hacc := h.accepts hE hpeer hcha hgenuine hforgotten
    have hver := congrArg Prod.fst (acceptControlMessage_of_accepts hacc)
    have hmem : ∀ next ∈ channel, next ∈ s.channel := by
      intro next hn
      rw [hcha]
      exact mem_cons_of_mem _ hn
    have hf : sent ∈ s.channel := by
      rw [hcha]
      exact mem_cons_self
    have hpairs := h.inOrder
    rw [hcha] at hpairs
    obtain ⟨hafter, hr⟩ := pairwise_cons.mp hpairs
    simp only [step, hcha, hver, if_true]
    refine ⟨fun next hn => h.own next (hmem next hn), hr, fun next hn => h.past next (hmem next hn), ?_, ?_⟩
    · intro entry he
      rw [lookup_of_accepts hacc] at he
      cases he
      exact ⟨hafter, h.past sent hf⟩
    · intro verdict hmem
      rcases mem_append.mp hmem with hold | hnew
      · exact h.accepted verdict hold
      · exact mem_singleton.mp hnew

theorem Ordered.step (hE : Lawful E) (hpeer : parse sender.peerId = some peer)
    (h : Ordered E sender peer s) {event : Event}
    (hgenuine : Genuine E parse sender peer s event) (hforgotten : Forgotten peer s event) :
    Ordered E sender peer (Link.step E parse timeout sender s event) := by
  cases event with
  | tick wallTimeMs => exact h.tick hforgotten
  | restart => exact h.restart
  | deliver table => exact h.deliver hE hpeer hgenuine hforgotten
  | lose => exact h.lose
  | other event => exact h.other hgenuine

end

/-- In every run of an honest sender, with restarts, every heartbeat that arrives is accepted, if
the receiver has forgotten the sender before it hears from a new process of it. -/
theorem heartbeats_not_refused (E : Externals) (hE : Lawful E) (parse : Text → Option PeerId)
    (timeout clock : Nat)
    (sender : Identity) (peer : PeerId) (hpeer : parse sender.peerId = some peer) (events : List Event)
    (hgenuine : Runs.Along (step E parse timeout sender) (Genuine E parse sender peer) (new clock) events)
    (hforgotten : Runs.Along (step E parse timeout sender) (Forgotten peer) (new clock) events) :
    ∀ verdict ∈ (run E parse timeout sender (new clock) events).verdicts, verdict = .accept := by
  have hboth := hgenuine.and hforgotten
  have hend : Ordered E sender peer (run E parse timeout sender (new clock) events) :=
    hboth.keeps (fun _ _ hev h => h.step hE hpeer hev.1 hev.2) (ordered_new E sender peer clock)
  exact hend.accepted

end Link

namespace Restarted

open Link
open Usurped (parse table)

def sender : Identity := ⟨['a'], ['p'], [2#8]⟩

def events (nanos : Nat) : List Link.Event :=
  [.tick 1000, .deliver table, .tick 1000, .deliver table, .restart, .other (.advance nanos), .other .prune,
    .tick (1000 + nanos / 1000000), .deliver table]

def verdicts (events : List Link.Event) : List MessageAcceptance :=
  (Link.run reference parse 15000000000 sender (.new 1000000000) events).verdicts

abbrev GenuineRun (events : List Link.Event) : Prop :=
  Runs.Along (Link.step reference parse 15000000000 sender)
    (Genuine reference parse sender (utf8 ['p'])) (.new 1000000000)
    events

/-- After five seconds the entry is there, and the heartbeat is stale. -/
theorem refused_after_restart :
    GenuineRun (events 5000000000) ∧ verdicts (events 5000000000) = [.accept, .accept, .reject] ∧
      verifyHeartbeat reference (.new reference ['a'] ['p'] 1 6000 [2#8])
      (some (sender.key reference)) (some 2) 6000 =
        .error .staleSeq := by
  decide +kernel

theorem accepted_after_restart :
    (verdicts (events 60000000000)).length = 3 ∧
    ∀ verdict ∈ verdicts (events 60000000000), verdict = .accept :=
  ⟨by decide +kernel, heartbeats_not_refused reference reference_lawful parse 15000000000 1000000000
    sender (utf8 ['p']) rfl
    (events 60000000000) (by decide +kernel) (by decide +kernel)⟩

end Restarted

end CipherVault.Network.Heartbeats
