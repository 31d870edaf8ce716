import CipherVault.Network.Members

/-!
# Network.Probation

An operator id that a ticket has admitted stays on probation for the configured time: its record is
kept by rejoins, heartbeats, failed writes and restarts.
-/

namespace CipherVault.Network.Members

open Crypto Format Faulty Nat World

/-- On probation since it joined. -/
structure Serving (joined : Nat) (record : PeerMembership) : Prop where
  status : record.status = .probation
  since : record.joinedUtc = joined
  seen : joined ≤ record.lastSeenUtc

/-- In memory and on disk. -/
structure OnProbation (id : Text) (joined : Nat) (s : Peers) : Prop where
  memory : ∃ record, s.memory.membership.lookup id = some record ∧ Serving joined record
  disk : ∃ record, s.disk.membership.lookup id = some record ∧ Serving joined record

section

variable {id : Text} {joined now : Nat} {E : Externals} {env : Env} {s : Peers} {record : PeerMembership}

theorem Serving.note (h : Serving joined record) (hnow : joined ≤ now)
    (hserves : now < joined + env.minProbationSecs) :
    Serving joined (noteLife env now record) := by
  have hearly : ¬ (record.status = .probation ∧ now - record.joinedUtc ≥ env.minProbationSecs) := by
    rw [h.since]
    omega
  rw [noteLife, if_neg hearly]
  exact ⟨h.status, h.since, hnow⟩

theorem Serving.not_serves (h : Serving joined record) (hnow : joined ≤ now)
    (hserves : now < joined + env.minProbationSecs) :
    serves env now record = false := by
  have hearly : ¬ now - record.joinedUtc ≥ env.minProbationSecs := by
    rw [h.since]
    omega
  simp [serves, hearly]

theorem onProbation_freeOfRouting : FreeOfRouting (OnProbation id joined) := fun _ _ _ h => ⟨h.memory, h.disk⟩

theorem onProbation_freeOfSpent : FreeOfSpent (OnProbation id joined) := fun _ _ _ h => ⟨h.memory, h.disk⟩

theorem onProbation_freeOfAdmissions : FreeOfAdmissions (OnProbation id joined) :=
  fun _ _ _ h => ⟨h.memory, h.disk⟩

variable {operatorId : Text} {previous : Option PeerMembership}

variable {updated : PeerMembership}

section

variable (h : OnProbation id joined s)
include h

theorem OnProbation.write :
    OnProbation id joined { s with disk := { s.disk with membership := s.memory.membership } } :=
  ⟨h.memory, h.memory⟩

theorem OnProbation.change {f : Dict Text PeerMembership → Dict Text PeerMembership}
    (hf : ∀ record, s.memory.membership.lookup id = some record → Serving joined record →
      ∃ record', (f s.memory.membership).lookup id = some record' ∧ Serving joined record') :
    OnProbation id joined (s.onMembership f) := by
  obtain ⟨record, hrec, hser⟩ := h.memory
  exact ⟨hf record hrec hser, h.disk⟩

theorem OnProbation.insert (hupdated : id = operatorId → Serving joined updated) :
    OnProbation id joined (s.onMembership (AList.insert operatorId updated)) := by
  refine h.change fun record hrec hser => ?_
  by_cases heq : id = operatorId
  · subst heq
    exact ⟨updated, lookup_insert _, hupdated rfl⟩
  · exact ⟨record, (lookup_insert_ne heq).trans hrec, hser⟩

theorem OnProbation.restore (hprevious : id = operatorId → ∃ record, previous = some record ∧
    Serving joined record) :
    OnProbation id joined (s.onMembership (Dict.restore operatorId previous)) := by
  refine h.change fun record hrec hser => ?_
  by_cases heq : id = operatorId
  · subst heq
    obtain ⟨old, hold, hser'⟩ := hprevious rfl
    exact ⟨old, (Dict.lookup_restore_self _ _ _).trans hold, hser'⟩
  · exact ⟨record, (Dict.lookup_restore_of_ne heq _ _).trans hrec, hser⟩

theorem OnProbation.loaded : OnProbation id joined (load E now s) := by
  obtain ⟨record, hrec, hser⟩ := h.disk
  refine ⟨⟨record, lookup_retain_eq_some.mpr ⟨hrec, ?_⟩, hser⟩, h.disk⟩
  rw [decide_eq_true_eq, hser.since]
  exact hser.seen

theorem OnProbation.isProbationary : isProbationary s id = true := by
  obtain ⟨record, hrec, hser⟩ := h.memory
  rw [Members.isProbationary, hrec, Option.any_some, hser.status]
  rfl

end

theorem keeps_persistPeerMembership : Keeps (OnProbation id joined) (persistPeerMembership env) :=
  keeps_persist fun _ hs => hs.write

/-! ## The functions of the membership records -/

theorem updateMembership_probation
    (hprevious : id = operatorId → ∃ record, previous = some record ∧ Serving joined record)
    (hupdated : id = operatorId → Serving joined updated) :
    Keeps (OnProbation id joined) (updateMembership env operatorId previous updated) :=
  (keeps_update fun _ hs => hs.insert hupdated).bind fun _ => keeps_persistPeerMembership.rescue fun _ =>
    (keeps_update fun _ hs => hs.restore hprevious).bind fun _ => keeps_fail

theorem keeps_record {α : Type} {f : Option PeerMembership → Action α}
    (hf : ∀ previous, (id = operatorId → ∃ record, previous = some record ∧ Serving joined record) →
      Keeps (OnProbation id joined) (f previous)) :
    Keeps (OnProbation id joined) (look (fun s => s.memory.membership.lookup operatorId) >>= f) := by
  refine ensures_iff.mpr (ends_look_eq.bind fun previous => ?_)
  refine ends_of_fact (id = operatorId → ∃ record, previous = some record ∧ Serving joined record)
    ?_ fun hpre => ?_
  · rintro s ⟨hs, hlook⟩ rfl
    obtain ⟨record, hrec, hser⟩ := hs.memory
    exact ⟨record, hlook ▸ hrec, hser⟩
  · exact (ensures_iff.mp (hf previous hpre)).pre fun _ hs => hs.1

theorem markProbationMember_probation (hnow : joined ≤ now) :
    Keeps (OnProbation id joined) (markProbationMember env operatorId now) := by
  refine keeps_record fun previous hpre => updateMembership_probation hpre fun heq => ?_
  obtain ⟨record, rfl, hser⟩ := hpre heq
  exact ⟨hser.status, hser.since, hnow⟩

theorem markFullMember_probation (hid : id ≠ operatorId) :
    Keeps (OnProbation id joined) (markFullMember env now operatorId) :=
  keeps_look.bind fun _ => (updateMembership_probation (fun heq => absurd heq hid) fun heq =>
    absurd heq hid).bind
    fun _ => keeps_pure

theorem notePeerLiveness_probation (hnow : joined ≤ now) (hserves : now < joined + env.minProbationSecs) :
    Keeps (OnProbation id joined) (notePeerLiveness env operatorId now) := by
  refine keeps_record fun previous hpre => ?_
  cases previous with
  | none => exact keeps_pure
  | some record =>
    refine (updateMembership_probation hpre fun heq => ?_).bind fun _ => keeps_pure
    obtain ⟨_, hrec, hser⟩ := hpre heq
    cases hrec
    exact hser.note hnow hserves

theorem notePeerHeartbeat_probation (hnow : joined ≤ now) (hserves : now < joined + env.minProbationSecs) :
    Keeps (OnProbation id joined) (notePeerHeartbeat env now operatorId) := by
  refine keeps_record fun previous hpre => ?_
  cases previous with
  | none => exact keeps_pure
  | some record =>
    have hnote : id = operatorId → Serving joined (noteLife env now record) := by
      intro heq
      obtain ⟨_, hrec, hser⟩ := hpre heq
      cases hrec
      exact hser.note hnow hserves
    refine (keeps_update fun _ hs => hs.insert hnote).bind fun _ => ?_
    split
    · refine keeps_persistPeerMembership.rescue fun _ => keeps_update fun _ hs => hs.insert fun heq => ?_
      exact ⟨rfl, (hnote heq).since, (hnote heq).seen⟩
    · exact keeps_pure

theorem graduateAll_probation (hnow : joined ≤ now) (hserves : now < joined + env.minProbationSecs) :
    Keeps (OnProbation id joined) (graduateAll env now) := by
  refine keeps_look.bind fun before => (keeps_update fun s hs => ?_).bind fun _ => ?_
  · refine hs.change fun record hrec hser => ⟨record, ?_, hser⟩
    rw [lookup_map, hrec, Option.map_some, graduateServed, hser.not_serves hnow hserves]
    rfl
  · split
    · refine keeps_persistPeerMembership.rescue fun _ => keeps_update fun s hs => ?_
      refine hs.change fun record hrec hser => ?_
      rw [lookup_map, hrec, Option.map_some]
      split
      · exact ⟨_, rfl, rfl, hser.since, hser.seen⟩
      · exact ⟨_, rfl, hser⟩
    · exact keeps_pure

theorem restoreMembership_probation
    (hprevious : id = operatorId → ∃ record, previous = some record ∧ Serving joined record) :
    Keeps (OnProbation id joined) (restoreMembership env operatorId previous) :=
  (keeps_update fun _ hs => hs.restore hprevious).bind fun _ => keeps_bestEffort keeps_persistPeerMembership

theorem admitPeer_probation {peer : PeerDescriptor} {invite : JoinInvite} {signers : List Text}
    (hnow : joined ≤ now) :
    Keeps (OnProbation id joined) (admitPeer env now peer invite signers) := by
  have hr : FreeOfRouting (OnProbation id joined) := onProbation_freeOfRouting
  have huns : Keeps (OnProbation id joined) (unspendInvite env invite.nonceHex) :=
    unspendInvite_frame onProbation_freeOfSpent
  refine keeps_look.bind fun previousPeer => keeps_record fun previousMembership hpre => ?_
  refine ((insertPeer_frame hr).rescue fun _ => huns.bind fun _ => keeps_fail).bind fun count => ?_
  refine ((markProbationMember_probation hnow).rescue fun _ => (rollbackPeerInsert_frame hr).bind fun _ =>
    huns.bind fun _ => keeps_fail).bind fun _ => ?_
  refine ((logAdmission_frame onProbation_freeOfAdmissions).rescue fun _ =>
    (rollbackPeerInsert_frame hr).bind fun _ =>
    (restoreMembership_probation hpre).bind fun _ => huns.bind fun _ => keeps_fail).bind fun _ => keeps_pure

end

/-- The call does not make the operator a full member. -/
def Call.LeavesAlone (id : Text) : Call → Prop
  | .registerPeer peer => id ≠ peer.operatorId
  | .graduatePeer operatorId => id ≠ operatorId
  | _ => True

theorem Call.keeps_probation {joined now : Nat} {E : Externals} {env : Env} {id : Text} {call : Call}
    (hcall : call.LeavesAlone id) (hnow : joined ≤ now) (hserves : now < joined + env.minProbationSecs) :
    Keeps (OnProbation id joined) (call.run E env now) := by
  have hr : FreeOfRouting (OnProbation id joined) := onProbation_freeOfRouting
  cases call with
  | joinWithInvite peer invite =>
    exact keeps_discard (keeps_lift.bind fun _ => (spendInvite_frame onProbation_freeOfSpent).bind fun _ =>
      admitPeer_probation hnow)
  | refreshPeerJoin peer =>
    exact keeps_discard (keeps_lift.bind fun _ => keeps_look.bind fun _ => keeps_check.bind fun _ =>
      (insertPeer_frame hr).bind fun _ => notePeerLiveness_probation hnow hserves)
  | registerPeer peer =>
    exact keeps_discard (keeps_lift.bind fun _ => keeps_check.bind fun _ => keeps_look.bind fun _ =>
      (insertPeer_frame hr).bind fun _ => ((markFullMember_probation hcall).rescue fun _ =>
        (rollbackPeerInsert_frame hr).bind fun _ => keeps_fail).bind fun _ => keeps_pure)
  | notePeerHeartbeat operatorId => exact notePeerHeartbeat_probation hnow hserves
  | graduatePeer operatorId =>
    refine keeps_discard (keeps_look.bind fun known => ?_)
    split
    · exact (markFullMember_probation hcall).bind fun _ => keeps_pure
    · exact keeps_pure
  | membershipSnapshot =>
    exact keeps_discard (keeps_membershipSnapshot (graduateAll_probation hnow hserves)
      (getActivePeers_frame hr))
  | getActivePeers => exact keeps_discard (getActivePeers_frame hr)

theorem markProbationMember_first {env : Env} {now : Nat} {id : Text} :
    Ends (fun s => s.memory.membership.lookup id = none) (markProbationMember env id now)
      (fun _ => OnProbation id now) (fun _ => True) (fun _ => True) := by
  refine ends_look_eq.bind fun previous => ?_
  refine ends_of_fact (previous = none) (fun s hs => hs.2.symm.trans hs.1) fun hn => ?_
  subst hn
  refine (ends_update (A := fun s => ∃ record, s.memory.membership.lookup id = some record ∧
    Serving now record)
    fun s _ => ⟨_, lookup_insert _, rfl, rfl, le_refl now⟩).bind fun _ => ?_
  refine (ends_step ?_ (fun _ _ _ _ => trivial) (fun _ _ _ => trivial) fun _ _ _ => trivial).rescue
    fun error =>
    ends_trivial.bind fun _ => ends_fail fun _ _ => trivial
  intro s a s' hs heq
  cases heq
  exact ⟨hs, hs⟩

theorem joinWithInvite_first (E : Externals) (env : Env) (now : Nat) (peer : PeerDescriptor)
    (invite : JoinInvite) :
    Ends (fun s => s.memory.membership.lookup peer.operatorId = none)
      (Call.run E env now (.joinWithInvite peer invite)) (fun _ => OnProbation peer.operatorId now)
      (fun _ => True) (fun _ => True) := by
  have hundo : ∀ {before : Peers → Prop} {α : Type} {undo : Action Unit} {error : String}
      {done : α → Peers → Prop}, Ends before (undo >>= fun _ => (fail error : Action α)) done (fun _ => True)
        (fun _ => True) := ends_trivial.bind fun _ => ends_fail fun _ _ => trivial
  refine Ends.bind (D := fun _ => OnProbation peer.operatorId now) ?_ fun _ => ends_pure fun _ hs => hs
  refine (ends_lift (fun _ _ hs _ => hs) fun _ _ => trivial).bind fun signers => ?_
  refine Ends.bind (D := fun _ s => s.memory.membership.lookup peer.operatorId = none) ?_ fun _ => ?_
  · exact ((spendInvite_frame fun _ _ _ h => h).ends fun _ _ => trivial).mono (fun _ hs => hs)
      (fun _ _ hs => hs)
      (fun _ _ => trivial) fun _ _ => trivial
  refine ends_look_self.bind fun previousPeer => ends_look_self.bind fun previousMembership => ?_
  refine (((insertPeer_frame fun _ _ _ h => h).ends fun _ _ => trivial).rescue fun error =>
    hundo).bind fun count => ?_
  refine (markProbationMember_first.rescue fun error => ends_trivial.bind fun _ => hundo).bind fun _ => ?_
  refine Ends.bind (D := fun _ => OnProbation peer.operatorId now) ?_ fun _ => ends_pure fun _ hs => hs
  exact ((logAdmission_frame onProbation_freeOfAdmissions).ends fun _ _ => trivial).rescue fun error =>
    ends_trivial.bind fun _ => ends_trivial.bind fun _ => hundo

/-- The event does not make the operator a full member. -/
def NoGrant (id : Text) (_ : World) : Event → Prop
  | .call call _ => call.LeavesAlone id
  | _ => True

variable {w : World}

theorem onProbation_step {event : Event} {joined : Nat} {E : Externals} {env : Env} {id : Text}
    (hevent : NoGrant id w event) (hnow : joined ≤ w.clock)
    (hserves : w.clock < joined + env.minProbationSecs)
    (h : OnProbation id joined w.peers) : OnProbation id joined (step E env w event).peers := by
  cases event with
  | tick secs => exact h
  | restart => exact h.loaded
  | call call faults =>
    exact step_keeps faults (Call.keeps_probation hevent hnow hserves) (fun _ hs => hs.loaded) h

theorem onProbation_run {E : Externals} {env : Env} {events : List Event} {joined : Nat} {id : Text}
    (hall : Runs.Along (step E env) (NoGrant id) w events) (hnow : joined ≤ w.clock)
    (h : OnProbation id joined w.peers)
    (hserves : (run E env w events).clock < joined + env.minProbationSecs) :
    OnProbation id joined (run E env w events).peers := by
  -- as long as the time is not served, at any point of the run
  refine (hall.keeps (I := fun w => joined ≤ w.clock ∧
    (w.clock < joined + env.minProbationSecs → OnProbation id joined w.peers)) ?_
      ⟨hnow, fun _ => h⟩).2 hserves
  rintro w event hev ⟨hnow, hw⟩
  have hle : w.clock ≤ (step E env w event).clock := clock_le_step event
  refine ⟨le_trans hnow hle, fun hserves => ?_⟩
  have hser' := lt_of_le_of_lt hle hserves
  exact onProbation_step hev hnow hser' (hw hser')

/-- No early graduation: an operator id that joins without a record is probationary until the
minimal time after its admission, in every run without control-plane calls for it. -/
theorem no_early_graduation (E : Externals) (env : Env) (clock : Nat) (events : List Event)
    (peer : PeerDescriptor)
    (invite : JoinInvite) (faults : List (Fault Bool)) (later : List Event)
    (hadmitted : Succeeds E env (run E env (new clock) events) (.joinWithInvite peer invite) faults)
    (hfirst : (run E env (new clock) events).peers.memory.membership.lookup peer.operatorId = none)
    (hlater : Runs.Along (step E env) (NoGrant peer.operatorId)
      (run E env (new clock) (events ++ [.call (.joinWithInvite peer invite) faults])) later)
    (hserves : (run E env (new clock) (events ++ [.call (.joinWithInvite peer invite) faults] ++
      later)).clock <
      (run E env (new clock) events).clock + env.minProbationSecs) :
    isProbationary (run E env (new clock) (events ++ [.call (.joinWithInvite peer invite) faults] ++
      later)).peers
      peer.operatorId = true := by
  rw [run_append (events ++ _)] at hserves ⊢
  rw [run_append events] at hlater hserves ⊢
  have hjoined : OnProbation peer.operatorId (run E env (new clock) events).clock
      (step E env (run E env (new clock) events) (.call (.joinWithInvite peer invite) faults)).peers := by
    have hend := joinWithInvite_first E env (run E env (new clock) events).clock peer invite faults _ hfirst
    rw [step]
    rw [Ending.eq_of_done hadmitted] at hend ⊢
    exact hend
  refine (onProbation_run hlater ?_ hjoined hserves).isProbationary
  exact le_of_eq (step_call_clock _ faults).symm

namespace Leftover

open Sample (env peer join ticket)

def diskFull : List (Fault Bool) := [.none, .none, .none, .fail false, .fail false, .fail false, .fail false]

def killed : List (Fault Bool) := [.none, .none, .none, .crash false]

/-- A failed join leaves its record in the file when the disk stays full during the roll-back, and
so does one that a restart cuts short. The operator joins at 1050 and graduates at 1060, ten seconds
into a probation of sixty. -/
theorem leftover_record_counts :
    (∀ faults ∈ [diskFull, killed],
      (run reference env (new 1000) [join [2#8] 7 ['v'] faults, .restart, .tick 50]).granted = [] ∧
        (run reference env (new 1000) [join [2#8] 7 ['v'] faults, .restart, .tick 50]).clock = 1050 ∧
        Succeeds reference env (run reference env (new 1000) [join [2#8] 7 ['v'] faults, .restart, .tick 50])
          (.joinWithInvite (peer [2#8] ['v']) (ticket [2#8] 7)) []) ∧
    ∀ faults ∈ [diskFull, killed],
      (run reference env (new 1000) [join [2#8] 7 ['v'] faults, .restart, .tick 50,
        join [2#8] 7 ['v'] [], .tick 10,
          .call (.notePeerHeartbeat ['v']) []]).clock = 1060 ∧
        isProbationary (run reference env (new 1000) [join [2#8] 7 ['v'] faults, .restart, .tick 50,
          join [2#8] 7 ['v'] [], .tick 10, .call (.notePeerHeartbeat ['v']) []]).peers ['v'] = false := by
  decide +kernel

def later : List Event := [.tick 30, .call (.notePeerHeartbeat ['v']) [],
    join [2#8] 7 ['v'] diskFull, .restart, .tick 29]

theorem first_join : Succeeds reference env (new 1000)
    (.joinWithInvite (peer [2#8] ['v']) (ticket [2#8] 7)) [] ∧
    (run reference env (new 1000) ([join [2#8] 7 ['v'] []] ++ later)).clock = 1059 := by
  decide +kernel

theorem probation_until_1059 :
    isProbationary (run reference env (new 1000) ([join [2#8] 7 ['v'] []] ++ later)).peers ['v'] = true :=
  no_early_graduation reference env 1000 [] (peer [2#8] ['v']) (ticket [2#8] 7) [] later first_join.1 rfl
    ⟨trivial, trivial, trivial, trivial, trivial, trivial⟩ (lt_of_eq_of_lt first_join.2 (by decide))

end Leftover

end CipherVault.Network.Members
