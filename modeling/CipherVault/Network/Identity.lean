import CipherVault.Network.Members

/-!
# Network.Identity

The key that is bound to an operator id in the routing table. `Entries` bounds the entry of one id,
in memory and in the file. A join by another key takes over a bound entry (`Takeover`); otherwise
only the control plane changes a binding.
-/

namespace CipherVault.Network.Members

open Crypto Format Faulty Option Dict World

/-- What the entry of an operator id satisfies in memory, and in the file. -/
structure Entries (id : Text) (P Q : PeerDescriptor → Prop) (s : Peers) : Prop where
  memory : ∀ x, s.memory.routing.lookup id = some x → P x
  disk : ∀ x, s.disk.routing.lookup id = some x → Q x

/-- Of the entry that the file has for the operator. -/
def OnDisk (id : Text) (Q : PeerDescriptor → Prop) (s : Peers) : Prop :=
  ∀ x, s.disk.routing.lookup id = some x → Q x

section

variable {id : Text} {P P' Q : PeerDescriptor → Prop} {E : Externals} {env : Env} {now : Nat} {s : Peers}
  {peer : PeerDescriptor}

theorem Entries.mono (h : Entries id P Q s) (hP : ∀ x, P x → P' x) : Entries id P' Q s :=
  ⟨fun x hx => hP x (h.memory x hx), h.disk⟩

theorem Entries.prune {p : Text → PeerDescriptor → Bool} (h : Entries id P Q s) :
    Entries id P Q (s.onRouting (retain p)) :=
  ⟨fun x hx => h.memory x (lookup_retain_eq_some.mp hx).1, h.disk⟩

theorem Entries.insert (h : Entries id P Q s) (hpeer : id = peer.operatorId → P peer) :
    Entries id P Q (s.onRouting (AList.insert peer.operatorId peer)) :=
  ⟨forall_lookup_insert h.memory hpeer, h.disk⟩

theorem Entries.write (h : Entries id P Q s) (hPQ : ∀ x, P x → Q x) :
    Entries id P Q { s with disk := { s.disk with routing := s.memory.routing } } :=
  ⟨h.memory, fun x hx => hPQ x (h.memory x hx)⟩

theorem entries_freeOfMembership : FreeOfMembership (Entries id P Q) := fun _ _ _ h => ⟨h.memory, h.disk⟩

theorem entries_freeOfSpent : FreeOfSpent (Entries id P Q) := fun _ _ _ h => ⟨h.memory, h.disk⟩

theorem entries_freeOfAdmissions : FreeOfAdmissions (Entries id P Q) := fun _ _ _ h => ⟨h.memory, h.disk⟩

theorem OnDisk.loaded (h : OnDisk id P s) : Entries id P P (load E now s) :=
  ⟨fun x hx => h x (lookup_retain_eq_some.mp hx).1, h⟩

theorem keeps_persistPeerRoutingTable (hPQ : ∀ x, P x → Q x) :
    Keeps (Entries id P Q) (persistPeerRoutingTable env) := keeps_persist fun _ hs => hs.write hPQ

variable {operatorId : Text} {previous : Option PeerDescriptor} {invite : JoinInvite}

theorem Entries.restore (h : Entries id P' Q s) (hother : id ≠ operatorId → ∀ x, P' x → P x)
    (hprevious : id = operatorId → ∀ x, previous = some x → P x) :
    Entries id P Q (s.onRouting (restore operatorId previous)) := by
  refine ⟨?_, h.disk⟩
  by_cases heq : id = operatorId
  · subst heq
    intro x hx
    rw [Peers.onRouting, lookup_restore_self] at hx
    exact hprevious rfl x hx
  · intro x hx
    rw [Peers.onRouting, lookup_restore_of_ne heq] at hx
    exact hother heq x (h.memory x hx)

theorem insertPeer_entries (hP : ∀ x, P x → P' x) (hP' : ∀ x, P' x → Q x)
    (hother : id ≠ peer.operatorId → ∀ x, P' x → P x) (hpeer : id = peer.operatorId → P' peer) :
    Ends (Entries id P Q) (insertPeer env now peer) (fun _ => Entries id P' Q) (Entries id P Q)
    (OnDisk id Q) := by
  refine (ends_update fun s hs => hs.prune).bind fun _ => ends_look_eq.bind fun table => ?_
  refine ends_of_fact (∀ x, table.lookup id = some x → P x) (fun s hs => hs.2 ▸ hs.1.memory) fun htable => ?_
  refine Ends.pre (B := Entries id P Q) ?_ fun s hs => hs.1
  refine (ends_check (D := fun _ => Entries id P Q) (fun _ hs _ => hs) fun _ hs => hs).bind fun _ => ?_
  refine (ends_update (A := Entries id P' Q) fun s hs => (hs.mono hP).insert hpeer).bind fun _ => ?_
  refine Ends.bind (D := fun _ => Entries id P' Q) ?_ fun _ => ends_look_self
  refine ((keeps_persistPeerRoutingTable hP').ends fun s hs => hs.disk).rescue fun error => ?_
  exact (ends_update fun s hs => hs.restore hother fun heq x hx => htable x (heq ▸ hx)).bind fun _ =>
    ends_fail fun _ hs => hs

theorem rollbackPeerInsert_entries (hPQ : ∀ x, P x → Q x) (hother : id ≠ operatorId → ∀ x, P' x → P x)
    (hprevious : id = operatorId → ∀ x, previous = some x → P x) :
    Ends (Entries id P' Q) (rollbackPeerInsert env operatorId previous) (fun _ => Entries id P Q)
    (Entries id P Q)
      (OnDisk id Q) :=
  (ends_update fun _ hs => hs.restore hother hprevious).bind fun _ =>
    (keeps_bestEffort (keeps_persistPeerRoutingTable hPQ)).ends fun _ hs => hs.disk

theorem admitPeer_entries {signers : List Text} (hP : ∀ x, P x → P' x) (hP' : ∀ x, P' x → Q x)
    (hother : id ≠ peer.operatorId → ∀ x, P' x → P x) (hpeer : id = peer.operatorId → P' peer) :
    Ends (Entries id P Q) (admitPeer env now peer invite signers) (fun _ => Entries id P' Q) (Entries id P Q)
      (OnDisk id Q) := by
  have hPQ : ∀ x, P x → Q x := fun x hx => hP' x (hP x hx)
  have hk : ∀ {α : Type} {x : Action α}, Keeps (Entries id P Q) x →
      Ends (Entries id P Q) x (fun _ => Entries id P Q) (Entries id P Q) (OnDisk id Q) :=
    fun hx => hx.ends fun _ hs => hs.disk
  have huns : Keeps (Entries id P Q) (unspendInvite env invite.nonceHex) :=
    unspendInvite_frame entries_freeOfSpent
  refine ends_look_eq.bind fun previousPeer => ?_
  refine ends_of_fact (id = peer.operatorId → ∀ x, previousPeer = some x → P x)
    (fun s hs heq x hx => hs.1.memory x (by rw [heq, hs.2, hx])) fun hpre => ?_
  have hrol : Ends (Entries id P' Q) (rollbackPeerInsert env peer.operatorId previousPeer)
    (fun _ => Entries id P Q)
      (Entries id P Q) (OnDisk id Q) := rollbackPeerInsert_entries hPQ hother hpre
  refine Ends.pre (B := Entries id P Q) ?_ fun s hs => hs.1
  refine ends_look_self.bind fun previousMembership => ?_
  refine ((insertPeer_entries hP hP' hother hpeer).rescue fun error => ?_).bind fun count => ?_
  · exact (hk huns).bind fun _ => ends_fail fun _ hs => hs
  refine Ends.bind (D := fun _ => Entries id P' Q) ?_ fun _ => ?_
  · refine ((markProbationMember_frame entries_freeOfMembership).ends fun _ hs => hs.disk).rescue
      fun error => ?_
    exact hrol.bind fun _ => (hk huns).bind fun _ => ends_fail fun _ hs => hs
  refine Ends.bind (D := fun _ => Entries id P' Q) ?_ fun _ => ends_pure fun _ hs => hs
  refine ((logAdmission_frame entries_freeOfAdmissions).ends fun _ hs => hs.disk).rescue fun error => ?_
  exact hrol.bind fun _ => (hk (restoreMembership_frame entries_freeOfMembership)).bind fun _ =>
    (hk huns).bind fun _ => ends_fail fun _ hs => hs

theorem joinWithInvite_entries (hP : ∀ x, P x → P' x) (hP' : ∀ x, P' x → Q x)
    (hother : id ≠ peer.operatorId → ∀ x, P' x → P x) (hpeer : id = peer.operatorId → P' peer) :
    Ends (Entries id P Q) (joinWithInvite E env now peer invite) (fun _ => Entries id P' Q) (Entries id P Q)
      (OnDisk id Q) :=
  (ends_lift (fun _ _ hs _ => hs) fun _ hs => hs).bind fun _ =>
    ((spendInvite_frame entries_freeOfSpent).ends fun _ hs => hs.disk).bind fun _ =>
      admitPeer_entries hP hP' hother hpeer

end

/-- A join for the operator id presents an announcement in `P`, and the control plane does not
register it. -/
def Call.Respects (id : Text) (P : PeerDescriptor → Prop) : Call → Prop
  | .joinWithInvite peer _ => id = peer.operatorId → P peer
  | .registerPeer peer => id ≠ peer.operatorId
  | _ => True

theorem Call.keeps_entries {E : Externals} {env : Env} {now : Nat} {id : Text}
    {P Q : PeerDescriptor → Prop} {call : Call} (hPQ : ∀ x, P x → Q x)
    (hkey : ∀ x y, P x → eqIgnoreAsciiCase x.signingPkHex y.signingPkHex = true → P y)
    (hcall : call.Respects id P) :
    Ends (Entries id P Q) (call.run E env now) (fun _ => Entries id P Q) (Entries id P Q) (OnDisk id Q) := by
  have hm : FreeOfMembership (Entries id P Q) := entries_freeOfMembership
  have hdisk : ∀ s, Entries id P Q s → OnDisk id Q s := fun _ hs => hs.disk
  have hins : ∀ {peer : PeerDescriptor}, (id = peer.operatorId → P peer) → Ends (Entries id P Q)
      (insertPeer env now peer) (fun _ => Entries id P Q) (Entries id P Q) (OnDisk id Q) :=
    fun hp => insertPeer_entries (fun _ hx => hx) hPQ (fun _ _ hx => hx) hp
  have hprune : Keeps (Entries id P Q) (Members.getActivePeers now) :=
    (keeps_update fun _ hs => hs.prune).bind fun _ => keeps_look
  cases call with
  | joinWithInvite peer invite =>
    exact (joinWithInvite_entries (fun _ hx => hx) hPQ (fun _ _ hx => hx) hcall).bind fun _ =>
      ends_pure fun _ hs => hs
  | refreshPeerJoin peer =>
    refine Ends.bind (D := fun _ => Entries id P Q) ?_ fun _ => ends_pure fun _ hs => hs
    refine (ends_lift (fun _ _ hs _ => hs) fun _ hs => hs).bind fun _ => ends_look_eq.bind fun stored => ?_
    refine (ends_check (D := fun _ s => Entries id P Q s ∧ (id = peer.operatorId → P peer)) ?_
      fun _ hs => hs.1).bind fun _ => ?_
    · rintro s ⟨hs, hst⟩ hsa
      refine ⟨hs, fun heq => ?_⟩
      cases stored with
      | none => cases hsa
      | some entry => exact hkey entry peer (hs.memory entry (heq ▸ hst)) hsa
    refine ends_of_fact (id = peer.operatorId → P peer) (fun _ hs => hs.2) fun hp => ?_
    exact ((hins hp).pre fun _ hs => hs.1).bind fun _ => (notePeerLiveness_frame hm).ends hdisk
  | registerPeer peer =>
    refine Ends.bind (D := fun _ => Entries id P Q) ?_ fun _ => ends_pure fun _ hs => hs
    refine (ends_lift (fun _ _ hs _ => hs) fun _ hs => hs).bind fun _ => ?_
    refine (ends_check (D := fun _ => Entries id P Q) (fun _ hs _ => hs) fun _ hs => hs).bind fun _ => ?_
    refine ends_look_self.bind fun previousPeer => (hins fun heq => absurd heq hcall).bind fun count => ?_
    refine Ends.bind (D := fun _ => Entries id P Q) ?_ fun _ => ends_pure fun _ hs => hs
    refine ((markFullMember_frame hm).ends hdisk).rescue fun error => ?_
    exact (rollbackPeerInsert_entries hPQ (fun _ _ hx => hx) fun heq => absurd heq hcall).bind fun _ =>
      ends_fail fun _ hs => hs
  | notePeerHeartbeat operatorId => exact (notePeerHeartbeat_frame hm).ends hdisk
  | graduatePeer operatorId => exact (keeps_discard (graduatePeer_frame hm)).ends hdisk
  | membershipSnapshot =>
    exact (keeps_discard (keeps_membershipSnapshot (graduateAll_frame hm) hprune)).ends hdisk
  | getActivePeers => exact (keeps_discard hprune).ends hdisk

def PeerDescriptor.key (peer : PeerDescriptor) : Text := Hex.lower peer.signingPkHex

def bound (w : World) (id : Text) : Option Text := (w.peers.memory.routing.lookup id).map PeerDescriptor.key

/-- Memory and file give the operator this key, if any. -/
def KeyIs (id key : Text) : Peers → Prop := Entries id (fun x => x.key = key) fun x => x.key = key

/-- Memory has no entry for the operator. -/
def Absent (id : Text) : Peers → Prop := Entries id (fun _ => False) fun _ => True

/-- Memory and file do not give the operator two keys. -/
def Agree (id : Text) (s : Peers) : Prop :=
  ∀ x y, s.memory.routing.lookup id = some x → s.disk.routing.lookup id = some y → x.key = y.key

/-- The file is up to date. -/
def Written (s : Peers) : Prop := s.disk.routing = s.memory.routing

theorem eqIgnoreAsciiCase_iff {a b : Text} : eqIgnoreAsciiCase a b = true ↔
    Hex.lower a = Hex.lower b := beq_iff_eq

section

variable {id key : Text} {s : Peers} {E : Externals} {env : Env} {w : World}

theorem KeyIs.agree (h : KeyIs id key s) : Agree id s :=
  fun x y hx hy => (h.memory x hx).trans (h.disk y hy).symm

theorem Absent.agree (h : Absent id s) : Agree id s := fun x _ hx => (h.memory x hx).elim

theorem Written.agree (h : Written s) : Agree id s := by
  intro x y hx hy
  rw [h, hx] at hy
  rw [some.inj hy]

theorem agree_load (now : Nat) : Agree id (load E now s) := by
  intro x y hx hy
  have hx' : s.disk.routing.lookup id = some x := (lookup_retain_eq_some.mp hx).1
  have hy' : s.disk.routing.lookup id = some y := hy
  rw [hx'] at hy'
  rw [some.inj hy']

theorem keyIs_of_bound (h : Agree id w.peers) (hbound : bound w id = some key) : KeyIs id key w.peers := by
  obtain ⟨x, hx, hkey⟩ := map_eq_some_iff.mp hbound
  refine ⟨?_, ?_⟩
  · intro y hy
    rw [hx] at hy
    rw [← some.inj hy, hkey]
  · intro y hy
    rw [← h x y hx hy, hkey]

theorem KeyIs.bound {key' : Text} (h : KeyIs id key w.peers) (hbound : bound w id = some key') :
    key' = key := by
  obtain ⟨x, hx, hkey⟩ := map_eq_some_iff.mp hbound
  rw [← hkey, h.memory x hx]

theorem absent_of_unbound (hbound : bound w id = none) : Absent id w.peers := by
  refine ⟨fun x hx => ?_, fun _ _ => trivial⟩
  have hn := map_eq_none_iff.mp hbound
  rw [hx] at hn
  cases hn

variable {now : Nat} {peer : PeerDescriptor} {call : Call} {event : Event} {events : List Event}

theorem insertPeer_written {before : Peers → Prop} :
    Ends before (insertPeer env now peer) (fun _ => Written) (fun _ => True) (fun _ => True) := by
  refine ends_trivial.bind fun _ => ends_trivial.bind fun table => ends_trivial.bind fun _ =>
    ends_trivial.bind fun _ => ?_
  refine Ends.bind (D := fun _ => Written) ?_ fun _ => ends_look_self
  refine (ends_step ?_ (fun _ _ _ _ => trivial) (fun _ _ _ => trivial) fun _ _ _ => trivial).rescue
    fun error =>
    ends_trivial.bind fun _ => ends_fail fun _ _ => trivial
  intro s a s' _ heq
  cases heq
  rfl

/-- A call that may enter the operator. -/
def Call.Admits (id : Text) : Call → Prop
  | .joinWithInvite peer _ => id = peer.operatorId
  | .registerPeer peer => id = peer.operatorId
  | _ => False

theorem Call.Admits.written (h : call.Admits id) :
    Ends (fun _ => True) (call.run E env now) (fun _ => Written) (fun _ => True) (fun _ => True) := by
  have hm : FreeOfMembership Written := fun _ _ _ h => h
  have ha : FreeOfAdmissions Written := fun _ _ _ h => h
  have hundo : ∀ {before : Peers → Prop} {α : Type} {undo : Action Unit} {error : String}, Ends before
      (undo >>= fun _ => (fail error : Action α)) (fun _ => Written) (fun _ => True) (fun _ => True) :=
    ends_trivial.bind fun _ => ends_fail fun _ _ => trivial
  cases call with
  | joinWithInvite peer invite =>
    refine Ends.bind (D := fun _ => Written) ?_ fun _ => ends_pure fun _ hs => hs
    refine ends_trivial.bind fun signers => ends_trivial.bind fun _ => ends_trivial.bind fun previousPeer =>
      ends_trivial.bind fun previousMembership => ?_
    refine (insertPeer_written.rescue fun error => hundo).bind fun count => ?_
    refine Ends.bind (D := fun _ => Written) ?_ fun _ => ?_
    · exact ((markProbationMember_frame hm).ends fun _ _ => trivial).rescue fun error =>
        ends_trivial.bind fun _ => hundo
    refine Ends.bind (D := fun _ => Written) ?_ fun _ => ends_pure fun _ hs => hs
    exact ((logAdmission_frame ha).ends fun _ _ => trivial).rescue fun error =>
      ends_trivial.bind fun _ => ends_trivial.bind fun _ => hundo
  | registerPeer peer =>
    refine Ends.bind (D := fun _ => Written) ?_ fun _ => ends_pure fun _ hs => hs
    refine ends_trivial.bind fun _ => ends_trivial.bind fun _ => ends_trivial.bind fun previousPeer => ?_
    refine insertPeer_written.bind fun count => ?_
    refine Ends.bind (D := fun _ => Written) ?_ fun _ => ends_pure fun _ hs => hs
    exact ((markFullMember_frame hm).ends fun _ _ => trivial).rescue fun error => hundo
  | _ => exact h.elim

/-- The checks of a call on its arguments, which come before it touches anything. -/
def Call.Passes (E : Externals) (env : Env) (now : Nat) : Call → Bool
  | .joinWithInvite peer invite => (checkJoin E env now peer invite).isOk
  | .registerPeer peer => (validatePeerDescriptor E now peer).isOk && trustedKey env peer
  | _ => true

theorem step_of_refused {faults : List (Fault Bool)} (h : call.Passes E env w.clock = false) :
    step E env w (.call call faults) = w := by
  cases call with
  | joinWithInvite peer invite =>
    cases hcheck : checkJoin E env w.clock peer invite with
    | ok signers => simp [Call.Passes, hcheck, Except.isOk, Except.toBool] at h
    | error e =>
      rw [step, Call.run, discard, joinWithInvite, hcheck]
      rfl
  | registerPeer peer =>
    rw [step, Call.run, discard, registerPeer]
    cases hvalid : validatePeerDescriptor E w.clock peer with
    | error e => rfl
    | ok u =>
      have htrusted : trustedKey env peer =
        false := by simpa [Call.Passes, hvalid, Except.isOk, Except.toBool] using h
      rw [htrusted]
      rfl
  | _ => cases h

/-- No join that passes the checks presents another key than the bound one for an operator id in the
routing table, and the control plane does not register it. -/
def NoTakeover (E : Externals) (env : Env) (id : Text) (w : World) : Event → Prop
  | .call call _ => call.Passes E env w.clock = true →
    call.Respects id fun peer => ∀ key, bound w id = some key → peer.key = key
  | _ => True

/-- Every join for the operator id that passes the checks presents the key; and the control plane
does not register the operator id. -/
def OneKey (E : Externals) (env : Env) (id key : Text) (w : World) : Event → Prop
  | .call call _ => call.Passes E env w.clock = true → call.Respects id fun peer => peer.key = key
  | _ => True

/-- What holds of the events whose calls pass the checks holds of all, if nothing is done otherwise.
-/
theorem step_cases {P : World → Prop} {R : Call → Prop} (hstays : P w)
    (hevent : ∀ call faults, event = .call call faults → call.Passes E env w.clock = true → R call)
    (hstep : (∀ call faults, event = .call call faults → R call) → P (step E env w event)) :
    P (step E env w event) := by
  cases event with
  | call call faults =>
    cases hpasses : call.Passes E env w.clock with
    | false => exact (step_of_refused hpasses).symm ▸ hstays
    | true => exact hstep fun c f heq => by cases heq; exact hevent call faults rfl hpasses
  | _ => exact hstep nofun

/-- The event does not bind another key to an operator id that is in the routing table. -/
def KeepsBinding (E : Externals) (env : Env) (id : Text) (w : World) (event : Event) : Prop :=
  ∀ key key', bound w id = some key → bound (step E env w event) id = some key' → key = key'

theorem KeyIs.step (h : KeyIs id key w.peers)
    (hevent : ∀ call faults, event = .call call faults → call.Respects id fun peer => peer.key = key) :
    KeyIs id key (step E env w event).peers := by
  cases event with
  | tick secs => exact h
  | restart => exact OnDisk.loaded h.disk
  | call call faults =>
    have hcall : Ends (KeyIs id key) (call.run E env w.clock) (fun _ => KeyIs id key) (KeyIs id key)
        (OnDisk id fun x => x.key = key) :=
      Call.keeps_entries (fun _ hx => hx) (fun x y hx hsa => (eqIgnoreAsciiCase_iff.mp hsa).symm.trans hx)
        (hevent call faults rfl)
    rcases step_call _ faults hcall h with ⟨s, hs, _, heq⟩ | ⟨s, hs, heq⟩ | ⟨s, hs, heq⟩
    · rw [heq]; exact hs
    · rw [heq]; exact hs
    · rw [heq]; exact hs.loaded

theorem joinWithInvite_absent {invite : JoinInvite} (hid : id = peer.operatorId) :
    Ends (Absent id) (Call.run E env now (.joinWithInvite peer invite)) (fun _ => Agree id)
    (Agree id) (fun _ => True) := by
  have hwri : Ends (fun _ => True) (Call.run E env now (.joinWithInvite peer invite)) (fun _ => Written)
      (fun _ => True) (fun _ => True) := Call.Admits.written hid
  have hent : Ends (Absent id) (Call.run E env now (.joinWithInvite peer invite)) (fun _ _ => True)
    (Absent id)
      (OnDisk id fun _ => True) := by
    have hjoin : Ends (Absent id) (joinWithInvite E env now peer invite)
        (fun _ => Entries id (fun _ => True) fun _ => True) (Absent id) (OnDisk id fun _ => True) :=
      joinWithInvite_entries (fun _ _ => trivial) (fun _ _ => trivial) (fun hne => absurd hid hne)
        fun _ => trivial
    exact hjoin.bind fun _ => ends_pure fun _ _ => trivial
  exact (hwri.and hent).mono (fun _ hs => ⟨trivial, hs⟩) (fun _ _ hs => hs.1.agree) (fun _ hs => hs.2.agree)
    fun _ _ => trivial

theorem Absent.step (h : Absent id w.peers)
    (hevent : ∀ call faults, event = .call call faults → call.Respects id fun _ => True) :
    Agree id (step E env w event).peers := by
  cases event with
  | tick secs => exact h.agree
  | restart => exact agree_load w.clock
  | call call faults =>
    have hcall : Ends (Absent id) (call.run E env w.clock) (fun _ => Agree id) (Agree id)
      (fun _ => True) := by
      by_cases hjoin : ∃ peer invite, call = .joinWithInvite peer invite ∧ id = peer.operatorId
      · obtain ⟨peer, invite, rfl, hid⟩ := hjoin
        exact joinWithInvite_absent hid
      · refine (Call.keeps_entries (Q := fun _ => True) (fun _ _ => trivial) (fun _ _ hx _ => hx) ?_).mono
          (fun _ hs => hs) (fun _ _ hs => Absent.agree hs) (fun _ hs => Absent.agree hs) fun _ _ => trivial
        have hres := hevent call faults rfl
        cases call with
        | joinWithInvite peer invite => exact fun heq => hjoin ⟨peer, invite, rfl, heq⟩
        | registerPeer peer => exact hres
        | _ => trivial
    rcases step_call _ faults hcall h with ⟨s, hs, _, heq⟩ | ⟨s, hs, heq⟩ | ⟨s, hs, heq⟩
    · rw [heq]; exact hs
    · rw [heq]; exact hs
    · rw [heq]; exact agree_load w.clock

theorem Call.Respects.mono {P P' : PeerDescriptor → Prop} (h : call.Respects id P) (hP : ∀ x, P x → P' x) :
    call.Respects id P' := by
  cases call with
  | joinWithInvite peer invite => exact fun heq => hP peer (h heq)
  | registerPeer peer => exact h
  | _ => trivial

theorem agree_step (h : Agree id w.peers) (hevent : NoTakeover E env id w event) :
    Agree id (step E env w event).peers ∧ KeepsBinding E env id w event := by
  cases hb : bound w id with
  | some key =>
    have hkey : KeyIs id key (step E env w event).peers := by
      refine step_cases (P := fun w => KeyIs id key w.peers) (keyIs_of_bound h hb) ?_
        (keyIs_of_bound h hb).step
      rintro call faults rfl hpasses
      exact Call.Respects.mono (hevent hpasses) fun peer hp => hp key hb
    refine ⟨hkey.agree, fun key₁ key₂ h₁ h₂ => ?_⟩
    rw [hb] at h₁
    rw [← some.inj h₁, hkey.bound h₂]
  | none =>
    refine ⟨?_, fun key₁ key₂ h₁ => ?_⟩
    · refine step_cases (P := fun w => Agree id w.peers) h ?_ (absent_of_unbound hb).step
      rintro call faults rfl hpasses
      exact Call.Respects.mono (hevent hpasses) fun _ _ => trivial
    · rw [hb] at h₁
      cases h₁

theorem agree_run (h : Agree id w.peers) (hall : Runs.Along (step E env) (NoTakeover E env id) w events) :
    Runs.Along (step E env) (KeepsBinding E env id) w events :=
  hall.imp (I := fun w => Agree id w.peers) (fun _ _ hev hw => agree_step hw hev) h

theorem keyIs_run (h : KeyIs id key w.peers) (hall : Runs.Along (step E env) (OneKey E env id key) w events) :
    KeyIs id key (run E env w events).peers := by
  refine hall.keeps (I := fun w => KeyIs id key w.peers) ?_ h
  intro w event hev hw
  refine step_cases (P := fun w => KeyIs id key w.peers) hw ?_ hw.step
  rintro call faults rfl
  exact hev

/-- Without joins that present another key for an operator id in the routing table, only the control
plane changes its key; and if all joins present one key, no other ever holds the operator id and its
standing. -/
theorem binding_kept (E : Externals) (env : Env) (clock : Nat) (events : List Event) (call : Call)
    (faults : List (Fault Bool)) (id : Text) (hadmits : call.Admits id)
    (hadmitted : Succeeds E env (run E env (new clock) events) call faults) :
    let w := run E env (new clock) (events ++ [.call call faults])
    (∀ later, Runs.Along (step E env) (NoTakeover E env id) w later →
      Runs.Along (step E env) (KeepsBinding E env id) w later) ∧
    ∀ key, bound w id = some key → ∀ later, Runs.Along (step E env) (OneKey E env id key) w later →
      ∀ key', bound (run E env w later) id = some key' → key' = key := by
  intro w
  have hwri : Written w.peers := by
    have hcall : Ends (fun _ => True) (call.run E env (run E env (new clock) events).clock) (fun _ => Written)
        (fun _ => True) (fun _ => True) := hadmits.written
    have hend := hcall faults (run E env (new clock) events).peers trivial
    have hw : w = step E env (run E env (new clock) events) (.call call faults) := run_append events _
    rw [hw, step]
    rw [Ending.eq_of_done hadmitted] at hend ⊢
    exact hend
  refine ⟨fun later hla => agree_run hwri.agree hla, ?_⟩
  intro key hb later hla key' hb'
  exact (keyIs_run (keyIs_of_bound hwri.agree hb) hla).bound hb'

end

namespace Takeover

open Sample (env peer ticket join)

/-- The control plane registers an operator. The holder of a ticket for another key joins under its
name, and has the standing of a full member. -/
theorem ticket_takes_over :
    bound (run reference env (new 1000) [.call (.registerPeer (peer [3#8] ['v'])) []]) ['v'] =
        some (Hex.encode (reference.ed25519Public [3#8])) ∧
      bound (run reference env (new 1000) [.call (.registerPeer (peer [3#8] ['v'])) [],
        join [2#8] 7 ['v'] []]) ['v'] =
        some (Hex.encode (reference.ed25519Public [2#8])) ∧
      ((run reference env (new 1000) [.call (.registerPeer (peer [3#8] ['v'])) [],
        join [2#8] 7 ['v'] []]).peers.memory.membership.lookup ['v']).map PeerMembership.status = some .full ∧
      Hex.encode (reference.ed25519Public [3#8]) ≠ Hex.encode (reference.ed25519Public [2#8]) := by
  decide +kernel

def later : List Event :=
  [.restart, .call (.refreshPeerJoin (peer [3#8] ['v'])) [], join [2#8] 7 ['v'] [.fail true]]

theorem admitted : Succeeds reference env (new 1000)
    (.joinWithInvite (peer [2#8] ['v']) (ticket [2#8] 7)) [] ∧
    bound (run reference env (new 1000) [join [2#8] 7 ['v'] []]) ['v'] = some (peer [2#8] ['v']).key := by
  decide +kernel

theorem one_key_later (w : World) :
    Runs.Along (step reference env) (OneKey reference env ['v'] (peer [2#8] ['v']).key) w later :=
  ⟨trivial, fun _ => trivial, fun _ _ => rfl, trivial⟩

theorem later_keeps_binding :
    bound (run reference env (new 1000) [join [2#8] 7 ['v'] []]) ['v'] = some (peer [2#8] ['v']).key ∧
      ∀ key', bound (run reference env (run reference env (new 1000) [join [2#8] 7 ['v'] []]) later) ['v'] =
        some key' → key' = (peer [2#8] ['v']).key :=
  ⟨admitted.2, (binding_kept reference env 1000 []
    (.joinWithInvite (peer [2#8] ['v']) (ticket [2#8] 7)) [] ['v'] rfl
    admitted.1).2 _ admitted.2 later (one_key_later _)⟩

end Takeover

end CipherVault.Network.Members
