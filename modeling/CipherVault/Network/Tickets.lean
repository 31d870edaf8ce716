import CipherVault.Network.Members

/-!
# Network.Tickets

One ticket, one operator: how the ledger of spent nonces bounds what a ticket can admit. It is
pruned by expiry, released by failing joins, and read back after a restart. `Honest` is the
invariant where joins keep to `Careful`; `Leaks` holds runs that break it.
-/

namespace CipherVault.Network.Members

open Crypto Format Faulty World

variable (expiryOf : Text → Nat)

/-- Every entry of the ledger has the expiry of its ticket, and those in memory are in the file. -/
structure Ledger (s : Peers) : Prop where
  memory : ∀ nonce expiry, s.memory.spent.lookup nonce = some expiry → expiry = expiryOf nonce
  disk : ∀ nonce expiry, s.disk.spent.lookup nonce = some expiry → expiry = expiryOf nonce
  backed : ∀ nonce expiry, s.memory.spent.lookup nonce = some expiry → s.disk.spent.lookup nonce = some expiry

/-- A set of nonces in the file, with the expiry of their tickets. -/
structure Filed (nonces : Text → Prop) (s : Peers) : Prop where
  dated : ∀ nonce expiry, s.disk.spent.lookup nonce = some expiry → expiry = expiryOf nonce
  spent : ∀ nonce, nonces nonce → s.disk.spent.lookup nonce = some (expiryOf nonce)

/-- The nonces are in the ledger, with the expiry of their tickets. -/
structure Spent (nonces : Text → Prop) (s : Peers) : Prop extends Ledger expiryOf s where
  held : ∀ nonce, nonces nonce → s.memory.spent.lookup nonce = some (expiryOf nonce)

section

variable {expiryOf : Text → Nat} {nonces : Text → Prop} {E : Externals} {env : Env} {now : Nat} {s : Peers}

theorem ne_of_mem {other nonce : Text} (hother : nonces other) (hnonce : ¬ nonces nonce) : other ≠ nonce := by
  rintro rfl
  exact hnonce hother

theorem Spent.filed (h : Spent expiryOf nonces s) : Filed expiryOf nonces s :=
  ⟨h.disk, fun nonce hn => h.backed nonce _ (h.held nonce hn)⟩

theorem Spent.mono {fewer : Text → Prop} (h : Spent expiryOf nonces s)
    (hsub : ∀ nonce, fewer nonce → nonces nonce) :
    Spent expiryOf fewer s := ⟨h.toLedger, fun nonce hn => h.held nonce (hsub nonce hn)⟩

theorem Filed.loaded (h : Filed expiryOf nonces s) (hlive : ∀ nonce, nonces nonce → now < expiryOf nonce) :
    Spent expiryOf nonces (load E now s) := by
  have hr : ∀ nonce expiry, (load E now s).memory.spent.lookup nonce = some expiry ↔
      s.disk.spent.lookup nonce = some expiry ∧ now < expiry := by
    intro nonce expiry
    rw [load, lookup_retain_eq_some, decide_eq_true_eq]
  refine ⟨⟨?_, h.dated, ?_⟩, ?_⟩
  · exact fun nonce expiry hexpiry => h.dated nonce expiry ((hr nonce expiry).mp hexpiry).1
  · exact fun nonce expiry hexpiry => ((hr nonce expiry).mp hexpiry).1
  · exact fun nonce hn => (hr nonce _).mpr ⟨h.spent nonce hn, hlive nonce hn⟩

theorem spent_freeOfRouting : FreeOfRouting (Spent expiryOf nonces) :=
  fun _ _ _ h => ⟨⟨h.memory, h.disk, h.backed⟩, h.held⟩

theorem spent_freeOfMembership : FreeOfMembership (Spent expiryOf nonces) :=
  fun _ _ _ h => ⟨⟨h.memory, h.disk, h.backed⟩, h.held⟩

theorem spent_freeOfAdmissions : FreeOfAdmissions (Spent expiryOf nonces) :=
  fun _ _ _ h => ⟨⟨h.memory, h.disk, h.backed⟩, h.held⟩

theorem Spent.prune (h : Spent expiryOf nonces s) (hlive : ∀ nonce, nonces nonce → now < expiryOf nonce) :
    Spent expiryOf nonces (s.onSpent (Dict.retain fun _ expiry => now < expiry)) := by
  have hr : ∀ nonce expiry,
      (s.onSpent (Dict.retain fun _ expiry => now < expiry)).memory.spent.lookup nonce = some expiry ↔
        s.memory.spent.lookup nonce = some expiry ∧ now < expiry := by
    intro nonce expiry
    rw [Peers.onSpent, lookup_retain_eq_some, decide_eq_true_eq]
  refine ⟨⟨?_, h.disk, ?_⟩, ?_⟩
  · exact fun nonce expiry hexpiry => h.memory nonce expiry ((hr nonce expiry).mp hexpiry).1
  · exact fun nonce expiry hexpiry => h.backed nonce expiry ((hr nonce expiry).mp hexpiry).1
  · exact fun nonce hn => (hr nonce _).mpr ⟨h.held nonce hn, hlive nonce hn⟩

theorem spent_erase {nonce : Text}
    (hmemory : ∀ other expiry, s.memory.spent.lookup other = some expiry → expiry = expiryOf other)
    (hdisk : ∀ other expiry, s.disk.spent.lookup other = some expiry → expiry = expiryOf other)
    (hbacked : ∀ other expiry, other ≠ nonce → s.memory.spent.lookup other = some expiry →
      s.disk.spent.lookup other = some expiry)
    (hheld : ∀ other, nonces other → s.memory.spent.lookup other = some (expiryOf other))
    (hother : ¬ nonces nonce) :
    Spent expiryOf nonces (s.onSpent (AList.erase nonce)) := by
  refine ⟨⟨?_, hdisk, ?_⟩, ?_⟩
  · exact fun other expiry hexpiry => hmemory other expiry (lookup_of_lookup_erase hexpiry).2
  · intro other expiry hexpiry
    obtain ⟨hne, hexpiry⟩ := lookup_of_lookup_erase hexpiry
    exact hbacked other expiry hne hexpiry
  · intro other hn
    rw [Peers.onSpent, lookup_erase_ne (ne_of_mem hn hother)]
    exact hheld other hn

theorem Spent.release {nonce : Text} (h : Spent expiryOf nonces s) (hother : ¬ nonces nonce) :
    Spent expiryOf nonces (s.onSpent (AList.erase nonce)) :=
  spent_erase h.memory h.disk (fun other expiry _ => h.backed other expiry) h.held hother

theorem Spent.write (h : Spent expiryOf nonces s) :
    Spent expiryOf nonces { s with disk := { s.disk with spent := s.memory.spent } } :=
  ⟨⟨h.memory, h.memory, fun _ _ hexpiry => hexpiry⟩, h.held⟩

theorem keeps_persistSpentInvites : Keeps (Spent expiryOf nonces) (persistSpentInvites env) :=
  keeps_persist fun _ hs => hs.write

end

variable {operatorId : Text} {signers : List Text} {expiry : Nat}

section

variable {expiryOf : Text → Nat} {nonces : Text → Prop} {E : Externals} {env : Env} {now : Nat}
  {peer : PeerDescriptor} {invite : JoinInvite}

/-- One more nonce. -/
def Plus (nonces : Text → Prop) (nonce other : Text) : Prop := nonces other ∨ other = nonce

/-- A nonce that is in the memory and perhaps not yet in the file. -/
structure Entered (expiryOf : Text → Nat) (nonces : Text → Prop) (nonce : Text) (s : Peers) : Prop where
  memory : ∀ other expiry, s.memory.spent.lookup other = some expiry → expiry = expiryOf other
  disk : ∀ other expiry, s.disk.spent.lookup other = some expiry → expiry = expiryOf other
  backed : ∀ other expiry, other ≠ nonce → s.memory.spent.lookup other = some expiry →
    s.disk.spent.lookup other = some expiry
  held : ∀ other, Plus nonces nonce other → s.memory.spent.lookup other = some (expiryOf other)
  other : ¬ nonces nonce

variable {nonce : Text} {s : Peers}

theorem Spent.entered (h : Spent expiryOf nonces s) (hnew : ¬ nonces nonce) :
    Entered expiryOf nonces nonce (s.onSpent (AList.insert nonce (expiryOf nonce))) := by
  refine ⟨?_, h.disk, ?_, ?_, hnew⟩
  · intro other expiry
    refine forall_lookup_insert (P := fun expiry => expiry = expiryOf other) (h.memory other) ?_ expiry
    exact fun heq => heq ▸ rfl
  · intro other expiry hne hexpiry
    rw [Peers.onSpent, lookup_insert_ne hne] at hexpiry
    exact h.backed other expiry hexpiry
  · rintro other (ho | rfl)
    · rw [Peers.onSpent, lookup_insert_ne (ne_of_mem ho hnew)]
      exact h.held other ho
    · exact lookup_insert _

section

variable (h : Entered expiryOf nonces nonce s)
include h

theorem Entered.write : Spent expiryOf (Plus nonces nonce)
    { s with disk := { s.disk with spent := s.memory.spent } } :=
  ⟨⟨h.memory, h.memory, fun _ _ hexpiry => hexpiry⟩, h.held⟩

theorem Entered.cut {replaced : Bool} :
    Entered expiryOf nonces nonce
      (if replaced then { s with disk := { s.disk with spent := s.memory.spent } } else s) := by
  split
  · exact ⟨h.memory, h.memory, fun _ _ _ hexpiry => hexpiry, h.held, h.other⟩
  · exact h

theorem Entered.filed : Filed expiryOf nonces s :=
  ⟨h.disk, fun other ho => h.backed other _ (ne_of_mem ho h.other) (h.held other (.inl ho))⟩

theorem Entered.erase : Spent expiryOf nonces (s.onSpent (AList.erase nonce)) :=
  spent_erase h.memory h.disk h.backed (fun other ho => h.held other (.inl ho)) h.other

end

theorem spendInvite_spent (hlive : ∀ nonce, nonces nonce → now < expiryOf nonce) (hother : ¬ nonces nonce) :
    Ends (Spent expiryOf nonces) (spendInvite env nonce (expiryOf nonce) operatorId now)
      (fun _ => Spent expiryOf (Plus nonces nonce)) (Spent expiryOf nonces) (Filed expiryOf nonces) := by
  refine ends_look_self.bind fun admitted => (ends_update fun s hs => hs.prune hlive).bind fun _ => ?_
  refine ends_look_eq.bind fun spent => ?_
  split
  · -- the nonce is spent already
    rename_i hsp
    refine ends_check (fun s hs _ => ?_) fun _ hs => hs.1
    refine ⟨hs.1.toLedger, ?_⟩
    rintro other (hheld | rfl)
    · exact hs.1.held other hheld
    · obtain ⟨expiry, hexpiry⟩ := Option.isSome_iff_exists.mp hsp
      rw [← hs.2] at hexpiry
      rw [hexpiry, hs.1.memory other expiry hexpiry]
  · refine (ends_update fun s hs => hs.1.entered hother).bind fun _ => ?_
    refine Ends.rescue (ends_step ?_ ?_ (fun s replaced hs => hs.cut) fun s replaced hs =>
      hs.cut.filed) fun error => ?_
    · intro s a s' hs heq
      cases heq
      exact hs.write
    · nofun
    · exact (ends_update fun s hs => hs.erase).bind fun _ => ends_fail fun _ hs => hs

theorem unspendInvite_spent (hother : ¬ nonces nonce) :
    Keeps (Spent expiryOf nonces) (unspendInvite env nonce) := by
  refine keeps_look.bind fun spent => ?_
  split
  · exact (keeps_update fun s hs => hs.release hother).bind fun _ =>
      keeps_bestEffort keeps_persistSpentInvites
  · exact keeps_pure

theorem release_spent {α : Type} {undo : Action Unit} {error : String}
    (hundo : Keeps (Spent expiryOf nonces) undo)
    {done : α → Peers → Prop} :
    Ends (Spent expiryOf nonces) (undo >>= fun _ => fail error) done (Spent expiryOf nonces)
    (Filed expiryOf nonces) :=
  (hundo.ends fun _ hs => hs.filed).bind fun _ => ends_fail fun _ hs => hs

theorem admitPeer_spent (hother : ¬ nonces invite.nonceHex) :
    Ends (Spent expiryOf (Plus nonces invite.nonceHex)) (admitPeer env now peer invite signers)
      (fun _ => Spent expiryOf (Plus nonces invite.nonceHex)) (Spent expiryOf nonces)
      (Filed expiryOf nonces) := by
  have hfewer : ∀ s, Spent expiryOf (Plus nonces invite.nonceHex) s → Spent expiryOf nonces s :=
    fun s hs => hs.mono fun _ => Or.inl
  -- a part of the join that leaves the ledger alone, with its handler
  have hpart : ∀ {α : Type} {x : Action α} {handle : String → Action α},
      Keeps (Spent expiryOf (Plus nonces invite.nonceHex)) x →
      (∀ error, Ends (Spent expiryOf nonces) (handle error)
        (fun _ => Spent expiryOf (Plus nonces invite.nonceHex))
        (Spent expiryOf nonces) (Filed expiryOf nonces)) →
      Ends (Spent expiryOf (Plus nonces invite.nonceHex)) (x.rescue handle)
        (fun _ => Spent expiryOf (Plus nonces invite.nonceHex)) (Spent expiryOf nonces)
          (Filed expiryOf nonces) :=
    fun hx hhandle => (hx.ends fun s hs => (hfewer s hs).filed).rescue fun error =>
      (hhandle error).mono hfewer (fun _ _ hs => hs) (fun _ hs => hs) fun _ hs => hs
  have huns : Keeps (Spent expiryOf nonces) (unspendInvite env invite.nonceHex) := unspendInvite_spent hother
  have hrol : ∀ {previous : Option PeerDescriptor},
      Keeps (Spent expiryOf nonces) (rollbackPeerInsert env peer.operatorId previous) :=
    rollbackPeerInsert_frame spent_freeOfRouting
  refine ends_look_self.bind fun previousPeer => ends_look_self.bind fun previousMembership => ?_
  refine (hpart (insertPeer_frame spent_freeOfRouting) fun error => release_spent huns).bind fun count => ?_
  refine (hpart (markProbationMember_frame spent_freeOfMembership) fun error => ?_).bind fun _ => ?_
  · exact (hrol.ends fun _ hs => hs.filed).bind fun _ => release_spent huns
  refine (hpart (logAdmission_frame spent_freeOfAdmissions) fun error => ?_).bind fun _ =>
    ends_pure fun _ hs => hs
  exact (hrol.ends fun _ hs => hs.filed).bind fun _ =>
    ((restoreMembership_frame spent_freeOfMembership).ends fun _ hs => hs.filed).bind fun _ =>
      release_spent huns

theorem joinWithInvite_spent (E : Externals) (env : Env) (peer : PeerDescriptor)
    (hlive : ∀ nonce, nonces nonce → now < expiryOf nonce)
    (hticket : invite.expiresUtc = expiryOf invite.nonceHex) (hother : ¬ nonces invite.nonceHex) :
    Ends (Spent expiryOf nonces) (joinWithInvite E env now peer invite)
      (fun _ s => (∃ signers, checkJoin E env now peer invite = .ok signers) ∧
        Spent expiryOf (Plus nonces invite.nonceHex) s) (Spent expiryOf nonces) (Filed expiryOf nonces) := by
  cases hc : checkJoin E env now peer invite with
  | error e =>
    rw [joinWithInvite, hc]
    exact ends_fail fun _ hs => hs
  | ok signers =>
    rw [joinWithInvite, hc, hticket]
    refine ((spendInvite_spent hlive hother).bind fun _ => admitPeer_spent hother).mono (fun _ hs => hs) ?_
      (fun _ hs => hs) fun _ hs => hs
    exact fun _ _ hs => ⟨⟨signers, rfl⟩, hs⟩

theorem checkJoin_unexpired (h : checkJoin E env now peer invite = .ok signers) :
    now ≤ invite.expiresUtc := by
  simp only [checkJoin, bind_eq_ok] at h
  obtain ⟨auth, _, verified, hver, _⟩ := h
  cases auth with
  | legacy key =>
    simp only [verifyInvite, map_eq_ok, mapError_eq_ok] at hver
    obtain ⟨_, hver, _⟩ := hver
    exact JoinInvite.verify_unexpired hver
  | quorum set threshold => exact JoinInvite.verifyQuorum_unexpired (mapError_eq_ok.mp hver)

/-- With a spent nonce, an operator id without a membership record gets no further than the ledger.
-/
theorem joinWithInvite_refused (E : Externals) (env : Env) (peer : PeerDescriptor) (invite : JoinInvite)
    (inv : Peers → Prop) (hexpiry : now < expiry)
    (hprune : ∀ s, inv s → inv (s.onSpent (Dict.retain fun _ expiry => now < expiry))) :
    Ends (fun s => inv s ∧ s.memory.spent.lookup invite.nonceHex = some expiry ∧
        s.memory.membership.lookup peer.operatorId = none)
      (joinWithInvite E env now peer invite) (fun _ _ => False) inv inv := by
  refine (ends_lift (fun s _ hs _ => hs) fun _ hs => hs.1).bind fun signers => ?_
  refine Ends.bind (D := fun _ _ => False) ?_ fun _ _ _ hs => hs.elim
  refine ends_look_eq.bind fun admitted => ?_
  refine (ends_update (A := fun s => inv s ∧ s.memory.spent.lookup invite.nonceHex = some expiry ∧
    admitted = false)
    ?_).bind fun _ => ?_
  · rintro s ⟨⟨hinv, hsp, hrec⟩, hadm⟩
    refine ⟨hprune s hinv, ?_⟩
    rw [Peers.onSpent, lookup_retain_eq_some, decide_eq_true_eq, ← hadm, hrec]
    exact ⟨⟨hsp, hexpiry⟩, rfl⟩
  refine ends_look_eq.bind fun spent => ?_
  split
  · exact ends_check (fun s hs hadm => Bool.false_ne_true (hs.1.2.2 ▸ hadm)) fun _ hs => hs.1.1
  · rename_i hn
    refine fun _ s hs => absurd ?_ hn
    rw [← hs.2, hs.1.2.1]
    rfl

end

theorem Call.keeps_others {E : Externals} {env : Env} {now : Nat} {inv : Peers → Prop} {call : Call}
    (hcall : ∀ peer invite, call ≠ .joinWithInvite peer invite)
    (hr : FreeOfRouting inv) (hm : FreeOfMembership inv) : Keeps inv (call.run E env now) := by
  cases call with
  | joinWithInvite peer invite => exact absurd rfl (hcall peer invite)
  | refreshPeerJoin peer =>
    exact keeps_discard (keeps_lift.bind fun _ => keeps_look.bind fun _ => keeps_check.bind fun _ =>
      (insertPeer_frame hr).bind fun _ => notePeerLiveness_frame hm)
  | registerPeer peer =>
    exact keeps_discard (keeps_lift.bind fun _ => keeps_check.bind fun _ => keeps_look.bind fun _ =>
      (insertPeer_frame hr).bind fun _ => ((markFullMember_frame hm).rescue fun _ =>
        (rollbackPeerInsert_frame hr).bind fun _ => keeps_fail).bind fun _ => keeps_pure)
  | notePeerHeartbeat operatorId => exact notePeerHeartbeat_frame hm
  | graduatePeer operatorId => exact keeps_discard (graduatePeer_frame hm)
  | membershipSnapshot =>
    exact keeps_discard (keeps_membershipSnapshot (graduateAll_frame hm) (getActivePeers_frame hr))
  | getActivePeers => exact keeps_discard (getActivePeers_frame hr)

/-! ## The admission log -/

/-- The operator id in the last admission record of a nonce. -/
def lastAdmission (nonce : Text) (log : List AdmissionRecord) : Option Text :=
  (log.filter fun record => record.nonceHex = nonce).getLast?.map AdmissionRecord.operatorId

theorem lastAdmission_append (nonce : Text) (log : List AdmissionRecord) (record : AdmissionRecord) :
    lastAdmission nonce (log ++ [record]) =
      if record.nonceHex = nonce then some record.operatorId else lastAdmission nonce log := by
  rw [lastAdmission, List.filter_append]
  split <;> rename_i hn <;> simp [hn, lastAdmission]

/-- The expected operator ids stand last in the admission log, in memory and in the file. -/
structure Logged (expected : Text → Text → Prop) (s : Peers) : Prop where
  memory : ∀ nonce operatorId, expected nonce operatorId →
    lastAdmission nonce s.memory.admissions = some operatorId
  disk : ∀ nonce operatorId, expected nonce operatorId →
    lastAdmission nonce s.disk.admissions = some operatorId

/-- One more admission. -/
def Also (expected : Text → Text → Prop) (nonce operatorId other otherId : Text) : Prop :=
  expected other otherId ∨ other = nonce ∧ otherId = operatorId

section

variable {expected : Text → Text → Prop} {E : Externals} {env : Env} {now : Nat} {s : Peers}
  {peer : PeerDescriptor}
  {invite : JoinInvite} {record : AdmissionRecord}

theorem Logged.mono {fewer : Text → Text → Prop} (h : Logged expected s)
    (hsub : ∀ nonce operatorId, fewer nonce operatorId → expected nonce operatorId) : Logged fewer s :=
  ⟨fun nonce id hf => h.memory nonce id (hsub nonce id hf), fun nonce id hf =>
    h.disk nonce id (hsub nonce id hf)⟩

theorem Logged.loaded (h : Logged expected s) : Logged expected (load E now s) := ⟨h.disk, h.disk⟩

theorem logged_freeOfRouting : FreeOfRouting (Logged expected) := fun _ _ _ h => ⟨h.memory, h.disk⟩

theorem logged_freeOfMembership : FreeOfMembership (Logged expected) := fun _ _ _ h => ⟨h.memory, h.disk⟩

theorem logged_freeOfSpent : FreeOfSpent (Logged expected) := fun _ _ _ h => ⟨h.memory, h.disk⟩

/-- A record that is in the memory and perhaps not yet in the file. -/
structure Appended (expected : Text → Text → Prop) (record : AdmissionRecord) (s : Peers) : Prop where
  memory : ∀ nonce operatorId, Also expected record.nonceHex record.operatorId nonce operatorId →
    lastAdmission nonce s.memory.admissions = some operatorId
  dropped : ∀ nonce operatorId, expected nonce operatorId →
    lastAdmission nonce s.memory.admissions.dropLast = some operatorId
  disk : ∀ nonce operatorId, expected nonce operatorId →
    lastAdmission nonce s.disk.admissions = some operatorId

theorem Logged.appended (h : Logged expected s)
    (hone : ∀ operatorId, expected record.nonceHex operatorId → operatorId = record.operatorId) :
    Appended expected record (s.onAdmissions (· ++ [record])) := by
  refine ⟨fun nonce operatorId hid => ?_, fun nonce operatorId hid => ?_, h.disk⟩
  · rw [Peers.onAdmissions, lastAdmission_append]
    rcases hid with hid | ⟨rfl, rfl⟩
    · split
      · rename_i hn
        subst hn
        rw [hone operatorId hid]
      · exact h.memory nonce operatorId hid
    · rw [if_pos rfl]
  · rw [Peers.onAdmissions, List.dropLast_concat]
    exact h.memory nonce operatorId hid

theorem Appended.cut (h : Appended expected record s) {replaced : Bool} : Appended expected record
    (if replaced then { s with disk := { s.disk with admissions := s.memory.admissions } } else s) := by
  split
  · exact ⟨h.memory, h.dropped, fun nonce operatorId hid => h.memory nonce operatorId (.inl hid)⟩
  · exact h

theorem Appended.logged (h : Appended expected record s) : Logged expected s :=
  ⟨fun nonce operatorId hid => h.memory nonce operatorId (.inl hid), h.disk⟩

theorem logAdmission_logged (hone : ∀ operatorId, expected record.nonceHex operatorId →
    operatorId = record.operatorId) :
    Ends (Logged expected) (logAdmission env record)
      (fun _ => Logged (Also expected record.nonceHex record.operatorId)) (Logged expected)
      (Logged expected) := by
  refine (ends_update fun s hs => hs.appended hone).bind fun _ => ?_
  refine Ends.rescue (ends_step ?_ ?_ (fun s replaced hs => hs.cut) fun s replaced hs =>
    hs.cut.logged) fun error => ?_
  · intro s a s' hs heq
    cases heq
    exact ⟨hs.memory, hs.memory⟩
  · nofun
  · exact (ends_update fun s hs => ⟨hs.dropped, hs.disk⟩).bind fun _ => ends_fail fun _ hs => hs

theorem admitPeer_logged (hone : ∀ operatorId, expected invite.nonceHex operatorId →
    operatorId = peer.operatorId) :
    Ends (Logged expected) (admitPeer env now peer invite signers)
      (fun _ => Logged (Also expected invite.nonceHex peer.operatorId)) (Logged expected)
      (Logged expected) := by
  have hpart : ∀ {α : Type} {x : Action α}, Keeps (Logged expected) x →
      Ends (Logged expected) x (fun _ => Logged expected) (Logged expected) (Logged expected) :=
    fun hx => hx.ends fun _ hs => hs
  have huns : ∀ {done : Unit → Peers → Prop} {error : String}, Ends (Logged expected)
      (unspendInvite env invite.nonceHex >>= fun _ => fail error) done (Logged expected) (Logged expected) :=
    (hpart (unspendInvite_frame logged_freeOfSpent)).bind fun _ => ends_fail fun _ hs => hs
  have hrol : ∀ {previous : Option PeerDescriptor}, Keeps (Logged expected)
      (rollbackPeerInsert env peer.operatorId previous) := rollbackPeerInsert_frame logged_freeOfRouting
  refine ends_look_self.bind fun previousPeer => ends_look_self.bind fun previousMembership => ?_
  refine ((hpart (insertPeer_frame logged_freeOfRouting)).rescue fun error => ?_).bind fun count => ?_
  · exact (hpart (unspendInvite_frame logged_freeOfSpent)).bind fun _ => ends_fail fun _ hs => hs
  refine ((hpart (markProbationMember_frame logged_freeOfMembership)).rescue fun error => ?_).bind fun _ => ?_
  · exact (hpart hrol).bind fun _ => huns
  refine ((logAdmission_logged hone).rescue fun error => ?_).bind fun _ => ends_pure fun _ hs => hs
  exact (hpart hrol).bind fun _ =>
    (hpart (restoreMembership_frame logged_freeOfMembership)).bind fun _ => huns

theorem joinWithInvite_logged (E : Externals) (env : Env) (now : Nat)
    (hone : ∀ operatorId, expected invite.nonceHex operatorId → operatorId = peer.operatorId) :
    Ends (Logged expected) (joinWithInvite E env now peer invite)
      (fun _ => Logged (Also expected invite.nonceHex peer.operatorId)) (Logged expected) (Logged expected) :=
  (ends_lift (fun _ _ hs _ => hs) fun _ hs => hs).bind fun _ =>
    ((spendInvite_frame logged_freeOfSpent).ends fun _ hs => hs).bind fun _ => admitPeer_logged hone

end

/-! ## A join where no write fails -/

/-- The routing table takes the operator id: it is there, or the table is not full. -/
def Room (now : Nat) (operatorId : Text) (s : Peers) : Bool :=
  let table := Dict.retain (fun _ peer => unexpired now peer) s.memory.routing
  (table.lookup operatorId).isSome || Dict.size table < maxActivePeers

section

variable {E : Externals} {env : Env} {now : Nat} {peer : PeerDescriptor} {invite : JoinInvite}
  {inv : Peers → Prop}

theorem persist_steady {write : Stores → Stores → Stores} :
    Steady (fun _ => True) (persist env write) (fun _ _ => True) fun _ => True :=
  steady_step (fun _ _ => ⟨_, _, rfl, trivial⟩) fun _ _ _ => trivial

theorem insertPeer_steady : Steady (fun s => Room now peer.operatorId s = true) (insertPeer env now peer)
    (fun _ _ => True) fun _ => True := by
  refine Steady.bind (D := fun _ s => ((s.memory.routing.lookup peer.operatorId).isSome ||
    Dict.size s.memory.routing < maxActivePeers) = true) (steady_update fun s hs => hs) fun _ => ?_
  refine steady_look.bind fun table => ?_
  refine (steady_check fun s hs => hs.2 ▸ hs.1).bind fun _ => ?_
  refine (steady_update (A := fun _ => True) fun _ _ => trivial).bind fun _ =>
    persist_steady.rescue.bind fun _ => ?_
  exact steady_look.mono (fun _ h => h) (fun _ _ _ => trivial) fun _ h => h

theorem markProbationMember_steady :
    Steady (fun _ => True) (markProbationMember env operatorId now) (fun _ _ => True) fun _ => True :=
  steady_look.bind fun _ => (steady_update (A := fun _ => True) fun _ _ => trivial).bind fun _ =>
    persist_steady.rescue

theorem logAdmission_steady {record : AdmissionRecord} :
    Steady (fun _ => True) (logAdmission env record) (fun _ _ => True) fun _ => True :=
  (steady_update (A := fun _ => True) fun _ _ => trivial).bind fun _ => persist_steady.rescue

theorem spendInvite_steady (env : Env) (nonce : Text) (expiresUtc : Nat) (operatorId : Text)
    (hexpiry : now < expiry)
    (hprune : ∀ s, inv s → inv (s.onSpent (Dict.retain fun _ expiry => now < expiry))) :
    Steady (fun s => inv s ∧ s.memory.spent.lookup nonce = some expiry ∧
        (s.memory.membership.lookup operatorId).isSome = true)
      (spendInvite env nonce expiresUtc operatorId now) (fun _ => inv) inv := by
  refine steady_look.bind fun admitted => ?_
  refine (steady_update (A := fun s => inv s ∧ s.memory.spent.lookup nonce = some expiry ∧ admitted = true)
    ?_).bind fun _ => steady_look.bind fun spent => ?_
  · rintro s ⟨⟨hinv, hsp, hrec⟩, hadm⟩
    refine ⟨hprune s hinv, ?_, hadm ▸ hrec⟩
    rw [Peers.onSpent, lookup_retain_eq_some, decide_eq_true_eq]
    exact ⟨hsp, hexpiry⟩
  split
  · exact (steady_check fun s hs => hs.1.2.2).mono (fun _ h => h) (fun _ _ hs => hs.1.1) fun _ h => h
  · rename_i hn
    refine fun _ s _ hs => absurd ?_ hn
    rw [← hs.2, hs.1.2.1]
    rfl

theorem admitPeer_steady (env : Env) (signers : List Text) {expiryOf : Text → Nat}
    {nonces : Text → Prop} {expected : Text → Text → Prop}
    (hone : ∀ operatorId, expected invite.nonceHex operatorId → operatorId = peer.operatorId) :
    Steady (fun s => (Spent expiryOf nonces s ∧ Logged expected s) ∧ Room now peer.operatorId s = true)
      (admitPeer env now peer invite signers)
      (fun _ s => Spent expiryOf nonces s ∧ Logged (Also expected invite.nonceHex peer.operatorId) s)
      (fun s => Spent expiryOf nonces s ∧ Logged expected s) := by
  have hr : FreeOfRouting fun s => Spent expiryOf nonces s ∧ Logged expected s :=
    fun s m d hs => ⟨spent_freeOfRouting s m d hs.1, logged_freeOfRouting s m d hs.2⟩
  have hm : FreeOfMembership fun s => Spent expiryOf nonces s ∧ Logged expected s :=
    fun s m d hs => ⟨spent_freeOfMembership s m d hs.1, logged_freeOfMembership s m d hs.2⟩
  refine steady_look.bind fun previousPeer => steady_look.bind fun previousMembership => ?_
  refine Steady.bind (D := fun _ s => Spent expiryOf nonces s ∧ Logged expected s) ?_ fun count => ?_
  · exact (insertPeer_steady.and ((insertPeer_frame hr).ends fun _ hs => hs)).rescue.mono
      (fun _ hs => ⟨hs.1.1.2, hs.1.1.1⟩) (fun _ _ hs => hs.2) fun _ hs => hs.2
  refine Steady.bind (D := fun _ s => Spent expiryOf nonces s ∧ Logged expected s) ?_ fun _ => ?_
  · exact (markProbationMember_steady.and ((markProbationMember_frame hm).ends fun _ hs => hs)).rescue.mono
      (fun _ hs => ⟨trivial, hs⟩) (fun _ _ hs => hs.2) fun _ hs => hs.2
  refine Steady.bind ?_ fun _ => steady_pure fun _ hs => hs
  exact (logAdmission_steady.and (((logAdmission_frame spent_freeOfAdmissions).ends fun _ hs => hs).and
    (logAdmission_logged hone))).rescue.mono (fun _ hs => ⟨trivial, hs⟩) (fun _ _ hs => hs.2) fun _ hs => hs.2

end

/-- A join with a nonce that is in the ledger, by an operator id that has a membership record. -/
def Rejoins (w : World) (peer : PeerDescriptor) (invite : JoinInvite) : Bool :=
  (w.peers.memory.spent.lookup invite.nonceHex).any (fun expiry => w.clock < expiry) &&
    (w.peers.memory.membership.lookup peer.operatorId).isSome

/-- What is asked of a join: of its arguments, its faults and the state before it. -/
structure Careful (expiryOf : Text → Nat) (w : World) (peer : PeerDescriptor) (invite : JoinInvite)
    (faults : List (Fault Bool)) : Prop where
  /-- There is one ticket of a nonce. -/
  ticket : invite.expiresUtc = expiryOf invite.nonceHex
  /-- It is not presented in the very second of its expiry. -/
  instant : w.clock ≠ invite.expiresUtc
  /-- No write of a rejoin fails, and the routing table has room for it. -/
  unfailing : Rejoins w peer invite = true → Calm faults ∧ Room w.clock peer.operatorId w.peers = true
  /-- A rejoin is for the operator id in the last admission record of the nonce. -/
  rejoin : Rejoins w peer invite = true → ∀ operatorId,
    lastAdmission invite.nonceHex w.peers.memory.admissions = some operatorId → operatorId = peer.operatorId

instance {expiryOf : Text → Nat} {w : World} {peer : PeerDescriptor} {invite : JoinInvite}
    {faults : List (Fault Bool)} : Decidable (Careful expiryOf w peer invite faults) :=
  decidable_of_iff (invite.expiresUtc = expiryOf invite.nonceHex ∧ w.clock ≠ invite.expiresUtc ∧
    (Rejoins w peer invite = true → Calm faults ∧ Room w.clock peer.operatorId w.peers = true) ∧
    (Rejoins w peer invite = true → ∀ operatorId ∈ lastAdmission invite.nonceHex w.peers.memory.admissions,
      operatorId = peer.operatorId))
    ⟨fun h => ⟨h.1, h.2.1, h.2.2.1, h.2.2.2⟩, fun h => ⟨h.ticket, h.instant, h.unfailing, h.rejoin⟩⟩

/-- The condition on a join; other events have none. -/
def CarefulEvent (expiryOf : Text → Nat) (w : World) : Event → Prop
  | .call (.joinWithInvite peer invite) faults => Careful expiryOf w peer invite faults
  | _ => True

instance {expiryOf : Text → Nat} (w : World) : ∀ event, Decidable (CarefulEvent expiryOf w event)
  | .call (.joinWithInvite peer invite) faults =>
    inferInstanceAs (Decidable (Careful expiryOf w peer invite faults))
  | .call (.refreshPeerJoin _) _ => .isTrue trivial
  | .call (.registerPeer _) _ => .isTrue trivial
  | .call (.notePeerHeartbeat _) _ => .isTrue trivial
  | .call (.graduatePeer _) _ => .isTrue trivial
  | .call .membershipSnapshot _ => .isTrue trivial
  | .call .getActivePeers _ => .isTrue trivial
  | .tick _ => .isTrue trivial
  | .restart => .isTrue trivial

/-- The nonce has admitted someone, and its ticket has not expired. -/
def Live (w : World) (nonce : Text) : Prop :=
  w.clock < expiryOf nonce ∧ ∃ g ∈ w.granted, g.nonceHex = nonce

/-- The operator id that a live nonce has admitted. -/
def Admitted (w : World) (nonce operatorId : Text) : Prop :=
  w.clock < expiryOf nonce ∧ ⟨nonce, operatorId⟩ ∈ w.granted

/-- The invariant: live nonces are spent and logged, and admit one operator. -/
structure Honest (w : World) : Prop where
  spent : Spent expiryOf (Live expiryOf w) w.peers
  logged : Logged (Admitted expiryOf w) w.peers
  single : ∀ g ∈ w.granted, ∀ g' ∈ w.granted, g.nonceHex = g'.nonceHex → g.operatorId = g'.operatorId

section

variable {E : Externals} {env : Env} {expiryOf : Text → Nat} {w w' : World}

theorem Admitted.live {nonce : Text} (h : Admitted expiryOf w nonce operatorId) : Live expiryOf w nonce :=
  ⟨h.1, _, h.2, rfl⟩

theorem Honest.of_kept (h : Honest expiryOf w) (hclock : w'.clock = w.clock)
    (hgranted : w'.granted = w.granted)
    (hspent : Spent expiryOf (Live expiryOf w) w'.peers) (hlogged : Logged (Admitted expiryOf w) w'.peers) :
    Honest expiryOf w' := by
  refine ⟨hspent.mono fun nonce hn => ?_, hlogged.mono fun nonce operatorId hn => ?_, ?_⟩
  · rw [Live, hclock, hgranted] at hn
    exact hn
  · rw [Admitted, hclock, hgranted] at hn
    exact hn
  · rw [hgranted]
    exact h.single

variable {peer : PeerDescriptor} {invite : JoinInvite} {faults : List (Fault Bool)}

theorem Honest.granted (h : Honest expiryOf w) {s : Peers}
    (hspent : Spent expiryOf (Plus (Live expiryOf w) invite.nonceHex) s)
    (hlogged : Logged (Also (Admitted expiryOf w) invite.nonceHex peer.operatorId) s)
    (hone : ∀ g ∈ w.granted, g.nonceHex = invite.nonceHex → g.operatorId = peer.operatorId) :
    Honest expiryOf { w with peers := s, granted := w.granted ++ [⟨invite.nonceHex, peer.operatorId⟩] } := by
  refine ⟨hspent.mono ?_, hlogged.mono ?_, ?_⟩
  · rintro nonce ⟨hclock, g, hg, rfl⟩
    rcases List.mem_append.mp hg with hold | hnew
    · exact .inl ⟨hclock, g, hold, rfl⟩
    · rw [List.mem_singleton.mp hnew]
      exact .inr rfl
  · rintro nonce operatorId ⟨hclock, hg⟩
    rcases List.mem_append.mp hg with hold | hnew
    · exact .inl ⟨hclock, hold⟩
    · cases List.mem_singleton.mp hnew
      exact .inr ⟨rfl, rfl⟩
  · intro g hg g' hg' hn
    rcases List.mem_append.mp hg with hold | hnew <;> rcases List.mem_append.mp hg' with hold' | hnew'
    · exact h.single g hold g' hold' hn
    · rw [List.mem_singleton.mp hnew'] at hn ⊢
      exact hone g hold hn
    · rw [List.mem_singleton.mp hnew] at hn ⊢
      exact (hone g' hold' hn.symm).symm
    · rw [List.mem_singleton.mp hnew, List.mem_singleton.mp hnew']

/-- A join with a nonce that admits no operator id for now. -/
theorem Honest.join_first (h : Honest expiryOf w) (hcareful : Careful expiryOf w peer invite faults)
    (hlive : ¬ Live expiryOf w invite.nonceHex) :
    Honest expiryOf (step E env w (.call (.joinWithInvite peer invite) faults)) := by
  have hl : ∀ nonce, Live expiryOf w nonce → w.clock < expiryOf nonce := fun _ hn => hn.1
  have hspent := joinWithInvite_spent E env peer hl hcareful.ticket hlive
  have hone : ∀ operatorId, Admitted expiryOf w invite.nonceHex operatorId → operatorId = peer.operatorId :=
    fun _ hid => absurd hid.live hlive
  have hlogged := joinWithInvite_logged E env w.clock hone
  have hboth := hspent.and hlogged
  rcases step_call (.joinWithInvite peer invite) faults (ends_discard hboth) ⟨h.spent, h.logged⟩ with
    ⟨s, ⟨⟨⟨signers, hc⟩, hs⟩, hlog⟩, _, heq⟩ | ⟨s, hs, heq⟩ | ⟨s, hs, heq⟩
  · rw [heq]
    refine h.granted hs hlog fun g hg hn => absurd ⟨?_, g, hg, hn⟩ hlive
    have hle := checkJoin_unexpired hc
    have hne := hcareful.instant
    rw [← hcareful.ticket]
    omega
  · rw [heq]
    exact h.of_kept rfl rfl hs.1 hs.2
  · rw [heq]
    exact h.of_kept rfl rfl (hs.1.loaded hl) hs.2.loaded

/-- What a call leaves of the invariant in the state. -/
def Honest.Kept (expiryOf : Text → Nat) (w : World) (s : Peers) : Prop :=
  Spent expiryOf (Live expiryOf w) s ∧ Logged (Admitted expiryOf w) s

theorem Honest.prune {s : Peers} (hkept : Honest.Kept expiryOf w s) :
    Honest.Kept expiryOf w (s.onSpent (Dict.retain fun _ expiry => w.clock < expiry)) :=
  ⟨hkept.1.prune fun _ hn => hn.1, logged_freeOfSpent s _ s.disk.spent hkept.2⟩

/-- A join with a nonce that has admitted an operator id, by one without a membership record. -/
theorem Honest.join_stranger (h : Honest expiryOf w) (hlive : Live expiryOf w invite.nonceHex)
    (hrec : w.peers.memory.membership.lookup peer.operatorId = none) :
    Honest expiryOf (step E env w (.call (.joinWithInvite peer invite) faults)) := by
  have hrefused := joinWithInvite_refused E env peer invite (Honest.Kept expiryOf w) hlive.1
    fun s => Honest.prune
  rcases step_call (.joinWithInvite peer invite) faults (ends_discard hrefused)
    ⟨⟨h.spent, h.logged⟩, h.spent.held _ hlive, hrec⟩ with
    ⟨s, hs, _, _⟩ | ⟨s, hs, heq⟩ | ⟨s, hs, heq⟩
  · exact hs.elim
  · rw [heq]
    exact h.of_kept rfl rfl hs.1 hs.2
  · rw [heq]
    exact h.of_kept rfl rfl (hs.1.filed.loaded fun _ hn => hn.1) hs.2.loaded

theorem Honest.joinWithInvite_meets (E : Externals) (env : Env) (h : Honest expiryOf w)
    (hlive : Live expiryOf w invite.nonceHex)
    (hrec : (w.peers.memory.membership.lookup peer.operatorId).isSome = true) (hcalm : Calm faults)
    (hroom : Room w.clock peer.operatorId w.peers = true)
    (hone : ∀ operatorId, Admitted expiryOf w invite.nonceHex operatorId → operatorId = peer.operatorId) :
    Ending.Meets (fun _ s => Spent expiryOf (Live expiryOf w) s ∧
        Logged (Also (Admitted expiryOf w) invite.nonceHex peer.operatorId) s)
      (fun s => Spent expiryOf (Live expiryOf w) s ∧ Logged (Admitted expiryOf w) s)
      (fun s => Spent expiryOf (Live expiryOf w) s ∧ Logged (Admitted expiryOf w) s)
      (Call.run E env w.clock (.joinWithInvite peer invite) faults w.peers) := by
  rw [Call.run, discard, joinWithInvite]
  cases checkJoin E env w.clock peer invite with
  | error e => exact ⟨h.spent, h.logged⟩
  | ok signers =>
    have hprune : ∀ s, Honest.Kept expiryOf w s ∧ Room w.clock peer.operatorId s = true →
        Honest.Kept expiryOf w (s.onSpent (Dict.retain fun _ expiry => w.clock < expiry)) ∧
          Room w.clock peer.operatorId (s.onSpent (Dict.retain fun _ expiry => w.clock < expiry)) = true :=
      fun s hs => ⟨Honest.prune hs.1, hs.2⟩
    have hspend := spendInvite_steady env invite.nonceHex invite.expiresUtc peer.operatorId hlive.1 hprune
    have hjoin := steady_discard
      ((hspend.mono (fun _ hs => hs) (fun _ _ hs => hs) fun _ hs => hs.1).bind fun _ =>
      admitPeer_steady env signers hone)
    have hend := hjoin faults w.peers hcalm ⟨⟨⟨h.spent, h.logged⟩, hroom⟩, h.spent.held _ hlive, hrec⟩
    exact Ending.meets_mono hend.1 (fun _ _ hs => hs) nofun fun _ hs => hs

/-- A join with a nonce that has admitted an operator id, by one with a membership record. -/
theorem Honest.join_again (h : Honest expiryOf w) (hcareful : Careful expiryOf w peer invite faults)
    (hlive : Live expiryOf w invite.nonceHex)
    (hrec : (w.peers.memory.membership.lookup peer.operatorId).isSome = true) :
    Honest expiryOf (step E env w (.call (.joinWithInvite peer invite) faults)) := by
  have hrejoin : Rejoins w peer invite = true := by
    rw [Rejoins, h.spent.held _ hlive, hrec, Bool.and_true]
    exact decide_eq_true hlive.1
  obtain ⟨hcalm, hroom⟩ := hcareful.unfailing hrejoin
  have hone : ∀ operatorId, Admitted expiryOf w invite.nonceHex operatorId → operatorId = peer.operatorId :=
    fun operatorId hid => hcareful.rejoin hrejoin operatorId (h.logged.memory _ _ hid)
  rcases step_of_meets (Honest.joinWithInvite_meets E env h hlive hrec hcalm hroom hone) with
    ⟨s, hs, _, heq⟩ | ⟨s, hs, heq⟩ | ⟨s, hs, heq⟩
  · rw [heq]
    refine h.granted (hs.1.mono ?_) hs.2 fun g hg hn => hone g.operatorId ⟨hlive.1, ?_⟩
    · rintro nonce (hn | rfl)
      · exact hn
      · exact hlive
    · rw [← hn]
      exact hg
  · rw [heq]
    exact h.of_kept rfl rfl hs.1 hs.2
  · rw [heq]
    exact h.of_kept rfl rfl (hs.1.filed.loaded fun _ hn => hn.1) hs.2.loaded

theorem Honest.join (h : Honest expiryOf w) (hcareful : Careful expiryOf w peer invite faults) :
    Honest expiryOf (step E env w (.call (.joinWithInvite peer invite) faults)) := by
  by_cases hlive : Live expiryOf w invite.nonceHex
  · cases hrec : w.peers.memory.membership.lookup peer.operatorId with
    | none => exact h.join_stranger hlive hrec
    | some record => exact h.join_again hcareful hlive (by rw [hrec]; rfl)
  · exact h.join_first hcareful hlive

theorem Honest.step {event : Event} (hevent : CarefulEvent expiryOf w event) (h : Honest expiryOf w) :
    Honest expiryOf (step E env w event) := by
  have hl : ∀ nonce, Live expiryOf w nonce → w.clock < expiryOf nonce := fun _ hn => hn.1
  cases event with
  | tick secs =>
    have hearlier : ∀ {expiry}, w.clock + secs < expiry → w.clock < expiry :=
      Nat.lt_of_le_of_lt (Nat.le_add_right _ _)
    exact ⟨h.spent.mono fun _ hn => ⟨hearlier hn.1, hn.2⟩, h.logged.mono fun _ _ hn =>
      ⟨hearlier hn.1, hn.2⟩, h.single⟩
  | restart => exact h.of_kept rfl rfl (h.spent.filed.loaded hl) h.logged.loaded
  | call call faults =>
    by_cases hjoin : ∃ peer invite, call = .joinWithInvite peer invite
    · obtain ⟨peer, invite, rfl⟩ := hjoin
      exact h.join hevent
    · have hcall : ∀ peer invite, call ≠ .joinWithInvite peer invite :=
        fun peer invite heq => hjoin ⟨peer, invite, heq⟩
      have hsp : Spent expiryOf (Live expiryOf w) (Members.step E env w (.call call faults)).peers :=
        step_keeps faults (Call.keeps_others hcall spent_freeOfRouting spent_freeOfMembership)
          (fun s hs => hs.filed.loaded hl) h.spent
      have hlog : Logged (Admitted expiryOf w) (Members.step E env w (.call call faults)).peers :=
        step_keeps faults (Call.keeps_others hcall logged_freeOfRouting logged_freeOfMembership)
          (fun s hs => hs.loaded) h.logged
      refine h.of_kept (step_call_clock call faults) (step_call_granted ?_ faults) hsp hlog
      cases call with
      | joinWithInvite peer invite => exact absurd rfl (hcall peer invite)
      | _ => rfl

theorem honest_new (clock : Nat) : Honest expiryOf (new clock) := by
  refine ⟨⟨⟨?_, ?_, ?_⟩, ?_⟩, ⟨?_, ?_⟩, ?_⟩
  · nofun
  · nofun
  · nofun
  · rintro nonce ⟨_, g, hg, _⟩
    exact absurd hg List.not_mem_nil
  · exact fun _ _ hn => absurd hn.2 List.not_mem_nil
  · exact fun _ _ hn => absurd hn.2 List.not_mem_nil
  · exact nofun

/-- In every run whose joins are careful, the operator ids that a nonce has admitted are one and the
same. -/
theorem one_operator_per_ticket (E : Externals) (env : Env) (expiryOf : Text → Nat) (clock : Nat)
    (events : List Event)
    (h : Runs.Along (step E env) (CarefulEvent expiryOf) (new clock) events) :
    ∀ g ∈ (run E env (new clock) events).granted, ∀ g' ∈ (run E env (new clock) events).granted,
      g.nonceHex = g'.nonceHex → g.operatorId = g'.operatorId :=
  (h.keeps (fun _ _ hev hw => Honest.step hev hw) (honest_new clock)).single

end

namespace Leaks

open Sample (env join grant)

/-- One nonce admits two operator ids. In the second of its expiry, a ticket is still verified and
its entry is already pruned. A failed rejoin releases the nonce of the admission. An operator id
that another ticket has admitted counts as admitted by any ticket of the same node key. -/
theorem one_ticket_two_operators :
    (run reference env (new 1000) [.tick 100, join [2#8] 7 ['a'] [], join [2#8] 7 ['b'] []]).granted =
        [grant 7 ['a'], grant 7 ['b']] ∧
      (run reference env (new 1000) [join [2#8] 7 ['a'] [], join [2#8] 7 ['a'] [.fail false],
        join [2#8] 7 ['b'] []]).granted =
        [grant 7 ['a'], grant 7 ['b']] ∧
      (run reference env (new 1000) [join [2#8] 8 ['b'] [], join [2#8] 7 ['a'] [],
        join [2#8] 7 ['b'] []]).granted =
        [grant 8 ['b'], grant 7 ['a'], grant 7 ['b']] := by
  decide +kernel

def refusals : List Event :=
  [join [2#8] 7 ['a'] [.fail true], join [2#8] 7 ['a'] [], join [2#8] 7 ['b'] [], .restart,
    join [2#8] 7 ['b'] [],
    .tick 50, join [2#8] 7 ['a'] []]

theorem careful_refusals : Runs.Along (step reference env) (CarefulEvent fun _ => 1100) (new 1000) refusals ∧
    (run reference env (new 1000) refusals).granted = [grant 7 ['a'], grant 7 ['a']] := by
  decide +kernel

theorem refusals_one_operator :
    (run reference env (new 1000) refusals).granted = [grant 7 ['a'], grant 7 ['a']] ∧
    ∀ g ∈ (run reference env (new 1000) refusals).granted,
      ∀ g' ∈ (run reference env (new 1000) refusals).granted,
        g.nonceHex = g'.nonceHex → g.operatorId = g'.operatorId :=
  ⟨careful_refusals.2, one_operator_per_ticket reference env (fun _ => 1100) 1000 refusals careful_refusals.1⟩

end Leaks

end CipherVault.Network.Members
