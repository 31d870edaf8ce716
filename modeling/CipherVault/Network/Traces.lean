import CipherVault.Network.Members

/-!
# Network.Traces

What a join by ticket leaves in memory when it returns an error. Four maps are changed one after the
other, each with its own undo. A `view` is what the maps hold, up to expired entries.
-/

namespace CipherVault.Network.Members

open Crypto Format Faulty Function Dict

section

variable {α : Type} {p : α → Bool} {d : Dict Text α} {k : Text} {old : Option α}

def entry (d : Dict Text α) (k : Text) : Option α := d.lookup k

theorem entry_restore : entry (restore k old d) = update (entry d) k old := by
  funext k'
  by_cases h : k' = k
  · subst h
    simp [entry]
  · simp [entry, lookup_restore_of_ne h, h]

def live (p : α → Bool) (d : Dict Text α) : Text → Option α := Option.filter p ∘ entry d

theorem live_restore : live p (restore k old d) = update (live p d) k (old.filter p) := by
  rw [live, entry_restore, comp_update]
  rfl

theorem live_retain : live p (retain (fun _ => p) d) = live p d := by
  funext k
  simp [live, entry, lookup_retain, Option.filter_filter]

structure View where
  routing : Text → Option PeerDescriptor
  membership : Text → Option PeerMembership
  spent : Text → Option Nat
  admissions : List AdmissionRecord

def view (now : Nat) (s : Peers) : View :=
  { routing := live (unexpired now) s.memory.routing, membership := entry s.memory.membership
    spent := live (now < ·) s.memory.spent, admissions := s.memory.admissions }

def route (id : Text) (x : Option PeerDescriptor) (v : View) : View :=
  { v with routing := update v.routing id x }

def enlist (id : Text) (x : Option PeerMembership) (v : View) : View :=
  { v with membership := update v.membership id x }

def spend (nonce : Text) (x : Option Nat) (v : View) : View := { v with spent := update v.spent nonce x }

end

variable {expiresUtc : Nat}

section

variable {env : Env} {now : Nat} {v v' : View} {peer : PeerDescriptor} {id nonce : Text} {s : Peers}
  {D F : View → Prop} {write : Stores → Stores → Stores} {g : Peers → Peers} {c : View → View} {α : Type}
  {f : Unit → Action α}

theorem view_route (old : Option PeerDescriptor) :
    view now (s.onRouting (restore id old)) = route id (old.filter (unexpired now)) (view now s) := by
  rw [view, Peers.onRouting, live_restore]
  rfl

theorem view_enlist (old : Option PeerMembership) :
    view now (s.onMembership (restore id old)) = enlist id old (view now s) := by
  rw [view, Peers.onMembership, entry_restore]
  rfl

theorem view_spend (old : Option Nat) :
    view now (s.onSpent (restore nonce old)) = spend nonce (old.filter (now < ·)) (view now s) := by
  rw [view, Peers.onSpent, live_restore]
  rfl

theorem keeps_view : Keeps (fun s => view now s = v) (persist env write) := keeps_persist fun _ h => h

theorem moves_put (hg : ∀ s, view now (g s) = c (view now s)) (h : Moves (view now) (c v) (f ()) D F) :
    Moves (view now) v (update g >>= f) D F := by
  refine moves_update fun s hs => ?_
  rw [hg, hs]
  exact h

theorem moves_undo (hg : ∀ s, view now (g s) = c (view now s)) (h : Moves (view now) (c v) (f ()) D F) :
    Moves (view now) v ((do update g; bestEffort (persist env write)) >>= f) D F := by
  refine Moves.bind (B := (· = c v)) ?_ fun _ v' hv => hv ▸ h
  exact moves_put hg ((keeps_view.ends fun _ _ => trivial).rescue fun _ => ends_pure fun _ h => h)

theorem moves_pruned {β : Type} {get : Peers → β} {f : β → Action α} {P : β → Prop}
    (hg : ∀ s, view now (g s) = view now s) (hget : ∀ s, view now s = v → P (get (g s)))
    (hf : ∀ b, P b → Moves (view now) v (f b) D F) :
    Moves (view now) v (update g >>= fun _ => look get >>= f) D F :=
  fun faults s hs => hf _ (hget s hs) faults (g s) ((hg s).trans hs)

theorem moves_insertPeer :
    Moves (view now) v (insertPeer env now peer) (fun v' => ∃ x, v' = route peer.operatorId x v) (· = v) := by
  refine moves_pruned (P := fun table => (table.lookup peer.operatorId).filter (unexpired now) =
    v.routing peer.operatorId)
    (fun s => ?_) ?_ fun table hold => ?_
  · rw [view, Peers.onRouting, live_retain]
    rfl
  · rintro s rfl
    exact congrFun live_retain peer.operatorId
  refine Moves.bind (B := (· = v)) (ends_check (fun _ h _ => h) fun _ h => h) ?_
  rintro _ _ rfl
  refine moves_put (fun s => view_route (some peer))
    (Moves.bind (moves_saved keeps_view ⟨_, rfl⟩ fun s hs => ?_)
    fun _ _ h => ends_look_self.mono (fun _ h => h) (fun _ _ hs => hs ▸ h) (fun _ h => h) fun _ h => h)
  rw [view_route, hs, hold]
  simp [route]

theorem moves_markProbationMember :
    Moves (view now) v (markProbationMember env id now) (fun v' => ∃ x, v' = enlist id x v) (· = v) := by
  refine moves_look (P := (· = v.membership id)) (fun s hs => hs ▸ rfl) fun old hold => ?_
  refine moves_put (fun s => view_enlist (some _)) (moves_saved keeps_view ⟨_, rfl⟩ fun s hs => ?_)
  rw [view_enlist, hs, hold]
  simp [enlist]

theorem spend_none (h : v.spent nonce = none) : spend nonce none v = v := by
  rw [spend, ← h, update_eq_self]

/-- A ticket that is spent already is good only for an operator that has a record. -/
theorem moves_spendInvite (h : v.spent nonce = none ∨ v.membership id = none) :
    Moves (view now) v (spendInvite env nonce expiresUtc id now)
      (fun v' => v.spent nonce = none ∧ ∃ x, v' = spend nonce x v) (· = v) := by
  refine moves_look (P := (· = (v.membership id).isSome)) (fun s hs => hs ▸ rfl) fun admitted hadm => ?_
  refine moves_pruned (P := fun spent => spent.lookup nonce = v.spent nonce) (fun s => ?_) ?_
    fun spent hsp => ?_
  · rw [view, Peers.onSpent, live_retain]
    rfl
  · rintro s rfl
    exact lookup_retain _ _ _
  rw [hsp]
  split
  · next hso =>
    rw [hadm, h.resolve_left fun hn => by simp [hn] at hso]
    exact moves_fail rfl
  · next hn =>
    have hn := Option.not_isSome_iff_eq_none.mp hn
    refine moves_put (fun s => view_spend (some expiresUtc))
      (moves_saved keeps_view ⟨hn, _, rfl⟩ fun s hs => ?_)
    refine ((view_spend none).trans (congrArg _ hs)).trans ?_
    simpa [spend] using spend_none hn

theorem moves_unspendInvite (h : Moves (view now) (spend nonce none v) (f ()) D F) :
    Moves (view now) v (unspendInvite env nonce >>= f) D F := by
  refine Moves.bind (B := (· = spend nonce none v)) ?_ fun _ v' hv => hv ▸ h
  refine moves_look (P := fun spent => (spent.lookup nonce).filter (now < ·) = v.spent nonce)
    (fun s hs => hs ▸ rfl) fun spent hsp => ?_
  split
  · exact moves_put (fun s => view_spend none) ((keeps_view.ends fun _ _ => trivial).rescue fun _ =>
      ends_pure fun _ h => h)
  · next hn =>
    rw [Option.not_isSome_iff_eq_none.mp hn] at hsp
    exact moves_pure (spend_none hsp.symm).symm

theorem moves_logAdmission {record : AdmissionRecord} :
    Moves (view now) v (logAdmission env record) (fun _ => True) (· = v) := by
  refine moves_put (c := fun v => { v with admissions := v.admissions ++ [record] }) (fun _ => rfl)
    (moves_saved keeps_view trivial fun s hs => ?_)
  refine (congrArg (fun v : View => { v with admissions := v.admissions.dropLast }) hs).trans ?_
  simp

theorem moves_admitPeer {x : Option Nat} {invite : JoinInvite} {signers : List Text}
    (hnone : v.spent invite.nonceHex = none) : Moves (view now) (spend invite.nonceHex x v)
      (admitPeer env now peer invite signers) (fun _ => True) (· = v) := by
  have hs : update v.spent invite.nonceHex none = v.spent := update_eq_self_iff.mpr hnone.symm
  refine moves_look (P := fun old => old.filter (unexpired now) = v.routing peer.operatorId)
    (fun s h => congrFun (congrArg View.routing h) peer.operatorId) fun old hold => ?_
  refine moves_look (P := (· = v.membership peer.operatorId))
    (fun s h => congrFun (congrArg View.membership h) peer.operatorId) fun was hwas => ?_
  refine Moves.bind (moves_insertPeer.rescue ?_) ?_
  · rintro _ _ rfl
    exact moves_unspendInvite (moves_fail (by simp [spend, hs]))
  rintro _ _ ⟨y, rfl⟩
  refine Moves.bind (moves_markProbationMember.rescue ?_) ?_
  · rintro _ _ rfl
    exact moves_undo (fun s => view_route old)
      (moves_unspendInvite (moves_fail (by simp [spend, route, hs, hold])))
  rintro _ _ ⟨z, rfl⟩
  refine Moves.bind (moves_logAdmission.rescue ?_) fun _ _ _ => moves_pure trivial
  rintro _ _ rfl
  exact moves_undo (fun s => view_route old) (moves_undo (fun s => view_enlist was)
    (moves_unspendInvite (moves_fail (by simp [spend, route, enlist, hs, hold, hwas]))))

end

section

variable {E : Externals} {env : Env} {now : Nat} {peer : PeerDescriptor} {invite : JoinInvite}
  {signers : List Text}
  {v : View}

theorem join_refused (hchecks : (checkJoin E env now peer invite).isOk = false) :
    Moves (view now) v (joinWithInvite E env now peer invite) (fun _ => True) (· = v) := by
  refine Moves.bind (B := fun _ => False) (ends_lift (fun _ signers _ hok => ?_) fun _ hs => hs) nofun
  rw [hok] at hchecks
  cases hchecks

theorem join_undone (h : v.spent invite.nonceHex = none ∨ v.membership peer.operatorId = none) :
    Moves (view now) v (joinWithInvite E env now peer invite) (fun _ => True) (· = v) := by
  refine Moves.bind (B := (· = v)) (ends_lift (fun _ _ hs _ => hs) fun _ hs => hs) ?_
  rintro signers _ rfl
  refine (moves_spendInvite h).bind ?_
  rintro _ _ ⟨hn, x, rfl⟩
  exact moves_admitPeer hn

/-- Whichever step fails, its undo releases the nonce. -/
theorem admitPeer_releases :
    Moves (view now) v (admitPeer env now peer invite signers) (fun _ => True) fun v' =>
      v'.spent invite.nonceHex = none := by
  have hreleased : ∀ v : View, (spend invite.nonceHex none v).spent invite.nonceHex = none := fun v =>
    update_self ..
  refine moves_look (P := fun _ => True) (fun _ _ => trivial) fun old _ => ?_
  refine moves_look (P := fun _ => True) (fun _ _ => trivial) fun was _ => ?_
  refine Moves.bind (B := fun _ => True) (Moves.rescue (G := fun _ => True) ?_ fun _ _ _ => ?_)
    fun _ _ _ => ?_
  · exact Moves.mono moves_insertPeer (fun _ _ => trivial) fun _ _ => trivial
  · exact moves_unspendInvite (moves_fail (hreleased _))
  refine Moves.bind (B := fun _ => True) (Moves.rescue (G := fun _ => True) ?_ fun _ _ _ => ?_)
    fun _ _ _ => ?_
  · exact Moves.mono moves_markProbationMember (fun _ _ => trivial) fun _ _ => trivial
  · exact moves_undo (fun s => view_route old) (moves_unspendInvite (moves_fail (hreleased _)))
  refine Moves.bind (B := fun _ => True) (moves_logAdmission.rescue fun _ _ _ => ?_) fun _ _ _ =>
    moves_pure trivial
  exact moves_undo (fun s => view_route old) (moves_undo (fun s => view_enlist was)
    (moves_unspendInvite (moves_fail (hreleased _))))

theorem spendInvite_again {nonce id : Text} (hspent : (v.spent nonce).isSome = true)
    (hmember : (v.membership id).isSome = true) :
    Moves (view now) v (spendInvite env nonce expiresUtc id now) (fun _ => True) fun _ => False := by
  refine moves_look (P := (· = (v.membership id).isSome)) (fun s hs => hs ▸ rfl) fun admitted hadm => ?_
  refine moves_pruned (P := fun spent => spent.lookup nonce = v.spent nonce) (fun s => ?_) ?_
    fun spent hsp => ?_
  · rw [view, Peers.onSpent, live_retain]
    rfl
  · rintro s rfl
    exact lookup_retain _ _ _
  rw [hsp, if_pos hspent, hadm, hmember]
  exact moves_pure trivial

theorem join_releases (hchecks : (checkJoin E env now peer invite).isOk = true)
    (hspent : (v.spent invite.nonceHex).isSome = true)
    (hmember : (v.membership peer.operatorId).isSome = true) :
    Moves (view now) v (joinWithInvite E env now peer invite) (fun _ => True) fun v' =>
      v'.spent invite.nonceHex = none := by
  cases hresult : checkJoin E env now peer invite with
  | error e =>
    rw [hresult] at hchecks
    cases hchecks
  | ok signers =>
    rw [joinWithInvite, hresult]
    refine Moves.bind (B := (· = v)) (moves_pure rfl) ?_
    rintro _ _ rfl
    refine Moves.bind (B := fun _ => True) ?_ fun _ _ _ => admitPeer_releases
    exact Moves.mono (spendInvite_again hspent hmember) (fun _ h => h) fun _ h => h.elim

end

/-- A join that returns an error leaves what was there, exactly if the checks before the ticket is
spent refuse it, its nonce is not spent, or its operator has no record. -/
theorem failed_join_traceless (E : Externals) (env : Env) (now : Nat) (peer : PeerDescriptor)
    (invite : JoinInvite)
    (s : Peers) : Ends (· = s) (joinWithInvite E env now peer invite) (fun _ _ => True)
      (fun s' => view now s' = view now s ↔ (checkJoin E env now peer invite).isOk = false ∨
        (view now s).spent invite.nonceHex = none ∨ (view now s).membership peer.operatorId = none)
      (fun _ => True) := by
  by_cases hchecks : (checkJoin E env now peer invite).isOk = false
  · exact Ends.mono (join_refused hchecks) (fun _ h => congrArg _ h) (fun _ _ h => h)
      (fun _ h => iff_of_true h (.inl hchecks)) fun _ h => h
  by_cases hfresh : (view now s).spent invite.nonceHex = none ∨ (view now s).membership peer.operatorId = none
  · exact Ends.mono (join_undone hfresh) (fun _ h => congrArg _ h) (fun _ _ h => h)
      (fun _ h => iff_of_true h (.inr hfresh)) fun _ h => h
  · have hboth := not_or.mp hfresh
    have hspent := Option.isSome_iff_ne_none.mpr hboth.1
    have hmember := Option.isSome_iff_ne_none.mpr hboth.2
    refine Ends.mono (join_releases (Bool.of_not_eq_false hchecks) hspent hmember) (fun _ h => congrArg _ h)
      (fun _ _ h => h) (fun s' hreleased => iff_of_false (fun hsame => ?_) ?_) fun _ h => h
    · exact hboth.1 (hsame ▸ hreleased)
    · exact not_or.mpr ⟨hchecks, hfresh⟩

namespace Traces

open Sample

/-- A rejoin whose write fails releases the ticket of the first join. -/
theorem rejoin_releases_ticket :
    (run reference env (World.new 1000) [join [2#8] 7 ['a'] []]).peers.memory.spent.lookup
        (ticket [2#8] 7).nonceHex = some 1100 ∧
      (run reference env (World.new 1000)
        [join [2#8] 7 ['a'] [], join [2#8] 7 ['a'] [.fail false]]).peers.memory.spent.lookup
        (ticket [2#8] 7).nonceHex = none := by
  decide +kernel

end Traces

end CipherVault.Network.Members
