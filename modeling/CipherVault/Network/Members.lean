import CipherVault.Base.Dict
import CipherVault.Base.Runs
import CipherVault.Base.Service
import CipherVault.Network.Invites

/-!
# Network.Members

The peers of an operator, from `services/operator/src/state.rs`: routing table, membership records,
spent join tickets and admission log, each in memory and in a file. A call is a program of the
`Faulty` monad, whose writes can fail or be the last thing that the process does. It reads the clock
once.
-/

namespace CipherVault.Network.Members

open Crypto Format Dict AList

structure PeerDescriptor where
  (operatorId endpoint signingPkHex : Text)
  timestampUtc : Nat
  signatureHex : Text

def peerContext : Bytes := ascii "operator_peer_gossip"

def trimEndMatches (c : Char) (text : Text) : Text := (text.reverse.dropWhile (· == c)).reverse

def PeerDescriptor.signingBytes (peer : PeerDescriptor) : Bytes :=
  utf8 peer.operatorId ++ ascii ":" ++ utf8 (trimEndMatches '/' peer.endpoint) ++ ascii ":" ++
    utf8 peer.signingPkHex ++
    ascii ":" ++ leBytes 8 peer.timestampUtc

variable (E : Externals)

def PeerDescriptor.new (operatorId endpoint : Text) (signingKey : Bytes) (now : Nat) : PeerDescriptor :=
  let desc : PeerDescriptor :=
    { operatorId := operatorId, endpoint := endpoint, signingPkHex := Hex.encode (E.ed25519Public signingKey)
      timestampUtc := now, signatureHex := [] }
  { desc with signatureHex := Hex.encode (signWithDomain E signingKey peerContext desc.signingBytes) }

def badPeer (message : String) : StorageError := { status := 400, message := message }

def PeerDescriptor.verify (peer : PeerDescriptor) : Except StorageError Unit :=
  match Hex.decode peer.signingPkHex with
  | none => .error (badPeer "Invalid peer signing_pk_hex")
  | some pk =>
    if pk.length ≠ 32 then .error (badPeer "Peer signing_pk must be 32 bytes")
    else match Hex.decode peer.signatureHex with
      | none => .error (badPeer "Invalid peer signature_hex")
      | some signature =>
        if signature.length ≠ 64 then .error (badPeer "Peer signature must be 64 bytes")
        else (verifyWithDomain E pk peerContext peer.signingBytes signature).mapError fun _ =>
          badPeer ("Cryptographic peer announcement signature invalid: " ++
            "Cryptographic signature verification failed")

def maxActivePeers : Nat := 128

def maxPeerAnnounceAgeSecs : Nat := 86400

def maxPeerAnnounceSkewSecs : Nat := 3600

def unexpired (now : Nat) (peer : PeerDescriptor) : Bool := now - peer.timestampUtc < 86400

def validatePeerDescriptor (now : Nat) (peer : PeerDescriptor) : Except String Unit := do
  (peer.verify E).mapError fun e => "Invalid peer signature: " ++ e.display
  if peer.timestampUtc > now + maxPeerAnnounceSkewSecs then
    .error "Peer announcement timestamp is too far in the future"
  else if now - peer.timestampUtc ≥ maxPeerAnnounceAgeSecs then .error "Peer announcement is stale"
  else
    let endpoint := trim peer.endpoint
    if !("https://".toList.isPrefixOf endpoint || "http://".toList.isPrefixOf endpoint) ||
      endpoint.contains '@' ||
        (utf8 endpoint).any (fun byte => byte.toNat < 0x20) then
      .error "Peer endpoint must be an absolute HTTP(S) URL without credentials"
    else .ok ()

inductive MembershipStatus where
  | probation
  | full
deriving DecidableEq

structure PeerMembership where
  status : MembershipStatus
  (joinedUtc lastSeenUtc : Nat)
  graduatedUtc : Option Nat

structure AdmissionRecord where
  admittedUtc : Nat
  (nodePkHex operatorId nonceHex : Text)
  (expiresUtc ticketVersion : Nat)
  signerPks : List Text

/-- What an operator keeps of its peers: one field for each file. -/
structure Stores where
  routing : Dict Text PeerDescriptor
  membership : Dict Text PeerMembership
  spent : Dict Text Nat
  admissions : List AdmissionRecord

/-- In memory and on disk. -/
structure Peers where
  (memory disk : Stores)

def Stores.empty : Stores := { routing := ∅, membership := ∅, spent := ∅, admissions := [] }

namespace Peers

def onRouting (f : Dict Text PeerDescriptor → Dict Text PeerDescriptor) (s : Peers) : Peers :=
  { s with memory := { s.memory with routing := f s.memory.routing } }

def onMembership (f : Dict Text PeerMembership → Dict Text PeerMembership) (s : Peers) : Peers :=
  { s with memory := { s.memory with membership := f s.memory.membership } }

def onSpent (f : Dict Text Nat → Dict Text Nat) (s : Peers) : Peers :=
  { s with memory := { s.memory with spent := f s.memory.spent } }

def onAdmissions (f : List AdmissionRecord → List AdmissionRecord) (s : Peers) : Peers :=
  { s with memory := { s.memory with admissions := f s.memory.admissions } }

end Peers

/-- The settings that a join reads. -/
structure Env where
  (trustedPeerKeys fleetKeys quorumK fleetKey : Option Text)
  (minProbationSecs joinLivenessGraceSecs : Nat)
  ioError : String

abbrev Action (α : Type) := Faulty Bool Peers String α

open Faulty (fail look update check lift)

section

variable (env : Env)

/-- `persist_atomic` of one of the stores: `write` puts its content in memory over the file. -/
def persist (write : Stores → Stores → Stores) : Action Unit :=
  Faulty.step (fun s => .ok ((), { s with disk := write s.memory s.disk }))
    (fun replaced s => if replaced then { s with disk := write s.memory s.disk } else s) env.ioError

def persistPeerRoutingTable : Action Unit :=
  persist env fun memory disk => { disk with routing := memory.routing }

def persistPeerMembership : Action Unit :=
  persist env fun memory disk => { disk with membership := memory.membership }

def persistSpentInvites : Action Unit :=
  persist env fun memory disk => { disk with spent := memory.spent }

def persistAdmissions : Action Unit :=
  persist env fun memory disk => { disk with admissions := memory.admissions }

def bestEffort (x : Action Unit) : Action Unit := x.rescue fun _ => pure ()

def load (now : Nat) (s : Peers) : Peers :=
  { memory :=
      { routing := retain (fun operatorId peer => peer.operatorId == operatorId && (peer.verify E).isOk &&
          unexpired now peer) s.disk.routing
        membership := retain (fun _ record => record.joinedUtc ≤ record.lastSeenUtc) s.disk.membership
        spent := retain (fun _ expiresUtc => now < expiresUtc) s.disk.spent
        admissions := s.disk.admissions }
    disk := s.disk }

def insertPeer (now : Nat) (peer : PeerDescriptor) : Action Nat := do
  update (Peers.onRouting (retain fun _ p => unexpired now p))
  let table ← look fun s => s.memory.routing
  check ((table.lookup peer.operatorId).isSome || size table < maxActivePeers)
    "Peer routing table capacity reached"
  update (Peers.onRouting (insert peer.operatorId peer))
  (persistPeerRoutingTable env).rescue fun error => do
    update (Peers.onRouting (restore peer.operatorId (table.lookup peer.operatorId)))
    fail ("Unable to persist peer routing table: " ++ error)
  look fun s => size s.memory.routing

variable (operatorId : Text)

def rollbackPeerInsert (previous : Option PeerDescriptor) : Action Unit := do
  update (Peers.onRouting (restore operatorId previous))
  bestEffort (persistPeerRoutingTable env)

def getActivePeers (now : Nat) : Action (List PeerDescriptor) := do
  update (Peers.onRouting (retain fun _ peer => unexpired now peer))
  look fun s => s.memory.routing.entries.map Sigma.snd

/-- Write a record, and put the previous one back if it cannot be persisted. -/
def updateMembership (previous : Option PeerMembership) (updated : PeerMembership) : Action Unit := do
  update (Peers.onMembership (insert operatorId updated))
  (persistPeerMembership env).rescue fun error => do
    update (Peers.onMembership (restore operatorId previous))
    fail ("Unable to persist peer membership: " ++ error)

def markProbationMember (now : Nat) : Action Unit := do
  let previous ← look fun s => s.memory.membership.lookup operatorId
  updateMembership env operatorId previous (match previous with
    | some record => { record with lastSeenUtc := now }
    | none => { status := .probation, joinedUtc := now, lastSeenUtc := now, graduatedUtc := none })

def markFullMember (now : Nat) (operatorId : Text) : Action Bool := do
  let previous ← look fun s => s.memory.membership.lookup operatorId
  updateMembership env operatorId previous
    { status := .full, joinedUtc := (previous.map PeerMembership.joinedUtc).getD now, lastSeenUtc := now
      graduatedUtc := some now }
  return !previous.any fun record => record.status == .full

def noteLife (now : Nat) (record : PeerMembership) : PeerMembership :=
  if record.status = .probation ∧ now - record.joinedUtc ≥ env.minProbationSecs then
    { record with lastSeenUtc := now, status := .full, graduatedUtc := some now }
  else { record with lastSeenUtc := now }

def notePeerLiveness (now : Nat) : Action MembershipStatus := do
  let previous ← look fun s => s.memory.membership.lookup operatorId
  match previous with
  | none => return .full
  | some record => do
    updateMembership env operatorId (some record) (noteLife env now record)
    return (noteLife env now record).status

def revert (record : PeerMembership) : PeerMembership :=
  { record with status := .probation, graduatedUtc := none }

def notePeerHeartbeat (now : Nat) (operatorId : Text) : Action Unit := do
  let previous ← look fun s => s.memory.membership.lookup operatorId
  match previous with
  | none => return ()
  | some record => do
    update (Peers.onMembership (insert operatorId (noteLife env now record)))
    if record.status = .probation ∧ (noteLife env now record).status = .full then
      (persistPeerMembership env).rescue fun _ =>
        update (Peers.onMembership (insert operatorId (revert (noteLife env now record))))
    else return ()

/-- Makes a known peer a full member. -/
def graduatePeer (now : Nat) (operatorId : Text) : Action Bool := do
  let known ← look fun s =>
    (s.memory.routing.lookup operatorId).isSome || (s.memory.membership.lookup operatorId).isSome
  if known then do
    let _ ← markFullMember env now operatorId
    return true
  else return false

def isProbationary (s : Peers) (operatorId : Text) : Bool :=
  (s.memory.membership.lookup operatorId).any fun record => record.status == .probation

structure MembershipView where
  (operatorId endpoint signingPkHex : Text)
  status : MembershipStatus
  (joinedUtc lastSeenUtc graduatedUtc : Option Nat)

def serves (now : Nat) (record : PeerMembership) : Bool :=
  record.status == .probation && decide (now - record.joinedUtc ≥ env.minProbationSecs) &&
    decide (now - record.lastSeenUtc ≤ env.joinLivenessGraceSecs)

def graduateServed (now : Nat) (record : PeerMembership) : PeerMembership :=
  if serves env now record then { record with status := .full, graduatedUtc := some now } else record

def textLe (a b : Text) : Bool := !decide ((utf8 b).map BitVec.toNat < (utf8 a).map BitVec.toNat)

def membershipView (membership : Dict Text PeerMembership) (peer : PeerDescriptor) : MembershipView :=
  let record := membership.lookup peer.operatorId
  { operatorId := peer.operatorId, endpoint := peer.endpoint, signingPkHex := peer.signingPkHex
    status := (record.map PeerMembership.status).getD .full, joinedUtc := record.map PeerMembership.joinedUtc
    lastSeenUtc := record.map PeerMembership.lastSeenUtc,
    graduatedUtc := record.bind PeerMembership.graduatedUtc }

def graduateAll (now : Nat) : Action Unit := do
  let before ← look fun s => s.memory.membership
  update (Peers.onMembership (map fun _ => graduateServed env now))
  if before.entries.any fun e => serves env now e.2 then
    (persistPeerMembership env).rescue fun _ => update (Peers.onMembership (map fun operatorId record =>
      if (before.lookup operatorId).any (serves env now) then revert record else record))
  else return ()

def membershipSnapshot (now : Nat) : Action (List MembershipView) := do
  graduateAll env now
  let peers ← getActivePeers now
  let membership ← look fun s => s.memory.membership
  return (peers.map (membershipView membership)).mergeSort fun a b => textLe a.operatorId b.operatorId

def restoreMembership (previous : Option PeerMembership) : Action Unit := do
  update (Peers.onMembership (restore operatorId previous))
  bestEffort (persistPeerMembership env)

inductive JoinAuth where
  | legacy (key : Text)
  | quorum (set : List Text) (threshold : Nat)

def envText (value : Option Text) : Option Text := (value.map trim).filter (· ≠ [])

def parseUsize (text : Text) : Option Nat :=
  let digits := if text.head? = some '+' then text.tail else text
  if digits = [] ∨ !digits.all Char.isDigit then none
  else
    let value := digits.foldl (fun n c => 10 * n + (c.toNat - 48)) 0
    if value < 2 ^ 64 then some value else none

def joinAuthConfig : Except String JoinAuth :=
  let closed := "Verified join is not configured on this node"
  match envText env.fleetKeys with
  | some list =>
    let set := ((list.splitOn ',').map trim).filter (· ≠ [])
    if set = [] then .error closed
    else match envText env.quorumK with
      | none => .ok (.quorum set (quorumDefault set.length))
      | some text => match parseUsize text with
        | some value => if 1 ≤ value ∧ value ≤ set.length then .ok (.quorum set value) else .error closed
        | none => .error closed
  | none => match envText env.fleetKey with
    | some key => .ok (.legacy key)
    | none => .error closed

def verifyInvite (auth : JoinAuth) (invite : JoinInvite) (now : Nat) : Except String (List Text) :=
  match auth with
  | .legacy key => ((invite.verify E key now).mapError StorageError.display).map fun _ => [invite.issuerPkHex]
  | .quorum set threshold => (invite.verifyQuorum E set threshold now).mapError StorageError.display

/-- Prunes the ledger, then spends the nonce, or lets a member come back. -/
def spendInvite (nonceHex : Text) (expiresUtc : Nat) (operatorId : Text) (now : Nat) : Action Unit := do
  let admitted ← look fun s => (s.memory.membership.lookup operatorId).isSome
  update (Peers.onSpent (retain fun _ expiry => now < expiry))
  let spent ← look fun s => s.memory.spent
  if (spent.lookup nonceHex).isSome then check admitted "Join invite was already spent"
  else do
    update (Peers.onSpent (insert nonceHex expiresUtc))
    (persistSpentInvites env).rescue fun error => do
      update (Peers.onSpent (erase nonceHex))
      fail ("Unable to persist spent invites: " ++ error)

def unspendInvite (nonceHex : Text) : Action Unit := do
  let spent ← look fun s => s.memory.spent
  if (spent.lookup nonceHex).isSome then do
    update (Peers.onSpent (erase nonceHex))
    bestEffort (persistSpentInvites env)
  else return ()

def logAdmission (record : AdmissionRecord) : Action Unit := do
  update (Peers.onAdmissions (· ++ [record]))
  (persistAdmissions env).rescue fun error => do
    update (Peers.onAdmissions List.dropLast)
    fail ("Unable to persist admission log: " ++ error)

/-- The writes of a join, with what is undone when one fails. -/
def admitPeer (now : Nat) (peer : PeerDescriptor) (invite : JoinInvite) (signers : List Text) :
    Action Nat := do
  let previousPeer ← look fun s => s.memory.routing.lookup peer.operatorId
  let previousMembership ← look fun s => s.memory.membership.lookup peer.operatorId
  let count ← (insertPeer env now peer).rescue fun error => do
    unspendInvite env invite.nonceHex
    fail error
  (markProbationMember env peer.operatorId now).rescue fun error => do
    rollbackPeerInsert env peer.operatorId previousPeer
    unspendInvite env invite.nonceHex
    fail error
  (logAdmission env
    { admittedUtc := now, nodePkHex := invite.nodePkHex, operatorId := peer.operatorId,
      nonceHex := invite.nonceHex
      expiresUtc := invite.expiresUtc, ticketVersion := invite.version,
      signerPks := signers }).rescue fun error => do
    rollbackPeerInsert env peer.operatorId previousPeer
    restoreMembership env peer.operatorId previousMembership
    unspendInvite env invite.nonceHex
    fail error
  return count

def checkJoin (E : Externals) (env : Env) (now : Nat) (peer : PeerDescriptor) (invite : JoinInvite) :
    Except String (List Text) := do
  let auth ← joinAuthConfig env
  let signers ← verifyInvite E auth invite now
  if !eqIgnoreAsciiCase peer.signingPkHex invite.nodePkHex then
    .error "Invite node key does not match the announced descriptor"
  else do
    validatePeerDescriptor E now peer
    return signers

/-- `join_with_invite`. -/
def joinWithInvite (E : Externals) (env : Env) (now : Nat) (peer : PeerDescriptor) (invite : JoinInvite) :
    Action Nat := do
  let signers ← lift (checkJoin E env now peer invite)
  spendInvite env invite.nonceHex invite.expiresUtc peer.operatorId now
  admitPeer env now peer invite signers

def refreshPeerJoin (E : Externals) (env : Env) (now : Nat) (peer : PeerDescriptor) :
    Action MembershipStatus := do
  lift (validatePeerDescriptor E now peer)
  let stored ← look fun s => s.memory.routing.lookup peer.operatorId
  check (stored.any fun entry => eqIgnoreAsciiCase entry.signingPkHex peer.signingPkHex)
    "Unknown joiner: no routing entry for this operator id and key"
  let _ ← insertPeer env now peer
  notePeerLiveness env peer.operatorId now

def trustedKey (peer : PeerDescriptor) : Bool :=
  match env.trustedPeerKeys with
  | none => true
  | some allowed =>
    (((allowed.splitOn ',').map fun value => Hex.lower (trim value)).filter (· ≠ [])).any
      (· == Hex.lower peer.signingPkHex)

end

def registerPeer (env : Env) (now : Nat) (peer : PeerDescriptor) : Action Nat := do
  lift (validatePeerDescriptor E now peer)
  check (trustedKey env peer) "Peer signing key is not in the configured trust registry"
  let previousPeer ← look fun s => s.memory.routing.lookup peer.operatorId
  let count ← insertPeer env now peer
  let _ ← (markFullMember env now peer.operatorId).rescue fun error => do
    rollbackPeerInsert env peer.operatorId previousPeer
    fail error
  return count

inductive Call where
  | joinWithInvite (peer : PeerDescriptor) (invite : JoinInvite)
  | refreshPeerJoin (peer : PeerDescriptor)
  | registerPeer (peer : PeerDescriptor)
  | notePeerHeartbeat (operatorId : Text)
  | graduatePeer (operatorId : Text)
  | membershipSnapshot
  | getActivePeers

def discard {α : Type} (x : Action α) : Action Unit := do
  let _ ← x
  return ()

def Call.run (env : Env) (now : Nat) : Call → Action Unit
  | .joinWithInvite peer invite => discard (Members.joinWithInvite E env now peer invite)
  | .refreshPeerJoin peer => discard (Members.refreshPeerJoin E env now peer)
  | .registerPeer peer => discard (Members.registerPeer E env now peer)
  | .notePeerHeartbeat operatorId => Members.notePeerHeartbeat env now operatorId
  | .graduatePeer operatorId => discard (Members.graduatePeer env now operatorId)
  | .membershipSnapshot => discard (Members.membershipSnapshot env now)
  | .getActivePeers => discard (Members.getActivePeers now)

structure Grant where
  (nonceHex operatorId : Text)
deriving DecidableEq

def Call.grants : Call → List Grant
  | .joinWithInvite peer invite => [⟨invite.nonceHex, peer.operatorId⟩]
  | _ => []

/-- `granted` are the admissions, for the record. -/
structure World where
  clock : Nat
  peers : Peers
  granted : List Grant

inductive Event where
  | tick (secs : Nat)
  | restart
  | call (call : Call) (faults : List (Fault Bool))

def step (env : Env) (w : World) : Event → World
  | .tick secs => { w with clock := w.clock + secs }
  | .restart => { w with peers := load E w.clock w.peers }
  | .call call faults =>
    match call.run E env w.clock faults w.peers with
    | (.done _, _, peers) => { w with peers := peers, granted := w.granted ++ call.grants }
    | (.failed _, _, peers) => { w with peers := peers }
    | (.crashed, _, peers) => { w with peers := load E w.clock peers }

def run (env : Env) (w : World) (events : List Event) : World := events.foldl (step E env) w

def World.new (clock : Nat) : World := { clock := clock, peers := ⟨.empty, .empty⟩, granted := [] }

/-- The call ends without an error. -/
def Succeeds (env : Env) (w : World) (call : Call) (faults : List (Fault Bool)) : Prop :=
  (call.run E env w.clock faults w.peers).1 = .done ()

variable {call : Call}

instance {E : Externals} {env : Env} {w : World} {faults : List (Fault Bool)} :
    Decidable (Succeeds E env w call faults) :=
  inferInstanceAs (Decidable ((call.run E env w.clock faults w.peers).1 = .done ()))

section

variable {E : Externals} {env : Env} {w : World}

theorem run_append (events events' : List Event) :
    run E env w (events ++ events') = run E env (run E env w events) events' := List.foldl_append

theorem step_of_meets {faults : List (Fault Bool)} {failed crashed : Peers → Prop}
    {done : Unit → Peers → Prop}
    (hend : Faulty.Ending.Meets done failed crashed (call.run E env w.clock faults w.peers)) :
    (∃ s, done () s ∧ Succeeds E env w call faults ∧
        step E env w (.call call faults) = { w with peers := s, granted := w.granted ++ call.grants }) ∨
      (∃ s, failed s ∧ step E env w (.call call faults) = { w with peers := s }) ∨
      ∃ s, crashed s ∧ step E env w (.call call faults) = { w with peers := load E w.clock s } := by
  rw [step, Succeeds]
  generalize call.run E env w.clock faults w.peers = result at hend
  match result with
  | (.done (), _, s) => exact .inl ⟨s, hend, rfl, rfl⟩
  | (.failed _, _, s) => exact .inr (.inl ⟨s, hend, rfl⟩)
  | (.crashed, _, s) => exact .inr (.inr ⟨s, hend, rfl⟩)

theorem step_call (call : Call) (faults : List (Fault Bool)) {before failed crashed : Peers → Prop}
    {done : Unit → Peers → Prop} (h : Faulty.Ends before (call.run E env w.clock) done failed crashed)
    (hw : before w.peers) : (∃ s, done () s ∧ Succeeds E env w call faults ∧
        step E env w (.call call faults) = { w with peers := s, granted := w.granted ++ call.grants }) ∨
      (∃ s, failed s ∧ step E env w (.call call faults) = { w with peers := s }) ∨
      ∃ s, crashed s ∧ step E env w (.call call faults) = { w with peers := load E w.clock s } :=
  step_of_meets (h faults w.peers hw)

theorem step_keeps (faults : List (Fault Bool)) {inv : Peers → Prop}
    (h : Faulty.Keeps inv (call.run E env w.clock)) (hload : ∀ s, inv s → inv (load E w.clock s))
    (hw : inv w.peers) :
    inv (step E env w (.call call faults)).peers := by
  rcases step_call call faults (Faulty.ensures_iff.mp h) hw with ⟨s, hs, _, heq⟩ | ⟨s, hs, heq⟩ | ⟨s, hs, heq⟩
  · rw [heq]; exact hs
  · rw [heq]; exact hs
  · rw [heq]; exact hload s hs

theorem step_call_clock (call : Call) (faults : List (Fault Bool)) :
    (step E env w (.call call faults)).clock = w.clock := by
  rw [step]
  match call.run E env w.clock faults w.peers with
  | (.done _, _, _) => rfl
  | (.failed _, _, _) => rfl
  | (.crashed, _, _) => rfl

theorem step_call_granted (h : call.grants = []) (faults : List (Fault Bool)) :
    (step E env w (.call call faults)).granted = w.granted := by
  rw [step]
  match call.run E env w.clock faults w.peers with
  | (.done _, _, _) => exact (congrArg (w.granted ++ ·) h).trans (List.append_nil _)
  | (.failed _, _, _) => rfl
  | (.crashed, _, _) => rfl

theorem clock_le_step (event : Event) : w.clock ≤ (step E env w event).clock := by
  cases event with
  | tick secs => exact Nat.le_add_right _ _
  | restart => exact Nat.le_refl _
  | call call faults => rw [step_call_clock]

end

/-!
## What a call leaves alone

An invariant that does not depend on a part of the state is kept by the functions of that part.
-/

variable (inv : Peers → Prop)

/-- The invariant does not read the routing table. -/
def FreeOfRouting : Prop :=
  ∀ s m d, inv s → inv ⟨{ s.memory with routing := m }, { s.disk with routing := d }⟩

/-- The invariant does not read the membership records. -/
def FreeOfMembership : Prop :=
  ∀ s m d, inv s → inv ⟨{ s.memory with membership := m }, { s.disk with membership := d }⟩

/-- The invariant does not read the ledger of spent nonces. -/
def FreeOfSpent : Prop :=
  ∀ s m d, inv s → inv ⟨{ s.memory with spent := m }, { s.disk with spent := d }⟩

/-- The invariant does not read the admission log. -/
def FreeOfAdmissions : Prop :=
  ∀ s m d, inv s → inv ⟨{ s.memory with admissions := m }, { s.disk with admissions := d }⟩

section

variable {inv : Peers → Prop} {E : Externals} {env : Env} {now : Nat} {peer : PeerDescriptor}
  {operatorId : Text}

open Faulty

theorem keeps_persist {write : Stores → Stores → Stores}
    (h : ∀ s, inv s → inv { s with disk := write s.memory s.disk }) :
    Keeps inv (persist env write) := keeps_replace h

theorem keeps_bestEffort {x : Action Unit} (h : Keeps inv x) : Keeps inv (bestEffort x) :=
  h.rescue fun _ => keeps_pure

theorem keeps_discard {α : Type} {x : Action α} (h : Keeps inv x) : Keeps inv (discard x) :=
  h.bind fun _ => keeps_pure

section

variable {α : Type} {x : Action α} {before done failed crashed : Peers → Prop}

theorem ends_discard (h : Ends before x (fun _ => done) failed crashed) :
    Ends before (discard x) (fun _ => done) failed crashed := Ends.bind h fun _ => ends_pure fun _ hs => hs

theorem steady_discard (h : Steady before x (fun _ => done) crashed) :
    Steady before (discard x) (fun _ => done) crashed := Steady.bind h fun _ => steady_pure fun _ hs => hs

end

theorem insertPeer_frame (h : FreeOfRouting inv) : Keeps inv (insertPeer env now peer) :=
  (keeps_update fun s hs => h s _ s.disk.routing hs).bind fun _ => keeps_look.bind fun _ =>
    keeps_check.bind fun _ =>
    (keeps_update fun s hs => h s _ s.disk.routing hs).bind fun _ =>
      ((keeps_persist fun s hs => h s s.memory.routing _ hs).rescue fun _ =>
        (keeps_update fun s hs => h s _ s.disk.routing hs).bind fun _ => keeps_fail).bind fun _ => keeps_look

theorem rollbackPeerInsert_frame {previous : Option PeerDescriptor} (h : FreeOfRouting inv) :
    Keeps inv (rollbackPeerInsert env operatorId previous) :=
  (keeps_update fun s hs => h s _ s.disk.routing hs).bind fun _ =>
    keeps_bestEffort (keeps_persist fun s hs => h s s.memory.routing _ hs)

theorem getActivePeers_frame (h : FreeOfRouting inv) : Keeps inv (getActivePeers now) :=
  (keeps_update fun s hs => h s _ s.disk.routing hs).bind fun _ => keeps_look

section

variable (h : FreeOfMembership inv)
include h

variable {previous : Option PeerMembership}

theorem updateMembership_frame {updated : PeerMembership} :
    Keeps inv (updateMembership env operatorId previous updated) :=
  (keeps_update fun s hs => h s _ s.disk.membership hs).bind fun _ =>
    (keeps_persist fun s hs => h s s.memory.membership _ hs).rescue fun _ =>
      (keeps_update fun s hs => h s _ s.disk.membership hs).bind fun _ => keeps_fail

theorem markProbationMember_frame : Keeps inv (markProbationMember env operatorId now) :=
  keeps_look.bind fun _ => updateMembership_frame h

theorem markFullMember_frame : Keeps inv (markFullMember env now operatorId) :=
  keeps_look.bind fun _ => (updateMembership_frame h).bind fun _ => keeps_pure

theorem notePeerLiveness_frame : Keeps inv (notePeerLiveness env operatorId now) := by
  refine keeps_look.bind fun previous => ?_
  cases previous with
  | none => exact keeps_pure
  | some record => exact (updateMembership_frame h).bind fun _ => keeps_pure

theorem notePeerHeartbeat_frame : Keeps inv (notePeerHeartbeat env now operatorId) := by
  refine keeps_look.bind fun previous => ?_
  cases previous with
  | none => exact keeps_pure
  | some record =>
    refine (keeps_update fun s hs => h s _ s.disk.membership hs).bind fun _ => ?_
    split
    · exact (keeps_persist fun s hs => h s s.memory.membership _ hs).rescue fun _ =>
        keeps_update fun s hs => h s _ s.disk.membership hs
    · exact keeps_pure

theorem graduatePeer_frame : Keeps inv (graduatePeer env now operatorId) := by
  refine keeps_look.bind fun known => ?_
  split
  · exact (markFullMember_frame h).bind fun _ => keeps_pure
  · exact keeps_pure

theorem restoreMembership_frame : Keeps inv (restoreMembership env operatorId previous) :=
  (keeps_update fun s hs => h s _ s.disk.membership hs).bind fun _ =>
    keeps_bestEffort (keeps_persist fun s hs => h s s.memory.membership _ hs)

theorem graduateAll_frame : Keeps inv (graduateAll env now) := by
  refine keeps_look.bind fun before => (keeps_update fun s hs => h s _ s.disk.membership hs).bind fun _ => ?_
  split
  · exact (keeps_persist fun s hs => h s s.memory.membership _ hs).rescue fun _ =>
      keeps_update fun s hs => h s _ s.disk.membership hs
  · exact keeps_pure

end

theorem keeps_membershipSnapshot (hgraduate : Keeps inv (graduateAll env now))
    (hprune : Keeps inv (getActivePeers now)) : Keeps inv (membershipSnapshot env now) :=
  hgraduate.bind fun _ => hprune.bind fun _ => keeps_look.bind fun _ => keeps_pure

variable {nonceHex : Text}

theorem spendInvite_frame {expiresUtc : Nat} (h : FreeOfSpent inv) :
    Keeps inv (spendInvite env nonceHex expiresUtc operatorId now) := by
  refine keeps_look.bind fun _ => (keeps_update fun s hs => h s _ s.disk.spent hs).bind fun _ =>
    keeps_look.bind fun spent => ?_
  split
  · exact keeps_check
  · exact (keeps_update fun s hs => h s _ s.disk.spent hs).bind fun _ =>
      (keeps_persist fun s hs => h s s.memory.spent _ hs).rescue fun _ =>
        (keeps_update fun s hs => h s _ s.disk.spent hs).bind fun _ => keeps_fail

theorem unspendInvite_frame (h : FreeOfSpent inv) : Keeps inv (unspendInvite env nonceHex) := by
  refine keeps_look.bind fun spent => ?_
  split
  · exact (keeps_update fun s hs => h s _ s.disk.spent hs).bind fun _ =>
      keeps_bestEffort (keeps_persist fun s hs => h s s.memory.spent _ hs)
  · exact keeps_pure

theorem logAdmission_frame {record : AdmissionRecord} (h : FreeOfAdmissions inv) :
    Keeps inv (logAdmission env record) :=
  (keeps_update fun s hs => h s _ s.disk.admissions hs).bind fun _ =>
    (keeps_persist fun s hs => h s s.memory.admissions _ hs).rescue fun _ =>
      (keeps_update fun s hs => h s _ s.disk.admissions hs).bind fun _ => keeps_fail

end

namespace Sample

def env : Env :=
  { trustedPeerKeys := none, fleetKeys := none, quorumK := none,
    fleetKey := some (Hex.encode (reference.ed25519Public [1#8]))
    minProbationSecs := 60, joinLivenessGraceSecs := 60, ioError := "No space left on device" }

def ticket (node : Bytes) (nonce : Byte) : JoinInvite :=
  let invite : JoinInvite :=
    { version := 1, issuerPkHex := Hex.encode (reference.ed25519Public [1#8])
      nodePkHex := Hex.encode (reference.ed25519Public node), expiresUtc := 1100
      nonceHex := Hex.encode (List.replicate 32 nonce), signatureHex := [], signatures := [] }
  { invite with
    signatureHex := Hex.encode (signWithDomain reference [1#8] inviteContext invite.signingBytes) }

def peer (node : Bytes) (operatorId : Text) : PeerDescriptor :=
  .new reference operatorId "http://n".toList node 1000

def join (node : Bytes) (nonce : Byte) (operatorId : Text) (faults : List (Fault Bool)) : Event :=
  .call (.joinWithInvite (peer node operatorId) (ticket node nonce)) faults

def grant (nonce : Byte) (operatorId : Text) : Grant := ⟨Hex.encode (List.replicate 32 nonce), operatorId⟩

end Sample

end CipherVault.Network.Members
