import CipherVault.Base.Dict
import CipherVault.Base.Service
import CipherVault.Network.Invites

/-!
# Network.Approvals

The out-of-band approvals of `crates/recovery/src/approval.rs`, and the challenges of an operator
with their receipts. A receipt is known by the text of its approver's key and verified with the
bytes of it, which have several spellings (`Spellings`).
-/

namespace CipherVault.Network.Approvals

open Crypto Format Dict AList List

inductive ApprovalAction where
  | emergencyRecovery
  | keyRotation
  | snapshotRollback
  | guardianRevocation
deriving DecidableEq

def ApprovalAction.debug : ApprovalAction → String
  | .emergencyRecovery => "EmergencyRecovery"
  | .keyRotation => "KeyRotation"
  | .snapshotRollback => "SnapshotRollback"
  | .guardianRevocation => "GuardianRevocation"

structure ApprovalChallenge where
  (challengeId vaultIdHex : Text)
  action : ApprovalAction
  (requesterDeviceIdHex nonceHex : Text)
  (createdAtUtc expiresAtUtc : Nat)
  details : Text
deriving DecidableEq

def ApprovalChallenge.signingBytes (challenge : ApprovalChallenge) : Bytes :=
  ascii "CipherVault-ApprovalChallenge-v1:" ++ utf8 challenge.challengeId ++ ascii ":" ++
    utf8 challenge.vaultIdHex ++
    ascii ":" ++ ascii challenge.action.debug ++ ascii ":" ++ utf8 challenge.requesterDeviceIdHex ++
      ascii ":" ++
    utf8 challenge.nonceHex ++ ascii ":" ++ leBytes 8 challenge.expiresAtUtc ++ ascii ":" ++
      utf8 challenge.details

def ApprovalChallenge.isExpired (challenge : ApprovalChallenge) (now : Nat) : Bool :=
  now > challenge.expiresAtUtc

structure SignedApprovalReceipt where
  (challengeId approverName approverPkHex : Text)
  approvedAtUtc : Nat
  signatureHex : Text
deriving DecidableEq

variable (E : Externals)

namespace SignedApprovalReceipt

def computeSigningBytes (challenge : ApprovalChallenge) (approverName approverPkHex : Text)
    (approvedAtUtc : Nat) :
    Bytes :=
  challenge.signingBytes ++ ascii ":" ++ utf8 approverName ++ ascii ":" ++ utf8 approverPkHex ++ ascii ":" ++
    leBytes 8 approvedAtUtc

def signingBytes (receipt : SignedApprovalReceipt) (challenge : ApprovalChallenge) : Bytes :=
  computeSigningBytes challenge receipt.approverName receipt.approverPkHex receipt.approvedAtUtc

def approvalContext : Bytes := ascii "out_of_band_approval"

def sign (challenge : ApprovalChallenge) (approverName : Text) (signingKey : Bytes) (now : Nat) :
    SignedApprovalReceipt :=
  let pkHex := Hex.encode (E.ed25519Public signingKey)
  let signature := signWithDomain E signingKey approvalContext
    (computeSigningBytes challenge approverName pkHex now)
  { challengeId := challenge.challengeId, approverName := approverName, approverPkHex := pkHex,
    approvedAtUtc := now
    signatureHex := Hex.encode signature }

/-- Apart from the details and the approver's key, none of the texts that are signed has the
separator in it. -/
def Separable (challenge : ApprovalChallenge) (approverName : Text) : Prop :=
  ∀ text ∈ [challenge.challengeId, challenge.vaultIdHex, challenge.requesterDeviceIdHex, challenge.nonceHex,
    approverName], ':' ∉ text

theorem debug_inj {x y : Bytes} {action action' : ApprovalAction}
    (h : ascii action.debug ++ (ascii ":" ++ x) = ascii action'.debug ++ (ascii ":" ++ y)) :
    action = action' ∧ x = y := by
  have hdebug : ∀ action : ApprovalAction, ':' ∉ action.debug.toList ∧
    ascii action.debug = utf8 action.debug.toList := by
    intro action
    cases action <;> decide
  rw [(hdebug action).2, (hdebug action').2] at h
  obtain ⟨heq, ht⟩ := Utf8.encodeText_separated (hdebug action).1 (hdebug action').1 h
  refine ⟨?_, ht⟩
  cases action <;> cases action' <;> first | rfl | (revert heq; decide)

theorem last_separated {c : Char} {x y a b : Text} (ha : c ∉ a) (hb : c ∉ b) (h : x ++ c :: a = y ++ c :: b) :
    x = y ∧ a = b := by
  rcases List.append_eq_append_iff.mp h with ⟨between, rfl, heq⟩ | ⟨between, rfl, heq⟩
  · cases between with
    | nil => exact ⟨(append_nil x).symm, (List.cons.inj heq).2⟩
    | cons d between => exact absurd ((List.cons.inj heq).2 ▸ mem_append_right _ mem_cons_self) ha
  · cases between with
    | nil => exact ⟨append_nil y, (List.cons.inj heq).2.symm⟩
    | cons d between => exact absurd ((List.cons.inj heq).2 ▸ mem_append_right _ mem_cons_self) hb

/-- The details, the name and the key are told apart if the name, and either both details or both
keys, are without the separator. -/
theorem tail_inj {details details' name name' pkHex pkHex' : Text} (hname : ':' ∉ name) (hname' : ':' ∉ name')
    (hfree : ':' ∉ details ∧ ':' ∉ details' ∨ ':' ∉ pkHex ∧ ':' ∉ pkHex')
    (h : utf8 details ++ (ascii ":" ++ (utf8 name ++ (ascii ":" ++ utf8 pkHex))) =
      utf8 details' ++ (ascii ":" ++ (utf8 name' ++ (ascii ":" ++ utf8 pkHex')))) :
    details = details' ∧ name = name' ∧ pkHex = pkHex' := by
  rcases hfree with ⟨hd, hd'⟩ | ⟨hk, hk'⟩
  · obtain ⟨hdetails, h⟩ := Utf8.encodeText_separated hd hd' h
    obtain ⟨hn, h⟩ := Utf8.encodeText_separated hname hname' h
    exact ⟨hdetails, hn, utf8_inj h⟩
  · have hjoined : utf8 ((details ++ ':' :: name) ++ ':' :: pkHex) =
      utf8 ((details' ++ ':' :: name') ++ ':' :: pkHex') := by
      have hcolon : ∀ text, utf8 (':' :: text) = ascii ":" ++ utf8 text := fun _ => rfl
      have happend : ∀ a b : Text, utf8 (a ++ b) = utf8 a ++ utf8 b := fun _ _ => List.flatMap_append
      rw [happend, happend, happend, happend, hcolon, hcolon, hcolon, hcolon]
      simpa only [append_assoc] using h
    obtain ⟨hrest, hkey⟩ := last_separated hk hk' (utf8_inj hjoined)
    obtain ⟨hdetails, hn⟩ := last_separated hname hname' hrest
    exact ⟨hdetails, hn, hkey⟩

/-- Challenges with the same signing bytes are the same where their fields can be told apart. -/
theorem computeSigningBytes_inj {challenge challenge' : ApprovalChallenge}
    {name name' pkHex pkHex' : Text} {now now' : Nat}
    (hsep : Separable challenge name) (hsep' : Separable challenge' name')
    (hfree : ':' ∉ challenge.details ∧ ':' ∉ challenge'.details ∨ ':' ∉ pkHex ∧ ':' ∉ pkHex')
    (h : computeSigningBytes challenge name pkHex now = computeSigningBytes challenge' name' pkHex' now') :
    challenge.challengeId = challenge'.challengeId ∧ challenge.vaultIdHex = challenge'.vaultIdHex ∧
      challenge.action = challenge'.action ∧
        challenge.requesterDeviceIdHex = challenge'.requesterDeviceIdHex ∧
      challenge.nonceHex = challenge'.nonceHex ∧
        challenge.expiresAtUtc % 2 ^ 64 = challenge'.expiresAtUtc % 2 ^ 64 ∧
      challenge.details = challenge'.details ∧ name = name' ∧ pkHex = pkHex' ∧
      now % 2 ^ 64 = now' % 2 ^ 64 := by
  simp only [Separable, mem_cons, not_mem_nil, or_false, forall_eq_or_imp, forall_eq] at hsep hsep'
  simp only [computeSigningBytes, ApprovalChallenge.signingBytes, append_assoc, append_cancel_left_eq] at h
  obtain ⟨hid, h⟩ := Utf8.encodeText_separated hsep.1 hsep'.1 h
  obtain ⟨hv, h⟩ := Utf8.encodeText_separated hsep.2.1 hsep'.2.1 h
  obtain ⟨haction, h⟩ := debug_inj h
  obtain ⟨hreq, h⟩ := Utf8.encodeText_separated hsep.2.2.1 hsep'.2.2.1 h
  obtain ⟨hn, h⟩ := Utf8.encodeText_separated hsep.2.2.2.1 hsep'.2.2.2.1 h
  obtain ⟨hexpires, h⟩ := append_inj h (by rw [length_leBytes, length_leBytes])
  have h := append_cancel_left h
  simp only [← append_assoc] at h
  obtain ⟨h, hnow⟩ := List.append_inj' h (by rw [length_leBytes, length_leBytes])
  have h := List.append_cancel_right h
  simp only [append_assoc] at h
  obtain ⟨hdet, hna, hkey⟩ := tail_inj hsep.2.2.2.2 hsep'.2.2.2.2 hfree h
  exact ⟨hid, hv, haction, hreq, hn, leBytes_inj 8 _ _ hexpires, hdet, hna, hkey, leBytes_inj 8 _ _ hnow⟩

end SignedApprovalReceipt

inductive RecoveryError where
  | invalidSignature (message : String)
  | invalidChallenge (message : String)
deriving DecidableEq

def RecoveryError.display : RecoveryError → String
  | .invalidSignature message => "Invalid cryptographic signature: " ++ message
  | .invalidChallenge message => "Invalid or expired authorization challenge: " ++ message

structure Env where
  ioError : String
  hexError : Text → String

section

variable (env : Env)

def SignedApprovalReceipt.verify (receipt : SignedApprovalReceipt)
    (challenge : ApprovalChallenge) (now : Nat) : Except RecoveryError Unit :=
  if receipt.challengeId ≠ challenge.challengeId then
    .error (.invalidSignature "Receipt challenge ID does not match challenge")
  else if challenge.isExpired now then .error (.invalidChallenge "Approval challenge has expired")
  else match Hex.decode receipt.approverPkHex with
    | none =>
      .error (.invalidSignature
        ("Invalid approver public key hex: " ++ env.hexError receipt.approverPkHex))
    | some pk =>
      if pk.length ≠ 32 then .error (.invalidSignature "Approver public key must be 32 bytes")
      else match Hex.decode receipt.signatureHex with
        | none => .error (.invalidSignature ("Invalid signature hex: " ++ env.hexError receipt.signatureHex))
        | some signature =>
          if signature.length ≠ 64 then .error (.invalidSignature "Approval signature must be 64 bytes")
          else (verifyWithDomain E pk approvalContext (receipt.signingBytes challenge)
            signature).mapError fun _ =>
              .invalidSignature
                ("Approval signature invalid: " ++ "Cryptographic signature verification failed")

/-- A challenge with the receipts for it, in the order of their arrival. -/
abbrev Challenges := Dict Text (ApprovalChallenge × List SignedApprovalReceipt)

structure State where
  (memory disk : Challenges)

abbrev Action (α : Type) := Faulty Bool State String α

open Faulty (fail look update replace)

def onMemory (f : Challenges → Challenges) (s : State) : State := { s with memory := f s.memory }

def persistApprovalChallenges : Action Unit := replace (fun s => { s with disk := s.memory }) env.ioError

def loadApprovalChallenges (now : Nat) (s : State) : State :=
  { s with
    memory := map (fun challengeId record =>
        (record.1, record.2.filter fun receipt =>
          receipt.challengeId == challengeId && (receipt.verify E env record.1 now).isOk))
      (retain (fun challengeId record => record.1.challengeId == challengeId &&
        decide (now < record.1.expiresAtUtc))
        s.disk) }

def registerApprovalChallenge (now : Nat) (challenge : ApprovalChallenge) : Action Unit :=
  if challenge.isExpired now then fail "Challenge is already expired"
  else do
    update (onMemory (retain fun _ record => now < record.1.expiresAtUtc))
    update (onMemory (insert challenge.challengeId (challenge, [])))
    (persistApprovalChallenges env).rescue fun error => do
      update (onMemory (erase challenge.challengeId))
      fail ("Unable to persist approval challenges: " ++ error)

def alreadyRecorded (receipt : SignedApprovalReceipt) (receipts : List SignedApprovalReceipt) : Bool :=
  receipts.any fun r => r.approverPkHex == receipt.approverPkHex

/-- Verifies a receipt and adds it to its challenge. -/
def submitApprovalReceipt (now : Nat) (receipt : SignedApprovalReceipt) : Action Nat := do
  let found ← look fun s => s.memory.lookup receipt.challengeId
  match found with
  | none => fail "Challenge ID not found or already expired"
  | some (challenge, receipts) =>
    match receipt.verify E env challenge now with
    | .error e => fail ("Invalid receipt: " ++ e.display)
    | .ok () => do
      let recorded := if alreadyRecorded receipt receipts then receipts else receipts ++ [receipt]
      update (onMemory (insert receipt.challengeId (challenge, recorded)))
      (persistApprovalChallenges env).rescue fun error => do
        -- the last receipt is popped if it is the new one, which leaves those from before
        update (onMemory (insert receipt.challengeId (challenge, receipts)))
        fail ("Unable to persist approval challenges: " ++ error)
      return recorded.length

def getChallengeStatus (s : State) (challengeId : Text) :
    Option (ApprovalChallenge × List SignedApprovalReceipt) :=
  s.memory.lookup challengeId

inductive Call where
  | registerApprovalChallenge (challenge : ApprovalChallenge)
  | submitApprovalReceipt (receipt : SignedApprovalReceipt)

def service : Service Bool State String Call where
  perform now
    | .registerApprovalChallenge challenge => registerApprovalChallenge env now challenge
    | .submitApprovalReceipt receipt => do
      let _ ← submitApprovalReceipt E env now receipt
      return ()
  start := loadApprovalChallenges E env

end

abbrev Event := Service.Event Bool Call

def State.new : State := ⟨∅, ∅⟩

def run (E : Externals) (env : Env) (events : List Event) : State := (service E env).run .new events

/-! ## The approvers of a challenge -/

def SignedApprovalReceipt.approverKey (receipt : SignedApprovalReceipt) : Option Bytes :=
  Hex.decode receipt.approverPkHex

variable (spelling : Bytes → Text)

/-- The key of the approver is written in the one spelling. -/
def SignedApprovalReceipt.Spelled (receipt : SignedApprovalReceipt) : Prop :=
  ∀ key, receipt.approverKey = some key → receipt.approverPkHex = spelling key

/-- A receipt that is submitted is written in the one spelling. -/
def Call.Spelled (spelling : Bytes → Text) : Call → Prop
  | .registerApprovalChallenge _ => True
  | .submitApprovalReceipt receipt => receipt.Spelled spelling

/-- Every approver once, in the one spelling. -/
structure Collected (receipts : List SignedApprovalReceipt) : Prop where
  spelled : ∀ receipt ∈ receipts, ∃ key, receipt.approverKey = some key ∧ receipt.approverPkHex = spelling key
  once : (receipts.map SignedApprovalReceipt.approverPkHex).Nodup

/-- In memory and in the file, receipts are collected without repetition. -/
def Sound (s : State) : Prop :=
  (∀ challengeId record, s.memory.lookup challengeId = some record → Collected spelling record.2) ∧
    ∀ challengeId record, s.disk.lookup challengeId = some record → Collected spelling record.2

theorem SignedApprovalReceipt.verify_spec {env : Env} {challenge : ApprovalChallenge} {now : Nat}
    {E : Externals} {receipt : SignedApprovalReceipt}
    (h : receipt.verify E env challenge now = .ok ()) :
    ∃ key, receipt.approverKey = some key ∧ key.length = 32 := by
  simp only [verify, ite_error_eq_ok] at h
  obtain ⟨_, _, h⟩ := h
  split at h
  · cases h
  · rename_i key hkey
    rw [ite_error_eq_ok] at h
    exact ⟨key, hkey, not_not.mp h.1⟩

section

variable {spelling : Bytes → Text} {receipts : List SignedApprovalReceipt} {receipt : SignedApprovalReceipt}

theorem collected_nil : Collected spelling [] := ⟨nofun, nodup_nil⟩

theorem Collected.filter (h : Collected spelling receipts) (p : SignedApprovalReceipt → Bool) :
    Collected spelling (receipts.filter p) :=
  ⟨fun receipt hrec => h.spelled receipt (List.mem_of_mem_filter hrec), h.once.sublist (filter_sublist.map _)⟩

theorem Collected.record (h : Collected spelling receipts)
    (hreceipt : ∃ key, receipt.approverKey = some key ∧ receipt.approverPkHex = spelling key) :
    Collected spelling (if alreadyRecorded receipt receipts then receipts else receipts ++ [receipt]) := by
  split
  · exact h
  · rename_i hnew
    have hfr : receipt.approverPkHex ∉ receipts.map SignedApprovalReceipt.approverPkHex := by
      intro hmem
      obtain ⟨other, ho, heq⟩ := mem_map.mp hmem
      exact hnew (any_eq_true.mpr ⟨other, ho, beq_iff_eq.mpr heq⟩)
    refine ⟨fun other ho => ?_, ?_⟩
    · rcases mem_append.mp ho with hold | hla
      · exact h.spelled other hold
      · rw [mem_singleton.mp hla]
        exact hreceipt
    · rw [map_append, map_singleton]
      exact nodup_append.mpr ⟨h.once, nodup_singleton _, fun a ha b hb hab =>
        hfr (mem_singleton.mp hb ▸ hab ▸ ha)⟩

theorem Collected.keys (h : Collected spelling receipts) :
    (receipts.map SignedApprovalReceipt.approverKey).Nodup := by
  refine List.Nodup.of_map (fun key => (key.map spelling).getD []) ?_
  have htexts : (receipts.map SignedApprovalReceipt.approverKey).map (fun key => (key.map spelling).getD []) =
      receipts.map SignedApprovalReceipt.approverPkHex := by
    rw [map_map]
    refine map_congr_left fun receipt hrec => ?_
    obtain ⟨key, hkey, htext⟩ := h.spelled receipt hrec
    rw [Function.comp_apply, hkey, htext]
    rfl
  rw [htexts]
  exact h.once

end

section

variable {spelling : Bytes → Text} {E : Externals} {env : Env} {s : State}

open Faulty

theorem Sound.memory {f : Challenges → Challenges} (h : Sound spelling s)
    (hf : ∀ challengeId record, (f s.memory).lookup challengeId = some record → Collected spelling record.2) :
    Sound spelling (onMemory f s) := ⟨hf, h.2⟩

theorem keeps_persistApprovalChallenges : Keeps (Sound spelling) (persistApprovalChallenges env) :=
  keeps_replace fun _ hs => ⟨hs.1, hs.1⟩

theorem sound_retain {p : Text → ApprovalChallenge × List SignedApprovalReceipt → Bool}
    (h : Sound spelling s) :
    Sound spelling (onMemory (retain p) s) :=
  h.memory fun id record hrec => h.1 id record (lookup_retain_eq_some.mp hrec).1

variable {challengeId : Text} {challenge : ApprovalChallenge} {now : Nat}

theorem sound_insert {receipts : List SignedApprovalReceipt} (hreceipts : Collected spelling receipts)
    (h : Sound spelling s) : Sound spelling (onMemory (insert challengeId (challenge, receipts)) s) := by
  refine h.memory fun id other ho => ?_
  rcases lookup_insert_cases ho with ⟨_, rfl⟩ | ⟨_, hold⟩
  · exact hreceipts
  · exact h.1 id other hold

theorem sound_erase (h : Sound spelling s) : Sound spelling (onMemory (erase challengeId) s) :=
  h.memory fun id other ho => h.1 id other (lookup_of_lookup_erase ho).2

theorem keeps_registerApprovalChallenge :
    Keeps (Sound spelling) (registerApprovalChallenge env now challenge) := by
  unfold registerApprovalChallenge
  split
  · exact keeps_fail
  · refine (keeps_update fun s hs => sound_retain hs).bind fun _ => ?_
    refine (keeps_update fun s hs => sound_insert collected_nil hs).bind fun _ => ?_
    exact keeps_persistApprovalChallenges.rescue fun _ =>
      (keeps_update fun s hs => sound_erase hs).bind fun _ => keeps_fail

theorem keeps_submitApprovalReceipt {receipt : SignedApprovalReceipt} (hreceipt : receipt.Spelled spelling) :
    Keeps (Sound spelling) (submitApprovalReceipt E env now receipt) := by
  refine ensures_iff.mpr (ends_look_eq.bind fun found => ?_)
  cases found with
  | none => exact ends_fail fun _ hs => hs.1
  | some record =>
    obtain ⟨challenge, receipts⟩ := record
    refine ends_of_fact (Collected spelling receipts) (fun s hs => hs.1.1 _ _ hs.2) fun hcol => ?_
    refine Ends.pre (B := Sound spelling) ?_ fun _ hs => hs.1
    dsimp only
    cases hver : receipt.verify E env challenge now with
    | error e => exact ends_fail fun _ hs => hs
    | ok _ =>
      obtain ⟨key, hkey, _⟩ := SignedApprovalReceipt.verify_spec hver
      have hrec := hcol.record ⟨key, hkey, hreceipt key hkey⟩
      refine ensures_iff.mp ((keeps_update fun s hs => sound_insert hrec hs).bind fun _ => ?_)
      refine Keeps.bind ?_ fun _ => keeps_pure
      exact keeps_persistApprovalChallenges.rescue fun _ =>
        (keeps_update fun s hs => sound_insert hcol hs).bind fun _ => keeps_fail

theorem sound_load (h : Sound spelling s) : Sound spelling (loadApprovalChallenges E env now s) := by
  refine ⟨fun id record hrec => ?_, h.2⟩
  rw [loadApprovalChallenges, lookup_map] at hrec
  obtain ⟨stored, hst, rfl⟩ := Option.map_eq_some_iff.mp hrec
  exact (h.2 id stored (lookup_retain_eq_some.mp hst).1).filter _

/-- In every run in which a key is submitted in one spelling, the receipts for a challenge are those
of as many different approvers. -/
theorem approvers_distinct (E : Externals) (env : Env) (spelling : Bytes → Text) (events : List Event)
    (hspelled : ∀ event ∈ events, event.Satisfies (Call.Spelled spelling)) (challengeId : Text)
    (challenge : ApprovalChallenge) (receipts : List SignedApprovalReceipt)
    (hstatus : getChallengeStatus (run E env events) challengeId = some (challenge, receipts)) :
    (receipts.map SignedApprovalReceipt.approverKey).Nodup ∧
      (receipts.map SignedApprovalReceipt.approverKey).dedup.length = receipts.length := by
  have hst : Sound spelling State.new := by
    refine ⟨fun _ _ h => ?_, fun _ _ h => ?_⟩
    · cases h
    · cases h
  have hsound : Sound spelling (run E env events) := by
    refine Service.run_keeps (I := Sound spelling) (fun _ _ hs => sound_load hs) ?_ hspelled hst
    intro now call hcall
    cases call with
    | registerApprovalChallenge challenge => exact keeps_registerApprovalChallenge
    | submitApprovalReceipt receipt => exact (keeps_submitApprovalReceipt hcall).bind fun _ => keeps_pure
  have hkeys := (hsound.1 challengeId _ hstatus).keys
  refine ⟨hkeys, ?_⟩
  rw [hkeys.dedup, length_map]

end

namespace Spellings

open SignedApprovalReceipt (computeSigningBytes computeSigningBytes_inj Separable approvalContext approverKey)

def env : Env := { ioError := "disk full", hexError := fun _ => "Odd number of digits" }

def challenge : ApprovalChallenge :=
  { challengeId := ['c'], vaultIdHex := [], action := .emergencyRecovery,
    requesterDeviceIdHex := [], nonceHex := []
    createdAtUtc := 1000, expiresAtUtc := 1600, details := [] }

def capitals (signingKey : Bytes) : SignedApprovalReceipt :=
  let pkHex := (Hex.encode (reference.ed25519Public signingKey)).map Char.toUpper
  let message := computeSigningBytes challenge ['n'] pkHex 1001
  { challengeId := ['c'], approverName := ['n'], approverPkHex := pkHex, approvedAtUtc := 1001
    signatureHex := Hex.encode (signWithDomain reference signingKey approvalContext message) }

def register : Event := .call 1000 (.registerApprovalChallenge challenge) []

def submit (receipt : SignedApprovalReceipt) : Event := .call 1001 (.submitApprovalReceipt receipt) []

def receipt (signingKey : Bytes) : SignedApprovalReceipt := .sign reference challenge ['n'] signingKey 1001

def approvers (events : List Event) : Option (List (Option Bytes)) :=
  (getChallengeStatus (run reference env events) ['c']).map fun status =>
    status.2.map approverKey

def restated : ApprovalChallenge := { challenge with details := ":a".toList }

def signed : SignedApprovalReceipt := .sign reference challenge "a:n".toList [9#8] 1001

/-- One signature for two different details: a part of the approver's name is read as the end of
them. -/
theorem two_details_signed :
    signed.signingBytes challenge = { signed with approverName := ['n'] }.signingBytes restated ∧
      approvers [register, submit signed] = some [some (reference.ed25519Public [9#8])] ∧
      approvers [.call 1000 (.registerApprovalChallenge restated) [],
        submit { signed with approverName := ['n'] }] =
        some [some (reference.ed25519Public [9#8])] := by
  decide +kernel

def noted : ApprovalChallenge := { challenge with details := "at 10:30".toList }

def redated : ApprovalChallenge := { noted with createdAtUtc := 1 }

theorem redated_action : redated.action = noted.action := by
  have hsep : Separable noted ['n'] := by simp [Separable, noted, challenge]
  have hb : computeSigningBytes redated ['n'] [] 1001 = computeSigningBytes noted ['n'] [] 1001 := rfl
  exact (computeSigningBytes_inj hsep hsep (.inr ⟨not_mem_nil, not_mem_nil⟩) hb).2.2.1

/-- One approver with two receipts for a challenge, before and after a restart. -/
theorem one_approver_twice :
    approvers [register, submit (receipt [9#8]), submit (capitals [9#8])] =
        some [some (reference.ed25519Public [9#8]), some (reference.ed25519Public [9#8])] ∧
      approvers [register, submit (receipt [9#8]), submit (capitals [9#8]), .start 1002] =
        some [some (reference.ed25519Public [9#8]), some (reference.ed25519Public [9#8])] := by
  decide +kernel

def events : List Event :=
  [register, submit (receipt [9#8]), submit (receipt [9#8]),
    .call 1001 (.submitApprovalReceipt (receipt [10#8])) [.fail true],
    .start 1002]

theorem spelled_receipt (signingKey : Bytes) : (receipt signingKey).Spelled Hex.encode := by
  intro key hkey
  have hdec : some (reference.ed25519Public signingKey) = some key := (Hex.decode_encode _).symm.trans hkey
  rw [← Option.some.inj hdec]
  rfl

theorem spelled_events : ∀ event ∈ events, Service.Event.Satisfies (Call.Spelled Hex.encode) event := by
  intro event hev
  simp only [events, mem_cons, not_mem_nil, or_false] at hev
  rcases hev with rfl | rfl | rfl | rfl | rfl
  · trivial
  · exact spelled_receipt _
  · exact spelled_receipt _
  · exact spelled_receipt _
  · trivial

theorem kept_receipts : getChallengeStatus (run reference env events) ['c'] =
    some (challenge, [receipt [9#8], receipt [10#8]]) := by
  decide +kernel

theorem kept_approvers_distinct :
    getChallengeStatus (run reference env events) ['c'] = some (challenge, [receipt [9#8], receipt [10#8]]) ∧
      ([receipt [9#8], receipt [10#8]].map approverKey).Nodup :=
  ⟨kept_receipts, (approvers_distinct reference env Hex.encode events spelled_events ['c'] challenge
    _ kept_receipts).1⟩

end Spellings

end CipherVault.Network.Approvals
