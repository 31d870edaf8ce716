import CipherVault.Network.Approvals
import CipherVault.Network.SessionAuthority

/-!
# Network.Undone

What a call that returns an error leaves in memory. A call changes the maps first, and takes the
change back by hand when the file cannot be written.
-/

namespace CipherVault.Network

open Crypto Format Faulty

variable {α : Type}

/-- Whichever writes fail, the call leaves the memory as it was if it returns an error. -/
def Undone {σ : Type} (same : σ → σ → Prop) (x : Faulty Bool σ String α) (s : σ) : Prop :=
  Ends (· = s) x (fun _ _ => True) (same s) fun _ => True

theorem Undone.of_moves {σ μ : Type} (memory : σ → μ) {same : σ → σ → Prop}
    {x : Faulty Bool σ String α} {s : σ}
    {F : μ → Prop} (h : Moves memory (memory s) x (fun _ => True) F)
    (hsame : ∀ s', F (memory s') → same s s') :
    Undone same x s := Ends.mono h (fun _ heq => heq ▸ rfl) (fun _ _ h => h) hsame fun _ h => h

section

open Approvals

variable {E : Externals} {env : Env} {now : Nat} {m : Challenges} {s : State}
  {receipt : SignedApprovalReceipt}
  {challenge : ApprovalChallenge}

/-- The same challenges with the same receipts. -/
def Approvals.SameChallenges (s s' : State) : Prop := ∀ id, s'.memory.lookup id = s.memory.lookup id

theorem submitApprovalReceipt_undone : Undone SameChallenges (submitApprovalReceipt E env now receipt) s := by
  refine Undone.of_moves State.memory (F := fun m => ∀ id, m.lookup id = s.memory.lookup id) ?_
    fun _ h => h
  refine moves_look (P := (· = s.memory.lookup receipt.challengeId)) (fun s hs => by rw [hs])
    fun found hf => ?_
  split
  · exact moves_fail fun _ => rfl
  · next challenge receipts =>
    cases receipt.verify E env challenge now with
    | error e => exact moves_fail fun _ => rfl
    | ok _ =>
      refine moves_update fun s hs => ?_
      refine Moves.bind (B := fun _ => True)
        (moves_saved (keeps_replace fun _ h => h) trivial fun s' hs' id => ?_)
        fun _ _ _ => moves_pure trivial
      rw [onMemory, hs', onMemory, hs]
      by_cases hid : id = receipt.challengeId
      · rw [hid, lookup_insert, hf]
      · rw [lookup_insert_ne hid, lookup_insert_ne hid]

/-- The challenge is not on record, and no challenge on record has expired. -/
def Approvals.Fresh (now : Nat) (challenge : ApprovalChallenge) (s : State) : Prop :=
  ∀ id record, s.memory.lookup id = some record → id ≠ challenge.challengeId ∧ now < record.1.expiresAtUtc

theorem lookup_unregistered (id : Text) :
    (AList.erase challenge.challengeId (AList.insert challenge.challengeId (challenge, [])
      (Dict.retain (fun _ record => decide (now < record.1.expiresAtUtc)) m))).lookup id =
      (m.lookup id).filter fun record => decide (id ≠ challenge.challengeId ∧
        now < record.1.expiresAtUtc) := by
  by_cases hid : id = challenge.challengeId
  · subst hid
    rw [AList.lookup_erase]
    cases m.lookup challenge.challengeId <;> simp
  · rw [lookup_erase_ne hid, lookup_insert_ne hid, Dict.lookup_retain]
    simp only [ne_eq, hid, not_false_eq_true, true_and]

theorem same_iff_fresh : (∀ id, (s.memory.lookup id).filter (fun record =>
      decide (id ≠ challenge.challengeId ∧ now < record.1.expiresAtUtc)) = s.memory.lookup id) ↔
    Fresh now challenge s := by
  constructor
  · intro hsame id record hrecord
    have hid := hsame id
    rw [hrecord, Option.filter_eq_some_iff] at hid
    exact of_decide_eq_true hid.2
  · intro hfresh id
    cases hrecord : s.memory.lookup id with
    | none => rfl
    | some record => rw [Option.filter_some, if_pos (decide_eq_true (hfresh id record hrecord))]

theorem registerApprovalChallenge_undone_iff :
    Undone SameChallenges (registerApprovalChallenge env now challenge) s ↔
      challenge.isExpired now = true ∨ Fresh now challenge s := by
  unfold registerApprovalChallenge
  split
  · next hexpired => exact iff_of_true (fun _ s' hs _ => by rw [hs]) (.inl hexpired)
  next hexpired =>
  rw [or_iff_right hexpired]
  constructor
  · intro h
    refine same_iff_fresh.mp fun id => ?_
    rw [← lookup_unregistered id]
    exact h [.fail false] s rfl id
  · intro hfresh
    refine Undone.of_moves State.memory (F := fun m => ∀ id, m.lookup id = s.memory.lookup id) ?_
      fun _ h => h
    refine moves_update fun s₁ h₁ => moves_update fun s₂ h₂ =>
      moves_saved (keeps_replace fun _ h => h) trivial
      fun s₃ h₃ id => ?_
    rw [onMemory, h₃, onMemory, h₂, onMemory, h₁, lookup_unregistered]
    exact same_iff_fresh.mpr hfresh id

end

section

open Sessions

variable {config : Config} {now : Nat} {s : State} {token vault key : Text} {permissions : Permissions}
  {account device : Option Text}

def Sessions.SameMemory (s s' : State) : Prop := s'.memory = s.memory

theorem revokeSession_undone : Undone SameMemory (revokeSession config token) s := by
  refine Undone.of_moves State.memory (F := (· = s.memory)) ?_ fun _ h => h
  refine moves_look (P := (· = s.memory)) (fun _ hs => hs) ?_
  rintro _ rfl
  refine moves_update fun s hs => ?_
  split
  · refine Moves.bind (B := fun _ => True) (moves_saved (keeps_replace fun _ h => h) trivial fun s' hs' => ?_)
      fun _ _ _ => moves_pure trivial
    rw [onMemory, hs', onMemory, hs]
    rfl
  · exact moves_pure trivial

/-- The records that a revocation marks. -/
def Sessions.Marked (vault key : Text) (identity : EnrolledIdentity) : Bool :=
  identity.isOf (normalize vault) (normalize key) && identity.revokedAtUtc.isNone

/-- A session under the key. -/
def Sessions.HasSession (key : Text) (s : State) : Prop :=
  ∃ e ∈ s.memory.sessionKeys.entries, Hex.encode e.2 = normalize key

theorem tokens_ne_nil (hsession : HasSession key s) : ((s.memory.sessionKeys.entries.filter fun e =>
    Hex.encode e.2 == normalize key).map Sigma.fst) ≠ [] := by
  obtain ⟨e, he, hkey⟩ := hsession
  exact List.ne_nil_of_mem (List.mem_map_of_mem (List.mem_filter.mpr ⟨he, beq_iff_eq.mpr hkey⟩))

theorem revokeIdentity_undone (hno : ¬HasSession key s) :
    Undone SameMemory (revokeIdentity config now vault key) s := by
  refine Undone.of_moves State.memory (F := (· = s.memory)) ?_ fun _ h => h
  refine moves_look (P := (· = s.memory)) (fun _ hs => hs) ?_
  rintro _ rfl
  split
  · refine moves_update fun s' hs => ?_
    refine Moves.bind (B := fun _ => True) (moves_saved (keeps_replace fun _ h => h) trivial fun s' hs' => ?_)
      fun _ _ _ => ?_
    · rw [onMemory, hs', onMemory, hs]
    · rw [if_pos]
      · exact moves_pure trivial
      · rw [List.map_eq_nil_iff, List.filter_eq_nil_iff]
        exact fun e he hkey => hno ⟨e, he, beq_iff_eq.mp hkey⟩
  · exact moves_pure trivial

theorem revoked_ne_self {identity : EnrolledIdentity} {identities : List EnrolledIdentity}
    (hmem : identity ∈ identities) (hmark : Marked vault key identity = true) :
    revoked now (normalize vault) (normalize key) identities ≠ identities := by
  intro hself
  have hmark := Bool.and_eq_true_iff.mp hmark
  have heq := List.map_inj_left.mp (hself.trans (List.map_id _).symm) identity hmem
  rw [if_pos hmark] at heq
  have hrevoked := congrArg EnrolledIdentity.revokedAtUtc heq
  rw [id, Option.isNone_iff_eq_none.mp hmark.2] at hrevoked
  cases hrevoked

/-- The second write fails, when the marks are on disk. -/
theorem revokeIdentity_marks (hmarked : s.memory.identities.any (Marked vault key) = true)
    (hsession : HasSession key s)
    (h : Undone SameMemory (revokeIdentity config now vault key) s) :
    revoked now (normalize vault) (normalize key) s.memory.identities = s.memory.identities := by
  have hend := h [.none, .fail false] s rfl
  have hany : s.memory.identities.any (fun identity =>
      identity.isOf (normalize vault) (normalize key) && identity.revokedAtUtc.isNone) = true := hmarked
  simp only [revokeIdentity, bind_eq, look, hany, if_true, update, rescue,
    persistEnrolledIdentities, persistSessions, replace, step, settle, fail,
    if_neg (tokens_ne_nil hsession)] at hend
  exact congrArg Memory.identities hend

theorem revokeIdentity_undone_iff : Undone SameMemory (revokeIdentity config now vault key) s ↔
    (∀ identity ∈ s.memory.identities, Marked vault key identity = false) ∨ ¬HasSession key s := by
  by_cases hmarked : s.memory.identities.any (Marked vault key) = true
  · obtain ⟨identity, hmem, hmark⟩ := List.any_eq_true.mp hmarked
    constructor
    · exact fun h => .inr fun hsession => revoked_ne_self hmem hmark (revokeIdentity_marks hmarked hsession h)
    · rintro (hnone | hno)
      · rw [hnone identity hmem] at hmark
        cases hmark
      · exact revokeIdentity_undone hno
  · refine iff_of_true ?_ (.inl fun identity hmem => ?_)
    · refine Undone.of_moves State.memory (F := (· = s.memory)) ?_ fun _ h => h
      refine moves_look (P := (· = s.memory)) (fun _ hs => hs) ?_
      rintro _ rfl
      split
      · next hany => exact absurd hany hmarked
      · exact moves_pure trivial
    · exact Bool.eq_false_iff.mpr fun htrue => hmarked (List.any_eq_true.mpr ⟨identity, hmem, htrue⟩)

/-- An enrolment of this identity would change nothing: its record is there with these permissions,
not revoked, and with this binding if the request has one. -/
def Sessions.AlreadyEnrolled (vault key : Text) (permissions : Permissions) (account device : Option Text)
    (identities : List EnrolledIdentity) : Prop :=
  ∃ existing, identities.find? (EnrolledIdentity.isOf vault key) = some existing ∧
    existing.permissions = permissions ∧ existing.revokedAtUtc = none ∧
    (account.isSome = true → existing.accountId = account ∧ existing.deviceIdHex = device)

theorem updateFirst_eq_self {p : α → Bool} {f : α → α} {l : List α} :
    updateFirst p f l = l ↔ ∀ a, l.find? p = some a → f a = a := by
  induction l with
  | nil => exact iff_of_true rfl nofun
  | cons a rest ih =>
    rw [updateFirst, List.find?_cons]
    cases hp : p a with
    | true => simp
    | false => simp [ih]

theorem enrolled_eq_self {identities : List EnrolledIdentity} :
    enrolled now vault key permissions account device identities = identities ↔
      AlreadyEnrolled vault key permissions account device identities := by
  unfold enrolled
  split
  · next hany =>
    obtain ⟨existing, hfind⟩ := Option.isSome_iff_exists.mp (List.find?_isSome.mpr (List.any_eq_true.mp hany))
    simp only [updateFirst_eq_self, AlreadyEnrolled, hfind, Option.some.injEq, forall_eq', exists_eq_left']
    obtain ⟨vaultIdHex, publicKeyHex, old, enrolledAtUtc, revokedAtUtc, accountId, deviceIdHex⟩ := existing
    cases account with
    | none => simp [eq_comm]
    | some value => simp [eq_comm]
  · next hany =>
    refine iff_of_false (fun h => ?_) ?_
    · have hlength := congrArg List.length h
      rw [List.length_append] at hlength
      simp at hlength
    · rintro ⟨existing, hfind, -⟩
      exact hany (List.any_eq_true.mpr (List.find?_isSome.mp (hfind ▸ rfl)))

theorem enrollIdentityWithBinding_undone_iff :
    Undone SameMemory (enrollIdentityWithBinding config now vault key permissions account device) s ↔
      ∀ account' device', isHexOf 32 (normalize vault) = true → isHexOf 32 (normalize key) = true →
        normalizeIdentityBinding account device = .ok (account', device') →
        AlreadyEnrolled (normalize vault) (normalize key) (defaulted permissions) account' device'
          s.memory.identities := by
  constructor
  · intro h account' device' hvault hkey hbinding
    have hend := h [.fail false] s rfl
    simp only [enrollIdentityWithBinding, bind_eq, check, hvault, hkey, hbinding, lift, pure,
      persistEnrolledIdentities,
      replace] at hend
    exact enrolled_eq_self.mp (congrArg Memory.identities hend)
  · intro h
    refine Undone.of_moves State.memory (F := (· = s.memory)) ?_ fun _ h => h
    refine Moves.bind (B := fun m => m = s.memory ∧ isHexOf 32 (normalize vault) = true)
      (ends_check (fun _ hs hvault => ⟨hs, hvault⟩) fun _ hs => hs) ?_
    rintro _ _ ⟨rfl, hvault⟩
    refine Moves.bind (B := fun m => m = s.memory ∧ isHexOf 32 (normalize key) = true)
      (ends_check (fun _ hs hkey => ⟨hs, hkey⟩) fun _ hs => hs) ?_
    rintro _ _ ⟨rfl, hkey⟩
    cases hbinding : normalizeIdentityBinding account device with
    | error e => exact moves_fail rfl
    | ok binding =>
      obtain ⟨account', device'⟩ := binding
      refine (moves_update fun s' hs' => ?_ :
        Moves State.memory s.memory
          (update (onMemory fun memory => ⟨enrolled now (normalize vault) (normalize key)
          (defaulted permissions) account' device' memory.identities, memory.challenges, memory.sessions,
          memory.sessionKeys, memory.sessionVaults, memory.sessionBindings⟩) >>= fun _ =>
          persistEnrolledIdentities config) (fun _ => True) (· = s.memory))
      rw [onMemory, hs', enrolled_eq_self.mpr (h _ _ hvault hkey hbinding)]
      have hpersist : Keeps (fun s' => s'.memory = s.memory) (persistEnrolledIdentities config) :=
        keeps_replace fun _ h => h
      exact (hpersist.ends fun _ _ => trivial).mono (fun _ h => h) (fun _ _ _ => trivial)
        (fun _ h => h) fun _ h => h

end

/-- Which calls that return an error leave the maps as they were, whichever writes fail. -/
theorem failed_calls_undone (E : Externals) (env : Approvals.Env) (config : Sessions.Config) (now : Nat) :
    (∀ receipt s, Undone Approvals.SameChallenges (Approvals.submitApprovalReceipt E env now receipt) s) ∧
      (∀ challenge s, Undone Approvals.SameChallenges
        (Approvals.registerApprovalChallenge env now challenge) s ↔
        challenge.isExpired now = true ∨ Approvals.Fresh now challenge s) ∧
      (∀ token s, Undone Sessions.SameMemory (Sessions.revokeSession config token) s) ∧
      (∀ vault key s, Undone Sessions.SameMemory (Sessions.revokeIdentity config now vault key) s ↔
        (∀ identity ∈ s.memory.identities, Sessions.Marked vault key identity = false) ∨
          ¬Sessions.HasSession key s) ∧
      ∀ vault key permissions account device s, Undone Sessions.SameMemory
          (Sessions.enrollIdentityWithBinding config now vault key permissions account device) s ↔
        ∀ account' device', Sessions.isHexOf 32 (Sessions.normalize vault) = true →
          Sessions.isHexOf 32 (Sessions.normalize key) = true →
          Sessions.normalizeIdentityBinding account device = .ok (account', device') →
          Sessions.AlreadyEnrolled (Sessions.normalize vault) (Sessions.normalize key)
            (Sessions.defaulted permissions) account' device' s.memory.identities :=
  ⟨fun _ _ => submitApprovalReceipt_undone, fun _ _ => registerApprovalChallenge_undone_iff,
    fun _ _ => revokeSession_undone, fun _ _ _ => revokeIdentity_undone_iff,
    fun _ _ _ _ _ _ => enrollIdentityWithBinding_undone_iff⟩

namespace Undone

open Approvals.Spellings Sessions.Between

/-- A challenge that is registered again loses its receipts, an enrolment stays, and an identity
stays revoked, when the write fails. -/
theorem changes_kept :
    approvers [register, submit (receipt [9#8])] = some [some (reference.ed25519Public [9#8])] ∧
      approvers [register, submit (receipt [9#8]), .call 1001 (.registerApprovalChallenge challenge)
        [.fail false]] =
        none ∧
      (Sessions.run reference config
        [.call 1000 (.enrollIdentity vault key 1 none none) [.fail false]]).memory.identities.map
        (·.publicKeyHex) = [key] ∧
      (Sessions.run reference config opened).memory.identities.map (·.revokedAtUtc) = [none] ∧
      (Sessions.run reference config
        (opened ++ [.call 1001 (.revokeIdentity vault key)
          [.none, .fail false]])).memory.identities.map
        (·.revokedAtUtc) = [some 1001] := by
  decide +kernel

end Undone

end CipherVault.Network
