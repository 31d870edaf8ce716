import CipherVault.Base.Dict
import CipherVault.Base.Processes
import CipherVault.Network.Invites

/-!
# Account.Totp

Codes of authenticator apps: `verify_code` of `services/account/src/totp.rs`, and the statements of
`totp.rs` and `mfa.rs` on the one row of an account in `totp_credentials`. A handler reads the row
in one statement and writes it in a later one; `post_step_up` does both in one immediate
transaction. Steps on other tables do not touch this row.
-/

namespace CipherVault.Account.Totp

open Crypto Network Processes Nat List

inductive TotpError where
  | invalidCode
  | invalidSecret
  | replay
  | codeMismatch

/-- The wrapping of secrets, and `code_for_step` on HMAC-SHA-1. -/
structure Codes where
  decryptTotpSecret : Text → Option Bytes
  codeForStep : Bytes → Nat → Except TotpError Text

def stepSeconds : Nat := 30

def digits : Nat := 6

/-- The step near the clock whose code is given. -/
def matchStep (C : Codes) (secret : Bytes) (code : Text) (lastUsedStep : Option Nat) :
    List Nat → Except TotpError (Option Nat)
  | [] => .ok none
  | candidate :: rest =>
    if lastUsedStep.any (candidate ≤ ·) then matchStep C secret code lastUsedStep rest
    else do
      if (← C.codeForStep secret candidate) = code then .ok (some candidate)
      else matchStep C secret code lastUsedStep rest

/-- The step of the code, if it is after the last one used. -/
def verifyCode (C : Codes) (secret : Bytes) (code : Text) (nowSeconds : Nat) (lastUsedStep : Option Nat) :
    Except TotpError Nat :=
  let normalized := trim code
  let currentStep := nowSeconds / stepSeconds
  if (utf8 normalized).length ≠ digits ∨ normalized.any (fun c => c.toNat < 48 ∨ 57 < c.toNat) then
    .error .invalidCode
  else do
    match ← matchStep C secret normalized lastUsedStep [currentStep - 1, currentStep, currentStep + 1] with
    | some step => .ok step
    | none => if lastUsedStep.any (currentStep - 1 ≤ ·) then .error .replay else .error .codeMismatch

/-- At most one step away from the clock. -/
def Near (step now : Nat) : Prop := step ≤ now / stepSeconds + 1 ∧ now / stepSeconds ≤ step + 1

variable {C : Codes} {code : Text} {store : Store} {v : Verified}

variable {secret : Bytes} {lastUsedStep : Option Nat} {step now : Nat} {matching : Credential → Bool}
  {s : System Store Handler}

theorem mem_of_matchStep {candidates : List Nat}
    (h : matchStep C secret code lastUsedStep candidates = .ok (some step)) :
    step ∈ candidates := by
  induction candidates with
  | nil => cases h
  | cons candidate rest ih =>
    rw [matchStep] at h
    split at h
    · exact mem_cons_of_mem _ (ih h)
    · obtain ⟨expected, -, h⟩ := bind_eq_ok.mp h
      split at h
      · cases h
        exact mem_cons_self
      · exact mem_cons_of_mem _ (ih h)

theorem near_of_verifyCode (h : verifyCode C secret code now lastUsedStep = .ok step) : Near step now := by
  obtain ⟨-, h⟩ := ite_error_eq_ok.mp h
  obtain ⟨found, hf, h⟩ := bind_eq_ok.mp h
  cases found with
  | none =>
    dsimp only at h
    split at h <;> cases h
  | some step' =>
    cases h
    have hmem := mem_of_matchStep hf
    simp only [mem_cons, not_mem_nil, or_false] at hmem
    unfold Near
    generalize now / stepSeconds = current at *
    omega

/-- A row of `totp_credentials`; `enrolment` counts the secrets that were ever enrolled. -/
structure Credential where
  secretCiphertextB64 : Text
  enabled : Bool
  (lastUsedStep revokedAtUtc : Option Nat)
  enrolment : Nat

def Credential.pending (row : Credential) : Bool := !row.enabled && row.revokedAtUtc.isNone

def Credential.live (row : Credential) : Bool := row.enabled && row.revokedAtUtc.isNone

structure Acceptance where
  account : Text
  (secret recordedBy step now : Nat)
deriving DecidableEq

structure Store where
  credentials : Dict Text Credential
  enrolments : Nat
  accepted : List Acceptance

structure Verified where
  account : Text
  (secret step now : Nat)
  near : Near step now

namespace Store

def verify (C : Codes) (store : Store) (usable : Credential → Bool) (account code : Text)
    (now : Nat) : Option Verified :=
  match store.credentials.lookup account with
  | none => none
  | some row =>
    if !usable row then none
    else
      match C.decryptTotpSecret row.secretCiphertextB64 with
      | none => none
      | some secret =>
        match h : verifyCode C secret code now row.lastUsedStep with
        | .ok step =>
          some { account := account, secret := row.enrolment, step := step, now := now,
                 near := near_of_verifyCode h }
        | .error _ => none

def record (store : Store) (matching : Credential → Bool) (v : Verified) : Store :=
  match store.credentials.lookup v.account with
  | none => store
  | some row =>
    if matching row then
      { store with
        credentials := store.credentials.insert v.account
          { row with enabled := true, lastUsedStep := some v.step }
        accepted := ⟨v.account, v.secret, row.enrolment, v.step, v.now⟩ :: store.accepted }
    else store

def advances (v : Verified) (row : Credential) : Bool := row.live && !row.lastUsedStep.any (v.step ≤ ·)

def enrol (store : Store) (account ciphertext : Text) : Store :=
  { store with
    credentials := store.credentials.insert account
      { secretCiphertextB64 := ciphertext, enabled := false, lastUsedStep := none, revokedAtUtc := none
        enrolment := store.enrolments }
    enrolments := store.enrolments + 1 }

/-- `UPDATE … SET enabled = 0, revoked_at_utc`; a recovery reset does it to a revoked row as well.
-/
def revoke (store : Store) (account : Text) (now : Nat) (again : Bool) : Store :=
  match store.credentials.lookup account with
  | none => store
  | some row =>
    if row.revokedAtUtc.isNone || again then
      { store with
        credentials := store.credentials.insert account
          { row with enabled := false, revokedAtUtc := some now } }
    else store

end Store

inductive Request where
  | enrol (account ciphertext : Text)
  | confirm (account code : Text) (now : Nat)
  | login (account code : Text) (now : Nat)
  | stepUp (account code : Text) (now : Nat)
  | revoke (account : Text) (now : Nat)
  | recoveryReset (account : Text) (now : Nat)

/-- Where a request is between its transactions. -/
inductive Handler where
  | idle
  | begun (request : Request)
  | enrolling (account ciphertext : Text)
  | confirming (v : Verified)
  | loggingIn (v : Verified)

def advance (C : Codes) (store : Store) : Handler → Store × Handler
  | .idle => (store, .idle)
  | .begun (.enrol account ciphertext) =>
    if (store.credentials.lookup account).any Credential.live then (store, .idle)
    else (store, .enrolling account ciphertext)
  | .enrolling account ciphertext => (store.enrol account ciphertext, .idle)
  | .begun (.confirm account code now) =>
    (store, ((store.verify C Credential.pending account code now).map Handler.confirming).getD .idle)
  | .confirming v => (store.record Credential.pending v, .idle)
  | .begun (.login account code now) =>
    (store, ((store.verify C Credential.live account code now).map Handler.loggingIn).getD .idle)
  | .loggingIn v => (store.record (Store.advances v) v, .idle)
  | .begun (.stepUp account code now) =>
    match store.verify C Credential.live account code now with
    | some v => (store.record (Store.advances v) v, .idle)
    | none => (store, .idle)
  | .begun (.revoke account now) => (store.revoke account now false, .idle)
  | .begun (.recoveryReset account now) => (store.revoke account now true, .idle)

def program (C : Codes) : Program Store Handler Request where
  idle := .idle
  isIdle
    | .idle => true
    | _ => false
  begin := .begun
  advance := advance C

def empty : Store := { credentials := ∅, enrolments := 0, accepted := [] }

def after (C : Codes) (events : List (Event Request)) : System Store Handler :=
  run (program C) (System.new (program C) empty) events

/-- Among the acceptances with the same key a later one has a greater step. -/
def Increasing (key : Acceptance → Nat) (accepted : List Acceptance) : Prop :=
  accepted.Pairwise fun later earlier => later.account = earlier.account → key later = key earlier →
    earlier.step < later.step

/-- The credential remembers a step that is not before the accepted one. -/
def Covers (row : Credential) (a : Acceptance) : Prop :=
  row.pending = false ∧ ∃ last, row.lastUsedStep = some last ∧ a.step ≤ last

/-- No step at or before a remembered one is accepted again. -/
structure Inv (store : Store) : Prop where
  rows : ∀ account row, store.credentials.lookup account = some row → row.enrolment < store.enrolments ∧
    ∀ a ∈ store.accepted, a.account = account → a.recordedBy = row.enrolment → Covers row a
  past : ∀ a ∈ store.accepted, Near a.step a.now ∧ a.recordedBy < store.enrolments
  increasing : Increasing Acceptance.recordedBy store.accepted

theorem inv_enrol (hs : Inv store) (account ciphertext : Text) : Inv (store.enrol account ciphertext) := by
  refine ⟨?_, ?_, hs.increasing⟩
  · intro account' row hrow
    rcases lookup_insert_cases hrow with ⟨rfl, rfl⟩ | ⟨_, hrow⟩
    · refine ⟨lt_succ_self _, ?_⟩
      intro a ha _ hrec
      have hlt := (hs.past a ha).2
      dsimp only at hrec
      omega
    · exact ⟨lt_succ_of_lt (hs.rows account' row hrow).1, (hs.rows account' row hrow).2⟩
  · intro a ha
    exact ⟨(hs.past a ha).1, lt_succ_of_lt (hs.past a ha).2⟩

theorem inv_revoke (hs : Inv store) (account : Text) (now : Nat) (again : Bool) :
    Inv (store.revoke account now again) := by
  unfold Store.revoke
  split
  · exact hs
  next row hrow =>
  split
  · refine ⟨?_, hs.past, hs.increasing⟩
    intro account' row' hrow'
    rcases lookup_insert_cases hrow' with ⟨rfl, rfl⟩ | ⟨_, hrow'⟩
    · refine ⟨(hs.rows account' row hrow).1, ?_⟩
      intro a ha hacc hrec
      obtain ⟨-, hla⟩ := (hs.rows account' row hrow).2 a ha hacc hrec
      exact ⟨rfl, hla⟩
    · exact hs.rows account' row' hrow'
  · exact hs

theorem inv_record (hs : Inv store) (hfresh : ∀ row, matching row = true → ∀ a, Covers row a →
    a.step < v.step) :
    Inv (store.record matching v) := by
  unfold Store.record
  split
  · exact hs
  next row hrow =>
  split
  · next hm =>
    have hbelow : ∀ a ∈ store.accepted, a.account = v.account → a.recordedBy = row.enrolment →
      a.step < v.step :=
      fun a ha hacc hrec => hfresh row hm a ((hs.rows v.account row hrow).2 a ha hacc hrec)
    refine ⟨?_, ?_, ?_⟩
    · intro account' row' hrow'
      rcases lookup_insert_cases hrow' with ⟨rfl, rfl⟩ | ⟨heq, hrow'⟩
      · refine ⟨(hs.rows v.account row hrow).1, ?_⟩
        intro a ha hacc hrec
        refine ⟨rfl, v.step, rfl, ?_⟩
        rcases mem_cons.mp ha with rfl | ha
        · exact le_refl _
        · exact le_of_lt (hbelow a ha hacc hrec)
      · refine ⟨(hs.rows account' row' hrow').1, ?_⟩
        intro a ha hacc hrec
        rcases mem_cons.mp ha with rfl | ha
        · exact absurd hacc.symm heq
        · exact (hs.rows account' row' hrow').2 a ha hacc hrec
    · intro a ha
      rcases mem_cons.mp ha with rfl | ha
      · exact ⟨v.near, (hs.rows v.account row hrow).1⟩
      · exact hs.past a ha
    · refine pairwise_cons.mpr ⟨?_, hs.increasing⟩
      intro a ha hacc hrec
      exact hbelow a ha hacc.symm hrec.symm
  · exact hs

theorem fresh_pending (v : Verified) (row : Credential) (hpending : row.pending = true) (a : Acceptance)
    (h : Covers row a) : a.step < v.step := by
  rw [h.1] at hpending
  cases hpending

theorem fresh_advances (v : Verified) (row : Credential) (hadvances : Store.advances v row = true)
    (a : Acceptance)
    (h : Covers row a) : a.step < v.step := by
  obtain ⟨-, last, hla, hle⟩ := h
  simp only [Store.advances, hla, Option.any_some, Bool.and_eq_true, Bool.not_eq_true',
    decide_eq_false_iff_not] at hadvances
  omega

theorem inv_advance (C : Codes) (hs : Inv store) (handler : Handler) : Inv (advance C store handler).1 := by
  unfold advance
  split
  · exact hs
  · split <;> exact hs
  · exact inv_enrol hs _ _
  · exact hs
  · exact inv_record hs (fresh_pending _)
  · exact hs
  · exact inv_record hs (fresh_advances _)
  · split
    · exact inv_record hs (fresh_advances _)
    · exact hs
  · exact inv_revoke hs _ _ _
  · exact inv_revoke hs _ _ _

theorem inv_empty : Inv empty := by
  refine ⟨?_, ?_, List.Pairwise.nil⟩
  · intro account row hrow
    simp [empty] at hrow
  · nofun

theorem inv_step (C : Codes) (hs : Inv s.store) (event : Processes.Event Request) :
    Inv (Processes.step (program C) s event).store := by
  rcases step_store (program C) s event with hst | ⟨p, -, hst⟩
  · rw [hst]
    exact hs
  · rw [hst]
    exact inv_advance C hs _

theorem inv_after (C : Codes) (events : List (Processes.Event Request)) : Inv (after C events).store := by
  refine List.foldlRecOn (motive := fun s : System Store Handler => Inv s.store) events _ inv_empty ?_
  intro s hs event _
  exact inv_step C hs event

/-- A write meets the secret that its handler has read. -/
def SecretStays (s : System Store Handler) : Event Request → Prop
  | .proceed p =>
    match s.processes p with
    | .confirming v | .loggingIn v => ∀ row ∈ s.store.credentials.lookup v.account, row.enrolment = v.secret
    | _ => True
  | _ => True

instance (s : System Store Handler) (event : Event Request) : Decidable (SecretStays s event) := by
  unfold SecretStays
  split
  · split <;> infer_instance
  · infer_instance

/-- Every code was recorded under the secret that it was checked against. -/
def Matched (store : Store) : Prop := ∀ a ∈ store.accepted, a.recordedBy = a.secret

theorem matched_record (hs : Matched store)
    (hstays : ∀ row ∈ store.credentials.lookup v.account, row.enrolment = v.secret) :
    Matched (store.record matching v) := by
  unfold Store.record
  split
  · exact hs
  next row hrow =>
  split
  · intro a ha
    rcases mem_cons.mp ha with rfl | ha
    · exact hstays row hrow
    · exact hs a ha
  · exact hs

theorem stays_of_verify {account : Text} {usable : Credential → Bool}
    (h : store.verify C usable account code now = some v) :
    ∀ row ∈ store.credentials.lookup v.account, row.enrolment = v.secret := by
  unfold Store.verify at h
  split at h
  · cases h
  next row hrow =>
  split at h
  · cases h
  · split at h
    · cases h
    · split at h
      · cases h
        intro row' hrow'
        cases hrow.symm.trans hrow'
        rfl
      · cases h

theorem matched_step {event : Event Request} (C : Codes) (hstays : SecretStays s event)
    (hs : Matched s.store) :
    Matched (Processes.step (program C) s event).store := by
  rcases step_store (program C) s event with hst | ⟨p, rfl, hst⟩
  · rw [hst]
    exact hs
  · rw [hst]
    simp only [SecretStays] at hstays
    show Matched (advance C s.store (s.processes p)).1
    unfold advance
    split
    · exact hs
    · split <;> exact hs
    · exact hs
    · exact hs
    next v hv =>
      rw [hv] at hstays
      exact matched_record hs hstays
    · exact hs
    next v hv =>
      rw [hv] at hstays
      exact matched_record hs hstays
    · split
      next v hv => exact matched_record hs (stays_of_verify hv)
      · exact hs
    all_goals
      unfold Store.revoke
      split
      · exact hs
      · split <;> exact hs

/-- The steps of accepted codes, over every interleaving of the statements. -/
theorem accepted_steps (C : Codes) (events : List (Processes.Event Request)) :
    (∀ a ∈ (after C events).store.accepted, Near a.step a.now) ∧
      Increasing Acceptance.recordedBy (after C events).store.accepted ∧
      (Runs.Along (Processes.step (program C)) SecretStays (System.new (program C) empty) events →
        Increasing Acceptance.secret (after C events).store.accepted) := by
  have hinv := inv_after C events
  refine ⟨fun a ha => (hinv.past a ha).1, hinv.increasing, ?_⟩
  intro hstays
  have hmat : Matched (after C events).store :=
    hstays.keeps (I := fun s => Matched s.store) (fun _ _ hstays hs => matched_step C hstays hs)
      (fun a ha => by cases ha)
  refine hinv.increasing.imp_of_mem ?_
  intro later earlier hla hearlier hless hacc hsecret
  refine hless hacc ?_
  rw [hmat later hla, hmat earlier hearlier, hsecret]

/-! ## A code that is accepted twice -/

section

def numbers : Codes where
  decryptTotpSecret := fun ciphertext => some (utf8 ciphertext)
  codeForStep := fun _ step =>
    .ok ([100000, 10000, 1000, 100, 10, 1].map fun place => Char.ofNat (48 + step / place % 10))

def start (p : Nat) (request : Request) : List (Event Request) := [.call p request, .proceed p]

def whole (p : Nat) (request : Request) : List (Event Request) := start p request ++ [.proceed p]

def enrolled : List (Event Request) :=
  whole 0 (.enrol "a".toList "k1".toList) ++ whole 0 (.confirm "a".toList "000008".toList 270)

/-- Two logins have read the row, and one has written; then the secret is replaced and confirmed
with a step that is still below. -/
def replaced : List (Event Request) :=
  enrolled ++ start 1 (.login "a".toList "000010".toList 300) ++
    start 2 (.login "a".toList "000010".toList 300) ++
    [.proceed 1] ++ start 3 (.revoke "a".toList 300) ++ whole 3 (.enrol "a".toList "k2".toList) ++
    whole 3 (.confirm "a".toList "000009".toList 300)

/-- The second login is accepted with the code that the first one has used, of a secret that is no
longer enrolled. -/
theorem code_accepted_twice :
    ¬Increasing Acceptance.secret (after numbers (replaced ++ [.proceed 2])).store.accepted := by
  have hacc : (after numbers (replaced ++ [.proceed 2])).store.accepted =
      [⟨"a".toList, 0, 1, 10, 300⟩, ⟨"a".toList, 1, 1, 9, 300⟩, ⟨"a".toList, 0, 0, 10, 300⟩,
        ⟨"a".toList, 0, 0, 8, 270⟩] := by
    decide +kernel
  rw [hacc]
  intro hinc
  have hless := (pairwise_cons.mp hinc).1 ⟨"a".toList, 0, 0, 10, 300⟩ (by simp) rfl rfl
  exact absurd hless (lt_irrefl _)

theorem accepted_steps_two_logins :
    Increasing Acceptance.secret
      (after numbers (enrolled ++ start 1 (.login "a".toList "000010".toList 300) ++
      start 2 (.login "a".toList "000010".toList 300) ++ [.proceed 1, .proceed 2])).store.accepted :=
  (accepted_steps numbers _).2.2 (by decide +kernel)

end

end CipherVault.Account.Totp
