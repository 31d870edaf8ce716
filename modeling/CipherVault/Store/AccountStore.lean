import CipherVault.Base.Runs
import CipherVault.Network.Invites

/-!
# Store.AccountStore

`crates/local-store/src/account.rs`: processes read the account file when they open it, and their
calls write the whole record in memory over it. The file holds the record that its JSON stands for,
without name, date and endpoint.
-/

namespace CipherVault.Store.AccountStore

open Crypto Network List

structure AccountDevice where
  (deviceIdHex publicKeyHex label : Text)
  enrolledAtUtc : Nat
  (lastSeenAtUtc revokedAtUtc : Option Nat)
deriving DecidableEq

structure AccountVault where
  (vaultIdHex aliasName role : Text)
  linkedAtUtc : Nat
deriving DecidableEq

structure AccountRecord where
  schemaVersion : Nat
  (accountId accountPublicKeyHex : Text)
  devices : List AccountDevice
  vaults : List AccountVault
deriving DecidableEq

inductive AccountError where
  | notInitialized
  | invalid (message : String)
deriving DecidableEq

def validHex (value : Text) (bytes : Nat) : Bool :=
  (Hex.decode value).any fun decoded => decoded.length == bytes

def openStore (P : Primitives) : Option AccountRecord → Except AccountError AccountRecord
  | none => .error .notInitialized
  | some record =>
    if record.schemaVersion ≠ 1 || !validHex record.accountPublicKeyHex 32 then
      .error (.invalid "unsupported account metadata")
    else match Hex.decode record.accountPublicKeyHex with
      | none => .error (.invalid "account public key is not valid hex")
      | some key =>
        if record.accountId ≠ "cvacct_".toList ++ Hex.encode ((P.sha256 key).take 16) then
          .error (.invalid "account ID does not match account public key")
        else .ok record

/-! ## Calls on the record in memory -/

def changeOrPush {α : Type} (meant : α → Bool) (change : α → α) (new : α) : List α → List α
  | [] => [new]
  | x :: xs => if meant x then change x :: xs else x :: changeOrPush meant change new xs

def clean (length : Nat) (text : Text) : Text := (trim text).take length

inductive Request where
  | registerDevice (id key label : Text)
  | revokeDevice (id : Text)
  | linkVault (id aliasName role : Text)
  | unlinkVault (id : Text)

variable (record : AccountRecord)

namespace AccountRecord

/-- The entries of a device id, in whatever spelling and with whatever keys. -/
def devicesOf (id : Text) : List AccountDevice :=
  record.devices.filter fun device => eqIgnoreAsciiCase device.deviceIdHex id

def vaultsOf (id : Text) : List AccountVault :=
  record.vaults.filter fun vault => eqIgnoreAsciiCase vault.vaultIdHex id

/-- What a request does to the record, and whether it has to be written. -/
def apply (now : Nat) : Request → Except AccountError (AccountRecord × Bool)
  | .registerDevice id key label =>
    if !validHex id 32 || !validHex key 32 then
      .error (.invalid "device_id_hex and public_key_hex must be 32-byte hex")
    else
      let devices := record.devices |> changeOrPush
        (fun device => eqIgnoreAsciiCase device.deviceIdHex id && eqIgnoreAsciiCase device.publicKeyHex key)
        (fun device => { device with label := clean 120 label, lastSeenAtUtc := some now,
                                     revokedAtUtc := none })
        { deviceIdHex := Hex.lower id, publicKeyHex := Hex.lower key, label := clean 120 label,
          enrolledAtUtc := now
          lastSeenAtUtc := some now, revokedAtUtc := none }
      .ok ({ record with devices := devices }, true)
  | .revokeDevice id =>
    let devices := record.devices.map fun device =>
      if eqIgnoreAsciiCase device.deviceIdHex id && device.revokedAtUtc.isNone then
        { device with revokedAtUtc := some now }
      else device
    .ok ({ record with devices := devices }, (record.devicesOf id).any fun device =>
      device.revokedAtUtc.isNone)
  | .linkVault id aliasName role =>
    if !validHex id 32 then .error (.invalid "vault_id_hex must be 32-byte hex")
    else
      let vaults := record.vaults |> changeOrPush (fun vault => vault.vaultIdHex == Hex.lower id)
        (fun vault => { vault with aliasName := clean 120 aliasName, role := clean 40 role })
        { vaultIdHex := Hex.lower id, aliasName := clean 120 aliasName, role := clean 40 role,
          linkedAtUtc := now }
      .ok ({ record with vaults := vaults }, true)
  | .unlinkVault id =>
    let vaults := record.vaults.filter fun vault => !eqIgnoreAsciiCase vault.vaultIdHex id
    .ok ({ record with vaults := vaults }, vaults.length ≠ record.vaults.length)

end AccountRecord

/-- What becomes of a write. `unsettled`: the file is replaced, and then the sync or the logout of
the device fails. -/
inductive Outcome where
  | written
  | unsettled
  | failed
deriving DecidableEq

inductive Event where
  | opens (p : Nat)
  | call (p now : Nat) (request : Request) (outcome : Outcome)

/-- The file, and what each process has in memory. -/
structure World where
  file : Option AccountRecord
  stores : Nat → Option AccountRecord

/-- A call changes the record in memory also when it cannot be written. -/
def step (P : Primitives) (w : World) : Event → World
  | .opens p =>
    match openStore P w.file with
    | .error _ => w
    | .ok record => { w with stores := Function.update w.stores p (some record) }
  | .call p now request outcome =>
    match (w.stores p).map (AccountRecord.apply · now request) with
    | some (.ok (record, changed)) =>
      { file := if changed && outcome ≠ .failed then some record else w.file
        stores := Function.update w.stores p (some record) }
    | _ => w

def run (P : Primitives) (file : Option AccountRecord) (events : List Event) : World :=
  events.foldl (step P) ⟨file, fun _ => none⟩

/-- The process accepts the request, and its write, if any, is made. -/
def Succeeds (w : World) (p now : Nat) (request : Request) (outcome : Outcome) : Prop :=
  ∃ record after changed, w.stores p = some record ∧ record.apply now request = .ok (after, changed) ∧
    (changed = true → outcome = .written)

/-- The record shows what the request asked for. -/
def Visible : Request → Prop
  | .registerDevice id key label => ∃ device ∈ record.devicesOf id,
      eqIgnoreAsciiCase device.publicKeyHex key = true ∧ device.revokedAtUtc = none ∧
        device.label = clean 120 label
  | .revokeDevice id => ∀ device ∈ record.devicesOf id, device.revokedAtUtc ≠ none
  | .linkVault id aliasName role => ∃ vault ∈ record.vaultsOf id,
      vault.aliasName = clean 120 aliasName ∧ vault.role = clean 40 role
  | .unlinkVault id => record.vaultsOf id = []

inductive Target where
  | device (id : Text)
  | vault (id : Text)
deriving DecidableEq

def Request.target : Request → Target
  | .registerDevice id _ _ => .device (Hex.lower id)
  | .revokeDevice id => .device (Hex.lower id)
  | .linkVault id _ _ => .vault (Hex.lower id)
  | .unlinkVault id => .vault (Hex.lower id)

/-- The event is a call about the target that changes the record and writes it. Calls that are
refused, find nothing to change or cannot write are none. -/
def Changes (target : Target) (w : World) : Event → Bool
  | .opens _ => false
  | .call p now request outcome => request.target = target && outcome ≠ .failed &&
    (w.stores p).any fun record => ((record.apply now request).toOption.map Prod.snd).getD false

/-- A call is made on what is in the file: nobody else has written since the process has read or
written it. -/
def Fresh (w : World) : Event → Prop
  | .opens _ => True
  | .call p _ _ _ => w.stores p = none ∨ w.file = w.stores p

instance (w : World) : ∀ event, Decidable (Fresh w event)
  | .opens _ => .isTrue trivial
  | .call _ _ _ _ => inferInstanceAs (Decidable (_ ∨ _))

section

variable {α : Type} {meant p : α → Bool} {change : α → α} {new : α}

theorem exists_mem_changeOrPush (meant : α → Bool) (change : α → α) (new : α) (xs : List α) :
    ∃ y ∈ changeOrPush meant change new xs, y = new ∨ ∃ x, meant x = true ∧ y = change x := by
  induction xs with
  | nil => exact ⟨new, mem_singleton_self new, .inl rfl⟩
  | cons x xs ih =>
    by_cases hx : meant x = true
    · exact ⟨change x, by simp [changeOrPush, hx], .inr ⟨x, hx, rfl⟩⟩
    · obtain ⟨y, hy, hcase⟩ := ih
      exact ⟨y, by simp [changeOrPush, hx, hy], hcase⟩

theorem filter_changeOrPush (hmeant : ∀ x, meant x = true → p x = false ∧ p (change x) = false)
    (hnew : p new = false)
    (xs : List α) : (changeOrPush meant change new xs).filter p = xs.filter p := by
  induction xs with
  | nil => simp [changeOrPush, hnew]
  | cons x xs ih =>
    by_cases hx : meant x = true
    · simp [changeOrPush, hx, hmeant x hx]
    · simp [changeOrPush, hx, filter_cons, ih]

theorem filter_map_of_other {f : α → α} (hp : ∀ x, p (f x) = p x) (hf : ∀ x, p x = true → f x = x)
    (xs : List α) :
    (xs.map f).filter p = xs.filter p := by
  rw [filter_map, show p ∘ f = p from funext hp, map_congr_left fun x hx =>
    hf x (mem_filter.mp hx).2, map_id']

end

variable {P : Primitives} {record after : AccountRecord} {now : Nat} {request later : Request}
  {changed : Bool}

theorem visible_of_apply (h : record.apply now request = .ok (after, changed)) :
    Visible after request ∧ (changed = false → Visible record request) := by
  cases request with
  | registerDevice id key label =>
    obtain ⟨-, h⟩ := ite_error_eq_ok.mp h
    cases h
    refine ⟨?_, nofun⟩
    obtain ⟨device, hdev, rfl | ⟨old, hold, rfl⟩⟩ := exists_mem_changeOrPush _ _ _ record.devices
    · exact ⟨_, mem_filter.mpr ⟨hdev, by simp [eqIgnoreAsciiCase, Hex.lower_lower]⟩,
        by simp [eqIgnoreAsciiCase, Hex.lower_lower], rfl, rfl⟩
    · rw [Bool.and_eq_true] at hold
      exact ⟨_, mem_filter.mpr ⟨hdev, hold.1⟩, hold.2, rfl, rfl⟩
  | revokeDevice id =>
    cases h
    constructor
    · intro _ hdev
      obtain ⟨hmem, hid⟩ := mem_filter.mp hdev
      obtain ⟨device, _, rfl⟩ := mem_map.mp hmem
      have hs : eqIgnoreAsciiCase device.deviceIdHex id = true := by
        split at hid
        · exact hid
        · exact hid
      by_cases hact : device.revokedAtUtc = none
      · simp [hs, hact]
      · simp [hact]
    · intro hunc device hdev
      rw [any_eq_false] at hunc
      simpa using hunc device hdev
  | linkVault id aliasName role =>
    obtain ⟨-, h⟩ := ite_error_eq_ok.mp h
    cases h
    refine ⟨?_, nofun⟩
    obtain ⟨vault, hv, rfl | ⟨old, hold, rfl⟩⟩ := exists_mem_changeOrPush _ _ _ record.vaults
    · exact ⟨_, mem_filter.mpr ⟨hv, by simp [eqIgnoreAsciiCase, Hex.lower_lower]⟩, rfl, rfl⟩
    · exact ⟨_, mem_filter.mpr
        ⟨hv, by simp [eqIgnoreAsciiCase, beq_iff_eq.mp hold, Hex.lower_lower]⟩, rfl, rfl⟩
  | unlinkVault id =>
    cases h
    refine ⟨by simp [Visible, AccountRecord.vaultsOf], fun hunc => ?_⟩
    have hall := length_filter_eq_length_iff.mp (of_decide_eq_false hunc |> not_not.mp)
    exact filter_eq_nil_iff.mpr fun vault hv => by simpa using hall vault hv

section

variable (h : record.apply now later = .ok (after, changed))
include h

theorem devicesOf_apply {id : Text} (hother : later.target ≠ .device (Hex.lower id)) :
    after.devicesOf id = record.devicesOf id := by
  cases later with
  | registerDevice id' key label =>
    obtain ⟨-, h⟩ := ite_error_eq_ok.mp h
    cases h
    have hne : Hex.lower id' ≠ Hex.lower id := fun heq => hother (congrArg Target.device heq)
    refine filter_changeOrPush (fun device hdev => ?_) ?_ record.devices
    · simp_all [eqIgnoreAsciiCase]
    · simp [eqIgnoreAsciiCase, Hex.lower_lower, hne]
  | revokeDevice id' =>
    cases h
    have hne : Hex.lower id' ≠ Hex.lower id := fun heq => hother (congrArg Target.device heq)
    refine filter_map_of_other (fun device => ?_) (fun device hdev => ?_) record.devices
    · split
      · rfl
      · rfl
    · simp only [eqIgnoreAsciiCase, beq_iff_eq] at hdev
      simp [eqIgnoreAsciiCase, hdev, hne.symm]
  | linkVault => cases (ite_error_eq_ok.mp h).2; rfl
  | unlinkVault => cases h; rfl

theorem vaultsOf_apply {id : Text} (hother : later.target ≠ .vault (Hex.lower id)) :
    after.vaultsOf id = record.vaultsOf id := by
  cases later with
  | registerDevice => cases (ite_error_eq_ok.mp h).2; rfl
  | revokeDevice => cases h; rfl
  | linkVault id' aliasName role =>
    obtain ⟨-, h⟩ := ite_error_eq_ok.mp h
    cases h
    have hne : Hex.lower id' ≠ Hex.lower id := fun heq => hother (congrArg Target.vault heq)
    refine filter_changeOrPush (fun vault hv => ?_) ?_ record.vaults
    · simp_all [eqIgnoreAsciiCase, Hex.lower_lower]
    · simp [eqIgnoreAsciiCase, Hex.lower_lower, hne]
  | unlinkVault id' =>
    cases h
    have hne : Hex.lower id' ≠ Hex.lower id := fun heq => hother (congrArg Target.vault heq)
    rw [AccountRecord.vaultsOf, filter_filter]
    refine filter_congr fun vault _ => ?_
    by_cases hid : Hex.lower vault.vaultIdHex = Hex.lower id
    · simp [eqIgnoreAsciiCase, hid, hne.symm]
    · simp [eqIgnoreAsciiCase, hid]

theorem visible_of_other (hother : later.target ≠ request.target) (hvisible : Visible record request) :
    Visible after request := by
  cases request with
  | registerDevice | revokeDevice => simpa only [Visible, devicesOf_apply h hother] using hvisible
  | linkVault | unlinkVault => simpa only [Visible, vaultsOf_apply h hother] using hvisible

end

/-- The file shows what the request asked for. -/
def Shown (request : Request) (w : World) : Prop := ∃ record, w.file = some record ∧ Visible record request

variable {w : World} {outcome : Outcome}

theorem file_of_fresh {p : Nat} (hfresh : Fresh w (.call p now request outcome))
    (hstored : w.stores p = some record) : w.file = some record := by
  rcases hfresh with hn | hf
  · rw [hstored] at hn
    cases hn
  · exact hf.trans hstored

theorem shown_step {event : Event} (hfresh : Fresh w event) (hother : Changes request.target w event = false)
    (hshown : Shown request w) : Shown request (step P w event) := by
  cases event with
  | opens p =>
    rw [step]
    split
    · exact hshown
    · exact hshown
  | call p now later outcome =>
    simp only [step]
    split
    · rename_i after changed hcall
      obtain ⟨stored, hst, happly⟩ := Option.map_eq_some_iff.mp hcall
      obtain ⟨_, hf, hvis⟩ := hshown
      cases (file_of_fresh hfresh hst).symm.trans hf
      split
      · rename_i hwritten
        rw [Bool.and_eq_true, decide_eq_true_eq] at hwritten
        have htarget : later.target ≠ request.target := by
          intro heq
          simp [Changes, heq, hst, happly, Except.toOption, hwritten.1, hwritten.2] at hother
        exact ⟨after, rfl, visible_of_other happly htarget hvis⟩
      · exact ⟨stored, hf, hvis⟩
    · exact hshown

theorem shown_call {p : Nat} (hfresh : Fresh w (.call p now request outcome))
    (hsucceeds : Succeeds w p now request outcome) :
    Shown request (step P w (.call p now request outcome)) := by
  obtain ⟨stored, after, changed, hst, happly, hwri⟩ := hsucceeds
  obtain ⟨hafter, hb⟩ := visible_of_apply happly
  have hf := file_of_fresh hfresh hst
  simp only [step, hst, Option.map_some, happly]
  cases changed with
  | false => exact ⟨stored, hf, hb rfl⟩
  | true =>
    rw [hwri rfl]
    exact ⟨after, rfl, hafter⟩

theorem openStore_eq_ok {file : Option AccountRecord} (h : openStore P file = .ok record) :
    file = some record := by
  cases file with
  | none => cases h
  | some stored =>
    obtain ⟨-, h⟩ := ite_error_eq_ok.mp h
    split at h
    · cases h
    · cases (ite_error_eq_ok.mp h).2
      rfl

theorem shown_run {later : List Event} (hfresh : Runs.Along (step P) Fresh w later)
    (hlater : Runs.Along (step P) (fun w event => Changes request.target w event = false) w later)
    (hshown : Shown request w) : Shown request (later.foldl (step P) w) :=
  (hfresh.and hlater).keeps (fun _ _ hev hs => shown_step hev.1 hev.2 hs) hshown

/-- When every call is made on what is in the file, the effect of a successful call is in whatever a
later `open` reads, as long as no later call about the same device or vault changes it. -/
theorem updates_not_lost (P : Primitives) (file : Option AccountRecord) (before later : List Event)
    (p now : Nat)
    (request : Request) (outcome : Outcome) (record : AccountRecord)
    (hfresh : Runs.Along (step P) Fresh ⟨file, fun _ => none⟩
      (before ++ .call p now request outcome :: later))
    (hlater : Runs.Along (step P) (fun w event => Changes request.target w event = false)
      (run P file (before ++ [.call p now request outcome])) later)
    (hsucceeds : Succeeds (run P file before) p now request outcome)
    (hopen : openStore P (run P file (before ++ .call p now request outcome :: later)).file = .ok record) :
    Visible record request := by
  obtain ⟨hcall, hr⟩ := hfresh.drop
  rw [run, foldl_append] at hlater
  obtain ⟨shown, hf, hvis⟩ := shown_run hr hlater (shown_call hcall hsucceeds)
  rw [run, foldl_append] at hopen
  cases (openStore_eq_ok hopen).symm.trans hf
  exact hvis

section

abbrev P₀ : Primitives := Format.reference.toPrimitives

def idHex (n : Byte) : Text := Hex.encode (replicate 32 n)

def accountOf (revokedAtUtc : Option Nat) (vaults : List AccountVault) : AccountRecord :=
  { schemaVersion := 1
    accountId := "cvacct_".toList ++ Hex.encode ((P₀.sha256 (replicate 32 9#8)).take 16)
    accountPublicKeyHex := idHex 9#8
    devices := [⟨idHex 1#8, idHex 2#8, ['a'], 0, none, revokedAtUtc⟩]
    vaults := vaults }

def revoke : Request := .revokeDevice (idHex 1#8)

def link : Event := .call 1 6 (.linkVault (idHex 3#8) ['v'] ['o']) .written

def linkedVault : AccountVault := ⟨idHex 3#8, ['v'], ['o'], 6⟩

/-- Both processes have read the file before the first one revokes the device; the second links a
vault and writes the device back. -/
theorem revocation_lost :
    Succeeds (run P₀ (some (accountOf none [])) [.opens 0, .opens 1]) 0 5 revoke .written ∧
    openStore P₀ (run P₀ (some (accountOf none [])) [.opens 0, .opens 1, .call 0 5 revoke .written,
      link]).file =
      .ok (accountOf none [linkedVault]) ∧
    ¬ Visible (accountOf none [linkedVault]) revoke := by
  refine ⟨⟨accountOf none [], accountOf (some 5) [], true, ?_, ?_, fun _ => rfl⟩, ?_, fun hvis => ?_⟩
  · decide +kernel
  · decide +kernel
  · decide +kernel
  · exact hvis ⟨idHex 1#8, idHex 2#8, ['a'], 0, none, none⟩ (by decide +kernel) rfl

/-- Revoked once more, which changes nothing. -/
def again : Event := .call 1 6 revoke .written

theorem updates_not_lost_in_turn : Visible (accountOf (some 5) [linkedVault]) revoke := by
  refine updates_not_lost P₀ (some (accountOf none [])) [.opens 0] [.opens 1, again, link] 0 5
    revoke .written _
    ?_ ?_ ?_ ?_
  · decide +kernel
  · decide +kernel
  · exact ⟨accountOf none [], accountOf (some 5) [], true, by decide +kernel, by decide +kernel, fun _ => rfl⟩
  · decide +kernel

end

end CipherVault.Store.AccountStore
