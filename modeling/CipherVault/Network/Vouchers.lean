import CipherVault.Base.Dict
import CipherVault.Base.Runs
import CipherVault.Network.Invites

/-!
# Network.Vouchers

The write vouchers of `crates/storage/src/vouchers.rs` and the ledger of what is spent, by voucher
nonce and by holder.
-/

namespace CipherVault.Network.Vouchers

open Crypto Format Nat

def voucherVersion : Nat := 1

structure WriteVoucher where
  version : Nat
  (issuerPkHex holderPkHex : Text)
  (quotaBytes expiresUtc : Nat)
  (nonceHex signatureHex : Text)
deriving DecidableEq

def voucherContext : Bytes := ascii "operator_write_voucher"

def WriteVoucher.signingBytes (voucher : WriteVoucher) : Bytes :=
  ascii "ciphervault-write-voucher-v1:" ++ leBytes 4 voucher.version ++ ascii ":" ++
    utf8 voucher.issuerPkHex ++ ascii ":" ++
    utf8 voucher.holderPkHex ++ ascii ":" ++ leBytes 8 voucher.quotaBytes ++ ascii ":" ++
      leBytes 8 voucher.expiresUtc ++
    ascii ":" ++ utf8 voucher.nonceHex

variable (E : Externals)

def WriteVoucher.issue (issuer : Bytes) (holderPkHex : Text) (quotaBytes ttlSecs : Nat) (nonce : Bytes)
    (now : Nat) : Except StorageError WriteVoucher :=
  match Hex.decode holderPkHex with
  | none => .error (forbidden "voucher holder key must be hex")
  | some holder =>
    if holder.length ≠ 32 then .error (forbidden "voucher holder key must be 32 bytes")
    else if quotaBytes = 0 then .error (forbidden "voucher quota must be positive")
    else if ttlSecs = 0 then .error (forbidden "voucher TTL must be positive")
    else
      let voucher : WriteVoucher :=
        { version := voucherVersion, issuerPkHex := Hex.encode (E.ed25519Public issuer),
          holderPkHex := holderPkHex
          quotaBytes := quotaBytes, expiresUtc := min (now + ttlSecs) (2 ^ 64 - 1),
          nonceHex := Hex.encode nonce
          signatureHex := [] }
      .ok { voucher with
        signatureHex := Hex.encode (signWithDomain E issuer voucherContext voucher.signingBytes) }

def WriteVoucher.verify (voucher : WriteVoucher) (expectedIssuerPkHex : Text) (now : Nat) :
    Except StorageError Unit :=
  if voucher.version ≠ voucherVersion then
    .error (forbidden s!"unsupported voucher version {voucher.version}")
  else if !eqIgnoreAsciiCase voucher.issuerPkHex expectedIssuerPkHex then
    .error (forbidden "voucher issuer mismatch")
  else do
    let issuer ← decodeHexField "voucher" voucher.issuerPkHex "issuer key" 32
    let _ ← decodeHexField "voucher" voucher.holderPkHex "holder key" 32
    let _ ← decodeHexField "voucher" voucher.nonceHex "nonce" 32
    let signature ← decodeHexField "voucher" voucher.signatureHex "signature" 64
    (verifyWithDomain E issuer voucherContext voucher.signingBytes signature).mapError fun _ =>
      forbidden "voucher signature verification failed"
    if voucher.quotaBytes = 0 then .error (forbidden "voucher quota must be positive")
    else if now > voucher.expiresUtc then .error (forbidden "voucher expired")
    else .ok ()

structure VoucherCharge where
  (quotaBytes expiresUtc spentBytes : Nat)
  holderPkHex : Text
deriving DecidableEq

structure VoucherLedger where
  (maxQuotaBytes userQuotaBytes : Nat)
  spent : Dict Text VoucherCharge
  holderSpent : Dict Text Nat

def u64Max : Nat := 2 ^ 64 - 1

def saturatingAdd (a b : Nat) : Nat := min (a + b) u64Max

variable (ledger : VoucherLedger)

namespace VoucherLedger

def new (maxQuotaBytes userQuotaBytes : Nat) : VoucherLedger :=
  { maxQuotaBytes := maxQuotaBytes, userQuotaBytes := userQuotaBytes, spent := ∅, holderSpent := ∅ }

def total (holder : Text) : Nat := (ledger.holderSpent.lookup holder).getD 0

def pruneExpired (now : Nat) : VoucherLedger :=
  { ledger with spent := Dict.retain (fun _ charge => now ≤ charge.expiresUtc) ledger.spent }

/-- The terms that a nonce is pinned to, those of the voucher on first use. -/
def pinned (voucher : WriteVoucher) : VoucherCharge :=
  (ledger.spent.lookup voucher.nonceHex).getD
    { quotaBytes := voucher.quotaBytes, expiresUtc := voucher.expiresUtc, spentBytes := 0
      holderPkHex := voucher.holderPkHex }

def charged (voucher : WriteVoucher) (bytes : Nat) : VoucherLedger :=
  let entry := ledger.pinned voucher
  { ledger with
    holderSpent := ledger.holderSpent.insert voucher.holderPkHex
      (saturatingAdd (ledger.total voucher.holderPkHex) bytes)
    spent := ledger.spent.insert voucher.nonceHex
      { entry with spentBytes := saturatingAdd entry.spentBytes bytes } }

def charge (voucher : WriteVoucher) (expectedIssuerPkHex : Text)
    (now bytes : Nat) : Except StorageError VoucherLedger := do
  voucher.verify E expectedIssuerPkHex now
  if voucher.quotaBytes > ledger.maxQuotaBytes then
    .error (forbidden "voucher quota exceeds operator maximum")
  else
    let entry := ledger.pinned voucher
    if entry.quotaBytes ≠ voucher.quotaBytes ∨ entry.expiresUtc ≠ voucher.expiresUtc then
      .error (forbidden "voucher terms changed for nonce")
    else if saturatingAdd entry.spentBytes bytes > entry.quotaBytes then
      .error { status := 429, message := "voucher quota exhausted" }
    else if ledger.userQuotaBytes > 0 ∧
        saturatingAdd (ledger.total voucher.holderPkHex) bytes > ledger.userQuotaBytes then
      .error { status := 429, message := "user quota exhausted" }
    else .ok (ledger.charged voucher bytes)

/-- Charges a voucher, within its quota and that of its holder. -/
def tryConsume (voucher : WriteVoucher) (expectedIssuerPkHex : Text)
    (now bytes : Nat) : Except StorageError Unit × VoucherLedger :=
  match (ledger.pruneExpired now).charge E voucher expectedIssuerPkHex now bytes with
  | .ok ledger' => (.ok (), ledger')
  | .error e => (.error e, ledger.pruneExpired now)

def released (nonceHex : Text) (bytes : Nat) : Nat :=
  match ledger.spent.lookup nonceHex with
  | some entry => min bytes entry.spentBytes
  | none => 0

def refundHolder (totals : Dict Text Nat) (holder : Text) (bytes : Nat) : Dict Text Nat :=
  match totals.lookup holder with
  | none => totals
  | some total => if total - bytes = 0 then totals.erase holder else totals.insert holder (total - bytes)

/-- Gives back what an upload did not use. -/
def release (nonceHex : Text) (bytes : Nat) : VoucherLedger :=
  match ledger.spent.lookup nonceHex with
  | none => ledger
  | some entry =>
    let released := min bytes entry.spentBytes
    { ledger with
      spent := ledger.spent.insert nonceHex { entry with spentBytes := entry.spentBytes - released }
      holderSpent :=
        if entry.holderPkHex = [] then ledger.holderSpent
        else refundHolder ledger.holderSpent entry.holderPkHex released }

/-- The versions of the file. -/
inductive LedgerFile where
  | versioned (version : Nat) (spent : Dict Text VoucherCharge) (holderSpent : Dict Text Nat)
  | unversioned (spent : Dict Text VoucherCharge)

def encode : LedgerFile := .versioned 2 ledger.spent ledger.holderSpent

def validNonceKey (nonce : Text) : Bool :=
  nonce.length == 64 && nonce.all fun c => (Hex.value c).isSome && !c.isUpper

def activeTotals (spent : Dict Text VoucherCharge) : Dict Text Nat :=
  spent.entries.foldl (fun totals e =>
    if e.2.holderPkHex = [] then totals
    else totals.insert e.2.holderPkHex
      (saturatingAdd ((totals.lookup e.2.holderPkHex).getD 0) e.2.spentBytes)) ∅

def parts : LedgerFile → Except String (Dict Text VoucherCharge × Dict Text Nat)
  | .versioned version spent holderSpent =>
    if version ≠ 2 then .error "Unsupported voucher ledger version"
    else if holderSpent.entries.any fun e => !validNonceKey e.1 then .error "Invalid holder key in ledger"
    else .ok (spent, holderSpent)
  | .unversioned spent => .ok (spent, ∅)

/-- Reads a ledger of any version. -/
def decodeInto (file : LedgerFile) : Except String VoucherLedger := do
  let (spent, totals) ← parts file
  if spent.entries.any fun e => !validNonceKey e.1 || decide (e.2.spentBytes > e.2.quotaBytes) then
    .error "Invalid voucher charge in ledger"
  else
    let spent := Dict.retain (fun nonce charge => validNonceKey nonce &&
      decide (charge.spentBytes ≤ charge.quotaBytes)) spent
    .ok { ledger with
      spent := spent
      holderSpent := Dict.merge (fun total active => max (total.getD 0) active) (activeTotals spent) totals }

end VoucherLedger

/-- What `verify` makes sure of. -/
structure Verified (voucher : WriteVoucher) (now : Nat) : Prop where
  holder : ∃ key : Bytes, voucher.holderPkHex = Hex.encode key ∧ key.length = 32
  nonce : ∃ nonce : Bytes, voucher.nonceHex = Hex.encode nonce ∧ nonce.length = 32
  unexpired : now ≤ voucher.expiresUtc

theorem WriteVoucher.verify_spec {E : Externals} {voucher : WriteVoucher} {issuer : Text} {now : Nat}
    (h : voucher.verify E issuer now = .ok ()) : Verified voucher now := by
  simp only [WriteVoucher.verify, ite_error_eq_ok, bind_eq_ok, decodeHexField_eq_ok] at h
  obtain ⟨_, _, _, _, holder, hholder, nonce, hn, _, _, _, _, _, hexpiry, _⟩ := h
  exact ⟨⟨holder, hholder⟩, ⟨nonce, hn⟩, le_of_not_gt hexpiry⟩

theorem validNonceKey_encode {bytes : Bytes} (h : bytes.length = 32) :
    VoucherLedger.validNonceKey (Hex.encode bytes) = true := by
  rw [VoucherLedger.validNonceKey, Bool.and_eq_true, beq_iff_eq, Hex.length_encode, h, List.all_eq_true]
  refine ⟨rfl, fun c hc => ?_⟩
  rw [(Hex.mem_encode hc).1, (Hex.mem_encode hc).2]
  rfl

theorem Verified.holder_ne_nil {voucher : WriteVoucher} {now : Nat} (h : Verified voucher now) :
    voucher.holderPkHex ≠ [] := by
  obtain ⟨key, hkey, hlength⟩ := h.holder
  intro hnil
  have hlen := Hex.length_encode key
  rw [← hkey, hnil, hlength] at hlen
  cases hlen

theorem saturatingAdd_eq {a b bound : Nat} (h : saturatingAdd a b ≤ bound)
    (hbound : bound < u64Max) : saturatingAdd a b = a + b := by
  unfold saturatingAdd at h ⊢
  omega

theorem saturatingAdd_le (a b : Nat) : saturatingAdd a b ≤ a + b := min_le_left _ _

namespace VoucherLedger

variable {E : Externals} {ledger ledger' : VoucherLedger} {voucher : WriteVoucher} {issuer : Text}
  {now bytes : Nat}

/-- A voucher that is charged passes all of the checks. -/
structure Accepts (E : Externals) (ledger : VoucherLedger) (voucher : WriteVoucher) (issuer : Text)
    (now bytes : Nat) :
    Prop where
  verified : voucher.verify E issuer now = .ok ()
  quota : (ledger.pinned voucher).quotaBytes = voucher.quotaBytes
  expires : (ledger.pinned voucher).expiresUtc = voucher.expiresUtc
  fits : saturatingAdd (ledger.pinned voucher).spentBytes bytes ≤ voucher.quotaBytes
  capped : 0 < ledger.userQuotaBytes →
    saturatingAdd (ledger.total voucher.holderPkHex) bytes ≤ ledger.userQuotaBytes

theorem charge_eq_ok (h : ledger.charge E voucher issuer now bytes = .ok ledger') :
    Accepts E ledger voucher issuer now bytes ∧ ledger' = ledger.charged voucher bytes := by
  simp only [charge, bind_eq_ok, ite_error_eq_ok, Except.ok.injEq] at h
  obtain ⟨_, hver, _, hterms, hf, hcapped, rfl⟩ := h
  have hquota : (ledger.pinned voucher).quotaBytes = voucher.quotaBytes := by
    by_contra hne
    exact hterms (.inl hne)
  have hexpires : (ledger.pinned voucher).expiresUtc = voucher.expiresUtc := by
    by_contra hne
    exact hterms (.inr hne)
  refine ⟨⟨hver, hquota, hexpires, hquota ▸ Nat.le_of_not_gt hf, fun hpos => ?_⟩, rfl⟩
  by_contra hover
  exact hcapped ⟨hpos, Nat.lt_of_not_le hover⟩

theorem tryConsume_cases (E : Externals) (ledger : VoucherLedger) (voucher : WriteVoucher) (issuer : Text)
    (now bytes : Nat) : (Accepts E (ledger.pruneExpired now) voucher issuer now bytes ∧
        ledger.tryConsume E voucher issuer now bytes =
          (.ok (), (ledger.pruneExpired now).charged voucher bytes)) ∨
      ∃ e, ledger.tryConsume E voucher issuer now bytes = (.error e, ledger.pruneExpired now) := by
  rw [tryConsume]
  cases hcharge : (ledger.pruneExpired now).charge E voucher issuer now bytes with
  | ok ledger' =>
    obtain ⟨hacc, rfl⟩ := charge_eq_ok hcharge
    exact .inl ⟨hacc, rfl⟩
  | error e => exact .inr ⟨e, rfl⟩

variable {nonce : Text} {entry : VoucherCharge}

theorem lookup_pruneExpired : (ledger.pruneExpired now).spent.lookup nonce = some entry ↔
      ledger.spent.lookup nonce = some entry ∧ now ≤ entry.expiresUtc := by
  rw [pruneExpired, lookup_retain_eq_some, decide_eq_true_eq]

@[simp] theorem total_pruneExpired (holder : Text) :
    (ledger.pruneExpired now).total holder = ledger.total holder := rfl

theorem lookup_charged_self : (ledger.charged voucher bytes).spent.lookup voucher.nonceHex =
    some { ledger.pinned voucher with
      spentBytes := saturatingAdd (ledger.pinned voucher).spentBytes bytes } :=
  lookup_insert _

theorem lookup_charged_of_ne (h : nonce ≠ voucher.nonceHex) :
    (ledger.charged voucher bytes).spent.lookup nonce = ledger.spent.lookup nonce := lookup_insert_ne h

theorem pinned_of_some (h : ledger.spent.lookup voucher.nonceHex = some entry) :
    ledger.pinned voucher = entry := by
  rw [pinned, h, Option.getD_some]

theorem total_charged (holder : Text) : (ledger.charged voucher bytes).total holder =
    if holder = voucher.holderPkHex then saturatingAdd (ledger.total holder) bytes
      else ledger.total holder := by
  rw [total, charged]
  split
  · rename_i heq
    subst heq
    rw [lookup_insert, Option.getD_some]
  · rename_i hne
    rw [lookup_insert_ne hne, total]

theorem lookup_release_self (ledger : VoucherLedger) (nonce : Text) (bytes : Nat) :
    (ledger.release nonce bytes).spent.lookup nonce =
    (ledger.spent.lookup nonce).map fun entry =>
      { entry with spentBytes := entry.spentBytes - ledger.released nonce bytes } := by
  unfold release released
  cases hl : ledger.spent.lookup nonce with
  | none => exact hl
  | some entry => exact lookup_insert _

theorem lookup_release_of_ne {other : Text} (h : other ≠ nonce) :
    (ledger.release nonce bytes).spent.lookup other = ledger.spent.lookup other := by
  unfold release
  cases ledger.spent.lookup nonce with
  | none => rfl
  | some entry => exact lookup_insert_ne h

theorem total_release (ledger : VoucherLedger) (nonce : Text) (bytes : Nat) (holder : Text) :
    (ledger.release nonce bytes).total holder =
    ledger.total holder -
      if (ledger.spent.lookup nonce).any (fun entry => entry.holderPkHex == holder) && holder != [] then
        ledger.released nonce bytes else 0 := by
  unfold release released
  cases hl : ledger.spent.lookup nonce with
  | none => rfl
  | some entry =>
    simp only [Option.any_some]
    by_cases hnil : entry.holderPkHex = []
    · rw [total, if_pos hnil]
      by_cases hholder : holder = []
      · simp [hholder, total]
      · have hne : (entry.holderPkHex == holder) = false :=
          beq_eq_false_iff_ne.mpr fun h => hholder (h ▸ hnil)
        simp [hne, total]
    · rw [total, if_neg hnil, refundHolder]
      by_cases hs : holder = entry.holderPkHex
      · subst hs
        cases ht : ledger.holderSpent.lookup entry.holderPkHex with
        | none => simp [ht, total]
        | some recorded =>
          simp only [total, ht, Option.getD_some, beq_self_eq_true, Bool.true_and, bne_iff_ne, ne_eq, hnil,
            not_false_eq_true, if_true]
          split
          · rename_i hzero
            rw [AList.lookup_erase, Option.getD_none, hzero]
          · rw [lookup_insert, Option.getD_some]
      · have hne : (entry.holderPkHex == holder) = false := beq_eq_false_iff_ne.mpr fun h => hs h.symm
        rw [hne, Bool.false_and, if_neg Bool.false_ne_true, Nat.sub_zero, total]
        cases ledger.holderSpent.lookup entry.holderPkHex with
        | none => rfl
        | some recorded =>
          dsimp only
          split
          · rw [lookup_erase_ne hs]
          · rw [lookup_insert_ne hs]

theorem activeTotals_induct {spent : Dict Text VoucherCharge} {P : Dict Text Nat → Prop} (hempty : P ∅)
    (hinsert : ∀ totals nonce entry total, spent.lookup nonce = some entry →
      entry.holderPkHex ≠ [] → P totals →
      P (totals.insert entry.holderPkHex total)) : P (activeTotals spent) := by
  refine List.foldlRecOn (motive := P) spent.entries _ hempty fun totals htotals e he => ?_
  split
  · exact htotals
  · rename_i hnamed
    exact hinsert totals e.1 e.2 _ (lookup_eq_some_iff.mpr he) hnamed htotals

end VoucherLedger

structure Charge where
  (holderPkHex nonceHex : Text)
  bytes : Nat
deriving DecidableEq

/-- Charges and refunds, for the record. -/
inductive Movement where
  | charged (voucher : WriteVoucher) (bytes : Nat)
  | refunded (charge : Charge) (bytes : Nat)

/-- A ledger with the last time that was passed to it, what has moved so far, and the charges not
released. -/
structure World where
  ledger : VoucherLedger
  clock : Nat
  movements : List Movement
  live : List Charge

/-- A charge is released with its nonce and its bytes; the holder only says whose charge it is. -/
inductive Event where
  | consume (voucher : WriteVoucher) (expectedIssuerPkHex : Text) (now bytes : Nat)
  | release (charge : Charge)
  | prune (now : Nat)
  | reload

def reload : VoucherLedger :=
  match (VoucherLedger.new ledger.maxQuotaBytes ledger.userQuotaBytes).decodeInto ledger.encode with
  | .ok ledger' => ledger'
  | .error _ => .new 0 ledger.userQuotaBytes

def step (w : World) : Event → World
  | .consume voucher issuer now bytes =>
    match w.ledger.tryConsume E voucher issuer now bytes with
    | (.ok (), ledger) =>
      { ledger := ledger, clock := now, movements := w.movements ++ [.charged voucher bytes]
        live := w.live ++ [⟨voucher.holderPkHex, voucher.nonceHex, bytes⟩] }
    | (.error _, ledger) => { w with ledger := ledger, clock := now }
  | .release charge =>
    { w with
      ledger := w.ledger.release charge.nonceHex charge.bytes
      movements := w.movements ++ [.refunded charge (w.ledger.released charge.nonceHex charge.bytes)]
      live := w.live.erase charge }
  | .prune now => { w with ledger := w.ledger.pruneExpired now, clock := now }
  | .reload => { w with ledger := reload w.ledger }

def run (w : World) (events : List Event) : World := events.foldl (step E) w

theorem step_consume_cases (w : World) (voucher : WriteVoucher) (issuer : Text) (now bytes : Nat) :
    (VoucherLedger.Accepts E (w.ledger.pruneExpired now) voucher issuer now bytes ∧
      step E w (.consume voucher issuer now bytes) =
        { ledger := (w.ledger.pruneExpired now).charged voucher bytes, clock := now
          movements := w.movements ++ [.charged voucher bytes]
          live := w.live ++ [⟨voucher.holderPkHex, voucher.nonceHex, bytes⟩] }) ∨
      step E w (.consume voucher issuer now bytes) = step E w (.prune now) := by
  rw [step]
  rcases VoucherLedger.tryConsume_cases E w.ledger voucher issuer now bytes with ⟨hacc, heq⟩ | ⟨e, heq⟩
  · rw [heq]
    exact .inl ⟨hacc, rfl⟩
  · rw [heq]
    exact .inr rfl

def World.of : World := { ledger := ledger, clock := 0, movements := [], live := [] }

namespace Sample

def voucher (holder : Byte) (quotaBytes expiresUtc : Nat) (nonce : Byte) : WriteVoucher :=
  let voucher : WriteVoucher :=
    { version := 1, issuerPkHex := Hex.encode (reference.ed25519Public [1#8])
      holderPkHex := Hex.encode (List.replicate 32 holder), quotaBytes := quotaBytes, expiresUtc := expiresUtc
      nonceHex := Hex.encode (List.replicate 32 nonce), signatureHex := [] }
  { voucher with
    signatureHex := Hex.encode (signWithDomain reference [1#8] voucherContext voucher.signingBytes) }

def consume (voucher : WriteVoucher) (now bytes : Nat) : Event :=
  .consume voucher (Hex.encode (reference.ed25519Public [1#8])) now bytes

def release (voucher : WriteVoucher) (bytes : Nat) : Event :=
  .release ⟨voucher.holderPkHex, voucher.nonceHex, bytes⟩

end Sample

/-- The key that a voucher is issued for is kept as it is spelt; `verify` takes it exactly in lower
case. -/
theorem issue_verify_iff {E : Externals} (hE : Lawful E) {issuer nonce : Bytes}
    (hnonce : nonce.length = 32) {expected holderPkHex : Text}
    (hexpected : eqIgnoreAsciiCase (Hex.encode (E.ed25519Public issuer)) expected = true)
    {quotaBytes ttlSecs issued now : Nat} {voucher : WriteVoucher}
    (h : WriteVoucher.issue E issuer holderPkHex quotaBytes ttlSecs nonce issued = .ok voucher)
    (hnow : now ≤ voucher.expiresUtc) :
    voucher.verify E expected now = .ok () ↔ Hex.lower holderPkHex = holderPkHex := by
  rw [WriteVoucher.issue] at h
  split at h
  · cases h
  rename_i holder hdecode
  simp only [ite_error_eq_ok, Except.ok.injEq] at h
  obtain ⟨hlen, hquota, -, rfl⟩ := h
  have hlower := Hex.encode_of_decode hdecode
  simp only [WriteVoucher.verify, ite_error_eq_ok, bind_eq_ok, decodeHexField_eq_ok, mapError_eq_ok]
  constructor
  · rintro ⟨-, -, -, -, key, ⟨rfl, -⟩, -⟩
    rw [Hex.decode_encode] at hdecode
    rw [← hlower, Option.some.inj hdecode]
  · intro hspelt
    exact ⟨not_not.mpr rfl, by simp [hexpected], _, ⟨rfl, hE.public_length _⟩, _,
      ⟨hspelt.symm.trans hlower.symm, not_not.mp hlen⟩, _, ⟨rfl, hnonce⟩, _,
      ⟨rfl, hE.sign_length _ _⟩, (), if_pos (hE.verify_sign _ _), hquota, not_lt.mpr hnow, trivial⟩

theorem issue_invite_verify_iff {E : Externals} (hE : Lawful E) {issuer nonce : Bytes}
    (hnonce : nonce.length = 32) {expected nodePkHex : Text}
    (hexpected : eqIgnoreAsciiCase (Hex.encode (E.ed25519Public issuer)) expected = true)
    {ttlSecs issued now : Nat} {invite : JoinInvite}
    (h : JoinInvite.issue E issuer nodePkHex ttlSecs nonce issued = .ok invite)
    (hnow : now ≤ invite.expiresUtc) :
    invite.verify E expected now = .ok () ↔ Hex.lower nodePkHex = nodePkHex := by
  rw [JoinInvite.issue] at h
  split at h
  · cases h
  rename_i node hdecode
  simp only [ite_error_eq_ok, Except.ok.injEq] at h
  obtain ⟨hlen, -, rfl⟩ := h
  have hlower := Hex.encode_of_decode hdecode
  simp only [JoinInvite.verify, ite_error_eq_ok, bind_eq_ok, decodeCanonicalHex_eq_ok]
  constructor
  · rintro ⟨-, -, -, -, -, key, ⟨rfl, -⟩, -⟩
    rw [Hex.decode_encode] at hdecode
    rw [← hlower, Option.some.inj hdecode]
  · intro hspelt
    exact ⟨not_not.mpr rfl, not_not.mpr rfl, by simp [hexpected], _, ⟨rfl, hE.public_length _⟩, _,
      ⟨hspelt.symm.trans hlower.symm, not_not.mp hlen⟩, _, ⟨rfl, hnonce⟩, _,
      ⟨rfl, hE.sign_length _ _⟩, (), verifyInviteSignature_eq_ok.mpr (hE.verify_sign _ _),
      not_lt.mpr hnow, trivial⟩

/-- What is issued is verified until it expires exactly when the key is spelt in lower case. -/
theorem issued_verify {E : Externals} (hE : Lawful E) {issuer nonce : Bytes}
    (hnonce : nonce.length = 32) {expected : Text}
    (hexpected : eqIgnoreAsciiCase (Hex.encode (E.ed25519Public issuer)) expected = true) :
    (∀ holderPkHex quotaBytes ttlSecs issued voucher,
      WriteVoucher.issue E issuer holderPkHex quotaBytes ttlSecs nonce issued = .ok voucher →
        ∀ now ≤ voucher.expiresUtc,
          (voucher.verify E expected now = .ok () ↔ Hex.lower holderPkHex = holderPkHex)) ∧
    ∀ nodePkHex ttlSecs issued invite,
      JoinInvite.issue E issuer nodePkHex ttlSecs nonce issued = .ok invite →
        ∀ now ≤ invite.expiresUtc,
          (invite.verify E expected now = .ok () ↔ Hex.lower nodePkHex = nodePkHex) :=
  ⟨fun _ _ _ _ _ h _ hnow => issue_verify_iff hE hnonce hexpected h hnow,
    fun _ _ _ _ h _ hnow => issue_invite_verify_iff hE hnonce hexpected h hnow⟩

namespace Sample

def expected : Text := Hex.encode (reference.ed25519Public [1#8])

theorem issued_voucher_verified :
    WriteVoucher.issue reference [1#8] (Hex.encode (List.replicate 32 65#8)) 200 40
        (List.replicate 32 7#8) 10 = .ok (voucher 65 200 50 7) ∧
      (voucher 65 200 50 7).verify reference expected 50 = .ok () := by
  have hissued : WriteVoucher.issue reference [1#8] (Hex.encode (List.replicate 32 65#8)) 200 40
    (List.replicate 32 7#8) 10 =
      .ok (voucher 65 200 50 7) := by decide +kernel
  have hall := @issued_verify reference reference_lawful [1#8] (List.replicate 32 7#8) (by decide) expected
    (by decide +kernel)
  exact ⟨hissued, (hall.1 _ _ _ _ _ hissued 50 (by decide)).mpr (by decide)⟩

/-- A key in capital letters is accepted by `issue`, and refused by `verify`. -/
theorem capitals_refused :
    ((WriteVoucher.issue reference [1#8] (List.replicate 64 'A') 200 40
        (List.replicate 32 7#8) 10).toOption.map fun voucher => voucher.verify reference expected 50) =
      some (.error (forbidden "voucher holder key must be lowercase hex")) ∧
    ((JoinInvite.issue reference [1#8] (List.replicate 64 'A') 40 (List.replicate 32 7#8) 10).toOption.map
        fun invite => invite.verify reference expected 50) =
      some (.error (forbidden "invite node key must be lowercase hex")) := by
  decide +kernel

end Sample

end CipherVault.Network.Vouchers
