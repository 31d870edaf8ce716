import CipherVault.Network.Vouchers

/-!
# Network.Refunds

The total that the voucher ledger records of a holder, against its charges that were not released. A
release goes through the entry of the nonce, which may be gone, pinned to somebody else or without a
holder (`Unrefunded`).
-/

namespace CipherVault.Network.Vouchers

open Crypto Format VoucherLedger World List

def chargedBytes (holder : Text) (charges : List Charge) : Nat :=
  (charges.map fun charge => if charge.holderPkHex = holder then charge.bytes else 0).sum

/-- A total does not overflow; a charge is released once, while the entry of its nonce has its
holder and its bytes; the ledger is not read back. -/
def Refundable (E : Externals) (w : World) : Event → Prop
  | .consume voucher issuer now bytes => voucher.verify E issuer now = .ok () →
      w.ledger.total voucher.holderPkHex + bytes ≤ u64Max
  | .release charge => charge ∈ w.live ∧ ∃ entry, w.ledger.spent.lookup charge.nonceHex = some entry ∧
      entry.holderPkHex = charge.holderPkHex ∧ charge.bytes ≤ entry.spentBytes
  | .prune _ => True
  | .reload => False

/-- The totals are those of the charges not yet refunded. -/
structure Conserved (w : World) : Prop where
  named : ∀ charge ∈ w.live, charge.holderPkHex ≠ []
  totals : ∀ holder, w.ledger.total holder = chargedBytes holder w.live

section

variable {E : Externals} {w : World} {holder : Text}

theorem chargedBytes_append (charges : List Charge) (charge : Charge) :
    chargedBytes holder (charges ++ [charge]) =
    chargedBytes holder charges + if charge.holderPkHex = holder then charge.bytes else 0 := by
  rw [chargedBytes, map_append, sum_append]
  rfl

theorem chargedBytes_erase {charges : List Charge} (holder : Text) {charge : Charge} (h : charge ∈ charges) :
    chargedBytes holder (charges.erase charge) + (if charge.holderPkHex = holder then charge.bytes else 0) =
      chargedBytes holder charges := by
  have hperm := (List.perm_cons_erase h).map fun c : Charge => if c.holderPkHex = holder then c.bytes else 0
  have hsum := hperm.sum_eq
  rw [map_cons, sum_cons] at hsum
  rw [chargedBytes, chargedBytes]
  omega

theorem Conserved.consume {bytes : Nat} {voucher : WriteVoucher} {issuer : Text} {now : Nat} (h : Conserved w)
    (hfits : voucher.verify E issuer now = .ok () → w.ledger.total voucher.holderPkHex + bytes ≤ u64Max) :
    Conserved (step E w (.consume voucher issuer now bytes)) := by
  rcases step_consume_cases E w voucher issuer now bytes with ⟨hacc, heq⟩ | heq
  · rw [heq]
    refine ⟨fun charge hcharge => ?_, fun holder => ?_⟩
    · rcases mem_append.mp hcharge with hold | hnew
      · exact h.named charge hold
      · rw [mem_singleton.mp hnew]
        exact (WriteVoucher.verify_spec hacc.verified).holder_ne_nil
    · have ht := h.totals holder
      have hb := hfits hacc.verified
      rw [total_charged, total_pruneExpired, chargedBytes_append]
      by_cases hholder : holder = voucher.holderPkHex
      · subst hholder
        rw [if_pos rfl, if_pos rfl, ← ht, saturatingAdd]
        exact Nat.min_eq_left hb
      · rw [if_neg hholder, if_neg (Ne.symm hholder), ht, Nat.add_zero]
  · rw [heq]
    exact ⟨h.named, h.totals⟩

theorem Conserved.release {charge : Charge} {entry : VoucherCharge} (h : Conserved w)
    (hlive : charge ∈ w.live)
    (hlookup : w.ledger.spent.lookup charge.nonceHex = some entry)
    (hholder : entry.holderPkHex = charge.holderPkHex)
    (hbytes : charge.bytes ≤ entry.spentBytes) : Conserved (step E w (.release charge)) := by
  have hrel : w.ledger.released charge.nonceHex charge.bytes = charge.bytes := by
    rw [VoucherLedger.released, hlookup]
    exact Nat.min_eq_left hbytes
  refine ⟨fun other ho => h.named other (List.mem_of_mem_erase ho), fun holder => ?_⟩
  have ht := h.totals holder
  have herase := chargedBytes_erase holder hlive
  show (w.ledger.release charge.nonceHex charge.bytes).total holder =
    chargedBytes holder (w.live.erase charge)
  rw [total_release, hlookup, Option.any_some, hrel, hholder]
  by_cases heq : charge.holderPkHex = holder
  · have hnamed := h.named charge hlive
    rw [if_pos heq] at herase
    rw [heq] at hnamed ⊢
    simp only [beq_self_eq_true, Bool.true_and, bne_iff_ne, ne_eq, hnamed, not_false_eq_true, if_true]
    omega
  · rw [if_neg heq] at herase
    rw [beq_eq_false_iff_ne.mpr heq, Bool.false_and, if_neg Bool.false_ne_true]
    omega

theorem Conserved.step {event : Event} (hevent : Refundable E w event) (h : Conserved w) :
    Conserved (Vouchers.step E w event) := by
  cases event with
  | consume voucher issuer now bytes => exact h.consume hevent
  | release charge =>
    obtain ⟨hl, entry, hget, hholder, hb⟩ := hevent
    exact h.release hl hget hholder hb
  | prune now => exact ⟨h.named, h.totals⟩
  | reload => exact hevent.elim

/-- A fresh ledger, or one read from a file of the first version. -/
def Started (maxQuotaBytes userQuotaBytes : Nat) (ledger : VoucherLedger) : Prop :=
  ledger = .new maxQuotaBytes userQuotaBytes ∨
    ∃ spent, (∀ nonce entry, spent.lookup nonce = some entry → entry.holderPkHex = []) ∧
      (new maxQuotaBytes userQuotaBytes).decodeInto (.unversioned spent) = .ok ledger

theorem activeTotals_eq_empty {spent : Dict Text VoucherCharge}
    (h : ∀ nonce entry, spent.lookup nonce = some entry → entry.holderPkHex = []) : activeTotals spent = ∅ :=
  activeTotals_induct (P := (· = ∅)) rfl fun _ nonce entry _ he hnamed _ => absurd (h nonce entry he) hnamed

theorem Started.total {maxQuotaBytes userQuotaBytes : Nat} {ledger : VoucherLedger}
    (h : Started maxQuotaBytes userQuotaBytes ledger) (holder : Text) : ledger.total holder = 0 := by
  rcases h with rfl | ⟨spent, hs, hdec⟩
  · rfl
  · simp only [decodeInto, parts, ok_bind, ite_error_eq_ok, Except.ok.injEq] at hdec
    obtain ⟨_, rfl⟩ := hdec
    rw [VoucherLedger.total, activeTotals_eq_empty]
    · rfl
    · exact fun nonce entry he => hs nonce entry (lookup_retain_eq_some.mp he).1

/-- In every run in which a charge is released while the ledger still has the entry that was
charged, the total of a holder is the bytes of its charges that were not released. -/
theorem refunds_conserved (E : Externals) (maxQuotaBytes userQuotaBytes : Nat) (ledger : VoucherLedger)
    (hstart : Started maxQuotaBytes userQuotaBytes ledger) (events : List Event)
    (hall : Runs.Along (step E) (Refundable E) (of ledger) events) (holder : Text) :
    (run E (of ledger) events).ledger.total holder = chargedBytes holder (run E (of ledger) events).live := by
  have hend : Conserved (run E (of ledger) events) :=
    hall.keeps (fun _ _ hev hw => Conserved.step hev hw)
      ⟨fun charge hcharge => absurd hcharge not_mem_nil, fun holder => hstart.total holder⟩
  exact hend.totals holder

end

namespace Unrefunded

open Sample (voucher consume)

def holder : Text := Hex.encode (replicate 32 65#8)

def accounts (w : World) : Nat × Nat := (w.ledger.total holder, chargedBytes holder w.live)

def older : LedgerFile :=
  .unversioned (AList.insert (Hex.encode (replicate 32 7#8))
    { quotaBytes := 200, expiresUtc := 50, spentBytes := 20, holderPkHex := [] } ∅)

def reopened : World :=
  match (new u64Max 0).decodeInto older with
  | .ok ledger => of ledger
  | .error _ => of (.new 0 0)

/-- Charges that stay in the total: the entry expires before the release, or has no holder. A charge
of another holder is taken off, and a total saturates. -/
theorem charges_not_refunded :
    accounts (run reference (of (.new u64Max 0)) [consume (voucher 65 200 50 7) 1 30, .prune 51,
        Sample.release (voucher 65 200 50 7) 30]) = (30, 0) ∧
      accounts (run reference (of (.new u64Max 0)) [consume (voucher 65 200 50 7) 1 30,
        consume (voucher 66 200 50 7) 1 20, Sample.release (voucher 66 200 50 7) 20]) = (10, 30) ∧
      ((new u64Max 0).decodeInto older).isOk = true ∧
      accounts (run reference reopened [consume (voucher 65 200 50 7) 1 30,
        Sample.release (voucher 65 200 50 7) 30]) =
        (30, 0) ∧
      accounts (run reference (of (.new u64Max 0)) [consume (voucher 65 u64Max 50 7) 1 u64Max,
        consume (voucher 65 u64Max 50 8) 1 5]) = (u64Max, u64Max + 5) := by
  decide +kernel

def events : List Event :=
  [consume (voucher 65 200 50 7) 1 30, consume (voucher 65 200 50 7) 1 20,
    Sample.release (voucher 65 200 50 7) 20, .prune 51]

theorem refundable_events : Runs.Along (step reference) (Refundable reference) (of (.new u64Max 0))
    events := by
  refine ⟨fun _ => by decide +kernel, fun _ => by decide +kernel, ⟨by decide +kernel, ?_⟩, trivial, trivial⟩
  exact ⟨{ quotaBytes := 200, expiresUtc := 50, spentBytes := 50, holderPkHex := holder }, by decide +kernel⟩

theorem events_conserved : (run reference (of (.new u64Max 0)) events).ledger.total holder =
    chargedBytes holder (run reference (of (.new u64Max 0)) events).live :=
  refunds_conserved reference u64Max 0 _ (.inl rfl) events refundable_events holder

end Unrefunded

end CipherVault.Network.Vouchers
