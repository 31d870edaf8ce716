import CipherVault.Network.Vouchers

/-!
# Network.Quotas

The bytes of a nonce against the quota of its voucher, and the bytes of a holder against the cap for
each user. `Overspent` holds runs in which they are missed.
-/

namespace CipherVault.Network.Vouchers

open Crypto Format VoucherLedger Nat Dict World List

/-! ## A ledger that can be read back -/

/-- The keys are canonical, and no entry is over its quota. -/
structure Kept (ledger : VoucherLedger) : Prop where
  nonces : ∀ nonce entry, ledger.spent.lookup nonce = some entry →
    validNonceKey nonce = true ∧ entry.spentBytes ≤ entry.quotaBytes
  pinned : ∀ nonce entry, ledger.spent.lookup nonce = some entry → entry.holderPkHex ≠ [] →
    validNonceKey entry.holderPkHex = true
  holders : ∀ holder bytes, ledger.holderSpent.lookup holder = some bytes → validNonceKey holder = true

variable {E : Externals} {ledger : VoucherLedger} {bytes : Nat}

section

variable {voucher : WriteVoucher} {issuer : Text} {now : Nat}

theorem kept_new (maxQuotaBytes userQuotaBytes : Nat) : Kept (.new maxQuotaBytes userQuotaBytes) :=
  ⟨nofun, nofun, nofun⟩

theorem Kept.prune (h : Kept ledger) : Kept (ledger.pruneExpired now) :=
  ⟨fun nonce entry he => h.nonces nonce entry (lookup_pruneExpired.mp he).1,
    fun nonce entry he => h.pinned nonce entry (lookup_pruneExpired.mp he).1, h.holders⟩

theorem Kept.charged (h : Kept ledger) (haccepts : Accepts E ledger voucher issuer now bytes) :
    Kept (ledger.charged voucher bytes) := by
  have hver := WriteVoucher.verify_spec haccepts.verified
  obtain ⟨nonce, hn, hlen⟩ := hver.nonce
  obtain ⟨key, hkey, hlen'⟩ := hver.holder
  have hholder : validNonceKey voucher.holderPkHex = true := by
    rw [hkey]
    exact validNonceKey_encode hlen'
  refine ⟨fun other => ?_, fun other => ?_, fun other => ?_⟩
  · refine forall_lookup_insert (h.nonces other) fun heq => ⟨?_, ?_⟩
    · rw [heq, hn]
      exact validNonceKey_encode hlen
    · show _ ≤ (ledger.pinned voucher).quotaBytes
      rw [haccepts.quota]
      exact haccepts.fits
  · refine forall_lookup_insert (h.pinned other) fun heq => ?_
    show (ledger.pinned voucher).holderPkHex ≠ [] → validNonceKey (ledger.pinned voucher).holderPkHex = true
    cases hl : ledger.spent.lookup voucher.nonceHex with
    | some entry =>
      rw [pinned_of_some hl]
      exact h.pinned _ _ hl
    | none =>
      rw [VoucherLedger.pinned, hl]
      exact fun _ => hholder
  · refine forall_lookup_insert (P := fun _ => validNonceKey other = true) (h.holders other) fun heq => ?_
    rw [heq]
    exact hholder

theorem Kept.release (h : Kept ledger) (nonce : Text) : Kept (ledger.release nonce bytes) := by
  unfold VoucherLedger.release
  cases hl : ledger.spent.lookup nonce with
  | none => exact h
  | some entry =>
    obtain ⟨hv, hle⟩ := h.nonces nonce entry hl
    refine ⟨fun other => ?_, fun other => ?_, ?_⟩
    · refine forall_lookup_insert (h.nonces other) fun heq => ⟨?_, ?_⟩
      · rw [heq]
        exact hv
      · show entry.spentBytes - _ ≤ entry.quotaBytes
        omega
    · exact forall_lookup_insert (h.pinned other) fun _ => h.pinned nonce entry hl
    · dsimp only
      split
      · exact h.holders
      · rw [refundHolder]
        cases ht : ledger.holderSpent.lookup entry.holderPkHex with
        | none => exact h.holders
        | some total =>
          intro holder
          dsimp only
          split
          · exact fun recorded hrec => h.holders holder recorded (lookup_of_lookup_erase hrec).2
          · refine forall_lookup_insert (P := fun _ => validNonceKey holder = true)
              (h.holders holder) fun heq => ?_
            rw [heq]
            exact h.holders _ _ ht

def activeBytes (holder : Text) (spent : Dict Text VoucherCharge) : Nat :=
  sum (fun _ charge => if charge.holderPkHex = holder then charge.spentBytes else 0) spent

theorem activeTotals_le (holder : Text) (spent : Dict Text VoucherCharge) :
    ((activeTotals spent).lookup holder).getD 0 ≤ activeBytes holder spent := by
  have hlist : ∀ (l : List ((_ : Text) × VoucherCharge)) (totals : Dict Text Nat), ((l.foldl (fun totals e =>
        if e.2.holderPkHex = [] then totals
        else totals.insert e.2.holderPkHex
          (saturatingAdd ((totals.lookup e.2.holderPkHex).getD 0) e.2.spentBytes))
        totals).lookup holder).getD 0 ≤
      (totals.lookup holder).getD 0 + (l.map fun e => if e.2.holderPkHex = holder then
        e.2.spentBytes else 0).sum := by
    intro l
    induction l with
    | nil => exact fun _ => le_refl _
    | cons e l ih =>
      intro totals
      rw [foldl_cons, map_cons, sum_cons]
      refine le_trans (ih _) ?_
      by_cases hnil : e.2.holderPkHex = []
      · rw [if_pos hnil]
        omega
      · rw [if_neg hnil]
        by_cases hs : holder = e.2.holderPkHex
        · subst hs
          have hle := saturatingAdd_le ((totals.lookup e.2.holderPkHex).getD 0) e.2.spentBytes
          rw [lookup_insert, Option.getD_some, if_pos rfl]
          omega
        · rw [lookup_insert_ne hs]
          omega
  have h := hlist spent.entries ∅
  rw [AList.lookup_empty, Option.getD_none, zero_add] at h
  exact h

theorem reload_eq (h : Kept ledger) : reload ledger =
    { ledger with
      holderSpent := Dict.merge (fun total active => max (total.getD 0) active)
        (activeTotals ledger.spent) ledger.holderSpent } := by
  have hhol : (ledger.holderSpent.entries.any fun e => !validNonceKey e.1) = false := by
    refine Dict.any_eq_false (p := fun holder _ => !validNonceKey holder) fun holder bytes hb => ?_
    rw [h.holders holder bytes hb]
    rfl
  have hnonces : (ledger.spent.entries.any fun e =>
      !validNonceKey e.1 || decide (e.2.spentBytes > e.2.quotaBytes)) = false := by
    refine any_eq_false (p := fun nonce (charge : VoucherCharge) =>
      !validNonceKey nonce || decide (charge.spentBytes > charge.quotaBytes)) fun nonce entry he => ?_
    obtain ⟨hv, hle⟩ := h.nonces nonce entry he
    rw [hv, Bool.not_true, Bool.false_or, decide_eq_false_iff_not]
    omega
  have hretain : retain (fun nonce (charge : VoucherCharge) =>
      validNonceKey nonce && decide (charge.spentBytes ≤ charge.quotaBytes)) ledger.spent = ledger.spent := by
    refine retain_eq_self fun nonce entry he => ?_
    obtain ⟨hv, hle⟩ := h.nonces nonce entry he
    rw [hv, Bool.true_and, decide_eq_true_eq]
    exact hle
  have hdec : (new ledger.maxQuotaBytes ledger.userQuotaBytes).decodeInto ledger.encode = .ok
      { new ledger.maxQuotaBytes ledger.userQuotaBytes with
        spent := ledger.spent
        holderSpent := merge (fun total active => max (total.getD 0) active) (activeTotals ledger.spent)
          ledger.holderSpent } := by
    simp only [decodeInto, encode, parts, ne_eq, not_true_eq_false, if_false, hhol, Bool.false_eq_true,
      ok_bind, hnonces, hretain]
  rw [reload, hdec]
  rfl

theorem reload_spec (h : Kept ledger) : (reload ledger).spent = ledger.spent ∧
    (reload ledger).userQuotaBytes = ledger.userQuotaBytes ∧ (reload ledger).holderSpent =
      Dict.merge (fun total active => max (total.getD 0) active) (activeTotals ledger.spent)
        ledger.holderSpent := by
  rw [reload_eq h]
  exact ⟨rfl, rfl, rfl⟩

theorem reload_total (h : Kept ledger) (holder : Text) :
    (reload ledger).total holder =
      max (ledger.total holder) (((activeTotals ledger.spent).lookup holder).getD 0) := by
  rw [total, (reload_spec h).2.2, lookup_merge, total]
  cases (activeTotals ledger.spent).lookup holder with
  | none => exact (max_eq_left (zero_le _)).symm
  | some active => rfl

theorem exists_of_activeTotals {holder : Text} {active : Nat} {spent : Dict Text VoucherCharge}
    (h : (activeTotals spent).lookup holder = some active) :
    ∃ nonce entry, spent.lookup nonce = some entry ∧ entry.holderPkHex = holder ∧ holder ≠ [] := by
  refine activeTotals_induct (P := fun totals => ∀ total, totals.lookup holder = some total → ∃ nonce entry,
    spent.lookup nonce = some entry ∧ entry.holderPkHex = holder ∧ holder ≠ []) nofun ?_ active h
  intro totals nonce entry total he hnamed htotals total' hl
  rcases lookup_insert_cases hl with ⟨rfl, _⟩ | ⟨_, hold⟩
  · exact ⟨nonce, entry, he, rfl, hnamed⟩
  · exact htotals total' hold

theorem Kept.reload (h : Kept ledger) : Kept (reload ledger) := by
  obtain ⟨hs, _, hhol⟩ := reload_spec h
  refine ⟨?_, ?_, ?_⟩
  · rw [hs]
    exact h.nonces
  · rw [hs]
    exact h.pinned
  · intro holder bytes hb
    rw [hhol, lookup_merge] at hb
    cases hact : (activeTotals ledger.spent).lookup holder with
    | none =>
      rw [hact] at hb
      exact h.holders holder bytes hb
    | some active =>
      obtain ⟨nonce, entry, he, rfl, hnil⟩ := exists_of_activeTotals hact
      exact h.pinned nonce entry he hnil

theorem Kept.step {w : World} (h : Kept w.ledger) (event : Event) : Kept (step E w event).ledger := by
  cases event with
  | consume voucher issuer now bytes =>
    rcases step_consume_cases E w voucher issuer now bytes with ⟨hacc, heq⟩ | heq
    · rw [heq]
      exact h.prune.charged hacc
    · rw [heq]
      exact h.prune
  | release charge => exact h.release charge.nonceHex
  | prune now => exact h.prune
  | reload => exact h.reload

end

def Movement.accepted (nonce : Text) : Movement → Nat
  | .charged voucher bytes => if voucher.nonceHex = nonce then bytes else 0
  | .refunded _ _ => 0

def Movement.released (nonce : Text) : Movement → Nat
  | .charged _ _ => 0
  | .refunded charge bytes => if charge.nonceHex = nonce then bytes else 0

def accepted (nonce : Text) (movements : List Movement) : Nat := (movements.map (Movement.accepted nonce)).sum

def released (nonce : Text) (movements : List Movement) : Nat := (movements.map (Movement.released nonce)).sum

variable (expiryOf : Text → Nat)

/-- The nonce is in the ledger, with what is accepted and not released. -/
structure Open (w : World) (nonce : Text) (entry : VoucherCharge) : Prop where
  lookup : w.ledger.spent.lookup nonce = some entry
  expires : entry.expiresUtc = expiryOf nonce
  spent : accepted nonce w.movements = released nonce w.movements + entry.spentBytes
  quota : ∀ voucher bytes, .charged voucher bytes ∈ w.movements → voucher.nonceHex = nonce →
    voucher.quotaBytes = entry.quotaBytes

/-- The nonce is not in the ledger; if it ever was, it is expired. -/
structure Closed (w : World) (nonce : Text) : Prop where
  lookup : w.ledger.spent.lookup nonce = none
  released : released nonce w.movements ≤ accepted nonce w.movements
  past : ∀ voucher bytes, .charged voucher bytes ∈ w.movements → voucher.nonceHex = nonce →
    expiryOf nonce < w.clock ∧ accepted nonce w.movements ≤ Vouchers.released nonce w.movements +
      voucher.quotaBytes

/-- A nonce is charged as its entry says, or it can be charged no more. -/
def Sound (w : World) (nonce : Text) : Prop :=
  (∃ entry, Open expiryOf w nonce entry) ∨ Closed expiryOf w nonce

/-- The times do not go back, the vouchers of one nonce have one expiry, and no quota is the largest
number. -/
def Dated (E : Externals) (expiryOf : Text → Nat) (w : World) : Event → Prop
  | .consume voucher issuer now _ => w.clock ≤ now ∧ (voucher.verify E issuer now = .ok () →
      voucher.expiresUtc = expiryOf voucher.nonceHex ∧ voucher.quotaBytes < u64Max)
  | .prune now => w.clock ≤ now
  | _ => True

variable {w : World} {issuer : Text} {now : Nat}

section

@[simp] theorem clock_release {charge : Charge} : (step E w (.release charge)).clock = w.clock := rfl

@[simp] theorem clock_reload : (step E w .reload).clock = w.clock := rfl

@[simp] theorem clock_consume {voucher : WriteVoucher} :
    (step E w (.consume voucher issuer now bytes)).clock = now := by
  rcases step_consume_cases E w voucher issuer now bytes with ⟨_, heq⟩ | heq
  · rw [heq]
  · rw [heq]
    rfl

end

variable {w' : World} {event : Event}

section

variable {expiryOf : Text → Nat} {nonce : Text}

theorem accepted_append (movements : List Movement) (movement : Movement) :
    accepted nonce (movements ++ [movement]) = accepted nonce movements + movement.accepted nonce := by
  rw [accepted, map_append, List.sum_append]
  rfl

theorem released_append (movements : List Movement) (movement : Movement) :
    released nonce (movements ++ [movement]) = released nonce movements + movement.released nonce := by
  rw [released, map_append, List.sum_append]
  rfl

theorem accepted_eq_zero {movements : List Movement}
    (h : ∀ voucher bytes, .charged voucher bytes ∈ movements → voucher.nonceHex ≠ nonce) :
    accepted nonce movements = 0 := by
  refine List.sum_eq_zero fun n hn => ?_
  obtain ⟨movement, hmem, rfl⟩ := mem_map.mp hn
  cases movement with
  | charged voucher bytes => exact if_neg (h voucher bytes hmem)
  | refunded charge bytes => rfl

theorem Sound.prune (hkept : Kept w.ledger) (h : Sound expiryOf w nonce) (hnow : w.clock ≤ now) :
    Sound expiryOf { w with ledger := w.ledger.pruneExpired now, clock := now } nonce := by
  rcases h with ⟨entry, h⟩ | h
  · by_cases hl : now ≤ entry.expiresUtc
    · exact .inl ⟨entry, lookup_pruneExpired.mpr ⟨h.lookup, hl⟩, h.expires, h.spent, h.quota⟩
    · refine .inr ⟨?_, ?_, ?_⟩
      · rw [Option.eq_none_iff_forall_ne_some]
        intro other ho
        obtain ⟨hs, hle⟩ := lookup_pruneExpired.mp ho
        rw [h.lookup] at hs
        cases hs
        exact hl hle
      · have hsp := h.spent
        show released nonce w.movements ≤ accepted nonce w.movements
        omega
      · intro voucher bytes hmem hn
        have hsp := h.spent
        have hquota := h.quota voucher bytes hmem hn
        have hle := (hkept.nonces nonce entry h.lookup).2
        have hexpires := h.expires
        show expiryOf nonce < now ∧ accepted nonce w.movements ≤ released nonce w.movements +
          voucher.quotaBytes
        omega
  · refine .inr ⟨?_, h.released, fun voucher bytes hmem hn => ?_⟩
    · rw [Option.eq_none_iff_forall_ne_some]
      intro other ho
      have hget := (lookup_pruneExpired.mp ho).1
      rw [h.lookup] at hget
      cases hget
    · obtain ⟨hpast, hle⟩ := h.past voucher bytes hmem hn
      exact ⟨lt_of_lt_of_le hpast hnow, hle⟩

theorem Sound.congr (h : Sound expiryOf w nonce) (hclock : w'.clock = w.clock)
    (hlookup : w'.ledger.spent.lookup nonce = w.ledger.spent.lookup nonce)
    (haccepted : accepted nonce w'.movements = accepted nonce w.movements)
    (hreleased : released nonce w'.movements = released nonce w.movements)
    (hmem : ∀ voucher bytes, Movement.charged voucher bytes ∈ w'.movements → voucher.nonceHex = nonce →
      Movement.charged voucher bytes ∈ w.movements) : Sound expiryOf w' nonce := by
  rcases h with ⟨entry, h⟩ | h
  · refine .inl ⟨entry, hlookup.trans h.lookup, h.expires, ?_, ?_⟩
    · rw [haccepted, hreleased]
      exact h.spent
    · exact fun voucher bytes hvou hn => h.quota voucher bytes (hmem voucher bytes hvou hn) hn
  · refine .inr ⟨hlookup.trans h.lookup, ?_, fun voucher bytes hvou hn => ?_⟩
    · rw [haccepted, hreleased]
      exact h.released
    · rw [haccepted, hreleased, hclock]
      exact h.past voucher bytes (hmem voucher bytes hvou hn) hn

variable {voucher : WriteVoucher} {live : List Charge}

theorem Sound.charged_of_ne (h : Sound expiryOf w nonce) (hne : voucher.nonceHex ≠ nonce) :
    Sound expiryOf { w with ledger := w.ledger.charged voucher bytes,
                            movements := w.movements ++ [.charged voucher bytes]
                            live := live } nonce := by
  refine h.congr rfl (lookup_charged_of_ne hne.symm) ?_ (released_append _ _) ?_
  · show accepted nonce (w.movements ++ [.charged voucher bytes]) = _
    rw [accepted_append, Movement.accepted, if_neg hne, add_zero]
  · intro other n ho hn
    rcases mem_append.mp ho with hold | hnew
    · exact hold
    · cases mem_singleton.mp hnew
      exact absurd hn hne

theorem Sound.charged (h : Sound expiryOf w voucher.nonceHex)
    (haccepts : Accepts E w.ledger voucher issuer w.clock bytes)
    (hexpires : voucher.expiresUtc = expiryOf voucher.nonceHex) (hquota : voucher.quotaBytes < u64Max) :
    Sound expiryOf { w with ledger := w.ledger.charged voucher bytes,
                            movements := w.movements ++ [.charged voucher bytes]
                            live := live } voucher.nonceHex := by
  have hexact := saturatingAdd_eq haccepts.fits hquota
  have hacc : accepted voucher.nonceHex (w.movements ++ [.charged voucher bytes]) =
      accepted voucher.nonceHex w.movements + bytes := by
    rw [accepted_append, Movement.accepted, if_pos rfl]
  have hrel : released voucher.nonceHex (w.movements ++ [.charged voucher bytes]) =
      released voucher.nonceHex w.movements := released_append _ _
  refine .inl ⟨_, lookup_charged_self, haccepts.expires.trans hexpires, ?_, ?_⟩
  · show accepted voucher.nonceHex (w.movements ++ [.charged voucher bytes]) =
      released voucher.nonceHex (w.movements ++ [.charged voucher bytes]) +
        saturatingAdd (w.ledger.pinned voucher).spentBytes bytes
    rw [hacc, hrel, hexact]
    rcases h with ⟨entry, h⟩ | h
    · rw [pinned_of_some h.lookup, h.spent]
      omega
    · have hunused : accepted voucher.nonceHex w.movements = 0 := by
        refine accepted_eq_zero fun other n ho hn => ?_
        have hpast := (h.past other n ho hn).1
        have hune := (WriteVoucher.verify_spec haccepts.verified).unexpired
        omega
      have hno := h.released
      rw [pinned, h.lookup]
      show _ = _ + (0 + bytes)
      omega
  · intro other n ho hn
    rcases mem_append.mp ho with hold | hnew
    · rcases h with ⟨entry, h⟩ | h
      · rw [pinned_of_some h.lookup]
        exact h.quota other n hold hn
      · have hpast := (h.past other n hold hn).1
        have hune := (WriteVoucher.verify_spec haccepts.verified).unexpired
        omega
    · cases mem_singleton.mp hnew
      exact haccepts.quota.symm

theorem Sound.release {charge : Charge} (h : Sound expiryOf w nonce) :
    Sound expiryOf (step E w (.release charge)) nonce := by
  have hacc : accepted nonce (step E w (.release charge)).movements = accepted nonce w.movements :=
    accepted_append _ _
  have hrel : released nonce (step E w (.release charge)).movements = released nonce w.movements +
      if charge.nonceHex = nonce then w.ledger.released charge.nonceHex charge.bytes else 0 :=
        released_append _ _
  have hmem : ∀ other n, Movement.charged other n ∈ (step E w (.release charge)).movements →
      Movement.charged other n ∈ w.movements := by
    intro other n ho
    rcases mem_append.mp ho with hold | hnew
    · exact hold
    · cases mem_singleton.mp hnew
  by_cases hn : charge.nonceHex = nonce
  · subst hn
    have hl := lookup_release_self w.ledger charge.nonceHex charge.bytes
    rw [if_pos rfl, VoucherLedger.released] at hrel
    rcases h with ⟨entry, h⟩ | h
    · -- the bytes leave the entry
      rw [h.lookup] at hl hrel
      refine .inl ⟨_, hl, h.expires, ?_, fun other n ho => h.quota other n (hmem other n ho)⟩
      have hs := h.spent
      rw [hacc, hrel]
      rw [VoucherLedger.released, h.lookup]
      dsimp only
      omega
    · rw [h.lookup] at hl hrel
      exact Sound.congr (.inr h) rfl (hl.trans h.lookup.symm) hacc hrel fun other n ho _ => hmem other n ho
  · rw [if_neg hn] at hrel
    exact h.congr rfl (lookup_release_of_ne (Ne.symm hn)) hacc hrel fun other n ho _ => hmem other n ho

theorem Sound.step (hkept : Kept w.ledger) (h : ∀ nonce, Sound expiryOf w nonce)
    (hevent : Dated E expiryOf w event) : ∀ nonce, Sound expiryOf (step E w event) nonce := by
  intro nonce
  cases event with
  | consume voucher issuer now bytes =>
    have hpruned := fun nonce => (h nonce).prune hkept hevent.1
    rcases step_consume_cases E w voucher issuer now bytes with ⟨hacc, heq⟩ | heq
    · rw [heq]
      obtain ⟨hexpires, hquota⟩ := hevent.2 hacc.verified
      by_cases hn : voucher.nonceHex = nonce
      · subst hn
        exact (hpruned _).charged hacc hexpires hquota
      · exact (hpruned nonce).charged_of_ne hn
    · rw [heq]
      exact hpruned nonce
  | release charge => exact (h nonce).release
  | prune now => exact (h nonce).prune hkept hevent
  | reload =>
    refine (h nonce).congr rfl ?_ rfl rfl fun _ _ hmem _ => hmem
    rw [Vouchers.step, (reload_spec hkept).1]

end

def Movement.acceptedBy (holder : Text) : Movement → Nat
  | .charged voucher bytes => if voucher.holderPkHex = holder then bytes else 0
  | .refunded _ _ => 0

def Movement.releasedOf (holder : Text) : Movement → Nat
  | .charged _ _ => 0
  | .refunded charge bytes => if charge.holderPkHex = holder then bytes else 0

def acceptedBy (holder : Text) (movements : List Movement) : Nat :=
  (movements.map (Movement.acceptedBy holder)).sum

def releasedOf (holder : Text) (movements : List Movement) : Nat :=
  (movements.map (Movement.releasedOf holder)).sum

/-- The totals of the holders are between what is live and the cap. -/
structure Capped (holderOf : Text → Text) (cap : Nat) (w : World) : Prop where
  inForce : w.ledger.userQuotaBytes = cap
  pinned : ∀ nonce entry, w.ledger.spent.lookup nonce = some entry → entry.holderPkHex = holderOf nonce
  named : ∀ nonce entry, w.ledger.spent.lookup nonce = some entry → entry.holderPkHex ≠ []
  active : ∀ holder, activeBytes holder w.ledger.spent ≤ w.ledger.total holder
  capped : ∀ holder, w.ledger.total holder ≤ cap
  owed : ∀ holder, acceptedBy holder w.movements ≤ releasedOf holder w.movements + w.ledger.total holder

/-- The vouchers of one nonce are of one holder, and a charge is released for the holder that it was
made for. -/
def OneHolder (E : Externals) (holderOf : Text → Text) (_ : World) : Event → Prop
  | .consume voucher issuer now _ => voucher.verify E issuer now = .ok () →
      voucher.holderPkHex = holderOf voucher.nonceHex
  | .release charge => charge.holderPkHex = holderOf charge.nonceHex
  | _ => True

section

variable {holderOf : Text → Text} {cap : Nat} {holder : Text}

theorem acceptedBy_append (movements : List Movement) (movement : Movement) :
    acceptedBy holder (movements ++ [movement]) = acceptedBy holder movements + movement.acceptedBy
      holder := by
  rw [acceptedBy, map_append, List.sum_append]
  rfl

theorem releasedOf_append (movements : List Movement) (movement : Movement) :
    releasedOf holder (movements ++ [movement]) = releasedOf holder movements + movement.releasedOf
      holder := by
  rw [releasedOf, map_append, List.sum_append]
  rfl

theorem activeBytes_prune (holder : Text) (ledger : VoucherLedger) :
    activeBytes holder (ledger.pruneExpired now).spent ≤ activeBytes holder ledger.spent := by
  exact sum_retain_le (fun _ (charge : VoucherCharge) => if charge.holderPkHex = holder then
    charge.spentBytes else 0) _ _

/-- The entries are of the holders of their nonces, whose totals cover them. -/
structure Backed (holderOf : Text → Text) (ledger : VoucherLedger) : Prop where
  pinned : ∀ nonce entry, ledger.spent.lookup nonce = some entry → entry.holderPkHex = holderOf nonce
  named : ∀ nonce entry, ledger.spent.lookup nonce = some entry → entry.holderPkHex ≠ []
  active : ∀ holder, activeBytes holder ledger.spent ≤ ledger.total holder

theorem Capped.backed (h : Capped holderOf cap w) : Backed holderOf w.ledger := ⟨h.pinned, h.named, h.active⟩

theorem Backed.prune (h : Backed holderOf ledger) : Backed holderOf (ledger.pruneExpired now) :=
  ⟨fun nonce entry he => h.pinned nonce entry (lookup_pruneExpired.mp he).1,
    fun nonce entry he => h.named nonce entry (lookup_pruneExpired.mp he).1,
    fun holder => le_trans (activeBytes_prune holder ledger) (h.active holder)⟩

theorem Capped.prune (h : Capped holderOf cap w) (now : Nat) :
    Capped holderOf cap { w with ledger := w.ledger.pruneExpired now, clock := now } :=
  have hbacked := h.backed.prune
  ⟨h.inForce, hbacked.pinned, hbacked.named, hbacked.active, h.capped, h.owed⟩

theorem activeBytes_insert (holder : Text) (spent : Dict Text VoucherCharge) (nonce : Text)
    (entry : VoucherCharge) :
    activeBytes holder (spent.insert nonce entry) +
        ((spent.lookup nonce).map fun old => if old.holderPkHex = holder then old.spentBytes else 0).getD 0 =
      activeBytes holder spent + if entry.holderPkHex = holder then entry.spentBytes else 0 := by
  have hold := sum_eq (fun _ charge => if charge.holderPkHex = holder then charge.spentBytes else 0)
    spent nonce
  rw [activeBytes, activeBytes, sum_insert, hold]
  omega

variable {voucher : WriteVoucher}

theorem activeBytes_charged (hpinned : (ledger.pinned voucher).holderPkHex = voucher.holderPkHex) :
    activeBytes holder (ledger.charged voucher bytes).spent ≤
      activeBytes holder ledger.spent + if voucher.holderPkHex = holder then bytes else 0 := by
  have hins := activeBytes_insert holder ledger.spent voucher.nonceHex
    { ledger.pinned voucher with spentBytes := saturatingAdd (ledger.pinned voucher).spentBytes bytes }
  have hsum := saturatingAdd_le (ledger.pinned voucher).spentBytes bytes
  show activeBytes holder (ledger.spent.insert voucher.nonceHex _) ≤ _
  dsimp only at hins
  rw [← hpinned]
  cases hl : ledger.spent.lookup voucher.nonceHex with
  | none =>
    have hzero : (ledger.pinned voucher).spentBytes = 0 := by
      rw [pinned, hl]
      rfl
    split at hins
    · rename_i heq
      rw [if_pos heq]
      omega
    · rename_i hne
      omega
  | some entry =>
    rw [hl, Option.map_some, Option.getD_some, ← pinned_of_some hl] at hins
    split at hins
    · rename_i heq
      rw [if_pos heq]
      omega
    · rename_i hne
      omega

theorem Backed.charged (h : Backed holderOf ledger)
    (haccepts : Accepts E ledger voucher issuer now bytes)
    (hholder : voucher.holderPkHex = holderOf voucher.nonceHex)
    (hexact : saturatingAdd (ledger.total voucher.holderPkHex) bytes =
      ledger.total voucher.holderPkHex + bytes) :
    Backed holderOf (ledger.charged voucher bytes) := by
  have hpinned : (ledger.pinned voucher).holderPkHex = voucher.holderPkHex := by
    cases hl : ledger.spent.lookup voucher.nonceHex with
    | none =>
      rw [VoucherLedger.pinned, hl]
      rfl
    | some entry => rw [pinned_of_some hl, h.pinned _ _ hl, hholder]
  refine ⟨fun nonce => ?_, fun nonce => ?_, fun holder => ?_⟩
  · refine forall_lookup_insert (P := fun entry : VoucherCharge => entry.holderPkHex =
      holderOf nonce) (h.pinned nonce) fun heq => ?_
    rw [heq, ← hholder]
    exact hpinned
  · refine forall_lookup_insert (P := fun entry : VoucherCharge => entry.holderPkHex ≠ [])
      (h.named nonce) fun _ => ?_
    rw [hpinned]
    exact (WriteVoucher.verify_spec haccepts.verified).holder_ne_nil
  · have hact := h.active holder
    refine le_trans (activeBytes_charged hpinned) ?_
    rw [total_charged]
    by_cases heq : holder = voucher.holderPkHex
    · rw [if_pos heq, if_pos heq.symm, heq, hexact]
      rw [heq] at hact
      omega
    · rw [if_neg heq, if_neg (Ne.symm heq)]
      omega

theorem Capped.charged {live : List Charge} (h : Capped holderOf cap w) (hpos : 0 < cap)
    (hcap : cap < u64Max) (haccepts : Accepts E w.ledger voucher issuer w.clock bytes)
    (hholder : voucher.holderPkHex = holderOf voucher.nonceHex) :
    Capped holderOf cap { w with ledger := w.ledger.charged voucher bytes
                                 movements := w.movements ++ [.charged voucher bytes], live := live } := by
  have hf := haccepts.capped (h.inForce.symm ▸ hpos)
  rw [h.inForce] at hf
  have hexact := saturatingAdd_eq hf hcap
  have hbacked := h.backed.charged haccepts hholder hexact
  refine ⟨h.inForce, hbacked.pinned, hbacked.named, hbacked.active, fun holder => ?_, fun holder => ?_⟩
  · rw [total_charged]
    split
    · rename_i heq
      rw [heq]
      exact hf
    · exact h.capped holder
  · have howed := h.owed holder
    rw [total_charged, acceptedBy_append, releasedOf_append, Movement.acceptedBy, Movement.releasedOf]
    by_cases heq : holder = voucher.holderPkHex
    · rw [if_pos heq, if_pos heq.symm, heq, hexact]
      rw [heq] at howed
      omega
    · rw [if_neg heq, if_neg (Ne.symm heq)]
      omega

theorem activeBytes_release {nonce : Text} {entry : VoucherCharge} (holder : Text) (bytes : Nat)
    (hlookup : ledger.spent.lookup nonce = some entry) :
    activeBytes holder (ledger.release nonce bytes).spent +
      (if entry.holderPkHex = holder then ledger.released nonce bytes
      else 0) = activeBytes holder ledger.spent := by
  have hins := activeBytes_insert holder ledger.spent nonce
    { entry with spentBytes := entry.spentBytes - min bytes entry.spentBytes }
  rw [hlookup, Option.map_some, Option.getD_some] at hins
  dsimp only at hins
  rw [VoucherLedger.release, VoucherLedger.released, hlookup]
  dsimp only
  split at hins
  · rename_i heq
    rw [if_pos heq]
    omega
  · rename_i hne
    rw [if_neg hne]
    omega

theorem Backed.back (h : Backed holderOf ledger) (nonce : Text) (bytes : Nat) (holder : Text) :
    (ledger.release nonce bytes).total holder =
        ledger.total holder - (if holderOf nonce = holder then ledger.released nonce bytes else 0) ∧
      activeBytes holder (ledger.release nonce bytes).spent +
        (if holderOf nonce = holder then ledger.released nonce bytes else 0) =
          activeBytes holder ledger.spent := by
  have ht := total_release ledger nonce bytes holder
  cases hl : ledger.spent.lookup nonce with
  | none =>
    have hzero : ledger.released nonce bytes = 0 := by
      rw [VoucherLedger.released, hl]
    rw [ht, hzero, VoucherLedger.release, hl]
    simp
  | some entry =>
    have hs := h.pinned _ _ hl
    have hnamed := h.named _ _ hl
    have hact := activeBytes_release holder bytes hl
    rw [hs] at hact hnamed
    refine ⟨?_, hact⟩
    rw [ht, hl, Option.any_some, hs]
    by_cases heq : holderOf nonce = holder
    · rw [← heq]
      simp [hnamed]
    · simp [heq]

theorem Backed.release (h : Backed holderOf ledger) (nonce : Text) (bytes : Nat) :
    Backed holderOf (ledger.release nonce bytes) := by
  have he : ∀ other entry', (ledger.release nonce bytes).spent.lookup other = some entry' →
      ∃ entry, ledger.spent.lookup other = some entry ∧ entry'.holderPkHex = entry.holderPkHex := by
    intro other entry' he'
    by_cases hn : other = nonce
    · subst hn
      rw [lookup_release_self] at he'
      obtain ⟨entry, he, rfl⟩ := Option.map_eq_some_iff.mp he'
      exact ⟨entry, he, rfl⟩
    · rw [lookup_release_of_ne hn] at he'
      exact ⟨entry', he', rfl⟩
  refine ⟨fun other entry' he' => ?_, fun other entry' he' => ?_, fun holder => ?_⟩
  · obtain ⟨entry, hold, hs⟩ := he other entry' he'
    rw [hs]
    exact h.pinned other entry hold
  · obtain ⟨entry, hold, hs⟩ := he other entry' he'
    rw [hs]
    exact h.named other entry hold
  · have hact := h.active holder
    obtain ⟨ht, hsum⟩ := h.back nonce bytes holder
    omega

theorem Capped.release {charge : Charge} (h : Capped holderOf cap w)
    (hholder : charge.holderPkHex = holderOf charge.nonceHex) :
    Capped holderOf cap (step E w (.release charge)) := by
  have hforce : (w.ledger.release charge.nonceHex charge.bytes).userQuotaBytes = cap := by
    rw [← h.inForce]
    unfold VoucherLedger.release
    split <;> rfl
  have hbacked := h.backed.release charge.nonceHex charge.bytes
  refine ⟨hforce, hbacked.pinned, hbacked.named, hbacked.active, fun holder => ?_, fun holder => ?_⟩
  · have hcapped := h.capped holder
    rw [step, (h.backed.back _ _ holder).1]
    omega
  · have howed := h.owed holder
    rw [step, (h.backed.back _ _ holder).1, acceptedBy_append, releasedOf_append, Movement.acceptedBy,
      Movement.releasedOf, hholder]
    omega

theorem Backed.reload_total (hkept : Kept ledger) (h : Backed holderOf ledger) (holder : Text) :
    (reload ledger).total holder = ledger.total holder := by
  rw [Vouchers.reload_total hkept]
  exact max_eq_left (le_trans (activeTotals_le holder ledger.spent) (h.active holder))

theorem Capped.reload (hkept : Kept w.ledger) (h : Capped holderOf cap w) :
    Capped holderOf cap (Vouchers.step E w .reload) := by
  obtain ⟨hs, hforce, _⟩ := reload_spec hkept
  have ht := h.backed.reload_total hkept
  refine ⟨hforce.trans h.inForce, ?_, ?_, fun holder => ?_, fun holder => ?_, fun holder => ?_⟩
  · rw [step, hs]
    exact h.pinned
  · rw [step, hs]
    exact h.named
  · rw [step, hs, ht]
    exact h.active holder
  · rw [step, ht]
    exact h.capped holder
  · rw [step, ht]
    exact h.owed holder

theorem Capped.step (hpos : 0 < cap) (hcap : cap < u64Max) (hkept : Kept w.ledger)
    (h : Capped holderOf cap w) (hevent : OneHolder E holderOf w event) :
    Capped holderOf cap (step E w event) := by
  cases event with
  | consume voucher issuer now bytes =>
    rcases step_consume_cases E w voucher issuer now bytes with ⟨hacc, heq⟩ | heq
    · rw [heq]
      exact (h.prune now).charged hpos hcap hacc (hevent hacc.verified)
    · rw [heq]
      exact h.prune now
  | release charge => exact h.release hevent
  | prune now => exact h.prune now
  | reload => exact h.reload hkept

end

/-- In every run from a new ledger: with times and expiries in order, the charges under a nonce stay
within the quota of each of its vouchers; with one holder for a nonce, what a holder has stays
within the cap. -/
theorem quotas_kept (E : Externals) (maxQuotaBytes cap : Nat) :
    (∀ (expiryOf : Text → Nat) (events : List Event),
      Runs.Along (step E) (Dated E expiryOf) (of (.new maxQuotaBytes cap)) events →
      ∀ voucher bytes, .charged voucher bytes ∈ (run E (of (.new maxQuotaBytes cap)) events).movements →
        accepted voucher.nonceHex (run E (of (.new maxQuotaBytes cap)) events).movements ≤
          released voucher.nonceHex (run E (of (.new maxQuotaBytes cap)) events).movements +
            voucher.quotaBytes) ∧
    (0 < cap → cap < u64Max → ∀ (holderOf : Text → Text) (events : List Event),
      Runs.Along (step E) (OneHolder E holderOf) (of (.new maxQuotaBytes cap)) events →
      ∀ holder, acceptedBy holder (run E (of (.new maxQuotaBytes cap)) events).movements ≤
        releasedOf holder (run E (of (.new maxQuotaBytes cap)) events).movements + cap) := by
  refine ⟨?_, ?_⟩
  · intro expiryOf events hall voucher bytes hmem
    have hst : ∀ nonce, Sound expiryOf (of (.new maxQuotaBytes cap)) nonce :=
      fun nonce => .inr ⟨rfl, le_refl _, fun _ _ hmem => absurd hmem not_mem_nil⟩
    have hend : Kept (run E (of (.new maxQuotaBytes cap)) events).ledger ∧
        ∀ nonce, Sound expiryOf (run E (of (.new maxQuotaBytes cap)) events) nonce :=
      hall.keeps (I := fun w => Kept w.ledger ∧ ∀ nonce, Sound expiryOf w nonce)
        (fun w event hev hw => ⟨hw.1.step event, Sound.step hw.1 hw.2 hev⟩) ⟨kept_new maxQuotaBytes cap, hst⟩
    obtain ⟨hk, hsound⟩ := hend
    rcases hsound voucher.nonceHex with ⟨entry, ho⟩ | hclosed
    · have hs := ho.spent
      have hquota := ho.quota voucher bytes hmem rfl
      have hle := (hk.nonces _ _ ho.lookup).2
      omega
    · exact (hclosed.past voucher bytes hmem rfl).2
  · intro hpos hcap holderOf events hall holder
    have hst : Capped holderOf cap (of (.new maxQuotaBytes cap)) := by
      refine ⟨rfl, ?_, ?_, fun _ => le_refl _, fun _ => zero_le _, fun _ => le_refl _⟩
      · intro nonce entry he
        cases he
      · intro nonce entry he
        cases he
    have hend : Kept (run E (of (.new maxQuotaBytes cap)) events).ledger ∧
        Capped holderOf cap (run E (of (.new maxQuotaBytes cap)) events) :=
      hall.keeps (I := fun w => Kept w.ledger ∧ Capped holderOf cap w)
        (fun w event hev hw => ⟨hw.1.step event, hw.2.step hpos hcap hw.1 hev⟩)
          ⟨kept_new maxQuotaBytes cap, hst⟩
    obtain ⟨_, hcapped⟩ := hend
    have howed := hcapped.owed holder
    have hle := hcapped.capped holder
    omega

/-- The vouchers of one nonce are of one holder, and no total gets over the largest number. -/
def Exact (E : Externals) (holderOf : Text → Text) (w : World) : Event → Prop
  | .consume voucher issuer now bytes => voucher.verify E issuer now = .ok () →
      voucher.holderPkHex = holderOf voucher.nonceHex ∧ w.ledger.total voucher.holderPkHex + bytes ≤ u64Max
  | _ => True

theorem Backed.step {holderOf : Text → Text} (hkept : Kept w.ledger) (h : Backed holderOf w.ledger)
    (hevent : Exact E holderOf w event) : Backed holderOf (step E w event).ledger := by
  cases event with
  | consume voucher issuer now bytes =>
    rcases step_consume_cases E w voucher issuer now bytes with ⟨hacc, heq⟩ | heq
    · obtain ⟨hholder, hexact⟩ := hevent hacc.verified
      rw [heq]
      exact h.prune.charged hacc hholder (min_eq_left hexact)
    · rw [heq]
      exact h.prune
  | release charge => exact h.release _ _
  | prune now => exact h.prune
  | reload =>
    have hs := (reload_spec hkept).1
    refine ⟨hs ▸ h.pinned, hs ▸ h.named, fun holder => ?_⟩
    rw [Vouchers.step, hs, h.reload_total hkept]
    exact h.active holder

/-- Ledgers that differ only in how they note the totals. -/
def Alike (a b : VoucherLedger) : Prop :=
  ∃ totals, b = { a with holderSpent := totals } ∧ ∀ holder, b.total holder = a.total holder

section

variable {a b : VoucherLedger}

theorem Alike.prune (h : Alike a b) (now : Nat) : Alike (a.pruneExpired now) (b.pruneExpired now) := by
  obtain ⟨totals, rfl, ht⟩ := h
  exact ⟨totals, rfl, ht⟩

theorem Alike.tryConsume (h : Alike a b) (voucher : WriteVoucher) (issuer : Text) (now bytes : Nat) :
    (a.tryConsume E voucher issuer now bytes).1 = (b.tryConsume E voucher issuer now bytes).1 ∧
      Alike (a.tryConsume E voucher issuer now bytes).2 (b.tryConsume E voucher issuer now bytes).2 := by
  have hpruned := h.prune now
  rw [VoucherLedger.tryConsume, VoucherLedger.tryConsume]
  generalize a.pruneExpired now = a, b.pruneExpired now = b at hpruned
  obtain ⟨totals, rfl, ht⟩ := hpruned
  have hcha : Alike (a.charged voucher bytes)
    (VoucherLedger.charged { a with holderSpent := totals } voucher bytes) := by
    refine ⟨_, rfl, fun holder => ?_⟩
    rw [total_charged, total_charged, ht]
  rw [charge, charge, ht]
  cases voucher.verify E issuer now with
  | error e => exact ⟨rfl, totals, rfl, ht⟩
  | ok _ =>
    -- The four refusals leave both ledgers as they are.
    have hpinned : pinned { a with holderSpent := totals } voucher = a.pinned voucher := rfl
    simp only [ok_bind, hpinned]
    split_ifs
    · exact ⟨rfl, totals, rfl, ht⟩
    · exact ⟨rfl, totals, rfl, ht⟩
    · exact ⟨rfl, totals, rfl, ht⟩
    · exact ⟨rfl, totals, rfl, ht⟩
    · exact ⟨rfl, hcha⟩

theorem Alike.release (h : Alike a b) (nonce : Text) (bytes : Nat) :
    Alike (a.release nonce bytes) (b.release nonce bytes) := by
  obtain ⟨totals, rfl, ht⟩ := h
  refine ⟨(release { a with holderSpent := totals } nonce bytes).holderSpent, ?_, fun holder => ?_⟩
  · unfold release
    dsimp only
    split <;> rfl
  · rw [total_release, total_release, ht]
    rfl

theorem Alike.reload (h : Alike a b) (ha : Kept a) (hb : Kept b) : Alike (reload a) (reload b) := by
  obtain ⟨totals, rfl, ht⟩ := h
  refine ⟨(reload { a with holderSpent := totals }).holderSpent, ?_, fun holder => ?_⟩
  · rw [reload_eq ha, reload_eq hb]
  · rw [reload_total ha, reload_total hb, ht]

theorem step_consume_ledger (w : World) (voucher : WriteVoucher) (issuer : Text) (now bytes : Nat) :
    (step E w (.consume voucher issuer now bytes)).ledger =
      (w.ledger.tryConsume E voucher issuer now bytes).2 := by
  rw [step]
  split
  · next h => rw [h]
  · next h => rw [h]

theorem Alike.run (h : Alike w.ledger w'.ledger) (hw : Kept w.ledger) (hw' : Kept w'.ledger)
    (events : List Event) : Alike (run E w events).ledger (run E w' events).ledger := by
  induction events generalizing w w' with
  | nil => exact h
  | cons event events ih =>
    refine ih ?_ (hw.step event) (hw'.step event)
    cases event with
    | consume voucher issuer now bytes =>
      rw [step_consume_ledger, step_consume_ledger]
      exact (h.tryConsume voucher issuer now bytes).2
    | release charge => exact h.release _ _
    | prune now => exact h.prune now
    | reload => exact h.reload hw hw'

end

/-- In every run with one holder for a nonce in which no total overflows, the ledger is read back
with the same entries and totals, and every later charge has the outcome that it would have had. -/
theorem restart_unnoticed (E : Externals) (maxQuotaBytes cap : Nat) (holderOf : Text → Text)
    (events : List Event)
    (hall : Runs.Along (step E) (Exact E holderOf) (of (.new maxQuotaBytes cap)) events) (w : World)
    (hw : w = run E (of (.new maxQuotaBytes cap)) events) :
    (reload w.ledger).spent = w.ledger.spent ∧
    (∀ holder, (reload w.ledger).total holder = w.ledger.total holder) ∧
      ∀ later voucher issuer now bytes, ((run E w later).ledger.tryConsume E voucher issuer now bytes).1 =
          ((run E (step E w .reload) later).ledger.tryConsume E voucher issuer now bytes).1 := by
  have hend : Kept w.ledger ∧ Backed holderOf w.ledger := by
    rw [hw]
    exact hall.keeps (I := fun w => Kept w.ledger ∧ Backed holderOf w.ledger)
      (fun w event hev hw => ⟨hw.1.step event, hw.2.step hw.1 hev⟩)
      ⟨kept_new maxQuotaBytes cap, nofun, nofun, fun _ => le_refl _⟩
  obtain ⟨hk, hbacked⟩ := hend
  have ht := hbacked.reload_total hk
  refine ⟨(reload_spec hk).1, ht, fun later voucher issuer now bytes => ?_⟩
  have halike : Alike w.ledger (step E w .reload).ledger := ⟨_, reload_eq hk, ht⟩
  exact ((halike.run hk hk.reload later).tryConsume voucher issuer now bytes).1

namespace Overspent

open Sample (voucher consume)

def movements (cap : Nat) (events : List Event) : List Movement :=
  (run reference (of (.new u64Max cap)) events).movements

/-- A release gives bytes back to another holder of the nonce, who then gets over the cap; the quota
is granted anew by a second voucher of the nonce, by a clock that goes back after a prune, and by a
counter that saturates. -/
theorem quotas_exceeded :
    (acceptedBy (Hex.encode (replicate 32 65#8)) (movements 100
          [consume (voucher 65 200 50 7) 1 10, consume (voucher 66 200 50 7) 1 50,
            Sample.release (voucher 66 200 50 7) 50,
            consume (voucher 65 200 50 8) 1 100]) = 110 ∧
        releasedOf (Hex.encode (replicate 32 65#8)) (movements 100
          [consume (voucher 65 200 50 7) 1 10, consume (voucher 66 200 50 7) 1 50,
            Sample.release (voucher 66 200 50 7) 50,
            consume (voucher 65 200 50 8) 1 100]) = 0) ∧
      accepted (Hex.encode (replicate 32 7#8)) (movements 0
          [consume (voucher 65 100 50 7) 1 100, consume (voucher 65 100 90 7) 51 100]) = 200 ∧
      accepted (Hex.encode (replicate 32 7#8)) (movements 0
          [consume (voucher 65 100 50 7) 1 100, .prune 51, consume (voucher 65 100 50 7) 1 100]) = 200 ∧
      accepted (Hex.encode (replicate 32 7#8)) (movements 0
          [consume (voucher 65 u64Max 50 7) 1 u64Max, consume (voucher 65 u64Max 50 7) 1 5]) =
            u64Max + 5 := by
  decide +kernel

def events : List Event :=
  [consume (voucher 65 100 50 7) 1 60, Sample.release (voucher 65 100 50 7) 20, .reload,
    consume (voucher 65 100 50 7) 2 60,
    .prune 51, consume (voucher 65 100 50 7) 52 1]

theorem dated_events : Runs.Along (step reference) (Dated reference fun _ => 50)
    (of (.new u64Max 1000)) events := by
  refine ⟨⟨zero_le _, fun _ => ⟨rfl, by decide⟩⟩, trivial, trivial, ⟨?_, fun _ => ⟨rfl, by decide⟩⟩, ?_,
    ⟨by decide, fun _ => ⟨rfl, by decide⟩⟩, trivial⟩
  · simp only [Sample.release, consume, clock_reload, clock_release, clock_consume]
    decide
  · simp only [Dated, consume, clock_consume]
    decide

theorem events_within_limits :
    (∀ v bytes, .charged v bytes ∈ movements 1000 events →
      accepted v.nonceHex (movements 1000 events) ≤ released v.nonceHex (movements 1000 events) +
        v.quotaBytes) ∧
    ∀ holder, acceptedBy holder (movements 1000 events) ≤ releasedOf holder
      (movements 1000 events) + 1000 := by
  obtain ⟨hquota, hcap⟩ := quotas_kept reference u64Max 1000
  exact ⟨hquota (fun _ => 50) events dated_events,
    hcap (by decide) (by decide) (fun _ => Hex.encode (replicate 32 65#8)) events
      ⟨fun _ => rfl, rfl, trivial, fun _ => rfl, trivial, fun _ => rfl, trivial⟩⟩

/-- Two holders with vouchers of one nonce: a restart adds the bytes of the second to the first,
which is then refused.
-/
theorem restart_noticed :
    (movements 100 [consume (voucher 65 200 50 7) 1 10, consume (voucher 66 200 50 7) 1 50,
        consume (voucher 65 200 50 8) 1 50]).length = 3 ∧
      (movements 100 [consume (voucher 65 200 50 7) 1 10, consume (voucher 66 200 50 7) 1 50, .reload,
        consume (voucher 65 200 50 8) 1 50]).length = 2 := by
  decide +kernel

theorem refunded_restart :
    (run reference (of (.new u64Max 1000)) (events.take 2)).ledger.total
      (voucher 65 100 50 7).holderPkHex = 40 ∧
      (reload (run reference (of (.new u64Max 1000)) (events.take 2)).ledger).total
        (voucher 65 100 50 7).holderPkHex = 40 := by
  have ht : (run reference (of (.new u64Max 1000)) (events.take 2)).ledger.total
      (voucher 65 100 50 7).holderPkHex = 40 := by decide +kernel
  have hres := restart_unnoticed reference u64Max 1000 (fun _ => (voucher 65 100 50 7).holderPkHex)
    (events.take 2)
    ⟨fun _ => ⟨rfl, by decide +kernel⟩, trivial, trivial⟩ _ rfl
  exact ⟨ht, (hres.2.1 _).trans ht⟩

end Overspent

end CipherVault.Network.Vouchers
