import CipherVault.Base.Dict
import CipherVault.Base.Processes
import CipherVault.Crypto.Basic

/-!
# Account.RateLimits

The limiter of authentication attempts (`services/account/src/http.rs`) and the handlers that
compare codes under it, in critical sections with the connection held: TOTP login and recovery codes
are admitted in one section and compared in the next; an enrolment checks its admission again before
it compares; step-up and recovery reset use one transaction.
-/

namespace CipherVault.Account.RateLimits

open Crypto Processes List Nat Function Dict

def windowSeconds : Nat := 5 * 60

def maxFailures : Nat := 5

def lockSeconds : Nat := 5 * 60

def maxKeys : Nat := 10000

structure Limit where
  (windowStarted failures blockedUntil : Nat)

def Limit.stale (now : Nat) (limit : Limit) : Bool :=
  limit.blockedUntil ≤ now && now - limit.windowStarted > windowSeconds

/-- `auth_rate_allowed_with_db`: whether the attempt is admitted, and the table after it. -/
def authRateAllowed (limits : Dict Text Limit) (key : Text) (now : Nat) : Bool × Dict Text Limit :=
  let limits := retain (fun _ limit => !limit.stale now) limits
  match limits.lookup key with
  | none => if maxKeys ≤ size limits then (false, limits) else (true, limits.insert key ⟨now, 0, 0⟩)
  | some limit =>
    if limit.blockedUntil > now then (false, limits)
    else if now - limit.windowStarted > windowSeconds then (true, limits.insert key ⟨now, 0, 0⟩)
    else if maxFailures ≤ limit.failures then
      (false, limits.insert key { limit with blockedUntil := now + lockSeconds })
    else (true, limits)

def failed (limit : Option Limit) (now : Nat) : Limit :=
  let ⟨started, failures⟩ : Nat × Nat := match limit with
    | some limit => (limit.windowStarted, limit.failures)
    | none => (now, 0)
  let ⟨started, failures⟩ : Nat × Nat :=
    if now - started > windowSeconds then (now, 1) else (started, failures + 1)
  ⟨started, failures, if maxFailures ≤ failures then now + lockSeconds else 0⟩

/-- A code that was compared: the key, how often it had succeeded before, and the window that a
wrong one counts in. -/
structure Comparison where
  key : Text
  (epoch window : Nat)
  wrong : Bool
  now : Nat

/-- The limiter's table, the clock, the successes of each key, and the comparisons, the latest
first. -/
structure Store where
  limits : Dict Text Limit
  clock : Nat
  successes : Text → Nat
  compared : List Comparison

variable (store : Store) (key : Text)

namespace Store

def fail : Store :=
  { store with limits := store.limits.insert key (failed (store.limits.lookup key) store.clock) }

def compareWrong : Store :=
  { store.fail key with
    compared := ⟨key, store.successes key,
      (failed (store.limits.lookup key) store.clock).windowStarted, true, store.clock⟩ ::
      store.compared }

def compareRight : Store :=
  { store with compared := ⟨key, store.successes key, store.clock, false, store.clock⟩ :: store.compared }

def succeed : Store :=
  { store with
    limits := store.limits.erase key
    successes := update store.successes key (store.successes key + 1) }

end Store

/-- The flows that compare a code. -/
inductive Ceremony where
  | login
  | recovery
  | enrolment
  | stepUp
  | recoveryReset
deriving DecidableEq

/-- What an attempt comes to: no code is compared; a wrong one; a right one that is not accepted; a
right one. -/
inductive Outcome where
  | uncompared
  | wrong
  | refused
  | right
deriving DecidableEq

inductive Request where
  | attempt (ceremony : Ceremony) (key : Text) (outcome : Outcome)
  | wait (seconds : Nat)

/-- Where a request is between its transactions. -/
inductive Handler where
  | idle
  | begun (request : Request)
  | admitted (ceremony : Ceremony) (key : Text) (outcome : Outcome)
  | succeeded (key : Text)

/-- The section that compares. A login also records a failure for a missing challenge or credential,
and for a used code. -/
def compare (ceremony : Ceremony) (key : Text) : Outcome → Store × Handler
  | .uncompared => (if ceremony = .login then store.fail key else store, .idle)
  | .wrong => (store.compareWrong key, .idle)
  | .refused =>
    (if ceremony = .login then (store.compareRight key).fail key else store.compareRight key, .idle)
  | .right => (store.compareRight key, .succeeded key)

/-- The one transaction of step-up and of recovery reset; what is not committed is undone. -/
def transact (outcome : Outcome) : Store :=
  let (allowed, limits) := authRateAllowed store.limits key store.clock
  if !allowed then store
  else
    match outcome with
    | .uncompared => store
    | .wrong => Store.compareWrong { store with limits := limits } key
    | .refused => store.compareRight key
    | .right => (Store.compareRight { store with limits := limits } key).succeed key

def advance : Handler → Store × Handler
  | .idle => (store, .idle)
  | .begun (.wait seconds) => ({ store with clock := store.clock + seconds }, .idle)
  | .begun (.attempt ceremony key outcome) =>
    if ceremony = .stepUp ∨ ceremony = .recoveryReset then (transact store key outcome, .idle)
    else
      let (allowed, limits) := authRateAllowed store.limits key store.clock
      ({ store with limits := limits }, if allowed then .admitted ceremony key outcome else .idle)
  | .admitted ceremony key outcome =>
    if ceremony = .enrolment then
      let (allowed, limits) := authRateAllowed store.limits key store.clock
      if allowed then compare { store with limits := limits } ceremony key outcome
      else ({ store with limits := limits }, .idle)
    else compare store ceremony key outcome
  | .succeeded key => (store.succeed key, .idle)

def program : Program Store Handler Request where
  idle := .idle
  isIdle
    | .idle => true
    | _ => false
  begin := .begun
  advance := advance

def start : System Store Handler := System.new program ⟨∅, 0, fun _ => 0, []⟩

def after (events : List (Event Request)) : System Store Handler := run program start events

def wrongs (compared : List Comparison) (key : Text) (epoch window : Nat) : Nat :=
  compared.countP fun c => c.wrong && (c.key = key ∧ c.epoch = epoch ∧ c.window = window)

/-- With this one, the wrong codes of a window are as many as are allowed. -/
def Fills (c : Comparison) (earlier : List Comparison) : Prop :=
  maxFailures ≤ wrongs (c :: earlier) c.key c.epoch c.window

/-- The bound on wrong codes, and the lock after the last one. -/
structure Bounded (compared : List Comparison) : Prop where
  count : ∀ key epoch window, wrongs compared key epoch window ≤ maxFailures
  locked : ∀ later c earlier, compared = later ++ c :: earlier → c.wrong = true → Fills c earlier →
    ∀ d ∈ later, d.key = c.key → d.epoch = c.epoch → c.now + lockSeconds ≤ d.now

/-- What the limiter says of a key at a time: not locked, and room in the window or a window that is
over. -/
def Open (limit : Option Limit) (now : Nat) : Prop :=
  ∀ l, limit = some l → l.blockedUntil ≤ now ∧ (now - l.windowStarted > windowSeconds ∨
    l.failures < maxFailures)

/-- The comparison belongs to the window of the limit or to an earlier one. -/
def Within (limit : Option Limit) (clock : Nat) (c : Comparison) : Prop :=
  match limit with
  | some l => c.window ≤ l.windowStarted
  | none => c.window + windowSeconds < clock

/-- The limit of one key against the comparisons made for it. -/
structure InvKey (limit : Option Limit) (epoch : Nat) (compared : List Comparison) (clock : Nat) : Prop where
  row : ∀ l, limit = some l → l.windowStarted ≤ clock ∧ l.failures ≤ maxFailures ∧
    wrongs compared key epoch l.windowStarted ≤ l.failures
  windows : ∀ c ∈ compared, c.key = key → c.epoch = epoch → c.wrong = true → Within limit clock c
  locks : ∀ later c earlier, compared = later ++ c :: earlier → c.key = key → c.epoch = epoch →
    c.wrong = true →
    Fills c earlier → clock < c.now + lockSeconds → ∃ l, limit = some l ∧ c.now + lockSeconds ≤ l.blockedUntil
  epochs : ∀ c ∈ compared, c.key = key → c.epoch ≤ epoch

structure Inv : Prop where
  keys : ∀ key, InvKey key (store.limits.lookup key) (store.successes key) store.compared store.clock
  bounded : Bounded store.compared

theorem wrongs_cons (c : Comparison) (compared : List Comparison) (key : Text) (epoch window : Nat) :
    wrongs (c :: compared) key epoch window = wrongs compared key epoch window +
      if c.wrong = true ∧ c.key = key ∧ c.epoch = epoch ∧ c.window = window then 1 else 0 := by
  simp [wrongs, countP_cons]

variable {compared : List Comparison} {key : Text} {epoch now : Nat} {limit : Option Limit} {store : Store}
  {c : Comparison}

theorem wrongs_eq_zero {window : Nat} (h : ∀ c ∈ compared, c.key = key → c.epoch = epoch →
    c.wrong = true → c.window ≠ window) :
    wrongs compared key epoch window = 0 := by
  rw [wrongs, countP_eq_zero]
  intro c hc hall
  simp only [Bool.and_eq_true, decide_eq_true_eq] at hall
  exact h c hc hall.2.1 hall.2.2.1 hall.1 hall.2.2.2

/-- What one transaction can do to the limit of a key. -/
inductive Evolves (now : Nat) (limit : Option Limit) : Option Limit → Prop where
  | same : Evolves now limit limit
  | pruned (h : ∀ l, limit = some l → l.stale now = true) : Evolves now limit none
  | renewed (h : ∀ l, limit = some l → l.blockedUntil ≤ now ∧ now - l.windowStarted > windowSeconds) :
      Evolves now limit (some ⟨now, 0, 0⟩)
  | blocked (l : Limit) (hl : limit = some l) (h : l.blockedUntil ≤ now) :
      Evolves now limit (some { l with blockedUntil := now + lockSeconds })

theorem stale_iff {l : Limit} : l.stale now = true ↔
    l.blockedUntil ≤ now ∧ now - l.windowStarted > windowSeconds := by
  simp [Limit.stale]

theorem evolves_retain (limits : Dict Text Limit) (now : Nat) (k : Text) :
    Evolves now (limits.lookup k) ((retain (fun _ limit => !limit.stale now) limits).lookup k) := by
  rw [lookup_retain]
  cases hl : limits.lookup k with
  | none => exact .same
  | some l =>
    cases hstale : l.stale now with
    | false => simpa [Option.filter, hstale] using .same
    | true =>
      have hn : (some l).filter (fun limit => !limit.stale now) = none := by simp [Option.filter, hstale]
      rw [hn]
      refine .pruned ?_
      rintro l' h
      cases h
      exact hstale

theorem evolves_allowed (limits : Dict Text Limit) (key : Text) (now : Nat) (k : Text) :
    Evolves now (limits.lookup k) ((authRateAllowed limits key now).2.lookup k) := by
  have hretain := evolves_retain limits now k
  unfold authRateAllowed
  dsimp only
  by_cases hk : k = key
  · subst hk
    cases hget : (retain (fun _ limit => !limit.stale now) limits).lookup k with
    | none =>
      dsimp only
      split
      · exact hget ▸ hretain
      · rw [lookup_insert]
        refine .renewed ?_
        intro l hl
        rw [lookup_retain, hl] at hget
        refine stale_iff.mp ?_
        by_contra hstale
        simp [Option.filter, hstale] at hget
    | some l =>
      have hl : limits.lookup k = some l := (lookup_retain_eq_some.mp hget).1
      dsimp only
      split
      · exact hget ▸ hretain
      next hblo =>
        split
        next hover =>
          rw [lookup_insert]
          refine .renewed ?_
          intro l' hl'
          cases hl.symm.trans hl'
          exact ⟨Nat.le_of_not_lt hblo, hover⟩
        · split
          · rw [lookup_insert]
            exact .blocked l hl (Nat.le_of_not_lt hblo)
          · exact hget ▸ hretain
  · cases (retain (fun _ limit => !limit.stale now) limits).lookup key with
    | none =>
      dsimp only
      split
      · exact hretain
      · rwa [lookup_insert_ne hk]
    | some l =>
      dsimp only
      split
      · exact hretain
      · split
        · rwa [lookup_insert_ne hk]
        · split
          · rwa [lookup_insert_ne hk]
          · exact hretain

theorem open_of_allowed {limits : Dict Text Limit} (h : (authRateAllowed limits key now).1 = true) :
    Open (limits.lookup key) now ∧ Open ((authRateAllowed limits key now).2.lookup key) now := by
  have hfr : Open (some ⟨now, 0, 0⟩) now := by
    rintro l ⟨⟩
    exact ⟨zero_le _, .inr (show 0 < 5 by decide)⟩
  unfold authRateAllowed at h ⊢
  dsimp only at h ⊢
  cases hget : (retain (fun _ limit => !limit.stale now) limits).lookup key with
  | none =>
    have hold : Open (limits.lookup key) now := by
      intro l hl
      have hstale : l.stale now = true := by
        rw [lookup_retain, hl] at hget
        by_contra hstale
        simp [Option.filter, hstale] at hget
      exact ⟨(stale_iff.mp hstale).1, .inl (stale_iff.mp hstale).2⟩
    rw [hget] at h
    dsimp only at h ⊢
    split at h
    · cases h
    next hs =>
      rw [if_neg hs, lookup_insert]
      exact ⟨hold, hfr⟩
  | some l =>
    have hl : limits.lookup key = some l := (lookup_retain_eq_some.mp hget).1
    rw [hget] at h
    dsimp only at h ⊢
    split at h
    · cases h
    next hblo =>
      rw [if_neg hblo, hl]
      split at h
      next hover =>
        rw [if_pos hover, lookup_insert]
        refine ⟨?_, hfr⟩
        rintro l' ⟨⟩
        exact ⟨Nat.le_of_not_lt hblo, .inl hover⟩
      next hover =>
        rw [if_neg hover]
        split at h
        · cases h
        next hroom =>
          rw [if_neg hroom, hget]
          have ho : Open (some l) now := by
            rintro l' ⟨⟩
            exact ⟨Nat.le_of_not_lt hblo, .inr (Nat.lt_of_not_le hroom)⟩
          exact ⟨ho, ho⟩

theorem InvKey.later {clock clock' : Nat} (h : InvKey key limit epoch compared clock)
    (hclock : clock ≤ clock') :
    InvKey key limit epoch compared clock' := by
  refine ⟨?_, ?_, ?_, h.epochs⟩
  · intro l hl
    obtain ⟨hsta, hr⟩ := h.row l hl
    exact ⟨le_trans hsta hclock, hr⟩
  · intro c hc hkey hep hw
    have hwindow := h.windows c hc hkey hep hw
    cases limit with
    | some l => exact hwindow
    | none => exact lt_of_lt_of_le hwindow hclock
  · intro later c earlier hsp hkey hep hw hfills hlocked
    exact h.locks later c earlier hsp hkey hep hw hfills (lt_of_le_of_lt hclock hlocked)

theorem InvKey.window_over (h : InvKey key limit epoch compared now)
    (hover : ∀ l, limit = some l → now - l.windowStarted > windowSeconds) :
    ∀ c ∈ compared, c.key = key → c.epoch = epoch → c.wrong = true → c.window + windowSeconds < now := by
  intro c hc hkey hep hw
  have hwindow := h.windows c hc hkey hep hw
  cases limit with
  | none => exact hwindow
  | some l =>
    have hend := hover l rfl
    simp only [Within] at hwindow
    omega

theorem InvKey.evolve {limit' : Option Limit} (h : InvKey key limit epoch compared now)
    (hevolves : Evolves now limit limit') : InvKey key limit' epoch compared now := by
  -- a row that may go has a window that is over, and no lock
  have hover : (∀ l, limit = some l → l.blockedUntil ≤ now ∧ now - l.windowStarted > windowSeconds) →
      (∀ c ∈ compared, c.key = key → c.epoch = epoch → c.wrong = true → c.window + windowSeconds < now) ∧
      ∀ later c earlier, compared = later ++ c :: earlier → c.key = key → c.epoch = epoch → c.wrong = true →
        Fills c earlier → ¬now < c.now + lockSeconds := by
    intro hl
    refine ⟨h.window_over fun l hlimit => (hl l hlimit).2, ?_⟩
    intro later c earlier hsp hkey hep hw hfills hlocked
    obtain ⟨l, hlimit, hblo⟩ := h.locks later c earlier hsp hkey hep hw hfills hlocked
    have hfree := (hl l hlimit).1
    omega
  cases hevolves with
  | same => exact h
  | pruned hstale =>
    obtain ⟨hwin, hlocks⟩ := hover fun l hl => stale_iff.mp (hstale l hl)
    refine ⟨?_, hwin, ?_, h.epochs⟩
    · nofun
    · intro later c earlier hsp hkey hep hw hfills hlocked
      exact absurd hlocked (hlocks later c earlier hsp hkey hep hw hfills)
  | renewed hl =>
    obtain ⟨hwin, hlocks⟩ := hover hl
    refine ⟨?_, ?_, ?_, h.epochs⟩
    · rintro l ⟨⟩
      refine ⟨le_refl _, zero_le _, le_of_eq (wrongs_eq_zero ?_)⟩
      intro c hc hkey hep hw
      have hlt := hwin c hc hkey hep hw
      dsimp only
      omega
    · intro c hc hkey hep hw
      have hlt := hwin c hc hkey hep hw
      exact le_of_lt (lt_of_le_of_lt (le_add_right _ _) hlt)
    · intro later c earlier hsp hkey hep hw hfills hlocked
      exact absurd hlocked (hlocks later c earlier hsp hkey hep hw hfills)
  | blocked l hl hfree =>
    subst hl
    refine ⟨?_, h.windows, ?_, h.epochs⟩
    · rintro l' ⟨⟩
      exact h.row l rfl
    · intro later c earlier hsp hkey hep hw hfills hlocked
      obtain ⟨l', hl', hblo⟩ := h.locks later c earlier hsp hkey hep hw hfills hlocked
      cases hl'
      omega

theorem inv_allowed (hs : Inv store) (key : Text) :
    Inv { store with limits := (authRateAllowed store.limits key store.clock).2 } :=
  ⟨fun k => (hs.keys k).evolve (evolves_allowed store.limits key store.clock k), hs.bounded⟩

theorem lock_over {later earlier : List Comparison} (h : InvKey key limit epoch compared now)
    (hopen : Open limit now)
    (hsplit : compared = later ++ c :: earlier) (hkey : c.key = key) (hepoch : c.epoch = epoch)
    (hwrong : c.wrong = true) (hfills : Fills c earlier) : c.now + lockSeconds ≤ now := by
  by_contra hlocked
  obtain ⟨l, hl, hblo⟩ := h.locks later c earlier hsplit hkey hepoch hwrong hfills (Nat.lt_of_not_le hlocked)
  have hfree := (hopen l hl).1
  omega

theorem failed_spec (h : InvKey key limit epoch compared now) (hopen : Open limit now) :
    (failed limit now).windowStarted ≤ now ∧ (failed limit now).failures ≤ maxFailures ∧
      wrongs compared key epoch (failed limit now).windowStarted + 1 ≤ (failed limit now).failures ∧
      (maxFailures ≤ (failed limit now).failures → (failed limit now).blockedUntil = now + lockSeconds) ∧
      ∀ c ∈ compared, c.key = key → c.epoch = epoch → c.wrong = true →
      c.window ≤ (failed limit now).windowStarted := by
  by_cases hover : ∀ l, limit = some l → now - l.windowStarted > windowSeconds
  · -- the failure opens a window
    have hb : ∀ c ∈ compared, c.key = key → c.epoch = epoch → c.wrong = true → c.window < now := by
      intro c hc hkey hep hw
      exact Nat.lt_of_le_of_lt (Nat.le_add_right _ _) (h.window_over hover c hc hkey hep hw)
    have hn : wrongs compared key epoch now = 0 :=
      wrongs_eq_zero fun c hc hkey hep hw => Nat.ne_of_lt (hb c hc hkey hep hw)
    have hfailed : failed limit now = ⟨now, 1, 0⟩ := by
      cases limit with
      | none => simp [failed, windowSeconds, maxFailures]
      | some l => simp [failed, hover l rfl, maxFailures]
    simp only [hfailed, maxFailures, hn]
    refine ⟨le_refl _, by decide, le_refl _, by simp, ?_⟩
    intro c hc hkey hep hw
    exact le_of_lt (hb c hc hkey hep hw)
  · simp only [not_forall] at hover
    obtain ⟨l, rfl, hover⟩ := hover
    obtain ⟨hsta, hfai, hcnt⟩ := h.row l rfl
    have hroom : l.failures < maxFailures := (hopen l rfl).2.resolve_left hover
    simp only [failed, if_neg hover]
    refine ⟨hsta, hroom, succ_le_succ hcnt, ?_, fun c hc hkey hep hw => h.windows c hc hkey hep hw⟩
    intro hfull
    rw [if_pos hfull]

theorem inv_fail (hs : Inv store) (hopen : Open (store.limits.lookup key) store.clock) :
    Inv (store.fail key) := by
  refine ⟨?_, hs.bounded⟩
  intro k
  by_cases hk : k = key
  · subst hk
    obtain ⟨hsta, hfai, hc, -, hwin⟩ := failed_spec (hs.keys k) hopen
    simp only [Store.fail, lookup_insert]
    refine ⟨?_, hwin, ?_, (hs.keys k).epochs⟩
    · rintro l ⟨⟩
      exact ⟨hsta, hfai, Nat.le_of_succ_le hc⟩
    · intro later c earlier hsp hkey hep hw hfills hlocked
      exact absurd (lock_over (hs.keys k) hopen hsp hkey hep hw hfills) (Nat.not_le_of_lt hlocked)
  · simp only [Store.fail, lookup_insert_ne hk]
    exact hs.keys k

theorem bounded_cons (h : Bounded compared)
    (hcount : wrongs (c :: compared) c.key c.epoch c.window ≤ maxFailures)
    (hover : ∀ later b earlier, compared = later ++ b :: earlier → c.key = b.key →
      c.epoch = b.epoch → b.wrong = true →
      Fills b earlier → b.now + lockSeconds ≤ c.now) : Bounded (c :: compared) := by
  constructor
  · intro key epoch window
    by_cases hs : c.key = key ∧ c.epoch = epoch ∧ c.window = window
    · obtain ⟨rfl, rfl, rfl⟩ := hs
      exact hcount
    · rw [wrongs_cons, if_neg fun hall => hs hall.2]
      exact h.count key epoch window
  · intro later b earlier hsp hw hfills d hd hkey hep
    cases later with
    | nil => cases hd
    | cons first later =>
      obtain ⟨rfl, ht⟩ := cons.inj hsp
      rcases mem_cons.mp hd with rfl | hd
      · exact hover later b earlier ht hkey hep hw hfills
      · exact h.locked later b earlier ht hw hfills d hd hkey hep

theorem InvKey.cons (h : InvKey key limit epoch compared now)
    (hc : c.key = key → c.wrong = false ∧ c.epoch ≤ epoch) :
    InvKey key limit epoch (c :: compared) now := by
  have hwrongs : ∀ window, wrongs (c :: compared) key epoch window = wrongs compared key epoch window := by
    intro window
    rw [wrongs_cons, if_neg, add_zero]
    rintro ⟨hw, hkey, -⟩
    rw [(hc hkey).1] at hw
    cases hw
  refine ⟨?_, ?_, ?_, ?_⟩
  · intro l hl
    rw [hwrongs]
    exact h.row l hl
  · intro d hd hkey hep hw
    rcases mem_cons.mp hd with rfl | hd
    · cases (hc hkey).1.symm.trans hw
    · exact h.windows d hd hkey hep hw
  · intro later d earlier hsp hkey hep hw hfills hlocked
    cases later with
    | nil =>
      obtain ⟨rfl, -⟩ := cons.inj hsp
      cases (hc hkey).1.symm.trans hw
    | cons first later =>
      obtain ⟨-, hsp⟩ := cons.inj hsp
      exact h.locks later d earlier hsp hkey hep hw hfills hlocked
  · intro d hd hkey
    rcases mem_cons.mp hd with rfl | hd
    · exact (hc hkey).2
    · exact h.epochs d hd hkey

theorem inv_compareRight (hs : Inv store) (hopen : Open (store.limits.lookup key) store.clock) :
    Inv (store.compareRight key) := by
  refine ⟨?_, ?_⟩
  · intro k
    refine (hs.keys k).cons ?_
    rintro rfl
    exact ⟨rfl, le_refl _⟩
  · refine bounded_cons hs.bounded ?_ ?_
    · rw [wrongs_cons, if_neg (fun hall => by cases hall.1)]
      exact hs.bounded.count _ _ _
    · intro later b earlier hsp hkey hep hw hfills
      exact lock_over (hs.keys key) hopen hsp hkey.symm hep.symm hw hfills

theorem inv_compareWrong (hs : Inv store) (hopen : Open (store.limits.lookup key) store.clock) :
    Inv (store.compareWrong key) := by
  obtain ⟨hsta, hfai, hc, hblo, hwin⟩ := failed_spec (hs.keys key) hopen
  refine ⟨?_, ?_⟩
  · intro k
    by_cases hk : k = key
    · subst hk
      simp only [Store.compareWrong, Store.fail, lookup_insert]
      refine ⟨?_, ?_, ?_, ?_⟩
      · rintro l ⟨⟩
        rw [wrongs_cons, if_pos ⟨rfl, rfl, rfl, rfl⟩]
        exact ⟨hsta, hfai, hc⟩
      · intro d hd hkey hep hw
        rcases mem_cons.mp hd with rfl | hd
        · exact le_refl _
        · exact hwin d hd hkey hep hw
      · intro later d earlier hsp hkey hep hw hfills hlocked
        cases later with
        | nil =>
          obtain ⟨rfl, rfl⟩ := cons.inj hsp
          refine ⟨_, rfl, le_of_eq (hblo (le_trans hfills ?_)).symm⟩
          rw [wrongs_cons, if_pos ⟨rfl, rfl, rfl, rfl⟩]
          exact hc
        | cons first later =>
          obtain ⟨-, hsp⟩ := cons.inj hsp
          exact absurd (lock_over (hs.keys k) hopen hsp hkey hep hw hfills) (Nat.not_le_of_lt hlocked)
      · intro d hd hkey
        rcases mem_cons.mp hd with rfl | hd
        · exact Nat.le_refl _
        · exact (hs.keys k).epochs d hd hkey
    · simp only [Store.compareWrong, Store.fail, lookup_insert_ne hk]
      exact (hs.keys k).cons fun hkey => absurd hkey.symm hk
  · refine bounded_cons hs.bounded ?_ ?_
    · rw [wrongs_cons, if_pos ⟨rfl, rfl, rfl, rfl⟩]
      exact le_trans hc hfai
    · intro later b earlier hsp hkey hep hw hfills
      exact lock_over (hs.keys key) hopen hsp hkey.symm hep.symm hw hfills

theorem inv_succeed (hs : Inv store) (key : Text) : Inv (store.succeed key) := by
  refine ⟨?_, hs.bounded⟩
  intro k
  by_cases hk : k = key
  · subst hk
    simp only [Store.succeed, AList.lookup_erase, update_self]
    -- nothing was compared yet since this success
    have hn : ∀ c ∈ store.compared, c.key = k → c.epoch ≠ store.successes k + 1 := by
      intro c hc hkey
      have hle := (hs.keys k).epochs c hc hkey
      omega
    refine ⟨?_, ?_, ?_, fun c hc hkey => le_succ_of_le ((hs.keys k).epochs c hc hkey)⟩
    · nofun
    · intro c hc hkey hep
      exact absurd hep (hn c hc hkey)
    · intro later c earlier hsp hkey hep
      exact absurd hep (hn c (hsp ▸ by simp) hkey)
  · simp only [Store.succeed, lookup_erase_ne hk, update_of_ne hk]
    exact hs.keys k

/-- An attempt that was admitted and goes on to its code would be admitted now. -/
def StillAdmitted (s : System Store Handler) : Event Request → Prop
  | .proceed p =>
    match s.processes p with
    | .admitted .enrolment _ _ => True
    | .admitted _ key _ => (authRateAllowed s.store.limits key s.store.clock).1 = true
    | _ => True
  | _ => True

instance (s : System Store Handler) (event : Event Request) : Decidable (StillAdmitted s event) := by
  unfold StillAdmitted
  split
  · split <;> infer_instance
  · infer_instance

theorem inv_compare (hs : Inv store) (hopen : Open (store.limits.lookup key) store.clock)
    (ceremony : Ceremony)
    (outcome : Outcome) : Inv (compare store ceremony key outcome).1 := by
  cases outcome with
  | uncompared =>
    simp only [compare]
    split
    · exact inv_fail hs hopen
    · exact hs
  | wrong => exact inv_compareWrong hs hopen
  | refused =>
    simp only [compare]
    split
    · exact inv_fail (inv_compareRight hs hopen) hopen
    · exact inv_compareRight hs hopen
  | right => exact inv_compareRight hs hopen

theorem inv_transact (hs : Inv store) (key : Text) (outcome : Outcome) :
    Inv (transact store key outcome) := by
  unfold transact
  dsimp only
  split
  · exact hs
  next hall =>
    rw [Bool.not_eq_true', Bool.not_eq_false] at hall
    obtain ⟨ho, ho'⟩ := open_of_allowed hall
    split
    · exact hs
    · exact inv_compareWrong (inv_allowed hs key) ho'
    · exact inv_compareRight hs ho
    · exact inv_succeed (inv_compareRight (inv_allowed hs key) ho') key

theorem inv_step {s : System Store Handler} {event : Event Request} (hstill : StillAdmitted s event)
    (hs : Inv s.store) : Inv (step program s event).store := by
  rcases step_store program s event with hst | ⟨p, rfl, hst⟩
  · rw [hst]
    exact hs
  · rw [hst]
    simp only [StillAdmitted] at hstill
    show Inv (advance s.store (s.processes p)).1
    unfold advance
    split
    · exact hs
    · exact ⟨fun k => (hs.keys k).later (le_add_right _ _), hs.bounded⟩
    · split
      · exact inv_transact hs _ _
      · exact inv_allowed hs _
    next ceremony key outcome hp =>
      rw [hp] at hstill
      split
      · dsimp only
        split
        next hall => exact inv_compare (inv_allowed hs key) (open_of_allowed hall).2 _ _
        · exact inv_allowed hs key
      next hcer =>
        refine inv_compare hs (open_of_allowed ?_).1 _ _
        cases ceremony with
        | enrolment => exact absurd rfl hcer
        | _ => exact hstill
    · exact inv_succeed hs _

/-- Over every interleaving in which attempts that go on would still be admitted, guesses are
bounded. -/
theorem guesses_bounded (events : List (Event Request))
    (hstill : Runs.Along (step program) StillAdmitted start events) :
    Bounded (after events).store.compared := by
  have hinv : Inv (after events).store := by
    refine hstill.keeps (I := fun s => Inv s.store) (fun _ _ hstill hs => inv_step hstill hs) ⟨?_, ?_⟩
    · intro key
      refine ⟨?_, ?_, ?_, ?_⟩
      · intro l hl
        simp [start, System.new] at hl
      · intro c hc
        cases hc
      · intro later c earlier hsp
        simp [start, System.new] at hsp
      · intro c hc
        cases hc
    · refine ⟨fun _ _ _ => zero_le _, ?_⟩
      intro later c earlier hsp
      simp [start, System.new] at hsp
  exact hinv.bounded

/-! ### Six logins at once -/

section

def wrongLogin (p : Nat) : Event Request := .call p (.attempt .login "k".toList .wrong)

/-- All six are admitted before the first one is compared: six wrong codes in one window, of at most
five. -/
theorem six_logins_compared :
    ¬Bounded (after ((range 6).map wrongLogin ++ (range 6).map .proceed ++
      (range 6).map .proceed)).store.compared := by
  intro h
  have hc := h.count "k".toList 0 0
  revert hc
  decide +kernel

theorem guesses_bounded_in_turn :
    Bounded (after ((range 6).flatMap fun p => [wrongLogin p, .proceed p, .proceed p])).store.compared :=
  guesses_bounded _ (by decide +kernel)

end

end CipherVault.Account.RateLimits
