import CipherVault.Base.Dict

/-!
# Network.Rates

`rpc_allowed_at` of `services/operator/src/swarm/mod.rs`: for every peer a queue of the admitted
instants, in nanoseconds, in a table of bounded size.
-/

namespace CipherVault.Network.Rates

open List Nat Dict

def rpcRateWindow : Nat := 1000000000

def maxRateTrackedPeers : Nat := 4096

variable {Peer : Type}

abbrev Hits (Peer : Type) := Dict Peer (List Nat)

/-- The loop that pops the front; nothing is popped before the clock has run for a window. -/
def popExpired (now : Nat) (times : List Nat) : List Nat :=
  times.dropWhile fun t => rpcRateWindow ≤ now ∧ t ≤ now - rpcRateWindow

def evict (now : Nat) (hits : Hits Peer) : Hits Peer :=
  if maxRateTrackedPeers / 2 < size hits then
    retain (fun _ times => !times.isEmpty) (map (fun _ => popExpired now) hits)
  else hits

def inWindow (t : Nat) (times : List Nat) : List Nat := times.filter fun u => t < u + rpcRateWindow ∧ u ≤ t

variable [DecidableEq Peer]

def queue (hits : Hits Peer) (peer : Peer) : List Nat := (hits.lookup peer).getD []

/-- A sliding window for each peer. -/
def rpcAllowedAt (hits : Hits Peer) (peer : Peer) (limit now : Nat) : Bool × Hits Peer :=
  let hits := evict now hits
  if hits.lookup peer = none ∧ maxRateTrackedPeers ≤ size hits then (false, hits)
  else
    let times := popExpired now (queue hits peer)
    if limit ≤ times.length then (false, hits.insert peer times)
      else (true, hits.insert peer (times ++ [now]))

/-- The table, and the instants of the requests that were admitted. -/
structure State (Peer : Type) where
  clock : Nat
  hits : Hits Peer
  admitted : Peer → List Nat

/-- A request of a peer, so much later than the one before. -/
def step (limit : Nat) (s : State Peer) (request : Peer × Nat) : State Peer :=
  let now := s.clock + request.2
  let result := rpcAllowedAt s.hits request.1 limit now
  { clock := now
    hits := result.2
    admitted p := if result.1 ∧ p = request.1 then s.admitted p ++ [now] else s.admitted p }

def run (limit : Nat) (requests : List (Peer × Nat)) : State Peer :=
  requests.foldl (step limit) ⟨0, ∅, fun _ => []⟩

/-- A queue has what was in the window at some time. -/
structure Tracks (limit now : Nat) (admitted times : List Nat) : Prop where
  times : ∃ since ≤ now, times = admitted.filter (since < · + rpcRateWindow)
  sorted : admitted.Pairwise (· ≤ ·)
  past : ∀ t ∈ admitted, t ≤ now
  bound : ∀ t, (inWindow t admitted).length ≤ limit

section

variable {limit now : Nat} {admitted times : List Nat}

theorem popExpired_eq (hsorted : times.Pairwise (· ≤ ·)) :
    popExpired now times = times.filter (now < · + rpcRateWindow) := by
  induction times with
  | nil => rfl
  | cons t times ih =>
    obtain ⟨hle, hsorted⟩ := pairwise_cons.mp hsorted
    rw [popExpired, dropWhile_cons]
    split
    · next hexpired =>
      rw [filter_cons_of_neg, ← ih hsorted, popExpired]
      simp only [decide_eq_true_eq] at hexpired ⊢
      omega
    · next hfr =>
      refine (filter_eq_self.mpr fun u hu => ?_).symm
      have hla : t ≤ u := by
        rcases mem_cons.mp hu with rfl | hu
        · exact le_rfl
        · exact hle u hu
      simp only [decide_eq_true_eq] at hfr ⊢
      omega

namespace Tracks

variable (h : Tracks limit now admitted times)
include h

theorem later {now' : Nat} (hnow : now ≤ now') : Tracks limit now' admitted times := by
  obtain ⟨since, hsince, htimes⟩ := h.times
  exact ⟨⟨since, hsince.trans hnow, htimes⟩, h.sorted, fun t ht => (h.past t ht).trans hnow, h.bound⟩

theorem popExpired_times : popExpired now times = admitted.filter (now < · + rpcRateWindow) := by
  obtain ⟨since, hsince, rfl⟩ := h.times
  rw [popExpired_eq (h.sorted.filter _), filter_filter]
  refine filter_congr fun t _ => ?_
  simp only [← Bool.decide_and, decide_eq_decide]
  omega

theorem pop : Tracks limit now admitted (popExpired now times) :=
  ⟨⟨now, le_rfl, h.popExpired_times⟩, h.sorted, h.past, h.bound⟩

theorem length_popExpired : (popExpired now times).length = (inWindow now admitted).length := by
  rw [h.popExpired_times, inWindow, filter_congr fun t ht => ?_]
  simp [h.past t ht]

theorem push (hbelow : (inWindow now admitted).length < limit) :
    Tracks limit now (admitted ++ [now]) (times ++ [now]) := by
  have hwindow : 0 < rpcRateWindow := by decide
  obtain ⟨since, hsince, htimes⟩ := h.times
  refine ⟨⟨since, hsince, ?_⟩, ?_, ?_, fun t => ?_⟩
  · have hfr : since < now + rpcRateWindow := by omega
    simp [htimes, hfr]
  · exact pairwise_append.mpr ⟨h.sorted, pairwise_singleton _ _, by simpa using h.past⟩
  · simpa [or_imp, forall_and] using h.past
  · rw [inWindow, filter_append, length_append, ← inWindow]
    by_cases ht : now ≤ t
    · -- What is in this window is in the one that ends now.
      have hsub : (inWindow t admitted).length ≤ (inWindow now admitted).length := by
        rw [inWindow, inWindow, ← countP_eq_length_filter, ← countP_eq_length_filter]
        refine countP_mono_left fun u hu => ?_
        have := h.past u hu
        simp only [decide_eq_true_eq]
        omega
      have hone := length_filter_le (fun u => decide (t < u + rpcRateWindow ∧ u ≤ t)) [now]
      rw [length_singleton] at hone
      omega
    · simpa [ht] using h.bound t

end Tracks

end

section

variable {now limit : Nat} {hits : Hits Peer} {peer : Peer}

theorem queue_evict (now : Nat) (hits : Hits Peer) (peer : Peer) :
    queue (evict now hits) peer = queue hits peer ∨
    queue (evict now hits) peer = popExpired now (queue hits peer) := by
  unfold evict
  split
  · right
    rw [queue, queue, lookup_retain, lookup_map]
    cases hits.lookup peer with
    | none => rfl
    | some times => cases h : popExpired now times <;> simp [h, Option.filter]
  · exact .inl rfl

theorem size_evict (now : Nat) (hits : Hits Peer) (peer : Peer) : size (evict now hits) ≤ size hits ∧
    (hits.lookup peer ≠ none → (evict now hits).lookup peer = none → size (evict now hits) < size hits) := by
  unfold evict
  split
  · have hmap : size (map (fun _ => popExpired now) hits) = size hits := length_map _
    rw [← hmap]
    refine ⟨length_filter_le _ _, fun hp hgone => length_filter_lt_length_iff_exists.mpr ?_⟩
    obtain ⟨times, htimes⟩ := Option.ne_none_iff_exists'.mp hp
    rw [lookup_retain, lookup_map, htimes, Option.map_some, Option.filter_eq_none_iff] at hgone
    exact ⟨⟨peer, popExpired now times⟩, lookup_eq_some_iff.mp (by rw [lookup_map, htimes]; rfl), hgone _ rfl⟩
  · exact ⟨le_rfl, fun hp hgone => absurd hgone hp⟩

theorem size_insert_le (hroom : ¬ (hits.lookup peer = none ∧ maxRateTrackedPeers ≤ Dict.size hits))
    (hsize : Dict.size hits ≤ maxRateTrackedPeers) (times : List Nat) :
    Dict.size (hits.insert peer times) ≤ maxRateTrackedPeers := by
  have hsum : ∀ m : Hits Peer, Dict.size m = Dict.sum (fun _ _ => 1) m := by simp [Dict.size, Dict.sum]
  have heq := Dict.sum_eq (fun _ _ => 1) hits peer
  rw [hsum] at hroom hsize ⊢
  rw [Dict.sum_insert]
  cases h : hits.lookup peer <;> simp [h] at hroom heq <;> omega

theorem queue_insert (times : List Nat) (p : Peer) :
    queue (hits.insert peer times) p = if p = peer then times else queue hits p := by
  rw [queue]
  split
  · next heq =>
    rw [heq, lookup_insert]
    rfl
  · next hne =>
    rw [lookup_insert_ne hne]
    rfl

theorem rpcAllowedAt_spec {admitted : Peer → List Nat} (h : ∀ p, Tracks limit now (admitted p) (queue hits p))
    (hsize : size hits ≤ maxRateTrackedPeers) (peer : Peer) : let result := rpcAllowedAt hits peer limit now
    (∀ p, Tracks limit now (if result.1 ∧ p = peer then admitted p ++ [now] else admitted p)
      (queue result.2 p)) ∧
      size result.2 ≤ maxRateTrackedPeers ∧
      (hits.lookup peer ≠ none → (inWindow now (admitted peer)).length < limit → result.1 = true) := by
  have hevi : ∀ p, Tracks limit now (admitted p) (queue (evict now hits) p) := by
    intro p
    rcases queue_evict now hits p with heq | heq <;> rw [heq]
    · exact h p
    · exact (h p).pop
  obtain ⟨hle, hlt⟩ := size_evict now hits peer
  have hpopped := (hevi peer).length_popExpired
  unfold rpcAllowedAt
  dsimp only
  split
  · next hfull =>
    refine ⟨by simpa using hevi, hle.trans hsize, fun htra _ => ?_⟩
    have := hlt htra hfull.1
    omega
  next hroom =>
  have hins := size_insert_le hroom (hle.trans hsize)
  split
  · next hlimit =>
    refine ⟨fun p => ?_, hins _, fun _ hbelow => ?_⟩
    · rw [queue_insert]
      by_cases heq : p = peer
      · subst heq
        simpa using (hevi p).pop
      · simpa [heq] using hevi p
    · rw [hpopped] at hlimit
      omega
  · next hbelow =>
    rw [hpopped, not_le] at hbelow
    refine ⟨fun p => ?_, hins _, fun _ _ => rfl⟩
    rw [queue_insert]
    by_cases heq : p = peer
    · subst heq
      simpa using (hevi p).pop.push hbelow
    · simpa [heq] using hevi p

end

/-- The queue of every peer has its admissions within the window. -/
def Inv (limit : Nat) (s : State Peer) : Prop :=
  (∀ p, Tracks limit s.clock (s.admitted p) (queue s.hits p)) ∧ size s.hits ≤ maxRateTrackedPeers

/-- However requests come: no window of a second has more of a peer admitted than the limit, the
table stays within its bound, and a peer in it that is below the limit is not refused. -/
theorem rpc_admission_bound (limit : Nat) (requests : List (Peer × Nat)) : let s := run limit requests
    (∀ peer t, (inWindow t (s.admitted peer)).length ≤ limit) ∧ size s.hits ≤ maxRateTrackedPeers ∧
      ∀ peer elapsed, s.hits.lookup peer ≠ none →
        (inWindow (s.clock + elapsed) (s.admitted peer)).length < limit →
          (rpcAllowedAt s.hits peer limit (s.clock + elapsed)).1 = true := by
  have hinv : Inv limit (run limit requests) := by
    refine foldlRecOn requests (step limit)
      ⟨fun p => ⟨⟨0, le_rfl, rfl⟩, .nil, nofun, fun t => zero_le _⟩, zero_le _⟩ ?_
    rintro s ⟨htracks, hs⟩ request -
    have hspec := rpcAllowedAt_spec (fun p => (htracks p).later (le_add_right _ request.2)) hs request.1
    exact ⟨hspec.1, hspec.2.1⟩
  refine ⟨fun peer => (hinv.1 peer).bound, hinv.2, fun peer elapsed => ?_⟩
  exact (rpcAllowedAt_spec (fun p => (hinv.1 p).later (le_add_right _ elapsed)) hinv.2 peer).2.2

end CipherVault.Network.Rates
