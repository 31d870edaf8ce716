import CipherVault.Base.Hex
import CipherVault.Base.Ranking
import CipherVault.Format.Lawful

/-!
# Network.Repair

The repair assessment and scan of `services/operator/src/swarm/repair.rs` and `swarm/mod.rs`. Every
holder of an object ranks the live holders and the live peers without it, and the first holder
pushes. A node leaves out the peers on probation except itself, so that nodes do not rank the same
peers when a holder is on probation (`Disagreement`).
-/

namespace CipherVault.Network.Repair

open Crypto Format Ranking List Finset

variable {Peer : Type} [LinearOrder Peer]

structure RepairPlan (Peer : Type) where
  pusher : Peer
  recipients : List Peer
deriving DecidableEq

structure Scoring (Peer : Type) where
  externals : Externals
  toBytes : Peer → Bytes
  cid : Bytes

section

variable (scoring : Scoring Peer)

def score (peer : Peer) : List Nat :=
  (scoring.externals.sha256 (scoring.toBytes peer ++ scoring.cid)).map BitVec.toNat

/-- Who pushes, and to whom: rendezvous order among the holders and the others. -/
def planRepair (holders live : List Peer) (target : Nat) : Option (RepairPlan Peer) :=
  if target = 0 ∨ holders = [] ∨ holders.length ≥ target then none
  else match ranked (score scoring) holders with
    | [] => none
    | pusher :: _ =>
      let candidates := live.filter fun peer => !holders.contains peer
      if candidates = [] then none
      else some { pusher := pusher,
                  recipients := (ranked (score scoring) candidates).take (target - holders.length) }

/-- What a node goes by: the peers heard of in time, the operators that they are, their standing,
and the providers found for the object. -/
structure Node (Peer : Type) where
  self : Peer
  livePeers : List Peer
  operatorFor : Peer → Option Text
  isProbationary : Text → Bool
  providers : List Peer
  livePeers_nodup : livePeers.Nodup
  providers_nodup : providers.Nodup

namespace Node

variable (node : Node Peer)

def probationary (peer : Peer) : Bool := (node.operatorFor peer).any node.isProbationary

def retainEligibleRecipients (live : List Peer) : List Peer :=
  live.filter fun peer => peer == node.self || !node.probationary peer

def withSelf (peers : List Peer) : List Peer :=
  if peers.contains node.self then peers else peers ++ [node.self]

def live : List Peer := node.retainEligibleRecipients (node.withSelf node.livePeers)

def holders : List Peer := node.withSelf (node.providers.filter fun peer => node.live.contains peer)

def plan (scoring : Scoring Peer) (target : Nat) : Option (RepairPlan Peer) :=
  planRepair scoring node.holders node.live target

/-- The assessment of one node. -/
def finishRepairCheck (scoring : Scoring Peer) (target : Nat) (object : Option Bytes) :
    Option (Bytes × List Peer) :=
  match node.plan scoring target with
  | none => none
  | some plan =>
    if plan.pusher ≠ node.self then none
    else object.map fun bytes => (bytes, plan.recipients)

end Node

end

/-- Who is alive, who provides the object, and who is on probation. -/
structure View (Peer : Type) where
  (live providers : Finset Peer)
  probationary : Peer → Bool

/-- A live node goes by the view, as far as it is about the others. -/
structure Shares (view : View Peer) (node : Node Peer) : Prop where
  self : node.self ∈ view.live
  live : ∀ peer, peer ≠ node.self → (peer ∈ node.livePeers ↔ peer ∈ view.live)
  providers : ∀ peer, peer ∈ node.providers ↔ peer ∈ view.providers
  standing : ∀ peer ∈ view.live, peer ≠ node.self → node.probationary peer = view.probationary peer

section

variable {view : View Peer} {node : Node Peer} {peers : List Peer} {peer : Peer} {scoring : Scoring Peer}
  {target : Nat}

theorem Node.mem_withSelf : peer ∈ node.withSelf peers ↔ peer ∈ peers ∨ peer = node.self := by
  unfold withSelf
  split
  · rename_i hself
    rw [contains_iff_mem] at hself
    constructor
    · exact .inl
    · rintro (hmem | rfl)
      · exact hmem
      · exact hself
  · rw [mem_append, List.mem_singleton]

theorem Node.nodup_withSelf (h : peers.Nodup) : (node.withSelf peers).Nodup := by
  unfold withSelf
  split
  · exact h
  · rename_i hself
    rw [contains_iff_mem] at hself
    refine nodup_append.mpr ⟨h, nodup_singleton _, ?_⟩
    rintro _ hmem _ hla rfl
    rw [List.mem_singleton.mp hla] at hmem
    exact hself hmem

theorem Node.nodup_live : node.live.Nodup := (node.nodup_withSelf node.livePeers_nodup).filter _

theorem Node.nodup_holders : node.holders.Nodup := node.nodup_withSelf (node.providers_nodup.filter _)

theorem Shares.mem_live (h : Shares view node) :
    peer ∈ node.live ↔ peer ∈ view.live ∧ (peer = node.self ∨ view.probationary peer = false) := by
  rw [Node.live, Node.retainEligibleRecipients, mem_filter, Node.mem_withSelf, Bool.or_eq_true,
    beq_iff_eq, Bool.not_eq_true']
  by_cases hself : peer = node.self
  · subst hself
    simp only [or_true, true_or, and_true, true_iff]
    exact h.self
  · rw [h.live peer hself]
    simp only [hself, or_false, false_or]
    refine and_congr_right fun hl => ?_
    rw [h.standing peer hl hself]

theorem Shares.mem_holders (h : Shares view node) : peer ∈ node.holders ↔ peer = node.self ∨
      (peer ∈ view.live ∩ view.providers ∧ view.probationary peer = false) := by
  rw [Node.holders, Node.mem_withSelf, mem_filter, h.providers, contains_iff_mem, h.mem_live, mem_inter]
  tauto

/-- The live peers that provide the object. -/
def View.providing (view : View Peer) : Finset Peer := view.live ∩ view.providers

/-- The full members among them, which every node counts. -/
def View.full (view : View Peer) : Finset Peer :=
  view.providing.filter fun peer => view.probationary peer = false

/-- Those on probation, of which a node counts only itself. -/
def View.onProbation (view : View Peer) : Finset Peer :=
  view.providing.filter fun peer => ¬view.probationary peer = false

/-- The full members that could be sent the object. -/
def View.candidates (view : View Peer) : Finset Peer :=
  (view.live \ view.providers).filter fun peer => view.probationary peer = false

theorem View.card_providing (view : View Peer) :
    view.providing.card = view.full.card + view.onProbation.card :=
  (card_filter_add_card_filter_not _).symm

/-- A live holder: it goes by the view, in which it is one of the providers. -/
structure Holder (view : View Peer) (node : Node Peer) : Prop extends Shares view node where
  provides : node.self ∈ view.providers

theorem Holder.providing (h : Holder view node) : node.self ∈ view.providing :=
  mem_inter.mpr ⟨h.self, h.provides⟩

theorem exists_holder (hpeer : peer ∈ view.providing) : ∃ node, Holder view node ∧ node.self = peer := by
  have hmem := mem_inter.mp hpeer
  refine ⟨{ self := peer, livePeers := view.live.toList, providers := view.providers.toList
            operatorFor := fun other => if view.probationary other then some [] else none
            isProbationary := fun _ => true, livePeers_nodup := Finset.nodup_toList _
            providers_nodup := Finset.nodup_toList _ }, ⟨⟨hmem.1, ?_, ?_, ?_⟩, hmem.2⟩, rfl⟩
  · exact fun other _ => Finset.mem_toList
  · exact fun other => Finset.mem_toList
  · intro other _ _
    show (if view.probationary other then some [] else none : Option Text).any (fun _ => true) = _
    cases view.probationary other <;> rfl

theorem Holder.holders_perm (h : Holder view node) :
    node.holders.Perm (insert node.self view.full).toList := by
  refine (perm_ext_iff_of_nodup node.nodup_holders (Finset.nodup_toList _)).mpr fun peer => ?_
  rw [h.mem_holders, Finset.mem_toList, View.full, Finset.mem_insert, Finset.mem_filter, View.providing]

theorem Holder.candidates_perm (h : Holder view node) :
    (node.live.filter fun peer => !node.holders.contains peer).Perm view.candidates.toList := by
  refine (perm_ext_iff_of_nodup (node.nodup_live.filter _) (Finset.nodup_toList _)).mpr fun peer => ?_
  rw [mem_filter, Bool.not_eq_true', ← Bool.not_eq_true, contains_iff_mem, h.mem_live, h.mem_holders,
    Finset.mem_toList, View.candidates, Finset.mem_filter, mem_sdiff, mem_inter]
  have hself : peer = node.self → peer ∈ view.providers := fun heq => heq ▸ h.provides
  tauto

theorem Holder.length_holders (h : Holder view node) :
    node.holders.length = (insert node.self view.full).card := by
  rw [h.holders_perm.length_eq, Finset.length_toList]

/-- A holder has no plan when it counts enough holders, or when nobody is left to send the object
to. -/
theorem Holder.plan_eq_none (h : Holder view node) : node.plan scoring target = none ↔
    target ≤ (insert node.self view.full).card ∨ view.candidates = ∅ := by
  have hpos : 0 < (insert node.self view.full).card := card_pos.mpr (insert_nonempty _ _)
  have hnil : node.holders ≠ [] := by
    intro hempty
    rw [← h.length_holders, hempty] at hpos
    exact lt_irrefl 0 hpos
  have hcandidates : (node.live.filter fun peer => !node.holders.contains peer) = [] ↔
    view.candidates = ∅ := by
    rw [← length_eq_zero_iff, h.candidates_perm.length_eq, Finset.length_toList, card_eq_zero]
  rw [Node.plan, planRepair, h.length_holders]
  split
  · rename_i hidle
    refine iff_of_true rfl (.inl ?_)
    rcases hidle with hzero | hempty | hle
    · exact hzero ▸ Nat.zero_le _
    · exact absurd hempty hnil
    · exact hle
  · rename_i hneeded
    have hle : ¬target ≤ (insert node.self view.full).card := fun hle => hneeded (.inr (.inr hle))
    split
    · rename_i hranked
      refine absurd ?_ hnil
      exact perm_nil.mp (hranked ▸ (ranked_perm (score scoring) node.holders).symm)
    · simp only [ite_eq_left_iff, reduceCtorEq, imp_false, not_not, hcandidates, hle, false_or]

/-- The pusher is the first of the holders that the node counts, and the recipients are the first
candidates, as many as these holders are too few. -/
theorem Holder.plan_eq_some (h : Holder view node) {plan : RepairPlan Peer}
    (hplan : node.plan scoring target = some plan) :
    First (score scoring) (insert node.self view.full) plan.pusher ∧
      plan.recipients = (ranked (score scoring) view.candidates.toList).take
        (target - (insert node.self view.full).card) := by
  rw [Node.plan, planRepair, h.length_holders] at hplan
  split at hplan
  · cases hplan
  · split at hplan
    · cases hplan
    · rename_i pusher rest hranked
      dsimp only at hplan
      split at hplan
      · cases hplan
      · cases hplan
        exact ⟨first_of_ranked h.holders_perm hranked, by rw [ranked_congr _ h.candidates_perm]⟩

theorem Holder.length_recipients (h : Holder view node) {plan : RepairPlan Peer}
    (hplan : node.plan scoring target = some plan) :
    plan.recipients.length = min (target - (insert node.self view.full).card) view.candidates.card := by
  rw [(h.plan_eq_some hplan).2, length_take, (ranked_perm _ _).length_eq, Finset.length_toList]

/-- All live holders make the same plan, at most one pushes, and with every live provider counted
they and the recipients are at most as many as wanted. -/
structure OnePusher (scoring : Scoring Peer) (target : Nat) (view : View Peer) : Prop where
  plan : ∀ a b, Holder view a → Holder view b → a.plan scoring target = b.plan scoring target
  pusher : ∀ a b object object', Holder view a → Holder view b →
    (a.finishRepairCheck scoring target object).isSome = true →
    (b.finishRepairCheck scoring target object').isSome = true → a.self = b.self
  bound : ∀ a plan, Holder view a → a.plan scoring target = some plan →
    view.providing.card + plan.recipients.length ≤ target

/-- A full member and a holder on probation agree only when there is room for every candidate, and
the full member's choice ranks before the other. -/
theorem OnePusher.room (hone : OnePusher scoring target view) {member : Peer} (hmember : member ∈ view.full)
    (hprobation : view.onProbation ≠ ∅) (hcandidates : view.candidates ≠ ∅)
    (htarget : view.full.card < target) :
    view.providing.card + view.candidates.card ≤ target ∧
      ∀ peer ∈ view.onProbation, ∃ member ∈ view.full, Before (score scoring) member peer := by
  obtain ⟨a, ha, rfl⟩ := exists_holder (Finset.mem_filter.mp hmember).1
  have hinsert : insert a.self view.full = view.full := insert_eq_self.mpr hmember
  have hsome : a.plan scoring target ≠ none := by
    rw [Ne, ha.plan_eq_none, hinsert, not_or, not_le]
    exact ⟨htarget, hcandidates⟩
  obtain ⟨plan, hplan⟩ := Option.ne_none_iff_exists'.mp hsome
  constructor
  · have hbound := hone.bound a plan ha hplan
    have hpos := card_pos.mpr (nonempty_iff_ne_empty.mpr hprobation)
    rw [ha.length_recipients hplan, hinsert] at hbound
    have hcard := view.card_providing
    omega
  · intro peer hpeer
    obtain ⟨b, hb, rfl⟩ := exists_holder (Finset.mem_filter.mp hpeer).1
    have hplan' := (hone.plan a b ha hb).symm.trans hplan
    have hfirst := (ha.plan_eq_some hplan).1
    rw [hinsert] at hfirst
    refine ⟨plan.pusher, hfirst.1, (hb.plan_eq_some hplan').1.2 _ (mem_insert_self _ _) ?_⟩
    rintro heq
    exact (Finset.mem_filter.mp hpeer).2 (heq ▸ (Finset.mem_filter.mp hfirst.1).2)

end

namespace Disagreement

def scoring : Scoring Nat :=
  { externals := reference, toBytes := fun n => [BitVec.ofNat 8 n], cid := replicate 32 9#8 }

def view : View Nat :=
  { live := {1, 2, 3, 4, 5}, providers := {1, 2}, probationary := fun n => n == 1 }

def node (self : Nat) (livePeers providers : List Nat) (hlive : livePeers.Nodup)
    (hproviders : providers.Nodup) :
    Node Nat :=
  { self := self, livePeers := livePeers, operatorFor := fun n => some [Char.ofNat (64 + n)]
    isProbationary := fun operatorId => operatorId == ['A'], providers := providers, livePeers_nodup := hlive
    providers_nodup := hproviders }

def onProbation : Node Nat := node 1 [2, 3, 4, 5] [1, 2] (by decide) (by decide)

end Disagreement

/-! ## The scan of the stored objects -/

namespace Scan

variable (entries : List Text) (sample : Nat)

/-- `len` counts bytes in the source; a name that decodes has one for each character. -/
def cidOf (name : Text) : Option Bytes :=
  if name.length ≠ 64 then none else (Hex.decode name).filter fun raw => raw.length == 32

def listLoop (limit : Nat) : List Text → List Bytes → List Bytes
  | [], out => out
  | name :: rest, out =>
    if limit ≤ out.length then out
    else match cidOf name with
      | none => listLoop limit rest out
      | some cid => listLoop limit rest (out ++ [cid])

/-- `entries` is the directory as `read_dir` lists it. -/
def listObjectCids (offset limit : Nat) : List Bytes :=
  if limit = 0 then [] else listLoop limit (entries.drop offset) []

/-- The next cursor, and the objects that are assessed. -/
def repairScan (cursor : Nat) : Nat × List Bytes :=
  let cids := listObjectCids entries cursor sample
  (if cids.length < sample then 0 else cursor + cids.length, cids)

def cursorAt : Nat → Nat
  | 0 => 0
  | tick + 1 => (repairScan entries sample (cursorAt tick)).1

def scannedAt (tick : Nat) : List Bytes := (repairScan entries sample (cursorAt entries sample tick)).2

variable {entries sample}

theorem listLoop_eq {limit : Nat} {out : List Bytes} (h : out.length ≤ limit) :
    listLoop limit entries out = out ++ (entries.filterMap cidOf).take (limit - out.length) := by
  induction entries generalizing out with
  | nil => simp [listLoop]
  | cons name rest ih =>
    rw [listLoop, filterMap_cons]
    split
    · simp [show limit - out.length = 0 by omega]
    · cases hcid : cidOf name with
      | none => exact ih h
      | some cid =>
        obtain ⟨n, hn⟩ : ∃ n, limit - out.length = n + 1 := ⟨limit - out.length - 1, by omega⟩
        have hroom : (out ++ [cid]).length ≤ limit := by simp; omega
        simp [ih hroom, hn, show limit - (out.length + 1) = n by omega]

theorem listObjectCids_eq (h : 0 < sample) (cursor : Nat) :
    listObjectCids entries cursor sample = ((entries.drop cursor).filterMap cidOf).take sample := by
  rw [listObjectCids, if_neg (by omega), listLoop_eq (by simp)]
  simp

/-- One scan: it ends the round with all that is left, or has every object among the next `sample`
names. -/
theorem repairScan_cases (h : 0 < sample) (cursor : Nat) : ((repairScan entries sample cursor).1 = 0 ∧
      (entries.drop cursor).filterMap cidOf ⊆ (repairScan entries sample cursor).2) ∨
    ((repairScan entries sample cursor).1 = cursor + sample ∧ cursor + sample ≤ entries.length ∧
      ((entries.drop cursor).take sample).filterMap cidOf ⊆ (repairScan entries sample cursor).2) := by
  have hf := length_filterMap_le cidOf (entries.drop cursor)
  simp only [repairScan, listObjectCids_eq h, length_take, length_drop] at hf ⊢
  by_cases hshort : ((entries.drop cursor).filterMap cidOf).length < sample
  · exact .inl ⟨if_pos (by omega), by rw [take_of_length_le hshort.le]; exact Subset.refl _⟩
  · refine .inr ⟨by rw [if_neg (by omega), min_eq_left (by omega)], by omega, IsPrefix.subset ?_⟩
    refine prefix_take_iff.mpr ⟨( take_prefix sample (entries.drop cursor)).filterMap cidOf, ?_⟩
    exact (length_filterMap_le _ _).trans (length_take_le _ _)

theorem round_from {tick : Nat} (h : 0 < sample) {cursor : Nat}
    (hcursor : cursorAt entries sample tick = cursor) :
    ∃ stop, tick < stop ∧ cursorAt entries sample stop = 0 ∧
      (∀ k, tick < k → k < stop → cursorAt entries sample k ≠ 0) ∧
      ∀ cid ∈ (entries.drop cursor).filterMap cidOf, ∃ k, tick ≤ k ∧ k < stop ∧ cid ∈
        scannedAt entries sample k := by
  -- on the names behind the cursor; the scan covers the next `sample` of them, or all
  induction hleft : entries.length - cursor using Nat.strong_induction_on generalizing cursor tick with
  | _ left ih =>
    subst hcursor
    rcases repairScan_cases h (cursorAt entries sample tick) with ⟨hreset, hall⟩ | ⟨hn, hb, hs⟩
    · exact ⟨tick + 1, by omega, hreset, by omega, fun cid hcid => ⟨tick, le_rfl, by omega, hall hcid⟩⟩
    · have hcursor : cursorAt entries sample (tick + 1) = _ := hn
      obtain ⟨stop, hstop, hzero, hbet, hr⟩ := ih _ (by omega) hcursor rfl
      refine ⟨stop, by omega, hzero, fun k hk hlt => ?_, fun cid hcid => ?_⟩
      · rcases Nat.eq_or_lt_of_le (Nat.succ_le_of_lt hk) with rfl | hk
        · rw [hcursor]
          omega
        · exact hbet k hk hlt
      · rw [← take_append_drop sample (entries.drop _), filterMap_append, drop_drop, mem_append] at hcid
        rcases hcid with hf | hla
        · exact ⟨tick, le_rfl, by omega, hs hf⟩
        · obtain ⟨k, hk, hlt, hmem⟩ := hr cid hla
          exact ⟨k, by omega, hlt, hmem⟩

/-- From a tick at which the cursor stands at zero to the next one, every stored object is scanned.
-/
theorem round_scans_all (entries : List Text) (sample : Nat) (h : 0 < sample) (tick : Nat)
    (hstart : cursorAt entries sample tick = 0) :
    ∃ stop, tick < stop ∧ cursorAt entries sample stop = 0 ∧
      (∀ k, tick < k → k < stop → cursorAt entries sample k ≠ 0) ∧
      ∀ name ∈ entries, ∀ cid, cidOf name = some cid → ∃ k, tick ≤ k ∧ k < stop ∧ cid ∈
        scannedAt entries sample k := by
  obtain ⟨stop, hstop, hzero, hbet, hall⟩ := round_from h hstart
  exact ⟨stop, hstop, hzero, hbet, fun name hn cid hcid => hall cid (mem_filterMap.mpr ⟨name, hn, hcid⟩)⟩

theorem scanned_behind_foreign_name :
    ∃ stop, 0 < stop ∧ cursorAt ["x.tmp".toList, replicate 64 'a'] 1 stop = 0 ∧
      ∃ k < stop, replicate 32 0xaa#8 ∈ scannedAt ["x.tmp".toList, replicate 64 'a'] 1 k := by
  obtain ⟨stop, hstop, hzero, -, hall⟩ :=
    round_scans_all ["x.tmp".toList, replicate 64 'a'] 1 Nat.one_pos 0 rfl
  obtain ⟨k, -, hk, hmem⟩ := hall (replicate 64 'a') (by simp) (replicate 32 0xaa#8) (by decide)
  exact ⟨stop, hstop, hzero, k, hk, hmem⟩

end Scan

end CipherVault.Network.Repair
