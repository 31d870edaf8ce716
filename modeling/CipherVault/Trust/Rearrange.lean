import CipherVault.Trust.Correct

/-!
# Trust.Rearrange

What order, repetition and records that authenticate nothing do to `select_head`: nothing, as long
as the certificates of the highest generation that a head verifies under carry one key. Otherwise
the order of the certificates decides: Ed25519 accepts both encodings of the neutral point as keys
of one signature.
-/

namespace CipherVault.Trust

open Crypto Format List

def view (p : Authenticated) : HeadRecord × Bytes × Nat := (p.1, p.2.deviceSigningPk, p.2.authorityGeneration)

def outcome : Except String Authenticated → Option (HeadRecord × Bytes × Nat)
  | .ok p => some (view p)
  | .error _ => none

/-- `r` adds no certificate and no head that verifies under a certificate of `records`. -/
def AddsNothing (E : Externals) (records : List Bytes) (vault rootPk r : Bytes) : Prop :=
  (∀ c, fromCanonicalCbor E.decodeCertificate r = .ok c → trusted E vault rootPk c = false) ∧
    ∀ h, fromCanonicalCbor E.decodeHead r = .ok h → wellFormed vault h = true →
      ∀ c, Certified E records vault rootPk c → ¬ VerifiesUnder E h c

/-- The records an operator can return instead: in another order, repeated, or with others added. -/
inductive Rearranges (E : Externals) (vault rootPk : Bytes) : List Bytes → List Bytes → Prop where
  | perm {records records' : List Bytes} : records.Perm records' → Rearranges E vault rootPk records records'
  | duplicate {records : List Bytes} {r : Bytes} : r ∈ records →
      Rearranges E vault rootPk records (r :: records)
  | add {records : List Bytes} {r : Bytes} : AddsNothing E records vault rootPk r →
      Rearranges E vault rootPk records (r :: records)
  | trans {records records' records'' : List Bytes} : Rearranges E vault rootPk records records' →
      Rearranges E vault rootPk records' records'' → Rearranges E vault rootPk records records''

/-- The certificates of the highest generation that a head verifies under carry one key. -/
def OneKey (E : Externals) (records : List Bytes) (vault rootPk : Bytes) : Prop :=
  ∀ h, HeadAuthenticated E records vault rootPk h → ∀ c c', Certified E records vault rootPk c →
    Certified E records vault rootPk c' → VerifiesUnder E h c → VerifiesUnder E h c' →
    (∀ d, Certified E records vault rootPk d → VerifiesUnder E h d →
      d.authorityGeneration ≤ c.authorityGeneration) →
    c'.authorityGeneration = c.authorityGeneration → c'.deviceSigningPk = c.deviceSigningPk

/-! ## The selection depends on the views only -/

/-- Whatever one list shows, the other shows too. -/
def ViewSub (heads heads' : List Authenticated) : Prop :=
  ∀ p ∈ heads, ∃ q ∈ heads', view q = view p

variable {p q : Authenticated}

theorem view_eq (h : view q = view p) : q.1 = p.1 ∧ q.2.deviceSigningPk = p.2.deviceSigningPk ∧
      q.2.authorityGeneration = p.2.authorityGeneration := by
  simp only [view, Prod.mk.injEq] at h
  exact h

theorem counterKey_eq_of_view (h : view q = view p) : counterKey q = counterKey p := by
  obtain ⟨h1, h2, h3⟩ := view_eq h
  rw [counterKey, counterKey, h1, h2, h3]

section

variable {heads heads' : List Authenticated}

theorem ViewSub.noConflict (h : ViewSub heads' heads) (hno : NoConflict heads) : NoConflict heads' := by
  intro p hp q hq
  obtain ⟨p', hp', hpv⟩ := h p hp
  obtain ⟨q', hq', hqv⟩ := h q hq
  obtain ⟨hbind, hc⟩ := hno p' hp' q' hq'
  rw [counterKey_eq_of_view hpv, counterKey_eq_of_view hqv, (view_eq hpv).1, (view_eq hqv).1] at hc
  rw [(view_eq hpv).1, (view_eq hqv).1] at hbind
  exact ⟨hbind, hc⟩

theorem ViewSub.isParent {child parent : Bytes} (h : ViewSub heads heads')
    (hp : IsParent heads child parent) :
    IsParent heads' child parent := by
  obtain ⟨p, hp, hid, hmem⟩ := hp
  obtain ⟨q, hq, hv⟩ := h p hp
  obtain ⟨h1, _⟩ := view_eq hv
  exact ⟨q, hq, h1 ▸ hid, h1 ▸ hmem⟩

theorem ViewSub.properAncestor {a b : Bytes} (h : ViewSub heads heads') (hp : ProperAncestor heads a b) :
    ProperAncestor heads' a b := Relation.TransGen.mono (fun _ _ => h.isParent) _ _ hp

theorem ViewSub.isCandidate (h : ViewSub heads' heads) (hp : IsCandidate heads p)
    (hq : q ∈ heads') (hv : view q = view p) : IsCandidate heads' q := by
  refine ⟨hq, ?_⟩
  intro r hr
  obtain ⟨r', hr', hrv⟩ := h r hr
  have hle := hp.2 r' hr'
  rw [(view_eq hrv).2.2] at hle
  rw [(view_eq hv).2.2]
  exact hle

theorem cycleReachable_of_views (h : ViewSub heads heads') (h' : ViewSub heads' heads)
    (hc : CycleReachable heads) : CycleReachable heads' := by
  obtain ⟨p, hp, n, hreach, hcy⟩ := hc
  obtain ⟨q, hq, hv⟩ := h p hp.1
  refine ⟨q, h'.isCandidate hp hq hv, n, ?_, h.properAncestor hcy⟩
  rw [(view_eq hv).1]
  exact Relation.ReflTransGen.mono (fun _ _ => h.isParent) _ _ hreach

theorem isMaximal_of_views (h : ViewSub heads heads') (h' : ViewSub heads' heads)
    (hp : IsMaximal heads p) (hq : q ∈ heads') (hv : view q = view p) : IsMaximal heads' q := by
  refine ⟨h'.isCandidate hp.1 hq hv, ?_⟩
  intro r hr hne hanc
  obtain ⟨r', hr', hrv⟩ := h' r hr.1
  have hcand : IsCandidate heads r' := h.isCandidate hr hr' hrv
  rw [(view_eq hv).1] at hne hanc
  rw [← (view_eq hrv).1] at hne hanc
  exact hp.2 r' hcand hne (h'.properAncestor hanc)

theorem selectAuthenticated_views (h : ViewSub heads heads') (h' : ViewSub heads' heads)
    (hfun : ∀ p ∈ heads, ∀ q ∈ heads, p.1 = q.1 → p = q)
    (hfun' : ∀ p ∈ heads', ∀ q ∈ heads', p.1 = q.1 → p = q)
    (hp : selectAuthenticated heads = .ok p) : ∃ q, selectAuthenticated heads' = .ok q ∧ view q = view p := by
  obtain ⟨hno, hcy, hmax, huniq⟩ := (selectAuthenticated_ok_iff hfun p).mp hp
  obtain ⟨q, hq, hv⟩ := h p hmax.1.1
  refine ⟨q, (selectAuthenticated_ok_iff hfun' q).mpr ⟨h'.noConflict hno, ?_, ?_, ?_⟩, hv⟩
  · exact fun hc => hcy (cycleReachable_of_views h' h hc)
  · exact isMaximal_of_views h h' hmax hq hv
  · intro r hr
    obtain ⟨r', hr', hrv⟩ := h' r hr.1.1
    have hr'max := isMaximal_of_views h' h hr hr' hrv
    rw [huniq r' hr'max] at hrv
    exact hfun' r hr.1.1 q hq ((view_eq hrv).1.symm.trans (view_eq hv).1.symm)

end

/-! ## What a rearrangement keeps -/

/-- The certificates and the authenticated heads of two lists of records are the same. -/
structure SameRecords (E : Externals) (vault rootPk : Bytes) (records records' : List Bytes) : Prop where
  certified : ∀ c, Certified E records vault rootPk c ↔ Certified E records' vault rootPk c
  authenticated : ∀ h, HeadAuthenticated E records vault rootPk h ↔
    HeadAuthenticated E records' vault rootPk h

section

variable {E : Externals} {vault rootPk : Bytes} {records records' records'' : List Bytes}

theorem SameRecords.trans (h : SameRecords E vault rootPk records records')
    (h' : SameRecords E vault rootPk records' records'') : SameRecords E vault rootPk records records'' :=
  ⟨fun c => (h.certified c).trans (h'.certified c), fun x => (h.authenticated x).trans (h'.authenticated x)⟩

theorem sameRecords_of_mem (h : ∀ r, r ∈ records ↔ r ∈ records') :
    SameRecords E vault rootPk records records' := by
  have hc : ∀ c, Certified E records vault rootPk c ↔ Certified E records' vault rootPk c := by
    intro c; simp only [Certified, h]
  exact ⟨hc, fun x => by simp only [HeadAuthenticated, hc, h]⟩

theorem AddsNothing.sameRecords {r : Bytes} (h : AddsNothing E records vault rootPk r) :
    SameRecords E vault rootPk records (r :: records) := by
  have hce : ∀ c, Certified E records vault rootPk c ↔ Certified E (r :: records) vault rootPk c := by
    intro c
    constructor
    · rintro ⟨s, hs, hdec, ht⟩
      exact ⟨s, mem_cons_of_mem _ hs, hdec, ht⟩
    · rintro ⟨s, hs, hdec, ht⟩
      rcases mem_cons.mp hs with rfl | hs
      · rw [h.1 c hdec] at ht; cases ht
      · exact ⟨s, hs, hdec, ht⟩
  refine ⟨hce, fun x => ?_⟩
  simp only [HeadAuthenticated, ← hce]
  constructor
  · rintro ⟨⟨s, hs, hdec⟩, hr⟩
    exact ⟨⟨s, mem_cons_of_mem _ hs, hdec⟩, hr⟩
  · rintro ⟨⟨s, hs, hdec⟩, hwf, c, hc, hv⟩
    rcases mem_cons.mp hs with rfl | hs
    · exact absurd hv (h.2 x hdec hwf c hc)
    · exact ⟨⟨s, hs, hdec⟩, hwf, c, hc, hv⟩

theorem Rearranges.sameRecords (h : Rearranges E vault rootPk records records') :
    SameRecords E vault rootPk records records' := by
  induction h with
  | perm hperm => exact sameRecords_of_mem fun r => hperm.mem_iff
  | duplicate hmem =>
    refine sameRecords_of_mem fun r => ⟨mem_cons_of_mem _, fun hr => ?_⟩
    rcases mem_cons.mp hr with rfl | hr
    · exact hmem
    · exact hr
  | add hadds => exact hadds.sameRecords
  | trans _ _ ih ih' => exact ih.trans ih'

section

variable (h : SameRecords E vault rootPk records records')
include h

theorem OneKey.of_same (hone : OneKey E records vault rootPk) : OneKey E records' vault rootPk := by
  intro x hx c c' hc hc' hv hv' htop heq
  refine hone x ((h.authenticated x).mpr hx) c c' ((h.certified c).mpr hc)
    ((h.certified c').mpr hc') hv hv' ?_ heq
  intro d hd hvd
  exact htop d ((h.certified d).mp hd) hvd

theorem SameRecords.symm : SameRecords E vault rootPk records' records :=
  ⟨fun c => (h.certified c).symm, fun x => (h.authenticated x).symm⟩

theorem SameRecords.viewSub (hone : OneKey E records vault rootPk) :
    ViewSub (authenticatedHeads E records vault rootPk) (authenticatedHeads E records' vault rootPk) := by
  intro p hp
  obtain ⟨hc, hv, htop⟩ := authenticate_eq_some (mem_authenticatedHeads.mp hp).2.2
  have hauth : HeadAuthenticated E records vault rootPk p.1 := headAuthenticated_iff.mpr ⟨p.2, hp⟩
  obtain ⟨c', hc'mem⟩ := headAuthenticated_iff.mp ((h.authenticated p.1).mp hauth)
  obtain ⟨hc', hv', htop'⟩ := authenticate_eq_some (mem_authenticatedHeads.mp hc'mem).2.2
  have hle : c'.authorityGeneration ≤ p.2.authorityGeneration := htop c' ((h.certified c').mpr hc') hv'
  have hge : p.2.authorityGeneration ≤ c'.authorityGeneration := htop' p.2 ((h.certified p.2).mp hc) hv
  have hgen : c'.authorityGeneration = p.2.authorityGeneration := Nat.le_antisymm hle hge
  have hkey : c'.deviceSigningPk = p.2.deviceSigningPk :=
    hone p.1 hauth p.2 c' hc ((h.certified c').mpr hc') hv hv' htop hgen
  refine ⟨(p.1, c'), hc'mem, ?_⟩
  rw [view, view, hkey, hgen]

theorem SameRecords.selectHead_ok (hone : OneKey E records vault rootPk)
    (hp : selectHead E records vault rootPk = .ok p) :
    ∃ q, selectHead E records' vault rootPk = .ok q ∧ view q = view p := by
  have hsub := h.viewSub hone
  have hsub' := h.symm.viewSub (hone.of_same h)
  obtain ⟨q, hq, hv⟩ := selectAuthenticated_views hsub hsub'
    (authenticatedHeads_functional E records vault rootPk)
    (authenticatedHeads_functional E records' vault rootPk) (selectHead_eq_ok.mp hp)
  exact ⟨q, selectHead_eq_ok.mpr hq, hv⟩

end

end

/-- The choice does not depend on the order of the records, on copies, or on ones that add nothing. -/
theorem selectHead_rearranges {E : Externals} {vault rootPk : Bytes} {records records' : List Bytes}
    (hone : OneKey E records vault rootPk) (h : Rearranges E vault rootPk records records') :
    outcome (selectHead E records' vault rootPk) = outcome (selectHead E records vault rootPk) := by
  have hsa := h.sameRecords
  cases hs : selectHead E records vault rootPk with
  | ok p =>
    obtain ⟨q, hq, hv⟩ := hsa.selectHead_ok hone hs
    rw [hq, outcome, outcome, hv]
  | error e =>
    cases hs' : selectHead E records' vault rootPk with
    | error e' => rfl
    | ok p' =>
      obtain ⟨q, hq, _⟩ := hsa.symm.selectHead_ok (hone.of_same hsa) hs'
      rw [hs] at hq
      cases hq

/-! ## Two encodings of the neutral point -/

/-- The canonical encoding of the neutral point of the curve. -/
def neutralKey : Bytes := 1#8 :: replicate 31 0#8

/-- The neutral point with the sign bit set, which is decoded to the neutral point too. -/
def neutralKeySigned : Bytes := 1#8 :: (replicate 30 0#8 ++ [0x80#8])

/-- The signature of neutral `R` and zero `S`: it verifies every message under the neutral point. -/
def neutralSignature : Bytes := neutralKey ++ replicate 32 0#8

def demoVault : Bytes := replicate 32 3#8

def demoRoot : Bytes := replicate 32 7#8

def demoCertificate (pk : Bytes) : DeviceCertificate :=
  { version := 1, vaultId := demoVault, certificateId := pk, deviceSigningPk := pk, permissions := 1
    authorityGeneration := 1, issuedAtUtc := 0, signature := replicate 64 7#8 }

def demoHead : HeadRecord :=
  { version := 1, vaultId := demoVault, snapshotId := replicate 32 9#8, parentSnapshotIds := []
    closureDigest := [], deviceId := replicate 32 5#8, deviceCounter := 1, signature := neutralSignature }

/-- The three byte strings encode a certificate for each key and the head. The root's signature is
the constant one; under the two keys the neutral signature verifies. -/
def neutralExternals : Externals where
  encode _ := []
  decodeGenesis _ := none
  decodeCertificate bytes :=
    if bytes = [1#8] then some (demoCertificate neutralKey)
    else if bytes = [2#8] then some (demoCertificate neutralKeySigned) else none
  decodeEnvelope _ := none
  decodeChunk _ := none
  decodeManifest _ := none
  decodeSnapshot _ := none
  decodeHead bytes := if bytes = [3#8] then some demoHead else none
  sha256 _ := []
  blake2b512 _ := []
  hkdfSha256 _ _ _ _ := []
  xchachaEncrypt _ _ _ _ := []
  xchachaDecrypt _ _ _ _ := none
  x25519Public sk := sk
  x25519 _ _ := none
  ed25519Public sk := sk
  ed25519Sign _ _ := []
  ed25519Verify pk _ signature :=
    (pk == demoRoot && signature == replicate 64 7#8) ||
      ((pk == neutralKey || pk == neutralKeySigned) && signature == neutralSignature)

/-- The order of two certificates decides which key the head is returned with. -/
theorem selectHead_swap_certificates :
    Rearranges neutralExternals demoVault demoRoot [[1#8], [2#8], [3#8]] [[2#8], [1#8], [3#8]] ∧
      outcome (selectHead neutralExternals [[1#8], [2#8], [3#8]] demoVault demoRoot) =
        some (demoHead, neutralKey, 1) ∧
      outcome (selectHead neutralExternals [[2#8], [1#8], [3#8]] demoVault demoRoot) =
        some (demoHead, neutralKeySigned, 1) ∧
      neutralKey ≠ neutralKeySigned := by
  refine ⟨Rearranges.perm ?_, by decide +kernel, by decide +kernel, by decide⟩
  exact List.Perm.swap _ _ _

theorem neutral_certified {c : DeviceCertificate}
    (h : Certified neutralExternals [[1#8], [3#8]] demoVault demoRoot c) :
    c = demoCertificate neutralKey := by
  obtain ⟨r, hr, hdec, _⟩ := h
  simp only [mem_cons, not_mem_nil, or_false] at hr
  rcases hr with rfl | rfl
  · exact (Except.ok.inj hdec).symm
  · cases hdec

theorem selectHead_rearranges_one_certificate :
    OneKey neutralExternals [[1#8], [3#8]] demoVault demoRoot ∧
      Rearranges neutralExternals demoVault demoRoot [[1#8], [3#8]] [[4#8], [3#8], [1#8], [3#8]] ∧
      outcome (selectHead neutralExternals [[4#8], [3#8], [1#8], [3#8]] demoVault demoRoot) =
        some (demoHead, neutralKey, 1) := by
  have hone : OneKey neutralExternals [[1#8], [3#8]] demoVault demoRoot := by
    intro h _ c c' hc hc' _ _ _ _
    rw [neutral_certified hc, neutral_certified hc']
  have hrea : Rearranges neutralExternals demoVault demoRoot [[1#8], [3#8]]
      [[4#8], [3#8], [1#8], [3#8]] := by
    refine .trans (.duplicate (r := [3#8]) (by simp)) (.add ⟨?_, ?_⟩)
    · intro c hdec; cases hdec
    · intro h hdec; cases hdec
  refine ⟨hone, hrea, ?_⟩
  rw [selectHead_rearranges hone hrea]
  decide +kernel

end CipherVault.Trust
