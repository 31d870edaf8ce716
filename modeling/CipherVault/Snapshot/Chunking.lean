import CipherVault.Snapshot.FastCdc

/-!
# Snapshot.Chunking

`fastcdc_chunk` on every input: a partition within the bounds of the configuration, of which an edit
changes only the chunks near to it.
-/

namespace CipherVault.Snapshot

open Crypto List Nat

/-- The sizes are in order. -/
structure FastCdcConfig.Valid (config : FastCdcConfig) : Prop where
  pos : 0 < config.minSize
  minAvg : config.minSize ≤ config.avgSize
  avgMax : config.avgSize ≤ config.maxSize

variable {minSize avgSize maxSize turns i : Nat} {mask : BitVec 64} {rest : Bytes}

theorem valid_of_new {config : FastCdcConfig} (h : FastCdcConfig.new minSize avgSize maxSize = some config) :
    config.Valid ∧ config.minSize = minSize ∧ config.maxSize = maxSize := by
  rw [FastCdcConfig.new] at h
  split at h
  · next hsizes =>
    cases h
    exact ⟨⟨hsizes.1, hsizes.2.1, hsizes.2.2⟩, rfl, rfl⟩
  · cases h

theorem le_of_scan_cut {point : Nat} {hash : BitVec 64}
    (h : scan mask turns i hash rest = .cut point) : point ≤ i + turns := by
  induction turns generalizing i hash rest with
  | zero => cases h
  | succ turns ih =>
    cases rest with
    | nil => cases h
    | cons byte rest =>
      rw [scan] at h
      split at h
      · cases h
        omega
      · have := ih h
        omega

theorem scan_append (mask : BitVec 64) (turns i : Nat) (hash : BitVec 64) (rest behind : Bytes)
    (h : turns ≤ rest.length) :
    scan mask turns i hash (rest ++ behind) = match scan mask turns i hash rest with
      | .cut point => .cut point
      | .stop hash' rest' => .stop hash' (rest' ++ behind) := by
  induction turns generalizing i hash rest with
  | zero => simp [scan]
  | succ turns ih =>
    cases rest with
    | nil => simp at h
    | cons byte rest =>
      rw [cons_append, scan, scan]
      generalize (hash <<< 1) + gearMatrix byte = next
      by_cases hcut : next &&& mask = 0#64
      · simp [hcut]
      · simp only [hcut, if_false]
        exact ih _ _ rest (by simpa using h)

theorem length_of_scan_stop {rest' : Bytes} {hash hash' : BitVec 64}
    (h : scan mask turns i hash rest = .stop hash' rest') : rest.length ≤ rest'.length + turns := by
  induction turns generalizing i hash rest with
  | zero =>
    cases h
    omega
  | succ turns ih =>
    cases rest with
    | nil => simp
    | cons byte rest =>
      rw [scan] at h
      split at h
      · cases h
      · have := ih h
        simp only [length_cons]
        omega

variable {data : Bytes}

section

variable {config : FastCdcConfig}

theorem cutPoint_bounds (hconfig : config.Valid) (data : Bytes) (hmin : config.minSize ≤ data.length) :
    config.minSize ≤ cutPoint config data ∧ cutPoint config data ≤ min data.length config.maxSize := by
  obtain ⟨hpos, hminAvg, havgMax⟩ := hconfig
  rw [cutPoint]
  split
  · next point hcut =>
    have hlower := lt_of_scan_cut hcut
    have hupper := le_of_scan_cut hcut
    omega
  · split
    · split
      · next point hcut =>
        have hlower := lt_of_scan_cut hcut
        have hupper := le_of_scan_cut hcut
        omega
      · omega
    · omega

theorem cutPoint_append (hconfig : config.Valid) (hmax : config.maxSize ≤ data.length) (behind : Bytes) :
    cutPoint config (data ++ behind) = cutPoint config data := by
  obtain ⟨hpos, hminAvg, havgMax⟩ := hconfig
  have hmaxC : ∀ n, config.maxSize ≤ n → min n config.maxSize = config.maxSize := fun n hn => min_eq_right hn
  have hsp : ∀ n, config.maxSize ≤ n → min n config.avgSize = config.avgSize :=
    fun n hn => min_eq_right (le_trans havgMax hn)
  have hlonger : config.maxSize ≤ (data ++ behind).length := by
    rw [length_append]
    omega
  have hf : config.avgSize - config.minSize ≤ (data.drop config.minSize).length := by
    rw [length_drop]
    omega
  simp only [cutPoint, hmaxC _ hlonger, hmaxC _ hmax, hsp _ hlonger, hsp _ hmax]
  rw [drop_append_of_le_length (by omega), scan_append _ _ _ _ _ behind hf]
  cases hscan : scan config.maskS (config.avgSize - config.minSize) config.minSize 0#64
    (data.drop config.minSize) with
  | cut point => rfl
  | stop hash rest =>
    have hleft := length_of_scan_stop hscan
    rw [length_drop] at hleft
    dsimp only
    rw [scan_append _ _ _ _ _ behind (by omega)]
    split
    · cases scan config.maskL (config.maxSize - config.avgSize) config.avgSize hash rest with
      | cut | stop => rfl
    · rfl

/-! ## The first chunk and the rest -/

def firstCut (config : FastCdcConfig) (data : Bytes) : Nat :=
  if data.length ≤ config.minSize then data.length else cutPoint config data

section

variable (hconfig : config.Valid)
include hconfig

theorem firstCut_bounds (hdata : data ≠ []) :
    0 < firstCut config data ∧ firstCut config data ≤ min data.length config.maxSize ∧
      (firstCut config data < data.length → config.minSize ≤ firstCut config data) := by
  have hlen := length_pos_iff.mpr hdata
  have hminAvg := hconfig.minAvg
  have havgMax := hconfig.avgMax
  rw [firstCut]
  split
  · omega
  · have hbounds := cutPoint_bounds hconfig data (by omega)
    have hpos := hconfig.pos
    omega

theorem firstCut_append (hmax : config.maxSize ≤ data.length) (behind : Bytes) :
    firstCut config (data ++ behind) = cutPoint config data := by
  rw [firstCut, cutPoint_append hconfig hmax]
  split
  · next hshort =>
    have hbounds := cutPoint_bounds hconfig data
    have hminAvg := hconfig.minAvg
    have havgMax := hconfig.avgMax
    rw [length_append] at hshort ⊢
    omega
  · rfl

theorem chunkLoop_enough (turns turns' : Nat) (data : Bytes) (h : data.length ≤ turns)
    (h' : data.length ≤ turns') :
    chunkLoop config turns data = chunkLoop config turns' data := by
  induction turns generalizing turns' data with
  | zero =>
    cases eq_nil_of_length_eq_zero (le_zero.mp h)
    cases turns' with
    | zero | succ => rfl
  | succ turns ih =>
    cases data with
    | nil =>
      cases turns' with
      | zero | succ => rfl
    | cons byte rest =>
      cases turns' with
      | zero => simp at h'
      | succ turns' =>
        simp only [chunkLoop]
        split
        · rfl
        · next hlong =>
          have hbounds := cutPoint_bounds hconfig (byte :: rest) (by omega)
          have hpos := hconfig.pos
          rw [ih turns' _ (by rw [length_drop]; omega) (by rw [length_drop]; omega)]

/-- The hash starts anew in every chunk, so the chunks of the rest are those of the rest alone. -/
theorem fastcdcChunk_eq (hdata : data ≠ []) :
    fastcdcChunk data config = data.take (firstCut config data) :: fastcdcChunk
      (data.drop (firstCut config data)) config := by
  obtain ⟨hpos, hle, -⟩ := firstCut_bounds hconfig hdata
  cases data with
  | nil => exact absurd rfl hdata
  | cons byte rest =>
    rw [fastcdcChunk, length_cons, chunkLoop, fastcdcChunk]
    rw [firstCut] at hpos hle ⊢
    split
    · simp [chunkLoop]
    · next hlong =>
      rw [if_neg hlong] at hpos
      rw [chunkLoop_enough hconfig rest.length _ _ (by rw [length_drop, length_cons]; omega) (le_refl _)]

theorem chunk_induction {motive : Bytes → Prop} (nil : motive [])
    (chunk : ∀ data, data ≠ [] → motive (data.drop (firstCut config data)) → motive data) (data : Bytes) :
    motive data := by
  generalize hn : data.length = n
  induction n using Nat.strong_induction_on generalizing data with
  | _ n ih =>
    by_cases hd : data = []
    · rw [hd]
      exact nil
    · have hbounds := firstCut_bounds hconfig hd
      refine chunk data hd (ih _ ?_ _ rfl)
      rw [length_drop]
      omega

end

theorem chunk_bounds (hconfig : config.Valid) (data : Bytes) :
    ∀ chunk ∈ fastcdcChunk data config, chunk ≠ [] ∧ chunk.length ≤ config.maxSize := by
  induction data using chunk_induction hconfig with
  | nil => simp [fastcdcChunk, chunkLoop]
  | chunk data hd ih =>
    obtain ⟨hpos, hle, -⟩ := firstCut_bounds hconfig hd
    rw [fastcdcChunk_eq hconfig hd]
    intro chunk hc
    rcases mem_cons.mp hc with rfl | hc
    · refine ⟨?_, by rw [length_take]; omega⟩
      intro hnil
      have := congrArg length hnil
      simp only [length_take, length_nil] at this
      omega
    · exact ih chunk hc

theorem fastcdcChunk_eq_nil (hconfig : config.Valid) : fastcdcChunk data config = [] ↔ data = [] := by
  constructor
  · intro h
    by_contra hdata
    rw [fastcdcChunk_eq hconfig hdata] at h
    cases h
  · rintro rfl
    rfl

theorem min_le_of_mem_dropLast (hconfig : config.Valid) (data : Bytes) :
    ∀ chunk ∈ (fastcdcChunk data config).dropLast, config.minSize ≤ chunk.length := by
  induction data using chunk_induction hconfig with
  | nil => simp [fastcdcChunk, chunkLoop]
  | chunk data hd ih =>
    obtain ⟨-, hle, hmin⟩ := firstCut_bounds hconfig hd
    rw [fastcdcChunk_eq hconfig hd]
    by_cases hla : data.drop (firstCut config data) = []
    · simp [(fastcdcChunk_eq_nil hconfig).mpr hla]
    · rw [dropLast_cons_of_ne_nil ((fastcdcChunk_eq_nil hconfig).not.mpr hla)]
      intro chunk hc
      rcases mem_cons.mp hc with rfl | hc
      · rw [drop_eq_nil_iff] at hla
        rw [length_take]
        omega
      · exact ih chunk hc

end

/-- The loop ends with a turn for each byte, the chunks are the input, none is empty or longer than
the maximum, and none but the last is shorter than the minimum. -/
theorem fastcdcChunk_partition {config : FastCdcConfig}
    (hnew : FastCdcConfig.new minSize avgSize maxSize = some config) (data : Bytes) :
    (∀ turns, data.length ≤ turns → chunkLoop config turns data = fastcdcChunk data config) ∧
      (fastcdcChunk data config).flatten = data ∧
      (∀ chunk ∈ fastcdcChunk data config, chunk ≠ [] ∧ chunk.length ≤ maxSize) ∧
      ∀ chunk ∈ (fastcdcChunk data config).dropLast, minSize ≤ chunk.length := by
  obtain ⟨hconfig, rfl, rfl⟩ := valid_of_new hnew
  have hmax : 0 < config.maxSize := by
    have hpos := hconfig.pos
    have hminAvg := hconfig.minAvg
    have havgMax := hconfig.avgMax
    omega
  refine ⟨?_, flatten_fastcdcChunk hmax data, chunk_bounds hconfig data, min_le_of_mem_dropLast hconfig data⟩
  intro turns hturns
  exact chunkLoop_enough hconfig turns _ data hturns (le_refl _)

def tinyConfig : FastCdcConfig := ⟨1, 2, 3, 0x3#64, 0x0#64⟩

theorem fastcdcChunk_partition_tiny :
    FastCdcConfig.new 1 2 3 = some tinyConfig ∧
    (fastcdcChunk [1#8, 2#8, 3#8, 4#8, 5#8] tinyConfig).length = 2 ∧
      (fastcdcChunk [1#8, 2#8, 3#8, 4#8, 5#8] tinyConfig).flatten = [1#8, 2#8, 3#8, 4#8, 5#8] := by
  have hnew : FastCdcConfig.new 1 2 3 = some tinyConfig := by decide +kernel
  exact ⟨hnew, by decide +kernel, (fastcdcChunk_partition hnew _).2.1⟩

section

variable {config : FastCdcConfig}

def chunkStart (config : FastCdcConfig) (data : Bytes) (k : Nat) : Nat :=
  ((fastcdcChunk data config).take k).flatten.length

theorem chunkStart_succ (hconfig : config.Valid) (hdata : data ≠ []) (k : Nat) :
    chunkStart config data (k + 1) =
      firstCut config data + chunkStart config (data.drop (firstCut config data)) k := by
  have hbounds := firstCut_bounds hconfig hdata
  rw [chunkStart, fastcdcChunk_eq hconfig hdata, take_succ_cons, flatten_cons, length_append,
    length_take, chunkStart]
  omega

theorem fastcdcChunk_append {common : Bytes} (hconfig : config.Valid)
    (hmax : config.maxSize ≤ common.length) (behind : Bytes) :
    fastcdcChunk (common ++ behind) config = common.take (cutPoint config common) ::
      fastcdcChunk (common.drop (cutPoint config common) ++ behind) config := by
  obtain ⟨hpos, hminAvg, havgMax⟩ := hconfig
  have hd : common ++ behind ≠ [] := by
    intro hnil
    have := congrArg length hnil
    rw [length_append, length_nil] at this
    omega
  have hbounds := cutPoint_bounds ⟨hpos, hminAvg, havgMax⟩ common (by omega)
  rw [fastcdcChunk_eq ⟨hpos, hminAvg, havgMax⟩ hd, firstCut_append ⟨hpos, hminAvg, havgMax⟩ hmax,
    take_append_of_le_length (by omega), drop_append_of_le_length (by omega)]

theorem take_of_common_prefix (hconfig : config.Valid) (k : Nat) (common behind behind' : Bytes)
    (hk : chunkStart config (common ++ behind) k + config.maxSize ≤ common.length) :
    (fastcdcChunk (common ++ behind') config).take (k + 1) =
      (fastcdcChunk (common ++ behind) config).take (k + 1) := by
  induction k generalizing common with
  | zero =>
    have hmax : config.maxSize ≤ common.length := by omega
    rw [fastcdcChunk_append hconfig hmax behind', fastcdcChunk_append hconfig hmax behind]
    rfl
  | succ k ih =>
    have hmax : config.maxSize ≤ common.length := by omega
    have hminMax := le_trans hconfig.minAvg hconfig.avgMax
    rw [chunkStart, fastcdcChunk_append hconfig hmax behind, take_succ_cons, flatten_cons, length_append,
      length_take] at hk
    rw [fastcdcChunk_append hconfig hmax behind', fastcdcChunk_append hconfig hmax behind, take_succ_cons,
      take_succ_cons, ih (common.drop (cutPoint config common)) ?_]
    rw [chunkStart, length_drop]
    omega

theorem drop_of_boundary (hconfig : config.Valid) (k : Nat) (front back : Bytes)
    (hk : chunkStart config (front ++ back) k = front.length) :
    (fastcdcChunk (front ++ back) config).drop k = fastcdcChunk back config := by
  induction k generalizing front with
  | zero =>
    cases eq_nil_of_length_eq_zero hk.symm
    rfl
  | succ k ih =>
    by_cases hd : front ++ back = []
    · obtain ⟨rfl, rfl⟩ := append_eq_nil_iff.mp hd
      rfl
    · have hbounds := firstCut_bounds hconfig hd
      rw [chunkStart_succ hconfig hd] at hk
      rw [fastcdcChunk_eq hconfig hd, drop_succ_cons]
      rw [drop_append_of_le_length (by omega)] at hk ⊢
      refine ih _ ?_
      rw [length_drop]
      omega

end

/-- All chunks are the same up to the one from which a longest chunk still fits into a common
prefix; and all chunks behind a boundary are those of what is behind it. -/
theorem edit_locality {config : FastCdcConfig}
    (hnew : FastCdcConfig.new minSize avgSize maxSize = some config) :
    (∀ common behind behind' k, chunkStart config (common ++ behind) k + maxSize ≤ common.length →
      (fastcdcChunk (common ++ behind') config).take (k + 1) =
        (fastcdcChunk (common ++ behind) config).take (k + 1)) ∧
    ∀ front front' back j k, chunkStart config (front ++ back) j = front.length →
      chunkStart config (front' ++ back) k = front'.length →
      (fastcdcChunk (front ++ back) config).drop j = (fastcdcChunk (front' ++ back) config).drop k := by
  obtain ⟨hconfig, rfl, rfl⟩ := valid_of_new hnew
  refine ⟨?_, ?_⟩
  · intro common behind behind' k hk
    exact take_of_common_prefix hconfig k common behind behind' hk
  · intro front front' back j k hj hk
    rw [drop_of_boundary hconfig j front back hj, drop_of_boundary hconfig k front' back hk]

theorem edit_locality_tiny :
    (fastcdcChunk [1#8, 2#8, 3#8, 4#8, 5#8] tinyConfig).drop 1 =
      (fastcdcChunk [1#8, 9#8, 3#8, 4#8, 5#8] tinyConfig).drop 1 := by
  have hnew : FastCdcConfig.new 1 2 3 = some tinyConfig := by decide +kernel
  exact (edit_locality hnew).2 [1#8, 2#8, 3#8] [1#8, 9#8, 3#8] [4#8, 5#8] 1 1 (by decide +kernel)
    (by decide +kernel)

end CipherVault.Snapshot
