import CipherVault.Crypto.Basic

/-!
# Snapshot.FastCdc

Content-defined chunking, `crates/snapshot/src/fastcdc.rs`. The loops over `data[cursor + i]` run
over the remaining bytes.
-/

namespace CipherVault.Snapshot

open Crypto Nat List

def gearState : Nat → BitVec 64
  | 0 => 0x853c49e6748fea9b#64
  | i + 1 => gearState i + 0x9e3779b97f4a7c15#64

def splitMix (state : BitVec 64) : BitVec 64 :=
  let z := (state ^^^ (state >>> 30)) * 0xbf58476d1ce4e5b9#64
  let z := (z ^^^ (z >>> 27)) * 0x94d049bb133111eb#64
  z ^^^ (z >>> 31)

def gearMatrix (byte : Byte) : BitVec 64 := splitMix (gearState (byte.toNat + 1))

structure FastCdcConfig where
  (minSize avgSize maxSize : Nat)
  (maskS maskL : BitVec 64)
deriving DecidableEq

def nextPowerOfTwoBits (n : Nat) : Nat := if n ≤ 1 then 0 else (n - 1).log2 + 1

def saturatingPred (x : BitVec 64) : BitVec 64 := if x = 0#64 then 0#64 else x - 1#64

def FastCdcConfig.new (minSize avgSize maxSize : Nat) : Option FastCdcConfig :=
  if 0 < minSize ∧ minSize ≤ avgSize ∧ avgSize ≤ maxSize then
    some
      { minSize := minSize
        avgSize := avgSize
        maxSize := maxSize
        maskS := saturatingPred (1#64 <<< (nextPowerOfTwoBits avgSize + 1))
        maskL := saturatingPred (1#64 <<< (nextPowerOfTwoBits avgSize - 1)) }
  else none

def isWhiteSpace (c : Char) : Bool :=
  (9 ≤ c.toNat && c.toNat ≤ 13) || c.toNat == 32 || c.toNat == 0x85 || c.toNat == 0xA0 ||
    c.toNat == 0x1680 || (0x2000 ≤ c.toNat && c.toNat ≤ 0x200A) || c.toNat == 0x2028 ||
    c.toNat == 0x2029 || c.toNat == 0x202F || c.toNat == 0x205F || c.toNat == 0x3000

def normalizeProfile (profile : Text) : Text :=
  (((profile.dropWhile isWhiteSpace).reverse.dropWhile isWhiteSpace).reverse).map Char.toLower

def smallConfig : FastCdcConfig := ⟨2048, 8192, 32768, 0x3FFF#64, 0xFFF#64⟩

def defaultConfig : FastCdcConfig := ⟨4096, 16384, 65536, 0x7FFF#64, 0x1FFF#64⟩

def largeConfig : FastCdcConfig := ⟨16384, 65536, 262144, 0x1FFFF#64, 0x7FFF#64⟩

def configFromProfile (profile : Text) : FastCdcConfig :=
  if normalizeProfile profile = ['s', 'm', 'a', 'l', 'l'] then smallConfig
  else if normalizeProfile profile = ['l', 'a', 'r', 'g', 'e'] then largeConfig
  else defaultConfig

def configFromEnv : Option Text → FastCdcConfig
  | none => defaultConfig
  | some profile => configFromProfile profile

/-- How a scanning loop ends: with a cut point, or at its limit with the hash and the bytes left. -/
inductive Scan where
  | cut (point : Nat)
  | stop (hash : BitVec 64) (rest : Bytes)

def scan (mask : BitVec 64) : Nat → Nat → BitVec 64 → Bytes → Scan
  | 0, _, hash, rest => .stop hash rest
  | _ + 1, _, hash, [] => .stop hash []
  | turns + 1, i, hash, byte :: rest =>
    let hash := (hash <<< 1) + gearMatrix byte
    if hash &&& mask = 0#64 then .cut (i + 1) else scan mask turns (i + 1) hash rest

/-- The first boundary after the minimum, with the stricter mask up to the average size. -/
def cutPoint (config : FastCdcConfig) (rest : Bytes) : Nat :=
  let maxChunk := min rest.length config.maxSize
  let normalSplit := min rest.length config.avgSize
  match scan config.maskS (normalSplit - config.minSize) config.minSize 0#64 (rest.drop config.minSize) with
  | .cut point => point
  | .stop hash rest' =>
    if normalSplit < maxChunk then
      match scan config.maskL (maxChunk - normalSplit) normalSplit hash rest' with
      | .cut point => point
      | .stop _ _ => maxChunk
    else maxChunk

/-- Cuts until nothing is left; `turns` bounds the cuts. -/
def chunkLoop (config : FastCdcConfig) : Nat → Bytes → List Bytes
  | 0, _ => []
  | _ + 1, [] => []
  | turns + 1, byte :: rest =>
    if (byte :: rest).length ≤ config.minSize then [byte :: rest]
    else (byte :: rest).take (cutPoint config (byte :: rest)) ::
      chunkLoop config turns ((byte :: rest).drop (cutPoint config (byte :: rest)))

def fastcdcChunk (data : Bytes) (config : FastCdcConfig) : List Bytes := chunkLoop config data.length data

theorem length_chunkLoop_le (config : FastCdcConfig) (turns : Nat) :
    ∀ data, (chunkLoop config turns data).length ≤ turns := by
  induction turns with
  | zero => intro data; rw [chunkLoop]; exact le_refl 0
  | succ turns ih =>
    intro data
    cases data with
    | nil => rw [chunkLoop]; exact zero_le _
    | cons byte rest =>
      rw [chunkLoop]
      split
      · simp
      · exact succ_le_succ (ih _)

theorem length_fastcdcChunk_le (data : Bytes) (config : FastCdcConfig) :
    (fastcdcChunk data config).length ≤ data.length := length_chunkLoop_le config data.length data

/-! ## The chunks of a file are the file -/

variable {rest : Bytes} {config : FastCdcConfig}

theorem lt_of_scan_cut {mask : BitVec 64} {turns i point : Nat} {hash : BitVec 64}
    (h : scan mask turns i hash rest = .cut point) : i < point := by
  induction turns generalizing i hash rest with
  | zero => cases h
  | succ turns ih =>
    cases rest with
    | nil => cases h
    | cons byte rest =>
      rw [scan] at h
      split at h
      · cases h
        exact lt_succ_self i
      · exact lt_of_succ_lt (ih h)

theorem cutPoint_pos (hmax : 0 < config.maxSize) (hrest : rest ≠ []) : 0 < cutPoint config rest := by
  have hlen : 0 < min rest.length config.maxSize := by
    have := length_pos_iff.mpr hrest
    omega
  rw [cutPoint]
  split
  · rename_i point hcut
    exact zero_lt_of_lt (lt_of_scan_cut hcut)
  · split
    · split
      · rename_i point hcut
        exact zero_lt_of_lt (lt_of_scan_cut hcut)
      · exact hlen
    · exact hlen

theorem flatten_chunkLoop (hmax : 0 < config.maxSize) (turns : Nat) :
    ∀ data : Bytes, data.length ≤ turns → (chunkLoop config turns data).flatten = data := by
  induction turns with
  | zero =>
    intro data h
    rw [List.eq_nil_of_length_eq_zero (le_zero.mp h)]
    rfl
  | succ turns ih =>
    intro data h
    cases data with
    | nil => rfl
    | cons byte rest =>
      rw [chunkLoop]
      split
      · simp
      · have hpos := cutPoint_pos hmax (cons_ne_nil byte rest)
        rw [flatten_cons, ih, take_append_drop]
        rw [length_drop]
        omega

theorem flatten_fastcdcChunk (hmax : 0 < config.maxSize) (data : Bytes) :
    (fastcdcChunk data config).flatten = data := flatten_chunkLoop hmax data.length data (le_refl _)

theorem configFromEnv_maxSize_pos (profile : Option Text) : 0 < (configFromEnv profile).maxSize := by
  cases profile with
  | none => decide
  | some profile =>
    rw [configFromEnv, configFromProfile]
    split
    · decide
    · split
      · decide
      · decide

end CipherVault.Snapshot
