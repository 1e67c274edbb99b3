import Mathlib
import PsxRecomp.Library.MachineWord

/-! The coefficient blocks of `decode_rle_block` and their transform: `idct_block_scalar` and
`idct_block_sse2` compute the full double sum. -/
namespace PsxRecomp.Mdec
open MachineWord
set_option autoImplicit false

-- Literals of the index type find this by name, so that a definition holds no proof of its own.
local instance neZero_eight : NeZero 8 := ⟨by decide⟩

/-- `int16_t [64]` -/
abbrev Block := Fin 64 → BitVec 16

/-! ## The set-scale command -/

def transposed (i : Fin 64) : Fin 64 := ⟨i % 8 * 8 + i / 8, by omega⟩

def setScale (input scale : Block) : Block :=
  (List.finRange 64).foldl (fun scale i => Function.update scale (transposed i) ((input i).sshiftRight 3)) scale

theorem transposed_transposed (i : Fin 64) : transposed (transposed i) = i := by
  apply Fin.ext
  simp only [transposed]
  omega

theorem foldl_update_get {ι κ α : Type} [DecidableEq κ] (place : ι → κ) (v : ι → α) (P : α → Prop) (hv : ∀ i, P (v i))
    (l : List ι) (s : κ → α) (k : κ) (hk : (∃ i ∈ l, place i = k) ∨ P (s k)) :
    P (l.foldl (fun s i => Function.update s (place i) (v i)) s k) := by
  induction l generalizing s with
  | nil => simpa using hk
  | cons i l ih =>
    refine ih _ ?_
    dsimp only
    by_cases hik : place i = k
    · right
      rw [hik, Function.update_self]
      exact hv i
    · rcases hk with ⟨j, hj, hjk⟩ | hk
      · rcases List.mem_cons.mp hj with rfl | hj
        · exact absurd hjk hik
        · exact Or.inl ⟨j, hj, hjk⟩
      · right
        rwa [Function.update_of_ne (Ne.symm hik)]

/-- Whatever was there before, a loaded table holds 13-bit values. -/
theorem setScale_bounds (input scale : Block) (i : Fin 64) :
    -4096 ≤ (setScale input scale i).toInt ∧ (setScale input scale i).toInt ≤ 4095 := by
  refine foldl_update_get transposed _ (fun v : BitVec 16 => -4096 ≤ v.toInt ∧ v.toInt ≤ 4095) (fun j => ?_) _ _ _
    (Or.inl ⟨transposed i, List.mem_finRange _, transposed_transposed i⟩)
  have hlo := (input j).le_toInt
  have hhi := (input j).toInt_lt
  rw [BitVec.toInt_sshiftRight, Int.shiftRight_eq_div_pow]
  omega

/-! ## The run-length decoder -/

def zigzagTable : List (Fin 64) :=
  [0x00, 0x08, 0x01, 0x02, 0x09, 0x10, 0x18, 0x11, 0x0a, 0x03, 0x04, 0x0b, 0x12, 0x19, 0x20, 0x28,
   0x21, 0x1a, 0x13, 0x0c, 0x05, 0x06, 0x0d, 0x14, 0x1b, 0x22, 0x29, 0x30, 0x38, 0x31, 0x2a, 0x23,
   0x1c, 0x15, 0x0e, 0x07, 0x0f, 0x16, 0x1d, 0x24, 0x2b, 0x32, 0x39, 0x3a, 0x33, 0x2c, 0x25, 0x1e,
   0x17, 0x1f, 0x26, 0x2d, 0x34, 0x3b, 0x3c, 0x35, 0x2e, 0x27, 0x2f, 0x36, 0x3d, 0x3e, 0x37, 0x3f]

def zigzagToLinear (k : Fin 64) : Fin 64 := zigzagTable.get (k.cast rfl)

def signExtend10 (value : BitVec 16) : ℤ := ((value <<< 6).sshiftRight 6).toInt

def clampInt (value lo hi : ℤ) : ℤ := if value < lo then lo else if hi < value then hi else value

/-- A run of zero coefficients, and the level behind it. -/
def run (word : BitVec 16) : ℕ := ((word >>> 10) &&& 0x3F).toNat
def level (word : BitVec 16) : ℤ := signExtend10 (word &&& 0x03FF)

/-- The first coefficient is scaled by `q` itself, the others by `q / 8`. -/
def dequantise (shift : ℕ) (ci q : ℤ) : BitVec 16 :=
  let bias := if ci = 0 then 0 else if ci < 0 then 8 else -8
  let tmp := if q = 0 then ci * 2 * 16 else (ci * q) >>> shift * 16 + bias
  BitVec.ofInt 16 (clampInt tmp (-0x4000) 0x3FFF)

section
variable (quant : Fin 64 → BitVec 8)

/-- `while (*pos < end && k < 63u)`, on the halfwords from `*pos` to `end`. -/
def decodeAc (qscale : ℕ) : List (BitVec 16) → ℕ → Block → Block × List (BitVec 16)
  | [], _, block => (block, [])
  | word :: rest, k, block =>
    if 63 ≤ k then (block, word :: rest)
    else if word = 0xFE00 then (block, rest)
    else if h : k + run word + 1 < 64 then
      let k' : Fin 64 := ⟨k + run word + 1, h⟩
      let q : ℤ := qscale * (quant k').toNat
      decodeAc qscale rest k' (Function.update block (zigzagToLinear k') (dequantise 3 (level word) q))
    else (block, rest)

/-- `while (word == 0xFE00u && *pos < end)` -/
def skipPadding : BitVec 16 → List (BitVec 16) → BitVec 16 × List (BitVec 16)
  | word, [] => (word, [])
  | word, next :: rest => if word = 0xFE00 then skipPadding next rest else (word, next :: rest)

/-- `decode_rle_block` up to its call of `idct_block`: the block, and the halfwords that are left. -/
def decodeCoefficients : List (BitVec 16) → Option (Block × List (BitVec 16))
  | [] => none
  | first :: words =>
    let (word, words) := skipPadding first words
    let dc := dequantise 0 (level word) (quant 0).toNat
    some (decodeAc quant (run word) words 0 (Function.update 0 0 dc))

def decodeRleBlock (idctBlock : Block → Block) (words : List (BitVec 16)) : Option (Block × List (BitVec 16)) :=
  (decodeCoefficients quant words).map fun decoded => (idctBlock decoded.1, decoded.2)

end

/-! ## The range of a coefficient -/

def CoefficientRange (v : BitVec 16) : Prop := -0x4000 ≤ v.toInt ∧ v.toInt ≤ 0x3FFF

theorem clampInt_range {lo hi : ℤ} (h : lo ≤ hi) (value : ℤ) : lo ≤ clampInt value lo hi ∧ clampInt value lo hi ≤ hi := by
  unfold clampInt
  split
  · omega
  · split <;> omega

theorem dequantise_range (shift : ℕ) (ci q : ℤ) : CoefficientRange (dequantise shift ci q) := by
  simp only [dequantise, CoefficientRange]
  generalize (if q = 0 then ci * 2 * 16 else _) = tmp
  have hclamp : -0x4000 ≤ clampInt tmp (-0x4000) 0x3FFF ∧ clampInt tmp (-0x4000) 0x3FFF ≤ 0x3FFF :=
    clampInt_range (by decide) tmp
  rw [BitVec.toInt_ofInt_eq_self (by decide) (by omega) (by omega)]
  exact hclamp

theorem update_range {block : Block} (h : ∀ i, CoefficientRange (block i)) (k : Fin 64) {v : BitVec 16}
    (hv : CoefficientRange v) (i : Fin 64) : CoefficientRange (Function.update block k v i) := by
  by_cases hi : i = k
  · rw [hi, Function.update_self]
    exact hv
  · rw [Function.update_of_ne hi]
    exact h i

theorem decodeAc_range (quant : Fin 64 → BitVec 8) (qscale : ℕ) (words : List (BitVec 16)) (k : ℕ) (block : Block)
    (h : ∀ i, CoefficientRange (block i)) (i : Fin 64) :
    CoefficientRange ((decodeAc quant qscale words k block).1 i) := by
  induction words generalizing k block with
  | nil => exact h i
  | cons word rest ih =>
    unfold decodeAc
    split_ifs
    · exact h i
    · exact h i
    · exact ih _ _ (update_range h _ (dequantise_range 3 _ _))
    · exact h i

theorem decodeCoefficients_range {quant : Fin 64 → BitVec 8} {words rest : List (BitVec 16)} {block : Block}
    (h : decodeCoefficients quant words = some (block, rest)) (i : Fin 64) : CoefficientRange (block i) := by
  cases words with
  | nil => exact absurd h (by simp [decodeCoefficients])
  | cons first words =>
    simp only [decodeCoefficients, Option.some.injEq] at h
    have hblock : block = _ := (congrArg Prod.fst h).symm
    rw [hblock]
    refine decodeAc_range quant _ _ _ _ (update_range (fun j => ?_) 0 (dequantise_range 0 _ _)) i
    have hzero : CoefficientRange 0 := ⟨by decide, by decide⟩
    exact hzero

/-! ## The two dot products

Both add eight products; they are written over any addition, so that the integers can be compared with
the 32-bit lanes. -/

section Dot
variable {α : Type} [Add α]

/-- The values `sum` takes in the scalar loop. -/
def scalarSums [Zero α] (p : Fin 8 → α) : List α := (List.ofFn p).scanl (· + ·) 0

def scalarDot8 [Zero α] (p : Fin 8 → α) : α := (List.ofFn p).foldl (· + ·) 0

/-- `_mm_madd_epi16` -/
def madd (p : Fin 8 → α) (lane : Fin 4) : α := p ⟨2 * lane, by omega⟩ + p ⟨2 * lane + 1, by omega⟩

/-- `_MM_SHUFFLE(0, 1, 2, 3)` and `_MM_SHUFFLE(0, 0, 0, 1)` -/
def reversedLane (lane : Fin 4) : Fin 4 := lane.rev
def firstLanes : Fin 4 → Fin 4
  | 0 => 1
  | _ => 0

def addShuffled (shuffle : Fin 4 → Fin 4) (sum : Fin 4 → α) (lane : Fin 4) : α := sum lane + sum (shuffle lane)

/-- Every lane of every step of `idct_sse2_dot8`. -/
def sse2Sums (p : Fin 8 → α) : List α :=
  List.ofFn (madd p) ++ List.ofFn (addShuffled reversedLane (madd p)) ++
    List.ofFn (addShuffled firstLanes (addShuffled reversedLane (madd p)))

def sse2Dot8 (p : Fin 8 → α) : α := addShuffled firstLanes (addShuffled reversedLane (madd p)) 0

end Dot

/-! ## The transform -/

def cell (row col : Fin 8) : Fin 64 := ⟨row * 8 + col, by omega⟩
def rowOf (i : Fin 64) : Fin 8 := ⟨i / 8, by omega⟩
def colOf (i : Fin 64) : Fin 8 := ⟨i % 8, by omega⟩

def signXToS32 (bits : ℕ) (v : BitVec 32) : BitVec 32 := (v <<< (32 - bits)).sshiftRight (32 - bits)

def mask9ClampS8 (v : BitVec 32) : BitVec 32 :=
  let v := signXToS32 9 v
  let v := if v.toInt < -128 then BitVec.ofInt 32 (-128) else v
  if 127 < v.toInt then 127 else v

/-- `(sum + 0x4000) >> 15` -/
def rounded (sum : BitVec 32) : BitVec 32 := (sum + 0x4000).sshiftRight 15

/-- The bitwise or of samples, as an `int`. -/
def orAll (l : List (BitVec 16)) : BitVec 32 := l.foldl (fun ac v => ac ||| v.signExtend 32) 0

section
variable (scale : Block)

/-- `(int)src[u] * (int)sc[u]` -/
def product (src sc : BitVec 16) : BitVec 32 := src.signExtend 32 * sc.signExtend 32

def idctBlockDcOnly (block : Block) : Block :=
  let tmp0 (x : Fin 8) : BitVec 16 := (rounded (product (block 0) (scale (cell x 0)))).setWidth 16
  fun i => (mask9ClampS8 (rounded (product (tmp0 (rowOf i)) (scale (cell (colOf i) 0))))).setWidth 16

variable (dot8 : (Fin 8 → BitVec 32) → BitVec 32)

/-- One row of samples against row `x` of the table. -/
def dotRow (src : Block) (row x : Fin 8) : BitVec 32 := dot8 fun u => product (src (cell row u)) (scale (cell x u))

def colOr (src : Block) (row : Fin 8) : BitVec 32 := orAll (List.ofFn fun u => src (cell row u))

/-- `tmp[x * 8 + col]` -/
def firstPass (block : Block) : Block := fun i =>
  if colOr block (colOf i) = 0 then 0 else (rounded (dotRow scale dot8 block (colOf i) (rowOf i))).setWidth 16

/-- `block[col * 8 + x]` -/
def secondPass (tmp : Block) : Block := fun i =>
  if colOr tmp (rowOf i) = 0 then 0
  else (mask9ClampS8 (rounded (dotRow scale dot8 tmp (rowOf i) (colOf i)))).setWidth 16

def idctBlockWith (block : Block) : Block :=
  if orAll (List.ofFn block).tail = 0 then idctBlockDcOnly scale block
  else secondPass scale dot8 (firstPass scale dot8 block)

def idctBlockScalar (block : Block) : Block := idctBlockWith scale scalarDot8 block

def idctBlockSse2 (block : Block) : Block := idctBlockWith scale sse2Dot8 block

/-! ## The double sum over the integers -/

def roundInt (v : ℤ) : ℤ := (v + 0x4000) >>> (15 : ℕ)

def m9 (v : ℤ) : ℤ := clampInt (v.bmod 512) (-128) 127

/-- The products of a row of integers with row `x` of the table. -/
def terms (row : Fin 8 → ℤ) (x u : Fin 8) : ℤ := row u * (scale (cell x u)).toInt

def blockRow (block : Block) (col u : Fin 8) : ℤ := (block (cell col u)).toInt

/-- Row `col` of the samples between the passes. -/
def tmpRow (block : Block) (col u : Fin 8) : ℤ := roundInt (∑ v, terms scale (blockRow block u) col v)

def fullSum (block : Block) (col x : Fin 8) : ℤ := m9 (roundInt (∑ u, terms scale (tmpRow scale block col) x u))

def Int32 (v : ℤ) : Prop := -2 ^ 31 ≤ v ∧ v < 2 ^ 31

/-- Nothing the source computes from these eight products leaves 32 bits. -/
def SumsFit (p : Fin 8 → ℤ) : Prop :=
  ∀ v ∈ List.ofFn p ++ scalarSums p ++ sse2Sums p ++ [p 0 + 0x4000, (∑ u, p u) + 0x4000], Int32 v

structure IdctExact (block : Block) : Prop where
  scalar : ∀ col x, (idctBlockScalar scale block (cell col x)).toInt = fullSum scale block col x
  sse2 : ∀ col x, (idctBlockSse2 scale block (cell col x)).toInt = fullSum scale block col x
  first_fits : ∀ col x, SumsFit (terms scale (blockRow block col) x)
  second_fits : ∀ col x, SumsFit (terms scale (tmpRow scale block col) x)
  stored : ∀ col u, -2 ^ 15 ≤ tmpRow scale block col u ∧ tmpRow scale block col u < 2 ^ 15

end

/-! ## The dot products are sums -/

theorem scalarDot8_eq (p : Fin 8 → ℤ) : scalarDot8 p = ∑ u, p u := by
  simp [scalarDot8, List.ofFn_succ, Fin.sum_univ_succ]
  ring

theorem sse2Dot8_eq (p : Fin 8 → ℤ) : sse2Dot8 p = ∑ u, p u := by
  simp [sse2Dot8, addShuffled, firstLanes, reversedLane, madd, Fin.sum_univ_succ]
  ring

theorem scalarDot8_ofInt (p : Fin 8 → ℤ) : scalarDot8 (fun u => BitVec.ofInt 32 (p u)) = BitVec.ofInt 32 (scalarDot8 p) := by
  simp [scalarDot8, List.ofFn_succ, BitVec.ofInt_add]

theorem sse2Dot8_ofInt (p : Fin 8 → ℤ) : sse2Dot8 (fun u => BitVec.ofInt 32 (p u)) = BitVec.ofInt 32 (sse2Dot8 p) := by
  simp only [sse2Dot8, addShuffled, madd, BitVec.ofInt_add]

/-- What both dot products are: the sum, within 32 bits. -/
def Sums (dot8 : (Fin 8 → BitVec 32) → BitVec 32) : Prop :=
  ∀ p : Fin 8 → ℤ, dot8 (fun u => BitVec.ofInt 32 (p u)) = BitVec.ofInt 32 (∑ u, p u)

theorem scalar_sums : Sums scalarDot8 := fun p => by rw [scalarDot8_ofInt, scalarDot8_eq]

theorem sse2_sums : Sums sse2Dot8 := fun p => by rw [sse2Dot8_ofInt, sse2Dot8_eq]

/-! ## Rounding and clamping -/

theorem roundInt_zero : roundInt 0 = 0 := by decide

theorem m9_zero : m9 0 = 0 := by decide

theorem rounded_ofInt {s : ℤ} (hs : Int32 (s + 0x4000)) : rounded (BitVec.ofInt 32 s) = BitVec.ofInt 32 (roundInt s) := by
  have hsum : BitVec.ofInt 32 s + 0x4000 = BitVec.ofInt 32 (s + 0x4000) := by
    rw [BitVec.ofInt_add]
    rfl
  apply BitVec.eq_of_toInt_eq
  obtain ⟨hlo, hhi⟩ := hs
  rw [rounded, hsum, BitVec.toInt_sshiftRight, BitVec.toInt_ofInt_eq_self (by decide) (by omega) (by omega), roundInt,
    Int.shiftRight_eq_div_pow, BitVec.toInt_ofInt_eq_self (by decide) (by omega) (by omega)]

theorem signXToS32_nine (v : ℤ) : (signXToS32 9 (BitVec.ofInt 32 v)).toInt = v.bmod 512 := by
  have hshift : BitVec.ofInt 32 v <<< 23 = BitVec.ofInt 32 (v * 2 ^ 23) := by
    rw [BitVec.shiftLeft_eq_mul_twoPow, BitVec.ofInt_mul]
    rfl
  have hbmod : (v * 2 ^ 23).bmod (2 ^ 32) = v.bmod 512 * 2 ^ 23 := by
    simp only [Int.bmod_def]
    split_ifs <;> omega
  rw [signXToS32, hshift, BitVec.toInt_sshiftRight, BitVec.toInt_ofInt, hbmod, Int.shiftRight_eq_div_pow]
  omega

theorem m9_bounds (v : ℤ) : -128 ≤ m9 v ∧ m9 v ≤ 127 := clampInt_range (by decide) _

theorem mask9ClampS8_ofInt (v : ℤ) : (mask9ClampS8 (BitVec.ofInt 32 v)).toInt = m9 v := by
  have h := signXToS32_nine v
  simp only [mask9ClampS8, m9, clampInt]
  generalize signXToS32 9 (BitVec.ofInt 32 v) = x at h ⊢
  rw [← h]
  by_cases hlo : x.toInt < -128
  · rw [if_pos hlo, if_pos hlo]
    rfl
  · rw [if_neg hlo, if_neg hlo]
    split
    · rfl
    · rfl

theorem toInt_setWidth_16 {x : BitVec 32} (h : -2 ^ 15 ≤ x.toInt ∧ x.toInt < 2 ^ 15) : (x.setWidth 16).toInt = x.toInt := by
  have hx : x.setWidth 16 = BitVec.ofInt 16 x.toInt := by
    rw [← setWidth_ofInt (by decide : 16 ≤ 32), BitVec.ofInt_toInt]
  rw [hx, BitVec.toInt_ofInt_eq_self (by decide) (by omega) (by omega)]

/-! ## Zero rows -/

theorem orAll_eq_zero_iff (l : List (BitVec 16)) : orAll l = 0 ↔ ∀ v ∈ l, v = 0 := by
  have hsign (v : BitVec 16) : v.signExtend 32 = 0 ↔ v = 0 := by
    constructor
    · intro h
      have hint := congrArg BitVec.toInt h
      rw [BitVec.toInt_signExtend_of_le (by decide)] at hint
      exact BitVec.eq_of_toInt_eq hint
    · rintro rfl
      rfl
  have hfold (ac : BitVec 32) : l.foldl (fun ac v => ac ||| v.signExtend 32) ac = 0 ↔ ac = 0 ∧ ∀ v ∈ l, v = 0 := by
    induction l generalizing ac with
    | nil => simp
    | cons v l ih =>
      have hor : ac ||| v.signExtend 32 = 0 ↔ ac = 0 ∧ v.signExtend 32 = 0 := BitVec.or_eq_zero_iff
      rw [List.foldl_cons, ih, hor, hsign, List.forall_mem_cons, and_assoc]
  rw [orAll, hfold]
  simp

theorem colOr_eq_zero_iff (src : Block) (row : Fin 8) : colOr src row = 0 ↔ ∀ u, src (cell row u) = 0 := by
  rw [colOr, orAll_eq_zero_iff, List.forall_mem_ofFn_iff]

theorem cell_surjective (i : Fin 64) : cell (rowOf i) (colOf i) = i := by
  apply Fin.ext
  simp only [cell, rowOf, colOf]
  omega

@[simp] theorem rowOf_cell (row col : Fin 8) : rowOf (cell row col) = row := by
  apply Fin.ext
  simp only [cell, rowOf]
  omega

@[simp] theorem colOf_cell (row col : Fin 8) : colOf (cell row col) = col := by
  apply Fin.ext
  simp only [cell, colOf]
  omega

theorem acZero_iff (block : Block) : orAll (List.ofFn block).tail = 0 ↔ ∀ i, i ≠ 0 → block i = 0 := by
  rw [orAll_eq_zero_iff, List.ofFn_succ, List.tail_cons, List.forall_mem_ofFn_iff]
  constructor
  · intro h i hi
    obtain ⟨j, rfl⟩ := Fin.exists_succ_eq.mpr hi
    exact h j
  · intro h j
    exact h j.succ (Fin.succ_ne_zero j)

/-! ## Ranges -/

section Ranges
variable {scale : Block} (hscale : ∀ i, -4096 ≤ (scale i).toInt ∧ (scale i).toInt ≤ 4095)
include hscale

theorem term_bound {row : Fin 8 → ℤ} (hrow : ∀ u, |row u| ≤ 2 ^ 14) (x u : Fin 8) : |terms scale row x u| ≤ 2 ^ 26 := by
  have hentry : |(scale (cell x u)).toInt| ≤ 2 ^ 12 := by
    have h := hscale (cell x u)
    rw [abs_le]
    omega
  calc |terms scale row x u| = |row u| * |(scale (cell x u)).toInt| := abs_mul _ _
    _ ≤ 2 ^ 14 * 2 ^ 12 := mul_le_mul (hrow u) hentry (abs_nonneg _) (by decide)
    _ = 2 ^ 26 := by norm_num

end Ranges

theorem sum_bound {p : Fin 8 → ℤ} (hp : ∀ u, |p u| ≤ 2 ^ 26) : |∑ u, p u| ≤ 2 ^ 29 :=
  calc |∑ u, p u| ≤ ∑ u, |p u| := Finset.abs_sum_le_sum_abs _ _
    _ ≤ ∑ _u : Fin 8, 2 ^ 26 := Finset.sum_le_sum fun u _ => hp u
    _ = 2 ^ 29 := by simp

theorem sums_fit {p : Fin 8 → ℤ} (hp : ∀ u, |p u| ≤ 2 ^ 26) : SumsFit p := by
  have hsum := abs_le.mp (sum_bound hp)
  simp only [abs_le] at hp
  have h0 := hp 0
  have h1 := hp 1
  have h2 := hp 2
  have h3 := hp 3
  have h4 := hp 4
  have h5 := hp 5
  have h6 := hp 6
  have h7 := hp 7
  intro v hv
  simp only [List.mem_append] at hv
  rcases hv with ((hv | hv) | hv) | hv
  · obtain ⟨u, rfl⟩ := (List.mem_ofFn' _ _).mp hv
    have hu := hp u
    unfold Int32
    omega
  · simp [scalarSums, List.ofFn_succ] at hv
    unfold Int32
    omega
  · simp [sse2Sums, madd, addShuffled, reversedLane, firstLanes, List.ofFn_succ] at hv
    unfold Int32
    omega
  · simp at hv
    unfold Int32
    omega

theorem roundInt_bound {s : ℤ} (hs : |s| ≤ 2 ^ 29) : |roundInt s| ≤ 2 ^ 14 := by
  rw [abs_le] at hs ⊢
  rw [roundInt, Int.shiftRight_eq_div_pow]
  omega

/-! ## The passes -/

theorem product_eq (a b : BitVec 16) : product a b = BitVec.ofInt 32 (a.toInt * b.toInt) := by
  rw [BitVec.ofInt_mul]
  rfl

/-- A block, or the samples between the passes. -/
def Samples (src : Block) : Prop := ∀ i, |(src i).toInt| ≤ 2 ^ 14

section Passes
variable {scale : Block} (hscale : ∀ i, -4096 ≤ (scale i).toInt ∧ (scale i).toInt ≤ 4095)
variable {dot8 : (Fin 8 → BitVec 32) → BitVec 32} (hdot : Sums dot8) {src : Block} (hsrc : Samples src)
include hscale hsrc

theorem pass_fits (row x : Fin 8) : SumsFit (terms scale (blockRow src row) x) :=
  sums_fit fun u => term_bound hscale (fun v => hsrc (cell row v)) x u

theorem second_pass_fits (col x : Fin 8) : SumsFit (terms scale (tmpRow scale src col) x) := by
  refine sums_fit fun u => term_bound hscale (fun v => ?_) x u
  exact roundInt_bound (sum_bound fun w => term_bound hscale (fun c => hsrc (cell v c)) col w)

theorem pass_bound (row x : Fin 8) : |roundInt (∑ u, terms scale (blockRow src row) x u)| ≤ 2 ^ 14 :=
  roundInt_bound (sum_bound fun u => term_bound hscale (fun v => hsrc (cell row v)) x u)

include hdot

theorem rounded_dotRow (row x : Fin 8) : rounded (dotRow scale dot8 src row x) =
    BitVec.ofInt 32 (roundInt (∑ u, terms scale (blockRow src row) x u)) := by
  have hrow : dotRow scale dot8 src row x = BitVec.ofInt 32 (∑ u, terms scale (blockRow src row) x u) := by
    rw [dotRow, ← hdot]
    simp only [product_eq, terms, blockRow]
  rw [hrow]
  exact rounded_ofInt (pass_fits hscale hsrc row x _ (by simp))

omit hscale hdot hsrc in
theorem zero_row {row : Fin 8} (h : colOr src row = 0) (x : Fin 8) : ∑ u, terms scale (blockRow src row) x u = 0 := by
  have hzero := (colOr_eq_zero_iff src row).mp h
  refine Finset.sum_eq_zero fun u _ => ?_
  rw [terms, blockRow, hzero u]
  exact zero_mul _

theorem firstPass_toInt (x col : Fin 8) : (firstPass scale dot8 src (cell x col)).toInt =
    roundInt (∑ u, terms scale (blockRow src col) x u) := by
  rw [firstPass, colOf_cell, rowOf_cell]
  split
  · rename_i hzero
    rw [zero_row hzero x, roundInt_zero]
    rfl
  · have hbound := abs_le.mp (pass_bound hscale hsrc col x)
    have hint : (BitVec.ofInt 32 (roundInt (∑ u, terms scale (blockRow src col) x u))).toInt = _ :=
      BitVec.toInt_ofInt_eq_self (by decide) (by omega) (by omega)
    rw [rounded_dotRow hscale hdot hsrc, toInt_setWidth_16 (by omega), hint]

theorem secondPass_toInt (col x : Fin 8) : (secondPass scale dot8 src (cell col x)).toInt =
    m9 (roundInt (∑ u, terms scale (blockRow src col) x u)) := by
  rw [secondPass, colOf_cell, rowOf_cell]
  split
  · rename_i hzero
    rw [zero_row hzero x, roundInt_zero, m9_zero]
    rfl
  · have hm9 := m9_bounds (roundInt (∑ u, terms scale (blockRow src col) x u))
    have hmask := mask9ClampS8_ofInt (roundInt (∑ u, terms scale (blockRow src col) x u))
    rw [rounded_dotRow hscale hdot hsrc, toInt_setWidth_16 (by omega), hmask]

theorem firstPass_row (col : Fin 8) : blockRow (firstPass scale dot8 src) col = tmpRow scale src col :=
  funext fun u => firstPass_toInt hscale hdot hsrc col u

theorem firstPass_samples : Samples (firstPass scale dot8 src) := by
  intro i
  rw [← cell_surjective i, firstPass_toInt hscale hdot hsrc]
  exact pass_bound hscale hsrc _ _

theorem passes_exact (col x : Fin 8) :
    (secondPass scale dot8 (firstPass scale dot8 src) (cell col x)).toInt = fullSum scale src col x := by
  have htmp := firstPass_samples hscale hdot hsrc
  rw [secondPass_toInt hscale hdot htmp, firstPass_row hscale hdot hsrc, fullSum]

omit hscale hdot hsrc in
/-- With no coefficient but the first, each pass is one product. -/
theorem dc_row (hac : ∀ i, i ≠ 0 → src i = 0) (col x : Fin 8) :
    ∑ u, terms scale (blockRow src col) x u = if col = 0 then terms scale (blockRow src 0) x 0 else 0 := by
  have hzero {c u : Fin 8} (h : ¬(c = 0 ∧ u = 0)) : blockRow src c u = 0 := by
    have hcell : cell c u ≠ 0 := by
      intro hcu
      have hval := congrArg Fin.val hcu
      simp only [cell, Fin.val_zero] at hval
      exact h ⟨Fin.ext (by omega), Fin.ext (by omega)⟩
    rw [blockRow, hac _ hcell]
    rfl
  split
  · rename_i hcol
    rw [hcol]
    refine Finset.sum_eq_single 0 (fun u _ hu => ?_) (by simp)
    rw [terms, hzero (by tauto), zero_mul]
  · refine Finset.sum_eq_zero fun u _ => ?_
    rw [terms, hzero (by tauto), zero_mul]

omit hscale hdot hsrc in
theorem dc_tmpRow (hac : ∀ i, i ≠ 0 → src i = 0) (col x : Fin 8) :
    ∑ u, terms scale (tmpRow scale src col) x u = terms scale (tmpRow scale src col) x 0 := by
  refine Finset.sum_eq_single 0 (fun u _ hu => ?_) (by simp)
  rw [terms, tmpRow, dc_row hac, if_neg hu, roundInt_zero, zero_mul]

omit hdot in
theorem dcOnly_exact (hac : ∀ i, i ≠ 0 → src i = 0) (col x : Fin 8) :
    (idctBlockDcOnly scale src (cell col x)).toInt = fullSum scale src col x := by
  have hfirst : tmpRow scale src col 0 = roundInt (terms scale (blockRow src 0) col 0) := by
    rw [tmpRow, dc_row hac, if_pos rfl]
  have hbound := abs_le.mp (pass_bound hscale hsrc 0 col)
  have htmp : ((rounded (product (src 0) (scale (cell col 0)))).setWidth 16).toInt = tmpRow scale src col 0 := by
    have hfits : Int32 (terms scale (blockRow src 0) col 0 + 0x4000) := pass_fits hscale hsrc 0 col _ (by simp)
    have hint : (BitVec.ofInt 32 (tmpRow scale src col 0)).toInt = tmpRow scale src col 0 :=
      BitVec.toInt_ofInt_eq_self (by decide) (by rw [tmpRow]; omega) (by rw [tmpRow]; omega)
    have hround : rounded (product (src 0) (scale (cell col 0))) = BitVec.ofInt 32 (tmpRow scale src col 0) := by
      rw [product_eq, hfirst]
      exact rounded_ofInt hfits
    rw [hround, toInt_setWidth_16 (by rw [hint, tmpRow]; omega), hint]
  have hfits : Int32 (terms scale (tmpRow scale src col) x 0 + 0x4000) :=
    second_pass_fits hscale hsrc col x _ (by simp)
  have hround : rounded (product ((rounded (product (src 0) (scale (cell col 0)))).setWidth 16) (scale (cell x 0))) =
      BitVec.ofInt 32 (roundInt (terms scale (tmpRow scale src col) x 0)) := by
    rw [product_eq, htmp]
    exact rounded_ofInt hfits
  have hmask := mask9ClampS8_ofInt (roundInt (terms scale (tmpRow scale src col) x 0))
  have hm9 := m9_bounds (roundInt (terms scale (tmpRow scale src col) x 0))
  simp only [idctBlockDcOnly, rowOf_cell, colOf_cell]
  rw [hround, toInt_setWidth_16 (by omega), hmask, fullSum, dc_tmpRow hac]

theorem idctBlockWith_exact (col x : Fin 8) :
    (idctBlockWith scale dot8 src (cell col x)).toInt = fullSum scale src col x := by
  unfold idctBlockWith
  split
  · rename_i hac
    exact dcOnly_exact hscale hsrc ((acZero_iff src).mp hac) col x
  · exact passes_exact hscale hdot hsrc col x

end Passes

theorem idct_exact {scale : Block} (hscale : ∀ i, -4096 ≤ (scale i).toInt ∧ (scale i).toInt ≤ 4095) {block : Block}
    (hblock : Samples block) : IdctExact scale block where
  scalar := idctBlockWith_exact hscale scalar_sums hblock
  sse2 := idctBlockWith_exact hscale sse2_sums hblock
  first_fits := pass_fits hscale hblock
  second_fits := second_pass_fits hscale hblock
  stored col u := by
    have hbound := abs_le.mp (pass_bound hscale hblock u col)
    simp only [tmpRow]
    omega

theorem decoded_samples {quant : Fin 64 → BitVec 8} {words rest : List (BitVec 16)} {block : Block}
    (h : decodeCoefficients quant words = some (block, rest)) : Samples block := by
  intro i
  have hrange := decodeCoefficients_range h i
  unfold CoefficientRange at hrange
  rw [abs_le]
  omega

theorem decoded_idct_exact {quant : Fin 64 → BitVec 8} {words rest : List (BitVec 16)} {block : Block}
    (h : decodeCoefficients quant words = some (block, rest)) (input scale : Block) :
    IdctExact (setScale input scale) block :=
  idct_exact (setScale_bounds input scale) (decoded_samples h)

theorem decoded_idct_exact_two : ∃ block rest, decodeCoefficients (fun _ => 1) [0x0001, 0x0403] = some (block, rest) ∧
    IdctExact (setScale (fun _ => 0x5A82) 0) block := by
  have hdecode : decodeCoefficients (fun _ => 1) [0x0001, 0x0403] = some (_, _) := rfl
  exact ⟨_, _, hdecode, decoded_idct_exact hdecode _ _⟩

end PsxRecomp.Mdec
