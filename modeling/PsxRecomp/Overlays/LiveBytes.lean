import Mathlib

/-! Code ranges and the RAM bytes behind them: the fold of an address into live RAM, the hash of a list of
ranges, and the delay slots that a hash must cover. -/
namespace PsxRecomp.Overlays
set_option autoImplicit false

abbrev Byte := BitVec 8
abbrev Word := BitVec 32

/-! ## Geometry -/

/-- `g_psx_ram_size` -/
inductive Geometry where
  | retail
  | expanded
  deriving DecidableEq, Inhabited

def Geometry.size : Geometry → Word
  | .retail => 0x00200000
  | .expanded => 0x00800000

def Geometry.mask (g : Geometry) : Word := g.size - 1

/-- `PSX_MAIN_RAM_WINDOW_BYTES` -/
def ramWindow : Word := 0x00800000

/-- `psx_ram_resolve` -/
def psxRamResolve (g : Geometry) (address width : Word) : Option Word :=
  let phys := address &&& 0x1FFFFFFF
  if phys ≥ ramWindow ∨ width = 0 then none
  else
    let off := phys &&& g.mask
    if width > g.size - off then none else some off

/-- By offset. -/
abbrev Ram := Word → Byte

structure CodeRange where
  lo : Word
  len : Word
  deriving DecidableEq, Inhabited

def bytesAt (ram : Ram) (off len : Word) : List Byte :=
  (List.range len.toNat).map fun i => ram (off + BitVec.ofNat 32 i)

/-- A little-endian word. -/
def wordAt (ram : Ram) (off : Word) : Word :=
  (ram off).setWidth 32 ||| (ram (off + 1)).setWidth 32 <<< (8 : ℕ) |||
    (ram (off + 2)).setWidth 32 <<< (16 : ℕ) ||| (ram (off + 3)).setWidth 32 <<< (24 : ℕ)

/-! ## Hashes -/

def crcShift (c : Word) : Word := if c &&& 1 ≠ 0 then 0xEDB88320 ^^^ (c >>> (1 : ℕ)) else c >>> (1 : ℕ)

/-- `s_table` -/
def crcTable (i : Word) : Word := crcShift^[8] i

/-- `crc32_update` -/
def crc32Update (crc : Word) (data : List Byte) : Word :=
  data.foldl (fun c b => crcTable ((c ^^^ b.setWidth 32) &&& 0xFF) ^^^ (c >>> (8 : ℕ))) crc

/-- The loop of `ov_ranges_crc`; a range without live bytes ends it. -/
def ovRangesCrcFrom (g : Geometry) (ram : Ram) (crc : Word) : List CodeRange → Option Word
  | [] => some crc
  | r :: rs =>
    match psxRamResolve g r.lo r.len with
    | none => none
    | some off => ovRangesCrcFrom g ram (crc32Update crc (bytesAt ram off r.len)) rs

def ovRangesCrc (g : Geometry) (ram : Ram) (ranges : List CodeRange) : Option Word :=
  (ovRangesCrcFrom g ram 0xFFFFFFFF ranges).map (· ^^^ 0xFFFFFFFF)

/-! ## Delay slots -/

/-- `mips_control_kind`: 1 with a delay slot, 0 ordinary, -1 never native. -/
def mipsControlKind (instr : Word) : ℤ :=
  let op := instr >>> (26 : ℕ)
  if op = 0 then
    let funct := instr &&& 0x3F
    if funct = 0x08 ∨ funct = 0x09 then 1 else 0
  else if op = 0x01 then
    let rt := (instr >>> (16 : ℕ)) &&& 0x1F
    if rt = 0x00 ∨ rt = 0x01 ∨ rt = 0x10 ∨ rt = 0x11 then 1 else -1
  else if op = 0x02 ∨ op = 0x03 ∨ (op ≥ 0x04 ∧ op ≤ 0x07) then 1
  else if op ≥ 0x14 ∧ op ≤ 0x17 then -1
  else if op ≥ 0x10 ∧ op ≤ 0x13 ∧ (instr >>> (21 : ℕ)) &&& 0x1F = 0x08 then -1
  else 0

/-- The range that holds a word. -/
def CodeRange.hasWord (r : CodeRange) (phys : Word) : Bool :=
  let lo := r.lo &&& 0x1FFFFFFF
  r.len ≥ 4 && phys ≥ lo && phys - lo ≤ r.len - 4

/-- `ranges_contain_word` -/
def rangesContainWord (ranges : List CodeRange) (phys : Word) : Bool :=
  !(phys &&& 3 ≠ 0 || phys > ramWindow - 4) && ranges.any (·.hasWord phys)

/-- The word in the delay slot, from the first range that holds it. -/
def slotWord (g : Geometry) (ram : Ram) (ranges : List CodeRange) (slot : Word) : Option Word :=
  match ranges.find? (·.hasWord slot) with
  | none => none
  | some s =>
    (psxRamResolve g (s.lo &&& 0x1FFFFFFF) s.len).map fun off => wordAt ram (off + (slot - (s.lo &&& 0x1FFFFFFF)))

/-- One instruction of a hashed range. -/
def slotHashed (g : Geometry) (ram : Ram) (ranges : List CodeRange) (pc instr : Word) : Bool :=
  let kind := mipsControlKind instr
  if kind < 0 then false
  else if kind > 0 then
    rangesContainWord ranges (pc + 4) &&
      match slotWord g ram ranges (pc + 4) with
      | none => false
      | some w => mipsControlKind w = 0
  else true

def maxCodeRanges : ℕ := 16

/-- `ranges_delay_slots_hashed` -/
def rangesDelaySlotsHashed (g : Geometry) (ram : Ram) (ranges : List CodeRange) : Bool :=
  !(ranges.length < 1 || ranges.length > maxCodeRanges) && ranges.all fun r =>
    let lo := r.lo &&& 0x1FFFFFFF
    !(lo &&& 3 ≠ 0 || r.len &&& 3 ≠ 0 || r.len < 4) &&
      match psxRamResolve g lo r.len with
      | none => false
      | some off => (List.range (r.len.toNat / 4)).all fun k =>
        slotHashed g ram ranges (lo + BitVec.ofNat 32 (4 * k)) (wordAt ram (off + BitVec.ofNat 32 (4 * k)))

/-- Whether the live bytes of the ranges are those that were compiled. -/
def liveMatches (g : Geometry) (ram : Ram) (ranges : List CodeRange) (crc : Word) : Bool :=
  match ovRangesCrc g ram ranges with
  | none => false
  | some live => live = crc && rangesDelaySlotsHashed g ram ranges

/-! ## What a verdict depends on -/

/-- Two memories with the same bytes behind every range. -/
def SameBytes (g : Geometry) (ram ram' : Ram) (ranges : List CodeRange) : Prop :=
  ∀ r ∈ ranges, ∀ off, psxRamResolve g r.lo r.len = some off →
    ∀ i < r.len.toNat, ram (off + BitVec.ofNat 32 i) = ram' (off + BitVec.ofNat 32 i)

variable {g : Geometry} {ram ram' : Ram} {ranges : List CodeRange}

theorem psxRamResolve_strip (g : Geometry) (lo len : Word) :
    psxRamResolve g (lo &&& 0x1FFFFFFF) len = psxRamResolve g lo len := by
  unfold psxRamResolve
  rw [BitVec.and_assoc, BitVec.and_self]

theorem wordAt_congr {a a' : Word} (h : ∀ j < 4, ram (a + BitVec.ofNat 32 j) = ram' (a' + BitVec.ofNat 32 j)) :
    wordAt ram a = wordAt ram' a' := by
  have h0 := h 0 (by decide)
  have h1 := h 1 (by decide)
  have h2 := h 2 (by decide)
  have h3 := h 3 (by decide)
  simp only [BitVec.add_zero] at h0 h1 h2 h3
  simp only [wordAt, BitVec.ofNat_eq_ofNat, h0, h1, h2, h3]

theorem SameBytes.bytes (h : SameBytes g ram ram' ranges) {r : CodeRange} (hr : r ∈ ranges) {off : Word}
    (hoff : psxRamResolve g r.lo r.len = some off) : bytesAt ram off r.len = bytesAt ram' off r.len := by
  refine List.map_congr_left fun i hi => ?_
  exact h r hr off hoff i (List.mem_range.1 hi)

/-- A word inside a range. -/
theorem SameBytes.word (h : SameBytes g ram ram' ranges) {r : CodeRange} (hr : r ∈ ranges) {off : Word}
    (hoff : psxRamResolve g r.lo r.len = some off) {k : ℕ} (hk : k + 4 ≤ r.len.toNat) :
    wordAt ram (off + BitVec.ofNat 32 k) = wordAt ram' (off + BitVec.ofNat 32 k) := by
  refine wordAt_congr fun j hj => ?_
  have hadd : off + BitVec.ofNat 32 k + BitVec.ofNat 32 j = off + BitVec.ofNat 32 (k + j) := by
    rw [BitVec.add_assoc, ← BitVec.ofNat_add]
  rw [hadd]
  exact h r hr off hoff (k + j) (by omega)

theorem ovRangesCrcFrom_congr (crc : Word) (h : SameBytes g ram ram' ranges) :
    ovRangesCrcFrom g ram crc ranges = ovRangesCrcFrom g ram' crc ranges := by
  induction ranges generalizing crc with
  | nil => rfl
  | cons r rs ih =>
    have htail : SameBytes g ram ram' rs := fun q hq => h q (List.mem_cons_of_mem _ hq)
    unfold ovRangesCrcFrom
    cases hoff : psxRamResolve g r.lo r.len with
    | none => rfl
    | some off =>
      dsimp only
      rw [h.bytes (List.mem_cons_self ..) hoff]
      exact ih _ htail

theorem slotWord_congr (h : SameBytes g ram ram' ranges) (slot : Word) :
    slotWord g ram ranges slot = slotWord g ram' ranges slot := by
  unfold slotWord
  cases hfind : ranges.find? (·.hasWord slot) with
  | none => rfl
  | some s =>
    have hmem := List.mem_of_find?_eq_some hfind
    have hword := List.find?_some hfind
    simp only [CodeRange.hasWord, Bool.and_eq_true, decide_eq_true_eq] at hword
    dsimp only
    rw [psxRamResolve_strip]
    cases hoff : psxRamResolve g s.lo s.len with
    | none => rfl
    | some off =>
      simp only [Option.map_some, Option.some.injEq]
      obtain ⟨⟨hlen, hlo⟩, hin⟩ := hword
      have hk : (slot - (s.lo &&& 0x1FFFFFFF)).toNat + 4 ≤ s.len.toNat := by
        generalize s.lo &&& 0x1FFFFFFF = lo at hlo hin
        bv_omega
      have h' := h.word hmem hoff hk
      rwa [BitVec.ofNat_toNat, BitVec.setWidth_eq] at h'

theorem all_congr_mem {α : Type} {l : List α} {p q : α → Bool} (h : ∀ a ∈ l, p a = q a) :
    l.all p = l.all q := by
  induction l with
  | nil => rfl
  | cons a as ih =>
    rw [List.all_cons, List.all_cons, h a (List.mem_cons_self ..), ih fun b hb => h b (List.mem_cons_of_mem _ hb)]

theorem rangesDelaySlotsHashed_congr (h : SameBytes g ram ram' ranges) :
    rangesDelaySlotsHashed g ram ranges = rangesDelaySlotsHashed g ram' ranges := by
  have hslot : ∀ pc instr, slotHashed g ram ranges pc instr = slotHashed g ram' ranges pc instr := by
    intro pc instr
    unfold slotHashed
    rw [slotWord_congr h]
  unfold rangesDelaySlotsHashed
  refine congrArg _ (all_congr_mem fun r hr => ?_)
  dsimp only
  rw [psxRamResolve_strip]
  cases hoff : psxRamResolve g r.lo r.len with
  | none => rfl
  | some off =>
    have hall : ∀ k ∈ List.range (r.len.toNat / 4),
        slotHashed g ram ranges ((r.lo &&& 0x1FFFFFFF) + BitVec.ofNat 32 (4 * k))
          (wordAt ram (off + BitVec.ofNat 32 (4 * k))) =
        slotHashed g ram' ranges ((r.lo &&& 0x1FFFFFFF) + BitVec.ofNat 32 (4 * k))
          (wordAt ram' (off + BitVec.ofNat 32 (4 * k))) := by
      intro k hk
      have hk' := List.mem_range.1 hk
      rw [h.word hr hoff (by omega), hslot]
    dsimp only
    rw [all_congr_mem hall]

theorem liveMatches_congr (h : SameBytes g ram ram' ranges) (crc : Word) :
    liveMatches g ram ranges crc = liveMatches g ram' ranges crc := by
  unfold liveMatches ovRangesCrc
  rw [ovRangesCrcFrom_congr _ h, rangesDelaySlotsHashed_congr h]

/-- A list with a range that has no live bytes never matches. -/
theorem liveMatches_resolves {crc : Word} (h : liveMatches g ram ranges crc = true) :
    ∀ r ∈ ranges, ∃ off, psxRamResolve g r.lo r.len = some off := by
  have hfrom : ∀ (rs : List CodeRange) (c : Word), (ovRangesCrcFrom g ram c rs).isSome →
      ∀ r ∈ rs, ∃ off, psxRamResolve g r.lo r.len = some off := by
    intro rs
    induction rs with
    | nil => exact fun _ _ r hr => absurd hr (List.not_mem_nil)
    | cons q qs ih =>
      intro c hsome r hr
      unfold ovRangesCrcFrom at hsome
      cases hoff : psxRamResolve g q.lo q.len with
      | none => simp [hoff] at hsome
      | some off =>
        rw [hoff] at hsome
        cases List.mem_cons.1 hr with
        | inl heq => exact ⟨off, heq ▸ hoff⟩
        | inr hmem => exact ih _ hsome r hmem
  refine hfrom ranges 0xFFFFFFFF ?_
  unfold liveMatches ovRangesCrc at h
  cases hcrc : ovRangesCrcFrom g ram 0xFFFFFFFF ranges with
  | none =>
    rw [hcrc] at h
    exact absurd h (by simp)
  | some _ => rfl

end PsxRecomp.Overlays
