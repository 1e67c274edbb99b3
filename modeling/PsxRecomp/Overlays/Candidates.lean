import PsxRecomp.Overlays.LiveBytes

/-! Watched pages, whose generations stand for their bytes, and the table of native candidates:
registration, the chain of each entry, the page index, and the verdict that is kept with its sum. -/
namespace PsxRecomp.Overlays
set_option autoImplicit false

/-! ## Memory -/

structure Memory where
  geometry : Geometry
  ram : Ram
  /-- `overlay_watch_bitmap` -/
  watch : ℕ → Bool
  /-- `overlay_page_gen` -/
  pageGen : ℕ → Word

def pageOf (a : Word) : ℕ := a.toNat / 4096

/-- The pages of `[phys, phys + len)`, cut at the end of the live RAM. -/
def watchPages (g : Geometry) (phys len : Word) : List ℕ :=
  if len = 0 ∨ phys ≥ g.size then []
  else
    let last := phys + len - 1
    let last := if last ≥ g.size ∨ last < phys then g.size - 1 else last
    List.range' (pageOf phys) (pageOf last + 1 - pageOf phys)

/-- `overlay_watch_set_range` -/
def overlayWatchSetRange (phys len : Word) (m : Memory) : Memory :=
  { m with watch := fun p => m.watch p || decide (p ∈ watchPages m.geometry phys len) }

/-- `overlay_watch_pagegen_sum` -/
def overlayWatchPagegenSum (phys len : Word) (m : Memory) : Word :=
  ((watchPages m.geometry phys len).map m.pageGen).sum

/-- `ov_ranges_gensum` -/
def ovRangesGensum (m : Memory) (ranges : List CodeRange) : Word :=
  (ranges.map fun r =>
    match psxRamResolve m.geometry r.lo r.len with
    | none => 0
    | some off => overlayWatchPagegenSum off r.len m).sum

/-- `ov_ranges_watch` -/
def ovRangesWatch (ranges : List CodeRange) (m : Memory) : Memory :=
  ranges.foldl (fun m r =>
    match psxRamResolve m.geometry r.lo r.len with
    | none => m
    | some off => overlayWatchSetRange off r.len m) m

/-! ## Stores -/

/-- `psx_ram_map_write` -/
def psxRamMapWrite (g : Geometry) (addr : Word) : Word :=
  let phys := addr &&& 0x1FFFFFFF
  if phys < ramWindow then phys &&& g.mask else phys

/-- Whether `overlay_watch_note_write` finds the page of a store watched. -/
def Memory.noted (m : Memory) (phys : Word) : Bool :=
  decide (pageOf phys < pageOf m.geometry.size) && m.watch (pageOf phys)

/-- `overlay_page_gen[pg]++` -/
def Memory.bump (m : Memory) (page : ℕ) : Memory :=
  { m with pageGen := Function.update m.pageGen page (m.pageGen page + 1) }

def Memory.put (m : Memory) (off : Word) (bytes : List Byte) : Memory :=
  { m with ram := fun a => (bytes[(a - off).toNat]?).getD (m.ram a) }

/-- A store to RAM: the page is noted before the bytes change. -/
def Memory.write (m : Memory) (phys : Word) (bytes : List Byte) : Memory :=
  (if m.noted phys then m.bump (pageOf phys) else m).put phys bytes

/-! ## The pages under ranges -/

def rangePages (g : Geometry) (r : CodeRange) : List ℕ :=
  match psxRamResolve g r.lo r.len with
  | none => []
  | some off => watchPages g off r.len

def pagesUnder (g : Geometry) (ranges : List CodeRange) : List ℕ := ranges.flatMap (rangePages g)

variable {m : Memory} {ranges : List CodeRange}

theorem gensum_eq (m : Memory) (ranges : List CodeRange) :
    ovRangesGensum m ranges = ((pagesUnder m.geometry ranges).map m.pageGen).sum := by
  unfold ovRangesGensum pagesUnder
  induction ranges with
  | nil => rfl
  | cons r rs ih =>
    rw [List.map_cons, List.sum_cons, List.flatMap_cons, List.map_append, List.sum_append, ih]
    congr 1
    unfold rangePages
    split <;> rfl

theorem watch_eq (m : Memory) (ranges : List CodeRange) :
    (ovRangesWatch ranges m).geometry = m.geometry ∧ (ovRangesWatch ranges m).ram = m.ram ∧
      (ovRangesWatch ranges m).pageGen = m.pageGen ∧
      ∀ p, (ovRangesWatch ranges m).watch p = (m.watch p || decide (p ∈ pagesUnder m.geometry ranges)) := by
  unfold ovRangesWatch pagesUnder
  induction ranges generalizing m with
  | nil => exact ⟨rfl, rfl, rfl, fun p => by simp⟩
  | cons r rs ih =>
    rw [List.foldl_cons]
    cases hoff : psxRamResolve m.geometry r.lo r.len with
    | none =>
      obtain ⟨hg, hram, hgen, hwatch⟩ := ih m
      refine ⟨hg, hram, hgen, fun p => ?_⟩
      have hnone : rangePages m.geometry r = [] := by
        rw [rangePages, hoff]
      rw [hwatch, List.flatMap_cons, hnone, List.nil_append]
    | some off =>
      obtain ⟨hg, hram, hgen, hwatch⟩ := ih (overlayWatchSetRange off r.len m)
      refine ⟨hg, hram, hgen, fun p => ?_⟩
      have hsome : rangePages m.geometry r = watchPages m.geometry off r.len := by
        rw [rangePages, hoff]
      rw [hwatch, List.flatMap_cons, hsome]
      simp [overlayWatchSetRange, Bool.or_assoc]

/-- A resolved range lies inside the live RAM. -/
theorem resolve_inside {g : Geometry} {lo len off : Word} (h : psxRamResolve g lo len = some off) :
    0 < len.toNat ∧ off.toNat + len.toNat ≤ g.size.toNat := by
  unfold psxRamResolve at h
  dsimp only at h
  split at h
  · exact absurd h (by simp)
  · next hno =>
    split at h
    · exact absurd h (by simp)
    · next hlen =>
      have hoff : lo &&& 0x1FFFFFFF &&& g.mask = off := Option.some.inj h
      have hmask : off.toNat ≤ g.mask.toNat := by
        rw [← hoff, BitVec.toNat_and]
        exact Nat.and_le_right
      rw [hoff] at hlen
      have hzero : len ≠ 0 := fun hz => hno (Or.inr hz)
      have hpos : 0 < len.toNat := by
        rcases Nat.eq_zero_or_pos len.toNat with hz | hz
        · exact absurd (BitVec.eq_of_toNat_eq hz) hzero
        · exact hz
      refine ⟨hpos, ?_⟩
      cases g <;> simp only [Geometry.mask, Geometry.size] at hmask hlen ⊢ <;> bv_omega

/-- Every byte of a resolved range lies in one of its pages. -/
theorem page_of_byte {g : Geometry} {r : CodeRange} {off : Word} (h : psxRamResolve g r.lo r.len = some off) {i : ℕ}
    (hi : i < r.len.toNat) : pageOf (off + BitVec.ofNat 32 i) ∈ rangePages g r := by
  obtain ⟨hpos, hin⟩ := resolve_inside h
  have hsize : g.size.toNat ≤ 0x800000 := by
    cases g <;> decide
  have hat : (off + BitVec.ofNat 32 i).toNat = off.toNat + i := by
    rw [BitVec.toNat_add, BitVec.toNat_ofNat]
    omega
  have hlast : (off + r.len - 1).toNat = off.toNat + r.len.toNat - 1 := by
    bv_omega
  have hpages : rangePages g r = List.range' (pageOf off) (pageOf (off + r.len - 1) + 1 - pageOf off) := by
    have hlen : ¬(r.len = 0 ∨ off ≥ g.size) := by
      rintro (h0 | hge)
      · rw [h0] at hpos
        exact absurd hpos (by decide)
      · have : g.size.toNat ≤ off.toNat := hge
        omega
    have hcut : ¬(off + r.len - 1 ≥ g.size ∨ off + r.len - 1 < off) := by
      rintro (hge | hlt)
      · have : g.size.toNat ≤ (off + r.len - 1).toNat := hge
        omega
      · have : (off + r.len - 1).toNat < off.toNat := hlt
        omega
    rw [rangePages, h]
    dsimp only
    unfold watchPages
    rw [if_neg hlen]
    dsimp only
    rw [if_neg hcut]
  rw [hpages, List.mem_range'_1]
  simp only [pageOf, hat, hlast]
  omega

/-- The pages under a range are pages of the live RAM. -/
theorem page_inside {g : Geometry} {r : CodeRange} {p : ℕ} (h : p ∈ rangePages g r) : p < pageOf g.size := by
  have hsize : g.size.toNat = 4096 * pageOf g.size ∧ 0 < g.size.toNat := by
    cases g <;> decide
  unfold rangePages at h
  split at h
  · exact absurd h (List.not_mem_nil)
  · next off hoff =>
    unfold watchPages at h
    split at h
    · exact absurd h (List.not_mem_nil)
    · dsimp only at h
      rw [List.mem_range'_1] at h
      have hlast : ∀ last : Word, last.toNat < g.size.toNat → pageOf last < pageOf g.size := by
        intro last hlt
        simp only [pageOf] at hsize ⊢
        omega
      split at h
      · have hcut := hlast (g.size - 1) (by
          cases g <;> decide)
        omega
      · next hno =>
        have hcut := hlast (off + r.len - 1) (by
          exact BitVec.lt_def.1 (BitVec.not_le.1 (not_or.1 hno).1))
        omega

/-! ## Data -/

inductive EntryState where
  | valid
  | invalid
  | blacklist
  deriving DecidableEq, Inhabited

structure Candidate where
  addr : Word
  seg : Word
  ranges : List CodeRange
  crcCode : Word
  valGen : Word
  state : EntryState
  dll : ℕ
  tier : Byte
  diffPasses : ℕ
  deviceTouch : Bool
  deriving Inhabited

/-- An entry of a manifest. -/
structure ManFn where
  entry : Word
  crc : Word
  hasCrc : Bool
  ranges : List CodeRange
  deriving DecidableEq, Inhabited

def candCap : ℕ := 32768
def rangePageCount : ℕ := 2048
def rangeLinkCap : ℕ := candCap * 8

/-- The links of each page, oldest first. -/
structure RangeIndex where
  pages : ℕ → List ℕ
  linkN : ℕ
  overflow : Bool

/-- An entry of `s_range_pc_cache`. -/
structure RangePcSlot where
  key : Word
  generation : Word
  cand : Option ℕ
  deriving Inhabited

structure Table where
  cand : ℕ → Candidate
  candN : ℕ
  /-- The candidates of each entry, in the order of their links. -/
  chain : Word → List ℕ
  range : RangeIndex
  pcCache : ℕ → RangePcSlot
  /-- `s_range_candidate_generation` -/
  generation : Word

/-- What `overlay_loader_init` leaves. -/
def Table.init : Table where
  cand := fun _ => default
  candN := 0
  chain := fun _ => []
  range := ⟨fun _ => [], 0, false⟩
  pcCache := fun _ => ⟨0, 0, none⟩
  generation := 1

def Table.setCand (i : ℕ) (c : Candidate) (t : Table) : Table :=
  { t with cand := Function.update t.cand i c }

/-! ## Segments -/

/-- `psx_code_segment_index` finds the segments that map RAM. -/
def codeSegment (pc : Word) : Bool :=
  let seg := pc &&& 0xE0000000
  seg = 0x00000000 || seg = 0x80000000 || seg = 0xA0000000

def stripSegment (r : CodeRange) : CodeRange := { r with lo := r.lo &&& 0x1FFFFFFF }

/-! ## Registration -/

/-- The ranges of a manifest entry, checked one by one against those before. -/
def rangesValid (seen : List CodeRange) : List CodeRange → Bool
  | [] => true
  | r :: rs =>
    let lo := r.lo &&& 0x1FFFFFFF
    !(r.lo &&& 0xFF800000 ≠ 0x80000000 || lo &&& 3 ≠ 0 || r.len &&& 3 ≠ 0 || r.len < 4 || lo ≥ ramWindow ||
        r.len > ramWindow - lo ||
        seen.any fun q =>
          let prevLo := q.lo &&& 0x1FFFFFFF
          lo < prevLo + q.len && prevLo < lo + r.len) &&
      rangesValid (seen ++ [r]) rs

/-- `man_structurally_valid` -/
def manStructurallyValid (m : ManFn) : Bool :=
  let entry := m.entry &&& 0x1FFFFFFF
  !(!m.hasCrc || m.ranges.length < 1 || m.ranges.length > maxCodeRanges || !codeSegment m.entry ||
      m.entry &&& 0xFF800000 ≠ m.entry &&& 0xE0000000 || entry &&& 3 ≠ 0 || entry ≥ ramWindow) &&
    rangesValid [] m.ranges &&
    m.ranges.any fun r =>
      let lo := r.lo &&& 0x1FFFFFFF
      entry ≥ lo && entry - lo ≤ r.len - 4

/-- One link for each new page, until the links run out. -/
def addLinks (cap ci : ℕ) : List ℕ → List ℕ → RangeIndex → RangeIndex
  | [], _, ix => ix
  | p :: ps, seen, ix =>
    if p ∈ seen then addLinks cap ci ps seen ix
    else if ix.linkN ≥ cap then { ix with overflow := true }
    else addLinks cap ci ps (p :: seen)
      { ix with pages := Function.update ix.pages p (ix.pages p ++ [ci]), linkN := ix.linkN + 1 }

/-- The pages that a range touches, cut at the end of the index. -/
def indexPages (r : CodeRange) : List ℕ :=
  let p0 := pageOf r.lo
  let p1 := pageOf (r.lo + r.len - 1)
  if p0 ≥ rangePageCount then []
  else List.range' p0 ((if p1 ≥ rangePageCount then rangePageCount - 1 else p1) + 1 - p0)

/-- `range_index_add_candidate` -/
def rangeIndexAddCandidate (ci : ℕ) (ranges : List CodeRange) (ix : RangeIndex) : RangeIndex :=
  addLinks rangeLinkCap ci (ranges.flatMap indexPages) [] ix

/-- Higher tiers first, newer ones of a tier before older ones. -/
def chainInsert (t : Table) (tier : Byte) (idx : ℕ) (l : List ℕ) : List ℕ :=
  l.takeWhile (fun i => tier < (t.cand i).tier) ++ idx :: l.dropWhile (fun i => tier < (t.cand i).tier)

/-- An address of 0 marks a free slot of the entry index, so nothing is found there. -/
def setChain (phys : Word) (l : List ℕ) (t : Table) : Table :=
  if phys = 0 then t else { t with chain := Function.update t.chain phys l }

def liveState (m : Memory) (ranges : List CodeRange) (crc : Word) : EntryState :=
  if liveMatches m.geometry m.ram ranges crc then .valid else .invalid

/-- `s_range_candidate_generation++`, past 0. -/
def nextGeneration (g : Word) : Word := if g + 1 = 0 then 1 else g + 1

def newCandidate (m : Memory) (phys : Word) (man : ManFn) (dll : ℕ) (tier : Byte) : Candidate :=
  let ranges := (man.ranges.take maxCodeRanges).map stripSegment
  { addr := phys, seg := man.entry &&& 0xE0000000, ranges := ranges, crcCode := man.crc
    valGen := ovRangesGensum m ranges, state := liveState m ranges man.crc, dll := dll, tier := tier
    diffPasses := 0, deviceTouch := false }

/-- The candidate entered in all the indexes. -/
def Table.enter (c : Candidate) (t : Table) : Table :=
  let t' := setChain c.addr (chainInsert t c.tier t.candN (t.chain c.addr)) (t.setCand t.candN c)
  { t' with candN := t.candN + 1, range := rangeIndexAddCandidate t.candN c.ranges t.range
            generation := nextGeneration t.generation }

/-- `cand_register` -/
def candRegister (phys : Word) (man : ManFn) (dll : ℕ) (tier : Byte) (m : Memory) (t : Table) :
    (Memory × Table) × Bool :=
  if t.candN ≥ candCap then ((m, t), false)
  else if !manStructurallyValid man then ((m, t), false)
  else
    let m := ovRangesWatch ((man.ranges.take maxCodeRanges).map stripSegment) m
    ((m, t.enter (newCandidate m phys man dll tier)), true)

/-! ## Verdicts -/

/-- The verdict on one candidate: kept while the generation sum stands, reached again when it has moved. -/
def Candidate.judge (m : Memory) (c : Candidate) : Candidate × Bool :=
  let gen := ovRangesGensum m c.ranges
  if c.state = .valid ∧ gen = c.valGen then (c, true)
  else if c.state = .invalid ∧ gen = c.valGen then (c, false)
  else
    let matched := liveMatches m.geometry m.ram c.ranges c.crcCode
    ({ c with valGen := gen, state := if matched then .valid else .invalid }, matched)

end PsxRecomp.Overlays
