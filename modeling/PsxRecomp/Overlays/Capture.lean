import PsxRecomp.Overlays.Dispatch

/-! The capture of executed overlay code: the dirty pages cut into runs window by window, one region for every
run with evidence, and the region under which the loader looks for a PC. -/
namespace PsxRecomp.Overlays
set_option autoImplicit false

/-! ## Inputs -/

abbrev Bitmap := ℕ → Word

def Bitmap.bit (b : Bitmap) (i : ℕ) : Bool := (b (i / 32)).getLsbD (i % 32)

/-- What a capture works on. A bitmap read past its end gives some word. -/
structure CaptureJob where
  geometry : Geometry
  /-- `g_overlay_region_floor` -/
  regionFloor : Word
  bitmap : Bitmap
  dispatchPc : Bitmap
  dispatchSeg : Fin 3 → Bitmap
  execPc : Bitmap
  ram : Ram

/-- What the game configuration says about the floor. -/
structure FloorConfig where
  loadAddress : Word
  textSize : Word
  /-- `overlay_region_floor` of the configuration -/
  configured : Option Word
  /-- `PSX_OVERLAY_REGION_FLOOR` -/
  environment : Option Word

def floorOverride (wanted : Option Word) (floor : Word) : Word :=
  match wanted with
  | none => floor
  | some w => if w &&& 0x1FFFFFFF ≥ 0x00010000 then w &&& 0x1FFFFFFF else floor

/-- `g_overlay_region_floor` as a game load pins it; without a game it keeps the default. -/
def pinnedFloor : Option FloorConfig → Word
  | none => 0x00098000
  | some c =>
    let textEnd := (c.loadAddress + c.textSize) &&& 0x1FFFFFFF
    floorOverride c.environment (floorOverride c.configured
      (if textEnd > 0x00010000 then textEnd else 0x00098000))

/-! ## Runs of pages -/

/-- The runs that a scan closes: `n` pages from `page` on are left. -/
def closedRuns (mark : ℕ → Bool) (hi : ℕ) : ℕ → ℕ → Bool → ℕ → List (ℕ × ℕ)
  | 0, _, _, _ => []
  | n + 1, page, inRun, runStart =>
    let dirty := decide (page < hi) && mark page
    if dirty && !inRun then closedRuns mark hi n (page + 1) true page
    else if !dirty && inRun then (runStart, page) :: closedRuns mark hi n (page + 1) false runStart
    else closedRuns mark hi n (page + 1) inRun runStart

def pageRuns (mark : ℕ → Bool) (lo hi : ℕ) : List (ℕ × ℕ) := closedRuns mark hi (hi + 1 - lo) lo false 0

/-! ## Regions -/

structure Region where
  loadAddr : Word
  size : ℕ
  guardBytes : ℕ
  /-- What `bytes_b64` encodes. -/
  bytes : List Byte
  executedPcs : List Word
  dispatchEntryPcs : List Word
  dispatchEntrySegments : Fin 3 → List Word
  seeds : List Word

/-- `PSX_OVERLAY_CODE_SEGMENT` -/
def overlayCodeSegment : Word := 0x80000000

/-- `psx_code_segment_base` -/
def codeSegmentBase (seg : Fin 3) : Word :=
  if seg = 0 then 0x00000000 else if seg = 1 then 0x80000000 else 0xA0000000

/-- `psx_ram_canonical_offset` -/
def canonicalOffset (g : Geometry) (address : Word) : Word := address &&& (ramWindow - 1) &&& g.mask

/-- The word-aligned PCs of `[phys, pcHi)` that a test selects, spelled in a segment. -/
def listedPcs (segment : Word) (phys pcHi : ℕ) (seen : ℕ → Bool) : List Word :=
  ((List.range ((pcHi - phys + 3) / 4)).filter fun i => seen (phys / 4 + i)).map fun i =>
    segment ||| BitVec.ofNat 32 (phys + 4 * i)

/-- The region of one run; a run that was neither executed nor dispatched has none. -/
def captureRun (j : CaptureJob) (run : ℕ × ℕ) : Option Region :=
  let phys := run.1 * 4096
  let size := (run.2 - run.1) * 4096
  let ramSize := j.geometry.size.toNat
  let guardBytes := if phys ≤ ramSize ∧ size ≤ ramSize - phys ∧ phys + size ≤ ramSize - 4 then 4 else 0
  let size := size + guardBytes
  let pcHi := phys + size - guardBytes
  let executed := listedPcs overlayCodeSegment phys pcHi j.execPc.bit
  let dispatched := listedPcs overlayCodeSegment phys pcHi j.dispatchPc.bit
  if dispatched.length = 0 ∧ executed.length = 0 then none
  else some {
    loadAddr := overlayCodeSegment ||| canonicalOffset j.geometry (BitVec.ofNat 32 phys)
    size := size
    guardBytes := guardBytes
    bytes := bytesAt j.ram (BitVec.ofNat 32 phys) (BitVec.ofNat 32 size)
    executedPcs := executed
    dispatchEntryPcs := dispatched
    dispatchEntrySegments := fun seg =>
      listedPcs (codeSegmentBase seg) phys pcHi fun i => j.dispatchPc.bit i && (j.dispatchSeg seg).bit i
    seeds := dispatched }

/-- `write_json_window` -/
def writeJsonWindow (j : CaptureJob) (winLo winHi : ℕ) : List Region :=
  (pageRuns j.bitmap.bit winLo winHi).filterMap (captureRun j)

/-- `dirty_ram_get_bitmap_word_count` in pages -/
def livePages (g : Geometry) : ℕ := (g.size.toNat / 4096 + 31) / 32 * 32

/-- The windows of a capture, in pages. -/
def captureWindows (j : CaptureJob) : List (ℕ × ℕ) :=
  [(0, pageOf kernelWindowEnd), (pageOf kernelWindowEnd, pageOf j.regionFloor),
    (pageOf j.regionFloor, livePages j.geometry)]

/-- `write_json_snapshot` -/
def writeJsonSnapshot (j : CaptureJob) : List Region :=
  (captureWindows j).flatMap fun w => writeJsonWindow j w.1 w.2

/-! ## Maximal runs -/

/-- A maximal run of marked pages within a window. -/
structure IsRun (mark : ℕ → Bool) (lo hi a b : ℕ) : Prop where
  lo_le : lo ≤ a
  lt : a < b
  le_hi : b ≤ hi
  marked : ∀ p, a ≤ p → p < b → mark p = true
  left : a = lo ∨ mark (a - 1) = false
  right : b = hi ∨ mark b = false

/-- What a scan knows of its open run. -/
structure OpenRun (mark : ℕ → Bool) (lo hi page s : ℕ) : Prop where
  lo_le : lo ≤ s
  lt : s < page
  le_hi : page ≤ hi
  marked : ∀ p, s ≤ p → p < page → mark p = true
  left : s = lo ∨ mark (s - 1) = false

theorem OpenRun.closes {mark : ℕ → Bool} {lo hi page s : ℕ} (h : OpenRun mark lo hi page s)
    (hend : page = hi ∨ mark page = false) (a b : ℕ) :
    IsRun mark lo hi a b ∧ s ≤ a ↔ (a = s ∧ b = page) ∨ IsRun mark lo hi a b ∧ page + 1 ≤ a := by
  constructor
  · rintro ⟨hr, hsa⟩
    have hlt := hr.lt
    have hhi := hr.le_hi
    have hph := h.le_hi
    by_cases has : a = s
    · refine Or.inl ⟨has, ?_⟩
      subst has
      by_contra hne
      rcases Nat.lt_or_gt_of_ne hne with hb | hb
      · rcases hr.right with e | e
        · omega
        · rw [h.marked b (by omega) hb] at e; cases e
      · rcases hend with e | e
        · omega
        · rw [hr.marked page (Nat.le_of_lt h.lt) hb] at e; cases e
    · refine Or.inr ⟨hr, ?_⟩
      by_contra hp
      have hlo := h.lo_le
      rcases hr.left with e | e
      · omega
      · rw [h.marked (a - 1) (by omega) (by omega)] at e; cases e
  · rintro (⟨rfl, rfl⟩ | ⟨hr, hp⟩)
    · exact ⟨⟨h.lo_le, h.lt, h.le_hi, h.marked, h.left, hend⟩, le_refl _⟩
    · have hs := h.lt
      exact ⟨hr, by omega⟩

theorem mem_closedRuns {mark : ℕ → Bool} {lo hi : ℕ} (n page : ℕ) (inRun : Bool) (s a b : ℕ)
    (hn : page + n = hi + 1) (hlo : lo ≤ page) (hopen : inRun = true → OpenRun mark lo hi page s)
    (hclosed : inRun = false → page = lo ∨ mark (page - 1) = false ∨ hi < page) :
    (a, b) ∈ closedRuns mark hi n page inRun s ↔ IsRun mark lo hi a b ∧ (if inRun then s else page) ≤ a := by
  induction n generalizing page inRun s with
  | zero =>
    simp only [closedRuns, List.not_mem_nil, false_iff, not_and]
    intro hr
    have h1 := hr.lt
    have h2 := hr.le_hi
    cases inRun with
    | false => simp only [Bool.false_eq_true, if_false]; omega
    | true => have h3 := (hopen rfl).le_hi; omega
  | succ n ih =>
    rw [closedRuns]
    by_cases hd : page < hi ∧ mark page = true
    · obtain ⟨hph, hm⟩ := hd
      cases inRun with
      | false =>
        have hleft : page = lo ∨ mark (page - 1) = false := by
          rcases hclosed rfl with e | e | e
          · exact Or.inl e
          · exact Or.inr e
          · omega
        simp only [hph, hm, decide_true, Bool.true_and, Bool.not_false, if_true]
        rw [ih (page + 1) true page (by omega) (by omega) _ (by simp)]
        · simp
        · intro _
          refine ⟨hlo, by omega, by omega, ?_, hleft⟩
          intro p h1 h2
          have e : p = page := by omega
          rw [e]; exact hm
      | true =>
        have ho := hopen rfl
        simp only [hph, hm, decide_true, Bool.true_and, Bool.not_true, Bool.and_false, Bool.false_and,
          Bool.false_eq_true, if_false]
        rw [ih (page + 1) true s (by omega) (by omega) _ (by simp)]
        · simp
        · intro _
          refine ⟨ho.lo_le, by have := ho.lt; omega, by omega, ?_, ho.left⟩
          intro p h1 h2
          by_cases e : p = page
          · rw [e]; exact hm
          · exact ho.marked p h1 (by omega)
    · have hdirty : (decide (page < hi) && mark page) = false := by
        simpa using hd
      have hafter : page + 1 = lo ∨ mark (page + 1 - 1) = false ∨ hi < page + 1 := by
        by_cases hph : page < hi
        · exact Or.inr (Or.inl (by simpa [hph] using hd))
        · exact Or.inr (Or.inr (by omega))
      rw [hdirty]
      cases inRun with
      | false =>
        simp only [Bool.not_false, Bool.and_false, Bool.and_true, Bool.false_eq_true, if_false]
        rw [ih (page + 1) false s (by omega) (by omega) (by simp) (fun _ => hafter)]
        simp only [Bool.false_eq_true, if_false]
        constructor
        · rintro ⟨hr, hp⟩
          exact ⟨hr, by omega⟩
        · rintro ⟨hr, hp⟩
          refine ⟨hr, ?_⟩
          by_contra hlt
          have e : a = page := by omega
          subst e
          exact hd ⟨lt_of_lt_of_le hr.lt hr.le_hi, hr.marked a (le_refl a) hr.lt⟩
      | true =>
        have ho := hopen rfl
        have hend : page = hi ∨ mark page = false := by
          by_cases hph : page < hi
          · exact Or.inr (by simpa [hph] using hd)
          · have := ho.le_hi
            omega
        simp only [Bool.not_true, Bool.and_false, Bool.not_false, Bool.and_true, Bool.false_eq_true, if_false,
          if_true, List.mem_cons, Prod.mk.injEq]
        rw [ih (page + 1) false s (by omega) (by omega) (by simp) (fun _ => hafter)]
        simp only [Bool.false_eq_true, if_false]
        exact (ho.closes hend a b).symm

/-- A scan closes the maximal runs of its window. -/
theorem mem_pageRuns {mark : ℕ → Bool} {lo hi a b : ℕ} : (a, b) ∈ pageRuns mark lo hi ↔ IsRun mark lo hi a b := by
  unfold pageRuns
  by_cases h : lo ≤ hi + 1
  · rw [@mem_closedRuns mark lo hi _ _ _ _ _ _ (by omega) (le_refl lo) (by simp) (by simp)]
    simp only [Bool.false_eq_true, if_false, and_iff_left_iff_imp]
    exact fun hr => hr.lo_le
  · have e : hi + 1 - lo = 0 := by omega
    rw [e]
    simp only [closedRuns, List.not_mem_nil, false_iff]
    intro hr
    have h1 := hr.lo_le
    have h2 := hr.lt
    have h3 := hr.le_hi
    omega

theorem closedRuns_ordered (mark : ℕ → Bool) (hi n page : ℕ) (inRun : Bool) (s : ℕ)
    (hs : inRun = true → s < page) :
    (closedRuns mark hi n page inRun s).Pairwise (fun x y => x.2 < y.1) ∧
      ∀ x ∈ closedRuns mark hi n page inRun s, (if inRun then s else page) ≤ x.1 := by
  induction n generalizing page inRun s with
  | zero => exact ⟨List.Pairwise.nil, by simp [closedRuns]⟩
  | succ n ih =>
    unfold closedRuns
    generalize (decide (page < hi) && mark page) = dirty
    cases inRun with
    | false =>
      cases dirty with
      | true =>
        have h := ih (page + 1) true page (fun _ => Nat.lt_succ_self page)
        exact ⟨h.1, fun x hx => by simpa using h.2 x hx⟩
      | false =>
        have h := ih (page + 1) false s (by simp)
        refine ⟨h.1, fun x hx => ?_⟩
        have hx := h.2 x hx
        simp only [Bool.false_eq_true, if_false] at hx ⊢
        omega
    | true =>
      have hsp := hs rfl
      cases dirty with
      | true =>
        have h := ih (page + 1) true s (fun _ => by omega)
        exact ⟨h.1, fun x hx => by simpa using h.2 x hx⟩
      | false =>
        have h := ih (page + 1) false s (by simp)
        simp only [Bool.false_eq_true, if_false] at h
        refine ⟨List.pairwise_cons.2 ⟨fun x hx => h.2 x hx, h.1⟩, fun x hx => ?_⟩
        simp only [if_true]
        rcases List.mem_cons.1 hx with rfl | hx
        · exact le_refl s
        · have := h.2 x hx
          omega

theorem pageRuns_ordered (mark : ℕ → Bool) (lo hi : ℕ) :
    (pageRuns mark lo hi).Pairwise fun x y => x.2 < y.1 :=
  (closedRuns_ordered mark hi _ lo false 0 (by simp)).1

theorem walkBack_spec (mark : ℕ → Bool) {lo p : ℕ} (hlo : lo ≤ p) :
    lo ≤ walkBack mark lo p ∧ walkBack mark lo p ≤ p ∧ (∀ q, walkBack mark lo p ≤ q → q < p → mark q = true) ∧
      (walkBack mark lo p = lo ∨ mark (walkBack mark lo p - 1) = false) := by
  induction p with
  | zero => exact ⟨hlo, le_refl _, fun q _ hq => by omega, Or.inl (by rw [walkBack]; omega)⟩
  | succ p ih =>
    rw [walkBack]
    split_ifs with h
    · obtain ⟨h1, h2, h3, h4⟩ := ih (by omega)
      refine ⟨h1, by omega, fun q hq hqp => ?_, h4⟩
      by_cases e : q = p
      · rw [e]; exact h.2
      · exact h3 q hq (by omega)
    · refine ⟨hlo, le_refl _, fun q _ hq => by omega, ?_⟩
      by_cases e : p + 1 = lo
      · exact Or.inl e
      · exact Or.inr (by simpa using fun hm => h ⟨by omega, hm⟩)

/-- Every marked page of a window is in one of its runs. -/
theorem exists_isRun {mark : ℕ → Bool} {lo hi p : ℕ} (hlo : lo ≤ p) (hhi : p < hi) (hm : mark p = true) :
    ∃ a b, IsRun mark lo hi a b ∧ a ≤ p ∧ p < b := by
  obtain ⟨h1, h2, h3, h4⟩ := walkBack_spec mark hlo
  have hex : ∃ b, p < b ∧ (b = hi ∨ mark b = false) := ⟨hi, hhi, Or.inl rfl⟩
  obtain ⟨hpb, hend⟩ := Nat.find_spec hex
  have hle : Nat.find hex ≤ hi := Nat.find_min' hex ⟨hhi, Or.inl rfl⟩
  refine ⟨walkBack mark lo p, Nat.find hex, ⟨h1, by omega, hle, fun q hq hqb => ?_, h4, hend⟩, h2, hpb⟩
  rcases Nat.lt_trichotomy q p with hqp | hqp | hqp
  · exact h3 q hq hqp
  · rw [hqp]; exact hm
  · have hmin := Nat.find_min hex hqb
    by_contra hne
    exact hmin ⟨hqp, Or.inr (by simpa using hne)⟩

/-- The walk of the loader ends where the run starts. -/
theorem IsRun.walkBack {mark : ℕ → Bool} {lo hi a b : ℕ} (h : IsRun mark lo hi a b) {p : ℕ} (ha : a ≤ p) (hb : p < b) :
    walkBack mark lo p = a := by
  induction p with
  | zero =>
    have e : a = 0 := by omega
    rw [e]; rfl
  | succ p ih =>
    rw [Overlays.walkBack]
    have hlo := h.lo_le
    by_cases e : a = p + 1
    · subst e
      rcases h.left with e | e
      · rw [if_neg (by omega)]
      · rw [if_neg (by rw [Nat.add_sub_cancel] at e; simp [e])]
    · rw [if_pos ⟨by omega, h.marked p (by omega) (by omega)⟩]
      exact ih (by omega) (by omega)

/-! ## Runs of all windows -/

theorem floorOverride_spec (wanted : Option Word) (floor : Word)
    (h : pageOf kernelWindowEnd ≤ pageOf floor ∧ floor.toNat < 0x20000000) :
    pageOf kernelWindowEnd ≤ pageOf (floorOverride wanted floor) ∧ (floorOverride wanted floor).toNat < 0x20000000 := by
  unfold floorOverride
  cases wanted with
  | none => exact h
  | some w =>
    simp only []
    split_ifs with hw
    · refine ⟨Nat.div_le_div_right (BitVec.le_def.1 hw), ?_⟩
      rw [BitVec.toNat_and]
      exact Nat.lt_of_le_of_lt Nat.and_le_right (by decide)
    · exact h

/-- The floor never lies below the kernel window. -/
theorem pinnedFloor_spec (game : Option FloorConfig) :
    pageOf kernelWindowEnd ≤ pageOf (pinnedFloor game) ∧ (pinnedFloor game).toNat < 0x20000000 := by
  cases game with
  | none => exact ⟨by decide, by decide⟩
  | some c =>
    refine floorOverride_spec _ _ (floorOverride_spec _ _ ?_)
    split_ifs with h
    · refine ⟨Nat.div_le_div_right (Nat.le_of_lt (BitVec.lt_def.1 h)), ?_⟩
      rw [BitVec.toNat_and]
      exact Nat.lt_of_le_of_lt Nat.and_le_right (by decide)
    · exact ⟨by decide, by decide⟩

def allRuns (j : CaptureJob) : List (ℕ × ℕ) := (captureWindows j).flatMap fun w => pageRuns j.bitmap.bit w.1 w.2

theorem writeJsonSnapshot_eq (j : CaptureJob) : writeJsonSnapshot j = (allRuns j).filterMap (captureRun j) := by
  unfold writeJsonSnapshot allRuns writeJsonWindow
  rw [List.filterMap_flatMap]

theorem mem_allRuns {j : CaptureJob} {a b : ℕ} :
    (a, b) ∈ allRuns j ↔ ∃ w ∈ captureWindows j, IsRun j.bitmap.bit w.1 w.2 a b := by
  simp [allRuns, List.mem_flatMap, mem_pageRuns]

/-- The windows lie one behind the other, and so do their runs. -/
theorem allRuns_ordered {j : CaptureJob} (hfloor : pageOf kernelWindowEnd ≤ pageOf j.regionFloor) :
    (allRuns j).Pairwise fun x y => x.2 ≤ y.1 := by
  have hwin : ∀ lo hi, (pageRuns j.bitmap.bit lo hi).Pairwise fun x y => x.2 ≤ y.1 := fun lo hi =>
    (pageRuns_ordered j.bitmap.bit lo hi).imp fun h => Nat.le_of_lt h
  simp only [allRuns, captureWindows, List.flatMap_cons, List.flatMap_nil, List.append_nil]
  refine List.pairwise_append.2 ⟨hwin _ _, List.pairwise_append.2 ⟨hwin _ _, hwin _ _, ?_⟩, ?_⟩
  · intro x hx y hy
    exact (mem_pageRuns.1 hx).le_hi.trans (mem_pageRuns.1 hy).lo_le
  · intro x hx y hy
    have hx := (mem_pageRuns.1 hx).le_hi
    rcases List.mem_append.1 hy with hy | hy
    · exact hx.trans (mem_pageRuns.1 hy).lo_le
    · exact hx.trans (hfloor.trans (mem_pageRuns.1 hy).lo_le)

theorem IsRun.bound {j : CaptureJob} (hfloor : j.regionFloor.toNat < 0x20000000) {w : ℕ × ℕ} (hw : w ∈ captureWindows j)
    {a b : ℕ} (h : IsRun j.bitmap.bit w.1 w.2 a b) : b ≤ 0x20000 := by
  have hle := h.le_hi
  have hpages : livePages j.geometry ≤ 2048 := by cases j.geometry <;> decide
  simp only [captureWindows, List.mem_cons, List.not_mem_nil, or_false] at hw
  rcases hw with rfl | rfl | rfl
  · have e : pageOf kernelWindowEnd = 16 := by decide
    simp only [e] at hle
    omega
  · simp only [pageOf] at hle
    omega
  · simp only [] at hle
    omega

theorem livePages_mul (g : Geometry) : livePages g * 4096 = g.size.toNat := by
  cases g <;> decide

theorem pageOf_lt_livePages {g : Geometry} {pc : Word} (hpc : pc < g.size) : pageOf pc < livePages g := by
  have h := BitVec.lt_def.1 hpc
  have e := livePages_mul g
  unfold pageOf
  omega

/-- A dirty page of RAM is in a run that starts where the loader's walk ends. -/
theorem exists_run {j : CaptureJob} {pc : Word} (hpc : pc < j.geometry.size) (hd : j.bitmap.bit (pageOf pc) = true) :
    ∃ w ∈ captureWindows j, ∃ a b, IsRun j.bitmap.bit w.1 w.2 a b ∧ a ≤ pageOf pc ∧ pageOf pc < b ∧
      walkBack j.bitmap.bit (floorPage j.regionFloor pc) (pageOf pc) = a := by
  have hlive := pageOf_lt_livePages hpc
  have hwin : ∃ w ∈ captureWindows j, w.1 ≤ pageOf pc ∧ pageOf pc < w.2 ∧ floorPage j.regionFloor pc = w.1 := by
    unfold floorPage
    by_cases h1 : pageOf pc < pageOf kernelWindowEnd
    · exact ⟨_, List.mem_cons_self, Nat.zero_le _, h1, by rw [if_pos h1]⟩
    · by_cases h2 : pageOf pc < pageOf j.regionFloor
      · exact ⟨_, List.mem_cons_of_mem _ List.mem_cons_self, by omega, h2, by rw [if_neg h1, if_pos h2]⟩
      · exact ⟨_, List.mem_cons_of_mem _ (List.mem_cons_of_mem _ List.mem_cons_self), by omega, hlive,
          by rw [if_neg h1, if_neg h2]⟩
  obtain ⟨w, hw, hlo, hhi, hf⟩ := hwin
  obtain ⟨a, b, hr, ha, hb⟩ := exists_isRun hlo hhi hd
  exact ⟨w, hw, a, b, hr, ha, hb, by rw [hf]; exact hr.walkBack ha hb⟩

/-! ## Listed PCs -/

theorem spelled_toNat {n : ℕ} (hn : n < 0x20000000) : (overlayCodeSegment ||| BitVec.ofNat 32 n).toNat = 2 ^ 31 + n := by
  have h := Nat.two_pow_add_eq_or_of_lt (i := 31) (b := n) (by omega) 1
  rw [BitVec.toNat_or, BitVec.toNat_ofNat, Nat.mod_eq_of_lt (by omega)]
  simpa [overlayCodeSegment] using h.symm

theorem mem_listedPcs {phys pcHi : ℕ} {seen : ℕ → Bool} (hphys : phys % 4 = 0) {a : Word} :
    a ∈ listedPcs overlayCodeSegment phys pcHi seen ↔
      ∃ n, phys ≤ n ∧ n < pcHi ∧ n % 4 = 0 ∧ seen (n / 4) = true ∧ a = overlayCodeSegment ||| BitVec.ofNat 32 n := by
  simp only [listedPcs, List.mem_map, List.mem_filter, List.mem_range]
  constructor
  · rintro ⟨i, ⟨hi, hs⟩, rfl⟩
    refine ⟨phys + 4 * i, by omega, by omega, by omega, ?_, rfl⟩
    have e : (phys + 4 * i) / 4 = phys / 4 + i := by omega
    rw [e]; exact hs
  · rintro ⟨n, h1, h2, h3, h4, rfl⟩
    refine ⟨(n - phys) / 4, ⟨by omega, ?_⟩, ?_⟩
    · have e : phys / 4 + (n - phys) / 4 = n / 4 := by omega
      rw [e]; exact h4
    · have e : phys + 4 * ((n - phys) / 4) = n := by omega
      rw [e]

theorem mem_listedPcs_spelled {phys pcHi : ℕ} {seen : ℕ → Bool} {n : ℕ} (hphys : phys % 4 = 0) (hn : n < 0x20000000)
    (hhi : pcHi ≤ 0x20000000) :
    overlayCodeSegment ||| BitVec.ofNat 32 n ∈ listedPcs overlayCodeSegment phys pcHi seen ↔
      phys ≤ n ∧ n < pcHi ∧ n % 4 = 0 ∧ seen (n / 4) = true := by
  rw [mem_listedPcs hphys]
  constructor
  · rintro ⟨m, h1, h2, h3, h4, h5⟩
    have e := congrArg BitVec.toNat h5
    rw [spelled_toNat hn, spelled_toNat (by omega)] at e
    have e : n = m := by omega
    subst e
    exact ⟨h1, h2, h3, h4⟩
  · rintro ⟨h1, h2, h3, h4⟩
    exact ⟨n, h1, h2, h3, h4, rfl⟩

/-! ## Regions of runs -/

/-- The word after a run within RAM is its guard. -/
def guardOf (j : CaptureJob) (b : ℕ) : ℕ := if b * 4096 ≤ j.geometry.size.toNat - 4 then 4 else 0

def regionOf (j : CaptureJob) (a b : ℕ) : Region where
  loadAddr := overlayCodeSegment ||| canonicalOffset j.geometry (BitVec.ofNat 32 (a * 4096))
  size := (b - a) * 4096 + guardOf j b
  guardBytes := guardOf j b
  bytes := bytesAt j.ram (BitVec.ofNat 32 (a * 4096)) (BitVec.ofNat 32 ((b - a) * 4096 + guardOf j b))
  executedPcs := listedPcs overlayCodeSegment (a * 4096) (b * 4096) j.execPc.bit
  dispatchEntryPcs := listedPcs overlayCodeSegment (a * 4096) (b * 4096) j.dispatchPc.bit
  dispatchEntrySegments := fun seg => listedPcs (codeSegmentBase seg) (a * 4096) (b * 4096) fun i =>
    j.dispatchPc.bit i && (j.dispatchSeg seg).bit i
  seeds := listedPcs overlayCodeSegment (a * 4096) (b * 4096) j.dispatchPc.bit

theorem captureRun_eq (j : CaptureJob) {a b : ℕ} (hab : a < b) :
    captureRun j (a, b) =
      if (regionOf j a b).dispatchEntryPcs = [] ∧ (regionOf j a b).executedPcs = [] then none
      else some (regionOf j a b) := by
  have hguard : (if a * 4096 ≤ j.geometry.size.toNat ∧ (b - a) * 4096 ≤ j.geometry.size.toNat - a * 4096 ∧
      a * 4096 + (b - a) * 4096 ≤ j.geometry.size.toNat - 4 then 4 else 0) = guardOf j b := by
    unfold guardOf
    refine if_congr ⟨fun h => by omega, fun h => by omega⟩ rfl rfl
  have hend : a * 4096 + ((b - a) * 4096 + guardOf j b) - guardOf j b = b * 4096 := by omega
  simp only [captureRun, hguard, hend, List.length_eq_zero_iff]
  rfl

theorem mem_regionOf {j : CaptureJob} {a b n : ℕ} (hn : n < 0x20000000) (hb : b ≤ 0x20000) :
    (overlayCodeSegment ||| BitVec.ofNat 32 n ∈ (regionOf j a b).executedPcs ↔
      a * 4096 ≤ n ∧ n < b * 4096 ∧ n % 4 = 0 ∧ j.execPc.bit (n / 4) = true) ∧
    (overlayCodeSegment ||| BitVec.ofNat 32 n ∈ (regionOf j a b).dispatchEntryPcs ↔
      a * 4096 ≤ n ∧ n < b * 4096 ∧ n % 4 = 0 ∧ j.dispatchPc.bit (n / 4) = true) :=
  ⟨mem_listedPcs_spelled (by omega) hn (Nat.mul_le_mul_right 4096 hb),
    mem_listedPcs_spelled (by omega) hn (Nat.mul_le_mul_right 4096 hb)⟩

/-- A run is left out only without evidence. -/
theorem captureRun_none {j : CaptureJob} {a b : ℕ} (hab : a < b) (hb : b ≤ 0x20000)
    (h : captureRun j (a, b) = none) {n : ℕ} (ha : a * 4096 ≤ n) (hnb : n < b * 4096) (h4 : n % 4 = 0) :
    j.execPc.bit (n / 4) = false ∧ j.dispatchPc.bit (n / 4) = false := by
  rw [captureRun_eq j hab] at h
  split_ifs at h with he
  have hm := mem_regionOf (j := j) (a := a) (n := n) (by omega) hb
  rw [he.1, he.2] at hm
  simpa [ha, hnb, h4] using hm

/-! ## The loader's view -/

/-- The loader sees the floor and the dirty pages that the capture worked on. -/
structure SameView (s : Runtime) (j : CaptureJob) : Prop where
  floor : s.settings.regionFloor = j.regionFloor
  dirty : ∀ page < livePages j.geometry, s.dirty page = j.bitmap.bit page

/-- The region of a PC: the loader's key, with the instruction and its delay slot among the bytes. -/
structure ServedBy (s : Runtime) (j : CaptureJob) (pc : Word) (r : Region) : Prop where
  key : r.loadAddr &&& 0x1FFFFFFF = regionStartOf s pc
  code : ∀ i, i < (if pc + 4 = j.geometry.size then 4 else 8) →
    r.bytes[(pc - regionStartOf s pc).toNat + i]? = some (j.ram (pc + BitVec.ofNat 32 i))

theorem walkBack_congr {f g : ℕ → Bool} (lo p : ℕ) (h : ∀ q < p, f q = g q) : walkBack f lo p = walkBack g lo p := by
  induction p with
  | zero => rfl
  | succ p ih =>
    rw [walkBack, walkBack, h p (Nat.lt_succ_self p), ih fun q hq => h q (by omega)]

theorem SameView.regionStart {s : Runtime} {j : CaptureJob} (h : SameView s j) {pc : Word} (hpc : pc < j.geometry.size) :
    regionStartOf s pc =
      BitVec.ofNat 32 (walkBack j.bitmap.bit (floorPage j.regionFloor pc) (pageOf pc) * 4096) := by
  have hlive := pageOf_lt_livePages hpc
  rw [regionStartOf, h.floor, walkBack_congr _ _ fun q hq => h.dirty q (by omega)]

theorem filter_filterMap_single {α β : Type} {f : α → Option β} {p : β → Bool} {l : List α} {R : α → α → Prop}
    {x : α} {y : β} (hl : l.Pairwise R) (hx : x ∈ l) (hfx : f x = some y) (hp : p y = true)
    (hR : ∀ z ∈ l, R x z ∨ R z x → ∀ w, f z = some w → p w = false) : (l.filterMap f).filter p = [y] := by
  obtain ⟨l1, l2, rfl⟩ := List.append_of_mem hx
  have hnil : ∀ l' : List α, (∀ z ∈ l', z ∈ l1 ++ x :: l2 ∧ (R x z ∨ R z x)) → (l'.filterMap f).filter p = [] := by
    intro l' h
    rw [List.filter_eq_nil_iff]
    intro w hw
    obtain ⟨z, hz, hfz⟩ := List.mem_filterMap.1 hw
    rw [hR z (h z hz).1 (h z hz).2 w hfz]
    exact Bool.false_ne_true
  obtain ⟨h1, h2, h3⟩ := List.pairwise_append.1 hl
  rw [List.filterMap_append, List.filter_append, hnil l1 fun z hz => ⟨List.mem_append_left _ hz, Or.inr (h3 z hz x List.mem_cons_self)⟩,
    List.filterMap_cons, hfx]
  simp only [List.nil_append, List.filter_cons, hp, if_true]
  rw [hnil l2 fun z hz => ⟨by simp [hz], Or.inl ((List.pairwise_cons.1 h2).1 z hz)⟩]

theorem nodup_listedPcs {phys pcHi : ℕ} {seen : ℕ → Bool} (hphys : phys % 4 = 0) (hhi : pcHi ≤ 0x20000000) :
    (listedPcs overlayCodeSegment phys pcHi seen).Nodup := by
  unfold listedPcs
  refine (List.nodup_range.filter _).map_on fun x hx y hy h => ?_
  have hx := List.mem_range.1 (List.mem_filter.1 hx).1
  have hy := List.mem_range.1 (List.mem_filter.1 hy).1
  have e := congrArg BitVec.toNat h
  rw [spelled_toNat (by omega), spelled_toNat (by omega)] at e
  omega

theorem canonicalOffset_live {g : Geometry} {n : ℕ} (h : n < g.size.toNat) :
    canonicalOffset g (BitVec.ofNat 32 n) = BitVec.ofNat 32 n := by
  apply BitVec.eq_of_toNat_eq
  have hand : ∀ k m : ℕ, m < 2 ^ k → m &&& (2 ^ k - 1) = m := fun k m hm => by
    rw [Nat.and_two_pow_sub_one_eq_mod, Nat.mod_eq_of_lt hm]
  cases g with
  | retail =>
    have h : n < 2 ^ 21 := h
    rw [canonicalOffset, BitVec.toNat_and, BitVec.toNat_and, BitVec.toNat_ofNat, Nat.mod_eq_of_lt (by omega)]
    exact (congrArg (· &&& _) (hand 23 n (by omega))).trans (hand 21 n h)
  | expanded =>
    have h : n < 2 ^ 23 := h
    rw [canonicalOffset, BitVec.toNat_and, BitVec.toNat_and, BitVec.toNat_ofNat, Nat.mod_eq_of_lt (by omega)]
    exact (congrArg (· &&& _) (hand 23 n (by omega))).trans (hand 23 n h)

theorem spelled_strip {n : ℕ} (hn : n < 0x20000000) :
    (overlayCodeSegment ||| BitVec.ofNat 32 n) &&& 0x1FFFFFFF = BitVec.ofNat 32 n := by
  apply BitVec.eq_of_toNat_eq
  rw [BitVec.toNat_and, spelled_toNat hn, BitVec.toNat_ofNat, Nat.mod_eq_of_lt (by omega)]
  have h := Nat.and_two_pow_sub_one_eq_mod (2 ^ 31 + n) 29
  have e : (2 ^ 31 + n) % 0x20000000 = n := by omega
  exact h.trans e

theorem regionOf_size_lt (j : CaptureJob) {a b : ℕ} (hb : b ≤ 0x20000) : (b - a) * 4096 + guardOf j b < 2 ^ 32 := by
  unfold guardOf
  split_ifs <;> omega

theorem regionOf_served {s : Runtime} {j : CaptureJob} (hsame : SameView s j) {pc : Word} (hpc : pc < j.geometry.size)
    (h4 : pc.toNat % 4 = 0) {a b : ℕ} (ha : a ≤ pageOf pc) (hb : pageOf pc < b) (hbw : b ≤ 0x20000)
    (hwalk : walkBack j.bitmap.bit (floorPage j.regionFloor pc) (pageOf pc) = a) :
    ServedBy s j pc (regionOf j a b) := by
  have hkey : regionStartOf s pc = BitVec.ofNat 32 (a * 4096) := by rw [hsame.regionStart hpc, hwalk]
  clear hwalk
  have hsize := BitVec.lt_def.1 hpc
  unfold pageOf at ha hb
  have hle : a * 4096 ≤ pc.toNat := by omega
  have hword : a * 4096 < 2 ^ 32 := by omega
  constructor
  · rw [hkey]
    show (overlayCodeSegment ||| canonicalOffset j.geometry (BitVec.ofNat 32 (a * 4096))) &&& 0x1FFFFFFF = _
    rw [canonicalOffset_live (by omega), spelled_strip (by omega)]
  · intro i hi
    have hat : (pc - regionStartOf s pc).toNat = pc.toNat - a * 4096 := by
      rw [hkey, BitVec.toNat_sub_of_le, BitVec.toNat_ofNat, Nat.mod_eq_of_lt hword]
      rw [BitVec.le_def, BitVec.toNat_ofNat, Nat.mod_eq_of_lt hword]
      exact hle
    have hguard : guardOf j b ≤ 4 := by unfold guardOf; split_ifs <;> omega
    have hin : pc.toNat - a * 4096 + i < (b - a) * 4096 + guardOf j b := by
      split_ifs at hi with hlast
      · omega
      · have hne : pc.toNat + 4 ≠ j.geometry.size.toNat := fun e => hlast (BitVec.eq_of_toNat_eq (by
          have hlt : j.geometry.size.toNat < 2 ^ 32 := j.geometry.size.isLt
          rw [BitVec.toNat_add, ← e]
          exact Nat.mod_eq_of_lt (e ▸ hlt)))
        have hpages := livePages_mul j.geometry
        unfold guardOf
        split_ifs <;> omega
    show (bytesAt j.ram _ _)[_]? = _
    rw [hat, bytesAt, List.getElem?_map, List.getElem?_range (by
      rw [BitVec.toNat_ofNat, Nat.mod_eq_of_lt (regionOf_size_lt j hbw)]; exact hin)]
    simp only [Option.map_some, Option.some.injEq]
    congr 1
    apply BitVec.eq_of_toNat_eq
    simp only [BitVec.toNat_add, BitVec.toNat_ofNat]
    omega

/-- A list of the regions that reports one bitmap. -/
theorem listed_once {s : Runtime} {j : CaptureJob} {game : Option FloorConfig} (hfloor : j.regionFloor = pinnedFloor game)
    (hsame : SameView s j) {pc : Word} (hpc : pc < j.geometry.size) (h4 : pc.toNat % 4 = 0)
    (hd : j.bitmap.bit (pageOf pc) = true) (field : Region → List Word) (seen : ℕ → Bool)
    (hfield : ∀ a b, field (regionOf j a b) = listedPcs overlayCodeSegment (a * 4096) (b * 4096) seen)
    (hseen : seen (pc.toNat / 4) = true)
    (hev : j.execPc.bit (pc.toNat / 4) = true ∨ j.dispatchPc.bit (pc.toNat / 4) = true) :
    ∃ r, (writeJsonSnapshot j).filter (fun r => overlayCodeSegment ||| pc ∈ field r) = [r] ∧
      (field r).count (overlayCodeSegment ||| pc) = 1 ∧ ServedBy s j pc r := by
  obtain ⟨hlo, hhi⟩ := pinnedFloor_spec game
  rw [← hfloor] at hlo hhi
  obtain ⟨w, hw, a, b, hrun, ha, hb, hwalk⟩ := exists_run hpc hd
  have hbw := hrun.bound hhi hw
  have hserved := regionOf_served hsame hpc h4 ha hb hbw hwalk
  clear hwalk
  have hle : a * 4096 ≤ pc.toNat := by unfold pageOf at ha; omega
  have hlt : pc.toNat < b * 4096 := by unfold pageOf at hb; omega
  have hmem : ∀ c d, d ≤ 0x20000 → (overlayCodeSegment ||| pc ∈ field (regionOf j c d) ↔
      c ≤ pageOf pc ∧ pageOf pc < d) := by
    intro c d hdw
    have h := @mem_listedPcs_spelled (c * 4096) (d * 4096) seen pc.toNat (show c * 4096 % 4 = 0 by omega)
      (show pc.toNat < 0x20000000 by omega) (Nat.mul_le_mul_right 4096 hdw)
    rw [BitVec.ofNat_toNat, BitVec.setWidth_eq] at h
    rw [hfield, h]
    unfold pageOf
    rw [Nat.le_div_iff_mul_le (by decide), Nat.div_lt_iff_lt_mul (by decide)]
    exact ⟨fun h => ⟨h.1, h.2.1⟩, fun h => ⟨h.1, h.2, h4, hseen⟩⟩
  have hsome : captureRun j (a, b) = some (regionOf j a b) := by
    have hnone := fun h : captureRun j (a, b) = none => captureRun_none hrun.lt hbw h hle hlt h4
    rw [captureRun_eq j hrun.lt] at hnone ⊢
    split_ifs at hnone ⊢
    · obtain ⟨h1, h2⟩ := hnone rfl
      rw [h1, h2] at hev
      simp at hev
    · rfl
  refine ⟨regionOf j a b, ?_, ?_, hserved⟩
  · rw [writeJsonSnapshot_eq]
    refine filter_filterMap_single (allRuns_ordered hlo) (mem_allRuns.2 ⟨w, hw, hrun⟩) hsome ?_ ?_
    · exact decide_eq_true ((hmem a b hbw).2 ⟨ha, hb⟩)
    · rintro ⟨c, d⟩ hz hord r hr
      obtain ⟨w', hw', hrun'⟩ := mem_allRuns.1 hz
      rw [captureRun_eq j hrun'.lt] at hr
      split_ifs at hr
      obtain rfl := Option.some.inj hr
      rw [decide_eq_false_iff_not, hmem c d (hrun'.bound hhi hw')]
      simp only [] at hord
      omega
  · refine List.count_eq_one_of_mem ?_ ((hmem a b hbw).2 ⟨ha, hb⟩)
    rw [hfield]
    exact nodup_listedPcs (by omega) (Nat.mul_le_mul_right 4096 hbw)

/-- Every evident PC is in exactly one captured region, and that is the region under which the loader looks. -/
theorem capture_meets_loader (s : Runtime) (j : CaptureJob) (game : Option FloorConfig)
    (hfloor : j.regionFloor = pinnedFloor game) (hsame : SameView s j) :
    (∀ pc : Word, pc < j.geometry.size → pc.toNat % 4 = 0 → j.bitmap.bit (pageOf pc) = true →
      (j.execPc.bit (pc.toNat / 4) = true → ∃ r,
        (writeJsonSnapshot j).filter (fun r => overlayCodeSegment ||| pc ∈ r.executedPcs) = [r] ∧
          r.executedPcs.count (overlayCodeSegment ||| pc) = 1 ∧ ServedBy s j pc r) ∧
      (j.dispatchPc.bit (pc.toNat / 4) = true → ∃ r,
        (writeJsonSnapshot j).filter (fun r => overlayCodeSegment ||| pc ∈ r.dispatchEntryPcs) = [r] ∧
          r.dispatchEntryPcs.count (overlayCodeSegment ||| pc) = 1 ∧ ServedBy s j pc r)) ∧
    (∀ r ∈ writeJsonSnapshot j, r.guardBytes ≠ 0 → ∀ a ∈ r.executedPcs ++ r.dispatchEntryPcs,
      a.toNat + 4 + r.guardBytes ≤ r.loadAddr.toNat + r.size) ∧
    ∀ w ∈ captureWindows j, ∀ a b, IsRun j.bitmap.bit w.1 w.2 a b →
      (∃ r ∈ writeJsonSnapshot j, r.size = (b - a) * 4096 + r.guardBytes ∧
        r.loadAddr = overlayCodeSegment ||| canonicalOffset j.geometry (BitVec.ofNat 32 (a * 4096))) ∨
        ∀ n, a * 4096 ≤ n → n < b * 4096 → n % 4 = 0 →
          j.execPc.bit (n / 4) = false ∧ j.dispatchPc.bit (n / 4) = false := by
  obtain ⟨hlo, hhi⟩ := pinnedFloor_spec game
  rw [← hfloor] at hlo hhi
  refine ⟨fun pc hpc h4 hd => ⟨fun he => ?_, fun he => ?_⟩, fun r hr hg a ha => ?_, fun w hw a b hrun => ?_⟩
  · exact listed_once hfloor hsame hpc h4 hd Region.executedPcs j.execPc.bit (fun _ _ => rfl) he (Or.inl he)
  · exact listed_once hfloor hsame hpc h4 hd Region.dispatchEntryPcs j.dispatchPc.bit (fun _ _ => rfl) he (Or.inr he)
  · rw [writeJsonSnapshot_eq] at hr
    obtain ⟨⟨c, d⟩, hz, hcd⟩ := List.mem_filterMap.1 hr
    obtain ⟨w, hw, hrun⟩ := mem_allRuns.1 hz
    have hbw := hrun.bound hhi hw
    have hlt := hrun.lt
    rw [captureRun_eq j hlt] at hcd
    split_ifs at hcd
    obtain rfl := Option.some.inj hcd
    have hlive : d * 4096 ≤ j.geometry.size.toNat - 4 ∧ (regionOf j c d).guardBytes = 4 := by
      simp only [regionOf, guardOf] at hg ⊢
      split_ifs at hg ⊢ with h
      · exact ⟨h, rfl⟩
      · exact absurd rfl hg
    have hbase : (regionOf j c d).loadAddr.toNat = 2 ^ 31 + c * 4096 := by
      show (overlayCodeSegment ||| canonicalOffset j.geometry (BitVec.ofNat 32 (c * 4096))).toNat = _
      rw [canonicalOffset_live (by omega), spelled_toNat (by omega)]
    have hsz : (regionOf j c d).size = (d - c) * 4096 + (regionOf j c d).guardBytes := rfl
    have hin : ∃ n, c * 4096 ≤ n ∧ n < d * 4096 ∧ n % 4 = 0 ∧ a = overlayCodeSegment ||| BitVec.ofNat 32 n := by
      rcases List.mem_append.1 ha with ha | ha
      · obtain ⟨n, h1, h2, h3, _, h5⟩ := (mem_listedPcs (by omega)).1 ha
        exact ⟨n, h1, h2, h3, h5⟩
      · obtain ⟨n, h1, h2, h3, _, h5⟩ := (mem_listedPcs (by omega)).1 ha
        exact ⟨n, h1, h2, h3, h5⟩
    obtain ⟨n, h1, h2, h3, rfl⟩ := hin
    rw [spelled_toNat (by omega), hbase, hsz]
    omega
  · cases hcap : captureRun j (a, b) with
    | none => exact Or.inr fun n h1 h2 h3 => captureRun_none hrun.lt (hrun.bound hhi hw) hcap h1 h2 h3
    | some r =>
      refine Or.inl ⟨r, ?_, ?_⟩
      · rw [writeJsonSnapshot_eq]
        exact List.mem_filterMap.2 ⟨(a, b), mem_allRuns.2 ⟨w, hw, hrun⟩, hcap⟩
      · rw [captureRun_eq j hrun.lt] at hcap
        split_ifs at hcap
        obtain rfl := Option.some.inj hcap
        exact ⟨rfl, rfl⟩

/-- A boot-text page and the overlay page behind it, with one PC at the end of the first. -/
def borderJob : CaptureJob where
  geometry := .retail
  regionFloor := 0x00098000
  bitmap := fun i => if i = 4 then 0x01800000 else 0
  dispatchPc := fun _ => 0
  dispatchSeg := fun _ _ => 0
  execPc := fun i => if i = 0x12FF then 0x80000000 else 0
  ram := fun _ => 0

def borderRuntime : Runtime :=
  Runtime.start ⟨true, false, 0x00098000, 0x00010000, false, false, true, fun _ => false, 1⟩
    ⟨.retail, fun _ => 0, fun _ => false, fun _ => 0⟩ borderJob.bitmap.bit
    ⟨[], fun _ => none, fun _ => none, fun _ => false, fun _ => none⟩

theorem capture_meets_loader_border : ∃ r,
    (writeJsonSnapshot borderJob).filter (fun r => overlayCodeSegment ||| 0x00097FFC ∈ r.executedPcs) = [r] ∧
      r.executedPcs.count (overlayCodeSegment ||| 0x00097FFC) = 1 ∧ ServedBy borderRuntime borderJob 0x00097FFC r :=
  ((capture_meets_loader borderRuntime borderJob none rfl ⟨rfl, fun _ _ => rfl⟩).1 0x00097FFC (by decide) (by decide)
    (by decide)).1 (by decide)

end PsxRecomp.Overlays
