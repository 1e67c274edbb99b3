import PsxRecomp.Mods.DiscSector

/-! When a sector is patched as a whole: a raw read applies the raw claims before the guards of the
user window have been checked, and a user read the derived-disc patches before any guard. -/
namespace PsxRecomp.Mods
open Cells MemoryEdit
set_option autoImplicit false

/-! ## Bytes of a sector -/

/-- The bytes of a sector among those of the disc, by their offset in it. -/
def sectorCells (t : PatchTarget) (lba : ℕ) (cells : List (Place × Byte)) : List (ℕ × Byte) :=
  cells.filterMap fun c =>
    if c.1.1 = t ∧ c.1.2 / sectorSize t = lba then some (c.1.2 - lba * sectorSize t, c.2) else none

def DiscPlan.cells (plan : DiscPlan) : List (Place × Byte) :=
  plan.writes.flatMap Write.cells ++ plan.overlays.flatMap Overlay.cells

def DiscPlan.guardCells (plan : DiscPlan) : List (Place × Byte) :=
  plan.writes.flatMap Write.guardCells

/-- The buffer holds what the cells say. -/
def Holds (cells : List (ℕ × Byte)) (buf : Buffer) : Prop := ∀ c ∈ cells, buf c.1 = c.2

instance (cells : List (ℕ × Byte)) (buf : Buffer) : Decidable (Holds cells buf) :=
  inferInstanceAs (Decidable (∀ c ∈ cells, buf c.1 = c.2))

theorem mem_sectorCells {t : PatchTarget} {lba : ℕ} {cells : List (Place × Byte)} {p : ℕ}
    {v : Byte} : (p, v) ∈ sectorCells t lba cells ↔
      p < sectorSize t ∧ ((t, lba * sectorSize t + p), v) ∈ cells := by
  have hpos := sectorSize_pos t
  unfold sectorCells
  simp only [List.mem_filterMap, Option.ite_none_right_eq_some, Option.some.injEq, Prod.mk.injEq]
  constructor
  · rintro ⟨⟨⟨t', at'⟩, v'⟩, hm, ⟨ht, hl⟩, hp, hv⟩
    dsimp only at ht hl hp hv
    have hdiv := Nat.div_add_mod at' (sectorSize t)
    have hmod := Nat.mod_lt at' hpos
    rw [hl, Nat.mul_comm] at hdiv
    refine ⟨by omega, ?_⟩
    rw [show lba * sectorSize t + p = at' by omega, ← ht, ← hv]
    exact hm
  · rintro ⟨hp, hm⟩
    refine ⟨_, hm, ⟨rfl, ?_⟩, Nat.add_sub_cancel_left .., rfl⟩
    rw [Nat.mul_comm, Nat.mul_add_div hpos, Nat.div_eq_of_lt hp, Nat.add_zero]

theorem sectorCells_consistent (plan : DiscPlan) (t : PatchTarget) (lba : ℕ) :
    Consistent (sectorCells t lba plan.cells) := by
  intro p v u hv hu
  rw [mem_sectorCells] at hv hu
  exact plan.consistent _ v u hv.2 hu.2

/-! ## Copies -/

theorem mem_mapIdx_at {off : ℕ} {src : List Byte} {p : ℕ} {v : Byte} :
    (p, v) ∈ src.mapIdx (fun i v => (off + i, v)) ↔ off ≤ p ∧ src[p - off]? = some v := by
  rw [List.mem_mapIdx]
  constructor
  · rintro ⟨i, hi, he⟩
    simp only [Prod.mk.injEq] at he
    obtain ⟨rfl, rfl⟩ := he
    rw [Nat.add_sub_cancel_left, List.getElem?_eq_getElem hi]
    exact ⟨Nat.le_add_right _ _, rfl⟩
  · rintro ⟨hle, hv⟩
    obtain ⟨hi, hv⟩ := List.getElem?_eq_some_iff.1 hv
    refine ⟨p - off, hi, ?_⟩
    rw [hv, Nat.add_sub_cancel' hle]

/-- The bytes `copyRange` copies. -/
def rangeCells (base size location : ℕ) (bytes : List Byte) : List (ℕ × Byte) :=
  let first := max base location
  let stop := min (base + size) (location + bytes.length)
  if first < stop then
    ((bytes.drop (first - location)).take (stop - first)).mapIdx fun i v => (first - base + i, v)
  else []

theorem copyRange_eq (base size location : ℕ) (bytes : List Byte) (buf : Buffer) :
    copyRange base size location bytes buf = paint buf (rangeCells base size location bytes) := by
  unfold copyRange rangeCells copyTo
  dsimp only
  split <;> rfl

theorem mem_rangeCells {base size location : ℕ} {bytes : List Byte} {p : ℕ} {v : Byte} :
    (p, v) ∈ rangeCells base size location bytes ↔
      p < size ∧ location ≤ base + p ∧ bytes[base + p - location]? = some v := by
  unfold rangeCells
  dsimp only
  split
  case isTrue h =>
    rw [mem_mapIdx_at, List.getElem?_take]
    constructor
    · rintro ⟨h1, h2⟩
      split at h2
      case isTrue hlt =>
        rw [List.getElem?_drop] at h2
        refine ⟨by omega, by omega, ?_⟩
        rw [← h2]
        congr 1
        omega
      case isFalse => cases h2
    · rintro ⟨h1, h2, h3⟩
      obtain ⟨hlen, -⟩ := List.getElem?_eq_some_iff.1 h3
      refine ⟨by omega, ?_⟩
      rw [if_pos (by omega), List.getElem?_drop, ← h3]
      congr 1
      omega
  case isFalse h =>
    refine iff_of_false List.not_mem_nil ?_
    rintro ⟨h1, h2, h3⟩
    obtain ⟨hlen, -⟩ := List.getElem?_eq_some_iff.1 h3
    omega

/-- The bytes a write changes in a sector. -/
def writeCells (base size : ℕ) (w : Write) : List (ℕ × Byte) :=
  if skipsWrite base size w then []
  else if w.fields = [] then w.replacement.mapIdx fun i v => (w.location - base + i, v)
  else w.fields.flatMap fun f => f.replacement.mapIdx fun i v => (w.location - base + f.offset + i, v)

theorem applyDiscWrite_eq (base size : ℕ) (buf : Buffer) (w : Write) :
    applyDiscWrite base size buf w = paint buf (writeCells base size w) := by
  unfold applyDiscWrite writeCells
  split
  case isTrue => rfl
  case isFalse =>
    split
    case isTrue => rfl
    case isFalse => exact paint_flatMap _ _ _

/-! ## The claims of one target -/

section Claims

variable (plan : DiscPlan) {t : PatchTarget} (ht : t ≠ .mainExe) (lba : BitVec 32)
include ht

/-- A disc write lies in its sector. -/
theorem discIndex_spec {w : Write} (hw : w ∈ discIndex plan.writes t lba.toNat) :
    w ∈ plan.writes ∧ w.target = t ∧ lba.toNat * sectorSize t ≤ w.location ∧
      w.location + w.expected.length ≤ lba.toNat * sectorSize t + sectorSize t := by
  simp only [discIndex, List.mem_filter, decide_eq_true_eq] at hw
  obtain ⟨hwm, rfl, hl⟩ := hw
  obtain ⟨h1, h2⟩ := plan.inSector w hwm ht
  rw [Nat.mod_eq_of_lt h2] at hl
  have hdiv := Nat.div_add_mod w.location (sectorSize w.target)
  rw [hl, Nat.mul_comm] at hdiv
  exact ⟨hwm, rfl, by omega, by omega⟩

theorem not_skipped {w : Write} (hw : w ∈ discIndex plan.writes t lba.toNat) :
    skipsWrite (lba.toNat * sectorSize t) (sectorSize t) w = false := by
  obtain ⟨-, -, h1, h2⟩ := discIndex_spec plan ht lba hw
  simp only [skipsWrite, decide_eq_false_iff_not, not_or]
  omega

/-- A write that guards a byte of the sector is in the index. -/
theorem mem_discIndex {w : Write} (hw : w ∈ plan.writes) (hwt : w.target = t) {p : ℕ}
    (hp : p < sectorSize t) (h1 : w.location ≤ lba.toNat * sectorSize t + p)
    (h2 : lba.toNat * sectorSize t + p < w.location + w.expected.length) :
    w ∈ discIndex plan.writes t lba.toNat := by
  subst hwt
  obtain ⟨h3, h4⟩ := plan.inSector w hw ht
  have hpos := sectorSize_pos w.target
  have hdiv := Nat.div_add_mod w.location (sectorSize w.target)
  have hl : w.location / sectorSize w.target = lba.toNat := by
    have hlow : w.location / sectorSize w.target * sectorSize w.target ≤
        lba.toNat * sectorSize w.target + p := by
      rw [Nat.mul_comm] at hdiv
      omega
    have hhigh : lba.toNat * sectorSize w.target + p <
        w.location / sectorSize w.target * sectorSize w.target + sectorSize w.target := by
      rw [Nat.mul_comm] at hdiv
      omega
    have ha : w.location / sectorSize w.target < lba.toNat + 1 := by
      refine Nat.lt_of_mul_lt_mul_right (a := sectorSize w.target) ?_
      rw [Nat.succ_mul]
      omega
    have hb : lba.toNat < w.location / sectorSize w.target + 1 := by
      refine Nat.lt_of_mul_lt_mul_right (a := sectorSize w.target) ?_
      rw [Nat.succ_mul]
      omega
    omega
  simp only [discIndex, List.mem_filter, decide_eq_true_eq]
  refine ⟨hw, trivial, ?_⟩
  rw [Nat.mod_eq_of_lt h4, hl]

theorem mem_writeCells {w : Write} (hw : w ∈ discIndex plan.writes t lba.toNat) {p : ℕ} {v : Byte} :
    (p, v) ∈ writeCells (lba.toNat * sectorSize t) (sectorSize t) w ↔
      ((t, lba.toNat * sectorSize t + p), v) ∈ w.cells := by
  obtain ⟨-, hwt, h1, -⟩ := discIndex_spec plan ht lba hw
  have hat : ∀ (o : ℕ) (bytes : List Byte),
      (p, v) ∈ bytes.mapIdx (fun i v => (w.location - lba.toNat * sectorSize t + o + i, v)) ↔
        ((t, lba.toNat * sectorSize t + p), v) ∈ cellsOf w.target (w.location + o) bytes := by
    intro o bytes
    rw [mem_mapIdx_at, mem_cellsOf]
    dsimp only
    constructor
    · rintro ⟨h2, h3⟩
      refine ⟨hwt.symm, by omega, ?_⟩
      rw [← h3]
      congr 1
      omega
    · rintro ⟨-, h2, h3⟩
      refine ⟨by omega, ?_⟩
      rw [← h3]
      congr 1
      omega
  unfold writeCells Write.cells Write.ownedSpans
  rw [if_neg (by rw [not_skipped plan ht lba hw]; decide)]
  split
  case isTrue => simpa using hat 0 w.replacement
  case isFalse =>
    rw [List.flatMap_map, List.mem_flatMap, List.mem_flatMap]
    exact exists_congr fun f => and_congr_right fun _ => hat f.offset f.replacement

/-- The guard loop compares the guarded bytes of the sector. -/
theorem guardsPass_iff (buf : Buffer) :
    guardsPass (lba.toNat * sectorSize t) (sectorSize t) (discIndex plan.writes t lba.toNat) buf = true ↔
      Holds (sectorCells t lba.toNat plan.guardCells) buf := by
  unfold guardsPass
  rw [List.all_eq_true]
  constructor
  · rintro h ⟨p, e⟩ hc
    obtain ⟨hp, hm⟩ := mem_sectorCells.1 hc
    obtain ⟨w, hw, hm⟩ := List.mem_flatMap.1 hm
    obtain ⟨hwt, h1, h2⟩ := mem_cellsOf.1 hm
    dsimp only at hwt h1 h2
    obtain ⟨hlen, -⟩ := List.getElem?_eq_some_iff.1 h2
    have hwi := mem_discIndex plan ht lba hw hwt.symm hp h1 (by omega)
    have hg := h w hwi
    rw [not_skipped plan ht lba hwi, Bool.false_or, sameBytes, List.all_eq_true] at hg
    obtain ⟨-, -, hbase, -⟩ := discIndex_spec plan ht lba hwi
    have hmem : (p, e) ∈ w.expected.mapIdx
        (fun i v => (w.location - lba.toNat * sectorSize t + i, v)) := by
      rw [mem_mapIdx_at]
      refine ⟨by omega, ?_⟩
      rw [← h2]
      congr 1
      omega
    exact of_decide_eq_true (hg (p, e) hmem)
  · intro h w hwi
    rw [not_skipped plan ht lba hwi, Bool.false_or, sameBytes, List.all_eq_true]
    rintro ⟨p, e⟩ hm
    obtain ⟨hw, hwt, hbase, hend⟩ := discIndex_spec plan ht lba hwi
    obtain ⟨h1, h2⟩ := mem_mapIdx_at.1 hm
    obtain ⟨hlen, -⟩ := List.getElem?_eq_some_iff.1 h2
    refine decide_eq_true (h (p, e) (mem_sectorCells.2 ⟨by omega, ?_⟩))
    refine List.mem_flatMap.2 ⟨w, hw, mem_cellsOf.2 ⟨hwt.symm, by dsimp only; omega, ?_⟩⟩
    dsimp only
    rw [← h2]
    congr 1
    omega

/-- What the loops copy is what the plan owns in the sector. -/
theorem mem_applied {p : ℕ} {v : Byte} :
    (p, v) ∈ (discIndex plan.writes t lba.toNat).flatMap
        (writeCells (lba.toNat * sectorSize t) (sectorSize t)) ++
      (overlayIndex plan.overlays t lba.toNat).flatMap
        (fun o => rangeCells (lba.toNat * sectorSize t) (sectorSize t) o.location o.payload) ↔
      (p, v) ∈ sectorCells t lba.toNat plan.cells := by
  rw [mem_sectorCells, DiscPlan.cells, List.mem_append, List.mem_append, List.mem_flatMap,
    List.mem_flatMap, List.mem_flatMap, List.mem_flatMap]
  have hlba := lba.isLt
  have hpos := sectorSize_pos t
  constructor
  · rintro (⟨w, hwi, hm⟩ | ⟨o, hoi, hm⟩)
    · obtain ⟨hw, hwt, hbase, hend⟩ := discIndex_spec plan ht lba hwi
      have hc := (mem_writeCells plan ht lba hwi).1 hm
      obtain ⟨s, hs, hx⟩ := List.mem_flatMap.1 hc
      obtain ⟨-, h1, h2⟩ := mem_cellsOf.1 hx
      dsimp only at h1 h2
      obtain ⟨hlen, -⟩ := List.getElem?_eq_some_iff.1 h2
      obtain ⟨-, hlt, -⟩ := span_guard (plan.valid w hw) hs h1 (by omega)
      exact ⟨by omega, Or.inl ⟨w, hw, hc⟩⟩
    · obtain ⟨h1, h2, h3⟩ := mem_rangeCells.1 hm
      simp only [overlayIndex, List.mem_flatMap, List.mem_filter, decide_eq_true_eq,
        List.mem_filterMap, Option.ite_none_right_eq_some, Option.some.injEq] at hoi
      obtain ⟨o', ⟨ho, hot⟩, l, -, -, rfl⟩ := hoi
      exact ⟨h1, Or.inr ⟨o', ho, mem_cellsOf.2 ⟨hot.symm, h2, h3⟩⟩⟩
  · rintro ⟨hp, ⟨w, hw, hm⟩ | ⟨o, ho, hm⟩⟩
    · obtain ⟨s, hs, hx⟩ := List.mem_flatMap.1 hm
      obtain ⟨hwt, h1, h2⟩ := mem_cellsOf.1 hx
      dsimp only at hwt h1 h2
      obtain ⟨hlen, -⟩ := List.getElem?_eq_some_iff.1 h2
      obtain ⟨hge, hlt, -⟩ := span_guard (plan.valid w hw) hs h1 (by omega)
      have hwi := mem_discIndex plan ht lba hw hwt.symm hp hge hlt
      exact Or.inl ⟨w, hwi, (mem_writeCells plan ht lba hwi).2 hm⟩
    · obtain ⟨hot, h1, h2⟩ := mem_cellsOf.1 hm
      dsimp only at hot h1 h2
      obtain ⟨hlen, -⟩ := List.getElem?_eq_some_iff.1 h2
      refine Or.inr ⟨o, ?_, mem_rangeCells.2 ⟨hp, h1, h2⟩⟩
      simp only [overlayIndex, List.mem_flatMap, List.mem_filter, decide_eq_true_eq,
        List.mem_filterMap, Option.ite_none_right_eq_some, Option.some.injEq, List.mem_range'_1]
      have hfirst : o.location / sectorSize t ≤ lba.toNat := by
        refine Nat.lt_succ_iff.1 ((Nat.div_lt_iff_lt_mul hpos).2 ?_)
        rw [Nat.succ_mul]
        omega
      have hlast : lba.toNat ≤ (o.location + o.payload.length - 1) / sectorSize t := by
        refine (Nat.le_div_iff_mul_le hpos).2 ?_
        omega
      exact ⟨o, ⟨ho, hot.symm⟩, lba.toNat, ⟨hfirst, by omega⟩, Nat.mod_eq_of_lt hlba, rfl⟩

/-- The claims of one target: all of them, or a guard failed and the buffer is as it was. -/
theorem applyClaims_spec (buf : Buffer) :
    applyClaims plan t lba.toNat buf =
      if Holds (sectorCells t lba.toNat plan.guardCells) buf then
        (paint buf (sectorCells t lba.toNat plan.cells), false)
      else (buf, true) := by
  have hiff := guardsPass_iff plan ht lba buf
  unfold applyClaims
  dsimp only
  by_cases hg : Holds (sectorCells t lba.toNat plan.guardCells) buf
  · rw [if_pos hg, hiff.2 hg]
    have hw := paint_flatMap (writeCells (lba.toNat * sectorSize t) (sectorSize t))
      (discIndex plan.writes t lba.toNat) buf
    have ho := paint_flatMap
      (fun o : Overlay => rangeCells (lba.toNat * sectorSize t) (sectorSize t) o.location o.payload)
      (overlayIndex plan.overlays t lba.toNat)
      (paint buf ((discIndex plan.writes t lba.toNat).flatMap
        (writeCells (lba.toNat * sectorSize t) (sectorSize t))))
    have hstep : applyDiscWrite (lba.toNat * sectorSize t) (sectorSize t) =
        fun m w => paint m (writeCells (lba.toNat * sectorSize t) (sectorSize t) w) := by
      funext m w
      exact applyDiscWrite_eq _ _ m w
    have hover : applyOverlay (lba.toNat * sectorSize t) (sectorSize t) =
        fun m o => paint m
          (rangeCells (lba.toNat * sectorSize t) (sectorSize t) o.location o.payload) := by
      funext m o
      exact copyRange_eq _ _ _ _ m
    rw [if_neg (by decide), hstep, hover, hw, ho, ← paint_append]
    refine Prod.ext ?_ rfl
    exact (paint_congr (sectorCells_consistent plan t lba.toNat)
      (fun c => (mem_applied plan ht lba (p := c.1) (v := c.2)).symm) buf).symm
  · have hfalse : guardsPass (lba.toNat * sectorSize t) (sectorSize t)
        (discIndex plan.writes t lba.toNat) buf = false :=
      Bool.eq_false_iff.2 fun h => hg (hiff.1 h)
    rw [if_neg hg, hfalse]
    rfl

end Claims

/-! ## One read -/

/-- `patch_committed_disc_sector` -/
def patchSector (S : DiscState) (raw : Bool) (lba : ℕ) (buf : Buffer) : Buffer × Bool :=
  if raw then patchRawSector S lba buf else patchUserSector S lba buf

/-- The bytes of a read among those of the disc: a raw read of logical user data covers the bytes
of the user window as well. -/
def readCells (raw : Bool) (lba : ℕ) (buf : Buffer) (cells : List (Place × Byte)) :
    List (ℕ × Byte) :=
  if raw then
    sectorCells .discRaw lba cells ++
      if mode2Form1 buf then (sectorCells .discUser lba cells).map fun c => (24 + c.1, c.2) else []
  else sectorCells .discUser lba cells

/-- All owned bytes are replaced and no others, or a guard fails and the bytes are as they were. -/
def PatchedOrUntouched (guards owned : List (ℕ × Byte)) (buf : Buffer) (r : Buffer × Bool) : Prop :=
  (Holds guards buf ∧ Painted owned buf r.1 ∧ r.2 = false) ∨
    (¬Holds guards buf ∧ r.1 = buf ∧ r.2 = true)

/-- What patching a sector promises. -/
structure SectorPatched (S : DiscState) (raw : Bool) (lba : ℕ) (buf : Buffer) : Prop where
  whole : PatchedOrUntouched (readCells raw lba buf S.plan.guardCells)
    (readCells raw lba buf S.plan.cells) buf (patchSector S raw lba buf)
  window : raw = true → mode2Form1 buf = true → discIndex S.plan.writes .discRaw lba = [] →
    overlayIndex S.plan.overlays .discRaw lba = [] →
    ∀ p, (patchRawSector S lba buf).1 (24 + p) = (patchUserSector S lba (shift buf 24)).1 p

/-- Contributions are applied until a guard has failed. -/
def DiscState.Open (S : DiscState) : Prop := S.initialized = true ∧ S.discGuardFailed = false

/-! ## When a sector is patched as a whole -/

def derivedCells (S : DiscState) (lba : ℕ) : List (ℕ × Byte) :=
  S.derived.flatMap fun d => rangeCells (lba * 2048) 2048 d.offset d.bytes

/-- What comes before the claims on the user window leaves it as it is. -/
def KeepsWindow (S : DiscState) (lba : ℕ) (raws : List (ℕ × Byte)) (window : Buffer) : Prop :=
  ∀ p v, (lastOf (derivedCells S lba) p).or (lastOf raws p) = some v → v = window p

/-- What comes before the claims on the user window, raw claims and derived patches, brings no byte
that a guard does not expect, none on an owned byte that the plan wants otherwise, and no other byte
that the raw claims do not put there. -/
structure Undisturbed (S : DiscState) (lba : ℕ) (raws : List (ℕ × Byte)) (window : Buffer) :
    Prop where
  guarded : ∀ p e v, (p, e) ∈ sectorCells .discUser lba S.plan.guardCells →
    (lastOf (derivedCells S lba) p).or (lastOf raws p) = some v → v = e
  common : Agree raws (sectorCells .discUser lba S.plan.cells)
  unowned : ∀ p v, (∀ u, (p, u) ∉ sectorCells .discUser lba S.plan.cells) →
    lastOf (derivedCells S lba) p = some v → v = (lastOf raws p).getD (window p)

/-- The raw claims on the user window. -/
def windowCells (cells : List (ℕ × Byte)) : List (ℕ × Byte) :=
  cells.filterMap fun c => if 24 ≤ c.1 then some (c.1 - 24, c.2) else none

/-- The claims on the user window are applied as a whole, behind raw claims that all hold. -/
def WindowWhole (S : DiscState) (lba : ℕ) (raws : List (ℕ × Byte)) (window : Buffer) : Prop :=
  Holds (sectorCells .discUser lba S.plan.guardCells) window ∧
    Undisturbed S lba (windowCells raws) window

/-- The claims on the user window are refused, and nothing has been changed before. -/
def WindowRefused (S : DiscState) (lba : ℕ) (raws : List (ℕ × Byte)) (buf window : Buffer) : Prop :=
  ¬Holds (sectorCells .discUser lba S.plan.guardCells) window ∧
    (∀ c ∈ raws, c.1 < 24 → buf c.1 = c.2) ∧ KeepsWindow S lba (windowCells raws) window

/-- When a sector is patched as a whole. -/
def SectorWhole (S : DiscState) (raw : Bool) (lba : ℕ) (buf : Buffer) : Prop :=
  if raw then
    ¬Holds (sectorCells .discRaw lba S.plan.guardCells) buf ∨ mode2Form1 buf = false ∨
      WindowWhole S lba (sectorCells .discRaw lba S.plan.cells) (shift buf 24) ∨
      WindowRefused S lba (sectorCells .discRaw lba S.plan.cells) buf (shift buf 24)
  else WindowWhole S lba [] buf ∨ WindowRefused S lba [] buf buf

/-- Once a guard has failed nothing is applied any more: right for a sector with a failing guard, or
with nothing left to replace. -/
def SectorClosed (S : DiscState) (raw : Bool) (lba : ℕ) (buf : Buffer) : Prop :=
  (Holds (readCells raw lba buf S.plan.guardCells) buf ∧
      Holds (readCells raw lba buf S.plan.cells) buf ∧ S.discGuardFailed = false) ∨
    (¬Holds (readCells raw lba buf S.plan.guardCells) buf ∧ S.discGuardFailed = true)

section Window

variable (S : DiscState) (lba : BitVec 32)

theorem applyDerived_eq (buf : Buffer) :
    applyDerived S lba.toNat buf = paint buf (derivedCells S lba.toNat) := by
  unfold applyDerived derivedCells
  rw [← paint_flatMap]
  simp only [copyRange_eq]

/-- A read of the user data: the derived patches, then the guards and the claims. -/
theorem patchUserSector_spec (h : S.Open) (buf : Buffer) :
    patchUserSector S lba.toNat buf =
      if Holds (sectorCells .discUser lba.toNat S.plan.guardCells)
          (paint buf (derivedCells S lba.toNat)) then
        (paint (paint buf (derivedCells S lba.toNat)) (sectorCells .discUser lba.toNat S.plan.cells),
          false)
      else (paint buf (derivedCells S lba.toNat), true) := by
  unfold patchUserSector
  rw [if_neg (by simp [h.1, h.2]), applyClaims_spec S.plan (by decide) lba, applyDerived_eq]

theorem shift_paint (buf : Buffer) (cells : List (ℕ × Byte)) :
    shift (paint buf cells) 24 = paint (shift buf 24) (windowCells cells) := by
  induction cells generalizing buf with
  | nil => rfl
  | cons c cells ih =>
    have hstep : paint (shift buf 24) (windowCells (c :: cells)) =
        paint (shift (Function.update buf c.1 c.2) 24) (windowCells cells) := by
      unfold windowCells
      rw [List.filterMap_cons]
      by_cases hc : 24 ≤ c.1
      · rw [if_pos hc]
        dsimp only
        rw [paint_cons]
        congr 1
        funext p
        by_cases hp : p = c.1 - 24
        · rw [hp, Function.update_self, shift, Nat.add_sub_cancel' hc, Function.update_self]
        · rw [Function.update_of_ne hp, shift, shift, Function.update_of_ne (by omega)]
      · rw [if_neg hc]
        dsimp only
        congr 1
        funext p
        rw [shift, shift, Function.update_of_ne (by omega)]
    rw [paint_cons, ih, hstep]

theorem mem_windowCells {cells : List (ℕ × Byte)} {p : ℕ} {v : Byte} :
    (p, v) ∈ windowCells cells ↔ (24 + p, v) ∈ cells := by
  unfold windowCells
  simp only [List.mem_filterMap, Option.ite_none_right_eq_some, Option.some.injEq, Prod.mk.injEq]
  constructor
  · rintro ⟨⟨q, v'⟩, hm, hq, hp, rfl⟩
    dsimp only at hq hp
    rw [show 24 + p = q by omega]
    exact hm
  · intro hm
    exact ⟨_, hm, Nat.le_add_right _ _, Nat.add_sub_cancel_left _ _, rfl⟩

/-- What the derived patches leave where they bring the byte that is there. -/
theorem derived_keeps_iff (window : Buffer) (p : ℕ) :
    paint window (derivedCells S lba.toNat) p = window p ↔
      ∀ v, lastOf (derivedCells S lba.toNat) p = some v → v = window p := by
  rw [paint_eq_lastOf]
  cases lastOf (derivedCells S lba.toNat) p with
  | none => simp
  | some v => simp

/-- What the guards on the user window see. -/
theorem seen_eq (raws : List (ℕ × Byte)) (window : Buffer) (p : ℕ) :
    paint (paint window raws) (derivedCells S lba.toNat) p =
      ((lastOf (derivedCells S lba.toNat) p).or (lastOf raws p)).getD (window p) := by
  rw [paint_eq_lastOf, paint_eq_lastOf]
  cases lastOf (derivedCells S lba.toNat) p <;> rfl

theorem keepsWindow_iff (raws : List (ℕ × Byte)) (window : Buffer) :
    KeepsWindow S lba.toNat raws window ↔
      paint (paint window raws) (derivedCells S lba.toNat) = window := by
  rw [funext_iff]
  refine forall_congr' fun p => ?_
  rw [seen_eq]
  cases (lastOf (derivedCells S lba.toNat) p).or (lastOf raws p) with
  | none => simp
  | some v => simp

/-- The claims on the window are applied and leave the right bytes exactly where the window was
not disturbed before. -/
theorem windowWhole_iff (raws : List (ℕ × Byte)) (window : Buffer) :
    Holds (sectorCells .discUser lba.toNat S.plan.guardCells) window ∧
        Undisturbed S lba.toNat raws window ↔
      Holds (sectorCells .discUser lba.toNat S.plan.guardCells) window ∧
        Holds (sectorCells .discUser lba.toNat S.plan.guardCells)
          (paint (paint window raws) (derivedCells S lba.toNat)) ∧
        Agree raws (sectorCells .discUser lba.toNat S.plan.cells) ∧
        ∀ p, (∀ u, (p, u) ∉ sectorCells .discUser lba.toNat S.plan.cells) →
          paint (paint window raws) (derivedCells S lba.toNat) p = paint window raws p := by
  refine and_congr_right fun hg => ?_
  constructor
  · intro h
    refine ⟨?_, h.common, fun p hp => ?_⟩
    · rintro ⟨p, e⟩ hc
      dsimp only
      rw [seen_eq]
      cases hl : (lastOf (derivedCells S lba.toNat) p).or (lastOf raws p) with
      | none => exact hg _ hc
      | some v => exact h.guarded p e v hc hl
    · rw [derived_keeps_iff, paint_eq_lastOf]
      exact fun v hv => h.unowned p v hp hv
  · rintro ⟨hg', hcommon, hun⟩
    refine ⟨fun p e v hc hl => ?_, hcommon, fun p v hp hv => ?_⟩
    · have he : paint (paint window raws) (derivedCells S lba.toNat) p = e := hg' _ hc
      rw [seen_eq, hl] at he
      exact he
    · rw [← paint_eq_lastOf]
      exact (derived_keeps_iff S lba _ p).1 (hun p hp) v hv

/-- A read of the user data. -/
theorem user_whole_iff (h : S.Open) (buf : Buffer) :
    PatchedOrUntouched (sectorCells .discUser lba.toNat S.plan.guardCells)
        (sectorCells .discUser lba.toNat S.plan.cells) buf (patchUserSector S lba.toNat buf) ↔
      WindowWhole S lba.toNat [] buf ∨ WindowRefused S lba.toNat [] buf buf := by
  have hwhole := windowWhole_iff S lba [] buf
  have hkeep := keepsWindow_iff S lba [] buf
  have hconsistent := sectorCells_consistent S.plan .discUser lba.toNat
  unfold WindowWhole WindowRefused PatchedOrUntouched
  rw [patchUserSector_spec S lba h, show windowCells [] = [] from rfl, hwhole, hkeep]
  rw [show paint buf [] = buf from rfl]
  by_cases hg : Holds (sectorCells .discUser lba.toNat S.plan.guardCells)
      (paint buf (derivedCells S lba.toNat))
  · rw [if_pos hg]
    constructor
    · rintro (⟨ho, hp, -⟩ | ⟨-, -, hf⟩)
      · refine Or.inl ⟨ho, hg, fun _ _ _ hc => absurd hc List.not_mem_nil, fun p hout => ?_⟩
        rw [← hp.2 p hout]
        exact (paint_outside _ _ p hout).symm
      · cases hf
    · rintro (⟨ho, -, -, hun⟩ | ⟨hno, -, hk⟩)
      · refine Or.inl ⟨ho, ⟨fun p v hc => paint_inside hconsistent hc _, fun p hout => ?_⟩, rfl⟩
        dsimp only
        rw [paint_outside _ _ p hout, hun p hout]
      · rw [hk] at hg
        exact absurd hg hno
  · rw [if_neg hg]
    constructor
    · rintro (⟨-, -, hf⟩ | ⟨hno, hk, -⟩)
      · cases hf
      · exact Or.inr ⟨hno, fun _ hc => absurd hc List.not_mem_nil, hk⟩
    · rintro (⟨-, hg', -⟩ | ⟨hno, -, hk⟩)
      · exact absurd hg' hg
      · exact Or.inr ⟨hno, hk, rfl⟩

/-- A raw read whose raw claims are applied: its user window is patched behind them. -/
theorem patchRawSector_applied (h : S.Open) (buf : Buffer)
    (hraw : Holds (sectorCells .discRaw lba.toNat S.plan.guardCells) buf)
    (hform : mode2Form1 buf = true) :
    patchRawSector S lba.toNat buf =
      (editAt 24 (fun window => (patchUserSector S lba.toNat window).1)
          (paint buf (sectorCells .discRaw lba.toNat S.plan.cells)),
        (patchUserSector S lba.toNat
          (shift (paint buf (sectorCells .discRaw lba.toNat S.plan.cells)) 24)).2) := by
  unfold patchRawSector
  rw [if_neg (by simp [h.1, h.2]), applyClaims_spec S.plan (by decide) lba]
  dsimp only
  rw [if_pos hraw, if_pos ⟨hform, rfl⟩]

/-- A raw read that ends with the raw claims. -/
theorem patchRawSector_alone (h : S.Open) (buf : Buffer)
    (hend : ¬Holds (sectorCells .discRaw lba.toNat S.plan.guardCells) buf ∨
      mode2Form1 buf = false) :
    patchRawSector S lba.toNat buf =
      if Holds (sectorCells .discRaw lba.toNat S.plan.guardCells) buf then
        (paint buf (sectorCells .discRaw lba.toNat S.plan.cells), false)
      else (buf, true) := by
  unfold patchRawSector
  rw [if_neg (by simp [h.1, h.2]), applyClaims_spec S.plan (by decide) lba]
  dsimp only
  rcases hend with hno | hform
  · rw [if_neg hno, if_neg (by simp)]
  · rw [if_neg (by simp [hform])]

/-- An owned byte of the whole sector, or of its user window. -/
theorem painted_window_iff {raws users : List (ℕ × Byte)} (hraws : Consistent raws)
    (husers : Consistent users) (buf seen : Buffer) (f : Edit Byte)
    (hf : f (shift (paint buf raws) 24) = paint seen users) :
    Painted (raws ++ users.map fun c => (24 + c.1, c.2)) buf (editAt 24 f (paint buf raws)) ↔
      Agree (windowCells raws) users ∧
        ∀ p, (∀ u, (p, u) ∉ users) → seen p = paint buf raws (24 + p) := by
  have hin : ∀ p, editAt 24 f (paint buf raws) (24 + p) = paint seen users p := by
    intro p
    rw [editAt_shift, hf]
  have hmap : ∀ q v, (q, v) ∈ users.map (fun c => (24 + c.1, c.2)) ↔
      24 ≤ q ∧ (q - 24, v) ∈ users := by
    intro q v
    rw [List.mem_map]
    constructor
    · rintro ⟨⟨p, v'⟩, hm, he⟩
      simp only [Prod.mk.injEq] at he
      obtain ⟨rfl, rfl⟩ := he
      rw [Nat.add_sub_cancel_left]
      exact ⟨Nat.le_add_right _ _, hm⟩
    · rintro ⟨hle, hm⟩
      exact ⟨_, hm, by simp [Nat.add_sub_cancel' hle]⟩
  constructor
  · rintro ⟨hown, hout⟩
    refine ⟨fun p v u hv hu => ?_, fun p hp => ?_⟩
    · rw [mem_windowCells] at hv
      have hv' := hown _ _ (List.mem_append_left _ hv)
      rw [← hv', hin, paint_inside husers hu]
    · rcases paint_mem buf raws (24 + p) with ⟨v, hv, hr⟩ | hno
      · have hv' := hown _ _ (List.mem_append_left _ hv)
        rw [hin, paint_outside _ _ p hp] at hv'
        rw [hv', hr]
      · have hb : editAt 24 f (paint buf raws) (24 + p) = buf (24 + p) := by
          refine hout _ fun v hv => ?_
          rcases List.mem_append.1 hv with hv | hv
          · exact hno v hv
          · obtain ⟨-, hv⟩ := (hmap _ _).1 hv
            rw [Nat.add_sub_cancel_left] at hv
            exact hp v hv
        rw [hin, paint_outside _ _ p hp] at hb
        rw [hb, paint_outside _ _ _ hno]
  · rintro ⟨hcommon, hun⟩
    constructor
    · intro q v hv
      rcases List.mem_append.1 hv with hv | hv
      · by_cases hq : 24 ≤ q
        · obtain ⟨p, rfl⟩ := Nat.exists_eq_add_of_le hq
          rw [hin]
          rcases paint_mem seen users p with ⟨u, hu, hr⟩ | hno
          · rw [hr]
            exact (hcommon p v u (mem_windowCells.2 hv) hu).symm
          · rw [paint_outside _ _ p hno, hun p hno, paint_inside hraws hv]
        · rw [editAt_below _ _ (by omega), paint_inside hraws hv]
      · obtain ⟨hq, hv⟩ := (hmap _ _).1 hv
        obtain ⟨p, rfl⟩ := Nat.exists_eq_add_of_le hq
        rw [Nat.add_sub_cancel_left] at hv
        rw [hin, paint_inside husers hv]
    · intro q hno
      have hr : paint buf raws q = buf q :=
        paint_outside _ _ q fun v hv => hno v (List.mem_append_left _ hv)
      by_cases hq : 24 ≤ q
      · obtain ⟨p, rfl⟩ := Nat.exists_eq_add_of_le hq
        have hp : ∀ u, (p, u) ∉ users := by
          intro u hu
          refine hno u (List.mem_append_right _ ((hmap _ _).2 ⟨hq, ?_⟩))
          rw [Nat.add_sub_cancel_left]
          exact hu
        rw [hin, paint_outside _ _ p hp, hun p hp, hr]
      · rw [editAt_below _ _ (by omega), hr]

/-- An edit of the window that leaves the whole sector as it was. -/
theorem window_kept_iff {raws : List (ℕ × Byte)} (hraws : Consistent raws) (buf : Buffer) (f : Edit Byte) :
    editAt 24 f (paint buf raws) = buf ↔
      (∀ c ∈ raws, c.1 < 24 → buf c.1 = c.2) ∧ f (shift (paint buf raws) 24) = shift buf 24 := by
  constructor
  · intro he
    refine ⟨?_, ?_⟩
    · rintro ⟨q, v⟩ hc hq
      have hq' := congrFun he q
      rw [editAt_below _ _ hq, paint_inside hraws hc] at hq'
      exact hq'.symm
    · funext p
      exact (editAt_shift f _ p).symm.trans (congrFun he (24 + p))
  · rintro ⟨hlow, hk⟩
    funext q
    by_cases hq : 24 ≤ q
    · obtain ⟨p, rfl⟩ := Nat.exists_eq_add_of_le hq
      rw [editAt_shift, hk, shift]
    · rw [editAt_below _ _ (by omega)]
      rcases paint_mem buf raws q with ⟨v, hv, hr⟩ | hno
      · rw [hr]
        exact (hlow _ hv (by dsimp only; omega)).symm
      · exact paint_outside _ _ _ hno

theorem holds_append {cells cells' : List (ℕ × Byte)} {buf : Buffer} :
    Holds (cells ++ cells') buf ↔ Holds cells buf ∧ Holds cells' buf := List.forall_mem_append

theorem holds_shifted {cells : List (ℕ × Byte)} {buf : Buffer} :
    Holds (cells.map fun c => (24 + c.1, c.2)) buf ↔ Holds cells (shift buf 24) :=
  List.forall_mem_map

/-- The claims of one target are atomic. -/
theorem claims_whole {guards owned : List (ℕ × Byte)} (ho : Consistent owned) (buf : Buffer) :
    PatchedOrUntouched guards owned buf
      (if Holds guards buf then (paint buf owned, false) else (buf, true)) := by
  unfold PatchedOrUntouched
  by_cases hg : Holds guards buf
  · rw [if_pos hg]
    exact Or.inl ⟨hg, painted_paint ho buf, rfl⟩
  · rw [if_neg hg]
    exact Or.inr ⟨hg, rfl, rfl⟩

/-- A raw read behind whose raw claims the user window is patched. -/
theorem raw_window_iff (h : S.Open) (buf : Buffer)
    (hraw : Holds (sectorCells .discRaw lba.toNat S.plan.guardCells) buf)
    (hform : mode2Form1 buf = true) :
    PatchedOrUntouched (readCells true lba.toNat buf S.plan.guardCells)
        (readCells true lba.toNat buf S.plan.cells) buf (patchRawSector S lba.toNat buf) ↔
      WindowWhole S lba.toNat (sectorCells .discRaw lba.toNat S.plan.cells) (shift buf 24) ∨
        WindowRefused S lba.toNat (sectorCells .discRaw lba.toNat S.plan.cells) buf
          (shift buf 24) := by
  have hraws := sectorCells_consistent S.plan .discRaw lba.toNat
  have husers := sectorCells_consistent S.plan .discUser lba.toNat
  have hwhole := windowWhole_iff S lba
    (windowCells (sectorCells .discRaw lba.toNat S.plan.cells)) (shift buf 24)
  have hkeep := keepsWindow_iff S lba
    (windowCells (sectorCells .discRaw lba.toNat S.plan.cells)) (shift buf 24)
  unfold WindowWhole WindowRefused PatchedOrUntouched readCells
  rw [if_pos rfl, if_pos rfl, if_pos hform, if_pos hform, holds_append, holds_shifted, hwhole, hkeep,
    patchRawSector_applied S lba h buf hraw hform, ← shift_paint, patchUserSector_spec S lba h]
  simp only [hraw, true_and]
  by_cases hg : Holds (sectorCells .discUser lba.toNat S.plan.guardCells)
      (paint (shift (paint buf (sectorCells .discRaw lba.toNat S.plan.cells)) 24)
        (derivedCells S lba.toNat))
  · have hpainted := painted_window_iff hraws husers buf
      (paint (shift (paint buf (sectorCells .discRaw lba.toNat S.plan.cells)) 24)
        (derivedCells S lba.toNat))
      (fun window => (patchUserSector S lba.toNat window).1)
      (by rw [patchUserSector_spec S lba h, if_pos hg])
    rw [hpainted, if_pos hg]
    constructor
    · rintro (⟨ho, ⟨hc, hun⟩, -⟩ | ⟨-, -, hf⟩)
      · exact Or.inl ⟨ho, hg, hc, hun⟩
      · cases hf
    · rintro (⟨ho, -, hc, hun⟩ | ⟨hno, hp, hk⟩)
      · exact Or.inl ⟨ho, ⟨hc, hun⟩, rfl⟩
      · rw [hk] at hg
        exact absurd hg hno
  · rw [if_neg hg]
    have hbuf := window_kept_iff hraws buf fun window => (patchUserSector S lba.toNat window).1
    rw [patchUserSector_spec S lba h, if_neg hg] at hbuf
    rw [hbuf]
    constructor
    · rintro (⟨-, -, hf⟩ | ⟨hno, ⟨hlow, hk⟩, -⟩)
      · cases hf
      · exact Or.inr ⟨hno, hlow, hk⟩
    · rintro (⟨-, hg', -⟩ | ⟨hno, hlow, hk⟩)
      · exact absurd hg' hg
      · exact Or.inr ⟨hno, ⟨hlow, hk⟩, rfl⟩

/-- A raw read of logical user data without raw claims is the user read in its window. -/
theorem raw_window_eq_user (buf : Buffer) (hform : mode2Form1 buf = true)
    (hwrites : discIndex S.plan.writes .discRaw lba.toNat = [])
    (hoverlays : overlayIndex S.plan.overlays .discRaw lba.toNat = []) (p : ℕ) :
    (patchRawSector S lba.toNat buf).1 (24 + p) =
      (patchUserSector S lba.toNat (shift buf 24)).1 p := by
  have hclaims : applyClaims S.plan .discRaw lba.toNat buf = (buf, false) := by
    unfold applyClaims
    rw [hwrites, hoverlays]
    rfl
  unfold patchRawSector
  by_cases hclosed : !S.initialized ∨ S.discGuardFailed
  · unfold patchUserSector
    rw [if_pos hclosed, if_pos hclosed]
    rfl
  · rw [if_neg hclosed, hclaims, if_pos ⟨hform, rfl⟩]
    exact editAt_shift (fun window => (patchUserSector S lba.toNat window).1) buf p

/-- What a closed runtime leaves is what was promised only for a sector without work. -/
theorem closed_whole_iff (raw : Bool) (h : ¬S.Open) (buf : Buffer) :
    PatchedOrUntouched (readCells raw lba.toNat buf S.plan.guardCells)
        (readCells raw lba.toNat buf S.plan.cells) buf (patchSector S raw lba.toNat buf) ↔
      SectorClosed S raw lba.toNat buf := by
  have hclosed : !S.initialized ∨ S.discGuardFailed := by
    unfold DiscState.Open at h
    cases hi : S.initialized <;> cases hf : S.discGuardFailed <;> simp_all
  have hread : patchSector S raw lba.toNat buf = (buf, S.discGuardFailed) := by
    unfold patchSector patchRawSector patchUserSector
    rw [if_pos hclosed, if_pos hclosed]
    cases raw <;> rfl
  have hpainted : Painted (readCells raw lba.toNat buf S.plan.cells) buf buf ↔
      Holds (readCells raw lba.toNat buf S.plan.cells) buf := by
    constructor
    · rintro hp ⟨p, v⟩ hm
      exact hp.1 p v hm
    · intro hp
      exact ⟨fun p v hm => hp (p, v) hm, fun _ _ => rfl⟩
  unfold PatchedOrUntouched SectorClosed
  rw [hread, hpainted]
  simp

end Window

/-- A sector is patched as a whole exactly where no guard has failed before and what comes before
the guards of the user window does not get in the way. -/
theorem sector_patched_iff (S : DiscState) (raw : Bool) (lba : BitVec 32) (buf : Buffer) :
    SectorPatched S raw lba.toNat buf ↔
      (S.Open ∧ SectorWhole S raw lba.toNat buf) ∨ (¬S.Open ∧ SectorClosed S raw lba.toNat buf) := by
  have hwindow : SectorPatched S raw lba.toNat buf ↔
      PatchedOrUntouched (readCells raw lba.toNat buf S.plan.guardCells)
        (readCells raw lba.toNat buf S.plan.cells) buf (patchSector S raw lba.toNat buf) :=
    ⟨fun h => h.whole, fun h => ⟨h, fun _ hf hw ho => raw_window_eq_user S lba buf hf hw ho⟩⟩
  rw [hwindow]
  by_cases hopen : S.Open
  · simp only [hopen, true_and, not_true_eq_false, false_and, or_false]
    cases raw with
    | false => exact user_whole_iff S lba hopen buf
    | true =>
      unfold SectorWhole patchSector
      rw [if_pos rfl, if_pos rfl]
      by_cases hraw : Holds (sectorCells .discRaw lba.toNat S.plan.guardCells) buf
      · cases hform : mode2Form1 buf with
        | true =>
          rw [raw_window_iff S lba hopen buf hraw hform]
          simp [hraw]
        | false =>
          have halone := @claims_whole (sectorCells .discRaw lba.toNat S.plan.guardCells) _
            (sectorCells_consistent S.plan .discRaw lba.toNat) buf
          rw [patchRawSector_alone S lba hopen buf (Or.inr hform)]
          unfold readCells
          simpa [hform] using halone
      · rw [patchRawSector_alone S lba hopen buf (Or.inl hraw), if_neg hraw]
        refine iff_of_true (Or.inr ⟨fun hall => hraw ?_, rfl, rfl⟩) (Or.inl hraw)
        unfold readCells at hall
        rw [if_pos rfl] at hall
        exact (holds_append.1 hall).1
  · simp only [hopen, false_and, false_or, not_false_eq_true, true_and]
    exact closed_whole_iff S lba raw hopen buf

/-! ## A guard behind a raw claim -/

/-- One byte of the disc replaced. -/
def discWrite (t : PatchTarget) (location : ℕ) (expected value : Byte) (id : String) : Write where
  target := t
  location := location
  expected := [expected]
  replacement := [value]
  fields := []
  packageId := id
  featureId := "f"

/-- A raw patch past the header, and a patch of the user data that expects another byte than a
cleared sector has. -/
def guardBehindRaw : List Write :=
  [discWrite .discRaw 100 0x00 0x11 "a", discWrite .discUser 0 0xFF 0x22 "b"]

def guardBehindRawState : DiscState where
  initialized := true
  discGuardFailed := false
  plan := DiscPlan.ofCoalesced guardBehindRaw [] (by decide) (by decide) (by decide)
  derived := []

/-- A cleared Mode 2 Form 1 sector. -/
def clearedForm1 : Buffer := fun p => if p = 15 then 2 else 0

/-- The guard of the user data fails, and the raw patch is in the sector. -/
theorem guard_behind_raw_patch :
    ¬SectorPatched guardBehindRawState true 0 clearedForm1 ∧
      (patchSector guardBehindRawState true 0 clearedForm1).1 100 = 0x11 ∧
      (patchSector guardBehindRawState true 0 clearedForm1).2 = true := by
  have hbyte : (patchSector guardBehindRawState true 0 clearedForm1).1 100 = 0x11 := by
    decide
  have hflag : (patchSector guardBehindRawState true 0 clearedForm1).2 = true := by
    decide
  refine ⟨fun h => ?_, hbyte, hflag⟩
  rcases h.whole with ⟨-, -, hf⟩ | ⟨-, hsame, -⟩
  · rw [hflag] at hf
    cases hf
  · rw [hsame] at hbyte
    exact absurd hbyte (by decide)

end PsxRecomp.Mods
