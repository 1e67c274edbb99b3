import PsxRecomp.Mods.Plan

/-! What the comparisons of the coalescing stage decide: whether two contributions put two values
on one byte, or guard one byte with two. -/
namespace PsxRecomp.Mods
open Cells Coalesce
set_option autoImplicit false

/-! ## Bytes of a contribution -/

/-- A byte of the patched image. -/
abbrev Place := PatchTarget × ℕ

def cellsOf (target : PatchTarget) (location : ℕ) (bytes : List Byte) : List (Place × Byte) :=
  bytes.mapIdx fun i v => ((target, location + i), v)

/-- The bytes a write replaces, with what it puts there. -/
def Write.cells (w : Write) : List (Place × Byte) :=
  w.ownedSpans.flatMap fun s => cellsOf w.target s.location s.replacement

/-- The bytes a write guards, with what it expects there. -/
def Write.guardCells (w : Write) : List (Place × Byte) := cellsOf w.target w.location w.expected

def Overlay.cells (o : Overlay) : List (Place × Byte) := cellsOf o.target o.location o.payload

theorem mem_cellsOf {target : PatchTarget} {location : ℕ} {bytes : List Byte} {k : Place}
    {v : Byte} : (k, v) ∈ cellsOf target location bytes ↔
      k.1 = target ∧ location ≤ k.2 ∧ bytes[k.2 - location]? = some v := by
  unfold cellsOf
  rw [List.mem_mapIdx]
  constructor
  · rintro ⟨i, hi, he⟩
    simp only [Prod.mk.injEq] at he
    obtain ⟨rfl, rfl⟩ := he
    refine ⟨rfl, Nat.le_add_right _ _, ?_⟩
    rw [Nat.add_sub_cancel_left, List.getElem?_eq_getElem hi]
  · rintro ⟨ht, hle, hv⟩
    obtain ⟨hi, hv⟩ := List.getElem?_eq_some_iff.1 hv
    refine ⟨k.2 - location, hi, ?_⟩
    rw [hv, Nat.add_sub_cancel' hle, ← ht]

theorem cellsOf_consistent (target : PatchTarget) (location : ℕ) (bytes : List Byte) :
    Consistent (cellsOf target location bytes) := by
  intro k v w hv hw
  rw [mem_cellsOf] at hv hw
  exact Option.some.inj (hv.2.2.symm.trans hw.2.2)

/-! ## Loops over a common range -/

theorem firstMismatch_eq_none_iff (aLocation aSize bLocation bSize : ℕ) (differ : ℕ → Bool) :
    firstMismatch aLocation aSize bLocation bSize differ = none ↔
      ∀ at', aLocation ≤ at' → at' < aLocation + aSize → bLocation ≤ at' → at' < bLocation + bSize →
        differ at' = false := by
  unfold firstMismatch
  simp only [List.find?_eq_none, List.mem_range'_1, Bool.not_eq_true]
  constructor
  · intro h at' h1 h2 h3 h4
    exact h at' (by omega)
  · intro h at' hat
    exact h at' (by omega) (by omega) (by omega) (by omega)

/-- No mismatch: the two ranges put the same bytes where they meet. -/
theorem differAt_none_iff (t : PatchTarget) (aLocation : ℕ) (a : List Byte) (bLocation : ℕ)
    (b : List Byte) :
    firstMismatch aLocation a.length bLocation b.length (differAt aLocation a bLocation b) = none ↔
      Agree (cellsOf t aLocation a) (cellsOf t bLocation b) := by
  rw [firstMismatch_eq_none_iff]
  constructor
  · intro h k v w hv hw
    rw [mem_cellsOf] at hv hw
    obtain ⟨-, hv1, hv2⟩ := hv
    obtain ⟨-, hw1, hw2⟩ := hw
    obtain ⟨hvl, -⟩ := List.getElem?_eq_some_iff.1 hv2
    obtain ⟨hwl, -⟩ := List.getElem?_eq_some_iff.1 hw2
    have hd := h k.2 hv1 (by omega) hw1 (by omega)
    simp only [differAt, hv2, hw2, decide_eq_false_iff_not, not_not, Option.some.injEq] at hd
    exact hd
  · intro h at' h1 h2 h3 h4
    have ha : a[at' - aLocation]? = some a[at' - aLocation] := List.getElem?_eq_getElem (by omega)
    have hb : b[at' - bLocation]? = some b[at' - bLocation] := List.getElem?_eq_getElem (by omega)
    have he := h (t, at') _ _ (mem_cellsOf.2 ⟨rfl, h1, ha⟩) (mem_cellsOf.2 ⟨rfl, h3, hb⟩)
    simp only [differAt, ha, hb, he, ne_eq, not_true_eq_false, decide_false]

/-- Ranges that do not overlap agree. -/
theorem agree_of_not_overlap {aTarget bTarget : PatchTarget} {aLocation bLocation : ℕ}
    {a b : List Byte}
    (h : rangesOverlap aTarget aLocation a.length bTarget bLocation b.length = false) :
    Agree (cellsOf aTarget aLocation a) (cellsOf bTarget bLocation b) := by
  intro k v w hv hw
  rw [mem_cellsOf] at hv hw
  obtain ⟨hvt, hv1, hv2⟩ := hv
  obtain ⟨hwt, hw1, hw2⟩ := hw
  obtain ⟨hvl, -⟩ := List.getElem?_eq_some_iff.1 hv2
  obtain ⟨hwl, -⟩ := List.getElem?_eq_some_iff.1 hw2
  have ht : aTarget = bTarget := hvt.symm.trans hwt
  simp only [rangesOverlap, ht, decide_eq_false_iff_not, not_and, true_and] at h
  omega

theorem agree_of_target_ne {aTarget bTarget : PatchTarget} (h : aTarget ≠ bTarget)
    (aLocation bLocation : ℕ) (a b : List Byte) :
    Agree (cellsOf aTarget aLocation a) (cellsOf bTarget bLocation b) := by
  intro k v w hv hw
  rw [mem_cellsOf] at hv hw
  exact absurd (hv.1.symm.trans hw.1) h

/-! ## Valid writes -/

/-- The fields of a sparse write lie behind each other, inside the guard. -/
theorem validFields_spec {size previousEnd : ℕ} {fs : List Field}
    (h : validFields size previousEnd fs = true) :
    (∀ f ∈ fs, previousEnd ≤ f.offset ∧ f.offset + f.replacement.length ≤ size) ∧
      fs.Pairwise fun f g => f.offset + f.replacement.length ≤ g.offset := by
  induction fs generalizing previousEnd with
  | nil => exact ⟨fun f hf => absurd hf List.not_mem_nil, List.Pairwise.nil⟩
  | cons f fs ih =>
    simp only [validFields, Bool.and_eq_true, Bool.not_eq_true', decide_eq_false_iff_not,
      not_or] at h
    obtain ⟨⟨-, h1, h2, h3⟩, hrest⟩ := h
    obtain ⟨hin, hpair⟩ := ih hrest
    refine ⟨?_, List.pairwise_cons.2 ⟨fun g hg => (hin g hg).1, hpair⟩⟩
    intro g hg
    rcases List.mem_cons.1 hg with rfl | hg
    · omega
    · have := hin g hg
      omega

/-- An owned span of a valid write lies inside its guard and carries its guard bytes. -/
theorem span_guard {w : Write} (hw : validWrite w = true) {s : Span} (hs : s ∈ w.ownedSpans)
    {at' : ℕ} (h1 : s.location ≤ at') (h2 : at' < s.location + s.replacement.length) :
    w.location ≤ at' ∧ at' < w.location + w.expected.length ∧
      s.expected[at' - s.location]? = w.expected[at' - w.location]? := by
  unfold validWrite at hw
  unfold Write.ownedSpans at hs
  split at hs
  case isTrue hf =>
    rw [List.mem_singleton] at hs
    subst hs
    simp only [hf, ↓reduceIte, decide_eq_true_eq] at hw
    have := hw.2
    exact ⟨h1, by rw [this]; exact h2, rfl⟩
  case isFalse hf =>
    simp only [hf, ↓reduceIte, decide_eq_true_eq] at hw
    obtain ⟨f, hfm, rfl⟩ := List.mem_map.1 hs
    have hin := (validFields_spec hw.2.2).1 f hfm
    dsimp only at h1 h2 ⊢
    refine ⟨by omega, by omega, ?_⟩
    rw [List.getElem?_drop]
    congr 1
    omega

/-- Two fields of a valid write are one or lie apart. -/
theorem fields_apart {size previousEnd : ℕ} {fs : List Field}
    (h : validFields size previousEnd fs = true) {f g : Field} (hf : f ∈ fs) (hg : g ∈ fs) :
    f = g ∨ f.offset + f.replacement.length ≤ g.offset ∨
      g.offset + g.replacement.length ≤ f.offset := by
  have hpair := (validFields_spec h).2.imp (S := fun f g : Field => f = g ∨
    f.offset + f.replacement.length ≤ g.offset ∨ g.offset + g.replacement.length ≤ f.offset)
    (fun hfg => Or.inr (Or.inl hfg))
  have hsymm : ∀ f g : Field, (f = g ∨ f.offset + f.replacement.length ≤ g.offset ∨
      g.offset + g.replacement.length ≤ f.offset) → (g = f ∨
      g.offset + g.replacement.length ≤ f.offset ∨ f.offset + f.replacement.length ≤ g.offset) :=
    fun f g h => h.imp Eq.symm Or.symm
  obtain ⟨i, hi, rfl⟩ := List.getElem_of_mem hf
  obtain ⟨j, hj, rfl⟩ := List.getElem_of_mem hg
  rw [List.pairwise_iff_getElem] at hpair
  rcases Nat.lt_trichotomy i j with h | rfl | h
  · exact hpair i j hi hj h
  · exact Or.inl rfl
  · exact hsymm _ _ (hpair j i hj hi h)

/-- A valid write puts one value on a byte. -/
theorem write_cells_consistent {w : Write} (hw : validWrite w = true) : Consistent w.cells := by
  unfold validWrite at hw
  unfold Write.cells Write.ownedSpans
  split
  case isTrue => simpa using cellsOf_consistent w.target w.location w.replacement
  case isFalse hf =>
    simp only [hf, ↓reduceIte, decide_eq_true_eq] at hw
    intro k v u hv hu
    rw [List.flatMap_map, List.mem_flatMap] at hv hu
    obtain ⟨f, hfm, hv⟩ := hv
    obtain ⟨g, hgm, hu⟩ := hu
    rcases fields_apart hw.2.2 hfm hgm with rfl | hsep
    · exact cellsOf_consistent _ _ _ k v u hv hu
    · rw [mem_cellsOf] at hv hu
      obtain ⟨hvl, -⟩ := List.getElem?_eq_some_iff.1 hv.2.2
      obtain ⟨hul, -⟩ := List.getElem?_eq_some_iff.1 hu.2.2
      dsimp only at hv hu hvl hul
      omega

/-! ## Writes -/

/-- Two writes guard one byte with two values, or put two values on one byte. -/
def WriteClash (a b : Write) : Prop :=
  ¬Agree a.guardCells b.guardCells ∨ ¬Agree a.cells b.cells

theorem agree_cells_iff (a b : Write) : Agree a.cells b.cells ↔
    ∀ s ∈ a.ownedSpans, ∀ t ∈ b.ownedSpans,
      Agree (cellsOf a.target s.location s.replacement) (cellsOf b.target t.location t.replacement) := by
  unfold Write.cells
  rw [agree_flatMap_left]
  refine forall₂_congr fun s _ => ?_
  constructor
  · intro h t ht
    exact (agree_flatMap_left.1 h.symm t ht).symm
  · intro h
    exact (agree_flatMap_left.2 fun t ht => (h t ht).symm).symm

theorem guardMismatch_none_iff (a b : Write) :
    writeGuardOverlapMismatch a b = none ↔ Agree a.guardCells b.guardCells := by
  unfold writeGuardOverlapMismatch Write.guardCells
  split
  case isTrue ht => exact iff_of_true rfl (agree_of_target_ne ht _ _ _ _)
  case isFalse ht =>
    rw [not_not] at ht
    rw [ht]
    exact differAt_none_iff b.target _ _ _ _

theorem agree_of_not_writesOverlap {a b : Write} (h : writesOverlap a b = false) :
    Agree a.cells b.cells := by
  rw [agree_cells_iff]
  intro s hs t ht
  by_cases htarget : a.target = b.target
  · simp only [writesOverlap, htarget, true_and, decide_eq_false_iff_not, List.any_eq_true,
      not_exists, not_and, Bool.not_eq_true] at h
    rw [htarget]
    exact agree_of_not_overlap (h s hs t ht)
  · exact agree_of_target_ne htarget _ _ _ _

/-- No mismatch on the owned bytes: the writes agree there. -/
theorem agree_of_no_mismatch {a b : Write} (ht : a.target = b.target)
    (h : writeOverlapMismatch a b = none) : Agree a.cells b.cells := by
  rw [agree_cells_iff, ht]
  intro s hs t ht
  unfold writeOverlapMismatch at h
  have hst := List.findSome?_eq_none_iff.1 (List.findSome?_eq_none_iff.1 h s hs) t ht
  rw [firstMismatch_eq_none_iff] at hst
  rw [← differAt_none_iff, firstMismatch_eq_none_iff]
  intro at' h1 h2 h3 h4
  exact (Bool.or_eq_false_iff.1 (hst at' h1 h2 h3 h4)).2

/-- A mismatch on the owned bytes of valid writes is a clash. -/
theorem clash_of_mismatch {a b : Write} (ha : validWrite a = true) (hb : validWrite b = true)
    (ht : a.target = b.target) {at' : ℕ} (h : writeOverlapMismatch a b = some at') :
    WriteClash a b := by
  by_contra hno
  rw [WriteClash, not_or, not_not, not_not] at hno
  obtain ⟨hguard, hcells⟩ := hno
  have hnone : writeOverlapMismatch a b = none := by
    unfold writeOverlapMismatch
    rw [List.findSome?_eq_none_iff]
    intro s hs
    rw [List.findSome?_eq_none_iff]
    intro t htm
    rw [firstMismatch_eq_none_iff]
    intro i h1 h2 h3 h4
    rw [Bool.or_eq_false_iff]
    constructor
    · obtain ⟨ga1, ga2, ga3⟩ := span_guard ha hs h1 h2
      obtain ⟨gb1, gb2, gb3⟩ := span_guard hb htm h3 h4
      rw [← guardMismatch_none_iff, writeGuardOverlapMismatch, if_neg (not_not.2 ht),
        firstMismatch_eq_none_iff] at hguard
      have hd := hguard i ga1 ga2 gb1 gb2
      unfold differAt at hd ⊢
      rw [ga3, gb3]
      exact hd
    · have hst := (agree_cells_iff a b).1 hcells s hs t htm
      rw [ht, ← differAt_none_iff, firstMismatch_eq_none_iff] at hst
      exact hst i h1 h2 h3 h4
  rw [hnone] at h
  cases h

theorem rejectWrite_eq_none_iff (w : Write) : rejectWrite w = none ↔ validWrite w = true := by
  unfold rejectWrite
  split <;> simp_all

/-- The same write, whoever contributes it. -/
def SameWrite (a b : Write) : Prop := identicalWrite a b = true

theorem SameWrite.cells_eq {a b : Write} (h : SameWrite a b) :
    a.cells = b.cells ∧ a.guardCells = b.guardCells := by
  simp only [SameWrite, identicalWrite, decide_eq_true_eq] at h
  obtain ⟨h1, h2, h3, h4, h5⟩ := h
  unfold Write.cells Write.guardCells Write.ownedSpans
  rw [h1, h2, h3, h4, h5]
  exact ⟨rfl, rfl⟩

theorem write_laws : Laws rejectWrite writeVerdict SameWrite WriteClash where
  apart_iff a b ha hb h := by
    unfold writeVerdict at h
    split at h
    case isTrue => cases h
    case isFalse =>
      split at h
      case h_1 => cases h
      case h_2 hg =>
        rw [guardMismatch_none_iff] at hg
        rw [WriteClash, not_or, not_not, not_not]
        refine ⟨hg, ?_⟩
        split at h
        case isTrue ho => exact agree_of_not_writesOverlap (by simpa using ho)
        case isFalse ho =>
          have ht : a.target = b.target := by
            simp only [writesOverlap, Bool.not_eq_true', decide_eq_false_iff_not, not_not] at ho
            exact ho.1
          split at h
          case h_1 hm => exact agree_of_no_mismatch ht hm
          case h_2 => cases h
  same a b ha hb h := by
    unfold writeVerdict at h
    split at h
    case isTrue hi => exact hi
    case isFalse =>
      split at h
      case h_1 => cases h
      case h_2 =>
        split at h
        case isTrue => cases h
        case isFalse => split at h <;> cases h
  clash a b e ha hb h := by
    unfold writeVerdict at h
    split at h
    case isTrue => cases h
    case isFalse =>
      split at h
      case h_1 hg =>
        refine Or.inl fun hagree => ?_
        rw [(guardMismatch_none_iff a b).2 hagree] at hg
        cases hg
      case h_2 =>
        split at h
        case isTrue => cases h
        case isFalse ho =>
          have ht : a.target = b.target := by
            simp only [writesOverlap, Bool.not_eq_true', decide_eq_false_iff_not, not_not] at ho
            exact ho.1
          split at h
          case h_1 => cases h
          case h_2 hm =>
            exact clash_of_mismatch ((rejectWrite_eq_none_iff a).1 ha)
              ((rejectWrite_eq_none_iff b).1 hb) ht hm
  symm a b h := h.imp (fun hn ha => hn ha.symm) (fun hn ha => hn ha.symm)
  irrefl a ha h := h.elim (fun hn => hn (cellsOf_consistent _ _ _))
    (fun hn => hn (write_cells_consistent ((rejectWrite_eq_none_iff a).1 ha)))
  congr a b c hab h := by
    obtain ⟨hc, hg⟩ := hab.cells_eq
    unfold WriteClash at h ⊢
    rw [hc, hg]
    exact h

/-! ## Overlays -/

/-- Two overlays put two values on one byte. -/
def OverlayClash (a b : Overlay) : Prop := ¬Agree a.cells b.cells

/-- The same overlay, whoever contributes it. -/
def SameOverlay (a b : Overlay) : Prop :=
  a.target = b.target ∧ a.location = b.location ∧ a.payload = b.payload ∧
    a.expectedSha256 = b.expectedSha256

theorem SameOverlay.cells_eq {a b : Overlay} (h : SameOverlay a b) : a.cells = b.cells := by
  obtain ⟨h1, h2, h3, -⟩ := h
  unfold Overlay.cells
  rw [h1, h2, h3]

theorem overlayMismatch_none_iff (t : PatchTarget) (a b : Overlay) :
    overlayOverlapMismatch a b = none ↔
      Agree (cellsOf t a.location a.payload) (cellsOf t b.location b.payload) :=
  differAt_none_iff t _ _ _ _

theorem overlay_laws (kept : List Write) :
    Laws (rejectOverlay kept) overlayVerdict SameOverlay OverlayClash where
  apart_iff a b _ _ h := by
    rw [OverlayClash, not_not]
    unfold overlayVerdict at h
    split at h
    case isTrue ho =>
      rw [Bool.not_eq_true'] at ho
      exact (agree_of_not_overlap ho).symm
    case isFalse ho =>
      have ht : b.target = a.target := by
        simp only [rangesOverlap, Bool.not_eq_true', decide_eq_false_iff_not, not_not] at ho
        exact ho.1
      split at h
      case isTrue => cases h
      case isFalse =>
        split at h
        case h_1 hm =>
          unfold Overlay.cells
          rw [ht]
          exact (overlayMismatch_none_iff a.target a b).1 hm
        case h_2 => cases h
  same a b _ _ h := by
    unfold overlayVerdict at h
    split at h
    case isTrue => cases h
    case isFalse =>
      split at h
      case isTrue hs => exact ⟨hs.1.symm, hs.2.1.symm, hs.2.2.1.symm, hs.2.2.2.symm⟩
      case isFalse => split at h <;> cases h
  clash a b e _ _ h := by
    unfold overlayVerdict at h
    split at h
    case isTrue => cases h
    case isFalse ho =>
      have ht : b.target = a.target := by
        simp only [rangesOverlap, Bool.not_eq_true', decide_eq_false_iff_not, not_not] at ho
        exact ho.1
      split at h
      case isTrue => cases h
      case isFalse =>
        split at h
        case h_1 => cases h
        case h_2 hm =>
          intro hagree
          unfold Overlay.cells at hagree
          rw [ht] at hagree
          rw [(overlayMismatch_none_iff a.target a b).2 hagree] at hm
          cases hm
  symm a b h ha := h ha.symm
  irrefl a _ h := h (cellsOf_consistent _ _ _)
  congr a b c hab h := by
    unfold OverlayClash at h ⊢
    rw [hab.cells_eq]
    exact h

/-- An overlay passes the kept writes where it agrees with each. -/
theorem rejectOverlay_eq_none_iff (kept : List Write) (o : Overlay) :
    rejectOverlay kept o = none ↔ ∀ w ∈ kept, Agree w.cells o.cells := by
  unfold rejectOverlay
  rw [List.findSome?_eq_none_iff]
  refine forall₂_congr fun w _ => ?_
  unfold overlayWriteClash Write.cells
  rw [agree_flatMap_left]
  split
  case isTrue ho =>
    refine iff_of_true rfl fun s hs => ?_
    by_cases ht : w.target = o.target
    · simp only [writeOverlapsRange, ht, true_and, Bool.not_eq_true', decide_eq_false_iff_not,
        List.any_eq_true, not_exists, not_and, Bool.not_eq_true] at ho
      rw [ht]
      exact agree_of_not_overlap (ho s hs)
    · exact agree_of_target_ne ht _ _ _ _
  case isFalse ho =>
    have ht : w.target = o.target := by
      simp only [writeOverlapsRange, Bool.not_eq_true', decide_eq_false_iff_not, not_not] at ho
      exact ho.1
    rw [Option.map_eq_none_iff, writeOverlayMismatch, List.findSome?_eq_none_iff]
    refine forall₂_congr fun s _ => ?_
    rw [ht]
    exact differAt_none_iff o.target _ _ _ _

end PsxRecomp.Mods
