import Mathlib

/-! The VRAM section of a save: the scanlines marked by `gpu_vram_dirty.c`, and the mirror that
`boot_state.c` patches from them. -/
namespace PsxRecomp.BootState
set_option autoImplicit false

abbrev Row := Fin 1024 → BitVec 16
abbrev Vram := Fin 512 → Row

/-! ## The row mask -/

/-- `s_mask` -/
abbrev RowMask := Fin 8 → BitVec 64

def RowMask.none : RowMask := fun _ => 0
def RowMask.all : RowMask := fun _ => BitVec.allOnes 64

/-- `mask[y >> 6] & (1 << (y & 63))` -/
def RowMask.holds (mask : RowMask) (y : Fin 512) : Bool := (mask ⟨y / 64, by omega⟩).getLsbD (y % 64)

/-- `y & (GPU_VRAM_DIRTY_H - 1)` -/
def rowIndex (y : BitVec 32) : Fin 512 := ⟨y.toNat % 512, Nat.mod_lt _ (by decide)⟩

def markRowImpl (mask : RowMask) (y : BitVec 32) : RowMask :=
  let word : Fin 8 := ⟨rowIndex y / 64, by omega⟩
  Function.update mask word (mask word ||| 1#64 <<< ((rowIndex y).val % 64))

theorem holds_markRow (mask : RowMask) (y : BitVec 32) (j : Fin 512) :
    (markRowImpl mask y).holds j = (mask.holds j || decide (j = rowIndex y)) := by
  have hbit : (1#64 <<< ((rowIndex y).val % 64)).getLsbD (j % 64) = decide (j.val % 64 = (rowIndex y).val % 64) := by
    rw [BitVec.getLsbD_shiftLeft, BitVec.getLsbD_one]
    have hlt : j.val % 64 < 64 := Nat.mod_lt _ (by decide)
    simp only [hlt, decide_true, Bool.true_and]
    grind
  unfold RowMask.holds markRowImpl
  by_cases hword : j.val / 64 = (rowIndex y).val / 64
  · have hsame : (⟨j.val / 64, by omega⟩ : Fin 8) = ⟨(rowIndex y).val / 64, by omega⟩ := Fin.ext hword
    rw [hsame, Function.update_self, BitVec.getLsbD_or, hbit]
    congr 1
    rw [decide_eq_decide, Fin.ext_iff]
    omega
  · have hne : (⟨j.val / 64, by omega⟩ : Fin 8) ≠ ⟨(rowIndex y).val / 64, by omega⟩ :=
      fun h => hword (congrArg Fin.val h)
    have hj : j ≠ rowIndex y := fun h => hword (by rw [h])
    rw [Function.update_of_ne hne, decide_eq_false hj, Bool.or_false]

/-! ## Marking -/

structure State where
  live : Vram
  tracking : Bool
  mask : RowMask
  /-- `s_all` -/
  all : Bool
  mirror : Vram
  mirrorValid : Bool

/-- The calls that mark rows; a rectangle is marked over its whole rows. -/
inductive Mark where
  | row (y : BitVec 32)
  | rows (y0 h : BitVec 32)
  | rect (y w h : BitVec 32)
  | all

def setTracking (on : Bool) (s : State) : State :=
  if on then { s with tracking := true, mask := .all, all := true }
  else { s with tracking := false, mask := .none, all := false }

def markAll (s : State) : State := if s.tracking then { s with mask := .all, all := true } else s

def markRow (y : BitVec 32) (s : State) : State :=
  if s.tracking then { s with mask := markRowImpl s.mask y } else s

def markRows (y0 h : BitVec 32) (s : State) : State :=
  if s.tracking = false ∨ h = 0 then s
  else if 512 ≤ h.toNat then markAll s
  else { s with mask := (List.range h.toNat).foldl (fun mask i => markRowImpl mask (y0 + BitVec.ofNat 32 i)) s.mask }

def markRect (y w h : BitVec 32) (s : State) : State :=
  if s.tracking = false ∨ w.toInt ≤ 0 ∨ h.toInt ≤ 0 then s
  else if 512 ≤ h.toInt then markAll s
  else markRows y h s

def mark (s : State) : Mark → State
  | .row y => markRow y s
  | .rows y0 h => markRows y0 h s
  | .rect y w h => markRect y w h s
  | .all => markAll s

/-- `gpu_vram_dirty_clear` -/
def clear (s : State) : State := if s.tracking then { s with mask := .none, all := false } else s

def rowCount (s : State) : ℕ :=
  if s.tracking = false ∨ s.all = true then 512 else (List.finRange 512).countP fun y => s.mask.holds y

/-- The rows a call names, modulo the height of VRAM. -/
def Mark.names : Mark → Fin 512 → Prop
  | .row y, j => j = rowIndex y
  | .rows y0 h, j => ∃ i < h.toNat, j = rowIndex (y0 + BitVec.ofNat 32 i)
  | .rect y w h, j => 0 < w.toInt ∧ 0 < h.toInt ∧ ∃ i < h.toNat, j = rowIndex (y + BitVec.ofNat 32 i)
  | .all, _ => True

/-! ## Saves and loads -/

/-- `boot_state_vram_mirror_reset` -/
def mirrorReset (s : State) : State := { s with mirrorValid := false }

/-- The rows of the mask are copied over the mirror. -/
def patched (s : State) : Vram := fun y => if s.mask.holds y then s.live y else s.mirror y

/-- The mirror before the check of `PSX_NET_VRAM_DIRTY_VERIFY`. -/
def refreshed (s : State) : State :=
  if s.mirrorValid = false ∨ 512 ≤ rowCount s then { s with mirror := s.live, mirrorValid := true }
  else if rowCount s = 0 then s
  else { s with mirror := patched s }

/-- The full copy of `gr_vram_transfer_out` is compared with the mirror, and replaces it where they differ. -/
def verified (s : State) : State := if s.live = s.mirror then s else { s with mirror := s.live }

def syncVramMirrorForSave (verify : Bool) (s : State) : State :=
  if s.tracking = false then { s with mirror := s.live, mirrorValid := true }
  else clear (if verify then verified (refreshed s) else refreshed s)

/-- A raw save: the bytes of its VRAM section, and the state after it. -/
def rawSave (verify : Bool) (s : State) : Vram × State :=
  if s.tracking then ((syncVramMirrorForSave verify s).mirror, syncVramMirrorForSave verify s) else (s.live, s)

def zlibSave (s : State) : Vram × State := (s.live, s)

/-- `apply_section` of a VRAM section: what uploads it marks every row first. -/
def applyVram (section' : Vram) (s : State) : State :=
  let s := { markAll s with live := section' }
  if s.tracking then clear { s with mirror := section', mirrorValid := true } else { s with mirrorValid := false }

/-! ## Runs -/

inductive Action where
  /-- VRAM is written, and rows are marked. -/
  | write (vram : Vram) (marks : List Mark)
  | setTracking (on : Bool)
  | rawSave (verify : Bool)
  | zlibSave
  /-- A VRAM section of the right length, or of a wrong one. -/
  | load (vram : Option Vram)
  | mirrorReset

def act (s : State) : Action → State
  | .write vram marks => { marks.foldl mark s with live := vram }
  | .setTracking on => setTracking on s
  | .rawSave verify => (rawSave verify s).2
  | .zlibSave => (zlibSave s).2
  | .load vram => vram.elim s fun section' => applyVram section' s
  | .mirrorReset => mirrorReset s

/-- While tracking is on, a write marks all the rows it changes. -/
def Marked (s : State) : Action → Prop
  | .write vram marks => s.tracking = true → ∀ y, vram y ≠ s.live y → ∃ m ∈ marks, m.names y
  | _ => True

/-- The state of a fresh process. -/
def start (vram : Vram) : State :=
  { live := vram, tracking := false, mask := .none, all := true, mirror := fun _ _ => 0, mirrorValid := false }

inductive Reaches : State → Prop where
  | start (vram : Vram) : Reaches (start vram)
  | step {s : State} (h : Reaches s) (a : Action) (ha : Marked s a) : Reaches (act s a)

/-! ## What is marked -/

def Dirty (s : State) (y : Fin 512) : Prop := s.all = true ∨ s.mask.holds y = true

/-- Marking changes nothing but the marks, and takes none away. -/
structure Marks (s s' : State) : Prop where
  live : s'.live = s.live
  tracking : s'.tracking = s.tracking
  mirror : s'.mirror = s.mirror
  mirrorValid : s'.mirrorValid = s.mirrorValid
  dirty : ∀ y, Dirty s y → Dirty s' y

theorem Marks.refl (s : State) : Marks s s := ⟨rfl, rfl, rfl, rfl, fun _ h => h⟩

theorem Marks.trans {s s' s'' : State} (h : Marks s s') (h' : Marks s' s'') : Marks s s'' :=
  ⟨h'.live.trans h.live, h'.tracking.trans h.tracking, h'.mirror.trans h.mirror, h'.mirrorValid.trans h.mirrorValid,
    fun y hy => h'.dirty y (h.dirty y hy)⟩

theorem markAll_marks (s : State) : Marks s (markAll s) ∧ (s.tracking = true → ∀ y, Dirty (markAll s) y) := by
  unfold markAll
  split
  · exact ⟨⟨rfl, rfl, rfl, rfl, fun _ _ => Or.inl rfl⟩, fun _ _ => Or.inl rfl⟩
  · rename_i hoff
    exact ⟨Marks.refl s, fun hon => absurd hon hoff⟩

theorem holds_foldl (y0 : BitVec 32) (l : List ℕ) (mask : RowMask) (j : Fin 512) :
    (l.foldl (fun mask i => markRowImpl mask (y0 + BitVec.ofNat 32 i)) mask).holds j = true ↔
      mask.holds j = true ∨ ∃ i ∈ l, j = rowIndex (y0 + BitVec.ofNat 32 i) := by
  induction l generalizing mask with
  | nil => simp
  | cons i l ih =>
    rw [List.foldl_cons, ih, holds_markRow]
    simp only [Bool.or_eq_true, decide_eq_true_eq, List.mem_cons, exists_eq_or_imp, or_assoc]

theorem markRows_marks (y0 h : BitVec 32) (s : State) : Marks s (markRows y0 h s) ∧
    (s.tracking = true → ∀ y, (Mark.rows y0 h).names y → Dirty (markRows y0 h s) y) := by
  unfold markRows
  split_ifs with hoff hmany
  · refine ⟨Marks.refl s, fun hon y hy => ?_⟩
    obtain ⟨i, hi, -⟩ := hy
    rcases hoff with hoff | rfl
    · rw [hon] at hoff
      cases hoff
    · exact absurd hi (Nat.not_lt_zero i)
  · exact ⟨(markAll_marks s).1, fun hon y _ => (markAll_marks s).2 hon y⟩
  · refine ⟨⟨rfl, rfl, rfl, rfl, fun y hy => ?_⟩, fun _ y hy => ?_⟩
    · exact hy.imp_right fun hmask => (holds_foldl y0 _ _ y).mpr (Or.inl hmask)
    · obtain ⟨i, hi, rfl⟩ := hy
      exact Or.inr ((holds_foldl y0 _ _ _).mpr (Or.inr ⟨i, List.mem_range.mpr hi, rfl⟩))

theorem mark_marks (s : State) (m : Mark) : Marks s (mark s m) ∧
    (s.tracking = true → ∀ y, m.names y → Dirty (mark s m) y) := by
  cases m with
  | row y =>
    simp only [mark, markRow]
    split
    · refine ⟨⟨rfl, rfl, rfl, rfl, fun j hj => ?_⟩, fun _ j hj => ?_⟩
      · refine hj.imp_right fun hmask => ?_
        rw [holds_markRow, hmask, Bool.true_or]
      · right
        have hrow : j = rowIndex y := hj
        rw [holds_markRow, decide_eq_true hrow, Bool.or_true]
    · rename_i hoff
      exact ⟨Marks.refl s, fun hon => absurd hon hoff⟩
  | rows y0 h => exact markRows_marks y0 h s
  | rect y w h =>
    simp only [mark, markRect]
    split_ifs with hoff hmany
    · refine ⟨Marks.refl s, fun hon j hj => ?_⟩
      rcases hoff with hoff | hoff | hoff
      · rw [hon] at hoff
        cases hoff
      · exact absurd hj.1 (by omega)
      · exact absurd hj.2.1 (by omega)
    · exact ⟨(markAll_marks s).1, fun hon j _ => (markAll_marks s).2 hon j⟩
    · exact ⟨(markRows_marks y h s).1, fun hon j hj => (markRows_marks y h s).2 hon j hj.2.2⟩
  | all => exact ⟨(markAll_marks s).1, fun hon j _ => (markAll_marks s).2 hon j⟩

theorem foldl_mark (marks : List Mark) (s : State) : Marks s (marks.foldl mark s) ∧
    (s.tracking = true → ∀ m ∈ marks, ∀ y, m.names y → Dirty (marks.foldl mark s) y) := by
  induction marks generalizing s with
  | nil => exact ⟨Marks.refl s, fun _ m hm => absurd hm List.not_mem_nil⟩
  | cons m marks ih =>
    obtain ⟨hfirst, hnamed⟩ := mark_marks s m
    obtain ⟨hrest, hlater⟩ := ih (mark s m)
    refine ⟨hfirst.trans hrest, fun hon m' hm' y hy => ?_⟩
    rcases List.mem_cons.mp hm' with rfl | hm'
    · exact hrest.dirty y (hnamed hon y hy)
    · exact hlater (hfirst.tracking.trans hon) m' hm' y hy

/-! ## The invariant -/

/-- While tracking is on, a valid mirror differs from VRAM in dirty rows only. -/
def MirrorHeld (s : State) : Prop :=
  s.tracking = true → s.mirrorValid = true → ∀ y, ¬Dirty s y → s.mirror y = s.live y

/-- The patched mirror is VRAM. -/
theorem refreshed_live {s : State} (h : MirrorHeld s) (hon : s.tracking = true) :
    (refreshed s).mirror = s.live ∧ (refreshed s).live = s.live ∧ (refreshed s).tracking = true := by
  unfold refreshed
  split_ifs with hfull hnone
  · exact ⟨rfl, rfl, hon⟩
  · rw [not_or, Bool.not_eq_false] at hfull
    refine ⟨funext fun y => h hon hfull.1 y ?_, rfl, hon⟩
    have hclean : s.all = false := by
      cases hall : s.all
      · rfl
      · exact absurd hnone (by simp [rowCount, hall])
    rintro (hall | hmask)
    · rw [hclean] at hall
      cases hall
    · rw [rowCount, if_neg (by simp [hon, hclean]), List.countP_eq_zero] at hnone
      exact hnone y (List.mem_finRange y) hmask
  · rw [not_or, Bool.not_eq_false] at hfull
    refine ⟨funext fun y => ?_, rfl, hon⟩
    have hclean : s.all = false := by
      cases hall : s.all
      · rfl
      · exact absurd hfull.2 (by simp [rowCount, hall])
    dsimp only [patched]
    split
    · rfl
    · rename_i hmask
      refine h hon hfull.1 y ?_
      rintro (hall | hmask')
      · rw [hclean] at hall
        cases hall
      · exact hmask hmask'

theorem sync_live {s : State} (h : MirrorHeld s) (hon : s.tracking = true) (verify : Bool) :
    (syncVramMirrorForSave verify s).mirror = s.live ∧ (syncVramMirrorForSave verify s).live = s.live := by
  obtain ⟨hmirror, hlive, hon'⟩ := refreshed_live h hon
  have hverified : verified (refreshed s) = refreshed s := if_pos (hlive.trans hmirror.symm)
  unfold syncVramMirrorForSave clear
  rw [if_neg (by simp [hon]), hverified, ite_self, if_pos hon']
  exact ⟨hmirror, hlive⟩

theorem act_held {s : State} (h : MirrorHeld s) (a : Action) (ha : Marked s a) : MirrorHeld (act s a) := by
  cases a with
  | write vram marks =>
    obtain ⟨hmarks, hnamed⟩ := foldl_mark marks s
    intro hon hvalid y hclean
    have hon' : s.tracking = true := hmarks.tracking.symm.trans hon
    have hold : s.mirror y = s.live y :=
      h hon' (hmarks.mirrorValid.symm.trans hvalid) y fun hd => hclean (hmarks.dirty y hd)
    have hsame : vram y = s.live y := by
      by_contra hne
      obtain ⟨m, hm, hy⟩ := ha hon' y hne
      exact hclean (hnamed hon' m hm y hy)
    exact (congrFun hmarks.mirror y).trans (hold.trans hsame.symm)
  | setTracking on =>
    cases on with
    | true => exact fun _ _ y hclean => absurd (Or.inl rfl) hclean
    | false => exact nofun
  | rawSave verify =>
    simp only [act, rawSave]
    split
    · rename_i hon
      obtain ⟨hmirror, hlive⟩ := sync_live h hon verify
      exact fun _ _ y _ => congrFun (hmirror.trans hlive.symm) y
    · exact h
  | zlibSave => exact h
  | load vram =>
    cases vram with
    | none => exact h
    | some section' =>
      simp only [act, Option.elim_some, applyVram, clear]
      split_ifs
      · exact fun _ _ _ _ => rfl
      · exact fun hon => absurd hon ‹_›
  | mirrorReset => exact fun _ hvalid => nomatch hvalid

theorem Reaches.held {s : State} (h : Reaches s) : MirrorHeld s := by
  induction h with
  | start vram => exact nofun
  | step _ a ha ih => exact act_held ih a ha

/-- In every run the VRAM section of a raw save is VRAM. -/
theorem rawSave_vram {s : State} (h : Reaches s) (verify : Bool) : (rawSave verify s).1 = s.live := by
  unfold rawSave
  split
  · rename_i hon
    exact (sync_live h.held hon verify).1
  · rfl

/-- Two rows are written while tracking is on, between two raw saves. -/
theorem rawSave_vram_written : ∃ s : State, s.tracking = true ∧ s.mirrorValid = true ∧ s.all = false ∧
    s.live 511 0 = 7 ∧ s.mirror 511 0 = 0 ∧ (rawSave false s).1 = s.live := by
  have hon := (Reaches.start fun _ _ => 0).step (.setTracking true) trivial
  have hsaved := hon.step (.rawSave false) trivial
  have hwritten := hsaved.step (.write (fun y _ => if y = 511 ∨ y = 0 then 7 else 0) [.rows 511 2]) (by
    intro _ y hy
    refine ⟨_, List.mem_singleton_self _, ?_⟩
    by_cases hy' : y = 511 ∨ y = 0
    · rcases hy' with rfl | rfl
      · exact ⟨0, by decide, by decide⟩
      · exact ⟨1, by decide, by decide⟩
    · refine absurd ?_ hy
      funext x
      simp only [if_neg hy']
      rfl)
  exact ⟨_, rfl, rfl, rfl, rfl, rfl, rawSave_vram hwritten false⟩

end PsxRecomp.BootState
