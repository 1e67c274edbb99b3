import PsxRecomp.Gte.Frame

/-! The register helpers on the backing arrays against the transfers of a `GTEState`: reads, writes
and commands agree step by step, but for the FLAG word, which the import masks. -/
namespace PsxRecomp.Gte
open R3000 R3000.Cop2 StateRule
set_option autoImplicit false

/-! ## Half words -/

theorem unpackS16_widenS16 (x : Half) : unpackS16 (widenS16 x) = x := by
  unfold unpackS16 widenS16
  ext i hi
  rw [BitVec.getElem_setWidth, BitVec.getLsbD_signExtend, if_pos hi]
  simp [show i < 32 by omega, hi]

theorem unpackS16_signExtend16 (x : Word) : unpackS16 (signExtend16 x) = unpackS16 x :=
  unpackS16_widenS16 (unpackS16 x)

theorem unpackS16_mask (x : Word) : unpackS16 (x &&& 0xFFFF#32) = unpackS16 x := by
  unfold unpackS16
  ext i hi
  simp
  interval_cases i <;> simp

theorem unpackS16_widenU16 (x : Half) : unpackS16 (widenU16 x) = x := by
  unfold unpackS16 widenU16
  ext i hi
  simp

theorem widenU16_unpack (x : Word) : widenU16 (unpackS16 x) = x &&& 0xFFFF := by
  unfold widenU16 unpackS16
  ext i hi
  simp
  interval_cases i <;> simp

theorem widenS16_unpack (x : Word) : widenS16 (unpackS16 x) = signExtend16 x := rfl

theorem packS16Pair_unpack (x : Word) : packS16Pair (unpackS16 x) (unpackS16 (x >>> 16)) = x := by
  unfold packS16Pair unpackS16
  ext i hi
  by_cases h : i < 16
  · simp [h, hi]
  · simp [h, hi, show 16 + (i - 16) = i by omega, show i - 16 < 16 by omega,
      show i - 16 < 32 by omega]

theorem unpackS16_pack_lo (lo hi : Half) : unpackS16 (packS16Pair lo hi) = lo := by
  unfold packS16Pair unpackS16
  ext i h
  simp

theorem unpackS16_pack_hi (lo hi : Half) : unpackS16 (packS16Pair lo hi >>> 16) = hi := by
  unfold packS16Pair unpackS16
  ext i h
  simp [show 16 + i < 32 by omega, show i < 32 by omega, h]

/-- Both clamps of a colour component. -/
theorem clampIrgb_unpack (x : Word) : clampIrgb (unpackS16 x) = irgbComponent x := by
  have hir : (signExtend16 x).toInt = (unpackS16 x).toInt :=
    BitVec.toInt_signExtend_of_le (by decide)
  have hlow := BitVec.le_toInt (unpackS16 x)
  have hhigh := BitVec.toInt_lt (x := unpackS16 x)
  unfold clampIrgb irgbComponent
  dsimp only
  rw [Int.shiftRight_eq_div_pow, hir]
  by_cases hneg : (unpackS16 x).toInt ≤ 0
  · rw [if_pos hneg, max_eq_left (by omega)]
    rfl
  · rw [if_neg hneg]
    have hnat : ((signExtend16 x).toNat : Int) = (unpackS16 x).toInt := by
      rw [← hir, BitVec.toInt_eq_toNat_cond]
      rw [BitVec.toInt_eq_toNat_cond] at hir
      split at hir
      case isTrue h => rw [if_pos h]
      case isFalse => have := (signExtend16 x).isLt; omega
    have hscaled : ((signExtend16 x) >>> 7).toNat = (signExtend16 x).toNat / 128 := by
      rw [BitVec.toNat_ushiftRight, Nat.shiftRight_eq_div_pow]
    by_cases hbig : (0x1F : Word) < signExtend16 x >>> 7
    · rw [if_pos hbig]
      have h31 : 31 < (signExtend16 x).toNat / 128 := by
        rw [← hscaled]
        exact hbig
      rw [min_eq_right (by omega)]
      rfl
    · rw [if_neg hbig]
      have h31 : (signExtend16 x).toNat / 128 ≤ 31 := by
        rw [← hscaled]
        exact Nat.le_of_not_lt hbig
      rw [min_eq_left (by omega), max_eq_right (by omega)]
      apply BitVec.eq_of_toNat_eq
      rw [hscaled, BitVec.toNat_ofInt]
      omega

/-! ## Reads -/

/-- A statement about every register holds of each of the 32. -/
theorem forall_reg {P : Reg → Prop} (h : ∀ n < 32, P (BitVec.ofNat 5 n)) (reg : Reg) : P reg := by
  have hreg := h reg.toNat reg.isLt
  rwa [BitVec.ofNat_toNat, BitVec.setWidth_eq] at hreg

theorem statePackIrgb_import (d c : Reg → Word) (flag : Word) :
    statePackIrgb (importWords d c flag) = packIrgb d := by
  unfold statePackIrgb packIrgb importWords
  dsimp only
  rw [clampIrgb_unpack, clampIrgb_unpack, clampIrgb_unpack]

/-- A data read is the read of the imported state. -/
theorem mfc2_import (d c : Reg → Word) (flag : Word) (reg : Reg) :
    mfc2 (importWords d c flag) reg = readData { data := d, ctrl := c } reg := by
  induction reg using forall_reg with
  | _ n hn =>
  interval_cases n
  all_goals first
    | exact (Eq.refl (d _)).trans rfl
    | exact (packS16Pair_unpack (d _)).trans rfl
    | exact (widenU16_unpack (d _)).trans rfl
    | exact (widenS16_unpack (d _)).trans rfl
    | exact (Eq.refl (lzcr (d _))).trans rfl
    | exact (statePackIrgb_import d c flag).trans rfl

/-- So is a control read, but for FLAG. -/
theorem cfc2_import (d c : Reg → Word) (flag : Word) (reg : Reg) :
    cfc2 (importWords d c flag) reg =
      if reg = 31 then flag else readCtrl { data := d, ctrl := c } reg := by
  induction reg using forall_reg with
  | _ n hn =>
  interval_cases n
  all_goals first
    | exact (Eq.refl (c _)).trans rfl
    | exact (packS16Pair_unpack (c _)).trans rfl
    | exact (widenS16_unpack (c _)).trans rfl
    | rfl

/-! ## Writes -/

/-- The import does not see what the canonicalization changes. -/
theorem import_canonicalize (c : Cop2) (flag : Word) :
    importWords c.canonicalizeBacking.data c.canonicalizeBacking.ctrl flag =
      importWords c.data c.ctrl flag := by
  unfold importWords canonicalizeBacking
  simp [Function.update, unpackS16_signExtend16, unpackS16_mask]

/-- What an overwritten word of the data array is to the imported state: a transfer, but for the
words the import recomputes. -/
def setData (g : GteState) (reg : Reg) (value : Word) : GteState :=
  if reg = 15 ∨ reg = 28 ∨ reg = 29 ∨ reg = 31 then g else mtc2 g reg value

theorem import_setData (d c : Reg → Word) (flag : Word) (reg : Reg) (w : Word) :
    importWords (Function.update d reg w) c flag = setData (importWords d c flag) reg w := by
  induction reg using forall_reg with
  | _ n hn =>
  interval_cases n
  all_goals rfl

/-- The packed colours are no part of the state. -/
theorem import_repackIrgb (d c : Reg → Word) (flag : Word) :
    importWords (repackIrgb d) c flag = importWords d c flag := by
  unfold repackIrgb
  rw [import_setData, import_setData]
  rfl

theorem mtc2_signExtend16 (g : GteState) (reg : Reg) (w : Word)
    (h : reg = 1#5 ∨ reg = 3#5 ∨ reg = 5#5 ∨ reg = 8#5 ∨ reg = 9#5 ∨ reg = 10#5 ∨ reg = 11#5) :
    mtc2 g reg (signExtend16 w) = mtc2 g reg w := by
  rcases h with rfl | rfl | rfl | rfl | rfl | rfl | rfl
  all_goals simp only [mtc2, unpackS16_signExtend16]

theorem mtc2_mask (g : GteState) (reg : Reg) (w : Word)
    (h : reg = 7#5 ∨ reg = 16#5 ∨ reg = 17#5 ∨ reg = 18#5 ∨ reg = 19#5) :
    mtc2 g reg (w &&& 0xFFFF#32) = mtc2 g reg w := by
  rcases h with rfl | rfl | rfl | rfl | rfl
  all_goals simp only [mtc2, unpackS16_mask]

/-- A data write is the transfer into the imported state. -/
theorem import_writeData (c : Cop2) (reg : Reg) (val : Word) (flag : Word) :
    importWords (c.writeData reg val).data (c.writeData reg val).ctrl flag =
      mtc2 (importWords c.data c.ctrl flag) reg val := by
  rw [← import_canonicalize c flag]
  unfold writeData
  generalize c.canonicalizeBacking = c
  dsimp only
  have hmask : ∀ reg, reg = 7#5 ∨ reg = 16#5 ∨ reg = 17#5 ∨ reg = 18#5 ∨ reg = 19#5 →
      importWords (Function.update c.data reg (val &&& 0xFFFF#32)) c.ctrl flag =
        mtc2 (importWords c.data c.ctrl flag) reg val := by
    intro reg h
    rw [import_setData, setData, if_neg, mtc2_mask _ _ _ h]
    rcases h with rfl | rfl | rfl | rfl | rfl <;> decide
  have hsigned : ∀ reg, reg = 1#5 ∨ reg = 3#5 ∨ reg = 5#5 ∨ reg = 8#5 ∨ reg = 9#5 ∨ reg = 10#5 ∨
      reg = 11#5 → importWords (Function.update c.data reg (signExtend16 val)) c.ctrl flag =
        mtc2 (importWords c.data c.ctrl flag) reg val := by
    intro reg h
    rw [import_setData, setData, if_neg, mtc2_signExtend16 _ _ _ h]
    rcases h with rfl | rfl | rfl | rfl | rfl | rfl | rfl <;> decide
  split
  case h_1 | h_2 | h_3 | h_4 | h_5 => exact hmask _ (by decide)
  case h_6 | h_7 | h_8 | h_9 => exact hsigned _ (by decide)
  case h_10 | h_11 | h_12 =>
    rw [import_repackIrgb]
    exact hsigned _ (by decide)
  case h_13 =>
    rw [import_setData, import_setData]
    rfl
  case h_14 =>
    -- the words move as the FIFO of the state does
    change importWords (Function.update (Function.update (Function.update (Function.update c.data
      12#5 (c.data 13)) 13#5 (c.data 14)) 14#5 val) 15#5 val) c.ctrl flag = _
    rw [import_setData, import_setData, import_setData, import_setData]
    simp only [setData, mtc2, importWords, BitVec.reduceEq, if_false, if_true, or_false,
      Matrix.cons_val]
  case h_15 =>
    change importWords (Function.update (Function.update (Function.update (Function.update
      (Function.update c.data 9#5 _) 10#5 _) 11#5 _) 28#5 _) 29#5 _) c.ctrl flag = _
    rw [import_setData, import_setData, import_setData, import_setData, import_setData]
    simp only [setData, mtc2, BitVec.reduceEq, if_false, if_true, or_true, or_false]
  case h_16 => rw [import_repackIrgb]; rfl
  case h_17 =>
    rw [import_setData, import_setData]
    rfl
  case h_18 =>
    rw [import_setData]
    rfl
  case h_19 h =>
    rw [import_setData, setData, if_neg]
    simp_all

/-- A word of the control array other than FLAG, overwritten. -/
theorem import_setCtrl (d c : Reg → Word) (flag : Word) (reg : Reg) (w : Word) :
    importWords d (Function.update c reg w) flag =
      if reg = 31 then importWords d c flag else ctc2 (importWords d c flag) reg w := by
  induction reg using forall_reg with
  | _ n hn =>
  interval_cases n
  all_goals rfl

theorem ctc2_signExtend16 (g : GteState) (reg : Reg) (w : Word)
    (h : reg = 4#5 ∨ reg = 12#5 ∨ reg = 20#5 ∨ reg = 26#5 ∨ reg = 27#5 ∨ reg = 29#5 ∨ reg = 30#5) :
    ctc2 g reg (signExtend16 w) = ctc2 g reg w := by
  rcases h with rfl | rfl | rfl | rfl | rfl | rfl | rfl
  all_goals simp only [ctc2, unpackS16_signExtend16]

/-- A control write is the transfer, but for FLAG. -/
theorem import_writeCtrl (c : Cop2) (reg : Reg) (val : Word) (flag : Word) :
    importWords (c.writeCtrl reg val).data (c.writeCtrl reg val).ctrl flag =
      if reg = 31 then importWords c.data c.ctrl flag
      else ctc2 (importWords c.data c.ctrl flag) reg val := by
  rw [← import_canonicalize c flag]
  unfold writeCtrl
  generalize c.canonicalizeBacking = c
  dsimp only
  rw [import_setCtrl]
  split
  case isTrue => rfl
  case isFalse hne =>
    split
    case h_8 => exact absurd rfl hne
    case h_9 => rfl
    all_goals exact ctc2_signExtend16 _ _ _ (by decide)

/-- What a write leaves of FLAG. -/
theorem writeCtrl_flag (c : Cop2) (reg : Reg) (val : Word) :
    (c.writeCtrl reg val).ctrl 31 =
      if reg = 31 then withErrorFlag (val &&& 0x7FFFF000) else c.ctrl 31 := by
  unfold writeCtrl
  dsimp only
  rw [Function.update_apply]
  by_cases h : reg = 31
  · rw [h, if_pos rfl, if_pos rfl]
    rfl
  · rw [if_neg (Ne.symm h), if_neg h]
    rfl

theorem writeData_flag (c : Cop2) (reg : Reg) (val : Word) :
    (c.writeData reg val).ctrl 31 = c.ctrl 31 := rfl

theorem ctc2_flag (g : GteState) (w : Word) :
    ctc2 g 31#5 w = { g with flag := withErrorFlag (w &&& 0x7FFFF000) } := rfl

/-- The reference loads what the import does, with the error summary of FLAG. -/
theorem loadReference_eq (c : Cop2) :
    loadReference c =
      importWords c.data c.ctrl (withErrorFlag (c.ctrl 31 &&& 0x7FFFF000)) := by
  unfold loadReference
  rfl

/-! ## Commands -/

/-- An export writes what the transfers read. -/
theorem exportCpuState_eq (g : GteState) : exportCpuState g = { data := mfc2 g, ctrl := cfc2 g } := rfl

theorem vec3_eta {α : Type} (v : Fin 3 → α) : ![v 0, v 1, v 2] = v := by
  funext i
  fin_cases i <;> rfl

theorem vec4_eta {α : Type} (v : Fin 4 → α) : ![v 0, v 1, v 2, v 3] = v := by
  funext i
  fin_cases i <;> rfl

theorem vector_words (v : Vector) :
    ![unpackS16 (packS16Pair (v 0) (v 1)), unpackS16 (packS16Pair (v 0) (v 1) >>> 16),
      unpackS16 (widenS16 (v 2))] = v := by
  rw [unpackS16_pack_lo, unpackS16_pack_hi, unpackS16_widenS16]
  exact vec3_eta v

theorem matrix_words (m : Matrix) :
    ![![unpackS16 (packS16Pair (m 0 0) (m 0 1)), unpackS16 (packS16Pair (m 0 0) (m 0 1) >>> 16),
        unpackS16 (packS16Pair (m 0 2) (m 1 0))],
      ![unpackS16 (packS16Pair (m 0 2) (m 1 0) >>> 16), unpackS16 (packS16Pair (m 1 1) (m 1 2)),
        unpackS16 (packS16Pair (m 1 1) (m 1 2) >>> 16)],
      ![unpackS16 (packS16Pair (m 2 0) (m 2 1)), unpackS16 (packS16Pair (m 2 0) (m 2 1) >>> 16),
        unpackS16 (widenS16 (m 2 2))]] = m := by
  simp only [unpackS16_pack_lo, unpackS16_pack_hi, unpackS16_widenS16, vec3_eta]

theorem depth_words (z : Fin 4 → Half) :
    ![unpackS16 (widenU16 (z 0)), unpackS16 (widenU16 (z 1)), unpackS16 (widenU16 (z 2)),
      unpackS16 (widenU16 (z 3))] = z := by
  simp only [unpackS16_widenU16, vec4_eta]

/-- A canonical state survives the arrays. -/
theorem import_export {g : GteState} (h : Canonical g) (flag : Word) :
    importWords (exportCpuState g).data (exportCpuState g).ctrl flag = { g with flag := flag } := by
  have hmirror : ![g.sxy 0, g.sxy 1, g.sxy 2, g.sxy 2] = g.sxy := by
    nth_rewrite 2 [← h.1]
    exact vec4_eta g.sxy
  have hlzcr : lzcr g.lzcs = g.lzcr := h.2.symm
  ext1
  case v0 | v1 | v2 => exact vector_words _
  case rt | l | lc => exact matrix_words _
  case rgb | tr | bk | fc => exact vec3_eta _
  case sz => exact depth_words _
  case otz => exact unpackS16_widenU16 _
  case h | dqa | zsf3 | zsf4 | ir0 | ir1 | ir2 | ir3 => exact unpackS16_widenS16 _
  case lzcr => exact hlzcr
  case sxy => exact hmirror
  all_goals rfl

/-- The two bridges leave the same 64 words. -/
theorem execute_eq_reference (c : Cop2) (instr : Word) :
    execute c instr = testExecuteReference c instr := by
  unfold execute testExecuteReference
  cases hrun : runCommand instr with
  | none => rw [Option.map_none, Option.map_none]
  | some run =>
    have hcommand := isCommand_of_run hrun
    have hsame : run (importCpuState c) = run (loadReference c) := by
      rw [loadReference_eq, ← hcommand.ignoresFlag (importWords c.data c.ctrl _)
        (c.ctrl 31 &&& 0x7FFFF000)]
      rfl
    rw [Option.map_some, Option.map_some, hsame, exportCpuState_eq]

end PsxRecomp.Gte
