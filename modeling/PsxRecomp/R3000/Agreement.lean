import PsxRecomp.R3000.Translate
import PsxRecomp.R3000.Interpret

/-! Where the two tiers agree on one instruction: family by family, then for every word the
translator supports. -/
namespace PsxRecomp.R3000
open MachineWord
set_option autoImplicit false

variable {M : Type} (rt : Runtime M)

/-! ## Writes -/

theorem emitGprWrite_eq (dest : Reg) (rhs : State M → Word) (s : State M) :
    emitGprWrite dest rhs s = interpWrite dest (rhs s) s := by
  unfold emitGprWrite interpWrite
  split
  case isTrue h => rw [h, State.setGpr, RegFile.set_zero]
  case isFalse h => rfl

/-- The probe of ADD and ADDI. -/
def addOverflows (a b : Word) : Prop :=
  a.toInt + b.toInt < -2147483648 ∨ 2147483647 < a.toInt + b.toInt

instance (a b : Word) : Decidable (addOverflows a b) := by
  unfold addOverflows
  infer_instance

theorem emitAddTrapping_eq (dest : Reg) (a b : State M → Word) (s : State M) :
    emitAddTrapping dest a b s =
      if addOverflows (a s) (b s) then .exit else interpWrite dest (a s + b s) s := by
  rw [← emitGprWrite_eq dest (fun s => a s + b s) s]
  unfold emitAddTrapping addOverflows emitGprWrite
  simp only [ofInt_toInt_add]

/-! ## Multiply and divide -/

theorem setWidth_low (p : BitVec 64) : (p &&& 0xFFFFFFFF).setWidth 32 = p.setWidth 32 := by
  have h : (0xFFFFFFFF : BitVec 64).setWidth 32 = BitVec.allOnes 32 := by decide
  rw [BitVec.setWidth_and, h, BitVec.and_allOnes]

theorem emitMult_eq (rs rt : Reg) (s : State M) : emitMult rs rt s = interpMult rs rt s := by
  unfold emitMult interpMult
  simp only [setWidth_low]

theorem emitMultu_eq (rs rt : Reg) (s : State M) : emitMultu rs rt s = interpMultu rs rt s := by
  unfold emitMultu interpMultu
  simp only [setWidth_low]

theorem emitDiv_eq (rs rt : Reg) (s : State M) : emitDiv rs rt s = interpDiv rs rt s := by
  unfold emitDiv interpDiv
  simp only [sub_sdiv_mul, ← not_lt, ite_not]

theorem emitDivu_eq (rs rt : Reg) (s : State M) : emitDivu rs rt s = interpDivu rs rt s := by
  unfold emitDivu interpDivu
  simp only [sub_udiv_mul]

/-! ## Byte lanes -/

theorem byteOffset_cases (addr : Word) :
    addr &&& 3 = 0#32 ∨ addr &&& 3 = 1#32 ∨ addr &&& 3 = 2#32 ∨ addr &&& 3 = 3#32 := by
  have h : (addr &&& 3).toNat < 4 := by
    rw [BitVec.toNat_and]
    exact Nat.lt_of_le_of_lt Nat.and_le_right (by decide)
  simp only [← BitVec.toNat_inj, BitVec.toNat_ofNat]
  omega

theorem lwl_lane (addr word old : Word) :
    old &&& ((1#32 <<< ((3 - (addr &&& 3)) * 8)) - 1) ||| word <<< ((3 - (addr &&& 3)) * 8) =
      lwlMerge addr word old := by
  rcases byteOffset_cases addr with h | h | h | h <;> simp only [lwlMerge, h] <;> simp

theorem lwr_lane (addr word old : Word) :
    old &&& ~~~(0xFFFFFFFF#32 >>> ((addr &&& 3) * 8)) ||| word >>> ((addr &&& 3) * 8) =
      lwrMerge addr word old := by
  rcases byteOffset_cases addr with h | h | h | h <;> simp only [lwrMerge, h] <;> simp

/-- SWL: the interpreter keeps the bytes above the stored ones. -/
theorem swl_lane (addr word value : Word) :
    swlMerge addr word value =
      word &&& (0xFFFFFF00#32 <<< ((addr &&& 3) * 8)) ||| value >>> ((3 - (addr &&& 3)) * 8) := by
  rcases byteOffset_cases addr with h | h | h | h <;> simp only [swlMerge, h] <;> simp

/-- SWR: the interpreter keeps the bytes below the stored ones. -/
theorem swr_lane (addr word value : Word) :
    swrMerge addr word value =
      word &&& (0x00FFFFFF#32 >>> ((3 - (addr &&& 3)) * 8)) ||| value <<< ((addr &&& 3) * 8) := by
  rcases byteOffset_cases addr with h | h | h | h <;> simp only [swrMerge, h] <;> simp

/-! ## Where the tiers part -/

/-- The half and word accesses: the address is aligned, or the fault changes nothing any more
(the dump of the callback table is over, and COP0 holds what the exception would leave). -/
def alignedOrSettled (mask excCode pc raw : Word) (s : State M) : Prop :=
  emitAddress raw s &&& mask = 0#32 ∨
    3 ≤ s.faults ∧ exceptionCop0 s.cop0 excCode (emitAddress raw s) pc = s.cop0

/-- MTC0: a write to Cause leaves the bits outside the mask alone, and no software interrupt
becomes deliverable. -/
def mtc0Settled (raw : Word) (s : State M) : Prop :=
  let rd := rdField raw
  let val := s.gpr (rtField raw)
  (rd = 13#5 → val &&& ~~~0x0300#32 = s.cop0 13#5 &&& ~~~0x0300#32) ∧
    ¬softwareInterrupt (Function.update s.cop0 rd (mtc0Value s.cop0 rd val)) rd

/-- SWL: the word in memory has no bit, beside those stored, on which the two keep masks
differ. -/
def swlSettled (raw : Word) (s : State M) : Prop :=
  let addr := emitAddress raw s
  let bits := (addr &&& 3) * 8
  (s.readWord rt (addr &&& ~~~3#32)).1 &&& (0x00FFFFFF#32 >>> bits ^^^ 0xFFFFFF00#32 <<< bits) &&&
    ~~~(s.gpr (rtField raw) >>> ((3 - (addr &&& 3)) * 8)) = 0#32

/-- SWR, with the masks of the other end. -/
def swrSettled (raw : Word) (s : State M) : Prop :=
  let addr := emitAddress raw s
  let bits := (3 - (addr &&& 3)) * 8
  (s.readWord rt (addr &&& ~~~3#32)).1 &&& (0xFFFFFF00#32 <<< bits ^^^ 0x00FFFFFF#32 >>> bits) &&&
    ~~~(s.gpr (rtField raw) <<< ((addr &&& 3) * 8)) = 0#32

/-- The tiers meet on the word `raw` at `pc`. -/
def TiersMeet (pc raw : Word) (s : State M) : Prop :=
  match opField raw with
  | 0x00#6 => functField raw = 0x20#6 → ¬addOverflows (s.gpr (rsField raw)) (s.gpr (rtField raw))
  | 0x08#6 => ¬addOverflows (s.gpr (rsField raw)) (simm16Field raw)
  | 0x10#6 =>
    if raw = rfeWord then s.cop0 12#5 &&& 0x30 = 0#32
    else rsField raw = 0x04#5 → mtc0Settled raw s
  | 0x21#6 => alignedOrSettled 1 4 pc raw s
  | 0x23#6 => alignedOrSettled 3 4 pc raw s
  | 0x25#6 => alignedOrSettled 1 4 pc raw s
  | 0x29#6 => alignedOrSettled 1 5 pc raw s
  | 0x2B#6 => alignedOrSettled 3 5 pc raw s
  | 0x2A#6 => swlSettled rt raw s
  | 0x2E#6 => swrSettled rt raw s
  | _ => True

/-! ## Effects, family by family -/

theorem effect_iff_true {o p : Outcome (State M)} (h : o = p) : o.effect = p.effect ↔ True := by
  rw [h]
  exact iff_of_true rfl trivial

theorem add_effect_iff (dest : Reg) (a b : State M → Word) (s : State M) :
    (emitAddTrapping dest a b s).effect = (interpWrite dest (a s + b s) s).effect ↔
      ¬addOverflows (a s) (b s) := by
  rw [emitAddTrapping_eq]
  split
  case isTrue h => exact iff_of_false (by simp [Outcome.effect, interpWrite]) (not_not.2 h)
  case isFalse h => exact iff_of_true rfl h

theorem bus_readWord (s : State M) (addr : Word) :
    (s.readWord rt addr).2.bus = s.bus ++ [.readWord addr] := rfl

/-- The dump of the callback table is twelve reads. -/
theorem unalignedAccess_bus (s : State M) (h : s.faults < 3) :
    (unalignedAccess rt s).bus.length = s.bus.length + 12 := by
  have hfold : ∀ (l : List ℕ) (t : State M),
      (l.foldl (fun s i => (s.readWord rt (0x800DFEE0 + BitVec.ofNat 32 (i * 4))).2) t).bus.length =
        t.bus.length + l.length := by
    intro l
    induction l with
    | nil => intro t; rfl
    | cons i l ih =>
      intro t
      rw [List.foldl_cons, ih, bus_readWord, List.length_append, List.length_singleton,
        List.length_cons, Nat.add_assoc, Nat.add_comm 1]
  unfold unalignedAccess
  rw [if_pos h]
  simp only [bus_readWord, List.length_append, List.length_singleton, hfold, List.length_range]

theorem unalignedAccess_settled (s : State M) (h : 3 ≤ s.faults) : unalignedAccess rt s = s := by
  unfold unalignedAccess
  rw [if_neg (Nat.not_lt.2 h)]

theorem fault_effect_iff (excCode addr pc : Word) (s : State M) :
    (Outcome.abandon (unalignedAccess rt s)).effect = (interpException excCode addr pc s).effect ↔
      3 ≤ s.faults ∧ exceptionCop0 s.cop0 excCode addr pc = s.cop0 := by
  by_cases h : 3 ≤ s.faults
  · rw [unalignedAccess_settled rt s h]
    simp only [Outcome.effect, interpException, Outcome.state?_abandon, Outcome.state?_transfer,
      Option.map_some, State.effect, Option.some.injEq, Effect.mk.injEq, true_and, and_true, h]
    exact eq_comm
  · refine iff_of_false (fun he => ?_) (fun hs => h hs.1)
    have hbus : (unalignedAccess rt s).bus = s.bus := by
      have hb := congrArg (Option.map Effect.bus) he
      exact Option.some.inj hb
    have hlen := unalignedAccess_bus rt s (Nat.not_le.1 h)
    rw [hbus] at hlen
    omega

/-- An access behind an alignment check, the same on both tiers where it is made. -/
theorem checked_effect_iff (mask excCode pc raw : Word) (s : State M) (o : Outcome (State M)) :
    (if emitAddress raw s &&& mask ≠ 0#32 then .abandon (unalignedAccess rt s) else o).effect =
      (if emitAddress raw s &&& mask ≠ 0#32 then interpException excCode (emitAddress raw s) pc s
        else o).effect ↔ alignedOrSettled mask excCode pc raw s := by
  unfold alignedOrSettled
  by_cases ha : emitAddress raw s &&& mask = 0#32
  · rw [if_neg (not_not.2 ha), if_neg (not_not.2 ha)]
    exact iff_of_true rfl (Or.inl ha)
  · rw [if_pos ha, if_pos ha, fault_effect_iff]
    exact (or_iff_right ha).symm

theorem load_run {dest : Reg} {value : LoadValue M} {c : Code M}
    (h : emitLoad dest value = .code c) (s : State M) : c.run s = writeLoaded dest (value s) := by
  unfold emitLoad at h
  split at h
  case isTrue hd =>
    cases h
    show dropLoaded (value s) = writeLoaded dest (value s)
    cases value s with
    | error t => rfl
    | ok p => simp only [dropLoaded, writeLoaded, hd, State.setGpr, RegFile.set_zero]
  case isFalse hd =>
    cases h
    rfl

theorem lb_effect_iff {raw : Word} {c : Code M}
    (h : emitLoad (rtField raw) (lbValue rt raw) = .code c) (s : State M) :
    (c.run s).effect = (interpLb rt raw s).effect ↔ True :=
  effect_iff_true (load_run h s)

theorem lbu_effect_iff {raw : Word} {c : Code M}
    (h : emitLoad (rtField raw) (lbuValue rt raw) = .code c) (s : State M) :
    (c.run s).effect = (interpLbu rt raw s).effect ↔ True :=
  effect_iff_true (load_run h s)

theorem lh_effect_iff {pc raw : Word} {c : Code M}
    (h : emitLoad (rtField raw) (lhValue rt raw) = .code c) (s : State M) :
    (c.run s).effect = (interpLh rt pc raw s).effect ↔ alignedOrSettled 1 4 pc raw s := by
  rw [load_run h, ← checked_effect_iff rt]
  unfold lhValue
  rw [apply_ite (writeLoaded (rtField raw))]
  exact Iff.rfl

theorem lhu_effect_iff {pc raw : Word} {c : Code M}
    (h : emitLoad (rtField raw) (lhuValue rt raw) = .code c) (s : State M) :
    (c.run s).effect = (interpLhu rt pc raw s).effect ↔ alignedOrSettled 1 4 pc raw s := by
  rw [load_run h, ← checked_effect_iff rt]
  unfold lhuValue
  rw [apply_ite (writeLoaded (rtField raw))]
  exact Iff.rfl

theorem lw_effect_iff {pc raw : Word} {c : Code M}
    (h : emitLoad (rtField raw) (lwValue rt raw) = .code c) (s : State M) :
    (c.run s).effect = (interpLw rt pc raw s).effect ↔ alignedOrSettled 3 4 pc raw s := by
  rw [load_run h, ← checked_effect_iff rt]
  unfold lwValue
  rw [apply_ite (writeLoaded (rtField raw))]
  exact Iff.rfl

theorem emitLwl_eq (raw : Word) (s : State M) :
    emitLwl rt raw (fun s => s.gpr (rtField raw)) s = interpLwl rt raw s := by
  unfold emitLwl interpLwl interpWrite
  simp only [lwl_lane]
  split
  case isTrue h => simp only [h, State.setGpr, RegFile.set_zero]; rfl
  case isFalse h => rfl

theorem emitLwr_eq (raw : Word) (s : State M) :
    emitLwr rt raw (fun s => s.gpr (rtField raw)) s = interpLwr rt raw s := by
  unfold emitLwr interpLwr interpWrite
  simp only [lwr_lane]
  split
  case isTrue h => simp only [h, State.setGpr, RegFile.set_zero]; rfl
  case isFalse h => rfl

theorem emitSb_eq (raw : Word) (s : State M) : emitSb rt raw s = interpSb rt raw s := by
  have h : ∀ v : Word, (v &&& 0xFF).setWidth 8 = v.setWidth 8 := by
    intro v
    have hm : (0xFF : Word).setWidth 8 = BitVec.allOnes 8 := by decide
    rw [BitVec.setWidth_and, hm, BitVec.and_allOnes]
  unfold emitSb interpSb
  rw [h]
  rfl

theorem sh_effect_iff (pc raw : Word) (s : State M) :
    (emitSh rt raw s).effect = (interpSh rt pc raw s).effect ↔ alignedOrSettled 1 5 pc raw s := by
  have h : ∀ v : Word, (v &&& 0xFFFF).setWidth 16 = v.setWidth 16 := by
    intro v
    have hm : (0xFFFF : Word).setWidth 16 = BitVec.allOnes 16 := by decide
    rw [BitVec.setWidth_and, hm, BitVec.and_allOnes]
  rw [← checked_effect_iff rt]
  unfold emitSh
  rw [h]
  exact Iff.rfl

theorem sw_effect_iff (pc raw : Word) (s : State M) :
    (emitSw rt raw s).effect = (interpSw rt pc raw s).effect ↔ alignedOrSettled 3 5 pc raw s := by
  rw [← checked_effect_iff rt]
  exact Iff.rfl

/-- Two stores at one address that differ in the value are two different events. -/
theorem writeWord_effect_iff (s : State M) (addr v w : Word) :
    (Outcome.next (s.writeWord rt addr v)).effect = (Outcome.next (s.writeWord rt addr w)).effect ↔
      v = w := by
  constructor
  · intro he
    have hb := Option.some.inj (congrArg (Option.map Effect.bus) he)
    have hl : s.bus ++ [BusEvent.writeWord addr v] = s.bus ++ [.writeWord addr w] := hb
    have hv := List.append_cancel_left hl
    simpa using hv
  · intro h
    rw [h]

theorem swl_effect_iff (raw : Word) (s : State M) :
    (emitSwl rt raw s).effect = (interpSwl rt raw s).effect ↔ swlSettled rt raw s := by
  unfold swlSettled
  rw [← masked_or_eq_iff, ← swl_lane]
  exact writeWord_effect_iff rt (s.readWord rt (emitAddress raw s &&& ~~~3#32)).2 _ _ _

theorem swr_effect_iff (raw : Word) (s : State M) :
    (emitSwr rt raw s).effect = (interpSwr rt raw s).effect ↔ swrSettled rt raw s := by
  unfold swrSettled
  rw [← masked_or_eq_iff, ← swr_lane]
  exact writeWord_effect_iff rt (s.readWord rt (emitAddress raw s &&& ~~~3#32)).2 _ _ _

theorem syscall_effect (pc raw : Word) (s : State M) :
    (emitSyscall rt pc s).effect = (interpSyscall rt pc raw s).effect := by
  unfold emitSyscall interpSyscall
  rw [rt.psxSyscall_code _ (s.gpr 2#5) ((raw >>> 6) &&& 0xFFFFF)]
  cases rt.psxSyscall { s with pc := pc } ((raw >>> 6) &&& 0xFFFFF) with
  | none => rfl
  | some p =>
    obtain ⟨transfer, t⟩ := p
    cases transfer <;> dsimp only <;> split <;> rfl

/-! ## Coprocessor 0 -/

/-- Two COP0 files that differ at most in one register. -/
theorem cop0_effect_iff (s : State M) (r : Reg) (v w : Word) :
    State.effect { s with cop0 := Function.update s.cop0 r v } =
      State.effect { s with cop0 := Function.update s.cop0 r w } ↔ v = w := by
  constructor
  · intro he
    have hc : Function.update s.cop0 r v = Function.update s.cop0 r w :=
      congrArg Effect.cop0 he
    have hr := congrFun hc r
    rw [Function.update_self, Function.update_self] at hr
    exact hr
  · intro h
    rw [h]

theorem rfe_effect_iff (s : State M) :
    (emitRfe s).effect = (interpRfe s).effect ↔ s.cop0 12#5 &&& 0x30 = 0#32 := by
  have hmask : (0xFFFFFFC0#32 ^^^ 0xFFFFFFF0#32) = 0x30#32 := by decide
  have hdisj : (0x30#32 &&& 0x0F#32) = 0#32 := by decide
  have hiff := masked_or_eq_iff (s.cop0 12#5) 0xFFFFFFC0#32 0xFFFFFFF0#32
    ((s.cop0 12#5 >>> 2) &&& 0x0F#32)
  rw [hmask, BitVec.and_assoc, and_not_of_disjoint _ _ _ hdisj] at hiff
  refine Iff.trans ?_ hiff
  rw [← cop0_effect_iff s 12#5]
  exact Option.some_inj

theorem mtc0Value_eq_iff (cop0 : Reg → Word) (rd : Reg) (val : Word) :
    val = mtc0Value cop0 rd val ↔
      (rd = 13#5 → val &&& ~~~0x0300#32 = cop0 13#5 &&& ~~~0x0300#32) := by
  unfold mtc0Value
  by_cases h : rd = 13#5
  · rw [if_pos h, eq_comm, masked_write_eq_iff]
    exact ⟨fun e _ => e, fun e => e h⟩
  · rw [if_neg h]
    exact iff_of_true rfl (fun e => absurd e h)

/-- After an interrupt check the run has done more than `s` had. -/
theorem checkInterrupts_effect_ne (s t : State M) (pc : Word) (hbus : t.bus = s.bus) :
    (match rt.psxCheckInterrupts (t.log (.checkInterrupts pc)) with
      | none => Outcome.exit
      | some u => if u.pc ≠ pc then .transfer u else .next u).effect ≠ some s.effect := by
  intro he
  cases hc : rt.psxCheckInterrupts (t.log (.checkInterrupts pc)) with
  | none => simp [hc, Outcome.effect] at he
  | some u =>
    have hpre := (rt.psxCheckInterrupts_bus _ _ hc).length_le
    have hlog : (t.log (.checkInterrupts pc)).bus = s.bus ++ [.checkInterrupts pc] := by
      rw [← hbus]
      rfl
    have hu : u.effect = s.effect := by
      rw [hc] at he
      dsimp only at he
      split at he <;> exact Option.some.inj he
    have hub : u.bus = s.bus := congrArg Effect.bus hu
    rw [hlog, hub, List.length_append, List.length_singleton] at hpre
    omega

theorem mtc0_effect_iff (pc raw : Word) (s : State M) :
    (emitMtc0 (rdField raw) (rtField raw) s).effect = (interpMtc0 rt pc raw s).effect ↔
      mtc0Settled raw s := by
  unfold interpMtc0 mtc0Settled
  dsimp only
  by_cases hsw : softwareInterrupt (Function.update s.cop0 (rdField raw)
      (mtc0Value s.cop0 (rdField raw) (s.gpr (rtField raw)))) (rdField raw)
  · rw [if_pos hsw]
    refine iff_of_false (fun he => ?_) (fun h => h.2 hsw)
    refine checkInterrupts_effect_ne rt _ _ (pc + 4) ?_ he.symm
    rfl
  · rw [if_neg hsw, ← mtc0Value_eq_iff, and_iff_left hsw]
    refine Iff.trans ?_ (cop0_effect_iff s (rdField raw) _ _)
    exact Option.some_inj

/-! ## Coprocessor 2 -/

theorem emitDataRead_eq (c : Cop2) (reg : Reg) : emitDataRead c reg = c.readData reg := by
  unfold emitDataRead
  split
  case isTrue => rfl
  case isFalse h => exact (Cop2.readData_raw c reg (by simpa using h)).symm

theorem emitCtrlRead_eq (c : Cop2) (reg : Reg) : emitCtrlRead c reg = c.readCtrl reg := by
  unfold emitCtrlRead
  split
  case isTrue => rfl
  case isFalse h => exact (Cop2.readCtrl_raw c reg (by simpa using h)).symm

theorem emitCop2Address_eq (raw : Word) (s : State M) :
    emitCop2Address raw s = interpAddress raw s := by
  unfold emitCop2Address
  split
  case isTrue h => rw [interpAddress, h, BitVec.add_zero]
  case isFalse => rfl

theorem swc2_eq (raw : Word) (s : State M) : emitSwc2 rt raw s = interpSwc2 rt raw s := by
  unfold emitSwc2 interpSwc2
  rw [emitCop2Address_eq, emitDataRead_eq]

/-- A load into COP2 differs at most in the backing words, which the effect leaves out. -/
theorem lwc2_effect (raw : Word) (s : State M) :
    (emitLwc2 rt raw s).effect = (interpLwc2 rt raw s).effect := by
  unfold emitLwc2 interpLwc2
  rw [emitCop2Address_eq]
  rfl

/-- Where the operation is none of the four moves, bit 4 of it tells a command. -/
theorem translateCop2_other {raw : Word} (h0 : rsField raw ≠ 0x00#5) (h2 : rsField raw ≠ 0x02#5)
    (h4 : rsField raw ≠ 0x04#5) (h6 : rsField raw ≠ 0x06#5) :
    translateCop2 rt raw =
      if rsField raw &&& 0x10 ≠ 0#5 then .code { run := gteCommand rt raw } else .unsupported := by
  unfold translateCop2
  dsimp only
  split
  · exact absurd ‹_› h0
  · exact absurd ‹_› h2
  · exact absurd ‹_› h4
  · exact absurd ‹_› h6
  · rfl

theorem execCop2_other {raw : Word} (h0 : rsField raw ≠ 0x00#5) (h2 : rsField raw ≠ 0x02#5)
    (h4 : rsField raw ≠ 0x04#5) (h6 : rsField raw ≠ 0x06#5) (s : State M) :
    execCop2 rt raw s =
      if rsField raw &&& 0x10 ≠ 0#5 then interpGteCommand rt raw s else abortUnsupported s := by
  unfold execCop2
  dsimp only
  split
  · exact absurd ‹_› h0
  · exact absurd ‹_› h2
  · exact absurd ‹_› h4
  · exact absurd ‹_› h6
  · rfl

theorem cop2_effect {raw : Word} {c : Code M} (h : translateCop2 rt raw = .code c) (s : State M) :
    (c.run s).effect = (execCop2 rt raw s).effect := by
  by_cases h0 : rsField raw = 0x00#5
  · simp only [translateCop2, execCop2, h0] at h ⊢
    cases h
    simp only [emitGprWrite_eq, emitDataRead_eq]
  by_cases h2 : rsField raw = 0x02#5
  · simp only [translateCop2, execCop2, h2] at h ⊢
    cases h
    simp only [emitGprWrite_eq, emitCtrlRead_eq]
  by_cases h4 : rsField raw = 0x04#5
  · simp only [translateCop2, execCop2, h4] at h ⊢
    cases h
    rfl
  by_cases h6 : rsField raw = 0x06#5
  · simp only [translateCop2, execCop2, h6] at h ⊢
    cases h
    rfl
  rw [translateCop2_other rt h0 h2 h4 h6] at h
  rw [execCop2_other rt h0 h2 h4 h6]
  split at h
  case isFalse => cases h
  case isTrue hc =>
    cases h
    rw [if_pos hc]
    rfl

theorem cop0_iff {pc raw : Word} {c : Code M} (h : translateCop0 raw = .code c) (s : State M) :
    (c.run s).effect = (execCop0 rt pc raw s).effect ↔
      if raw = rfeWord then s.cop0 12#5 &&& 0x30 = 0#32
      else rsField raw = 0x04#5 → mtc0Settled raw s := by
  unfold translateCop0 at h
  unfold execCop0
  dsimp only at h
  split at h
  case isTrue hr =>
    cases h
    have hrs : rsField raw = 0x10#5 := by rw [hr]; decide
    have hfn : functField raw = 0x10#6 := by rw [hr]; decide
    rw [if_pos hr, hrs]
    dsimp only
    rw [if_pos hfn]
    exact rfe_effect_iff s
  case isFalse hr =>
    rw [if_neg hr]
    split at h
    case h_1 hf =>
      cases h
      rw [hf]
      refine iff_of_true ?_ (fun e => absurd e (by decide))
      simp only [emitGprWrite_eq]
    case h_2 hf =>
      cases h
      rw [hf]
      exact (mtc0_effect_iff rt pc raw s).trans ⟨fun e _ => e, fun e => e rfl⟩
    case h_3 => cases h

/-! ## The switch -/

/-- A function other than ADD: the two outcomes are the same. -/
theorem effect_iff_of_ne {o p : Outcome (State M)} {f k : BitVec 6} {q : Prop} (hf : f = k)
    (hk : k ≠ 0x20#6) (h : o.effect = p.effect) : o.effect = p.effect ↔ (f = 0x20#6 → q) :=
  iff_of_true h (fun e => absurd (hf.symm.trans e) hk)

theorem special_effect_iff {pc raw : Word} {c : Code M}
    (h : translateSpecial rt raw pc = .code c) (s : State M) :
    (c.run s).effect = (execSpecial rt pc raw s).effect ↔
      (functField raw = 0x20#6 → ¬addOverflows (s.gpr (rsField raw)) (s.gpr (rtField raw))) := by
  unfold translateSpecial at h
  unfold execSpecial
  dsimp only at h ⊢
  split at h
  case h_7 => cases h
  case h_8 => cases h
  case h_9 hf => cases h; rw [hf]; exact effect_iff_of_ne rfl (by decide) (syscall_effect rt pc raw s)
  case h_15 hf => cases h; rw [hf]; exact effect_iff_of_ne rfl (by decide) (by simp only [emitMult_eq])
  case h_16 hf => cases h; rw [hf]; exact effect_iff_of_ne rfl (by decide) (by simp only [emitMultu_eq])
  case h_17 hf => cases h; rw [hf]; exact effect_iff_of_ne rfl (by decide) (by simp only [emitDiv_eq])
  case h_18 hf => cases h; rw [hf]; exact effect_iff_of_ne rfl (by decide) (by simp only [emitDivu_eq])
  case h_19 hf =>
    cases h
    rw [hf]
    exact (add_effect_iff (rdField raw) (fun s => s.gpr (rsField raw))
      (fun s => s.gpr (rtField raw)) s).trans ⟨fun e _ => e, fun e => e rfl⟩
  case h_29 => cases h
  all_goals
    rename_i hf
    cases h
    rw [hf]
    exact effect_iff_of_ne rfl (by decide) (by simp only [emitGprWrite_eq])

/-- The tiers have one effect on a word exactly where `TiersMeet` says so. -/
theorem tiers_agree_iff {pc raw : Word} {c : Code M} (h : translate rt raw pc = .code c)
    (s : State M) :
    (c.run s).effect = (execPlain rt pc raw s).effect ↔ TiersMeet rt pc raw s := by
  unfold translate at h
  unfold execPlain TiersMeet
  dsimp only at h ⊢
  split at h
  case isTrue hr =>
    cases h
    have hop : opField raw = 0x00#6 := by rw [hr]; decide
    have hfn : functField raw = 0x00#6 := by rw [hr]; decide
    have hrd : rdField raw = 0#5 := by rw [hr]; decide
    rw [hop]
    dsimp only
    refine effect_iff_of_ne hfn (by decide) ?_
    unfold execSpecial
    rw [hfn, hrd]
    simp only [interpWrite, State.setGpr, RegFile.set_zero]
  case isFalse =>
    split at h
    case h_1 hop => rw [hop]; exact special_effect_iff rt h s
    case h_2 => split at h <;> cases h
    case h_3 => cases h
    case h_4 => cases h
    case h_5 => cases h
    case h_6 => cases h
    case h_7 => cases h
    case h_8 => cases h
    case h_9 hop =>
      cases h
      rw [hop]
      exact add_effect_iff (rtField raw) (fun s => s.gpr (rsField raw)) (fun _ => simm16Field raw) s
    case h_17 hop => rw [hop]; exact cop0_iff rt h s
    case h_18 hop => rw [hop]; exact iff_of_true (cop2_effect rt h s) trivial
    case h_19 hop => rw [hop]; exact lb_effect_iff rt h s
    case h_20 hop => rw [hop]; exact lh_effect_iff rt h s
    case h_21 hop => cases h; rw [hop]; exact effect_iff_true (emitLwl_eq rt raw s)
    case h_22 hop => rw [hop]; exact lw_effect_iff rt h s
    case h_23 hop => rw [hop]; exact lbu_effect_iff rt h s
    case h_24 hop => rw [hop]; exact lhu_effect_iff rt h s
    case h_25 hop => cases h; rw [hop]; exact effect_iff_true (emitLwr_eq rt raw s)
    case h_26 hop => cases h; rw [hop]; exact effect_iff_true (emitSb_eq rt raw s)
    case h_27 hop => cases h; rw [hop]; exact sh_effect_iff rt pc raw s
    case h_28 hop => cases h; rw [hop]; exact swl_effect_iff rt raw s
    case h_29 hop => cases h; rw [hop]; exact sw_effect_iff rt pc raw s
    case h_30 hop => cases h; rw [hop]; exact swr_effect_iff rt raw s
    case h_31 hop => cases h; rw [hop]; exact iff_of_true (lwc2_effect rt raw s) trivial
    case h_32 hop => cases h; rw [hop]; exact effect_iff_true (swc2_eq rt raw s)
    case h_33 => cases h
    all_goals
      rename_i hop
      cases h
      rw [hop]
      exact effect_iff_true (by simp only [emitGprWrite_eq])

/-- `swl $v0, 0($zero)` -/
def swlWord : Word := 0xA8020000

/-- `$v0 = 0xAABBCCDD` over memory that reads `0x11223344` everywhere. -/
def swlState : State Ram :=
  (State.boot fun addr =>
    match addr &&& 3 with
    | 0#32 => 0x44
    | 1#32 => 0x33
    | 2#32 => 0x22
    | _ => 0x11).setGpr 2 0xAABBCCDD

/-- At an aligned address SWL stores the high byte of the register into the low byte of the word.
The compiled tier keeps the wrong bytes of the word and merges two into one. -/
theorem swl_tiers_differ : ∃ c : Code Ram,
    translate ramRuntime swlWord 0x80010000 = .code c ∧
    (c.run swlState).effect.map Effect.bus = some [.readWord 0, .writeWord 0 0x002233EE] ∧
    (execPlain ramRuntime 0x80010000 swlWord swlState).effect.map Effect.bus =
      some [.readWord 0, .writeWord 0 0x112233AA] ∧
    (c.run swlState).effect ≠ (execPlain ramRuntime 0x80010000 swlWord swlState).effect := by
  have hn : (emitSwl ramRuntime swlWord swlState).effect.map Effect.bus =
      some [.readWord 0, .writeWord 0 0x002233EE] := by decide
  have hi : (execPlain ramRuntime 0x80010000 swlWord swlState).effect.map Effect.bus =
      some [.readWord 0, .writeWord 0 0x112233AA] := by decide
  refine ⟨_, rfl, hn, hi, fun he => ?_⟩
  have hbus := congrArg (Option.map Effect.bus) he
  rw [hi] at hbus
  exact absurd (hn.symm.trans hbus) (by decide)

/-- The iff at an SWL to the last byte of a word, where the tiers meet. -/
theorem tiers_agree_iff_swl :
    (emitSwl ramRuntime 0xA8020003 swlState).effect =
      (execPlain ramRuntime 0x80010000 0xA8020003 swlState).effect ↔
      TiersMeet ramRuntime 0x80010000 0xA8020003 swlState :=
  tiers_agree_iff ramRuntime (c := { run := emitSwl ramRuntime 0xA8020003 }) rfl swlState

end PsxRecomp.R3000
