import Mathlib
import PsxRecomp.Interrupts.Delivery

/-! Bit 10 of CAUSE over whole runs. The register belongs to the CPU, the line to the controller;
the bit is recomputed by a call at each place that moves the line, where the call is made. -/
namespace PsxRecomp.Interrupts
set_option autoImplicit false

-- Literals of the index type find this by name, so that a definition holds no proof of its own.
local instance neZero_thirtyTwo : NeZero 32 := ⟨by decide⟩

/-! ## Operations -/

inductive Op
  | raise (bit : ℕ)
  | write8 (addr : Word) (val : BitVec 8)
  | write16 (addr : Word) (val : BitVec 16)
  | write32 (addr val : Word)
  | setCausePtr (cpu : Option Cop0)
  | interruptsInit
  | memoryInit
  | loadState (sections : List Section)
  | checkpointRestore
  | checkpointSave
  | mtc0Compiled (rd : Fin 32) (val : Word)
  | mtc0Interpreted (rd : Fin 32) (val : Word)
  | raiseException (clearsBd : Bool) (code : Fin 32) (epc : Word)
  /-- A delivery of `psx_check_interrupts`, with the resume PC where one is known. -/
  | enterHandler (resume : Option Word)
  | restoreContext (sr cause : Word)
deriving DecidableEq, Repr

def step (m : Machine) : Op → Machine
  | .raise bit => irqRaise bit m
  | .write8 addr val => write8 addr val m
  | .write16 addr val => write16 addr val m
  | .write32 addr val => write32 addr val m
  | .setCausePtr cpu => setCausePtr cpu m
  | .interruptsInit => interruptsInit m
  | .memoryInit => memoryInit m
  | .loadState sections => loadState sections m
  | .checkpointRestore => checkpointRestore m
  | .checkpointSave => checkpointSave m
  | .mtc0Compiled rd val => mtc0Compiled rd val m
  | .mtc0Interpreted rd val => mtc0Interpreted rd val m
  | .raiseException clearsBd code epc => raiseException clearsBd code epc m
  | .enterHandler resume =>
    Interrupts.enterHandler { stillSurroundings with resumePc := fun _ => resume } m
  | .restoreContext sr cause => restoreContext sr cause m

/-- The operations after which the bit is to be the line. -/
def Op.moves : Op → Bool
  | .raise _ => true
  | .write8 .. => true
  | .write16 .. => true
  | .write32 .. => true
  | .setCausePtr _ => true
  | .interruptsInit => true
  | .memoryInit => true
  | .loadState _ => true
  | .checkpointRestore => true
  | _ => false

def ip2Set (cause : Word) : Bool := cause &&& ip2 ≠ 0#32

/-- CAUSE.IP2 is the line. -/
def Mirrored (m : Machine) : Prop := ip2Set m.cop0.cause = line m

/-- The operations that may move the line leave the bit equal to it; no other changes the bit. -/
def Upheld (m : Machine) (op : Op) : Prop :=
  if op.moves then Mirrored (step m op)
  else ip2Set (step m op).cop0.cause = ip2Set m.cop0.cause

/-- In every step of the run. -/
def RunUpheld : Machine → List Op → Prop
  | _, [] => True
  | m, op :: ops => Upheld m op ∧ RunUpheld (step m op) ops

/-! ## When it is upheld -/

/-- The CPU registers a machine state carries. -/
def lastCpu : List Section → Option Cop0
  | [] => none
  | .cpu cop0 :: sections => (lastCpu sections).orElse fun _ => some cop0
  | _ :: sections => lastCpu sections

/-- The controller's registers a machine state carries. -/
def lastIrq : List Section → Option (Word × Word)
  | [] => none
  | .irq iStat iMask _ :: sections => (lastIrq sections).orElse fun _ => some (iStat, iMask)
  | _ :: sections => lastIrq sections

def lineOf (regs : Word × Word) : Bool := regs.1 &&& regs.2 &&& 0x7FF#32 ≠ 0#32

/-- A machine state carries a CAUSE that agrees with its own controller, CAUSE is wired when the
line moves, initialisation finds the line low, and compiled code writes no other bit to CAUSE. -/
def Agrees (m : Machine) : Op → Prop
  | .raise bit => m.wired = true ∨ lineOf (m.iStat ||| 1#32 <<< bit, m.iMask) = line m
  | .write8 addr val => m.wired = true ∨ line (write8 addr val m) = line m
  | .write16 addr val => m.wired = true ∨ line (write16 addr val m) = line m
  | .write32 addr val => m.wired = true ∨ line (write32 addr val m) = line m
  | .interruptsInit => line m = false
  | .memoryInit => line m = false
  | .loadState sections => ip2Set ((lastCpu sections).getD m.cop0).cause =
      lineOf ((lastIrq sections).getD (m.iStat, m.iMask))
  | .mtc0Compiled rd val => rd = 13 → ip2Set val = line m
  | .restoreContext _ cause => m.wired = true ∨ ip2Set cause = line m
  | _ => True

def RunAgrees : Machine → List Op → Prop
  | _, [] => True
  | m, op :: ops => Agrees m op ∧ RunAgrees (step m op) ops

/-! ## Bits -/

variable {m : Machine}

theorem ip2Set_withIp2 (set : Bool) (cause : Word) : ip2Set (withIp2 set cause) = set := by
  unfold ip2Set
  cases set with
  | false =>
    show decide (cause &&& ~~~ip2 &&& ip2 ≠ 0#32) = false
    rw [BitVec.and_assoc]
    show decide (cause &&& 0#32 ≠ 0#32) = false
    simp
  | true =>
    show decide ((cause ||| ip2) &&& ip2 ≠ 0#32) = true
    rw [BitVec.and_comm, BitVec.and_or_distrib_left]
    show decide (ip2 &&& cause ||| ip2 ≠ 0#32) = true
    simp only [ne_eq, BitVec.or_eq_zero_iff, decide_eq_true_eq, not_and]
    exact fun _ => by decide

/-- Bits put in beside bit 10, which is kept. -/
theorem ip2Set_insert (cause keep bits : Word) (hkeep : keep &&& ip2 = ip2)
    (hbits : bits &&& ip2 = 0#32) : ip2Set (cause &&& keep ||| bits) = ip2Set cause := by
  unfold ip2Set
  rw [BitVec.and_comm, BitVec.and_or_distrib_left, BitVec.and_comm ip2 bits, hbits,
    BitVec.or_zero, BitVec.and_comm, BitVec.and_assoc, hkeep]

theorem code_below (code : Fin 32) : BitVec.ofNat 32 code <<< 2 &&& ip2 = 0#32 := by
  revert code
  decide

/-! ## The refresh -/

theorem refresh_line (m : Machine) : line (refreshCauseIp2 m) = line m := by
  unfold refreshCauseIp2
  split <;> rfl

theorem refresh_mirrored (hwired : m.wired = true) : Mirrored (refreshCauseIp2 m) := by
  unfold Mirrored
  rw [refresh_line]
  unfold refreshCauseIp2
  rw [if_pos hwired]
  exact ip2Set_withIp2 _ _

theorem refresh_unwired (hwired : m.wired = false) : refreshCauseIp2 m = m := by
  unfold refreshCauseIp2
  rw [if_neg (by simp [hwired])]

theorem refresh_bit (m : Machine) :
    ip2Set (refreshCauseIp2 m).cop0.cause = if m.wired then line m else ip2Set m.cop0.cause := by
  unfold refreshCauseIp2
  split
  · exact ip2Set_withIp2 _ _
  · rfl

/-- A refresh behind a change of the controller's registers. -/
theorem refresh_iff {m' : Machine} (hcause : m'.cop0.cause = m.cop0.cause)
    (hwired : m'.wired = m.wired) (h : Mirrored m) :
    Mirrored (refreshCauseIp2 m') ↔ m.wired = true ∨ line m' = line m := by
  cases hw : m.wired with
  | true => simp [refresh_mirrored (hwired.trans hw)]
  | false =>
    rw [refresh_unwired (hwired.trans hw)]
    unfold Mirrored at h ⊢
    rw [hcause, h]
    simp [eq_comm]

/-- The registers of the controller are written, or nothing is. -/
inductive Moved (m : Machine) : Machine → Prop
  | same : Moved m m
  | refreshed {m' : Machine} : m'.cop0 = m.cop0 → m'.wired = m.wired →
      m'.checkpoint = m.checkpoint → Moved m (refreshCauseIp2 m')

theorem Moved.ite {p : Prop} [Decidable p] {t u : Machine} (ht : Moved m t) (hu : Moved m u) :
    Moved m (if p then t else u) := by
  split
  · exact ht
  · exact hu

theorem Moved.mirrored_iff {m' : Machine} (hm : Moved m m') (h : Mirrored m) :
    Mirrored m' ↔ m.wired = true ∨ line m' = line m := by
  cases hm with
  | same => simp [h]
  | refreshed hcop0 hwired =>
    rw [refresh_iff (congrArg Cop0.cause hcop0) hwired h, refresh_line]

theorem moved_writeStat (val mask : Word) : Moved m (writeStatMasked val mask m) :=
  .refreshed rfl rfl rfl

theorem moved_writeMask (val mask : Word) : Moved m (writeMaskMasked val mask m) :=
  .refreshed rfl rfl rfl

theorem moved_write32 (addr val : Word) : Moved m (write32 addr val m) :=
  Moved.ite (moved_writeStat _ _) (Moved.ite (moved_writeMask _ _) .same)

theorem moved_write16 (addr : Word) (val : BitVec 16) : Moved m (write16 addr val m) :=
  Moved.ite (moved_writeStat _ _) (Moved.ite (moved_writeMask _ _) .same)

theorem moved_write8 (addr : Word) (val : BitVec 8) : Moved m (write8 addr val m) :=
  Moved.ite (moved_writeStat _ _) (Moved.ite (moved_writeMask _ _) .same)

theorem refresh_checkpoint (m : Machine) : (refreshCauseIp2 m).checkpoint = m.checkpoint := by
  unfold refreshCauseIp2
  split <;> rfl

theorem Moved.checkpoint {m' : Machine} (hm : Moved m m') : m'.checkpoint = m.checkpoint := by
  cases hm with
  | same => rfl
  | refreshed _ _ hck => rw [refresh_checkpoint, hck]

/-! ## Loaded states -/

theorem loadState_regs (sections : List Section) (m : Machine) :
    (loadState sections m).cop0 = (lastCpu sections).getD m.cop0 ∧
      ((loadState sections m).iStat, (loadState sections m).iMask) =
        (lastIrq sections).getD (m.iStat, m.iMask) ∧
      (loadState sections m).checkpoint = m.checkpoint := by
  induction sections generalizing m with
  | nil => exact ⟨rfl, rfl, rfl⟩
  | cons sec sections ih =>
    obtain ⟨hcop0, hregs, hck⟩ := ih (applySection m sec)
    refine ⟨?_, ?_, hck.trans (by cases sec <;> rfl)⟩
    · show (loadState sections (applySection m sec)).cop0 = _
      rw [hcop0]
      cases sec with
      | cpu cop0 => cases h : lastCpu sections <;> simp [lastCpu, h, applySection]
      | _ => rfl
    · show ((loadState sections (applySection m sec)).iStat,
        (loadState sections (applySection m sec)).iMask) = _
      rw [hregs]
      cases sec with
      | irq iStat iMask => cases h : lastIrq sections <;> simp [lastIrq, h, applySection]
      | _ => rfl

/-! ## One operation -/

/-- The bit is the line, now and in the checkpoint. -/
structure Sound (m : Machine) : Prop where
  mirrored : Mirrored m
  saved : ∀ ck, m.checkpoint = some ck → ip2Set ck.cop0.cause = lineOf (ck.iStat, ck.iMask)

theorem sound_powerOn : Sound powerOn := ⟨rfl, fun _ h => nomatch h⟩

/-- An operation that leaves the controller alone. -/
theorem mirrored_of_bit {m' : Machine} (h : Mirrored m) (hbit : ip2Set m'.cop0.cause = ip2Set m.cop0.cause)
    (hline : line m' = line m) : Mirrored m' := by
  unfold Mirrored
  rw [hbit, hline]
  exact h

theorem bit_mtc0Compiled (h : Mirrored m) (rd : Fin 32) (val : Word) :
    ip2Set (mtc0Compiled rd val m).cop0.cause = ip2Set m.cop0.cause ↔
      (rd = 13 → ip2Set val = line m) := by
  unfold mtc0Compiled
  by_cases hsr : rd = 12
  · subst hsr
    simp
  by_cases hcause : rd = 13
  · subst hcause
    rw [h]
    simp
  · rw [if_neg hsr, if_neg hcause]
    split <;> simp [hcause]

theorem bit_mtc0Interpreted (rd : Fin 32) (val : Word) :
    ip2Set (mtc0Interpreted rd val m).cop0.cause = ip2Set m.cop0.cause := by
  unfold mtc0Interpreted
  by_cases hcause : rd = 13
  · rw [if_pos hcause]
    refine ip2Set_insert _ _ _ (by decide) ?_
    rw [BitVec.and_assoc]
    exact BitVec.and_zero
  · rw [if_neg hcause]
    unfold mtc0Compiled
    rw [if_neg hcause]
    split
    · rfl
    · split <;> rfl

theorem bit_raiseException (clearsBd : Bool) (code : Fin 32) (epc : Word) :
    ip2Set (raiseException clearsBd code epc m).cop0.cause = ip2Set m.cop0.cause := by
  unfold raiseException enterException
  refine ip2Set_insert _ _ _ ?_ (code_below code)
  cases clearsBd <;> decide

theorem enterHandler_cause (D : Surroundings) (m : Machine) :
    (enterHandler D m).cop0.cause = (refreshCauseIp2 { m with
      inException := true
      nestDepth := m.nestDepth + 1
      cop0 := { m.cop0 with cause := m.cop0.cause &&& ~~~0x7C#32 } }).cop0.cause := rfl

theorem enterHandler_frame (D : Surroundings) (m : Machine) :
    line (enterHandler D m) = line m ∧ (enterHandler D m).checkpoint = m.checkpoint := by
  unfold enterHandler refreshCauseIp2
  dsimp only
  split <;> exact ⟨rfl, rfl⟩

theorem bit_enterHandler (D : Surroundings) (h : Mirrored m) :
    ip2Set (enterHandler D m).cop0.cause = ip2Set m.cop0.cause := by
  rw [enterHandler_cause, refresh_bit]
  show (if m.wired then line m else ip2Set (m.cop0.cause &&& ~~~0x7C#32)) = ip2Set m.cop0.cause
  have hkept : ip2Set (m.cop0.cause &&& ~~~0x7C#32) = ip2Set m.cop0.cause := by
    have hinsert := ip2Set_insert m.cop0.cause (~~~0x7C#32) 0#32 (by decide) (by decide)
    rwa [BitVec.or_zero] at hinsert
  rw [hkept, h]
  exact ite_self _

theorem bit_restoreContext (h : Mirrored m) (sr cause : Word) :
    ip2Set (restoreContext sr cause m).cop0.cause = ip2Set m.cop0.cause ↔
      (m.wired = true ∨ ip2Set cause = line m) := by
  unfold restoreContext
  rw [refresh_bit, h]
  show (if m.wired then line m else ip2Set cause) = line m ↔ _
  split
  case isTrue hw => simp [hw]
  case isFalse hw => simp [hw]

theorem restoreContext_frame (sr cause : Word) (m : Machine) :
    line (restoreContext sr cause m) = line m ∧
      (restoreContext sr cause m).checkpoint = m.checkpoint :=
  ⟨refresh_line _, refresh_checkpoint _⟩

theorem mirrored_setCausePtr (h : Mirrored m) (cpu : Option Cop0) : Mirrored (setCausePtr cpu m) := by
  cases cpu with
  | some cop0 => exact refresh_mirrored rfl
  | none =>
    show Mirrored (refreshCauseIp2 { m with wired := false })
    rw [refresh_unwired rfl]
    exact h

theorem mirrored_checkpointRestore (h : Sound m) : Mirrored (checkpointRestore m) := by
  unfold checkpointRestore
  cases hck : m.checkpoint with
  | none => exact h.mirrored
  | some ck =>
    unfold Mirrored
    rw [refresh_bit, refresh_line]
    show (if m.wired then lineOf (ck.iStat, ck.iMask) else ip2Set ck.cop0.cause) =
      lineOf (ck.iStat, ck.iMask)
    rw [h.saved ck hck]
    exact ite_self _

theorem mirrored_loadState (sections : List Section) (m : Machine) :
    Mirrored (loadState sections m) ↔
      ip2Set ((lastCpu sections).getD m.cop0).cause =
        lineOf ((lastIrq sections).getD (m.iStat, m.iMask)) := by
  obtain ⟨hcop0, hregs, -⟩ := loadState_regs sections m
  rw [← hcop0, ← hregs]
  rfl

/-- The controller is cleared, and CAUSE left as it was. -/
theorem mirrored_cleared {m' : Machine} (h : Mirrored m) (hstat : m'.iStat = 0#32)
    (hcop0 : m'.cop0 = m.cop0) : Mirrored m' ↔ line m = false := by
  have hlow : line m' = false := by
    unfold line
    rw [hstat, BitVec.zero_and, BitVec.zero_and]
    simp
  unfold Mirrored
  rw [hlow, hcop0, h]

/-- The bit is kept up by an operation exactly where its inputs agree. -/
theorem upheld_iff (h : Sound m) (op : Op) : Upheld m op ↔ Agrees m op := by
  cases op with
  | raise bit =>
    have hm : Moved m (irqRaise bit m) := .refreshed rfl rfl rfl
    refine (hm.mirrored_iff h.mirrored).trans ?_
    unfold irqRaise
    rw [refresh_line]
    rfl
  | write8 addr val => exact (moved_write8 addr val).mirrored_iff h.mirrored
  | write16 addr val => exact (moved_write16 addr val).mirrored_iff h.mirrored
  | write32 addr val => exact (moved_write32 addr val).mirrored_iff h.mirrored
  | setCausePtr cpu => exact iff_of_true (mirrored_setCausePtr h.mirrored cpu) trivial
  | interruptsInit => exact mirrored_cleared h.mirrored rfl rfl
  | memoryInit => exact mirrored_cleared h.mirrored rfl rfl
  | loadState sections => exact mirrored_loadState sections m
  | checkpointRestore => exact iff_of_true (mirrored_checkpointRestore h) trivial
  | checkpointSave => exact iff_of_true rfl trivial
  | mtc0Compiled rd val => exact bit_mtc0Compiled h.mirrored rd val
  | mtc0Interpreted rd val => exact iff_of_true (bit_mtc0Interpreted rd val) trivial
  | raiseException clearsBd code epc =>
    exact iff_of_true (bit_raiseException clearsBd code epc) trivial
  | enterHandler resume => exact iff_of_true (bit_enterHandler _ h.mirrored) trivial
  | restoreContext sr cause => exact bit_restoreContext h.mirrored sr cause

theorem line_mtc0Compiled (rd : Fin 32) (val : Word) :
    line (mtc0Compiled rd val m) = line m ∧
      (mtc0Compiled rd val m).checkpoint = m.checkpoint := by
  unfold mtc0Compiled
  split
  · exact ⟨rfl, rfl⟩
  · split
    · exact ⟨rfl, rfl⟩
    · split <;> exact ⟨rfl, rfl⟩

theorem line_mtc0Interpreted (rd : Fin 32) (val : Word) :
    line (mtc0Interpreted rd val m) = line m ∧
      (mtc0Interpreted rd val m).checkpoint = m.checkpoint := by
  unfold mtc0Interpreted
  split
  · exact ⟨rfl, rfl⟩
  · exact line_mtc0Compiled rd val

/-- The other operations do not touch the controller. -/
theorem line_step {op : Op} (hop : op.moves = false) : line (step m op) = line m := by
  cases op with
  | checkpointSave => rfl
  | mtc0Compiled rd val => exact (line_mtc0Compiled rd val).1
  | mtc0Interpreted rd val => exact (line_mtc0Interpreted rd val).1
  | raiseException => rfl
  | enterHandler resume => exact (enterHandler_frame _ m).1
  | restoreContext sr cause => exact (restoreContext_frame sr cause m).1
  | _ => cases hop

theorem checkpoint_step {op : Op} (hop : op ≠ .checkpointSave) :
    (step m op).checkpoint = m.checkpoint := by
  cases op with
  | raise => exact refresh_checkpoint _
  | write8 addr val => exact (moved_write8 addr val).checkpoint
  | write16 addr val => exact (moved_write16 addr val).checkpoint
  | write32 addr val => exact (moved_write32 addr val).checkpoint
  | setCausePtr cpu => cases cpu <;> exact refresh_checkpoint _
  | interruptsInit => rfl
  | memoryInit => rfl
  | loadState sections => exact (loadState_regs sections m).2.2
  | checkpointRestore =>
    show (checkpointRestore m).checkpoint = m.checkpoint
    unfold checkpointRestore
    split
    · exact refresh_checkpoint _
    · rfl
  | checkpointSave => exact absurd rfl hop
  | mtc0Compiled rd val => exact (line_mtc0Compiled rd val).2
  | mtc0Interpreted rd val => exact (line_mtc0Interpreted rd val).2
  | raiseException => rfl
  | enterHandler resume => exact (enterHandler_frame _ m).2
  | restoreContext sr cause => exact (restoreContext_frame sr cause m).2

theorem Sound.step {op : Op} (h : Sound m) (hup : Upheld m op) : Sound (step m op) := by
  unfold Upheld at hup
  refine ⟨?_, fun ck hck => ?_⟩
  · cases hop : op.moves with
    | true =>
      rw [if_pos hop] at hup
      exact hup
    | false =>
      rw [if_neg (by simp [hop])] at hup
      exact mirrored_of_bit h.mirrored hup (line_step hop)
  · by_cases hsave : op = .checkpointSave
    · subst hsave
      obtain rfl := Option.some.inj hck
      exact h.mirrored
    · rw [checkpoint_step hsave] at hck
      exact h.saved ck hck

/-! ## Runs -/

/-- From power-on, CAUSE.IP2 is kept up in every step of a run exactly where the inputs of every
step agree. -/
theorem mirror_upheld_iff (ops : List Op) : RunUpheld powerOn ops ↔ RunAgrees powerOn ops := by
  suffices hrun : ∀ (ops : List Op) (m : Machine), Sound m → (RunUpheld m ops ↔ RunAgrees m ops) from
    hrun ops powerOn sound_powerOn
  intro ops
  induction ops with
  | nil => exact fun _ _ => Iff.rfl
  | cons op ops ih =>
    intro m h
    show Upheld m op ∧ RunUpheld (step m op) ops ↔ Agrees m op ∧ RunAgrees (step m op) ops
    rw [← upheld_iff h op]
    exact and_congr_right fun hup => ih (step m op) (h.step hup)

/-- A rematch initialises the controller under a pending, unmasked VBlank. -/
def rematchUnderVblank : List Op :=
  [.setCausePtr (some ⟨0, 0, 0⟩), .write32 0x1F801074#32 1#32, .raise 0, .interruptsInit]

theorem rematch_leaves_phantom : ¬RunUpheld powerOn rematchUnderVblank := by
  intro h
  have hmirror : Mirrored (interruptsInit (irqRaise 0 (write32 0x1F801074#32 1#32
      (setCausePtr (some ⟨0, 0, 0⟩) powerOn)))) := h.2.2.2.1
  exact absurd hmirror (by unfold Mirrored; decide)

end PsxRecomp.Interrupts
