import PsxRecomp.Interrupts.Line

/-! `psx_check_interrupts` decides at the edge of a block whether the exception handler is entered.
The decision is written down three times, in the fast paths, in the middle path and in the full
evaluation, and once more in the query that generated code asks first. -/
namespace PsxRecomp.Interrupts
set_option autoImplicit false

/-! ## The parts of the decision -/

/-- `(i_stat & i_mask) != 0` -/
def hwPending (m : Machine) : Bool := m.iStat &&& m.iMask ≠ 0#32

/-- `sw_pending` -/
def swPending (m : Machine) : Bool := m.cop0.cause &&& m.cop0.sr &&& 0x300#32 ≠ 0#32

/-- SR.IEc -/
def iec (m : Machine) : Bool := m.cop0.sr &&& 1#32 ≠ 0#32

/-- SR.IM2 -/
def im2 (m : Machine) : Bool := m.cop0.sr &&& 0x400#32 ≠ 0#32

def coolingDown (m : Machine) : Bool := m.cooldownUntil ≠ 0 ∧ m.clock < m.cooldownUntil

/-- What forbids a nested delivery, apart from IEc. -/
def nestingBlocked (m : Machine) : Bool :=
  m.nestDepth ≥ 2 ∨ m.rfeEscapePending ∨ m.escapeReason ≠ .none

/-! ## What happens besides -/

/-- What becomes of a deferred thread switch at a boundary. -/
inductive Deferral
  | stale
  | kept
  | honoured
deriving DecidableEq, Repr

/-- The code around the check. Devices raise interrupts and nothing else here. -/
structure Surroundings where
  /-- The bits that publishing the deferred cycles raises. -/
  published : Machine → Word
  /-- The bits that the VBlank edges due now raise. -/
  scheduled : Machine → Word
  /-- The bits raised, and the cycles passed, when a wait loop is skipped. -/
  skipped : Machine → Word × ℕ
  deferral : Machine → Deferral
  /-- The PC the interrupted code resumes at, where one is known. -/
  resumePc : Machine → Option Word

variable (D : Surroundings)

def raiseAll (bits : Word) (m : Machine) : Machine := refreshCauseIp2 { m with iStat := m.iStat ||| bits }

/-- `psx_cyc_batch_flush` -/
def batchFlush (m : Machine) : Machine := raiseAll (D.published m) m

/-- `interrupts_service_scheduled_events` -/
def serviceScheduledEvents (m : Machine) : Machine :=
  if m.inException then m else raiseAll (D.scheduled m) m

/-- `psx_idle_note_check`, in so far as it skips. -/
def idleNoteCheck (m : Machine) : Machine :=
  if m.idleSkip then
    raiseAll (D.skipped m).1 { m with clock := m.clock + (D.skipped m).2 }
  else m

/-- The resume PC of this edge. -/
def edgePc (m : Machine) : Word := if m.dirtyResumePc ≠ 0 then m.dirtyResumePc else m.compiledResumePc

def notePc (m : Machine) : Machine := { m with lastCheckPc := edgePc m }

/-! ## The check -/

inductive Outcome
  | returned (m : Machine)
  /-- The handler is about to be dispatched. -/
  | entered (m : Machine)
  /-- A deferred thread switch unwinds to the scheduler. -/
  | switched (m : Machine)
deriving DecidableEq, Repr

def Outcome.isEntered : Outcome → Bool
  | .entered _ => true
  | _ => false

/-- The state in which the handler is dispatched. -/
def enterHandler (m : Machine) : Machine :=
  let sr := m.cop0.sr
  let resume := D.resumePc m
  let m := refreshCauseIp2 { m with
    inException := true
    nestDepth := m.nestDepth + 1
    cop0 := { m.cop0 with cause := m.cop0.cause &&& ~~~0x7C#32 } }
  { m with
    rfeEscapePending := false
    escapeReason := if resume.isSome then .none else .legacySentinel
    cop0 := { m.cop0 with
      sr := sr &&& ~~~0x3F#32 ||| (sr &&& 0x0F#32) <<< 2
      epc := resume.getD 0x80000048#32 } }

/-- From the cooldown on: what of the evaluation is left when nesting is allowed. -/
def evalSources (m : Machine) : Outcome :=
  if coolingDown m then .returned m
  else
    let m := { m with cooldownUntil := 0 }
    if iec m = false then .returned m
    else if (hwPending m && im2 m) = false ∧ swPending m = false then .returned m
    else .entered (enterHandler D m)

/-- `irq_deliver_eval`, with the software interrupts seen at the entry of the check. -/
def deliverEval (swSeen : Bool) (m : Machine) : Outcome :=
  if hwPending m = false ∧ swSeen = false then .returned m
  else if m.inException ∧ (nestingBlocked m ∨ iec m = false) then .returned m
  else evalSources D m

/-- The path with all the bookkeeping of a check. -/
def slowPath (swSeen : Bool) (m : Machine) : Outcome :=
  let m := serviceScheduledEvents D (notePc m)
  let m := if hwPending m then m else idleNoteCheck D m
  if m.deferSwitchPending ∧ m.inException = false then
    match D.deferral m with
    | .stale => deliverEval D swSeen { m with deferSwitchPending := false }
    | .kept => deliverEval D swSeen m
    | .honoured => .switched { m with deferSwitchPending := false }
  else deliverEval D swSeen m

/-- Behind the entry fast paths. -/
def midPath (swSeen : Bool) (m : Machine) : Outcome :=
  if m.inException ∧ iec m = false then .returned m
  else if m.inException = false ∧ m.deferSwitchPending = false ∧ hwPending m then
    deliverEval D swSeen (notePc m)
  else slowPath D swSeen m

/-- The fast path with nothing pending. -/
def quietPath (swSeen : Bool) (m : Machine) : Outcome :=
  if m.inException = false ∧ hwPending m = false ∧ swSeen = false ∧ m.deferSwitchPending = false then
    let m := if m.idleSkip then idleNoteCheck D (notePc m) else m
    if hwPending m = false then .returned m else midPath D swSeen m
  else midPath D swSeen m

/-- The edge of a netplay session that does not deliver a VBlank on its own. -/
def netplayHolds (m : Machine) : Bool :=
  m.inException = false ∧ m.netplay ∧ (m.lastCheckPc = 0x8006CD54#32 ∨ m.lastCheckPc = 0x800768C8#32) ∧
    hwPending m ∧ m.iStat &&& m.iMask &&& ~~~1#32 = 0#32

/-- The fast path that finds SR closed to the pending hardware interrupt. -/
def srCloses (m : Machine) : Bool :=
  m.inException = false ∧ m.deferSwitchPending = false ∧ hwPending m ∧ (iec m = false ∨ im2 m = false)

/-- A netplay session notes the PC of the edge before all else. -/
def noteNetplayPc (m : Machine) : Machine := if m.netplay ∧ edgePc m ≠ 0 then notePc m else m

/-- `psx_check_interrupts` -/
def psxCheckInterrupts (m : Machine) : Outcome :=
  if m.frozen then .returned m
  else
    let m := noteNetplayPc (batchFlush D m)
    if netplayHolds m ∨ srCloses m then .returned m else quietPath D (swPending m) m

/-- `psx_interrupt_delivery_needed` -/
def interruptDeliveryNeeded (m : Machine) : Bool :=
  if m.frozen then false
  else if m.deferSwitchPending then true
  else if hwPending m = false then false
  else if iec m = false ∨ im2 m = false then false
  else if coolingDown m then false
  else if m.inException ∧ nestingBlocked m then false
  else true

/-! ## What raising leaves alone -/

variable {D} {m m' : Machine}

theorem withIp2_software (set : Bool) (cause : Word) :
    withIp2 set cause &&& 0x300#32 = cause &&& 0x300#32 := by
  cases set with
  | false =>
    show cause &&& ~~~ip2 &&& 0x300#32 = cause &&& 0x300#32
    rw [BitVec.and_assoc]
    rfl
  | true =>
    show (cause ||| ip2) &&& 0x300#32 = cause &&& 0x300#32
    rw [BitVec.and_comm, BitVec.and_or_distrib_left, BitVec.and_comm (0x300#32) cause]
    show cause &&& 0x300#32 ||| 0#32 = cause &&& 0x300#32
    rw [BitVec.or_zero]

/-- The gate reads the same in both, the interrupt controller apart. -/
structure SameGate (m m' : Machine) : Prop where
  sr : m'.cop0.sr = m.cop0.sr
  software : m'.cop0.cause &&& 0x300#32 = m.cop0.cause &&& 0x300#32
  inException : m'.inException = m.inException
  nestDepth : m'.nestDepth = m.nestDepth
  rfeEscapePending : m'.rfeEscapePending = m.rfeEscapePending
  escapeReason : m'.escapeReason = m.escapeReason
  cooldownUntil : m'.cooldownUntil = m.cooldownUntil
  clock : m'.clock = m.clock

theorem sameGate_raiseAll (bits : Word) (m : Machine) : SameGate m (raiseAll bits m) := by
  unfold raiseAll refreshCauseIp2
  split
  · exact ⟨rfl, withIp2_software _ _, rfl, rfl, rfl, rfl, rfl, rfl⟩
  · exact ⟨rfl, rfl, rfl, rfl, rfl, rfl, rfl, rfl⟩

theorem sameGate_service (m : Machine) : SameGate m (serviceScheduledEvents D (notePc m)) := by
  unfold serviceScheduledEvents
  split
  · exact ⟨rfl, rfl, rfl, rfl, rfl, rfl, rfl, rfl⟩
  · have h := sameGate_raiseAll (D.scheduled (notePc m)) (notePc m)
    exact ⟨h.sr, h.software, h.inException, h.nestDepth, h.rfeEscapePending, h.escapeReason,
      h.cooldownUntil, h.clock⟩

theorem SameGate.swPending (h : SameGate m m') : swPending m' = swPending m := by
  unfold Interrupts.swPending
  rw [h.sr, BitVec.and_assoc, BitVec.and_comm m.cop0.sr, ← BitVec.and_assoc, h.software,
    BitVec.and_assoc, BitVec.and_comm (0x300#32), ← BitVec.and_assoc]

theorem SameGate.iec (h : SameGate m m') : iec m' = iec m := by
  unfold Interrupts.iec
  rw [h.sr]

theorem SameGate.im2 (h : SameGate m m') : im2 m' = im2 m := by
  unfold Interrupts.im2
  rw [h.sr]

theorem SameGate.coolingDown (h : SameGate m m') : coolingDown m' = coolingDown m := by
  unfold Interrupts.coolingDown
  rw [h.cooldownUntil, h.clock]

theorem SameGate.nestingBlocked (h : SameGate m m') : nestingBlocked m' = nestingBlocked m := by
  unfold Interrupts.nestingBlocked
  rw [h.nestDepth, h.rfeEscapePending, h.escapeReason]

/-! ## The decision in one line -/

/-- An interrupt can be taken: from the controller through SR.IM2, or a software interrupt. -/
def Deliverable (m : Machine) : Prop :=
  iec m = true ∧ coolingDown m = false ∧ (m.inException = false ∨ nestingBlocked m = false) ∧
    (hwPending m = true ∧ im2 m = true ∨ swPending m = true)

theorem evalSources_entered : (evalSources D m).isEntered = true ↔
    coolingDown m = false ∧ iec m = true ∧
      (hwPending m = true ∧ im2 m = true ∨ swPending m = true) := by
  have h := (⟨rfl, rfl, rfl, rfl⟩ : iec { m with cooldownUntil := 0 } = iec m ∧
    im2 { m with cooldownUntil := 0 } = im2 m ∧
    hwPending { m with cooldownUntil := 0 } = hwPending m ∧
    swPending { m with cooldownUntil := 0 } = swPending m)
  unfold evalSources
  dsimp only
  rw [h.1, h.2.1, h.2.2.1, h.2.2.2]
  cases coolingDown m <;> cases iec m <;> cases hwPending m <;> cases im2 m <;>
    cases swPending m <;> simp [Outcome.isEntered]

theorem deliverEval_entered : (deliverEval D (swPending m) m).isEntered = true ↔ Deliverable m := by
  have h := evalSources_entered (D := D) (m := m)
  unfold deliverEval Deliverable
  split
  case isTrue hnone => simp [Outcome.isEntered, hnone.1, hnone.2]
  case isFalse =>
    split
    case isTrue hnest =>
      rcases hnest with ⟨hin, hblocked | hiec⟩
      · simp [Outcome.isEntered, hin, hblocked]
      · simp [Outcome.isEntered, hiec]
    case isFalse hnest =>
      rw [h]
      cases hin : m.inException <;> cases hb : nestingBlocked m <;> cases hi : iec m <;>
        simp_all

/-! ## Every path decides alike -/

theorem raiseAll_flags (bits : Word) (m : Machine) :
    (raiseAll bits m).deferSwitchPending = m.deferSwitchPending ∧
      (raiseAll bits m).idleSkip = m.idleSkip ∧ (raiseAll bits m).netplay = m.netplay := by
  unfold raiseAll refreshCauseIp2
  split <;> exact ⟨rfl, rfl, rfl⟩

theorem service_flags (m : Machine) :
    (serviceScheduledEvents D (notePc m)).deferSwitchPending = m.deferSwitchPending ∧
      (serviceScheduledEvents D (notePc m)).idleSkip = m.idleSkip := by
  unfold serviceScheduledEvents
  split
  · exact ⟨rfl, rfl⟩
  · have h := raiseAll_flags (D.scheduled (notePc m)) (notePc m)
    exact ⟨h.1, h.2.1⟩

theorem SameGate.deliverable (h : SameGate m m')
    (hsource : hwPending m' = hwPending m ∨ Interrupts.swPending m = true) :
    Deliverable m' ↔ Deliverable m := by
  unfold Deliverable
  rw [h.iec, h.coolingDown, h.nestingBlocked, h.im2, h.swPending, h.inException]
  rcases hsource with hhw | hsw
  · rw [hhw]
  · simp [hsw]

/-- The slow path is taken inside an exception, where no edge is serviced, or for a software
interrupt, which no edge takes away. -/
theorem slowPath_entered (hdefer : m.deferSwitchPending = false) (hidle : m.idleSkip = false)
    (hreach : m.inException = true ∨ swPending m = true) :
    (slowPath D (swPending m) m).isEntered = true ↔ Deliverable m := by
  have hsame : SameGate m (serviceScheduledEvents D (notePc m)) := sameGate_service m
  obtain ⟨hdefer', hidle'⟩ := service_flags (D := D) m
  have hskip : (if hwPending (serviceScheduledEvents D (notePc m)) then
      serviceScheduledEvents D (notePc m)
      else idleNoteCheck D (serviceScheduledEvents D (notePc m))) =
      serviceScheduledEvents D (notePc m) := by
    unfold idleNoteCheck
    rw [hidle', hidle]
    simp
  unfold slowPath
  dsimp only
  rw [hskip, if_neg (by rw [hdefer', hdefer]; simp), ← hsame.swPending, deliverEval_entered]
  refine hsame.deliverable ?_
  rcases hreach with hin | hsw
  · left
    unfold serviceScheduledEvents
    rw [if_pos (show (notePc m).inException = true from hin)]
    rfl
  · exact .inr hsw

theorem midPath_entered (hdefer : m.deferSwitchPending = false) (hidle : m.idleSkip = false)
    (hreach : m.inException = true ∨ hwPending m = true ∨ swPending m = true) :
    (midPath D (swPending m) m).isEntered = true ↔ Deliverable m := by
  unfold midPath
  split
  case isTrue hclosed =>
    unfold Deliverable
    simp [Outcome.isEntered, hclosed.2]
  case isFalse =>
    split
    case isTrue => exact deliverEval_entered (m := notePc m)
    case isFalse hslow =>
      refine slowPath_entered hdefer hidle ?_
      cases hin : m.inException with
      | true => exact .inl rfl
      | false =>
        have hhw : hwPending m = false := by simpa [hin, hdefer] using hslow
        exact .inr (by simpa [hin, hhw] using hreach)

theorem quietPath_entered (hdefer : m.deferSwitchPending = false) (hidle : m.idleSkip = false) :
    (quietPath D (swPending m) m).isEntered = true ↔ Deliverable m := by
  unfold quietPath
  split
  case isTrue hquiet =>
    obtain ⟨-, hhw, hsw, -⟩ := hquiet
    rw [hidle]
    unfold Deliverable
    simp [hhw, hsw, Outcome.isEntered]
  case isFalse hbusy =>
    refine midPath_entered hdefer hidle ?_
    cases hin : m.inException with
    | true => exact .inl rfl
    | false =>
      cases hhw : hwPending m with
      | true => exact .inr (.inl rfl)
      | false =>
        refine .inr (.inr ?_)
        simpa [hin, hhw, hdefer] using hbusy

/-! ## The claim of the gate -/

/-- The check enters the handler exactly for a deliverable interrupt, once the deferred cycles are
published, and the query says so beforehand. -/
def Exact (D : Surroundings) (m : Machine) : Prop :=
  ((psxCheckInterrupts D m).isEntered = true ↔ Deliverable (batchFlush D m)) ∧
    ((psxCheckInterrupts D m).isEntered = true → interruptDeliveryNeeded m = true)

theorem check_entered (hfrozen : m.frozen = false) (hdefer : m.deferSwitchPending = false)
    (hnetplay : m.netplay = false) (hidle : m.idleSkip = false) :
    (psxCheckInterrupts D m).isEntered = true ↔
      srCloses (batchFlush D m) = false ∧ Deliverable (batchFlush D m) := by
  obtain ⟨hdefer', hidle', hnetplay'⟩ := raiseAll_flags (D.published m) m
  have hnote : noteNetplayPc (batchFlush D m) = batchFlush D m := by
    unfold noteNetplayPc batchFlush
    rw [hnetplay', hnetplay]
    simp
  have hheld : netplayHolds (batchFlush D m) = false := by
    unfold netplayHolds batchFlush
    rw [hnetplay', hnetplay]
    simp
  unfold psxCheckInterrupts
  rw [if_neg (by simp [hfrozen])]
  dsimp only
  rw [hnote, hheld]
  cases hclose : srCloses (batchFlush D m) with
  | true => simp [Outcome.isEntered]
  | false =>
    have h := quietPath_entered (D := D) (m := batchFlush D m) (hdefer'.trans hdefer)
      (hidle'.trans hidle)
    simpa using h

theorem needed_iff (hfrozen : m.frozen = false) (hdefer : m.deferSwitchPending = false) :
    interruptDeliveryNeeded m = true ↔
      hwPending m = true ∧ im2 m = true ∧ iec m = true ∧ coolingDown m = false ∧
        (m.inException = false ∨ nestingBlocked m = false) := by
  unfold interruptDeliveryNeeded
  rw [hfrozen, hdefer]
  cases hwPending m <;> cases im2 m <;> cases iec m <;> cases coolingDown m <;>
    cases m.inException <;> cases nestingBlocked m <;> simp

/-- The gate is exact where a deliverable interrupt is one of the controller's: pending before the
deferred cycles are published, and open in SR. -/
theorem gate_exact_iff (D : Surroundings) (m : Machine) (hfrozen : m.frozen = false)
    (hdefer : m.deferSwitchPending = false) (hnetplay : m.netplay = false)
    (hidle : m.idleSkip = false) :
    Exact D m ↔ (Deliverable (batchFlush D m) → hwPending m = true ∧ im2 m = true) := by
  have hcheck := check_entered (D := D) hfrozen hdefer hnetplay hidle
  have hneed := needed_iff hfrozen hdefer
  have hsame : SameGate m (batchFlush D m) := sameGate_raiseAll _ m
  unfold Exact
  rw [hcheck, hneed]
  constructor
  · rintro ⟨hexact, hquery⟩ hdel
    obtain ⟨hhw, him2, -⟩ := hquery (hexact.2 hdel)
    exact ⟨hhw, him2⟩
  · intro hbacked
    have hopen : Deliverable (batchFlush D m) → srCloses (batchFlush D m) = false := by
      intro hdel
      obtain ⟨-, him2⟩ := hbacked hdel
      unfold srCloses
      rw [hdel.1, hsame.im2, him2]
      simp
    refine ⟨⟨And.right, fun hdel => ⟨hopen hdel, hdel⟩⟩, fun ⟨_, hdel⟩ => ?_⟩
    obtain ⟨hhw, him2⟩ := hbacked hdel
    obtain ⟨hiec, hcool, hnest, -⟩ := hdel
    rw [hsame.iec] at hiec
    rw [hsame.coolingDown] at hcool
    rw [hsame.inException, hsame.nestingBlocked] at hnest
    exact ⟨hhw, him2, hiec, hcool, hnest⟩

/-- Nothing is deferred, scheduled or skipped. -/
def stillSurroundings : Surroundings :=
  ⟨fun _ => 0, fun _ => 0, fun _ => (0, 0), fun _ => .kept, fun _ => none⟩

/-- A VBlank pends behind a closed SR.IM2, a software interrupt behind an open SR.IM0. -/
def softwareBehindVblank : Machine :=
  { powerOn with iStat := 1, iMask := 1, cop0 := ⟨0x101#32, 0x500#32, 0⟩, wired := true }

theorem software_held_back : ¬Exact stillSurroundings softwareBehindVblank := by
  intro h
  have hdel : Deliverable (batchFlush stillSurroundings softwareBehindVblank) := by
    unfold Deliverable
    decide
  exact absurd (h.1.2 hdel) (by decide)

/-- The same with SR.IM2 open. -/
theorem open_gate_exact :
    Exact stillSurroundings { softwareBehindVblank with cop0 := ⟨0x501#32, 0x500#32, 0⟩ } :=
  (gate_exact_iff _ _ rfl rfl rfl rfl).2 fun _ => ⟨by decide, by decide⟩

end PsxRecomp.Interrupts
