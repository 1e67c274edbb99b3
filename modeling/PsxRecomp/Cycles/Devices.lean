import Mathlib
import PsxRecomp.Library.Transducer

/-! The devices behind the guest clock. Controller port, CD-ROM, DMA, root counters and SPU are
parameters; the VBlank pacing of `interrupts.c` and the order in which `advance_devices` visits
the devices are the code's own. Every event is stamped with the cycle count its device saw. -/
namespace PsxRecomp.Cycles
open Transducer
set_option autoImplicit false

/-! ## Device sets -/

/-- The state of all devices: the controller port, the VBlank pacing, and the rest. -/
structure DeviceState (S R : Type*) where
  sio : S
  rest : R
  cyclesSinceVblank : ℕ
  lastSioSeqSeen : ℕ
  lastSioProgressCycle : ℕ
  inException : Bool
deriving DecidableEq

/-- The device functions. The first argument of each is `psx_cycle_count` when it is called; the
SPU sample clock also reads `psx_get_cycle_count()`, its second argument. -/
structure DeviceSet (S R ε : Type*) where
  sioAdvance : ℕ → ℕ → Step (S × R) ε
  cdromAdvance : ℕ → ℕ → Step R ε
  dmaAdvance : ℕ → ℕ → Step R ε
  timersAdvance : ℕ → ℕ → Step R ε
  spuSampleEventService : ℕ → ℕ → Step R ε
  /-- What `fire_vblank_edge` does besides taking one period off `cycles_since_vblank`. -/
  vblankEdge : ℕ → Step R ε
  sioGetSeq : S → ℕ
  sioCardProtocolActive : S → Bool
  timersCyclesToIrq : ℕ → R → ℕ
  cdromCyclesToIrq : ℕ → R → ℕ
  dmaCyclesToInternalEvent : ℕ → R → ℕ
  sioCyclesToIrq : ℕ → S → ℕ
  spuSampleEventCyclesToNext : ℕ → ℕ → R → ℕ
  /-- The live video standard. -/
  pal : Bool

def vblankCyclesNtsc : ℕ := 564480
def vblankCyclesPal : ℕ := 677376

/-- `g_psx_vblank_cycles` -/
def DeviceSet.vblankCycles {S R ε : Type*} (D : DeviceSet S R ε) : ℕ :=
  if D.pal then vblankCyclesPal else vblankCyclesNtsc

theorem DeviceSet.vblankCycles_pos {S R ε : Type*} (D : DeviceSet S R ε) : 0 < D.vblankCycles := by
  rw [vblankCycles]
  split_ifs <;> decide

theorem DeviceSet.vblankCycles_le {S R ε : Type*} (D : DeviceSet S R ε) :
    D.vblankCycles ≤ vblankCyclesPal := by
  rw [vblankCycles]
  split_ifs <;> decide

variable {S R ε : Type*}

/-- A step of the rest of the devices; its events are stamped with the current cycle. -/
def onRest (now : ℕ) (f : Step R ε) : Step (DeviceState S R) (ℕ × ε) := fun d =>
  ({ d with rest := (f d.rest).1 }, (f d.rest).2.map fun e => (now, e))

def onSio (now : ℕ) (f : Step (S × R) ε) : Step (DeviceState S R) (ℕ × ε) := fun d =>
  ({ d with sio := (f (d.sio, d.rest)).1.1, rest := (f (d.sio, d.rest)).1.2 },
    (f (d.sio, d.rest)).2.map fun e => (now, e))

variable (D : DeviceSet S R ε)

/-! ## VBlank pacing -/

/-- `pend` is what `psx_get_cycle_count()` adds to `psx_cycle_count`. -/
def noteSioProgressCycle (now pend : ℕ) (d : DeviceState S R) : DeviceState S R :=
  if D.sioGetSeq d.sio ≠ d.lastSioSeqSeen then
    { d with lastSioSeqSeen := D.sioGetSeq d.sio, lastSioProgressCycle := now + pend }
  else d

def shouldDeferVblankForSio (now pend : ℕ) (d : DeviceState S R) : Bool :=
  if D.sioCardProtocolActive d.sio then
    let now := now + pend
    let sinceProgress := if now ≥ d.lastSioProgressCycle then now - d.lastSioProgressCycle else 0
    sinceProgress < D.vblankCycles * 10
  else false

def vblankEdgeDue (d : DeviceState S R) : Bool := d.cyclesSinceVblank ≥ D.vblankCycles

def fireVblankEdge (now : ℕ) : Step (DeviceState S R) (ℕ × ε) := fun d =>
  onRest now (D.vblankEdge now) { d with cyclesSinceVblank := d.cyclesSinceVblank - D.vblankCycles }

/-- The loop of `interrupts_service_scheduled_events`. -/
def fireDueEdges (now pend : ℕ) (d : DeviceState S R) : DeviceState S R × List (ℕ × ε) :=
  if _h : vblankEdgeDue D d = true then
    if shouldDeferVblankForSio D now pend d then (d, [])
    else
      let rest := fireDueEdges now pend (fireVblankEdge D now d).1
      (rest.1, (fireVblankEdge D now d).2 ++ rest.2)
  else (d, [])
termination_by d.cyclesSinceVblank
decreasing_by
  have hpos := D.vblankCycles_pos
  simp only [vblankEdgeDue, decide_eq_true_eq] at _h
  simp only [fireVblankEdge, onRest]
  omega

def interruptsServiceScheduledEvents (now pend : ℕ) : Step (DeviceState S R) (ℕ × ε) := fun d =>
  let d := noteSioProgressCycle D now pend d
  if d.inException then (d, []) else fireDueEdges D now pend d

def interruptsAdvanceCycles (now pend cycles : ℕ) : Step (DeviceState S R) (ℕ × ε) := fun d =>
  interruptsServiceScheduledEvents D now pend
    { d with cyclesSinceVblank := (d.cyclesSinceVblank + cycles) % 2 ^ 32 }

def interruptsCyclesToVblank (d : DeviceState S R) : ℕ :=
  if d.cyclesSinceVblank ≥ D.vblankCycles then 0 else D.vblankCycles - d.cyclesSinceVblank

/-! ## All devices -/

/-- `psx_cycle_count` with the devices it drives. -/
abbrev Timed (S R : Type*) := ℕ × DeviceState S R

/-- The devices in the order of `advance_devices`, at the count they all see. -/
def visitDevices (now pend c : ℕ) : Step (DeviceState S R) (ℕ × ε) :=
  seq (onSio now (D.sioAdvance now c)) <|
  seq (onRest now (D.cdromAdvance now c)) <|
  seq (onRest now (D.dmaAdvance now c)) <|
  seq (onRest now (D.timersAdvance now c)) <|
  seq (interruptsAdvanceCycles D now pend c) <|
  onRest now (D.spuSampleEventService now (now + pend))

def advanceDevices (pend c : ℕ) : Step (Timed S R) (ℕ × ε) := fun s =>
  ((s.1 + c, (visitDevices D (s.1 + c) pend c s.2).1), (visitDevices D (s.1 + c) pend c s.2).2)

def serviceScheduledEvents (pend : ℕ) : Step (Timed S R) (ℕ × ε) := fun s =>
  ((s.1, (interruptsServiceScheduledEvents D s.1 pend s.2).1),
    (interruptsServiceScheduledEvents D s.1 pend s.2).2)

/-- The nearest of the six announced distances. -/
def nearestEvent (pend : ℕ) (s : Timed S R) : ℕ :=
  min (interruptsCyclesToVblank D s.2) <|
  min (D.timersCyclesToIrq s.1 s.2.rest) <|
  min (D.cdromCyclesToIrq s.1 s.2.rest) <|
  min (D.dmaCyclesToInternalEvent s.1 s.2.rest) <|
  min (D.sioCyclesToIrq s.1 s.2.sio) <|
  D.spuSampleEventCyclesToNext s.1 (s.1 + pend) s.2.rest

def devicesCyclesToNextInternalEvent (pend : ℕ) (s : Timed S R) : ℕ :=
  if nearestEvent D pend s = 0 then 1 else nearestEvent D pend s

/-! ## Servicing twice at one cycle is servicing once -/

/-- Nothing is left to service at this cycle: the port's progress is noted, and no edge is due
that could be delivered. -/
def Quiescent (now pend : ℕ) (d : DeviceState S R) : Prop :=
  D.sioGetSeq d.sio = d.lastSioSeqSeen ∧
    (d.inException = true ∨ vblankEdgeDue D d = false ∨
      shouldDeferVblankForSio D now pend d = true)

theorem fireDueEdges_frame (now pend : ℕ) (d : DeviceState S R) :
    (fireDueEdges D now pend d).1.sio = d.sio ∧
      (fireDueEdges D now pend d).1.lastSioSeqSeen = d.lastSioSeqSeen ∧
      (fireDueEdges D now pend d).1.lastSioProgressCycle = d.lastSioProgressCycle ∧
      (fireDueEdges D now pend d).1.inException = d.inException := by
  induction d using fireDueEdges.induct D now pend with
  | case1 d hdue hdefer =>
    rw [fireDueEdges, dif_pos hdue, if_pos hdefer]
    exact ⟨rfl, rfl, rfl, rfl⟩
  | case2 d hdue hdefer ih =>
    rw [fireDueEdges, dif_pos hdue, if_neg hdefer]
    exact ih
  | case3 d hdue =>
    rw [fireDueEdges, dif_neg hdue]
    exact ⟨rfl, rfl, rfl, rfl⟩

/-- The loop stops where no edge is due or the card transfer defers it. -/
theorem fireDueEdges_stops (now pend : ℕ) (d : DeviceState S R) :
    vblankEdgeDue D (fireDueEdges D now pend d).1 = false ∨
      shouldDeferVblankForSio D now pend (fireDueEdges D now pend d).1 = true := by
  induction d using fireDueEdges.induct D now pend with
  | case1 d hdue hdefer =>
    rw [fireDueEdges, dif_pos hdue, if_pos hdefer]
    exact Or.inr hdefer
  | case2 d hdue hdefer ih =>
    rw [fireDueEdges, dif_pos hdue, if_neg hdefer]
    exact ih
  | case3 d hdue =>
    rw [fireDueEdges, dif_neg hdue]
    exact Or.inl (by simpa using hdue)

theorem fireDueEdges_idle (now pend : ℕ) (d : DeviceState S R)
    (h : vblankEdgeDue D d = false ∨ shouldDeferVblankForSio D now pend d = true) :
    fireDueEdges D now pend d = (d, []) := by
  rw [fireDueEdges]
  split_ifs with hdue hdefer
  · rfl
  · rcases h with h | h
    · rw [h] at hdue
      cases hdue
    · exact absurd h hdefer
  · rfl

theorem fireDueEdges_due (now pend : ℕ) (d : DeviceState S R) (hdue : vblankEdgeDue D d = true)
    (hdefer : shouldDeferVblankForSio D now pend d = false) :
    (fireDueEdges D now pend d).2 = (fireVblankEdge D now d).2 ++
      (fireDueEdges D now pend (fireVblankEdge D now d).1).2 := by
  rw [fireDueEdges, dif_pos hdue, if_neg (by simp [hdefer])]

theorem noteSioProgress_seen (now pend : ℕ) (d : DeviceState S R) :
    D.sioGetSeq (noteSioProgressCycle D now pend d).sio =
      (noteSioProgressCycle D now pend d).lastSioSeqSeen := by
  rw [noteSioProgressCycle]
  split_ifs with h
  · rfl
  · exact not_not.mp h

theorem service_of_quiescent (now pend : ℕ) (d : DeviceState S R)
    (h : Quiescent D now pend d) : interruptsServiceScheduledEvents D now pend d = (d, []) := by
  have hnote : noteSioProgressCycle D now pend d = d := by
    rw [noteSioProgressCycle, if_neg (not_not.mpr h.1)]
  rw [interruptsServiceScheduledEvents, hnote]
  rcases h.2 with hex | hidle
  · rw [if_pos hex]
  · rw [fireDueEdges_idle D now pend d hidle, ite_self]

theorem quiescent_after_service (now pend : ℕ) (d : DeviceState S R) :
    Quiescent D now pend (interruptsServiceScheduledEvents D now pend d).1 := by
  have hseen := noteSioProgress_seen D now pend d
  rw [interruptsServiceScheduledEvents]
  split_ifs with hex
  · exact ⟨hseen, Or.inl hex⟩
  · obtain ⟨hsio, hseq, -, -⟩ := fireDueEdges_frame D now pend (noteSioProgressCycle D now pend d)
    exact ⟨by rw [hsio, hseq, hseen], Or.inr (fireDueEdges_stops D now pend _)⟩

theorem quiescent_onRest (now pend : ℕ) (f : Step R ε) (d : DeviceState S R) :
    Quiescent D now pend (onRest now f d).1 ↔ Quiescent D now pend d := Iff.rfl

theorem quiescent_after_advance (pend c : ℕ) (s : Timed S R) :
    Quiescent D (s.1 + c) pend (advanceDevices D pend c s).1.2 := by
  simp only [advanceDevices, visitDevices, seq_fst]
  rw [quiescent_onRest]
  exact quiescent_after_service D _ pend _

/-- A point of time at which nothing is left to service. -/
def Serviced (pend : ℕ) (s : Timed S R) : Prop := Quiescent D s.1 pend s.2

theorem serviceScheduledEvents_serviced (pend : ℕ) (s : Timed S R) (h : Serviced D pend s) :
    serviceScheduledEvents D pend s = (s, []) := by
  rw [serviceScheduledEvents, service_of_quiescent D s.1 pend s.2 h]

theorem serviced_after_service (pend : ℕ) (s : Timed S R) :
    Serviced D pend (serviceScheduledEvents D pend s).1 :=
  quiescent_after_service D s.1 pend s.2

theorem serviced_after_advance (pend c : ℕ) (s : Timed S R) :
    Serviced D pend (advanceDevices D pend c s).1 :=
  quiescent_after_advance D pend c s

/-- The devices already service the pacing on their way, so servicing once more adds nothing. -/
theorem advance_seq_service (pend c : ℕ) :
    seq (advanceDevices D pend c) (serviceScheduledEvents D pend) = advanceDevices D pend c := by
  funext s
  have h := serviceScheduledEvents_serviced D pend _ (serviced_after_advance D pend c s)
  simp only [seq, h, List.append_nil]

@[simp] theorem advanceDevices_time (pend c : ℕ) (s : Timed S R) :
    (advanceDevices D pend c s).1.1 = s.1 + c := rfl

@[simp] theorem serviceScheduledEvents_time (pend : ℕ) (s : Timed S R) :
    (serviceScheduledEvents D pend s).1.1 = s.1 := rfl

end PsxRecomp.Cycles
