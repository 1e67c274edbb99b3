import PsxRecomp.Sio.Card

/-! SIO0: the registers, the shifter with its one buffered byte, and the accesses and clock advances
that drive them. -/
namespace PsxRecomp.Sio
set_option autoImplicit false

/-! ## State -/

inductive ActiveDevice where
  | none
  | pad
  | memcard
  | unknown (code : BitVec 32)
  deriving DecidableEq

inductive BusOwner where
  | none
  | card
  | pad
  | unknown
  | other (code : BitVec 32)
  deriving DecidableEq

/-- What the ring of delivered interrupts records about the next one. -/
structure IrqMeta where
  source : Byte
  slot : Byte
  delay : Byte
  mcState : Byte
  byteSeq : BitVec 32

structure Core (ω : Type) where
  txData : Byte
  rxData : Byte
  stat : BitVec 16
  mode : BitVec 16
  ctrl : BitVec 16
  baud : BitVec 16
  bus : PadBus
  card : CardPort ω
  active : ActiveDevice
  irqPending : Bool
  irqCountdown : ℤ
  ackVisibleReads : ℤ
  pending : IrqMeta
  traceSeq : BitVec 32

/-- The shifter, the byte behind it and the acknowledge to come. -/
structure Pace where
  timingActive : Bool
  shiftActive : Bool
  shiftByte : Byte
  shiftRemaining : ℤ
  txBuffered : Bool
  txBuffer : Byte
  shiftAckIrqEn : Bool
  txBufferAckIrqEn : Bool
  pendingAck : Bool
  ackRemaining : ℤ
  pendingAckIrqEn : Bool
  owner : BusOwner
  byteIndex : BitVec 32

structure Port (ω : Type) where
  core : Core ω
  pace : Pace

/-! ## Register bits -/

def statTxRdy : BitVec 16 := 1 <<< 0
def statRxRdy : BitVec 16 := 1 <<< 1
def statTxEmpty : BitVec 16 := 1 <<< 2
def statAck : BitVec 16 := 1 <<< 7
def statIrq : BitVec 16 := 1 <<< 9
def statIdle : BitVec 16 := statTxRdy ||| statTxEmpty

def ctrlTxEn : ℕ := 0
def ctrlSelect : ℕ := 1
def ctrlAck : ℕ := 4
def ctrlReset : ℕ := 6
def ctrlAckIrqEn : ℕ := 12
def ctrlSlot : ℕ := 13

def baudCycles : ℤ := 1088
def ackCycles : ℤ := 170

/-! ## What a run shows -/

/-- Ends of a byte stream. -/
inductive Break where
  | select
  | txEnable
  | reset
  deriving DecidableEq

/-- A byte shifted to a device, with the slot bit of `CTRL` at that time. -/
structure Shift where
  tx : Byte
  rx : Byte
  slot : Bool
  effect : CardEffect

/-- An interrupt comes so many cycles into the call that raises it. -/
inductive Event where
  | shifted (s : Shift)
  | broken (cause : Break)
  | irq (after : ℤ)

variable {ω : Type} (F : Files ω)

namespace Core

def slotBit (c : Core ω) : Bool := c.ctrl.getLsbD ctrlSlot

def selectSlot (c : Core ω) : Core ω :=
  { c with bus := { c.bus with selectedSlot := if c.slotBit then 1 else 0 } }

/-! ## One byte -/

def padByte (c : Core ω) (tx : Byte) : Core ω :=
  let e := c.bus.processByte tx
  { c with
    bus := e.state
    rxData := e.rx
    stat := (if e.ack then c.stat ||| statAck else c.stat) ||| statRxRdy ||| statIdle }

def cardByte (c : Core ω) (tx : Byte) : Core ω × CardEffect :=
  let e := mcProcessByte F c.bus.selectedSlot tx c.card
  ({ c with
     card := e.state
     rxData := e.rx
     stat := (if e.ack then c.stat ||| statAck else c.stat) ||| statRxRdy ||| statIdle }, e.effect)

/-- A byte that no device takes. -/
def strayByte (c : Core ω) : Core ω := { c with rxData := 0xFF, stat := c.stat ||| statIdle }

/-- A byte while no device is selected. -/
def firstByte (c : Core ω) (tx : Byte) : Core ω × CardEffect :=
  let c := c.selectSlot
  if tx = 0x01 then
    let card := if c.card.work.state = .idle then c.card
      else (c.card.saveSlot c.card.slot).goTo .idle
    (({ c with card := card, active := .pad }).padByte tx, .quiet)
  else if tx = 0x81 then
    let card := (c.card.loadSlot c.bus.selectedSlot).goTo .idle
    ({ c with card := { card with slot := c.bus.selectedSlot }, active := .memcard }).cardByte F tx
  else
    let card := c.card.loadSlot c.bus.selectedSlot
    if card.work.state ≠ .idle ∧ c.bus.selectedSlot = card.slot then
      ({ c with card := card, active := .memcard }).cardByte F tx
    else (({ c with card := card.goTo .idle }).strayByte, .quiet)

/-- A byte to the card; a finished card only takes a select byte. -/
def nextCardByte (c : Core ω) (tx : Byte) : Core ω × CardEffect :=
  if c.card.work.state = .idle ∧ tx ≠ 0x81 then
    let c := ({ c with active := .none }).selectSlot
    if tx = 0x01 then (({ c with active := .pad }).padByte tx, .quiet) else (c.strayByte, .quiet)
  else c.cardByte F tx

/-- `sio_process_byte` -/
def processByte (c : Core ω) (tx : Byte) : Core ω × CardEffect :=
  let r := match c.active with
    | .none => c.firstByte F tx
    | .pad => (c.padByte tx, .quiet)
    | .memcard => c.nextCardByte F tx
    | .unknown _ => (c, .quiet)
  ({ r.1 with traceSeq := r.1.traceSeq + 1 }, r.2)

def shift (c : Core ω) (tx : Byte) : Shift :=
  ⟨tx, (c.processByte F tx).1.rxData, c.slotBit, (c.processByte F tx).2⟩

end Core

/-! ## Clock -/

def mcStateCode : McState → BitVec 32
  | .idle => 0 | .cmd => 1 | .id1 => 2 | .id2 => 3 | .addrMsb => 4 | .addrLsb => 5
  | .readAck1 => 6 | .readAck2 => 7 | .readMsbEcho => 8 | .readLsbEcho => 9 | .readData => 10
  | .readChk => 11 | .readEnd => 12
  | .writeLsbEcho => 13 | .writeData => 14 | .writeChk => 15 | .writeAck1 => 16 | .writeAck2 => 17
  | .writeEnd => 18
  | .getId1 => 19 | .getId2 => 20 | .getId3 => 21 | .getId4 => 22
  | .unknown code => code

def irqSrcCardAck : Byte := 1
def irqSrcPadAck : Byte := 2

def Core.ackSource (c : Core ω) : Byte :=
  if c.active = .memcard then irqSrcCardAck else irqSrcPadAck

def Core.pendingMeta (c : Core ω) : IrqMeta where
  source := c.ackSource
  slot := BitVec.ofInt 8 c.bus.selectedSlot
  delay := BitVec.ofInt 8 ackCycles
  mcState := (mcStateCode c.card.work.state).setWidth 8
  byteSeq := c.traceSeq

/-- The timing gate stays open while something is under way. -/
def Pace.settle (p : Pace) : Pace :=
  if p.shiftActive || p.txBuffered || p.pendingAck then p else { p with timingActive := false }

/-- The byte behind the shifter moves up. -/
def Pace.promote (p : Pace) : Pace :=
  if p.txBuffered then
    { p with
      shiftByte := p.txBuffer
      shiftActive := true
      shiftRemaining := baudCycles
      shiftAckIrqEn := p.txBufferAckIrqEn
      txBuffered := false
      txBufferAckIrqEn := false
      byteIndex := p.byteIndex + 1 }
  else p

/-- `sio_handle_shift_complete` -/
def shiftComplete (p : Port ω) : Port ω × Event :=
  let c := (p.core.processByte F p.pace.shiftByte).1
  let acked := c.stat &&& statAck ≠ 0
  let c := { c with stat := (c.stat &&& ~~~statAck) ||| statRxRdy }
  let c := { c with
    pending := c.pendingMeta
    stat := c.stat ||| (if p.pace.txBuffered then statTxEmpty else statIdle) }
  let pace := { p.pace with shiftActive := false }
  let pace := if acked then
      { pace with
        pendingAck := true
        ackRemaining := ackCycles
        pendingAckIrqEn := p.pace.shiftAckIrqEn }
    else pace
  (⟨c, pace.promote.settle⟩, .shifted (p.core.shift F p.pace.shiftByte))

/-- `sio_fire_ack_irq`, so many cycles into the call. -/
def fireAckIrq (after : ℤ) (p : Port ω) : Port ω × List Event :=
  let enabled := p.pace.pendingAckIrqEn || p.core.ctrl.getLsbD ctrlAckIrqEn
  let c := { p.core with stat := p.core.stat ||| statAck, ackVisibleReads := 2 }
  let pace := { p.pace with pendingAckIrqEn := false }
  if enabled then (⟨{ c with stat := c.stat ||| statIrq }, pace.settle⟩, [.irq after])
  else (⟨c, pace⟩, [])

def Pace.elapse (p : Pace) (dt : ℤ) : Pace :=
  { p with
    shiftRemaining := if p.shiftActive then p.shiftRemaining - dt else p.shiftRemaining
    ackRemaining := if p.pendingAck then p.ackRemaining - dt else p.ackRemaining }

inductive Deadline where
  | shift
  | ack
  | idle
  deriving DecidableEq

/-- The next deadline within the cycles that remain, and how far it is. -/
def Pace.nextEvent (p : Pace) (remaining : ℤ) : ℤ × Deadline :=
  let r : ℤ × Deadline :=
    if p.shiftActive ∧ 0 < p.shiftRemaining ∧ p.shiftRemaining ≤ remaining then
      (p.shiftRemaining, .shift)
    else (remaining, .idle)
  let r : ℤ × Deadline :=
    if p.pendingAck ∧ 0 < p.ackRemaining ∧
        (p.ackRemaining < r.1 ∨ p.ackRemaining = r.1 ∧ r.2 = .idle) then (p.ackRemaining, .ack)
    else r
  if p.shiftActive ∧ p.shiftRemaining ≤ 0 then (0, .shift)
  else if p.pendingAck ∧ p.ackRemaining ≤ 0 then (0, .ack)
  else r

def Pace.overdue (p : Pace) : Bool :=
  (p.shiftActive && decide (p.shiftRemaining ≤ 0)) || (p.pendingAck && decide (p.ackRemaining ≤ 0))

/-- Deadlines the shifter can still bring: each pass of the walk takes one away. -/
def Pace.work (p : Pace) : ℕ :=
  4 * p.txBuffered.toNat + 2 * p.shiftActive.toNat + p.pendingAck.toNat

/-- `sio_pace_walk`, with a bound on its passes. -/
def paceWalk (cycles : ℤ) : ℕ → ℤ → Port ω → Port ω × List Event
  | 0, _, p => (p, [])
  | passes + 1, remaining, p =>
    if 0 < remaining ∨ p.pace.overdue then
      let next := p.pace.nextEvent remaining
      let p := { p with pace := p.pace.elapse next.1 }
      let remaining := remaining - next.1
      match next.2 with
      | .shift =>
        let r := shiftComplete F p
        let s := paceWalk cycles passes remaining r.1
        (s.1, r.2 :: s.2)
      | .ack =>
        let r := fireAckIrq (cycles - remaining) { p with pace := { p.pace with pendingAck := false } }
        let s := paceWalk cycles passes remaining r.1
        (s.1, r.2 ++ s.2)
      | .idle => (p, [])
    else (p, [])

def sioAdvance (cycles : BitVec 32) (p : Port ω) : Port ω × List Event :=
  if cycles = 0 ∨ p.pace.timingActive = false then (p, [])
  else paceWalk F cycles.toInt (p.pace.work + 1) cycles.toInt p

/-- `sio_tick(0)`: the access-paced countdown. -/
def sioTick (p : Port ω) : Port ω × List Event :=
  if p.core.irqPending ∧ 0 < p.core.irqCountdown then
    let n := p.core.irqCountdown - 1
    if n = 0 then
      (⟨{ p.core with
          irqCountdown := 0
          irqPending := false
          stat := p.core.stat ||| statAck ||| statIrq ||| statIdle
          ackVisibleReads := 2 }, p.pace⟩, [.irq 0])
    else (⟨{ p.core with irqCountdown := n }, p.pace⟩, [])
  else (p, [])

/-! ## Accesses -/

/-- `sio_read`: the value, and the state after it. -/
def sioRead (addr : BitVec 32) (p : Port ω) : Port ω × List Event × BitVec 32 :=
  let t := sioTick p
  let c := t.1.core
  if addr = 0x1F801040 then
    (⟨{ c with stat := c.stat &&& ~~~statRxRdy }, t.1.pace⟩, t.2, c.rxData.setWidth 32)
  else if addr = 0x1F801044 then
    if 0 < c.ackVisibleReads then
      let c' := { c with ackVisibleReads := c.ackVisibleReads - 1 }
      (⟨if c.ackVisibleReads = 1 then { c' with stat := c.stat &&& ~~~statAck } else c', t.1.pace⟩,
        t.2, c.stat.setWidth 32)
    else (t.1, t.2, c.stat.setWidth 32)
  else if addr = 0x1F801048 then (t.1, t.2, c.mode.setWidth 32)
  else if addr = 0x1F80104A then (t.1, t.2, c.ctrl.setWidth 32)
  else if addr = 0x1F80104E then (t.1, t.2, c.baud.setWidth 32)
  else (t.1, t.2, 0)

def Pace.cleared (p : Pace) : Pace :=
  { p with
    shiftActive := false
    shiftRemaining := 0
    txBuffered := false
    shiftAckIrqEn := false
    txBufferAckIrqEn := false
    pendingAck := false
    ackRemaining := 0
    pendingAckIrqEn := false
    timingActive := false }

def Pace.released (p : Pace) : Pace := { p with owner := .none, byteIndex := 0 }

/-- A byte written to the transmitter: into the shifter, behind it, or nowhere. -/
def queueByte (b : Byte) (p : Port ω) : Port ω :=
  let ackIrqEn := p.core.ctrl.getLsbD ctrlAckIrqEn
  let pace := { p.pace with
    owner := if p.pace.byteIndex = 0 then
        if b = 0x81 then .card else if b = 0x01 then .pad else .unknown
      else p.pace.owner
    byteIndex := p.pace.byteIndex + 1 }
  if pace.shiftActive = false then
    ⟨{ p.core with stat := p.core.stat &&& ~~~statIdle },
      { pace with
        shiftByte := b
        shiftActive := true
        shiftRemaining := baudCycles
        shiftAckIrqEn := ackIrqEn
        timingActive := true }⟩
  else if pace.txBuffered = false then
    ⟨{ p.core with stat := p.core.stat &&& ~~~statTxEmpty },
      { pace with txBuffer := b, txBuffered := true, txBufferAckIrqEn := ackIrqEn }⟩
  else ⟨p.core, pace⟩

/-- A pad byte under `PSX_SIO_PAD_SYNC_RX`, which is processed at once. -/
def syncByte (b : Byte) (p : Port ω) : Port ω × Event :=
  let pace := { p.pace.cleared with owner := .pad, byteIndex := p.pace.byteIndex + 1 }
  let c := (p.core.processByte F b).1
  let r : Port ω :=
    if c.stat &&& statAck ≠ 0 ∧ c.ctrl.getLsbD ctrlAckIrqEn then
      ⟨{ c with
          stat := c.stat &&& ~~~(statAck ||| statIdle)
          pending := { c.pendingMeta with source := irqSrcPadAck } },
        { pace with
          pendingAck := true
          ackRemaining := baudCycles + ackCycles
          pendingAckIrqEn := true
          timingActive := true }⟩
    else ⟨{ c with stat := c.stat ||| statIdle }, pace⟩
  (r, .shifted (p.core.shift F b))

def isSyncByte (sync : Bool) (b : Byte) (p : Port ω) : Bool :=
  sync && (p.core.active ≠ .memcard &&
    (p.core.active = .pad || p.pace.owner = .pad || b = 0x01))

/-- `SIO_TX_DATA` -/
def writeData (sync : Bool) (value : BitVec 32) (p : Port ω) : Port ω × List Event :=
  let b : Byte := value.setWidth 8
  let p := { p with core := { p.core with txData := b } }
  if p.core.ctrl.getLsbD ctrlTxEn = false then (p, [])
  else if isSyncByte sync b p then
    let r := syncByte F b p
    (r.1, [r.2])
  else (queueByte b p, [])

/-- The reset bit of `SIO_CTRL`. -/
def resetPort (p : Port ω) : Port ω :=
  let saved i := { p.core.card.saved i with state := .idle }
  ⟨{ p.core with
      stat := statIdle
      mode := 0
      ctrl := 0
      baud := 0
      bus := p.core.bus.endTransaction
      card := { p.core.card.goTo .idle with saved := saved }
      active := .none
      irqPending := false
      irqCountdown := 0
      ackVisibleReads := 0 },
    p.pace.cleared.released⟩

/-- `SELECT` falls: the devices drop their transactions; a card keeps its flag and its buffer. -/
def deselect (p : Port ω) : Port ω :=
  let card := p.core.card
  let saved := match p.core.active, slotIndex card.slot with
    | .memcard, some i =>
      Function.update card.saved i { card.saved i with flag := card.work.flag }
    | _, _ => card.saved
  let cleared (m : McSlotState) : McSlotState :=
    { m with state := .idle, cmd := 0, sector := 0, sectorMsb := 0, sectorLsb := 0, dataIdx := 0,
             checksum := 0 }
  ⟨{ p.core with
      card := { card.goTo .idle with saved := fun i => cleared (saved i) }
      bus := p.core.bus.endTransaction
      active := .none
      stat := p.core.stat ||| statIdle },
    p.pace.cleared.released⟩

/-- `TX_EN` falls: the bytes on their way are lost; the devices do not see it. -/
def stopShifter (select : Bool) (p : Port ω) : Port ω :=
  if p.pace.shiftActive || p.pace.txBuffered || p.pace.pendingAck then
    let pace := p.pace.cleared
    ⟨{ p.core with stat := p.core.stat ||| statIdle }, if select then pace else pace.released⟩
  else p

/-- `SIO_CTRL` -/
def writeCtrl (value : BitVec 32) (p : Port ω) : Port ω × List Event :=
  let old := p.core.ctrl
  let v : BitVec 16 := value.setWidth 16
  let p := { p with core := { p.core with ctrl := v } }
  let p := if v.getLsbD ctrlAck then
      { p with core := { p.core with
          stat := p.core.stat &&& ~~~statIrq &&& ~~~statAck
          ackVisibleReads := 0 } }
    else p
  let p := if v.getLsbD ctrlReset then resetPort p else p
  let p := if !old.getLsbD ctrlSelect && v.getLsbD ctrlSelect then
      { p with pace := p.pace.released }
    else p
  let txFalls := old.getLsbD ctrlTxEn && !v.getLsbD ctrlTxEn
  let p := if txFalls then stopShifter (v.getLsbD ctrlSelect) p else p
  let selectFalls := old.getLsbD ctrlSelect && !v.getLsbD ctrlSelect
  let p := if selectFalls then deselect p else p
  (p, (if v.getLsbD ctrlReset then [.broken .reset] else []) ++
    ((if txFalls then [.broken .txEnable] else []) ++
      if selectFalls then [.broken .select] else []))

def sioWrite (sync : Bool) (addr value : BitVec 32) (p : Port ω) : Port ω × List Event :=
  let r := if addr = 0x1F801040 then writeData F sync value p
    else if addr = 0x1F801048 then
      ({ p with core := { p.core with mode := value.setWidth 16 } }, [])
    else if addr = 0x1F80104A then writeCtrl value p
    else if addr = 0x1F80104E then
      ({ p with core := { p.core with baud := value.setWidth 16 } }, [])
    else (p, [])
  let t := sioTick r.1
  (t.1, r.2 ++ t.2)

/-! ## Runs -/

def hostCall (h : HostCall) (p : Port ω) : Port ω :=
  let active := match h with
    | .canonicalizeSession _ => if p.core.active = .pad then .none else p.core.active
    | _ => p.core.active
  ⟨{ p.core with bus := p.core.bus.host h, active := active }, p.pace⟩

inductive Call where
  | write (addr value : BitVec 32)
  | read (addr : BitVec 32)
  | advance (cycles : BitVec 32)
  | tick
  | host (h : HostCall)

/-- What a call returns and what it shows. -/
structure Outcome where
  value : Option (BitVec 32)
  events : List Event

def call (sync : Bool) (p : Port ω) : Call → Port ω × Outcome
  | .write addr value =>
    let r := sioWrite F sync addr value p
    (r.1, ⟨none, r.2⟩)
  | .read addr =>
    let r := sioRead addr p
    (r.1, ⟨some r.2.2, r.2.1⟩)
  | .advance cycles =>
    let r := sioAdvance F cycles p
    (r.1, ⟨none, r.2⟩)
  | .tick =>
    let r := sioTick p
    (r.1, ⟨none, r.2⟩)
  | .host h => (hostCall h p, ⟨none, []⟩)

def run (sync : Bool) (p : Port ω) : List Call → Port ω × List Outcome
  | [] => (p, [])
  | c :: calls =>
    let r := call F sync p c
    let s := run sync r.1 calls
    (s.1, r.2 :: s.2)

/-- The initial values of the static variables of a build for so many players. -/
def Port.statics (players : ℕ) (cards : Fin 2 → MemCard) (files : ω) : Port ω where
  core :=
    { txData := 0
      rxData := 0
      stat := 0
      mode := 0
      ctrl := 0
      baud := 0
      bus :=
        { pads := List.replicate players .initial
          connected := 0
          tapEnabled := false
          tapPort := false
          tapAnalog := false
          legacyCfg := false
          state := .idle
          selectedSlot := 0
          activeLogical := 0
          response := fun _ => 0
          responseLen := 0
          responseIdx := 0
          currentCmd := 0
          mtapAddr := 0x01
          nextMode := fun _ => .slotA
          reqThis := fun _ => false
          returned := fun _ => .slotA }
      card :=
        { work := McSlotState.initial
          slot := 0
          saved := fun _ => McSlotState.initial
          cards := cards
          files := files }
      active := .none
      irqPending := false
      irqCountdown := 0
      ackVisibleReads := 0
      pending := ⟨0, 0, 0, 0, 0⟩
      traceSeq := 0 }
  pace :=
    { timingActive := false
      shiftActive := false
      shiftByte := 0
      shiftRemaining := 0
      txBuffered := false
      txBuffer := 0
      shiftAckIrqEn := false
      txBufferAckIrqEn := false
      pendingAck := false
      ackRemaining := 0
      pendingAckIrqEn := false
      owner := .none
      byteIndex := 0 }

/-- `sio_init` over whatever was there: the slots selected last, the working card variables, the
multitap latches and the bytes in the shifter stay. -/
def sioInit (p : Port ω) : Port ω :=
  let cleared (m : McSlotState) : McSlotState :=
    { m with state := .idle, cmd := 0, sector := 0, sectorMsb := 0, sectorLsb := 0,
             data := fun _ => 0, dataIdx := 0, checksum := 0, flag := 0x08 }
  ⟨{ p.core with
      txData := 0
      rxData := 0xFF
      stat := statIdle
      mode := 0
      ctrl := 0
      baud := 0
      bus := p.core.bus.init
      card := { p.core.card.goTo .idle with saved := fun i => cleared (p.core.card.saved i) }
      active := .none
      irqPending := false
      irqCountdown := 0
      ackVisibleReads := 0 },
    p.pace.cleared.released⟩

end PsxRecomp.Sio
