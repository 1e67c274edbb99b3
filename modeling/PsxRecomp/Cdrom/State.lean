import PsxRecomp.Cdrom.Disc

/-! The controller: its state, the response slot with its interrupt line, the sector buffers and
the pacing of the drive. Telemetry (trace, history and burst rings, probe counters, the deadline
records) is left out. The clock is a number that only grows; whatever the controller does to the
outside, and each response, is put on its log, newest first. -/
namespace PsxRecomp.Cdrom
set_option autoImplicit false

/-! ## Arrays -/

def readAt {n : ℕ} (a : Fin n → Byte) (i : ℤ) : Byte :=
  if h : 0 ≤ i ∧ i < n then a ⟨i.toNat, by omega⟩ else 0#8

def writeAt {n : ℕ} (a : Fin n → Byte) (i : ℤ) (v : Byte) : Fin n → Byte :=
  fun k => if (k : ℤ) = i then v else a k

/-- The conversion to `int`. -/
def int32 (v : ℤ) : ℤ := Int.bmod v (2 ^ 32)

/-! ## The parts of the state -/

/-- `CdromLidState` -/
structure Lid where
  closeDue : ℕ
  physicalOpen : Bool
  shellOpenLatched : Bool
deriving DecidableEq, Repr

/-- The interrupt line: the visible response and its presentation to INTC. -/
structure Line where
  enable : Byte
  flag : Byte
  latched : Bool
  generation : BitVec 32
  latchedGeneration : BitVec 32
  presentDue : ℕ
deriving DecidableEq, Repr

/-- The parameter FIFO. -/
structure Params where
  fifo : Fin 16 → Byte
  count : ℤ

/-- The response FIFO. -/
structure Responses where
  fifo : Fin 16 → Byte
  read : ℤ
  count : ℤ

/-- `CdSectorBuf` -/
structure SectorBuf where
  data : Fin 2340 → Byte
  size : ℤ
  pos : ℤ

/-- The sector ring and the FIFO that BFRD latches. -/
structure Buffers where
  ring : Fin 8 → SectorBuf
  ringRead : Fin 8
  ringWrite : Fin 8
  fifo : SectorBuf

/-- `last_sector_*` -/
structure LastSector where
  buffer : Fin 2340 → Byte
  lba : ℤ
  headerStale : Bool
  size : ℤ
  mode : Byte
  haveRaw : Bool
  rawMode : Byte
  xaFile : Byte
  xaChannel : Byte
  xaSubmode : Byte
  xaCoding : Byte

/-- The seek target and the Setloc that named it. -/
structure Seek where
  min : Byte
  sec : Byte
  sect : Byte
  setlocLba : ℤ
  far : Bool
  setlocPending : Bool
deriving DecidableEq, Repr

/-- The read stream. -/
structure Read where
  reading : Bool
  pos : Msf
  cmd : Byte
  delay : ℤ
deriving DecidableEq, Repr

/-- `xa_*` -/
structure Xa where
  hist : XaHist
  file : Byte
  channel : Byte
  coding : Byte
  active : Bool
  dataEndPending : Bool
deriving DecidableEq, Repr

/-- `cdda_*` -/
structure Cdda where
  playing : Bool
  track : ℤ
  lba : BitVec 32
  delay : ℤ
  dataEndPending : Bool
  sectorsPlayed : ℕ
deriving DecidableEq, Repr

/-- `CDROMWarmRoute` -/
structure WarmRoute where
  armLba : ℤ
  lbas : List ℤ
  rate : ℤ
deriving DecidableEq, Repr

/-- `s_warm_route_*`, the index of the active route with the active flag. -/
structure Warm where
  routes : List WarmRoute
  enabled : Bool
  armed : Bool
  armedLba : ℤ
  active : Option ℕ
  next : ℕ
  lastLba : ℤ
deriving DecidableEq, Repr

/-- The disc-speed settings. -/
structure Speed where
  divisor : ℤ
  gameDivisor : ℤ
  instantMax : ℤ
deriving DecidableEq, Repr

/-- `PendingCmd` -/
structure PendingCmd where
  cmd : Byte
  pending : Bool
  phase : ℤ
  due : ℕ
deriving DecidableEq, Repr

/-- `QueuedCmd` -/
structure QueuedCmd where
  cmd : Byte
  params : Params
  pending : Bool

/-- The data-ready notification that waits for an acknowledge. -/
structure Waiting where
  dataready : Bool
  stat : Byte
  slot : Fin 8
  presentDue : ℕ
  lost : ℕ
deriving DecidableEq, Repr

/-- `last_valid_subq` -/
structure Subq where
  last : Fin 12 → Byte
  available : Bool

/-! ## The log -/

/-- Who puts a response into the slot. A data-ready response selects a slot of the ring. -/
inductive Source
  | command (cmd : Byte)
  | second (cmd : Byte)
  | sector (slot : Fin 8)
  | waitingSector (slot : Fin 8)
  | cddaReport
  | cddaEnd
  | xaEnd
  | lidOpen
deriving DecidableEq, Repr

inductive Event
  /-- `set_irq`, with the flag it replaced. -/
  | response (source : Source) (before type : Byte) (now : ℕ)
  /-- `psx_irq_raise` -/
  | raise (detail : Byte) (now : ℕ)
  /-- `pending_arm` -/
  | armed (cmd : Byte)
  | streamStarted
  | streamStopped
  /-- A data sector is put into a slot of the ring. -/
  | filled (slot : Fin 8) (lba : ℤ)
  /-- The sector just put into the ring is handed to a running transfer. -/
  | continued
  /-- The notification of the sector just put into the ring has to wait. -/
  | waits
  /-- `s_int1_lost`: a waiting notification is replaced. -/
  | lost
  /-- `spu_cd_audio_push` -/
  | audioPush (frames : List Frame)
  /-- `spu_cd_audio_reset` -/
  | audioReset
deriving DecidableEq, Repr

/-! ## The controller -/

structure Controller where
  index : Byte
  stat : Byte
  request : Byte
  line : Line
  lid : Lid
  lidIrqPending : Bool
  params : Params
  responses : Responses
  buffers : Buffers
  lastSector : LastSector
  seek : Seek
  read : Read
  mode : Byte
  filterFile : Byte
  filterChannel : Byte
  muted : Bool
  xa : Xa
  cdda : Cdda
  speed : Speed
  warm : Warm
  pending : PendingCmd
  queued : QueuedCmd
  waiting : Waiting
  accelBlock : ℤ
  pendingVolume : Volume
  decodeVolume : Volume
  subq : Subq
  discScex : Fin 4 → Byte
  log : List Event

/-- What a call finds outside: the clock, the mounted image and `dma_cdrom_transfer_active`. -/
structure Env where
  now : ℕ
  disc : Option Disc
  dmaActive : Bool

/-- The image behind `iso_handle`. -/
def Env.image (env : Env) : Disc := env.disc.getD Disc.absent

def Controller.emit (s : Controller) (e : Event) : Controller := { s with log := e :: s.log }

/-! ## Status and response types -/

def statError : Byte := 0x01#8
def statMotor : Byte := 0x02#8
def statSeekErr : Byte := 0x04#8
def statIdError : Byte := 0x08#8
def statShell : Byte := 0x10#8
def statRead : Byte := 0x20#8
def statSeek : Byte := 0x40#8
def statPlay : Byte := 0x80#8

def irqDataReady : Byte := 1#8
def irqComplete : Byte := 2#8
def irqAck : Byte := 3#8
def irqDataEnd : Byte := 4#8
def irqError : Byte := 5#8

/-- `has_disc`, with `cdrom_lid_media_ready`. -/
def hasDisc (env : Env) (s : Controller) : Bool := env.disc.isSome && !s.lid.physicalOpen

/-! ## The response slot -/

/-- `response_clear` -/
def responseClear (s : Controller) : Controller :=
  { s with responses := { s.responses with read := 0, count := 0 } }

/-- `response_push` -/
def responsePush (val : Byte) (s : Controller) : Controller :=
  if s.responses.count < 16 then
    { s with responses := { s.responses with
        fifo := writeAt s.responses.fifo s.responses.count val
        count := s.responses.count + 1 } }
  else s

def responsePushAll (vals : List Byte) (s : Controller) : Controller :=
  vals.foldl (fun s val => responsePush val s) s

/-- `set_irq` -/
def setIrq (env : Env) (source : Source) (type : Byte) (s : Controller) : Controller :=
  { s with
    line := { s.line with
      flag := type
      generation := s.line.generation + 1
      latched := false
      presentDue := env.now + 5000 }
    log := .response source s.line.flag type env.now :: s.log }

/-- `cdrom_irq_mask_matches_reason` -/
def maskMatchesReason (enable reason : Byte) : Bool := enable &&& reason &&& 0x07#8 ≠ 0#8

/-- `present_cdrom_irq`; `fire_cdrom_irq` and `refresh_cdrom_irq_line` differ from it in what they
trace. -/
def presentIrq (env : Env) (s : Controller) : Controller :=
  if s.line.presentDue ≠ 0 ∧ env.now < s.line.presentDue then s
  else if maskMatchesReason s.line.enable s.line.flag ∧ s.line.latched = false then
    { s with
      line := { s.line with latched := true, latchedGeneration := s.line.generation }
      log := .raise s.line.flag env.now :: s.log }
  else s

/-- A response as every producer gives it: the bytes, then the interrupt. -/
def respond (env : Env) (source : Source) (type : Byte) (bytes : List Byte) (s : Controller) : Controller :=
  presentIrq env (setIrq env source type (responsePushAll bytes (responseClear s)))

/-! ## The lid -/

/-- `cdrom_lid_close_if_due` -/
def lidCloseIfDue (now : ℕ) (lid : Lid) : Option Lid :=
  if lid.physicalOpen = false ∨ now < lid.closeDue then none
  else some { lid with physicalOpen := false, closeDue := 0 }

/-- `present_lid_open_irq_if_ready` -/
def presentLidOpen (env : Env) (s : Controller) : Controller :=
  if s.lidIrqPending = false ∨ s.line.flag ≠ 0#8 then s
  else
    respond env .lidOpen irqError [statError ||| statShell, 0x08#8]
      { s with stat := statError ||| statShell, lidIrqPending := false }

/-- The lid closes when it is due, unless its opening still waits to be told. -/
def closeLid (env : Env) (s : Controller) : Controller :=
  if s.lidIrqPending then s
  else match lidCloseIfDue env.now s.lid with
    | none => s
    | some lid =>
      let stat := s.stat &&& ~~~(statError ||| statRead ||| statPlay ||| statSeek)
      let stat := if env.disc.isSome then stat ||| statMotor else stat
      { s with lid := lid, stat := stat ||| statShell }

/-- `process_lid_state` -/
def processLid (env : Env) (s : Controller) : Controller := closeLid env (presentLidOpen env s)

/-! ## Sector buffers -/

def emptyBuf : SectorBuf := { data := fun _ => 0#8, size := 0, pos := 0 }

/-- `rb_available` -/
def fifoAvailable (b : Buffers) : Bool := 0 < b.fifo.size ∧ b.fifo.pos < b.fifo.size

def bfrd (request : Byte) : Bool := request &&& 0x80#8 ≠ 0#8

/-- `load_data_fifo` -/
def loadDataFifo (requested : Bool) (s : Controller) : Controller :=
  let slot := s.buffers.ringRead
  let sector := s.buffers.ring slot
  if bfrd s.request = false ∨ fifoAvailable s.buffers ∨ sector.size ≤ 0 ∨
      (requested = false ∧ sector.pos ≥ sector.size) then s
  else
    { s with buffers := { s.buffers with
        fifo := { sector with pos := 0 }
        ring := Function.update s.buffers.ring slot { sector with pos := sector.size } } }

/-- `clear_sector_buffer` -/
def clearSectorBuffer (s : Controller) : Controller :=
  { s with
    buffers := {
      fifo := emptyBuf
      ring := fun i => { s.buffers.ring i with size := 0, pos := 0 }
      ringRead := 0
      ringWrite := 0 }
    request := s.request &&& ~~~0x80#8 }

/-- `data_fifo_ready` -/
def dataFifoReady (s : Controller) : Bool := bfrd s.request && fifoAvailable s.buffers

/-- `cdrom_clear_pending_dataready` -/
def clearWaiting (s : Controller) : Controller :=
  { s with waiting := { s.waiting with dataready := false, stat := 0#8, presentDue := 0 } }

/-! ## Pacing -/

def singleSpeedSectorCycles : ℤ := 451584

/-- `warm_route_current` -/
def warmRouteCurrent (w : Warm) : Option WarmRoute := w.active.bind (w.routes[·]?)

/-- `warm_route_on_setloc` -/
def warmRouteOnSetloc (lba : ℤ) (w : Warm) : Warm :=
  let idle := { w with armed := false, armedLba := -1, active := none, next := 0, lastLba := -1 }
  if w.routes = [] ∨ w.enabled = false then w
  else if w.routes.any (·.armLba = lba) then
    { w with armed := true, armedLba := lba, active := none, next := 0, lastLba := lba }
  else match w.active with
    | none =>
      if w.armed then
        let w' := { w with armed := false, armedLba := -1 }
        match w.routes.findIdx? fun r => r.armLba = w.armedLba ∧ lba = r.lbas.getD 0 0 with
        | some i => { w' with active := some i, next := 1, lastLba := lba }
        | none => w'
      else w
    | some _ =>
      if lba = w.lastLba then w
      else match (warmRouteCurrent w).bind (·.lbas[w.next]?) with
        | some expected => if lba = expected then { w with lastLba := lba, next := w.next + 1 } else idle
        | none => idle

/-- `instant_period` and `warm_route_period`: so many sectors a frame, but not below
`CDROM_MIN_DELAY`. -/
def framePeriod (rate : ℤ) : ℤ := max 500 ((564480 : ℤ).tdiv rate)

/-- `apply_speed` -/
def applySpeed (s : Controller) (delay : ℤ) : ℤ :=
  if s.xa.active then delay
  else if s.speed.divisor = 0 then framePeriod s.speed.instantMax
  else max 500 (delay.tdiv s.speed.divisor)

/-- `apply_read_speed` -/
def applyReadSpeed (s : Controller) (delay : ℤ) : ℤ :=
  if s.xa.active ∨ s.mode &&& 0x48#8 ≠ 0#8 then delay
  else if s.warm.active.isSome then
    framePeriod (match warmRouteCurrent s.warm with | some r => r.rate | none => 32)
  else applySpeed s delay

def doubleSpeed (mode : Byte) : Bool := mode &&& 0x80#8 ≠ 0#8

/-- `authentic_sector_period` -/
def authenticSectorPeriod (s : Controller) : ℤ :=
  if doubleSpeed s.mode then singleSpeedSectorCycles / 2 else singleSpeedSectorCycles

/-- `sector_delay_cycles` -/
def sectorDelayCycles (s : Controller) : ℤ := applyReadSpeed s (authenticSectorPeriod s)

/-- `initial_read_delay_cycles` -/
def initialReadDelayCycles (s : Controller) : ℤ :=
  applyReadSpeed s
    (if doubleSpeed s.mode then singleSpeedSectorCycles else singleSpeedSectorCycles * 2)

/-- `seek_complete_delay_cycles` -/
def seekCompleteDelayCycles (s : Controller) : ℤ :=
  applySpeed s (if s.seek.far then singleSpeedSectorCycles * 4 else 0x800)

/-- `pause_complete_delay_cycles` -/
def pauseCompleteDelayCycles (s : Controller) : ℤ :=
  if s.read.reading = false ∧ s.stat &&& (statRead ||| statPlay) = 0#8 then 5000
  else
    let lba := max 0 (if s.read.reading then s.read.pos.lba else s.lastSector.lba)
    let cycles := 1124584 + lba * 42596 / 4500
    int32 (if doubleSpeed s.mode then cycles else cycles * 2)

/-- `pending_arm` -/
def pendingArm (env : Env) (cmd : Byte) (latency phase : ℤ) (s : Controller) : Controller :=
  { s with
    pending := ⟨cmd, true, phase, env.now + latency.toNat⟩
    log := .armed cmd :: s.log }

end PsxRecomp.Cdrom
