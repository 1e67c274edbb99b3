import Mathlib
import PsxRecomp.Cdrom.Commands

/-! The controller as the rest of the machine sees it: second responses and the read stream under
the clock, the registers, the DMA port, and runs of accesses. -/
namespace PsxRecomp.Cdrom
set_option autoImplicit false

/-! ## Second responses -/

/-- The state and the answer of a command whose second response is due: its interrupt and bytes. -/
def secondResponse (env : Env) (cmd : Byte) (s : Controller) :
    Option (Controller × Byte × List Byte) :=
  let complete := fun s : Controller => some (s, irqComplete, [s.stat])
  if cmd = 0x07#8 then complete { s with stat := s.stat ||| statMotor }
  else if cmd = 0x08#8 then
    complete { s with stat := s.stat &&& ~~~(statMotor ||| statRead ||| statPlay ||| statSeek) }
  else if cmd = 0x09#8 then complete { s with stat := s.stat &&& ~~~statRead }
  else if cmd = 0x0A#8 ∨ cmd = 0x1E#8 then complete s
  else if cmd = 0x15#8 ∨ cmd = 0x16#8 then
    complete { s with
      stat := s.stat &&& ~~~statSeek ||| statRead
      seek := { s.seek with far := false, setlocPending := false } }
  else if cmd = 0x1A#8 then
    if hasDisc env s = false then some (s, irqError, [s.stat ||| statIdError, 0x80#8])
    else some (s, irqComplete, [s.stat, 0x00#8, 0x20#8, 0x00#8] ++ List.ofFn s.discScex)
  else none

/-- A read command as a second response: armed by nothing but a restored state. -/
def secondSector (env : Env) (s : Controller) : Controller :=
  if s.read.reading = false then s
  else
    let result := readSectorAt env none s
    let s := advanceRead result.1
    if result.2 then announce env (.sector s.buffers.ringWrite) s.buffers.ringWrite s.stat s else s

/-- What is due under a command. -/
def deliverSecond (env : Env) (cmd : Byte) (s : Controller) : Controller :=
  if cmd = 0x06#8 ∨ cmd = 0x1B#8 then secondSector env s
  else match secondResponse env cmd s with
    | none => s
    | some (s, type, bytes) =>
      presentIrq env (setIrq env (.second cmd) type (responsePushAll bytes s))

/-- `process_pending` -/
def processPending (env : Env) (s : Controller) : Controller :=
  if s.pending.pending = false ∨ env.now < s.pending.due ∨ s.line.flag ≠ 0#8 then s
  else deliverSecond env s.pending.cmd
    (responseClear { s with pending := { s.pending with pending := false, due := 0 } })

/-! ## The read stream -/

/-- The conditions `warm_route_consumer_blocked` and `accelerated_consumer_blocked` share. -/
def consumerBehind (env : Env) (s : Controller) : Bool :=
  s.waiting.dataready || (s.line.flag ≠ 0#8 && !env.dmaActive)

/-- `warm_route_consumer_blocked` -/
def warmRouteConsumerBlocked (env : Env) (s : Controller) : Bool :=
  s.warm.active.isSome && consumerBehind env s

/-- `accelerated_consumer_blocked`, with `accelerated_read_active`. -/
def acceleratedConsumerBlocked (env : Env) (s : Controller) : Bool :=
  !s.xa.active && s.mode &&& 0x68#8 = 0#8 && s.speed.divisor ≠ 1 && consumerBehind env s

/-- A waiting notification that is replaced counts as lost. -/
def countLost (s : Controller) : Controller :=
  if s.waiting.dataready then
    { s with
      waiting := { s.waiting with lost := s.waiting.lost + 1 }
      log := .lost :: s.log }
  else s

/-- The notification of the sector just filled waits. -/
def holdNotification (s : Controller) : Controller :=
  { s with
    waiting := { s.waiting with dataready := true, stat := s.stat, slot := s.buffers.ringWrite }
    log := .waits :: s.log }

/-- A sector of the stream is due. -/
def sectorDue (env : Env) (s : Controller) : Controller :=
  if s.line.flag = 0#8 then deliverReadSector env none s
  else if env.dmaActive then (deliverReadSectorWithoutIrq env true s).1
  else
    let result := deliverReadSectorWithoutIrq env false s
    if result.2 then holdNotification (countLost result.1) else result.1

/-- The next deadline behind a sector: never a burst of missed ones. -/
def nextDeadline (s : Controller) : Controller :=
  let delay := s.read.delay + sectorDelayCycles s
  { s with
    accelBlock := 0
    read := { s.read with delay := if delay ≤ 0 then sectorDelayCycles s else delay } }

def passRead (cycles : BitVec 32) (s : Controller) : Controller :=
  { s with read := { s.read with delay := s.read.delay - cycles.toInt } }

/-- `process_read_stream` -/
def processReadStream (env : Env) (cycles : BitVec 32) (s : Controller) : Controller :=
  if s.read.reading = false ∨ warmRouteConsumerBlocked env s then s
  else if acceleratedConsumerBlocked env s ∧ s.accelBlock < authenticSectorPeriod s then
    { s with accelBlock := s.accelBlock + cycles.toInt }
  else
    let s := passRead cycles s
    if s.read.delay ≤ 0 then nextDeadline (sectorDue env s) else s

/-! ## Initialisation -/

/-- `cdrom_init`: what it leaves as it was is taken from `old`, with the sub-channel of the disc
where no image is mounted anew. -/
def cdromInit (env : Env) (mounts : Bool) (old : Controller) : Controller :=
  let lid : Lid := ⟨0, false, false⟩
  { index := 0#8
    stat := if env.disc.isSome then statMotor else statShell
    request := 0#8
    line := ⟨0x1F#8, 0#8, false, 0, 0, 0⟩
    lid := lid
    lidIrqPending := false
    params := ⟨fun _ => 0#8, 0⟩
    responses := ⟨fun _ => 0#8, 0, 0⟩
    buffers := ⟨fun _ => emptyBuf, 0, 0, emptyBuf⟩
    lastSector := ⟨fun _ => 0#8, -1, false, 0, 0#8, false, 0#8, 0#8, 0#8, 0#8, 0#8⟩
    seek := ⟨0#8, 0#8, 0#8, -1, false, old.seek.setlocPending⟩
    read := ⟨false, ⟨0, 0, 0⟩, 0#8, 0⟩
    mode := 0#8
    filterFile := 0#8
    filterChannel := 0#8
    muted := false
    xa := ⟨⟨⟨0, 0⟩, ⟨0, 0⟩⟩, 0xFF#8, 0xFF#8, 0xFF#8, false, false⟩
    cdda := ⟨false, 0, 0, 0, false, 0⟩
    speed := { old.speed with divisor := 1 }
    warm := ⟨[], false, false, -1, none, 0, -1⟩
    pending := ⟨0#8, false, 0, 0⟩
    queued := ⟨0#8, ⟨fun _ => 0#8, 0⟩, false⟩
    waiting := ⟨false, 0#8, old.waiting.slot, 0, old.waiting.lost⟩
    accelBlock := old.accelBlock
    pendingVolume := old.pendingVolume
    decodeVolume := old.decodeVolume
    subq :=
      if mounts then
        match env.image.hasSubqReplacements, env.image.readSubq 0 with
        | true, some subq => ⟨subq, true⟩
        | _, _ => ⟨old.subq.last, false⟩
      else old.subq
    discScex := old.discScex
    log := [] }

/-! ## Registers -/

/-- The status register. -/
def statusByte (s : Controller) : Byte :=
  let bit := fun (set : Bool) (b : Byte) => if set then b else 0#8
  s.index &&& 0x03#8 ||| bit (s.params.count = 0) 0x08#8 ||| bit (s.params.count < 16) 0x10#8 |||
    bit (s.responses.read < s.responses.count) 0x20#8 ||| bit (dataFifoReady s) 0x40#8 |||
    bit s.queued.pending 0x80#8

/-- `cdrom_read` -/
def cdromRead (addr : BitVec 32) (s : Controller) : Controller × BitVec 32 :=
  if addr = 0x1F801800#32 then (s, (statusByte s).zeroExtend 32)
  else if addr = 0x1F801801#32 then
    if s.responses.read < s.responses.count then
      ({ s with responses := { s.responses with read := s.responses.read + 1 } },
        (readAt s.responses.fifo s.responses.read).zeroExtend 32)
    else (s, 0)
  else if addr = 0x1F801802#32 then
    if dataFifoReady s then
      ({ s with buffers := { s.buffers with
          fifo := { s.buffers.fifo with pos := s.buffers.fifo.pos + 1 } } },
        (readAt s.buffers.fifo.data s.buffers.fifo.pos).zeroExtend 32)
    else (s, 0)
  else if addr = 0x1F801803#32 then
    if s.index = 0#8 ∨ s.index = 2#8 then (s, s.line.enable.zeroExtend 32)
    else (s, (s.line.flag ||| 0xE0#8).zeroExtend 32)
  else (s, 0)

/-- The parameter port. -/
def pushParam (val : Byte) (s : Controller) : Controller :=
  if s.params.count < 16 then
    { s with params := ⟨writeAt s.params.fifo s.params.count val, s.params.count + 1⟩ }
  else s

/-- The request register. -/
def writeRequest (val : Byte) (s : Controller) : Controller :=
  let s := { s with request := val }
  if bfrd val then loadDataFifo true s
  else { s with buffers := { s.buffers with fifo := { s.buffers.fifo with pos := 0, size := 0 } } }

/-- The flag loses the acknowledged bits. -/
def clearFlag (val : Byte) (s : Controller) : Controller :=
  { s with line := { s.line with flag := s.line.flag &&& ~~~(val &&& 0x1F#8) } }

/-- A response acknowledged in full arms the latch again. -/
def acknowledgeFlag (env : Env) (val : Byte) (s : Controller) : Controller :=
  let cleared := clearFlag val s
  if s.line.flag &&& 0x1F#8 ≠ 0#8 ∧ cleared.line.flag &&& 0x1F#8 = 0#8 then
    presentLidOpen env { cleared with line := { cleared.line with latched := false } }
  else cleared

def resetParams (val : Byte) (s : Controller) : Controller :=
  if val &&& 0x40#8 ≠ 0#8 then { s with params := { s.params with count := 0 } } else s

/-- A waiting notification is released, but on a schedule. -/
def scheduleWaiting (env : Env) (s : Controller) : Controller :=
  if s.waiting.dataready ∧ s.waiting.presentDue = 0 then
    { s with waiting := { s.waiting with presentDue := env.now + 500 } }
  else s

/-- The interrupt acknowledge. -/
def writeAck (env : Env) (val : Byte) (s : Controller) : Controller :=
  let s := scheduleWaiting env (resetParams val (acknowledgeFlag env val s))
  tryExecuteQueued env (processPending env s)

/-- `cdrom_write` -/
def cdromWrite (env : Env) (addr : BitVec 32) (val : Byte) (s : Controller) : Controller :=
  if addr = 0x1F801800#32 then { s with index := val &&& 0x03#8 }
  else if addr = 0x1F801801#32 then
    if s.index = 0#8 then queueOrExec env val s
    else if s.index = 3#8 then
      { s with pendingVolume := { s.pendingVolume with rightToRight := val } }
    else s
  else if addr = 0x1F801802#32 then
    if s.index = 0#8 then pushParam val s
    else if s.index = 1#8 then { s with line := { s.line with enable := val &&& 0x1F#8 } }
    else if s.index = 2#8 then
      { s with pendingVolume := { s.pendingVolume with leftToLeft := val } }
    else if s.index = 3#8 then
      { s with pendingVolume := { s.pendingVolume with rightToLeft := val } }
    else s
  else if addr = 0x1F801803#32 then
    if s.index = 2#8 then { s with pendingVolume := { s.pendingVolume with leftToRight := val } }
    else if s.index = 3#8 then
      if val &&& 0x20#8 ≠ 0#8 then { s with decodeVolume := s.pendingVolume } else s
    else if s.index = 0#8 then writeRequest val s
    else if s.index = 1#8 then writeAck env val s
    else s
  else s

/-! ## The DMA port -/

/-- `cdrom_dma_read` -/
def cdromDmaRead (s : Controller) : Controller × BitVec 32 :=
  let fifo := s.buffers.fifo
  if dataFifoReady s ∧ fifo.pos + 4 ≤ fifo.size then
    let byte := fun k : ℤ => readAt fifo.data (fifo.pos + k)
    ({ s with buffers := { s.buffers with fifo := { fifo with pos := fifo.pos + 4 } } },
      byte 3 ++ byte 2 ++ byte 1 ++ byte 0)
  else (s, 0)

/-- The refill on demand of a running transfer. -/
def refillForDma (env : Env) (s : Controller) : Controller :=
  if env.dmaActive then loadDataFifo false s else s

/-- `cdrom_dma_ready` -/
def cdromDmaReady (env : Env) (s : Controller) : Controller × Bool :=
  let s := refillForDma env s
  (s, dataFifoReady s ∧ s.buffers.fifo.pos + 4 ≤ s.buffers.fifo.size)

/-! ## The clock -/

/-- The release of a scheduled notification. -/
def releaseWaiting (env : Env) (s : Controller) : Controller :=
  if s.waiting.presentDue ≠ 0 ∧ env.now ≥ s.waiting.presentDue then
    presentWaiting env { s with waiting := { s.waiting with presentDue := 0 } }
  else s

/-- `cdrom_advance` up to the read stream. -/
def advanceFront (env : Env) (s : Controller) : Controller :=
  releaseWaiting env (tryExecuteQueued env (processPending env (presentIrq env (processLid env s))))

/-- `cdrom_advance` -/
def cdromAdvance (env : Env) (cycles : BitVec 32) (s : Controller) : Controller :=
  let s := processReadStream env cycles (advanceFront env s)
  let s := deliverXaDataEnd env (processCddaStream env cycles s)
  presentIrq env (processLid env s)

/-! ## Runs -/

/-- The accesses of a run. -/
inductive Access
  | write (addr : BitVec 32) (val : Byte)
  | read (addr : BitVec 32)
  | dmaRead
  | dmaReady
  | advance (cycles : BitVec 32)
deriving DecidableEq, Repr

/-- An access: the state behind it, and the value it gives. -/
def access (env : Env) (s : Controller) : Access → Controller × BitVec 32
  | .write addr val => (cdromWrite env addr val s, 0)
  | .read addr => cdromRead addr s
  | .dmaRead => cdromDmaRead s
  | .dmaReady => let r := cdromDmaReady env s; (r.1, if r.2 then 1 else 0)
  | .advance cycles => (cdromAdvance env cycles s, 0)

/-- An access with what it finds outside. -/
structure Call where
  env : Env
  access : Access

def runCalls (s : Controller) (calls : List Call) : Controller :=
  calls.foldl (fun s c => (access c.env s c.access).1) s

end PsxRecomp.Cdrom
