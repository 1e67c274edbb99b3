import PsxRecomp.Cdrom.Sectors

/-! The commands of the controller. A command gives one immediate response and may arm a second
one; the next command cancels what the one before it left armed. -/
namespace PsxRecomp.Cdrom
set_option autoImplicit false

/-- The bytes a handler pushes, and its interrupt. -/
def answer (env : Env) (cmd type : Byte) (bytes : List Byte) (s : Controller) : Controller :=
  setIrq env (.command cmd) type (responsePushAll bytes s)

/-- `CDIRQ_ACK` with the status, what most handlers end in. -/
def acknowledge (env : Env) (cmd : Byte) (s : Controller) : Controller :=
  answer env cmd irqAck [s.stat] s

/-- `cdrom_lid_acknowledge_closed_shell` -/
def acknowledgeShell (s : Controller) : Controller :=
  if s.lid.physicalOpen ∨ s.lid.shellOpenLatched = false then s
  else { s with
    lid := { s.lid with shellOpenLatched := false }
    stat := s.stat &&& ~~~statShell }

/-- `GetStat` -/
def getStat (env : Env) (cmd : Byte) (s : Controller) : Controller :=
  let stat := s.stat ||| if hasDisc env s then statMotor else statShell
  answer env cmd irqAck [stat] (acknowledgeShell { s with stat := stat })

/-- The range check of `SetLoc`. -/
def badMsf (p0 p1 p2 : Byte) : Bool :=
  p0 &&& 0x0F#8 > 9#8 ∨ p0 > 0x99#8 ∨ p1 &&& 0x0F#8 > 9#8 ∨ p1 > 0x59#8 ∨
    p2 &&& 0x0F#8 > 9#8 ∨ p2 > 0x74#8

/-- The accepted target of `SetLoc`. -/
def setTarget (p0 p1 p2 : Byte) (s : Controller) : Controller :=
  let current :=
    if s.lastSector.lba ≥ 0 then s.lastSector.lba
    else msfToLba s.seek.min.toNat s.seek.sec.toNat s.seek.sect.toNat
  let lba := msfToLba (bcdToBin p0) (bcdToBin p1) (bcdToBin p2)
  { s with
    seek := {
      min := BitVec.ofInt 8 (bcdToBin p0)
      sec := BitVec.ofInt 8 (bcdToBin p1)
      sect := BitVec.ofInt 8 (bcdToBin p2)
      setlocLba := lba
      far := (current - lba).natAbs > 16
      setlocPending := true }
    warm := warmRouteOnSetloc lba s.warm }

/-- `SetLoc` -/
def setLoc (env : Env) (cmd : Byte) (s : Controller) : Controller :=
  if s.params.count ≥ 3 then
    let p0 := readAt s.params.fifo 0
    let p1 := readAt s.params.fifo 1
    let p2 := readAt s.params.fifo 2
    if badMsf p0 p1 p2 then answer env cmd irqError [s.stat ||| 1#8, 0x10#8] s
    else acknowledge env cmd (setTarget p0 p1 p2 s)
  else acknowledge env cmd s

/-- `read_continues_current_stream`, without the acknowledge it gives itself. -/
def readContinues (s : Controller) : Bool :=
  s.read.reading && !(s.seek.setlocPending && s.seek.setlocLba ≠ s.read.pos.lba)

/-- `ReadN` and `ReadS` -/
def readCommand (env : Env) (cmd : Byte) (s : Controller) : Controller :=
  if hasDisc env s = false then answer env cmd irqError [s.stat ||| statError] s
  else if readContinues s then
    acknowledge env cmd (clearSetloc s)
  else acknowledge env cmd (startReadStream cmd s)

/-- A second response armed behind the acknowledge. -/
def acknowledgeThen (env : Env) (cmd : Byte) (latency : ℤ) (s : Controller) : Controller :=
  pendingArm env cmd latency 1 (acknowledge env cmd s)

/-- `MotorOn` -/
def motorOn (env : Env) (cmd : Byte) (s : Controller) : Controller :=
  if s.stat &&& statMotor ≠ 0#8 then answer env cmd irqError [s.stat ||| statError, 0x20#8] s
  else acknowledgeThen env cmd (applySpeed s 30000) s

/-- What Stop, Pause and Init do first, the audio resets in the order of each. -/
def haltDrive (s : Controller) : Controller :=
  audioReset (xaResetDecode (stopCddaPlayback (stopReadStream s)))

/-- `Stop` -/
def stopCommand (env : Env) (cmd : Byte) (s : Controller) : Controller :=
  let s := haltDrive s
  let s := { s with stat := s.stat &&& ~~~(statRead ||| statPlay ||| statSeek) }
  acknowledgeThen env cmd (applySpeed s 30000) s

/-- `Pause`: the latency is that of the drive as it was. -/
def pauseCommand (env : Env) (cmd : Byte) (s : Controller) : Controller :=
  let delay := pauseCompleteDelayCycles s
  let s := haltDrive s
  acknowledgeThen env cmd delay { s with stat := s.stat &&& ~~~(statRead ||| statPlay) }

/-- `Init` -/
def initCommand (env : Env) (cmd : Byte) (s : Controller) : Controller :=
  let s := xaResetDecode (audioReset (stopCddaPlayback (stopReadStream s)))
  acknowledgeThen env cmd 131072
    { s with stat := if hasDisc env s then statMotor else statShell }

/-- `SetFilter` -/
def setFilter (env : Env) (cmd : Byte) (s : Controller) : Controller :=
  if s.params.count ≥ 2 then
    acknowledge env cmd <| xaResetDecode { s with
      filterFile := readAt s.params.fifo 0
      filterChannel := readAt s.params.fifo 1 }
  else acknowledge env cmd s

/-- `SetMode` -/
def setMode (env : Env) (cmd : Byte) (s : Controller) : Controller :=
  if s.params.count ≥ 1 then
    let mode := readAt s.params.fifo 0
    if mode &&& 0x40#8 = 0#8 then
      acknowledge env cmd (audioReset (xaResetDecode { s with mode := mode }))
    else acknowledge env cmd { s with mode := mode }
  else acknowledge env cmd s

/-- `GetlocL` -/
def getlocL (env : Env) (cmd : Byte) (s : Controller) : Controller :=
  let l := s.lastSector
  if l.headerStale then answer env cmd irqError [s.stat ||| statError, 0x80#8] s
  else
    let at' := lbaToMsf (if l.lba ≥ 0 then l.lba else s.read.pos.lba) 150
    answer env cmd irqAck [binToBcd at'.m, binToBcd at'.s, binToBcd at'.f,
      if l.rawMode ≠ 0#8 then l.rawMode else 2#8, l.xaFile, l.xaChannel, l.xaSubmode,
      l.xaCoding] s

/-- The position of `GetlocP`: its address, its track and where the track begins. -/
def getlocPosition (env : Env) (s : Controller) : ℤ × ℤ × ℤ :=
  if s.cdda.playing then
    (s.cdda.lba.toInt, s.cdda.track, (env.image.cddaTrackStartLba s.cdda.track).toInt)
  else (s.read.pos.lba, 1, 0)

/-- `GetlocP` -/
def getlocP (env : Env) (cmd : Byte) (s : Controller) : Controller :=
  let p := getlocPosition env s
  let s := updateLastValidSubq env p.1 s
  if env.image.hasSubqReplacements && s.subq.available then
    answer env cmd irqAck ((List.range 8).map fun i : ℕ => readAt s.subq.last (i + 1)) s
  else
    let r := lbaToMsf (p.1 - p.2.2) 0
    let a := lbaToMsf p.1 150
    answer env cmd irqAck [binToBcd p.2.1, 0x01#8, binToBcd r.m, binToBcd r.s, binToBcd r.f,
      binToBcd a.m, binToBcd a.s, binToBcd a.f] s

/-- `GetTN` -/
def getTN (env : Env) (cmd : Byte) (s : Controller) : Controller :=
  answer env cmd irqAck [s.stat, 0x01#8, binToBcd (max 1 env.image.cddaTrackCount)] s

/-- `GetTD` -/
def getTD (env : Env) (cmd : Byte) (s : Controller) : Controller :=
  if hasDisc env s = false then answer env cmd irqError [s.stat ||| statError, 0x80#8] s
  else
    let raw := if s.params.count ≥ 1 then readAt s.params.fifo 0 else 0#8
    let track := bcdToBin raw
    let lba :=
      if raw = 0xAA#8 ∨ track = 0 then env.image.cddaSectorCount.toInt
      else (env.image.cddaTrackStartLba track).toInt
    let at' := lbaToMsf lba 150
    answer env cmd irqAck [s.stat, binToBcd at'.m, binToBcd at'.s] s

/-- `Play` -/
def playCommand (env : Env) (cmd : Byte) (s : Controller) : Controller :=
  if hasDisc env s = false then answer env cmd irqError [s.stat ||| statError] s
  else
    let requested :=
      if s.params.count ≥ 1 ∧ readAt s.params.fifo 0 ≠ 0#8 then bcdToBin (readAt s.params.fifo 0)
      else 0
    match startCddaPlayback env requested s with
    | some s => acknowledge env cmd s
    | none =>
      -- a data track reached from Setloc is acknowledged into a silent play state
      if requested = 0 then
        let s := stopReadStream s
        acknowledge env cmd { s with
          cdda := { s.cdda with dataEndPending := false }
          stat := s.stat &&& ~~~(statSeek ||| statRead) ||| statMotor ||| statPlay }
      else answer env cmd irqError [s.stat ||| statError, 0x10#8] s

/-- `SeekL` and `SeekP` -/
def seekCommand (env : Env) (cmd : Byte) (s : Controller) : Controller :=
  if hasDisc env s = false then
    answer env cmd irqError [s.stat ||| statError ||| statSeekErr] s
  else
    let s := moveToSeek (stopCddaPlayback (audioReset (xaResetDecode (stopReadStream s))))
    acknowledgeThen env cmd (seekCompleteDelayCycles s) { s with stat := s.stat ||| statSeek }

/-- `Test` -/
def testCommand (env : Env) (cmd : Byte) (s : Controller) : Controller :=
  if s.params.count ≥ 1 ∧ readAt s.params.fifo 0 = 0x20#8 then
    answer env cmd irqAck [0x94#8, 0x09#8, 0x19#8, 0xC0#8] s
  else acknowledge env cmd s

/-- The `switch` of `exec_command`. -/
def dispatch (env : Env) (cmd : Byte) (s : Controller) : Controller :=
  if cmd = 0x01#8 then getStat env cmd s
  else if cmd = 0x02#8 then setLoc env cmd s
  else if cmd = 0x03#8 then playCommand env cmd s
  else if cmd = 0x06#8 ∨ cmd = 0x1B#8 then readCommand env cmd s
  else if cmd = 0x07#8 then motorOn env cmd s
  else if cmd = 0x08#8 then stopCommand env cmd s
  else if cmd = 0x09#8 then pauseCommand env cmd s
  else if cmd = 0x0A#8 then initCommand env cmd s
  else if cmd = 0x0B#8 then acknowledge env cmd { s with muted := true }
  else if cmd = 0x0C#8 then acknowledge env cmd { s with muted := false }
  else if cmd = 0x0D#8 then setFilter env cmd s
  else if cmd = 0x0E#8 then setMode env cmd s
  else if cmd = 0x0F#8 then
    answer env cmd irqAck [s.stat, s.mode, 0x00#8, s.filterFile, s.filterChannel] s
  else if cmd = 0x10#8 then getlocL env cmd s
  else if cmd = 0x11#8 then getlocP env cmd s
  else if cmd = 0x13#8 then getTN env cmd s
  else if cmd = 0x14#8 then getTD env cmd s
  else if cmd = 0x15#8 ∨ cmd = 0x16#8 then seekCommand env cmd s
  else if cmd = 0x19#8 then testCommand env cmd s
  else if cmd = 0x1A#8 then acknowledgeThen env cmd 33868 s
  else if cmd = 0x1E#8 then acknowledgeThen env cmd 30000000 s
  else answer env cmd irqError [s.stat ||| statError] s

/-- `exec_command` -/
def execCommand (env : Env) (cmd : Byte) (s : Controller) : Controller :=
  let s := { s with pending := { s.pending with pending := false } }
  let s := dispatch env cmd (responseClear s)
  presentIrq env { s with params := { s.params with count := 0 } }

/-- The bytes behind the count, as `memcpy` leaves them. -/
def copyParams (src dst : Fin 16 → Byte) (count : ℤ) : Fin 16 → Byte :=
  fun i => if (i : ℤ) < count then src i else dst i

def clampCount (count : ℤ) : ℤ := min 16 (max 0 count)

/-- `try_execute_queued_command` -/
def tryExecuteQueued (env : Env) (s : Controller) : Controller :=
  if s.queued.pending = false ∨ s.line.flag ≠ 0#8 then s
  else
    let cmd := s.queued.cmd
    let count := clampCount s.queued.params.count
    execCommand env cmd { s with
      params := ⟨copyParams s.queued.params.fifo s.params.fifo count, count⟩
      queued := ⟨0#8, ⟨fun _ => 0#8, 0⟩, false⟩ }

/-- `queue_or_exec_command` -/
def queueOrExec (env : Env) (cmd : Byte) (s : Controller) : Controller :=
  if s.line.flag = 0#8 then execCommand env cmd s
  else
    let count := clampCount s.params.count
    { s with
      queued := ⟨cmd, ⟨copyParams s.params.fifo s.queued.params.fifo count, count⟩, true⟩
      params := { s.params with count := 0 } }

end PsxRecomp.Cdrom
