import Mathlib

/-! The pads on the serial port: what the host sets, the multitap mapping, and one byte of a pad
transaction. -/
namespace PsxRecomp.Sio
set_option autoImplicit false

-- Literals of the index types find these by name, so that a definition holds no proof of its own.
scoped instance neZero_three : NeZero 3 := ⟨by decide⟩
scoped instance neZero_four : NeZero 4 := ⟨by decide⟩

abbrev Byte := BitVec 8

/-! ## Logical pads -/

/-- `SIO_PAD_*` -/
def padDigital : Byte := 0
def padDualshock : Byte := 1
def padJogcon : Byte := 2
def padNegcon : Byte := 3

/-- One entry of each `pad_*` array. -/
structure Pad where
  buttons : BitVec 16
  analog : Byte
  stick : Fin 4 → Byte
  negconAnalog : Fin 3 → Byte
  analogDevice : Byte
  rumbleMap : Fin 6 → Byte
  rumbleSmall : Byte
  rumbleLarge : Byte
  modeLocked : Byte
  inConfig : Byte
  jogconLastSteering : Byte
  jogconMotorCommand : Byte
  supportsConfig : Byte
  typeReq : Byte

/-- A pad as `sio_init` leaves it. -/
def Pad.initial : Pad where
  buttons := 0xFFFF
  analog := padDigital
  stick := fun _ => 0x80
  negconAnalog := fun _ => 0
  analogDevice := padDualshock
  rumbleMap := fun _ => 0xFF
  rumbleSmall := 0
  rumbleLarge := 0
  modeLocked := 0
  inConfig := 0
  jogconLastSteering := 0
  jogconMotorCommand := 0
  supportsConfig := 1
  typeReq := -1

inductive PadState where
  | idle
  | waitAccess
  | sendResponse
  | unknown (code : BitVec 32)
  deriving DecidableEq

inductive MtapNext where
  | slotA
  | bulk
  | garbage
  deriving DecidableEq

/-- The pads and the state machine that talks to them. `legacyCfg` and the `tap` fields are host
preferences. -/
structure PadBus where
  pads : List Pad
  connected : Byte
  tapEnabled : Bool
  tapPort : Bool
  tapAnalog : Bool
  legacyCfg : Bool
  state : PadState
  selectedSlot : ℤ
  activeLogical : ℤ
  response : ℕ → Byte
  responseLen : Byte
  responseIdx : Byte
  currentCmd : Byte
  mtapAddr : Byte
  nextMode : ℤ → MtapNext
  reqThis : ℤ → Bool
  returned : ℤ → MtapNext

namespace PadBus

def players (b : PadBus) : ℕ := b.pads.length

def inRange (b : PadBus) (logical : ℤ) : Bool := 0 ≤ logical && logical < b.players

def pad (b : PadBus) (logical : ℤ) : Pad := b.pads.getD logical.toNat .initial

def setPad (b : PadBus) (logical : ℤ) (f : Pad → Pad) : PadBus :=
  { b with pads := b.pads.modify logical.toNat f }

def isConnected (b : PadBus) (logical : ℤ) : Bool := b.connected.getLsbD logical.toNat

/-! ## Physical ports -/

def multitapActive (b : PadBus) : Bool := 5 ≤ b.players && b.tapEnabled

def dualMultitap (b : PadBus) : Bool := 8 ≤ b.players && b.tapEnabled

def slotALogical (b : PadBus) : ℤ :=
  if b.dualMultitap then if b.selectedSlot = 0 then 0 else 4
  else if b.tapPort then 1 else 0

def standaloneLogical (b : PadBus) : ℤ :=
  if b.dualMultitap then -1 else if b.tapPort then 0 else 4

def tapPortNumber (b : PadBus) : ℤ := if b.tapPort then 1 else 0

def logicalForPort (b : PadBus) (port : ℤ) : ℤ :=
  if port < 0 ∨ 1 < port then -1
  else if b.multitapActive then
    if b.dualMultitap then if port = 0 then 0 else 4
    else if port = b.tapPortNumber then if b.tapPort then 1 else 0
    else b.standaloneLogical
  else port

def portHasDevice (b : PadBus) (port : ℤ) : Bool :=
  if port < 0 ∨ 1 < port then false
  else if b.multitapActive then
    b.dualMultitap || port = b.tapPortNumber || b.isConnected b.standaloneLogical
  else b.isConnected port

def selectedIsMtapPort (b : PadBus) : Bool :=
  b.multitapActive &&
    if b.dualMultitap then b.selectedSlot = 0 || b.selectedSlot = 1
    else b.selectedSlot = b.tapPortNumber

def onMultitap (b : PadBus) (logical : ℤ) : Bool :=
  b.multitapActive && b.inRange logical && (b.dualMultitap || logical ≠ b.standaloneLogical)

def tapForceDigital (b : PadBus) (logical : ℤ) : Bool := b.onMultitap logical && !b.tapAnalog

end PadBus

/-! ## Pad types -/

def isDeviceSwap (src dst : Byte) : Bool := (src == padNegcon) != (dst == padNegcon)

/-- `pad_commit_type` -/
def Pad.commitType (p : Pad) (type : Byte) : Pad :=
  let p₁ := if p.analog = type then p
    else { p with jogconLastSteering := 0, jogconMotorCommand := 0 }
  let p₂ := if isDeviceSwap p.analog type then
      { p₁ with inConfig := 0, modeLocked := 0, rumbleMap := fun _ => 0xFF, rumbleSmall := 0,
                rumbleLarge := 0 }
    else p₁
  { p₂ with
    analogDevice := if type = padDualshock ∨ type = padJogcon then type else p₂.analogDevice
    analog := type }

/-- A type request of the host, applied while the bus is idle. -/
def Pad.applyRequest (p : Pad) : Pad :=
  if 0 ≤ p.typeReq.toInt ∧ p.inConfig = 0 ∧
      (p.modeLocked = 0 ∨ isDeviceSwap p.analog p.typeReq = true) then
    { p.commitType p.typeReq with typeReq := -1 }
  else p

def Pad.protocolId (p : Pad) : Byte :=
  if p.inConfig ≠ 0 then 0xF3
  else if p.analog = padJogcon then 0xE3
  else if p.analog = padNegcon then 0x23
  else if p.analog = padDualshock then 0x73
  else 0x41

/-! ## Poll payloads -/

def Pad.buttonBytes (p : Pad) : List Byte :=
  [p.buttons.setWidth 8, (p.buttons >>> (8 : ℕ)).setWidth 8]

def Pad.axes (p : Pad) : List Byte := [p.stick 2, p.stick 3, p.stick 0, p.stick 1]

def Pad.negconPoll (p : Pad) : List Byte :=
  [0x23, 0x5A] ++ p.buttonBytes ++ [p.stick 0, p.negconAnalog 0, p.negconAnalog 1, p.negconAnalog 2]

def Pad.steering (p : Pad) : Byte := p.stick 0 - 0x80

def Pad.jogconPoll (p : Pad) (id : Byte) : List Byte :=
  let moved : Byte := if p.jogconLastSteering.slt p.steering then 0x01
    else if p.steering.slt p.jogconLastSteering then 0x02 else 0x00
  [id, 0x5A] ++ p.buttonBytes ++
    [p.steering, if p.steering.slt 0 then 0xFF else 0x00, (p.jogconMotorCommand <<< (4 : ℕ)) ||| moved,
      0x00]

/-- A poll moves the wheel position the next one compares with. -/
def Pad.polled (p : Pad) : Pad :=
  if p.analog = padJogcon then { p with jogconLastSteering := p.steering } else p

/-- `pad_fill_status8` of a connected pad. -/
def Pad.status8 (p : Pad) : List Byte :=
  if p.analog = padJogcon then p.jogconPoll p.protocolId
  else if p.analog = padNegcon then p.negconPoll
  else if p.analog ≠ 0 ∨ p.inConfig ≠ 0 then [p.protocolId, 0x5A] ++ p.buttonBytes ++ p.axes
  else [p.protocolId, 0x5A] ++ p.buttonBytes ++ List.replicate 4 0xFF

namespace PadBus

def status8 (b : PadBus) (logical : ℤ) : List Byte :=
  if b.inRange logical && b.isConnected logical then (b.pad logical).status8
  else List.replicate 8 0xFF

def pollPad (b : PadBus) (logical : ℤ) : PadBus :=
  if b.inRange logical && b.isConnected logical then b.setPad logical Pad.polled else b

/-- The four pads behind the selected multitap. -/
def bulkSeats (b : PadBus) : List ℤ := (List.range 4).map fun i => b.slotALogical + i

def bulkFrame (b : PadBus) : List Byte := [0x80, 0x5A] ++ b.bulkSeats.flatMap b.status8

end PadBus

/-! ## Commands -/

/-- What a command byte puts into `pad_response`, and whether the pad goes on with it. -/
structure Reply where
  bytes : List Byte
  goesOn : Bool
  rx : Byte

def Reply.send (bytes : List Byte) : Reply := ⟨bytes, true, bytes.headD 0xFF⟩

def Reply.refuse (rx : Byte) : Reply := ⟨[], false, rx⟩

/-- A poll frame: eight bytes of a pad that reports axes, four of a digital one. -/
def Pad.pollFrame (p : Pad) (axes : Bool) : List Byte :=
  if p.analog = padJogcon then p.jogconPoll p.protocolId
  else [p.protocolId, 0x5A] ++ p.buttonBytes ++ if axes then p.axes else []

def isLegacyConfigCommand (tx : Byte) : Bool := tx ∈ [0x45, 0x46, 0x47, 0x4C, 0x4D]

def isConfigCommand (tx : Byte) : Bool := tx ∈ [0x44, 0x45, 0x46, 0x47, 0x4C, 0x4D, 0x4F]

/-- `r_45` to `r_4c` and the default. -/
def cannedReply (tx : Byte) : List Byte :=
  if tx = 0x45 then [0xF3, 0x5A, 0x03, 0x02, 0x01, 0x02, 0x01, 0x00]
  else if tx = 0x46 then [0xF3, 0x5A, 0x00, 0x00, 0x01, 0x02, 0x00, 0x0A]
  else if tx = 0x47 then [0xF3, 0x5A, 0x00, 0x00, 0x02, 0x00, 0x01, 0x00]
  else if tx = 0x4C then [0xF3, 0x5A, 0x00, 0x00, 0x00, 0x04, 0x00, 0x00]
  else [0xF3, 0x5A, 0x00, 0x00, 0x00, 0x00, 0x00, 0x00]

def Pad.analogFlag (p : Pad) : Byte := if p.analog ≠ 0 then 0x01 else 0x00

def Pad.legacyConfigReply (p : Pad) (tx : Byte) : List Byte :=
  if tx = 0x45 then (cannedReply tx).set 3 p.analogFlag else cannedReply tx

def Pad.configReply (p : Pad) (tx : Byte) : List Byte :=
  let r := if p.analog = padJogcon then
      if tx = 0x45 then [0xF3, 0x5A, 0x01, 0x02, 0x01, 0x01, 0x01, 0x00]
      else if tx = 0x46 then [0xF3, 0x5A, 0x00, 0x00, 0x00, 0x00, 0x00, 0x00]
      else if tx = 0x47 then [0xF3, 0x5A, 0x00, 0x00, 0x02, 0x00, 0x01, 0x00]
      else if tx = 0x4C then [0xF3, 0x5A, 0x00, 0x00, 0x00, 0x00, 0x00, 0x00]
      else cannedReply tx
    else if tx = 0x45 then (cannedReply tx).set 3 p.analogFlag
    else cannedReply tx
  if tx = 0x4D then r.take 2 ++ List.ofFn p.rumbleMap else r

/-- The answer of one pad to a command byte, and the pad after it. -/
def Pad.command (p : Pad) (legacy onTap : Bool) (tx : Byte) : Reply × Pad :=
  let ds := p.supportsConfig ≠ 0
  if p.analog = padNegcon then (⟨p.negconPoll, tx = 0x42, 0x23⟩, p)
  else if tx = 0x42 then (.send (p.pollFrame (p.analog ≠ 0 ∨ p.inConfig ≠ 0)), p.polled)
  else if ds ∧ tx = 0x43 then
    if legacy then (.send ([0xF3, 0x5A] ++ List.replicate 6 0), p)
    else if p.inConfig = 0 then (.send (p.pollFrame (p.analog ≠ 0)), p.polled)
    else (.send ([p.protocolId, 0x5A] ++ List.replicate 6 0), p)
  else if ds ∧ legacy ∧ isLegacyConfigCommand tx then (.send (p.legacyConfigReply tx), p)
  else if ds ∧ ¬legacy ∧ p.inConfig ≠ 0 ∧ isConfigCommand tx then (.send (p.configReply tx), p)
  else (.refuse (if ¬ds ∧ p.analog = padDigital ∧ ¬onTap then p.protocolId else 0xFF), p)

/-! ## One byte -/

/-- What a byte leaves in `sio_rx_data`, and whether the pad acknowledges. -/
structure Exchange (σ : Type) where
  state : σ
  rx : Byte
  ack : Bool

/-- `memcpy(pad_response, ..)` -/
def loadBytes (bytes : List Byte) (old : ℕ → Byte) : ℕ → Byte := fun i => bytes.getD i (old i)

namespace PadBus

def endTransaction (b : PadBus) : PadBus :=
  { b with state := .idle, responseLen := 0, responseIdx := 0, currentCmd := 0 }

def answer (b : PadBus) (r : Reply) : Exchange PadBus :=
  let b := { b with response := loadBytes r.bytes b.response }
  if r.goesOn then
    ⟨{ b with responseLen := BitVec.ofNat 8 r.bytes.length, state := .sendResponse }, r.rx, true⟩
  else ⟨b.endTransaction, r.rx, false⟩

def applyRequests (b : PadBus) : PadBus := { b with pads := b.pads.map Pad.applyRequest }

/-- `PAD_IDLE`: the address byte. -/
def address (b : PadBus) (tx : Byte) : Exchange PadBus :=
  if tx = 0x01 ∧ b.portHasDevice b.selectedSlot then
    ⟨{ b with activeLogical := b.logicalForPort b.selectedSlot, mtapAddr := 0x01,
              state := .waitAccess }, 0xFF, true⟩
  else if b.selectedIsMtapPort ∧ 0x02 ≤ tx ∧ tx ≤ 0x04 then
    ⟨{ b with activeLogical := b.slotALogical + ((tx.toNat : ℤ) - 1), mtapAddr := tx,
              state := .waitAccess }, 0xFF, true⟩
  else ⟨b, 0xFF, false⟩

def selectedInRange (b : PadBus) : Bool := 0 ≤ b.selectedSlot && b.selectedSlot ≤ 1

/-- The pad on the selected port, or behind the multitap the one that was addressed. -/
def single (b : PadBus) (tx : Byte) : Exchange PadBus :=
  if b.inRange b.activeLogical && b.isConnected b.activeLogical then
    let r := (b.pad b.activeLogical).command b.legacyCfg b.selectedIsMtapPort tx
    (b.setPad b.activeLogical fun _ => r.2).answer r.1
  else b.answer (.refuse 0xFF)

def garbageFrame (b : PadBus) : List Byte :=
  [0x80, 0x5A,
    if b.isConnected b.slotALogical then (b.pad b.slotALogical).protocolId else 0xFF]

/-- A poll that the multitap itself may answer. -/
def isTapPoll (b : PadBus) (tx : Byte) : Bool :=
  b.selectedIsMtapPort && b.mtapAddr = 0x01 && tx = 0x42

/-- `PAD_WAIT_ACCESS`: the command byte. -/
def command (b : PadBus) (tx : Byte) : Exchange PadBus :=
  let b := { b with
    currentCmd := tx
    responseIdx := 1
    reqThis := if b.selectedInRange then Function.update b.reqThis b.selectedSlot false
      else b.reqThis }
  if b.isTapPoll tx then
    match b.nextMode b.selectedSlot with
    | .bulk =>
      let polled := b.bulkSeats.foldl pollPad b
      { polled with returned := Function.update b.returned b.selectedSlot .bulk }.answer
        (.send b.bulkFrame)
    | .garbage =>
      { b with returned := Function.update b.returned b.selectedSlot .garbage }.answer
        (.send b.garbageFrame)
    | .slotA => { b with returned := Function.update b.returned b.selectedSlot .slotA }.single tx
  else b.single tx

/-- `mtap_finish_42`: what the REQ bit of this poll asks of the next one. -/
def finish42 (b : PadBus) : PadBus :=
  if b.isTapPoll b.currentCmd && b.selectedInRange then
    let next := if b.reqThis b.selectedSlot = false then MtapNext.slotA
      else if b.returned b.selectedSlot = .bulk then .garbage else .bulk
    { b with nextMode := Function.update b.nextMode b.selectedSlot next }
  else b

/-- The pad the data bytes go to. -/
def dataLogical (b : PadBus) : ℤ :=
  if b.inRange b.activeLogical then b.activeLogical else b.selectedSlot

end PadBus

/-- The outgoing tail of a JogCon, which its first data byte selects. -/
def jogconTail (cmd tx : Byte) (response : ℕ → Byte) : ℕ → Byte :=
  let put (bytes : List Byte) (i : ℕ) : Byte :=
    if 4 ≤ i then bytes.getD (i - 4) (response i) else response i
  if cmd = 0x46 then
    if tx = 0x00 then put [0x01, 0x02, 0x00, 0x0A]
    else if tx = 0x01 then put [0x01, 0x01, 0x01, 0x14]
    else response
  else if cmd = 0x47 ∧ tx ≠ 0x00 then put [0x00, 0x00, 0x00, 0x00]
  else if cmd = 0x4C then
    if tx = 0x00 then Function.update response 5 0x04
    else if tx = 0x01 then Function.update response 4 0x03
    else response
  else response

/-- Position of a data byte in the motor map. -/
def motorIndex (idx : Byte) : Option (Fin 6) :=
  if h : 2 ≤ idx.toNat ∧ idx.toNat < 8 then some ⟨idx.toNat - 2, by omega⟩ else none

/-- A data byte of `0x42` goes to the motor its position is mapped to. -/
def Pad.motorByte (p : Pad) (motor tx : Byte) : Pad :=
  if p.analog = padJogcon ∧ motor = 0x00 then { p with jogconMotorCommand := tx >>> (4 : ℕ) }
  else if motor = 0x00 then { p with rumbleSmall := tx }
  else if motor = 0x01 then { p with rumbleLarge := tx }
  else p

/-- The motors and the motor map, by the position of the data byte. -/
def Pad.rumbleByte (p : Pad) (cmd idx tx : Byte) : Pad :=
  match motorIndex idx with
  | none => p
  | some i =>
    if cmd = 0x42 ∧ p.analog ≠ padNegcon then p.motorByte (p.rumbleMap i) tx
    else if cmd = 0x4D then { p with rumbleMap := Function.update p.rumbleMap i tx }
    else p

/-- `0x43` enters and leaves config mode, `0x44` sets the mode and locks it. -/
def Pad.configByte (p : Pad) (cmd idx tx : Byte) : Pad :=
  if cmd = 0x43 ∧ idx = 2 then { p with inConfig := if tx = 0x01 then 1 else 0 }
  else if cmd = 0x44 ∧ idx = 2 then
    { p with analog := if tx = 0x01 then p.analogDevice else padDigital, typeReq := -1 }
  else if cmd = 0x44 ∧ idx = 3 then
    { p with modeLocked := if tx = 0x03 then 1 else if tx = 0x02 then 0 else p.modeLocked }
  else p

namespace PadBus

/-- A data byte acts on the pads before the next answer byte goes out. -/
def dataByte (b : PadBus) (tx : Byte) : PadBus :=
  let b₁ := if b.isTapPoll b.currentCmd && b.responseIdx = 1 && b.selectedInRange then
      { b with reqThis := Function.update b.reqThis b.selectedSlot (tx = 0x01) }
    else b
  let rs := b₁.dataLogical
  let b₂ := if b₁.inRange rs then
      { b₁.setPad rs fun p => p.rumbleByte b.currentCmd b.responseIdx tx with
        response :=
          if (b₁.pad rs).analog = padJogcon ∧ b.responseIdx = 2 then
            jogconTail b.currentCmd tx b.response
          else b.response }
    else b₁
  if !b.legacyCfg && b₂.inRange b.activeLogical then
    b₂.setPad b.activeLogical fun p => p.configByte b.currentCmd b.responseIdx tx
  else b₂

/-- `PAD_SEND_RESPONSE` -/
def respond (b : PadBus) (tx : Byte) : Exchange PadBus :=
  let b := b.dataByte tx
  if b.responseIdx < b.responseLen then
    let rx := b.response b.responseIdx.toNat
    let b := { b with responseIdx := b.responseIdx + 1 }
    if b.responseIdx < b.responseLen then ⟨b, rx, true⟩ else ⟨b.finish42.endTransaction, rx, false⟩
  else ⟨b.finish42.endTransaction, 0xFF, false⟩

/-- `pad_process_byte`, without the ready bits it sets in any case. -/
def processByte (b : PadBus) (tx : Byte) : Exchange PadBus :=
  match b.state with
  | .idle => b.applyRequests.address tx
  | .waitAccess => b.command tx
  | .sendResponse => b.respond tx
  | .unknown _ => ⟨b.endTransaction, 0xFF, false⟩

end PadBus

/-! ## The host -/

/-- Calls of the frontend that change the pads or the mapping. -/
inductive HostCall where
  | setMultitap (enabled : Bool)
  | setMultitapPort (second : Bool)
  | setMultitapAnalog (enabled : Bool)
  | connectPad (slot : ℤ)
  | setPadConnected (slot : ℤ) (connected : Bool)
  | setConfigCapable (slot : ℤ) (capable : Bool)
  | setPadState (slot : ℤ) (buttons : BitVec 16)
  | setPadType (slot type : ℤ) (lx ly rx ry : Byte)
  | setPadSticks (slot : ℤ) (lx ly rx ry : Byte)
  | setPadNegcon (slot : ℤ) (i ii l : Byte)
  | requestPadType (slot type : ℤ)
  | setLegacyCfg (legacy : Bool)
  | canonicalizeSession (slotCount : ℤ)

/-- A type outside `SIO_PAD_DIGITAL` to `SIO_PAD_NEGCON` is a digital pad. -/
def typeByte (type : ℤ) : Byte := if type < 0 ∨ 3 < type then padDigital else BitVec.ofInt 8 type

def sticksOf (lx ly rx ry : Byte) : Fin 4 → Byte := ![lx, ly, rx, ry]

namespace PadBus

def onPad (b : PadBus) (slot : ℤ) (f : Pad → Pad) : PadBus :=
  if b.inRange slot then b.setPad slot f else b

def resetLatches (b : PadBus) : PadBus :=
  { b with
    nextMode := fun _ => .slotA
    reqThis := fun _ => false
    returned := fun _ => .slotA }

def setMultitap (b : PadBus) (enabled : Bool) : PadBus :=
  if 5 ≤ b.players then
    let b := { b with tapEnabled := enabled }
    if enabled then b else b.resetLatches
  else { b with tapEnabled := false }

def setMultitapPort (b : PadBus) (second : Bool) : PadBus :=
  if 5 ≤ b.players then { b with tapPort := second }.resetLatches else { b with tapPort := false }

def connectMask (slot : ℤ) : Byte := 1 <<< slot.toNat

def connectPad (b : PadBus) (slot : ℤ) : PadBus :=
  if b.inRange slot then { b with connected := b.connected ||| connectMask slot } else b

def setPadConnected (b : PadBus) (slot : ℤ) (connected : Bool) : PadBus :=
  if b.inRange slot then
    if connected then { b with connected := b.connected ||| connectMask slot }
    else
      { b with connected := b.connected &&& ~~~connectMask slot }.setPad slot fun p =>
        { p with rumbleSmall := 0, rumbleLarge := 0, jogconLastSteering := 0,
                 jogconMotorCommand := 0 }
  else b

def setConfigCapable (b : PadBus) (slot : ℤ) (capable : Bool) : PadBus :=
  let capable := capable && !b.tapForceDigital slot
  b.onPad slot fun p =>
    if capable then { p with supportsConfig := 1 }
    else { p with supportsConfig := 0, inConfig := 0, rumbleSmall := 0, rumbleLarge := 0 }

def setPadType (b : PadBus) (slot type : ℤ) (lx ly rx ry : Byte) : PadBus :=
  let digital := b.tapForceDigital slot
  let t := if digital then padDigital else typeByte type
  let sticks := if digital then sticksOf 0x80 0x80 0x80 0x80 else sticksOf lx ly rx ry
  b.onPad slot fun p =>
    { ({ p with supportsConfig := if t = padJogcon then 1 else p.supportsConfig }).commitType t with
      typeReq := -1
      stick := sticks }

def requestPadType (b : PadBus) (slot type : ℤ) : PadBus :=
  let t := if b.tapForceDigital slot then padDigital else typeByte type
  b.onPad slot fun p =>
    { p with
      supportsConfig := if t = padJogcon then 1 else p.supportsConfig
      typeReq := if p.analog = t then -1 else t }

/-- A seat of a netplay session, or one that stays empty. -/
def canonicalSeat (seats : ℤ) (b : PadBus) (i : ℤ) : PadBus :=
  if i < seats then
    (((b.connectPad i).setPadType i 0 0x80 0x80 0x80 0x80).setConfigCapable i true).onPad i fun p =>
      { p with buttons := 0xFFFF, inConfig := 0, modeLocked := 0, analogDevice := padDualshock,
               typeReq := -1, rumbleMap := fun _ => 0xFF, rumbleSmall := 0, rumbleLarge := 0 }
  else
    ((b.setPadConnected i false).setPadType i 0 0x80 0x80 0x80 0x80).onPad i fun p =>
      { p with buttons := 0xFFFF, inConfig := 0, typeReq := -1 }

/-- `sio_netplay_canonicalize_session_pads` -/
def canonicalizeSession (b : PadBus) (slotCount : ℤ) : PadBus :=
  let seats := min (max slotCount 2) b.players
  let b := ((b.setMultitap (3 ≤ seats)).endTransaction).resetLatches
  (List.range b.players).foldl (fun b i => canonicalSeat seats b i)
    { b with selectedSlot := 0, activeLogical := 0, mtapAddr := 0x01, response := fun _ => 0 }

def host (b : PadBus) : HostCall → PadBus
  | .setMultitap enabled => b.setMultitap enabled
  | .setMultitapPort second => b.setMultitapPort second
  | .setMultitapAnalog enabled => { b with tapAnalog := enabled }
  | .connectPad slot => b.connectPad slot
  | .setPadConnected slot connected => b.setPadConnected slot connected
  | .setConfigCapable slot capable => b.setConfigCapable slot capable
  | .setPadState slot buttons => b.onPad slot fun p => { p with buttons := buttons }
  | .setPadType slot type lx ly rx ry => b.setPadType slot type lx ly rx ry
  | .setPadSticks slot lx ly rx ry => b.onPad slot fun p => { p with stick := sticksOf lx ly rx ry }
  | .setPadNegcon slot i ii l => b.onPad slot fun p => { p with negconAnalog := ![i, ii, l] }
  | .requestPadType slot type => b.requestPadType slot type
  | .setLegacyCfg legacy =>
    { b with legacyCfg := legacy, pads := b.pads.map fun p => { p with inConfig := 0 } }
  | .canonicalizeSession slotCount => b.canonicalizeSession slotCount

/-- What `sio_init` does to the pads; the mapping, the latches and the address stay. -/
def init (b : PadBus) : PadBus :=
  { b.endTransaction with
    activeLogical := 0
    connected := 0
    pads := b.pads.map fun _ => Pad.initial }

end PadBus

end PsxRecomp.Sio
