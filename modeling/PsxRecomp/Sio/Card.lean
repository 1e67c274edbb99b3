import Mathlib
import PsxRecomp.Sio.Pads

/-! The memory cards behind the serial port: the images, and one byte of a card transaction. -/
namespace PsxRecomp.Sio
set_option autoImplicit false

-- Literals of the index type find this by name, so that a definition holds no proof of its own.
scoped instance neZero_two : NeZero 2 := ⟨by decide⟩

/-! ## Images -/

abbrev Sector := Fin 128 → Byte

def memcardSectors : ℕ := 1024

structure MemCard where
  present : Bool
  sectors : ℕ → Sector

/-- The card files of the host: what `memcard_flush` does to them, and what it last returned. -/
structure Files (ω : Type) where
  flush : Fin 2 → MemCard → ω → ω
  lastFlushResult : Fin 2 → ω → ℤ

/-- A slot number in the range the card functions check for. -/
def slotIndex (slot : ℤ) : Option (Fin 2) :=
  if slot = 0 then some 0 else if slot = 1 then some 1 else none

/-! ## Protocol state -/

inductive McState where
  | idle
  | cmd
  | id1
  | id2
  | addrMsb
  | addrLsb
  | readAck1
  | readAck2
  | readMsbEcho
  | readLsbEcho
  | readData
  | readChk
  | readEnd
  | writeLsbEcho
  | writeData
  | writeChk
  | writeAck1
  | writeAck2
  | writeEnd
  | getId1
  | getId2
  | getId3
  | getId4
  | unknown (code : BitVec 32)
  deriving DecidableEq

/-- The working `mc_` variables, or what a slot keeps of them. -/
structure McSlotState where
  state : McState
  cmd : Byte
  sector : BitVec 16
  sectorMsb : Byte
  sectorLsb : Byte
  data : Sector
  dataIdx : ℤ
  checksum : Byte
  flag : Byte

def McSlotState.initial : McSlotState where
  state := .idle
  cmd := 0
  sector := 0
  sectorMsb := 0
  sectorLsb := 0
  data := fun _ => 0
  dataIdx := 0
  checksum := 0
  flag := 0x08

structure CardPort (ω : Type) where
  work : McSlotState
  slot : ℤ
  saved : Fin 2 → McSlotState
  cards : Fin 2 → MemCard
  files : ω

namespace CardPort
variable {ω : Type}

def saveSlot (c : CardPort ω) (slot : ℤ) : CardPort ω :=
  match slotIndex slot with
  | none => c
  | some i => { c with saved := Function.update c.saved i c.work }

def loadSlot (c : CardPort ω) (slot : ℤ) : CardPort ω :=
  match slotIndex slot with
  | none => c
  | some i => { c with work := c.saved i }

def goTo (c : CardPort ω) (state : McState) : CardPort ω := { c with work := { c.work with state } }

def isPresent (c : CardPort ω) (slot : ℤ) : Bool :=
  match slotIndex slot with
  | none => false
  | some i => (c.cards i).present

end CardPort

/-! ## One byte -/

/-- What a byte does beyond the protocol variables: a sector stored, a read finished, or a byte
addressed outside `mc_data`. -/
inductive CardEffect where
  | quiet
  | stored (card : Fin 2) (sector : ℕ) (data : Sector)
  | completed
  | outside

structure CardExchange (ω : Type) where
  state : CardPort ω
  rx : Byte
  ack : Bool
  effect : CardEffect

def dataXor (data : Sector) (start : Byte) : Byte :=
  (List.ofFn data).foldl (fun x b => x ^^^ b) start

/-- `mc_data[i]` -/
def dataAt (data : Sector) (i : ℤ) : Option Byte :=
  if h : 0 ≤ i ∧ i < 128 then some (data ⟨i.toNat, by omega⟩) else none

/-- `mc_data[i] = v` -/
def putData (data : Sector) (i : ℤ) (v : Byte) : Option Sector :=
  if h : 0 ≤ i ∧ i < 128 then some (Function.update data ⟨i.toNat, by omega⟩ v) else none

variable {ω : Type} (F : Files ω)

/-- `memcard_read_sector`; without a card the buffer stays. -/
def readSector (c : CardPort ω) (sector : ℕ) : Sector :=
  match slotIndex c.slot with
  | none => c.work.data
  | some i => if (c.cards i).present then (c.cards i).sectors sector else c.work.data

/-- `memcard_write_sector` and the flush behind it: the status byte, and what was stored. -/
def writeSector (c : CardPort ω) (sector : ℕ) (data : Sector) : CardPort ω × Byte × CardEffect :=
  match slotIndex c.slot with
  | none => (c, 0x4E, .quiet)
  | some i =>
    if (c.cards i).present then
      let card := { c.cards i with sectors := Function.update (c.cards i).sectors sector data }
      let files := F.flush i card c.files
      ({ c with cards := Function.update c.cards i card, files := files },
        if F.lastFlushResult i files = 0 then 0x47 else 0x4E, .stored i sector data)
    else (c, 0x4E, .quiet)

def CardPort.reply (c : CardPort ω) (state : McState) (rx : Byte) : CardExchange ω :=
  ⟨c.goTo state, rx, true, .quiet⟩

def CardPort.finish (c : CardPort ω) (rx : Byte) : CardExchange ω :=
  ⟨c.goTo .idle, rx, false, .quiet⟩

/-- `MC_IDLE`: the card in the selected slot answers the select byte. -/
def cardSelect (selected : ℤ) (c : CardPort ω) : CardExchange ω :=
  let c := { c with slot := selected }
  if c.isPresent selected then c.reply .cmd 0xFF else ⟨c, 0xFF, false, .quiet⟩

def cardCommand (tx : Byte) (c : CardPort ω) : CardExchange ω :=
  let c := { c with work := { c.work with cmd := tx } }
  if tx = 0x52 ∨ tx = 0x57 ∨ tx = 0x53 then c.reply .id1 c.work.flag else c.finish 0xFF

/-- `MC_ADDR_LSB`: a read fetches its sector here. -/
def cardAddress (tx : Byte) (c : CardPort ω) : CardExchange ω :=
  let sector := c.work.sectorMsb ++ tx
  let c := { c with work := { c.work with sectorLsb := tx, sector := sector, dataIdx := 0 } }
  if c.work.cmd = 0x52 then
    let data := if sector.toNat < memcardSectors then readSector c sector.toNat else fun _ => 0xFF
    let c := { c with work := { c.work with
      data := data
      checksum := dataXor data (c.work.sectorMsb ^^^ tx) } }
    c.reply .readAck1 0x00
  else c.reply .writeLsbEcho c.work.sectorMsb

def cardReadByte (c : CardPort ω) : CardExchange ω :=
  match dataAt c.work.data c.work.dataIdx with
  | none => ⟨c, 0xFF, false, .outside⟩
  | some b =>
    let idx := c.work.dataIdx + 1
    let c := { c with work := { c.work with dataIdx := idx } }
    c.reply (if 128 ≤ idx then .readChk else .readData) b

/-- The first payload byte and the others; they differ in the state after them and in the reply. -/
def cardWriteByte (tx : Byte) (next : ℤ → McState) (rx : Byte) (c : CardPort ω) : CardExchange ω :=
  match putData c.work.data c.work.dataIdx tx with
  | none => ⟨c, 0xFF, false, .outside⟩
  | some data =>
    let idx := c.work.dataIdx + 1
    let c := { c with work := { c.work with data := data, dataIdx := idx } }
    c.reply (next idx) rx

/-- `MC_WRITE_CHK`: only here an image is written. -/
def cardWriteCheck (tx : Byte) (c : CardPort ω) : CardExchange ω :=
  let w := c.work
  if tx = dataXor w.data (w.sectorMsb ^^^ w.sectorLsb) ∧ w.sector.toNat < memcardSectors then
    let r := writeSector F c w.sector.toNat w.data
    ⟨{ r.1 with work := { r.1.work with state := .writeAck1, checksum := r.2.1 } }, 0x00, true, r.2.2⟩
  else
    let status : Byte := if memcardSectors ≤ w.sector.toNat then 0xFF else 0x4E
    ⟨{ c with work := { w with state := .writeAck1, checksum := status } }, 0x00, true, .quiet⟩

def cardReadEnd (c : CardPort ω) : CardExchange ω :=
  ⟨c.goTo .idle, if c.work.sector.toNat < memcardSectors then 0x47 else 0xFF, false, .completed⟩

def cardWriteEnd (c : CardPort ω) : CardExchange ω :=
  ({ c with work := { c.work with flag := 0x00 } }).finish c.work.checksum

/-- `mc_process_byte`, without the ready bits it sets in any case. -/
def mcProcessByte (selected : ℤ) (tx : Byte) (c : CardPort ω) : CardExchange ω :=
  match c.work.state with
  | .idle => cardSelect selected c
  | .cmd => cardCommand tx c
  | .id1 => c.reply .id2 0x5A
  | .id2 => c.reply (if c.work.cmd = 0x53 then .getId1 else .addrMsb) 0x5D
  | .getId1 => c.reply .getId2 0x04
  | .getId2 => c.reply .getId3 0x00
  | .getId3 => c.reply .getId4 0x00
  | .getId4 => c.finish 0x80
  | .addrMsb => ({ c with work := { c.work with sectorMsb := tx } }).reply .addrLsb 0x00
  | .addrLsb => cardAddress tx c
  | .readAck1 => c.reply .readAck2 0x5C
  | .readAck2 => c.reply .readMsbEcho 0x5D
  | .readMsbEcho => c.reply .readLsbEcho c.work.sectorMsb
  | .readLsbEcho => ({ c with work := { c.work with dataIdx := 0 } }).reply .readData c.work.sectorLsb
  | .readData => cardReadByte c
  | .readChk => c.reply .readEnd c.work.checksum
  | .readEnd => cardReadEnd c
  | .writeLsbEcho => cardWriteByte tx (fun _ => .writeData) c.work.sectorLsb c
  | .writeData => cardWriteByte tx (fun idx => if 128 ≤ idx then .writeChk else .writeData) 0x00 c
  | .writeChk => cardWriteCheck F tx c
  | .writeAck1 => c.reply .writeAck2 0x5C
  | .writeAck2 => c.reply .writeEnd 0x5D
  | .writeEnd => cardWriteEnd c
  | .unknown _ => c.finish 0xFF

end PsxRecomp.Sio
