import Mathlib
import PsxRecomp.Dma.Advance

/-! The DMA controller: seven channels with their registers, and the records of the transfers the
guest clock drives. What the channels talk to (main RAM, the MDEC, the GPU, the CD-ROM, the SPU
and the interrupt line) is one world behind the operations of `Devices`. -/
namespace PsxRecomp.Dma
open Transducer
set_option autoImplicit false

/-! ## Registers and records -/

/-- `DMAChannel` -/
structure Channel where
  madr : BitVec 32
  bcr : BitVec 32
  chcr : BitVec 32
deriving DecidableEq

/-- `DMAAsyncChannel` -/
structure Async where
  active : Bool
  totalWords : ℕ
  remainingWords : ℕ
  cyclesAccum : ℕ
deriving DecidableEq

/-- `DMADelayedComplete` -/
structure Delayed where
  active : Bool
  totalWords : ℕ
  cyclesRemaining : ℕ
deriving DecidableEq

def Async.idle : Async :=
  { active := false, totalWords := 0, remainingWords := 0, cyclesAccum := 0 }

def Delayed.idle : Delayed := { active := false, totalWords := 0, cyclesRemaining := 0 }

/-- The operations of the other devices on their common world. A readiness test of the CD-ROM may
refill its FIFO; every other test only looks. -/
structure Devices (ω : Type*) where
  ramAddr : BitVec 32 → BitVec 32
  resolveAddress : BitVec 32 → BitVec 32
  readWord : ω → BitVec 32 → BitVec 32
  writeWord : ω → BitVec 32 → BitVec 32 → ω
  mdecWriteReady : ω → Bool
  mdecReadReady : ω → Bool
  mdecWriteWord : ω → BitVec 32 → ω
  mdecReadWord : ω → BitVec 32 × ω
  cdromReady : ω → Bool × ω
  cdromRead : ω → BitVec 32 × ω
  cdromSectorWords : ω → ℕ
  gpuRead : ω → BitVec 32 × ω
  gpuWrite : ω → BitVec 32 → BitVec 32 → ω
  gpuHeader : ω → BitVec 32 → BitVec 32 → ω
  gpuBeginNode : ω → BitVec 32 → BitVec 32 → ω
  spuRead : ω → BitVec 32 × ω
  spuWrite : ω → BitVec 32 → ω
  raiseIrq : ω → ω
  /-- `trace_dma` of a completed channel, with DICR before and after -/
  traceComplete : ω → Fin 7 → BitVec 32 → BitVec 32 → ω
  /-- `trace_dma_reg_write` of a value and mask written to DICR, with DICR before and after -/
  traceRegWrite : ω → BitVec 32 → BitVec 32 → BitVec 32 → BitVec 32 → ω
  /-- `PSX_MDEC_WORDS_PER_JOB` -/
  mdecWordsPerJob : ℕ
  job_pos : 0 < mdecWordsPerJob
  job_small : mdecWordsPerJob * 14 < 0xFFFFFFFF

/-- Everything but the display list, which walks with this state behind its `opaque` pointer. -/
structure Core (ω : Type*) where
  channels : Fin 7 → Channel
  dpcr : BitVec 32
  dicr : BitVec 32
  mdec : Fin 2 → Async
  cdrom : Async
  delayed : Fin 7 → Delayed
  world : ω

structure Controller (ω : Type*) where
  core : Core ω
  list : LinkedList

/-- `memset` of `gpu_linked_list` -/
def LinkedList.zero : LinkedList :=
  { active := false, phase := .idle, emitNode := false, hitLimit := false, startAddr := 0
    currentAddr := 0, nextAddr := 0, wordCount := 0, payloadIndex := 0, cyclesRemaining := 0
    nodesProcessed := 0, maxNodes := 0, totalWords := 0, emptyRank := 0 }

def dmaInit {ω : Type*} (world : ω) : Controller ω :=
  { core :=
      { channels := fun _ => { madr := 0, bcr := 0, chcr := 0 }, dpcr := 0x07654321, dicr := 0
        mdec := fun _ => .idle, cdrom := .idle, delayed := fun _ => .idle, world := world }
    list := .zero }

section Registers
variable {ω : Type*}

/-- CHCR bit 24: the channel is started or busy. -/
def Core.busy (c : Core ω) (ch : Fin 7) : Bool := (c.channels ch).chcr.getLsbD 24

/-- CHCR bit 0: out of RAM when set. -/
def Core.fromRam (c : Core ω) (ch : Fin 7) : Bool := (c.channels ch).chcr.getLsbD 0

def Core.syncMode (c : Core ω) (ch : Fin 7) : BitVec 2 := (c.channels ch).chcr.extractLsb' 9 2

def Core.channelEnabled (c : Core ω) (ch : Fin 7) : Bool := c.dpcr.getLsbD (ch.val * 4 + 3)

def Core.irqFlagArmed (c : Core ω) (ch : Fin 7) : Bool :=
  c.dicr.getLsbD (16 + ch.val) && c.dicr.getLsbD 23

def Core.setChannel (c : Core ω) (ch : Fin 7) (f : Channel → Channel) : Core ω :=
  { c with channels := Function.update c.channels ch (f (c.channels ch)) }

def Core.setMdec (c : Core ω) (ch : Fin 2) (a : Async) : Core ω :=
  { c with mdec := Function.update c.mdec ch a }

def Core.setDelayed (c : Core ω) (ch : Fin 7) (d : Delayed) : Core ω :=
  { c with delayed := Function.update c.delayed ch d }

/-- The next address of a word, by CHCR bit 1. -/
def Core.nextAddr (c : Core ω) (dev : Devices ω) (ch : Fin 7) (addr : BitVec 32) : BitVec 32 :=
  dev.ramAddr (if (c.channels ch).chcr.getLsbD 1 then addr - 4 else addr + 4)

def Core.startAddr (c : Core ω) (dev : Devices ω) (ch : Fin 7) : BitVec 32 :=
  dev.ramAddr (c.channels ch).madr

def dicrWriteMask : BitVec 32 := 0x00FF807F
def dicrResetMask : BitVec 32 := 0x7F000000

def dicrMasterFlag (v : BitVec 32) : Bool :=
  v.getLsbD 15 || v.getLsbD 23 && v &&& dicrResetMask ≠ 0

def raiseDmaIrqOnMasterEdge (dev : Devices ω) (before : BitVec 32) (c : Core ω) : Core ω :=
  if !dicrMasterFlag before && dicrMasterFlag c.dicr then
    { c with world := dev.raiseIrq c.world }
  else c

def blockSize (c : Core ω) (ch : Fin 7) : ℕ := ((c.channels ch).bcr.extractLsb' 0 16).toNat
def blockCount (c : Core ω) (ch : Fin 7) : ℕ := ((c.channels ch).bcr.extractLsb' 16 16).toNat

def transferWordCount (dev : Devices ω) (c : Core ω) (ch : Fin 7) : ℕ :=
  if ch = 3 ∧ blockSize c ch = 0 then dev.cdromSectorWords c.world
  else
    let size := if blockSize c ch = 0 then 0x10000 else blockSize c ch
    if c.syncMode ch = 1 then size * (if blockCount c ch = 0 then 1 else blockCount c ch)
    else size

def maxTransferWords : ℕ := 0x80000

/-- The length a start may have; beyond it the machine halts. -/
def lengthValid (dev : Devices ω) (c : Core ω) (ch : Fin 7) : Prop :=
  (ch = 2 ∧ c.syncMode ch = 2) ∨ transferWordCount dev c ch ≤ maxTransferWords

instance (dev : Devices ω) (c : Core ω) (ch : Fin 7) : Decidable (lengthValid dev c ch) := by
  unfold lengthValid
  infer_instance

end Registers

/-! ## Completing and cancelling -/

section Transfers
variable {ω : Type*} (dev : Devices ω)

/-- All but CHCR bits 24 and 28. -/
def idleChcr (chcr : BitVec 32) : BitVec 32 := chcr &&& 0xEEFFFFFF

def Core.clearBusy (c : Core ω) (ch : Fin 7) : Core ω :=
  c.setChannel ch fun r => { r with chcr := idleChcr r.chcr }

/-- The DICR flag of a completed channel -/
def latchFlag (ch : Fin 7) (c : Core ω) : Core ω :=
  if c.irqFlagArmed ch then
    raiseDmaIrqOnMasterEdge dev c.dicr { c with dicr := c.dicr ||| BitVec.twoPow 32 (24 + ch.val) }
  else c

def completeTransfer (ch : Fin 7) (c : Core ω) : Core ω :=
  let c' := latchFlag dev ch (c.clearBusy ch)
  { c' with world := dev.traceComplete c'.world ch c.dicr c'.dicr }

/-- `cancel_async_transfer` but for the display list -/
def Core.cancelAsync (ch : Fin 7) (c : Core ω) : Core ω :=
  let c := if h : ch.val < 2 then c.setMdec ⟨ch.val, h⟩ .idle else c
  let c := if ch = 3 then { c with cdrom := .idle } else c
  c.setDelayed ch .idle

def cancelAsyncTransfer (ch : Fin 7) (s : Controller ω) : Controller ω :=
  { core := s.core.cancelAsync ch
    list := if ch = 2 ∧ s.list.active = true then .zero else s.list }

def uint32Limit : ℕ := 0xFFFFFFFF

def scheduleDelayedComplete (ch : Fin 7) (totalWords cyclesPerWord : ℕ) (c : Core ω) : Core ω :=
  if totalWords = 0 ∨ cyclesPerWord = 0 then completeTransfer dev ch c
  else c.setDelayed ch { active := true, totalWords := totalWords,
                         cyclesRemaining := min (totalWords * cyclesPerWord) uint32Limit }

def advanceDelayedComplete (ch : Fin 7) (cycles : ℕ) (c : Core ω) : Core ω :=
  if (c.delayed ch).active = false then c
  else if cycles < (c.delayed ch).cyclesRemaining then
    c.setDelayed ch { c.delayed ch with
      cyclesRemaining := (c.delayed ch).cyclesRemaining - cycles }
  else completeTransfer dev ch (c.setDelayed ch .idle)

/-! ## Moving words -/

/-- The words a transfer moves while its device is ready: how many, the address after them, and
the world they leave. -/
def moveWords (ready : ω → Bool × ω) (word : ω → BitVec 32 → ω) (next : BitVec 32 → BitVec 32) :
    ℕ → BitVec 32 → ω → ℕ × BitVec 32 × ω
  | 0, addr, w => (0, addr, w)
  | n + 1, addr, w =>
    let r := ready w
    if r.1 = true then
      let rest := moveWords ready word next n (next addr) (word r.2 addr)
      (rest.1 + 1, rest.2)
    else (0, addr, r.2)

/-- A transfer that never waits. -/
def moveAll (word : ω → BitVec 32 → ω) (next : BitVec 32 → BitVec 32) (n : ℕ) (addr : BitVec 32)
    (w : ω) : BitVec 32 × ω :=
  (moveWords (fun w => (true, w)) word next n addr w).2

def Core.moved (c : Core ω) (ch : Fin 7) (m : BitVec 32 × ω) : Core ω :=
  { c.setChannel ch (fun r => { r with madr := m.1 }) with world := m.2 }

def toRam (read : ω → BitVec 32 × ω) (w : ω) (addr : BitVec 32) : ω :=
  dev.writeWord (read w).2 addr (read w).1

def toGpu (w : ω) (addr : BitVec 32) : ω := dev.gpuWrite w addr (dev.readWord w addr)

/-- An immediate transfer of `n` words. -/
def Core.transfer (c : Core ω) (ch : Fin 7) (word : ω → BitVec 32 → ω) (n : ℕ) : Core ω :=
  c.moved ch (moveAll word (c.nextAddr dev ch) n (c.startAddr dev ch) c.world)

/-! ## The MDEC channels -/

def mdecInCyclesPerWord : ℕ := 1
def mdecOutCyclesPerWord : ℕ := 14
def gpuCyclesPerWord : ℕ := 1
def cdromCyclesPerWord : ℕ := 1
def spuCyclesPerWord : ℕ := 48

/-- The channel of an MDEC record. -/
def mdecChannel (i : Fin 2) : Fin 7 := i.castLE (by decide)

def mdecCyclesPerWord (i : Fin 2) : ℕ := if i = 0 then mdecInCyclesPerWord else mdecOutCyclesPerWord

def mdecReady (i : Fin 2) (w : ω) : Bool :=
  if i = 0 then dev.mdecWriteReady w else dev.mdecReadReady w

def mdecWord (i : Fin 2) (w : ω) (addr : BitVec 32) : ω :=
  if i = 0 then dev.mdecWriteWord w (dev.readWord w addr) else toRam dev dev.mdecReadWord w addr

/-- Channel 0 feeds the MDEC out of RAM and channel 1 drains it into RAM; the other direction is
refused. -/
def mdecRouteInvalid (c : Core ω) (i : Fin 2) : Bool :=
  if i = 0 then !c.fromRam 0 else c.fromRam 1

def startAsyncMdecTransfer (i : Fin 2) (c : Core ω) : Core ω :=
  if (c.mdec i).active then c
  else c.setMdec i
    { active := true, totalWords := transferWordCount dev c (mdecChannel i)
      remainingWords := transferWordCount dev c (mdecChannel i), cyclesAccum := 0 }

def finishAsyncMdecTransfer (i : Fin 2) (c : Core ω) : Core ω :=
  completeTransfer dev (mdecChannel i) (c.cancelAsync (mdecChannel i))

def accumulate (accum cycles : ℕ) : ℕ := min (accum + cycles) uint32Limit

/-- The words that must be paid for before any is moved. -/
def jobWords (a : Async) : ℕ := min a.remainingWords dev.mdecWordsPerJob

def Async.pay (a : Async) (cycles : ℕ) : Async :=
  { a with cyclesAccum := accumulate a.cyclesAccum cycles }

/-- The record after `words` words at their price. -/
def Async.spend (a : Async) (words cyclesPerWord : ℕ) : Async :=
  { a with remainingWords := a.remainingWords - words
           cyclesAccum := a.cyclesAccum - words * cyclesPerWord }

/-- The state after the words `m` were moved. -/
def mdecMoved (i : Fin 2) (c : Core ω) (m : ℕ × BitVec 32 × ω) : Core ω :=
  let a := (c.mdec i).spend m.1 (mdecCyclesPerWord i)
  let c' := (c.moved (mdecChannel i) m.2).setMdec i a
  if a.remainingWords = 0 then finishAsyncMdecTransfer dev i c' else c'

def advanceMdecChannel (i : Fin 2) (cycles : ℕ) (c : Core ω) : Core ω :=
  if (c.mdec i).active = false ∨ c.busy (mdecChannel i) = false ∨
      c.channelEnabled (mdecChannel i) = false then c
  else if mdecRouteInvalid c i then finishAsyncMdecTransfer dev i c
  else if mdecReady dev i c.world = false then c
  else
    let a := (c.mdec i).pay cycles
    let c' := c.setMdec i a
    let budget := a.cyclesAccum / mdecCyclesPerWord i
    if budget < jobWords dev a ∨ budget = 0 then c'
    else
      let m := moveWords (fun w => (mdecReady dev i w, w)) (mdecWord dev i)
        (c.nextAddr dev (mdecChannel i)) (min a.remainingWords budget)
        (c.startAddr dev (mdecChannel i)) c.world
      if m.1 = 0 then c' else mdecMoved dev i c' m

/-! ## The CD-ROM channel -/

def startAsyncCdromTransfer (c : Core ω) : Core ω :=
  if c.cdrom.active then c
  else
    let words := transferWordCount dev c 3
    let c' := { c with cdrom :=
      { active := true, totalWords := words, remainingWords := words, cyclesAccum := 0 } }
    if words = 0 then completeTransfer dev 3 (c'.cancelAsync 3) else c'

def executeCh3Cdrom (c : Core ω) : Core ω :=
  if c.fromRam 3 then c.clearBusy 3 else startAsyncCdromTransfer dev c

def finishAsyncCdromTransfer (finalAddr : BitVec 32) (c : Core ω) : Core ω :=
  completeTransfer dev 3
    ((c.setChannel 3 fun r => { r with madr := finalAddr }).cancelAsync 3)

def dmaCdromTransferActive (c : Core ω) : Bool :=
  c.cdrom.active && c.busy 3 && c.channelEnabled 3 && !c.fromRam 3

def Core.setCdrom (c : Core ω) (a : Async) (world : ω) : Core ω :=
  { c with cdrom := a, world := world }

def cdromMoved (c : Core ω) (a : Async) (m : ℕ × BitVec 32 × ω) : Core ω :=
  let a' := a.spend m.1 cdromCyclesPerWord
  let c' := (c.moved 3 m.2).setCdrom a' m.2.2
  if a'.remainingWords = 0 then finishAsyncCdromTransfer dev m.2.1 c' else c'

/-- The part of `dma_advance` for channel 3. Its branch for a reversed direction stands behind a
guard that already excludes that direction. -/
def advanceCdrom (cycles : ℕ) (c : Core ω) : Core ω :=
  if dmaCdromTransferActive c = false then c
  else if c.fromRam 3 then (c.cancelAsync 3).clearBusy 3
  else
    let r := dev.cdromReady c.world
    if r.1 = false then c.setCdrom c.cdrom r.2
    else
      let a := c.cdrom.pay cycles
      let m := moveWords dev.cdromReady (toRam dev dev.cdromRead) (c.nextAddr dev 3)
        (min a.remainingWords (a.cyclesAccum / cdromCyclesPerWord)) (c.startAddr dev 3) r.2
      if m.1 = 0 then c.setCdrom a m.2.2 else cdromMoved dev c a m

/-! ## The GPU channel -/

/-- `gpu_ll_ops` over the memory as it stands. `gpu_ll_complete` writes MADR from the list at the
node limit; `advanceList` does that part. -/
def gpuLlOps (mem : BitVec 32 → BitVec 32) : Ops (Core ω) where
  resolveAddress := some dev.resolveAddress
  readWord := some mem
  observeHeader := some fun c address header =>
    { c with world := dev.gpuHeader c.world address header }
  beginNode := some fun c address wordCount =>
    (true, { c with world := dev.gpuBeginNode c.world address wordCount })
  emitWord := some fun c address word => { c with world := dev.gpuWrite c.world address word }
  complete := some fun c hitLimit => completeTransfer dev 2
    (if hitLimit then c else c.setChannel 2 fun r => { r with madr := 0x00FFFFFF })

def listWalks (s : Controller ω) : Bool :=
  s.list.active && s.core.busy 2 && s.core.channelEnabled 2

/-- `dma_gpu_ll_advance` of the controller's list -/
def walkList (cycles : ℕ) (s : Controller ω) : Controller ω :=
  let r := (dmaGpuLlAdvance (gpuLlOps dev (dev.readWord s.core.world)) cycles (s.list, s.core)).1
  { core := if r.1.active = false ∧ r.1.hitLimit = true then
        r.2.setChannel 2 fun c => { c with madr := r.1.currentAddr }
      else r.2
    list := r.1 }

def advanceList (cycles : ℕ) (s : Controller ω) : Controller ω :=
  if listWalks s then walkList dev cycles s else s

def startAsyncGpuLinkedList (s : Controller ω) : Controller ω :=
  if s.list.active then s
  else { s with list :=
    dmaGpuLlStart (dev.resolveAddress (s.core.channels 2).madr) 0x40000 }

/-- The words a start of channel 2 moves at once. -/
def gpuWords (c : Core ω) : ℕ :=
  if c.syncMode 2 = 1 then blockSize c 2 * blockCount c 2
  else if c.fromRam 2 = false ∨ c.syncMode 2 = 2 then 0
  else if blockSize c 2 = 0 then 0x10000 else blockSize c 2

/-- `execute_ch2_gpu`; with the words it returns, it leaves MADR alone where it moves none. -/
def executeCh2Gpu (c : Core ω) : ℕ × Core ω :=
  if c.fromRam 2 = false then
    if c.syncMode 2 = 1 then (gpuWords c, c.transfer dev 2 (toRam dev dev.gpuRead) (gpuWords c))
    else (0, c)
  else if c.syncMode 2 = 2 then (0, c)
  else (gpuWords c, c.transfer dev 2 (toGpu dev) (gpuWords c))

/-! ## The SPU, PIO and OTC channels -/

def executeCh4Spu (c : Core ω) : ℕ × Core ω :=
  let words := transferWordCount dev c 4
  if c.fromRam 4 then
    (words, c.transfer dev 4 (fun w addr => dev.spuWrite w (dev.readWord w addr)) words)
  else (words, c.transfer dev 4 (toRam dev dev.spuRead) words)

def executeCh5Pio (c : Core ω) : Core ω :=
  completeTransfer dev 5 (c.transfer dev 5
    (if c.fromRam 5 then fun w _ => w else fun w addr => dev.writeWord w addr 0)
    (transferWordCount dev c 5))

/-- The ordering table, from its last entry back to the end marker. -/
def clearTable : ℕ → BitVec 32 → ω → ω
  | 0, _, w => w
  | n + 1, addr, w =>
    clearTable n (dev.ramAddr (addr - 4))
      (dev.writeWord w addr (if n = 0 then 0x00FFFFFF else (addr - 4) &&& 0x00FFFFFF))

def executeCh6Otc (c : Core ω) : Core ω :=
  let entries := if blockSize c 6 = 0 then 0x10000 else blockSize c 6
  completeTransfer dev 6 { c with world := clearTable dev entries (c.startAddr dev 6) c.world }

end Transfers

end PsxRecomp.Dma
