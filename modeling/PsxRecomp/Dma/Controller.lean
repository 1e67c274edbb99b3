import Mathlib
import PsxRecomp.Dma.Channels

/-! What the guest and the clock do to the DMA controller: register writes, starts, the passing of
cycles, and the query for the next cycle at which a channel acts by itself. -/
namespace PsxRecomp.Dma
open Transducer
set_option autoImplicit false

-- Literals of the index types find these by name, so that a definition holds no proof of its own.
scoped instance neZero_two : NeZero 2 := ⟨by decide⟩
scoped instance neZero_seven : NeZero 7 := ⟨by decide⟩

variable {ω : Type*} (dev : Devices ω)

/-! ## The clock -/

def advanceDelayed (cycles : ℕ) (c : Core ω) : Core ω :=
  (List.finRange 7).foldl (fun c ch => advanceDelayedComplete dev ch cycles c) c

def dmaAdvance (cycles : ℕ) (s : Controller ω) : Controller ω :=
  if cycles = 0 then s
  else
    let core := advanceMdecChannel dev 1 cycles (advanceMdecChannel dev 0 cycles s.core)
    let s := advanceList dev cycles { s with core := core }
    { s with core := advanceDelayed dev cycles (advanceCdrom dev cycles s.core) }

/-- The cycles of an MDEC channel to its next job; `none` where it waits for software or for the
device. -/
def mdecDeadline (c : Core ω) (i : Fin 2) : Option ℕ :=
  let a := c.mdec i
  if a.active = false ∨ a.remainingWords = 0 ∨ c.busy (mdecChannel i) = false ∨
      c.channelEnabled (mdecChannel i) = false then none
  else if mdecReady dev i c.world = false then none
  else
    let cost := jobWords dev a * mdecCyclesPerWord i
    some (if a.cyclesAccum < cost then cost - a.cyclesAccum else 1)

/-- A refused direction is completed by the next tick, before any other channel is asked. -/
def mdecRefused (c : Core ω) (i : Fin 2) : Bool :=
  (c.mdec i).active && (c.mdec i).remainingWords ≠ 0 && c.busy (mdecChannel i) &&
    c.channelEnabled (mdecChannel i) && mdecRouteInvalid c i

def listDeadline (s : Controller ω) : Option ℕ :=
  if listWalks s then some (dmaGpuLlCyclesToEvent s.list) else none

def delayedDeadline (c : Core ω) (ch : Fin 7) : Option ℕ :=
  if (c.delayed ch).active then some (c.delayed ch).cyclesRemaining else none

def cdromBusy (c : Core ω) : Bool :=
  c.cdrom.active && c.cdrom.remainingWords ≠ 0 && c.busy 3 && c.channelEnabled 3

/-- The earliest of some deadlines, `UINT32_MAX` when there is none. -/
def earliest (deadlines : List (Option ℕ)) : ℕ :=
  deadlines.foldl (fun best d => d.elim best (min best)) uint32Limit

def cdromDeadline (c : Core ω) : ℕ :=
  if c.cdrom.cyclesAccum < cdromCyclesPerWord then cdromCyclesPerWord - c.cdrom.cyclesAccum else 1

/-- `dma_cycles_to_internal_event`, and the world after the question to the CD-ROM. -/
def dmaCyclesToInternalEvent (s : Controller ω) : ℕ × Controller ω :=
  if mdecRefused s.core 0 || mdecRefused s.core 1 then (1, s)
  else if cdromBusy s.core && s.core.fromRam 3 then (1, s)
  else
    let rest := fun (cdrom : Option ℕ) => earliest
      ([mdecDeadline dev s.core 0, mdecDeadline dev s.core 1, cdrom, listDeadline s] ++
        (List.finRange 7).map (delayedDeadline s.core))
    if cdromBusy s.core then
      let r := dev.cdromReady s.core.world
      (rest (if r.1 then some (cdromDeadline s.core) else none),
        { s with core := { s.core with world := r.2 } })
    else (rest none, s)

/-! ## Starts -/

/-- Time that passes for the controller: the other devices act, then the clock advances. -/
structure Elapse (ω : Type*) where
  outside : ω → ω
  cycles : ℕ

def elapse (s : Controller ω) (e : Elapse ω) : Controller ω :=
  dmaAdvance dev e.cycles { s with core := { s.core with world := e.outside s.core.world } }

/-- The CPU is held while a display list is walked. Each round of the loop lets some time pass;
no round at all is a kick from inside a device service or a replay. -/
def holdCpuForGpuLinkedList : List (List (Elapse ω)) → Controller ω → Controller ω
  | [], s => s
  | round :: rounds, s =>
    if listWalks s then
      let s' := round.foldl (elapse dev) s
      if s'.list.active = true ∧ s'.list.totalWords = s.list.totalWords then s'
      else holdCpuForGpuLinkedList rounds s'
    else s

/-- Channel 2 is started in linked-list mode. -/
def Core.listMode (c : Core ω) : Bool := c.fromRam 2 && c.syncMode 2 = 2

/-- The switch of `try_execute` -/
def execute (rounds : List (List (Elapse ω))) (ch : Fin 7) (s : Controller ω) : Controller ω :=
  match ch with
  | 0 => { s with core := startAsyncMdecTransfer dev 0 s.core }
  | 1 => { s with core := startAsyncMdecTransfer dev 1 s.core }
  | 2 =>
    if s.core.listMode then holdCpuForGpuLinkedList dev rounds (startAsyncGpuLinkedList dev s)
    else
      let r := executeCh2Gpu dev s.core
      { s with core := scheduleDelayedComplete dev 2 r.1 gpuCyclesPerWord r.2 }
  | 3 => { s with core := executeCh3Cdrom dev s.core }
  | 4 =>
    let r := executeCh4Spu dev s.core
    { s with core := scheduleDelayedComplete dev 4 r.1 spuCyclesPerWord r.2 }
  | 5 => { s with core := executeCh5Pio dev s.core }
  | 6 => { s with core := executeCh6Otc dev s.core }

/-- The state a start runs on: bit 28 of the CHCR is gone. -/
def kicked (ch : Fin 7) (s : Controller ω) : Controller ω :=
  { s with core := s.core.setChannel ch fun r => { r with chcr := r.chcr &&& 0xEFFFFFFF } }

/-- `none` is the fatal halt on a length no transfer can have. -/
def tryExecute (rounds : List (List (Elapse ω))) (ch : Fin 7) (s : Controller ω) :
    Option (Controller ω) :=
  if s.core.busy ch = false ∨ s.core.channelEnabled ch = false then some s
  else if lengthValid dev (kicked ch s).core ch then some (execute dev rounds ch (kicked ch s))
  else none

/-! ## Register writes -/

def masked (old val mask : BitVec 32) : BitVec 32 := (old &&& ~~~mask) ||| (val &&& mask)

inductive Register where
  | dpcr
  | dicr
  | madr (ch : Fin 7)
  | bcr (ch : Fin 7)
  | chcr (ch : Fin 7)
  | unmapped
deriving DecidableEq

/-- The register at an address of the block `0x1F801080`. -/
def register (addr : BitVec 32) : Register :=
  if addr = 0x1F8010F0 then .dpcr
  else if addr = 0x1F8010F4 then .dicr
  else if h : 0x1F801080 ≤ addr.toNat ∧ addr.toNat ≤ 0x1F8010EF then
    let ch : Fin 7 := ⟨(addr.toNat - 0x1F801080) / 0x10, by omega⟩
    match (addr.toNat - 0x1F801080) % 0x10 with
    | 0x00 => .madr ch
    | 0x04 => .bcr ch
    | 0x08 => .chcr ch
    | _ => .unmapped
  else .unmapped

def writeDicr (val mask : BitVec 32) (c : Core ω) : Core ω :=
  let written := masked c.dicr val (dicrWriteMask &&& mask)
  let c' := raiseDmaIrqOnMasterEdge dev c.dicr
    { c with dicr := written &&& ~~~(val &&& (dicrResetMask &&& mask)) }
  { c' with world := dev.traceRegWrite c'.world val mask c.dicr c'.dicr }

def Core.writeChcr (ch : Fin 7) (val mask : BitVec 32) (c : Core ω) : Core ω :=
  c.setChannel ch fun r => { r with chcr := masked r.chcr val mask }

/-- A write to CHCR: a byte mask without bit 24 leaves the transfer alone. -/
def writeChannelControl (rounds : List (List (Elapse ω))) (ch : Fin 7) (val mask : BitVec 32)
    (s : Controller ω) : Option (Controller ω) :=
  let s := { s with core := s.core.writeChcr ch val mask }
  if mask.getLsbD 24 = false then some s
  else if s.core.busy ch then tryExecute dev rounds ch s
  else some (cancelAsyncTransfer ch s)

def dmaWriteMasked (rounds : List (List (Elapse ω))) (addr val mask : BitVec 32)
    (s : Controller ω) : Option (Controller ω) :=
  let onCore := fun core : Core ω => some { s with core := core }
  match register addr with
  | .dpcr => onCore { s.core with dpcr := masked s.core.dpcr val mask }
  | .dicr => onCore (writeDicr dev val mask s.core)
  | .madr ch => onCore (s.core.setChannel ch fun r => { r with madr := masked r.madr val mask })
  | .bcr ch => onCore (s.core.setChannel ch fun r => { r with bcr := masked r.bcr val mask })
  | .chcr ch => writeChannelControl dev rounds ch val mask s
  | .unmapped => some s

/-! ## Runs -/

/-- What happens to the controller: a write, with the time that passes while it holds the CPU, or
time alone. -/
inductive Access (ω : Type*) where
  | write (addr val mask : BitVec 32) (rounds : List (List (Elapse ω)))
  | pass (e : Elapse ω)

def access (s : Controller ω) : Access ω → Option (Controller ω)
  | .write addr val mask rounds => dmaWriteMasked dev rounds addr val mask s
  | .pass e => some (elapse dev s e)

/-- Some run of accesses leads from `dma_init` to the state, each meeting the condition `ok` in the
state it finds. -/
inductive Reaches (ok : Controller ω → Access ω → Prop) : Controller ω → Prop where
  | init (world : ω) : Reaches ok (dmaInit world)
  | step {s s' : Controller ω} {a : Access ω} (hs : Reaches ok s) (hok : ok s a)
      (ha : access dev s a = some s') : Reaches ok s'

theorem Reaches.next {ok : Controller ω → Access ω → Prop} {s : Controller ω}
    (hs : Reaches dev ok s) (a : Access ω) (hok : ok s a) (ha : (access dev s a).isSome = true) :
    Reaches dev ok ((access dev s a).get ha) :=
  hs.step hok (Option.some_get ha).symm

theorem Reaches.invariant {ok : Controller ω → Access ω → Prop} {Inv : Controller ω → Prop}
    (init : ∀ w, Inv (dmaInit w))
    (step : ∀ s s' a, Inv s → ok s a → access dev s a = some s' → Inv s')
    {s : Controller ω} (h : Reaches dev ok s) : Inv s := by
  induction h with
  | init w => exact init w
  | step hs hok ha ih => exact step _ _ _ ih hok ha

end PsxRecomp.Dma
