import Mathlib
import PsxRecomp.Library.Transducer

/-! GPU linked-list DMA: a transfer walks the nodes of a display list in memory and spends one
clock a word. The callbacks are events; what a callback answers may depend on everything the
callbacks did before it, through the state `ω` behind the `opaque` pointer. -/
namespace PsxRecomp.Dma
open Transducer
set_option autoImplicit false

/-! ## State and callbacks -/

inductive Phase where
  | idle
  | header
  | setup
  | payload
deriving DecidableEq

/-- `DMAGPULinkedList` -/
structure LinkedList where
  active : Bool
  phase : Phase
  emitNode : Bool
  hitLimit : Bool
  startAddr : BitVec 32
  currentAddr : BitVec 32
  nextAddr : BitVec 32
  wordCount : BitVec 32
  payloadIndex : BitVec 32
  cyclesRemaining : ℕ
  nodesProcessed : BitVec 32
  maxNodes : BitVec 32
  totalWords : BitVec 32
  emptyRank : BitVec 32
deriving DecidableEq

/-- `DMAGPULinkedListOps`; a null pointer is `none`. The memory behind `read_word` is fixed. -/
structure Ops (ω : Type*) where
  resolveAddress : Option (BitVec 32 → BitVec 32)
  readWord : Option (BitVec 32 → BitVec 32)
  observeHeader : Option (ω → BitVec 32 → BitVec 32 → ω)
  beginNode : Option (ω → BitVec 32 → BitVec 32 → Bool × ω)
  emitWord : Option (ω → BitVec 32 → BitVec 32 → ω)
  complete : Option (ω → Bool → ω)

/-- A call of one of the callbacks, with its arguments. -/
inductive Call where
  | readWord (address : BitVec 32)
  | observeHeader (address header : BitVec 32)
  | beginNode (address wordCount : BitVec 32)
  | emitWord (address word : BitVec 32)
  | complete (hitLimit : Bool)
deriving DecidableEq

def headerCycles : ℕ := 1
def setupCycles : ℕ := 0
def endMarker : BitVec 32 := 0x00FFFFFF
def uint32Max : BitVec 32 := 0xFFFFFFFF

def dmaGpuLlStart (startAddr maxNodes : BitVec 32) : LinkedList :=
  { active := true, phase := .header, emitNode := false, hitLimit := false
    startAddr := startAddr, currentAddr := startAddr, nextAddr := 0, wordCount := 0
    payloadIndex := 0, cyclesRemaining := headerCycles, nodesProcessed := 0
    maxNodes := maxNodes, totalWords := 0, emptyRank := uint32Max }

def dmaGpuLlCyclesToEvent (ll : LinkedList) : ℕ :=
  if ll.active then if ll.cyclesRemaining ≠ 0 then ll.cyclesRemaining else 1
  else uint32Max.toNat

/-! ## One event of the transfer -/

section Service
variable {ω : Type*} (ops : Ops ω) (mem : BitVec 32 → BitVec 32)

def resolveAddress (address : BitVec 32) : BitVec 32 :=
  match ops.resolveAddress with
  | none => address
  | some resolve => resolve address

def finish : Step (LinkedList × ω) Call := fun s =>
  let ll := { s.1 with active := false, phase := .idle, cyclesRemaining := 0 }
  match ops.complete with
  | none => ((ll, s.2), [])
  | some complete => ((ll, complete s.2 s.1.hitLimit), [.complete s.1.hitLimit])

def finishAtLimit : Step (LinkedList × ω) Call := fun s =>
  finish ops ({ s.1 with hitLimit := true }, s.2)

def nextEmptyRank (ll : LinkedList) (wordCount : BitVec 32) : BitVec 32 :=
  if wordCount = 0 then if ll.emptyRank = uint32Max then 0 else ll.emptyRank + 1
  else ll.emptyRank

def loadHeader : Step (LinkedList × ω) Call := fun s =>
  let address := resolveAddress ops s.1.currentAddr
  let header := mem address
  let ll := { s.1 with
    currentAddr := address
    wordCount := header >>> 24
    payloadIndex := 0
    nextAddr := header &&& 0x00FFFFFF
    nodesProcessed := s.1.nodesProcessed + 1
    totalWords := s.1.totalWords + 1
    emptyRank := nextEmptyRank s.1 (header >>> 24) }
  match ops.observeHeader with
  | none => ((ll, s.2), [.readWord address])
  | some observe => ((ll, observe s.2 address header),
      [.readWord address, .observeHeader address header])

def beginNode : Step (LinkedList × ω) Call := fun s =>
  match ops.beginNode with
  | none => (({ s.1 with emitNode := true }, s.2), [])
  | some begin =>
    let r := begin s.2 s.1.currentAddr s.1.wordCount
    (({ s.1 with emitNode := r.1 }, r.2), [.beginNode s.1.currentAddr s.1.wordCount])

/-- The end of a node: the list ends, or the header of the next node is due. -/
def nextNode : Step (LinkedList × ω) Call := fun s =>
  if s.1.nextAddr = endMarker then finish ops s
  else (({ s.1 with phase := .header, currentAddr := resolveAddress ops s.1.nextAddr,
                    cyclesRemaining := headerCycles }, s.2), [])

def enterSetup : Step (LinkedList × ω) Call := fun s =>
  (({ s.1 with emitNode := true, phase := .setup, cyclesRemaining := setupCycles }, s.2), [])

def enterPayload : Step (LinkedList × ω) Call := fun s =>
  (({ s.1 with phase := .payload, cyclesRemaining := 1 }, s.2), [])

def serviceHeader : Step (LinkedList × ω) Call := fun s =>
  if s.1.nodesProcessed ≥ s.1.maxNodes then finishAtLimit ops s
  else seq (loadHeader ops mem)
    (fun s => if s.1.wordCount ≠ 0 then enterSetup s else seq (beginNode ops) (nextNode ops) s) s

def payloadAddress (ll : LinkedList) : BitVec 32 :=
  resolveAddress ops (ll.currentAddr + 4 + ll.payloadIndex * 4)

def transferWord : Step (LinkedList × ω) Call := fun s =>
  let address := payloadAddress ops s.1
  let ll := { s.1 with payloadIndex := s.1.payloadIndex + 1, totalWords := s.1.totalWords + 1 }
  if s.1.emitNode then
    match ops.emitWord with
    | none => ((ll, s.2), [.readWord address])
    | some emit => ((ll, emit s.2 address (mem address)),
        [.readWord address, .emitWord address (mem address)])
  else ((ll, s.2), [])

def servicePayload : Step (LinkedList × ω) Call :=
  seq (transferWord ops mem) (fun s =>
    if s.1.payloadIndex < s.1.wordCount then (({ s.1 with cyclesRemaining := 1 }, s.2), [])
    else nextNode ops s)

/-- The body of the loop, once `cycles_remaining` has been spent. -/
def service : Step (LinkedList × ω) Call := fun s =>
  match s.1.phase with
  | .header => serviceHeader ops mem s
  | .setup => seq (beginNode ops) enterPayload s
  | .payload => servicePayload ops mem s
  | .idle => finishAtLimit ops s

end Service

end PsxRecomp.Dma
