import Mathlib
import PsxRecomp.Cycles.Sequences

/-! The idle-loop detector. At every interrupt check it compares the processor with the last visit
of the same program counter; a loop that repeats without stores, or with one falling counter, is
fast-forwarded by whole iterations towards the next event it could observe. -/
namespace PsxRecomp.Cycles
open Transducer
set_option autoImplicit false

-- Literals of the index type find this by name, so that a definition holds no proof of its own.
local instance neZero_thirtyTwo : NeZero 32 := ⟨by decide⟩

/-! ## The next observable event -/

/-- The announced distances under an interrupt mask. Counters count from the cycle up to which
the devices were advanced; the CD-ROM also stamps responses with the cycle they are due at, and
the sample clock of the SPU runs on the cycle count itself. -/
structure IdleView (S R : Type*) where
  iMask : R → BitVec 32
  timersCyclesToIrq : BitVec 32 → R → ℕ
  cdromReadDelay : BitVec 32 → R → ℕ
  cdromDueCycle : BitVec 32 → R → Option ℕ
  dmaCyclesToDeliverableIrq : BitVec 32 → R → ℕ
  sioCyclesToIrq : BitVec 32 → S → ℕ
  spuSampleEvents : R → Bool

def irqSpu : BitVec 32 := 1 <<< 9

section View
variable {S R ε : Type*} (D : DeviceSet S R ε) (V : IdleView S R)

def cyclesUntilDue (now : ℕ) : Option ℕ → ℕ
  | none => uint32Max
  | some due => due - now

def cdromCyclesToIrq (mask : BitVec 32) (now : ℕ) (r : R) : ℕ :=
  min (cyclesUntilDue now (V.cdromDueCycle mask r)) (V.cdromReadDelay mask r)

def spuSampleEventCyclesToNext (seen : ℕ) (r : R) : ℕ :=
  if V.spuSampleEvents r then 768 - seen % 768 else uint32Max

def nearestIdleEvent (now seen : ℕ) (d : DeviceState S R) : ℕ :=
  let mask := V.iMask d.rest
  min (interruptsCyclesToVblank D d) <|
  min (V.timersCyclesToIrq mask d.rest) <|
  min (cdromCyclesToIrq V mask now d.rest) <|
  min (V.dmaCyclesToDeliverableIrq mask d.rest) <|
  min (V.sioCyclesToIrq mask d.sio) <|
  if mask &&& irqSpu ≠ 0 then spuSampleEventCyclesToNext V seen d.rest else uint32Max

def devicesCyclesToNextIdleEvent (c : Clock S R) : ℕ :=
  let best := nearestIdleEvent D V c.cycleCount (c.cycleCount + c.pending) c.devices
  if best = 0 then 1 else best

/-- The absolute cycle of the next observable event: the distance the devices announce at the
cycle up to which they were advanced. -/
def nextIdleEventCycle (c : Clock S R) : ℕ :=
  c.devicesSyncedCycle + nearestIdleEvent D V c.devicesSyncedCycle c.devicesSyncedCycle c.devices

end View

/-! ## The detector -/

/-- What the registers did between two visits: nothing, one register fell by one, or anything. -/
inductive Progress where
  | unknown
  | stable
  | countdown (reg : Fin 32)
deriving DecidableEq

structure Registers where
  gpr : Fin 32 → BitVec 32
  hi : BitVec 32
  lo : BitVec 32

structure Detector where
  pc : BitVec 32
  quantum : ℕ
  streak : ℕ
  haveSnap : Bool
  snap : Registers
  progress : Progress
  progressDelta : BitVec 32
  lastCycle : ℕ
  lastStores : ℕ
  lastMmio : ℕ
  edges : ℕ
  iterEdges : ℕ
  storeAddr : BitVec 32
  storeVal : BitVec 32
  memProgress : Bool

/-- What a check reads besides the processor and the clock. -/
structure CheckEnv where
  checkPc : BitVec 32
  noteSuppress : Bool
  idleSkipOn : Bool
  auditedOnly : Bool
  sites : List (BitVec 32)
  inException : Bool
  callBail : Bool
  preciseMode : Bool
  lsMode : Bool
  extOn : Bool
  storeCount : ℕ
  mmioCount : ℕ
  lastStoreAddr : BitVec 32
  lastStoreVal : BitVec 32

def idleStreakMin : ℕ := 4
def idleQuantumMax : ℕ := 32768
def idleSkipMaxCycles : ℕ := 1200000
def idleEdgesMax : ℕ := 8
def noStore : BitVec 32 := 0xFFFFFFFF

variable (env : CheckEnv) (cpu : Registers)

def idleSiteListed (pc : BitVec 32) : Bool := env.sites.contains pc

def Detector.resetProgress (s : Detector) : Detector :=
  { s with streak := 0, quantum := 0, progress := .unknown, progressDelta := 0, memProgress := false }

/-- The extension applies only at an audited site: the anchor while its inner edges are counted,
else the program counter being checked. -/
def extensionOn (s : Detector) : Bool :=
  let site := if s.pc ≠ 0 ∧ env.checkPc ≠ s.pc then s.pc else env.checkPc
  env.extOn && idleSiteListed env site

/-- The one word store of the extension lies in main RAM or the scratchpad. -/
def storeTracked (addr : BitVec 32) : Bool :=
  let phys := addr &&& 0x1FFFFFFF
  addr ≠ noStore && phys &&& 3 = 0 &&
    (phys < 0x00800000 || (phys ≥ 0x1F800000 && phys < 0x1F800400))

/-- `idle_stores_ok`: the store since the last edge, `noStore` when there was none. -/
def idleStoresOk (ext : Bool) (s : Detector) : Option (BitVec 32 × BitVec 32) :=
  if env.storeCount = s.lastStores then some (noStore, 0)
  else if ext && env.storeCount = s.lastStores + 1 && storeTracked env.lastStoreAddr then
    some (env.lastStoreAddr, env.lastStoreVal)
  else none

def changedRegisters (s : Detector) : List (Fin 32) :=
  (List.finRange 32).filter fun i => i ≠ 0 && cpu.gpr i ≠ s.snap.gpr i

def progressDeltaOf (s : Detector) : BitVec 32 :=
  if cpu.hi ≠ s.snap.hi ∨ cpu.lo ≠ s.snap.lo then 0
  else
    match changedRegisters cpu s with
    | [i] => cpu.gpr i - s.snap.gpr i
    | _ => 0

def progressOf (s : Detector) : Progress :=
  if cpu.hi ≠ s.snap.hi ∨ cpu.lo ≠ s.snap.lo then .unknown
  else
    match changedRegisters cpu s with
    | [] => .stable
    | [i] => if cpu.gpr i - s.snap.gpr i = -1 then .countdown i else .unknown
    | _ => .unknown

/-- A progressing register must hold the stored counter. -/
def holdsCounter (p : Progress) (val : BitVec 32) : Bool :=
  match p with
  | .countdown i => cpu.gpr i = val
  | _ => true

/-- The store-counter test: the progress it leaves, and whether the counter word progressed. -/
def counterProgress (s : Detector) (addr val : BitVec 32) : Progress × Bool :=
  let p := progressOf cpu s
  if addr ≠ noStore then
    if addr = s.storeAddr ∧ val = s.storeVal - 1 ∧ val.toInt > 1 ∧ holdsCounter cpu p val then
      (p, true)
    else (.unknown, false)
  else if s.storeAddr ≠ noStore then (.unknown, false)
  else (p, false)

/-- The streak after one more visit: longer when the visit repeats the last one. -/
def rateVisit (now : ℕ) (s : Detector) (found : Progress × Bool) : Detector :=
  let delta := progressDeltaOf cpu s
  let quantum := (now + 2 ^ 64 - s.lastCycle) % 2 ^ 32
  if found.1 ≠ .unknown ∧ quantum > 0 ∧ quantum ≤ idleQuantumMax then
    if quantum = s.quantum ∧ found.1 = s.progress ∧ delta = s.progressDelta ∧
        found.2 = s.memProgress ∧ s.edges = s.iterEdges then
      if s.streak < 1000000 then { s with streak := s.streak + 1 } else s
    else
      { s with quantum := quantum, progress := found.1, progressDelta := delta
               memProgress := found.2, streak := 1 }
  else s.resetProgress

/-- One more visit of the loop, compared with the snapshot of the last one. -/
def compareVisit (now : ℕ) (s : Detector) (addr val : BitVec 32) : Detector :=
  { rateVisit cpu now s (counterProgress cpu s addr val) with
    storeAddr := addr, storeVal := val, iterEdges := s.edges, snap := cpu }

/-- The part of the check that trains the detector. -/
def observeVisit (now : ℕ) (ext : Bool) (s : Detector) : Detector :=
  let quietMmio : Bool := env.mmioCount = s.lastMmio
  let s' :=
    match idleStoresOk env ext s with
    | some (addr, val) =>
      if env.checkPc = s.pc ∧ quietMmio then
        if s.haveSnap then compareVisit cpu now s addr val
        else
          { s with snap := cpu, haveSnap := true, storeAddr := addr, storeVal := val
                   iterEdges := s.edges }.resetProgress
      else { s.resetProgress with pc := env.checkPc, haveSnap := false, storeAddr := noStore }
    | none => { s.resetProgress with pc := env.checkPc, haveSnap := false, storeAddr := noStore }
  { s' with edges := 0, lastCycle := now, lastStores := env.storeCount, lastMmio := env.mmioCount }

/-! ## The skip -/

/-- The most iterations a falling register or counter word leaves. -/
def registerCap (s : Detector) : Option ℕ :=
  match s.progress with
  | .countdown i => some (if (cpu.gpr i).toNat > 1 then (cpu.gpr i).toNat - 1 else 0)
  | _ => none

def counterCap (s : Detector) : Option ℕ :=
  if s.memProgress then some (if s.storeVal.toInt > 1 then s.storeVal.toNat - 1 else 0) else none

def capped (k : ℕ) : Option ℕ → ℕ
  | none => k
  | some cap => if k > cap then cap else k

section Skip
variable {S R ε : Type*} (D : DeviceSet S R ε) (V : IdleView S R) (M : Modes)

/-- The distance the skip is computed from; `none` when the lagging devices reach it already. -/
def usedDistance (s : Detector) (c : Clock S R) : Option ℕ :=
  let dist := devicesCyclesToNextIdleEvent D V c
  if s.iterEdges ≠ 0 ∨ s.memProgress then
    let lag := if c.cycleCount > c.devicesSyncedCycle then c.cycleCount - c.devicesSyncedCycle else 0
    if dist ≤ lag then none else some (dist - lag)
  else some dist

/-- Whole iterations towards an event at the given distance. -/
def iterationsTo (s : Detector) (dist : ℕ) : ℕ :=
  if s.iterEdges = 0 then ((dist + s.quantum - 1) % 2 ^ 32) / s.quantum
  else (dist - 1) / s.quantum

/-- The number of iterations to skip, when every gate lets a skip through. -/
def skipIterations (s : Detector) (c : Clock S R) : Option ℕ :=
  if s.streak < idleStreakMin then none
  else if s.iterEdges ≠ 0 ∧ s.memProgress = false then none
  else
    match usedDistance D V s c with
    | none => none
    | some dist =>
      if dist ≤ s.quantum then none
      else
        let k := capped (capped (iterationsTo s dist) (registerCap cpu s)) (counterCap s)
        if k = 0 then none
        else if k * s.quantum > idleSkipMaxCycles then none
        else some k

/-- The result of a check; `skipped` is the number of iterations it fast-forwarded. -/
structure CheckResult (S R ε : Type*) where
  detector : Detector
  cpu : Registers
  hostWrite : Option (BitVec 32 × BitVec 32)
  clock : Clock S R
  events : List (ℕ × ε)
  skipped : Option ℕ

def lowerRegister (s : Detector) (k : ℕ) : Registers :=
  match s.progress with
  | .countdown i => { cpu with gpr := Function.update cpu.gpr i (cpu.gpr i - BitVec.ofNat 32 k) }
  | _ => cpu

def loweredCounter (s : Detector) (k : ℕ) : Option (BitVec 32 × BitVec 32) :=
  if s.memProgress then some (s.storeAddr, s.storeVal - BitVec.ofNat 32 k) else none

def performSkip (s : Detector) (c : Clock S R) (k : ℕ) : CheckResult S R ε :=
  let cpu' := lowerRegister cpu s k
  let advanced := advanceCycles D M (k * s.quantum) c
  { detector :=
      { s with
        streak := 0
        snap := cpu'
        haveSnap := true
        storeAddr := if s.memProgress then s.storeAddr else noStore
        storeVal := if s.memProgress then s.storeVal - BitVec.ofNat 32 k else s.storeVal
        lastCycle := advanced.1.cycleCount
        lastStores := env.storeCount
        lastMmio := env.mmioCount }
    cpu := cpu'
    hostWrite := loweredCounter s k
    clock := advanced.1
    events := advanced.2
    skipped := some k }

def noSkip (s : Detector) (c : Clock S R) : CheckResult S R ε :=
  { detector := s, cpu := cpu, hostWrite := none, clock := c, events := [], skipped := none }

def psxIdleNoteCheck (s : Detector) (c : Clock S R) : CheckResult S R ε :=
  if M.lsReplayActive ∨ env.noteSuppress ∨ env.idleSkipOn = false then noSkip cpu s c
  else if env.auditedOnly ∧ idleSiteListed env env.checkPc = false then
    if s.pc ≠ 0 ∨ s.haveSnap ∨ s.edges ≠ 0 then
      noSkip cpu { s.resetProgress with pc := 0, haveSnap := false, edges := 0 } c
    else noSkip cpu s c
  else if env.checkPc = 0 ∨ env.inException ∨ env.callBail ∨ env.preciseMode ∨ env.lsMode then
    noSkip cpu { s with pc := 0, streak := 0, haveSnap := false, edges := 0 } c
  else
    let ext := extensionOn env s
    if ext ∧ s.pc ≠ 0 ∧ env.checkPc ≠ s.pc ∧ s.edges < idleEdgesMax ∧
        env.mmioCount = s.lastMmio then
      noSkip cpu { s with edges := s.edges + 1 } c
    else
      let seen := observeVisit env cpu c.cycleCount ext s
      match skipIterations cpu D V seen c with
      | none => noSkip cpu seen c
      | some k => performSkip env cpu D M seen c k

end Skip

end PsxRecomp.Cycles

