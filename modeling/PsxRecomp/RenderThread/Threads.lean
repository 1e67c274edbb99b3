import PsxRecomp.RenderThread.Ring

/-! The two threads of the render thread core, one access to what they share at a time: the emulation thread in the calls
of `render_thread.h`, and the loop of the render thread. -/
namespace PsxRecomp.RenderThread
open Wire
set_option autoImplicit false

/-- The ring of a running core is a power of two of at least 1 MiB. -/
structure Config where
  bits : ℕ
  ring : 20 ≤ bits ∧ bits ≤ 32
  maxFrames : ℕ
  inFlight : 1 ≤ maxFrames

def Config.cap (cfg : Config) : ℕ := 2 ^ cfg.bits

def wakeBytes : ℕ := 128 * 1024
def wakeRecords : ℕ := 256

inductive Thread where
  | emu
  | render
  deriving DecidableEq

/-! ## Where the threads are -/

/-- What `emu_wait` waits for. -/
inductive Pred where
  | space (needEnd : ℕ)
  | drained (w : ℕ)
  | frames (limit : ℕ)
  | released

/-- What the emulation thread goes on with behind `emu_wait`. -/
inductive After where
  | writeCmd (op flags : BitVec 16) (payload : BitVec 32)
  | writeMarker
  | frameEnded
  | drained
  | request
  | take

/-- What the emulation thread goes on with behind `wake_render`. -/
inductive AfterWake where
  | wait (p : Pred) (k : After)
  | committed
  | frameMarked

inductive EmuPc where
  | idle
  -- `rt_cmd_begin`, `commit_marker` and `rt_frame_end` look before they call `emu_wait`
  | check (p : Pred) (k : After)
  -- `emu_wait`
  | enter (p : Pred) (k : After)
  | lock (p : Pred) (k : After)
  | raise (p : Pred) (k : After)
  | test (p : Pred) (k : After)
  | cndWait (p : Pred) (k : After)
  | asleep (p : Pred) (k : After)
  | relock (p : Pred) (k : After)
  | lower (k : After)
  | unlock (k : After)
  -- `wake_render`
  | wake (k : AfterWake)
  | wakeLock (k : AfterWake)
  | wakeBroadcast (k : AfterWake)
  | wakeUnlock (k : AfterWake)
  -- `rt_cmd_begin` and `commit_marker` with the space they need
  | writeCmd (op flags : BitVec 16) (payload : BitVec 32)
  | writeMarker
  | publishMarker
  -- `rt_frame_end` while the context is held
  | countHeld
  -- `rt_acquire`
  | requestLock
  | request
  | requestBroadcast
  | requestUnlock
  | take
  | hold
  -- `rt_release`
  | giveLock
  | give
  | giveBroadcast
  | giveUnlock
  | given

inductive RenderPc where
  | start
  | top
  | spin
  | lock
  | raise
  | test
  | cndWait
  | asleep
  | relock
  | lower
  | decide
  -- `serve_release_locked`
  | serveUnlock
  | serveContext
  | serveLock
  | serveReleased
  | serveBroadcast
  | park
  | parkCndWait
  | parkAsleep
  | parkRelock
  | unpark
  | unparkUnlock
  | takeContext
  | takeLock
  | unlock
  -- a record
  | fetch
  | exec (c : RtCmd)
  | marker (c : RtCmd)
  | advance (size : ℕ)
  -- `wake_emu`
  | wake
  | wakeLock
  | wakeBroadcast
  | wakeUnlock

structure State where
  mem : Memory
  wpos : ℕ
  rpos : ℕ
  framesProduced : ℕ
  framesConsumed : ℕ
  renderSleeping : Bool
  emuSleeping : Bool
  releaseReq : Bool
  released : Bool
  mutex : Option Thread
  emu : EmuPc
  render : RenderPc
  -- the emulation thread's own
  pending : Bool
  pendStart : ℕ
  pend : RtCmd
  unwokenBytes : ℕ
  unwokenRecords : ℕ
  seq : BitVec 32
  held : Bool
  -- whose context is current
  emuContext : Bool
  renderContext : Bool
  -- the records committed, with the bytes that were in the ring then, and the calls of `exec`
  committed : List (RtCmd × Bytes)
  executed : List (RtCmd × Bytes)

/-- Behind `rt_start`. -/
def State.init (mem : Memory) : State :=
  ⟨mem, 0, 0, 0, 0, false, false, false, false, none, .idle, .start, false, 0, ⟨0, 0, 0, 0, 0⟩, 0, 0, 0, false, false, false,
    [], []⟩

/-! ## Shared steps -/

def Pred.holds (cfg : Config) (s : State) : Pred → Bool
  | space needEnd => needEnd - s.rpos ≤ cfg.cap
  | drained w => s.rpos = w
  | frames limit => s.framesProduced - s.framesConsumed ≤ limit
  | released => s.released

theorem Pred.holds_congr {cfg : Config} {s s' : State} {p : Pred} (h1 : s'.rpos = s.rpos)
    (h2 : s'.framesProduced = s.framesProduced) (h3 : s'.framesConsumed = s.framesConsumed)
    (h4 : s'.released = s.released) : p.holds cfg s' = p.holds cfg s := by
  cases p <;> simp only [holds, h1, h2, h3, h4]

/-- `cnd_bcast(&R.cv_work)` -/
def RenderPc.woken : RenderPc → RenderPc
  | asleep => relock
  | parkAsleep => parkRelock
  | pc => pc

/-- `cnd_bcast(&R.cv_emu)` -/
def EmuPc.woken : EmuPc → EmuPc
  | asleep p k => relock p k
  | pc => pc

def After.resume : After → EmuPc
  | writeCmd op flags payload => .writeCmd op flags payload
  | writeMarker => .writeMarker
  | frameEnded => .idle
  | drained => .idle
  | request => .requestLock
  | take => .take

def AfterWake.resume (cfg : Config) : AfterWake → EmuPc
  | wait p k => .lock p k
  | committed => .idle
  | frameMarked => .check (.frames cfg.maxFrames) .frameEnded

def AfterWake.force : AfterWake → Bool
  | committed => false
  | _ => true

/-- `wake_render` leaves a thread that may be asleep alone until enough is queued. -/
def State.batched (s : State) (k : AfterWake) : Bool :=
  !k.force && s.unwokenBytes < wakeBytes && s.unwokenRecords < wakeRecords

/-- Filler in front of a record of some size that would not fit before the end of the ring. -/
def padFor (cap w size : ℕ) : ℕ := if cap < w % cap + size then cap - w % cap else 0

def recordSize (payload : BitVec 32) : ℕ := alignUp (16 + payload.toNat)

/-- `rt_cmd_begin` with its space: the filler, the header of the record, and the record is pending. -/
def State.begun (cfg : Config) (s : State) (op flags : BitVec 16) (payload : BitVec 32) : State :=
  let size := recordSize payload
  let pad := padFor cfg.cap s.wpos size
  let c : RtCmd := ⟨BitVec.ofNat 32 size, op, flags, payload, s.seq⟩
  let mem := if pad = 0 then s.mem
    else store s.mem (s.wpos % cfg.cap) (RtCmd.emit ⟨BitVec.ofNat 32 pad, 0, 0, 0, 0⟩)
  { s with
    mem := store mem ((s.wpos + pad) % cfg.cap) c.emit
    pend := c
    pendStart := s.wpos + pad
    pending := true
    seq := s.seq + 1
    emu := .idle }

/-- `rt_cmd_commit` up to its `wake_render`. -/
def State.committing (cfg : Config) (s : State) : State :=
  { s with
    pending := false
    wpos := s.pendStart + s.pend.size.toNat
    committed := s.committed ++ [(s.pend, load s.mem (s.pendStart % cfg.cap + 16) s.pend.payload.toNat)]
    unwokenBytes := s.unwokenBytes + s.pend.size.toNat
    unwokenRecords := s.unwokenRecords + 1
    emu := .wake .committed }

/-! ## The emulation thread -/

inductive EmuStep (cfg : Config) (s : State) : State → Prop where
  -- the calls; a pair of begin and commit is not made while the context is held, and holds no frame end
  | begin (op flags : BitVec 16) (payload : BitVec 32) : s.emu = .idle → s.pending = false → s.held = false → op ≠ 0 →
      recordSize payload ≤ cfg.cap / 2 →
      EmuStep cfg s { s with
        emu := .check (.space (s.wpos + padFor cfg.cap s.wpos (recordSize payload) + recordSize payload))
          (.writeCmd op flags payload) }
  | fill (i : ℕ) (b : BitVec 8) : s.emu = .idle → s.pending = true → i < s.pend.payload.toNat →
      EmuStep cfg s { s with mem := store s.mem (s.pendStart % cfg.cap + 16 + i) [b] }
  | commit : s.emu = .idle → s.pending = true → s.held = false → EmuStep cfg s (s.committing cfg)
  | frameEnd : s.emu = .idle → s.pending = false → s.held = false →
      EmuStep cfg s { s with
        framesProduced := s.framesProduced + 1
        emu := .check (.space (s.wpos + 16)) .writeMarker }
  | frameEndHeld : s.emu = .idle → s.pending = false → s.held = true →
      EmuStep cfg s { s with framesProduced := s.framesProduced + 1, emu := .countHeld }
  | drain : s.emu = .idle → s.held = false → EmuStep cfg s { s with emu := .enter (.drained s.wpos) .drained }
  | acquire : s.emu = .idle → s.held = false → EmuStep cfg s { s with emu := .enter (.drained s.wpos) .request }
  | release : s.emu = .idle → s.held = true → EmuStep cfg s { s with emuContext := false, emu := .giveLock }
  -- looks
  | checkTrue (p : Pred) (k : After) : s.emu = .check p k → p.holds cfg s = true →
      EmuStep cfg s { s with emu := k.resume }
  | checkFalse (p : Pred) (k : After) : s.emu = .check p k → p.holds cfg s = false →
      EmuStep cfg s { s with emu := .enter p k }
  | enterTrue (p : Pred) (k : After) : s.emu = .enter p k → p.holds cfg s = true →
      EmuStep cfg s { s with emu := k.resume }
  | enterFalse (p : Pred) (k : After) : s.emu = .enter p k → p.holds cfg s = false →
      EmuStep cfg s { s with emu := .wake (.wait p k) }
  -- `wake_render`
  | wakeBatched (k : AfterWake) : s.emu = .wake k → s.batched k = true →
      EmuStep cfg s { s with emu := k.resume cfg }
  | wakeAwake (k : AfterWake) : s.emu = .wake k → s.batched k = false → s.renderSleeping = false →
      EmuStep cfg s { s with unwokenBytes := 0, unwokenRecords := 0, emu := k.resume cfg }
  | wakeSleeping (k : AfterWake) : s.emu = .wake k → s.batched k = false → s.renderSleeping = true →
      EmuStep cfg s { s with unwokenBytes := 0, unwokenRecords := 0, emu := .wakeLock k }
  | wakeLock (k : AfterWake) : s.emu = .wakeLock k → s.mutex = none →
      EmuStep cfg s { s with mutex := some .emu, emu := .wakeBroadcast k }
  | wakeBroadcast (k : AfterWake) : s.emu = .wakeBroadcast k →
      EmuStep cfg s { s with render := s.render.woken, emu := .wakeUnlock k }
  | wakeUnlock (k : AfterWake) : s.emu = .wakeUnlock k →
      EmuStep cfg s { s with mutex := none, emu := k.resume cfg }
  -- `emu_wait`
  | lock (p : Pred) (k : After) : s.emu = .lock p k → s.mutex = none →
      EmuStep cfg s { s with mutex := some .emu, emu := .raise p k }
  | raise (p : Pred) (k : After) : s.emu = .raise p k →
      EmuStep cfg s { s with emuSleeping := true, emu := .test p k }
  | testTrue (p : Pred) (k : After) : s.emu = .test p k → p.holds cfg s = true →
      EmuStep cfg s { s with emu := .lower k }
  | testFalse (p : Pred) (k : After) : s.emu = .test p k → p.holds cfg s = false →
      EmuStep cfg s { s with emu := .cndWait p k }
  -- `cnd_wait` gives the lock back and falls asleep in one step; the look was before
  | cndWait (p : Pred) (k : After) : s.emu = .cndWait p k → EmuStep cfg s { s with mutex := none, emu := .asleep p k }
  | stir (p : Pred) (k : After) : s.emu = .asleep p k → EmuStep cfg s { s with emu := .relock p k }
  | relock (p : Pred) (k : After) : s.emu = .relock p k → s.mutex = none →
      EmuStep cfg s { s with mutex := some .emu, emu := .test p k }
  | lower (k : After) : s.emu = .lower k → EmuStep cfg s { s with emuSleeping := false, emu := .unlock k }
  | unlock (k : After) : s.emu = .unlock k → EmuStep cfg s { s with mutex := none, emu := k.resume }
  -- records
  | writeCmd (op flags : BitVec 16) (payload : BitVec 32) : s.emu = .writeCmd op flags payload →
      EmuStep cfg s (s.begun cfg op flags payload)
  | writeMarker : s.emu = .writeMarker →
      EmuStep cfg s { s with
        mem := store s.mem (s.wpos % cfg.cap) (Item.frame s.seq).header.emit
        seq := s.seq + 1
        emu := .publishMarker }
  | publishMarker : s.emu = .publishMarker →
      EmuStep cfg s { s with wpos := s.wpos + 16, emu := .wake .frameMarked }
  | countHeld : s.emu = .countHeld →
      EmuStep cfg s { s with framesConsumed := s.framesConsumed + 1, emu := .idle }
  -- `rt_acquire` behind its drain
  | requestLock : s.emu = .requestLock → s.mutex = none →
      EmuStep cfg s { s with mutex := some .emu, emu := .request }
  | request : s.emu = .request → EmuStep cfg s { s with releaseReq := true, emu := .requestBroadcast }
  | requestBroadcast : s.emu = .requestBroadcast →
      EmuStep cfg s { s with render := s.render.woken, emu := .requestUnlock }
  | requestUnlock : s.emu = .requestUnlock → EmuStep cfg s { s with mutex := none, emu := .enter .released .take }
  | take : s.emu = .take → EmuStep cfg s { s with emuContext := true, emu := .hold }
  | hold : s.emu = .hold → EmuStep cfg s { s with held := true, emu := .idle }
  -- `rt_release`
  | giveLock : s.emu = .giveLock → s.mutex = none → EmuStep cfg s { s with mutex := some .emu, emu := .give }
  | give : s.emu = .give → EmuStep cfg s { s with releaseReq := false, emu := .giveBroadcast }
  | giveBroadcast : s.emu = .giveBroadcast →
      EmuStep cfg s { s with render := s.render.woken, emu := .giveUnlock }
  | giveUnlock : s.emu = .giveUnlock → EmuStep cfg s { s with mutex := none, emu := .given }
  | given : s.emu = .given → EmuStep cfg s { s with held := false, emu := .idle }

/-! ## The render thread -/

inductive RenderStep (cfg : Config) (s : State) : State → Prop where
  | start : s.render = .start → RenderStep cfg s { s with renderContext := true, render := .top }
  | topWork : s.render = .top → s.wpos ≠ s.rpos → RenderStep cfg s { s with render := .fetch }
  | topEmpty : s.render = .top → s.wpos = s.rpos → RenderStep cfg s { s with render := .spin }
  | spinWork : s.render = .spin → s.wpos ≠ s.rpos → RenderStep cfg s { s with render := .top }
  | spinEmpty : s.render = .spin → s.wpos = s.rpos → RenderStep cfg s { s with render := .lock }
  | lock : s.render = .lock → s.mutex = none →
      RenderStep cfg s { s with mutex := some .render, render := .raise }
  | raise : s.render = .raise → RenderStep cfg s { s with renderSleeping := true, render := .test }
  | testEmpty : s.render = .test → s.wpos = s.rpos → s.releaseReq = false →
      RenderStep cfg s { s with render := .cndWait }
  -- work, a request, or the deadline of a tick
  | testLeave : s.render = .test → RenderStep cfg s { s with render := .lower }
  | cndWait : s.render = .cndWait → RenderStep cfg s { s with mutex := none, render := .asleep }
  | stir : s.render = .asleep → RenderStep cfg s { s with render := .relock }
  | relock : s.render = .relock → s.mutex = none →
      RenderStep cfg s { s with mutex := some .render, render := .test }
  | lower : s.render = .lower → RenderStep cfg s { s with renderSleeping := false, render := .decide }
  | decideServe : s.render = .decide → s.releaseReq = true → s.wpos = s.rpos →
      RenderStep cfg s { s with render := .serveUnlock }
  | decideLeave : s.render = .decide → s.releaseReq = false ∨ s.wpos ≠ s.rpos →
      RenderStep cfg s { s with render := .unlock }
  | serveUnlock : s.render = .serveUnlock → RenderStep cfg s { s with mutex := none, render := .serveContext }
  | serveContext : s.render = .serveContext →
      RenderStep cfg s { s with renderContext := false, render := .serveLock }
  | serveLock : s.render = .serveLock → s.mutex = none →
      RenderStep cfg s { s with mutex := some .render, render := .serveReleased }
  | serveReleased : s.render = .serveReleased →
      RenderStep cfg s { s with released := true, render := .serveBroadcast }
  | serveBroadcast : s.render = .serveBroadcast →
      RenderStep cfg s { s with emu := s.emu.woken, render := .park }
  | parkRequested : s.render = .park → s.releaseReq = true → RenderStep cfg s { s with render := .parkCndWait }
  | parkLeave : s.render = .park → s.releaseReq = false → RenderStep cfg s { s with render := .unpark }
  | parkCndWait : s.render = .parkCndWait → RenderStep cfg s { s with mutex := none, render := .parkAsleep }
  | parkStir : s.render = .parkAsleep → RenderStep cfg s { s with render := .parkRelock }
  | parkRelock : s.render = .parkRelock → s.mutex = none →
      RenderStep cfg s { s with mutex := some .render, render := .park }
  | unpark : s.render = .unpark → RenderStep cfg s { s with released := false, render := .unparkUnlock }
  | unparkUnlock : s.render = .unparkUnlock → RenderStep cfg s { s with mutex := none, render := .takeContext }
  | takeContext : s.render = .takeContext →
      RenderStep cfg s { s with renderContext := true, render := .takeLock }
  | takeLock : s.render = .takeLock → s.mutex = none →
      RenderStep cfg s { s with mutex := some .render, render := .unlock }
  | unlock : s.render = .unlock → RenderStep cfg s { s with mutex := none, render := .top }
  -- a record
  | fetchCmd (c : RtCmd) : s.render = .fetch → c = RtCmd.read s.mem (s.rpos % cfg.cap) → c.op ≠ 0 →
      RenderStep cfg s { s with render := .exec c }
  | fetchMarker (c : RtCmd) : s.render = .fetch → c = RtCmd.read s.mem (s.rpos % cfg.cap) → c.op = 0 →
      c.flags &&& 0x8000 ≠ 0 → RenderStep cfg s { s with render := .marker c }
  | fetchPad (c : RtCmd) : s.render = .fetch → c = RtCmd.read s.mem (s.rpos % cfg.cap) → c.op = 0 →
      c.flags &&& 0x8000 = 0 → RenderStep cfg s { s with render := .advance c.size.toNat }
  | exec (c : RtCmd) : s.render = .exec c →
      RenderStep cfg s { s with
        executed := s.executed ++ [(c, load s.mem (s.rpos % cfg.cap + 16) c.payload.toNat)]
        render := .advance c.size.toNat }
  | marker (c : RtCmd) : s.render = .marker c →
      RenderStep cfg s { s with framesConsumed := s.framesConsumed + 1, render := .advance c.size.toNat }
  | advance (size : ℕ) : s.render = .advance size →
      RenderStep cfg s { s with rpos := s.rpos + size, render := .wake }
  -- `wake_emu`
  | wakeAwake : s.render = .wake → s.emuSleeping = false → RenderStep cfg s { s with render := .top }
  | wakeSleeping : s.render = .wake → s.emuSleeping = true → RenderStep cfg s { s with render := .wakeLock }
  | wakeLock : s.render = .wakeLock → s.mutex = none →
      RenderStep cfg s { s with mutex := some .render, render := .wakeBroadcast }
  | wakeBroadcast : s.render = .wakeBroadcast →
      RenderStep cfg s { s with emu := s.emu.woken, render := .wakeUnlock }
  | wakeUnlock : s.render = .wakeUnlock → RenderStep cfg s { s with mutex := none, render := .top }

/-- The states that some interleaving of the two threads leads to. -/
inductive Reachable (cfg : Config) : State → Prop where
  | init (mem : Memory) : Reachable cfg (.init mem)
  | emu {s s' : State} : Reachable cfg s → EmuStep cfg s s' → Reachable cfg s'
  | render {s s' : State} : Reachable cfg s → RenderStep cfg s s' → Reachable cfg s'

end PsxRecomp.RenderThread
