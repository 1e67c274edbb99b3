import Mathlib

/-! The rewind history: the list of snapshots behind the filmstrip and the calls that change it.
The ring of machine states and the checks of a capture or a load outside the list are outcomes of
a call; the panel and its animation are left out. -/
namespace PsxRecomp.Rewind
set_option autoImplicit false

/-! ## Settings -/

def rwMaxDepth : ℕ := 200
def rwDefDepth : ℕ := 50
def rwDefInterval : ℕ := 15
def rwDefFmvInterval : ℕ := 4

def apart (a b : ℕ) : ℕ := if a > b then a - b else b - a

/-- The option nearest to `v`, the earlier one of two equally near. -/
def nearest (first : ℕ) (opts : List ℕ) (v : ℕ) : ℕ :=
  (opts.foldl (fun best opt => if apart v opt < best.2 then (opt, apart v opt) else best)
    (first, apart v first)).1

def normalizeRewindDepth (v : ℕ) : ℕ := nearest 50 [100, 150, 200] v
def normalizeRewindInterval (v : ℕ) : ℕ := nearest 1 [4, 8, 12, 15] v

/-- The `PSX_REWIND*` variables as far as they are set. -/
structure Environment where
  rewind : Option Bool
  interval : Option ℕ
  fmvInterval : Option ℕ
  depth : Option ℕ

def envU32 (e : Option ℕ) (default lo hi : ℕ) : ℕ :=
  match e with
  | none => default
  | some v =>
    let v := if v < lo then lo else v
    if v > hi then hi else v

/-- An entry of `s_ticks` and the `RwThumb` of the same index. -/
structure Snap (Px : Type) where
  tick : ℕ
  thumbTick : ℕ
  px : Px

/-- The file's state: `snaps` holds the `s_count` entries in use, `alloc` is what the arrays were
allocated for. -/
structure RewindState (Px : Type) where
  enabled : Option Bool
  enabledPref : Option Bool
  depthPref : Option ℕ
  intervalPref : Option ℕ
  interval : ℕ
  fmvInterval : ℕ
  depth : ℕ
  frame : ℕ
  lastCaptureFrame : ℕ
  captureDue : Bool
  configured : Bool
  ring : Bool
  alloc : ℕ
  snaps : List (Snap Px)
  sel : ℤ
  isOpen : Bool
  loadPending : Bool
  loadTick : ℕ
  titleBlocked : Bool

variable {Px : Type}

def noFrame : ℕ := 0xFFFFFFFF

def RewindState.init : RewindState Px where
  enabled := none
  enabledPref := none
  depthPref := none
  intervalPref := none
  interval := rwDefInterval
  fmvInterval := rwDefFmvInterval
  depth := rwDefDepth
  frame := 0
  lastCaptureFrame := noFrame
  captureDue := false
  configured := false
  ring := false
  alloc := 0
  snaps := []
  sel := 0
  isOpen := false
  loadPending := false
  loadTick := 0
  titleBlocked := false

/-- `rewind_wanted`: the first call settles the preferences. -/
def rewindWanted (env : Environment) (s : RewindState Px) : RewindState Px :=
  if s.enabled.isSome then s
  else { s with
    enabled := some (env.rewind.getD (s.enabledPref.getD false))
    interval := normalizeRewindInterval
      (envU32 env.interval (s.intervalPref.getD rwDefInterval) 1 60)
    fmvInterval := envU32 env.fmvInterval rwDefFmvInterval 1 16
    depth := normalizeRewindDepth
      (envU32 env.depth (s.depthPref.getD rwDefDepth) 4 rwMaxDepth) }

def RewindState.wanted (s : RewindState Px) : Bool := s.enabled.getD false

/-- `psx_rewind_enabled`, once the preferences are settled. -/
def RewindState.armed (s : RewindState Px) : Bool := s.wanted && s.configured && s.ring

def psxRewindSetDepth (depth : ℕ) (s : RewindState Px) : RewindState Px :=
  { s with
    depthPref := some (normalizeRewindDepth depth)
    depth := if s.enabled.isSome then normalizeRewindDepth depth else s.depth }

def psxRewindSetInterval (interval : ℕ) (s : RewindState Px) : RewindState Px :=
  { s with
    intervalPref := some (normalizeRewindInterval interval)
    interval := if s.enabled.isSome then normalizeRewindInterval interval else s.interval }

def psxRewindSetEnabled (env : Environment) (enabled : Bool) (s : RewindState Px) : RewindState Px :=
  { s with
    enabledPref := some enabled
    enabled := if env.rewind.isNone && s.enabled.isSome then some enabled else s.enabled }

/-! ## The list -/

def listDropAfter (tick : ℕ) (s : RewindState Px) : RewindState Px :=
  let snaps := s.snaps.filter fun e => e.tick ≤ tick
  { s with
    snaps := snaps
    sel := if s.sel ≥ snaps.length then (if snaps.isEmpty then 0 else (snaps.length : ℤ) - 1)
      else s.sel }

def listPush (tick : ℕ) (px : Px) (s : RewindState Px) : RewindState Px :=
  match s.snaps.findIdx? (fun e => e.tick = tick) with
  | some i => { s with snaps := s.snaps.set i ⟨tick, tick, px⟩ }
  | none =>
    let kept := if s.snaps.length ≥ s.depth then s.snaps.tail else s.snaps
    { s with
      snaps := kept ++ [⟨tick, tick, px⟩]
      sel := (kept.length : ℤ) + 1 - 1 }

/-! ## Calls -/

def psxRewindShutdown (s : RewindState Px) : RewindState Px :=
  { s with
    ring := false
    alloc := 0
    snaps := []
    configured := false
    isOpen := false
    loadPending := false
    captureDue := false }

/-- `psx_rewind_configure`; `allocated` says whether the three allocations succeed. -/
def psxRewindConfigure (env : Environment) (allocated : Bool) (s : RewindState Px) : RewindState Px :=
  let s := rewindWanted env s
  if !s.wanted then s
  else
    let s := psxRewindShutdown s
    if !allocated then { s with enabled := some false }
    else { s with
      ring := true
      alloc := s.depth
      configured := true
      frame := 0
      lastCaptureFrame := noFrame
      snaps := []
      sel := 0 }

def psxRewindDiscardHistory (s : RewindState Px) : RewindState Px :=
  if !s.configured || !s.ring then s
  else { s with snaps := [], sel := 0, loadPending := false, lastCaptureFrame := noFrame }

def rewindCaptureInterval (fmv : Bool) (s : RewindState Px) : ℕ :=
  if !fmv then s.interval else if s.interval < s.fmvInterval then s.interval else s.fmvInterval

def psxRewindNoteFrame (env : Environment) (netplay fmv : Bool) (s : RewindState Px) : RewindState Px :=
  let s := rewindWanted env s
  if !s.armed || s.isOpen || netplay || s.titleBlocked then s
  else
    let frame := (s.frame + 1) % 2 ^ 32
    { s with
      frame := frame
      captureDue := s.captureDue || (s.lastCaptureFrame = noFrame ||
        rewindCaptureInterval fmv s ≤ (frame + 2 ^ 32 - s.lastCaptureFrame) % 2 ^ 32) }

/-- What the machine and the ring answer to a poll: whether a snapshot may be taken or loaded at
all, whether the resume address is safe, whether the capture or the load succeeds, and the
picture. -/
structure PollOutcome (Px : Type) where
  ready : Bool
  safe : Bool
  netplay : Bool
  captured : Bool
  loaded : Bool
  px : Px

/-- `do_capture` -/
def doCapture (o : PollOutcome Px) (s : RewindState Px) : RewindState Px :=
  if !o.captured then s
  else
    let s := listPush s.frame o.px s
    { s with lastCaptureFrame := s.frame, captureDue := false }

/-- `do_load` -/
def doLoad (o : PollOutcome Px) (tick : ℕ) (s : RewindState Px) : RewindState Px :=
  if !o.loaded then s
  else { listDropAfter tick s with frame := tick, lastCaptureFrame := tick }

/-- A poll captures. -/
def RewindState.captures (o : PollOutcome Px) (s : RewindState Px) : Bool :=
  s.armed && o.ready && !s.loadPending &&
    (s.captureDue && !s.isOpen && !o.netplay && !s.titleBlocked) && o.captured

def psxRewindPoll (env : Environment) (o : PollOutcome Px) (s : RewindState Px) : RewindState Px :=
  let s := rewindWanted env s
  if !s.armed then s
  else if !o.ready then s
  else if s.loadPending then
    if !o.safe then s
    else doLoad o s.loadTick { s with loadPending := false, isOpen := false }
  else if s.captureDue && !s.isOpen && !o.netplay && !s.titleBlocked then doCapture o s
  else s

def psxRewindToggle (env : Environment) (netplay : Bool) (s : RewindState Px) : RewindState Px :=
  let s := rewindWanted env s
  if !s.armed then s
  else if netplay then s
  else if s.titleBlocked && !s.isOpen then s
  else if s.isOpen then { s with isOpen := false }
  else { s with
    isOpen := true
    sel := if s.snaps.isEmpty then s.sel else (s.snaps.length : ℤ) - 1 }

def psxRewindCancel (s : RewindState Px) : RewindState Px := if !s.isOpen then s else { s with isOpen := false }

def psxRewindSetTitleBlocked (blocked : Bool) (s : RewindState Px) : RewindState Px :=
  let s := { s with titleBlocked := blocked }
  if !blocked then s else psxRewindCancel { s with captureDue := false }

def psxRewindAccept (s : RewindState Px) : RewindState Px :=
  if !s.isOpen || s.snaps.isEmpty then s
  else match s.snaps[s.sel.toNat]? with
    | none => s
    | some e => { s with loadTick := e.tick, loadPending := true, isOpen := false }

def psxRewindMove (delta : ℤ) (s : RewindState Px) : RewindState Px :=
  if !s.isOpen || s.snaps.isEmpty || delta = 0 then s
  else
    let sel := s.sel + delta
    let sel := if sel < 0 then 0 else sel
    { s with sel := if sel ≥ s.snaps.length then (s.snaps.length : ℤ) - 1 else sel }

inductive RewindOp (Px : Type)
  | setDepth (depth : ℕ)
  | setInterval (interval : ℕ)
  | setEnabled (enabled : Bool)
  | configure (allocated : Bool)
  | shutdown
  | discard
  | noteFrame (netplay fmv : Bool)
  | poll (outcome : PollOutcome Px)
  | toggle (netplay : Bool)
  | cancel
  | setTitleBlocked (blocked : Bool)
  | accept
  | move (delta : ℤ)

def RewindOp.apply (env : Environment) (s : RewindState Px) : RewindOp Px → RewindState Px
  | .setDepth depth => psxRewindSetDepth depth s
  | .setInterval interval => psxRewindSetInterval interval s
  | .setEnabled enabled => psxRewindSetEnabled env enabled s
  | .configure allocated => psxRewindConfigure env allocated s
  | .shutdown => psxRewindShutdown s
  | .discard => psxRewindDiscardHistory s
  | .noteFrame netplay fmv => psxRewindNoteFrame env netplay fmv s
  | .poll outcome => psxRewindPoll env outcome s
  | .toggle netplay => psxRewindToggle env netplay s
  | .cancel => psxRewindCancel s
  | .setTitleBlocked blocked => psxRewindSetTitleBlocked blocked s
  | .accept => psxRewindAccept s
  | .move delta => psxRewindMove delta s

end PsxRecomp.Rewind
