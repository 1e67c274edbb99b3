import PsxRecomp.RenderThread.Threads

/-! Who holds the lock and the context, and who may sleep: what each shared flag says about where its writer is. -/
namespace PsxRecomp.RenderThread
set_option autoImplicit false

/-! ## Places -/

/-- The wait of `rt_acquire` for the context. -/
def After.takes : After → Bool
  | .take => true
  | _ => false

namespace EmuPc

def locks : EmuPc → Bool
  | raise _ _ | test _ _ | cndWait _ _ | lower _ | unlock _ | wakeBroadcast _ | wakeUnlock _ | request | requestBroadcast
  | requestUnlock | give | giveBroadcast | giveUnlock => true
  | _ => false

def sleeps : EmuPc → Bool
  | test _ _ | cndWait _ _ | asleep _ _ | relock _ _ | lower _ => true
  | _ => false

/-- What the emulation thread goes on with when its wait is over. -/
def after : EmuPc → Option After
  | check _ k | enter _ k | lock _ k | raise _ k | test _ k | cndWait _ k | asleep _ k | relock _ k | lower k | unlock k
  | wake (.wait _ k) | wakeLock (.wait _ k) | wakeBroadcast (.wait _ k) | wakeUnlock (.wait _ k) => some k
  | EmuPc.take => some .take
  | _ => none

/-- `release_req`, as its only writer has left it. -/
def requests (held : Bool) : EmuPc → Bool
  | requestBroadcast | requestUnlock | hold => true
  | giveBroadcast | giveUnlock | given => false
  | pc => held || (pc.after.any After.takes)

/-- The emulation thread has been given the context and has not asked for it to be taken back. -/
def owns (held : Bool) : EmuPc → Bool
  | lower .take | unlock .take | EmuPc.take | hold => true
  | giveBroadcast | giveUnlock | given => false
  | _ => held

def context (held : Bool) : EmuPc → Bool
  | hold => true
  | giveLock | give | giveBroadcast | giveUnlock | given => false
  | _ => held

/-- Behind the wake-up of `emu_wait`. -/
def quiet : EmuPc → Bool
  | lock _ _ | raise _ _ | test _ _ | cndWait _ _ | asleep _ _ | relock _ _ => true
  | _ => false

/-- What the emulation thread waits for, and what it goes on with then. -/
def waiting : EmuPc → Option (Pred × After)
  | check p k | enter p k | lock p k | raise p k | test p k | cndWait p k | asleep p k | relock p k
  | wake (.wait p k) | wakeLock (.wait p k) | wakeBroadcast (.wait p k) | wakeUnlock (.wait p k) => some (p, k)
  | _ => none

/-- What a look in `emu_wait` has missed, until the thread is woken. -/
def dozing : EmuPc → Option (Pred × After)
  | cndWait p k | asleep p k => some (p, k)
  | _ => none

/-- The places where the context can be held. -/
def mayHold : EmuPc → Bool
  | idle | countHeld | giveLock | give | giveBroadcast | giveUnlock | given => true
  | _ => false

end EmuPc

namespace RenderPc

def locks : RenderPc → Bool
  | raise | test | cndWait | lower | RenderPc.decide | serveUnlock | serveReleased | serveBroadcast | park | parkCndWait | unpark | unparkUnlock
  | unlock | wakeBroadcast | wakeUnlock => true
  | _ => false

def sleeps : RenderPc → Bool
  | test | cndWait | asleep | relock | lower => true
  | _ => false

def parked : RenderPc → Bool
  | serveBroadcast | park | parkCndWait | parkAsleep | parkRelock => true
  | _ => false

/-- Between a look of `render_main` that finds nothing and the wake-up. -/
def dozes : RenderPc → Bool
  | cndWait | asleep => true
  | _ => false

/-- `released`, as its only writer has left it. -/
def releases (pc : RenderPc) : Bool := pc.parked || pc matches unpark

def context : RenderPc → Bool
  | start | serveLock | serveReleased | unpark | unparkUnlock | takeContext => false
  | pc => !pc.parked

/-- On the way to `wake_emu` or its like. -/
def comes : RenderPc → Bool
  | advance _ | wake | wakeLock | wakeBroadcast | serveBroadcast => true
  | _ => false

end RenderPc

/-! ## Flags -/

/-- Each flag as its writer has left it, and the lock with the thread that is behind it. -/
structure Flags (s : State) : Prop where
  mutexEmu : s.mutex = some .emu ↔ s.emu.locks = true
  mutexRender : s.mutex = some .render ↔ s.render.locks = true
  emuSleeping : s.emuSleeping = s.emu.sleeps
  renderSleeping : s.renderSleeping = s.render.sleeps
  releaseReq : s.releaseReq = s.emu.requests s.held
  released : s.released = s.render.releases
  emuContext : s.emuContext = s.emu.context s.held
  renderContext : s.renderContext = s.render.context
  held : s.held = true → s.emu.mayHold = true

section Woken

@[simp] theorem EmuPc.woken_locks (pc : EmuPc) : pc.woken.locks = pc.locks := by cases pc <;> rfl
@[simp] theorem EmuPc.woken_sleeps (pc : EmuPc) : pc.woken.sleeps = pc.sleeps := by cases pc <;> rfl
@[simp] theorem EmuPc.woken_mayHold (pc : EmuPc) : pc.woken.mayHold = pc.mayHold := by cases pc <;> rfl
@[simp] theorem EmuPc.woken_requests (pc : EmuPc) (held : Bool) : pc.woken.requests held = pc.requests held := by
  cases pc <;> rfl
@[simp] theorem EmuPc.woken_owns (pc : EmuPc) (held : Bool) : pc.woken.owns held = pc.owns held := by
  cases pc <;> rfl
@[simp] theorem EmuPc.woken_context (pc : EmuPc) (held : Bool) : pc.woken.context held = pc.context held := by
  cases pc <;> rfl
@[simp] theorem RenderPc.woken_locks (pc : RenderPc) : pc.woken.locks = pc.locks := by cases pc <;> rfl
@[simp] theorem RenderPc.woken_sleeps (pc : RenderPc) : pc.woken.sleeps = pc.sleeps := by cases pc <;> rfl
@[simp] theorem RenderPc.woken_parked (pc : RenderPc) : pc.woken.parked = pc.parked := by cases pc <;> rfl
@[simp] theorem RenderPc.woken_releases (pc : RenderPc) : pc.woken.releases = pc.releases := by cases pc <;> rfl
@[simp] theorem RenderPc.woken_context (pc : RenderPc) : pc.woken.context = pc.context := by cases pc <;> rfl

end Woken

section Mutex
variable {m : Option Thread} {t u : Thread} {b : Bool}

theorem mutex_taken (h : m = some t ↔ b = true) (hm : m = none) (hne : u ≠ t) : some u = some t ↔ b = true := by
  subst hm
  simp_all

theorem mutex_left (h : m = some t ↔ b = true) (hm : m = some u) (hne : u ≠ t) : none = some t ↔ b = true := by
  subst hm
  simp_all

end Mutex

theorem Flags.render {cfg : Config} {s s' : State} (h : Flags s) (hs : RenderStep cfg s s') : Flags s' := by
  obtain ⟨h1, h2, h3, h4, h5, h6, h7, h8, h9⟩ := h
  cases hs
  case serveBroadcast hpc | wakeBroadcast hpc =>
    rw [hpc] at h2 h4 h6 h8
    constructor <;> simp only [EmuPc.woken_locks, EmuPc.woken_sleeps, EmuPc.woken_requests, EmuPc.woken_context,
      EmuPc.woken_mayHold] <;> assumption
  all_goals
    rw [‹s.render = _›] at h2 h4 h6 h8
    refine ⟨?_, ?_, h3, ?_, h5, ?_, h7, ?_, h9⟩
    · first
      | exact h1
      | exact mutex_taken h1 ‹s.mutex = none› Thread.noConfusion
      | exact mutex_left h1 (h2.2 rfl) Thread.noConfusion
    · first
      | exact h2
      | exact iff_of_true rfl rfl
      | exact iff_of_false (Option.some_ne_none _).symm Bool.noConfusion
    · first | exact h4 | rfl
    · first | exact h6 | rfl
    · first | exact h8 | rfl

theorem Flags.emu {cfg : Config} {s s' : State} (h : Flags s) (hs : EmuStep cfg s s') : Flags s' := by
  obtain ⟨h1, h2, h3, h4, h5, h6, h7, h8, h9⟩ := h
  cases hs
  case fill => exact ⟨h1, h2, h3, h4, h5, h6, h7, h8, h9⟩
  case checkTrue p k hpc _ | enterTrue p k hpc _ | unlock k hpc =>
    rw [hpc] at h1 h3 h5 h7 h9
    cases k
    all_goals
      refine ⟨?_, ?_, h3, h4, h5, h6, h7, h8, ?_⟩
      · first
        | exact h1
        | exact iff_of_false (Option.some_ne_none _).symm Bool.noConfusion
      · first
        | exact h2
        | exact mutex_left h2 (h1.2 rfl) Thread.noConfusion
      · first
        | exact h9
        | exact fun _ => rfl
  case wakeBatched k hpc _ | wakeAwake k hpc _ _ | wakeSleeping k hpc _ _ | wakeLock k hpc _ | wakeUnlock k hpc =>
    rw [hpc] at h1 h3 h5 h7 h9
    cases k
    all_goals
      refine ⟨?_, ?_, h3, h4, h5, h6, h7, h8, ?_⟩
      · first
        | exact h1
        | exact iff_of_true rfl rfl
        | exact iff_of_false (Option.some_ne_none _).symm Bool.noConfusion
      · first
        | exact h2
        | exact mutex_taken h2 ‹s.mutex = none› Thread.noConfusion
        | exact mutex_left h2 (h1.2 rfl) Thread.noConfusion
      · first
        | exact h9
        | exact fun _ => rfl
  case wakeBroadcast k hpc =>
    rw [hpc] at h1 h3 h5 h7 h9
    cases k
    all_goals
      constructor <;> simp only [RenderPc.woken_locks, RenderPc.woken_sleeps, RenderPc.woken_releases,
        RenderPc.woken_context] <;> assumption
  case requestBroadcast hpc | giveBroadcast hpc =>
    rw [hpc] at h1 h3 h5 h7 h9
    constructor <;> simp only [RenderPc.woken_locks, RenderPc.woken_sleeps, RenderPc.woken_releases,
      RenderPc.woken_context] <;> assumption
  all_goals
    rw [‹s.emu = _›] at h1 h3 h5 h7 h9
    refine ⟨?_, ?_, ?_, h4, ?_, h6, ?_, h8, ?_⟩
    · first
      | exact h1
      | exact iff_of_true rfl rfl
      | exact iff_of_false (Option.some_ne_none _).symm Bool.noConfusion
    · first
      | exact h2
      | exact mutex_taken h2 ‹s.mutex = none› Thread.noConfusion
      | exact mutex_left h2 (h1.2 rfl) Thread.noConfusion
    · first | exact h3 | rfl
    · first | exact h5 | rfl | exact h5.trans (Bool.or_true _) | exact h5.trans (Bool.or_true _).symm
    · first | exact h7 | rfl
    · first
      | exact h9
      | exact fun _ => rfl
      | exact fun hh => Bool.noConfusion (h9 hh)
      | exact fun hh => Bool.noConfusion (‹s.held = false›.symm.trans hh)

/-! ## The hand-over -/

/-- The context is waited for where it is taken. -/
def Matched (pc : EmuPc) : Prop := ∀ p k, pc.waiting = some (p, k) → (p = .released ↔ k = .take)

structure Handoff (cfg : Config) (s : State) : Prop where
  matched : Matched s.emu
  parked : s.emu.owns s.held = true → s.render.parked = true
  unpark : s.render = .unpark → s.releaseReq = false
  woken : ∀ k, s.emu = .wakeUnlock k → s.render ≠ .asleep
  quiet : s.emu.quiet = true → s.render.dozes = true → s.wpos = s.rpos ∧ s.releaseReq = false
  parkCndWait : s.render = .parkCndWait → s.releaseReq = true
  parkAsleep : s.render = .parkAsleep → s.releaseReq = true ∨ s.emu = .giveBroadcast
  dozing : ∀ p k, s.emu.dozing = some (p, k) → p.holds cfg s = false ∨ s.render.comes = true

theorem Flags.exclusive {s : State} (hf : Flags s) (he : s.emu.locks = true) (hr : s.render.locks = true) : False := by
  have hemu := hf.mutexEmu.2 he
  rw [hf.mutexRender.2 hr] at hemu
  cases hemu

theorem EmuPc.woken_waiting (pc : EmuPc) : pc.woken.waiting = pc.waiting := by cases pc <;> rfl
theorem EmuPc.woken_quiet (pc : EmuPc) : pc.woken.quiet = pc.quiet := by cases pc <;> rfl

theorem EmuPc.woken_dozing {pc : EmuPc} {p : Pred} {k : After} (h : pc.woken.dozing = some (p, k)) :
    pc = .cndWait p k := by
  cases pc <;> cases h
  rfl

theorem EmuPc.dozing_cases {pc : EmuPc} {p : Pred} {k : After} (h : pc.dozing = some (p, k)) :
    pc = .cndWait p k ∨ pc = .asleep p k := by
  cases pc <;> cases h
  · exact Or.inl rfl
  · exact Or.inr rfl

theorem RenderPc.dozes_cases {pc : RenderPc} (h : pc.dozes = true) : pc = .cndWait ∨ pc = .asleep := by
  cases pc <;> cases h
  · exact Or.inl rfl
  · exact Or.inr rfl

theorem RenderPc.dozes_of_woken {pc : RenderPc} (h : pc.woken.dozes = true) : pc.dozes = true := by
  cases pc <;> first | cases h; done | rfl

theorem requests_of_owns {pc : EmuPc} {held : Bool} (h : pc.owns held = true) : pc.requests held = true := by
  cases pc with
  | lower k | unlock k => cases k <;> simp_all [EmuPc.owns, EmuPc.requests, EmuPc.after, After.takes]
  | _ => simp_all [EmuPc.owns, EmuPc.requests, EmuPc.after, After.takes]

theorem requests_of_waiting {pc : EmuPc} {p : Pred} (h : pc.waiting = some (p, .take)) (held : Bool) :
    pc.requests held = true := by
  cases pc with
  | wake k | wakeLock k | wakeBroadcast k | wakeUnlock k =>
    cases k <;> simp_all [EmuPc.waiting, EmuPc.requests, EmuPc.after, After.takes]
  | _ => simp_all [EmuPc.waiting, EmuPc.requests, EmuPc.after, After.takes]

section Render
variable {cfg : Config} {s s' : State} (hf : Flags s) (h : Handoff cfg s) (hs : RenderStep cfg s s')
include hs

/-- The render thread moves the emulation thread by waking it. -/
theorem render_emu : (s'.emu = s.emu ∨ s'.emu = s.emu.woken) ∧ s'.held = s.held ∧ s'.releaseReq = s.releaseReq ∧
    s'.wpos = s.wpos := by
  cases hs <;> simp

theorem to_dozes (hr : s'.render.dozes = true) :
    s'.wpos = s'.rpos ∧ s'.releaseReq = false ∨ s.render.dozes = true ∧ s'.rpos = s.rpos := by
  cases hs with
  | testEmpty _ hempty hreq => exact Or.inl ⟨hempty, hreq⟩
  | cndWait hpc => exact Or.inr ⟨by rw [hpc]; rfl, rfl⟩
  | _ => cases hr

theorem to_asleep (hr : s'.render = .asleep) : s.render = .cndWait := by
  cases hs <;> first | exact RenderPc.noConfusion hr | assumption

theorem to_parkCndWait (hr : s'.render = .parkCndWait) : s'.releaseReq = true := by
  cases hs <;> first | exact RenderPc.noConfusion hr | assumption

theorem to_parkAsleep (hr : s'.render = .parkAsleep) : s.render = .parkCndWait := by
  cases hs <;> first | exact RenderPc.noConfusion hr | assumption

include h

theorem Handoff.render_unpark (hr : s'.render = .unpark) : s.releaseReq = false := by
  have hu := h.unpark
  clear h
  cases hs <;> first | exact RenderPc.noConfusion hr | assumption

include hf

theorem Handoff.render_parked (ho : s.emu.owns s.held = true) : s'.render.parked = true := by
  have hp := h.parked ho
  have hreq : s.releaseReq = true := hf.releaseReq.trans (requests_of_owns ho)
  clear h hf
  cases hs <;> first | rfl | simp_all [RenderPc.parked]

theorem Handoff.render_dozing {p : Pred} {k : After} (he : s'.emu.dozing = some (p, k)) :
    p.holds cfg s' = false ∨ s'.render.comes = true := by
  have hemu : s.emu.dozing = some (p, k) := by
    rcases (render_emu hs).1 with heq | heq
    · rwa [← heq]
    · have hw : s.emu.woken.dozing = some (p, k) := heq ▸ he
      rw [EmuPc.woken_dozing hw]
      rfl
  have hold := h.dozing p k hemu
  have hsleep : s.emuSleeping = true := by
    rw [hf.emuSleeping]
    rcases EmuPc.dozing_cases hemu with hpc | hpc <;> rw [hpc] <;> rfl
  -- a broadcast is made with the lock, so the emulation thread is not between its look and its wait
  have hbroadcast (hlocks : s.render.locks = true) (hw : s.emu.woken.dozing = some (p, k)) : False :=
    hf.exclusive (by rw [EmuPc.woken_dozing hw]; rfl) hlocks
  clear h hf
  cases hs with
  | wakeAwake _ hno => exact absurd hno (by rw [hsleep]; decide)
  | serveBroadcast hpc | wakeBroadcast hpc => exact (hbroadcast (by rw [hpc]; rfl) he).elim
  | unpark hpc =>
    have hwas := hold.resolve_right (by rw [hpc]; decide)
    left
    cases p <;> first | exact hwas | rfl
  | _ =>
    first
    | exact Or.inr rfl
    | exact Or.inl ((Pred.holds_congr rfl rfl rfl rfl).trans (hold.resolve_right (by rw [‹s.render = _›]; decide)))

theorem Handoff.render_step : Handoff cfg s' := by
  obtain ⟨hemu, hheld, hreq, hw⟩ := render_emu hs
  refine ⟨?_, fun ho => ?_, fun hr => hreq.trans (h.render_unpark hs hr), fun k he hr => ?_, fun hq hr => ?_,
    to_parkCndWait hs, fun hr => ?_, fun p k he => h.render_dozing hf hs he⟩
  · rcases hemu with heq | heq <;> rw [heq]
    · exact h.matched
    · intro p k hp
      exact h.matched p k (s.emu.woken_waiting ▸ hp)
  · refine h.render_parked hf hs ?_
    rcases hemu with heq | heq <;> rw [heq, hheld] at ho
    · exact ho
    · rwa [EmuPc.woken_owns] at ho
  · -- the one that has just woken still has the lock
    have hlock : s.emu.locks = true := by
      rcases hemu with heq | heq
      · rw [← heq, he]
        rfl
      · rw [← EmuPc.woken_locks, ← heq, he]
        rfl
    exact hf.exclusive hlock (by rw [to_asleep hs hr]; rfl)
  · rcases to_dozes hs hr with hnow | ⟨hwas, hrpos⟩
    · exact hnow
    · have hquiet : s.emu.quiet = true := by
        rcases hemu with heq | heq <;> rw [heq] at hq
        · exact hq
        · rwa [EmuPc.woken_quiet] at hq
      rw [hw, hrpos, hreq]
      exact h.quiet hquiet hwas
  · exact Or.inl (hreq.trans (h.parkCndWait (to_parkAsleep hs hr)))

end Render

section Emu
variable {cfg : Config} {s s' : State} (hf : Flags s) (h : Handoff cfg s) (hs : EmuStep cfg s s')
include hs

theorem emu_render : (s'.render = s.render ∨ s'.render = s.render.woken) ∧ s'.rpos = s.rpos ∧ s'.released = s.released := by
  cases hs <;> simp [State.begun, State.committing]

/-- A wait goes on for the same thing until it is over. -/
theorem emu_waiting {p : Pred} {k : After} (hw : s'.emu.waiting = some (p, k)) :
    s.emu.waiting = some (p, k) ∨ (p = .released ↔ k = .take) := by
  cases hs with
  | checkTrue _ k' | enterTrue _ k' | unlock k' => cases k' <;> cases hw
  | wakeBatched k' | wakeAwake k' | wakeUnlock k' =>
    cases k' with
    | wait => exact Or.inl (by rw [‹s.emu = _›]; exact hw)
    | committed => cases hw
    | frameMarked =>
      cases hw
      simp
  | wakeSleeping k' | wakeLock k' | wakeBroadcast k' =>
    cases k' <;> first | cases hw; done | exact Or.inl (by rw [‹s.emu = _›]; exact hw)
  | fill => exact Or.inl hw
  | _ => first | cases hw; done | exact Or.inl (by rw [‹s.emu = _›]; exact hw) | (cases hw; simp)

/-- The context comes to the emulation thread where `released` is seen. -/
theorem emu_owns (ho : s'.emu.owns s'.held = true) :
    s.emu.owns s.held = true ∨ ∃ p, s.emu.waiting = some (p, .take) ∧ p.holds cfg s = true := by
  cases hs with
  | fill => exact Or.inl ho
  | checkTrue p k hpc htrue | enterTrue p k hpc htrue | testTrue p k hpc htrue =>
    cases k with
    | take => exact Or.inr ⟨p, by rw [hpc]; rfl, htrue⟩
    | _ => exact Or.inl (by rw [hpc]; exact ho)
  | lower k | unlock k => cases k <;> exact Or.inl (by rw [‹s.emu = _›]; first | rfl | exact ho)
  | wakeBatched k | wakeAwake k | wakeUnlock k => cases k <;> exact Or.inl (by rw [‹s.emu = _›]; exact ho)
  | take | hold => exact Or.inl (by rw [‹s.emu = _›]; rfl)
  | give | giveBroadcast | giveUnlock | given => cases ho
  | _ => exact Or.inl (by rw [‹s.emu = _›]; exact ho)

/-- Only the one that has the lock lets the render thread go to sleep unseen. -/
theorem emu_wakeUnlock {k : AfterWake} (he : s'.emu = .wakeUnlock k) : s'.render = s.render.woken := by
  cases hs with
  | wakeBroadcast => rfl
  | fill => exact EmuPc.noConfusion (‹s.emu = .idle›.symm.trans he)
  | checkTrue _ k' | enterTrue _ k' | unlock k' => cases k' <;> cases he
  | wakeBatched k' | wakeAwake k' | wakeUnlock k' => cases k' <;> cases he
  | _ => cases he

include hf h

theorem Handoff.emu_parked (ho : s'.emu.owns s'.held = true) : s'.render.parked = true := by
  have hparked : s.render.parked = true := by
    rcases emu_owns hs ho with hold | ⟨p, hwait, htrue⟩
    · exact h.parked hold
    · obtain rfl := (h.matched p .take hwait).2 rfl
      have hreleases : s.render.releases = true := hf.released.symm.trans htrue
      have hreq : s.releaseReq = true := hf.releaseReq.trans (requests_of_waiting hwait _)
      cases hpc : s.render with
      | unpark => rw [h.unpark hpc] at hreq; cases hreq
      | _ => rw [hpc] at hreleases; exact hreleases
  rcases (emu_render hs).1 with heq | heq <;> rw [heq]
  · exact hparked
  · rwa [RenderPc.woken_parked]

theorem Handoff.emu_unpark (hr : s'.render = .unpark) : s'.releaseReq = false := by
  have hwas : s.render = .unpark := by
    rcases (emu_render hs).1 with heq | heq
    · rwa [← heq]
    · rw [heq] at hr
      cases hpc : s.render <;> rw [hpc] at hr <;> first | rfl | cases hr
  have hreq := h.unpark hwas
  have hlocked : s.mutex = some .render := hf.mutexRender.2 (by rw [hwas]; rfl)
  cases hs with
  | request hpc =>
    rw [hf.mutexEmu.2 (by rw [hpc]; rfl)] at hlocked
    cases hlocked
  | give => rfl
  | _ => exact hreq

theorem Handoff.emu_quiet (hq : s'.emu.quiet = true) (hr : s'.render.dozes = true) :
    s'.wpos = s'.rpos ∧ s'.releaseReq = false := by
  have hwas : s.render.dozes = true := by
    rcases (emu_render hs).1 with heq | heq
    · rwa [← heq]
    · exact RenderPc.dozes_of_woken (heq ▸ hr)
  have hsleeping : s.renderSleeping = true := by
    rw [hf.renderSleeping]
    rcases RenderPc.dozes_cases hwas with hpc | hpc <;> rw [hpc] <;> rfl
  cases hs with
  | fill => rw [‹s.emu = .idle›] at hq; cases hq
  | checkTrue _ k | enterTrue _ k | unlock k => cases k <;> cases hq
  | wakeBatched k _ hbatch => cases k <;> first | cases hq; done | cases hbatch
  | wakeAwake k _ _ hawake => rw [hsleeping] at hawake; cases hawake
  | wakeUnlock k hpc =>
    -- with the lock of the wake-up, the render thread is not between its look and its wait
    rcases RenderPc.dozes_cases hwas with hrender | hrender
    · exact (hf.exclusive (by rw [hpc]; rfl) (by rw [hrender]; rfl)).elim
    · exact absurd hrender (h.woken k hpc)
  | _ => first | cases hq; done | exact h.quiet (by rw [‹s.emu = _›]; rfl) hwas

theorem Handoff.emu_parkCndWait (hr : s'.render = .parkCndWait) : s'.releaseReq = true := by
  have hwas : s.render = .parkCndWait := by
    rcases (emu_render hs).1 with heq | heq
    · rwa [← heq]
    · rw [heq] at hr
      cases hpc : s.render <;> rw [hpc] at hr <;> first | rfl | cases hr
  have hreq := h.parkCndWait hwas
  cases hs with
  | request => rfl
  | give hpc => exact (hf.exclusive (by rw [hpc]; rfl) (by rw [hwas]; rfl)).elim
  | _ => exact hreq

omit hf in
/-- The look that finds nothing is made with the lock, and nothing comes between it and the wait. -/
theorem Handoff.emu_dozing {p : Pred} {k : After} (he : s'.emu.dozing = some (p, k)) :
    p.holds cfg s' = false ∨ s'.render.comes = true := by
  have hold := h.dozing p k
  cases hs with
  | testFalse _ _ _ hfalse =>
    cases he
    exact Or.inl ((Pred.holds_congr rfl rfl rfl rfl).trans hfalse)
  | cndWait _ _ hpc =>
    cases he
    rw [hpc] at hold
    exact (hold rfl).imp_left (Pred.holds_congr rfl rfl rfl rfl).trans
  | fill => rw [‹s.emu = .idle›] at he; cases he
  | checkTrue _ k' | enterTrue _ k' | unlock k' => cases k' <;> cases he
  | wakeBatched k' | wakeAwake k' | wakeUnlock k' => cases k' <;> cases he
  | _ => cases he

omit hf in
theorem Handoff.emu_parkAsleep (hr : s'.render = .parkAsleep) : s'.releaseReq = true ∨ s'.emu = .giveBroadcast := by
  have hwas : s.render = .parkAsleep ∧ s'.render = s.render := by
    rcases (emu_render hs).1 with heq | heq
    · exact ⟨by rwa [← heq], heq⟩
    · rw [heq] at hr
      cases hpc : s.render <;> rw [hpc] at hr <;> cases hr
  have hold := h.parkAsleep hwas.1
  cases hs with
  | give => exact Or.inr rfl
  | request => exact Or.inl rfl
  | giveBroadcast => rw [hwas.1] at hr; cases hr
  | _ => exact Or.inl (hold.resolve_right (by rw [‹s.emu = _›]; exact EmuPc.noConfusion))

theorem Handoff.emu_step : Handoff cfg s' := by
  refine ⟨fun p k hw => ?_, h.emu_parked hf hs, h.emu_unpark hf hs, fun k he hr => ?_, h.emu_quiet hf hs,
    h.emu_parkCndWait hf hs, h.emu_parkAsleep hs, fun p k => h.emu_dozing hs⟩
  · rcases emu_waiting hs hw with hold | hmatch
    · exact h.matched p k hold
    · exact hmatch
  · rw [emu_wakeUnlock hs he] at hr
    cases hpc : s.render <;> rw [hpc] at hr <;> cases hr

end Emu

end PsxRecomp.RenderThread
