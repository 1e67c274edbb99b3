import Mathlib

/-! The clock of the SPU: the samples owed to the guest, and the sample events that the scheduler places on
the grid of cycle zero. -/
namespace PsxRecomp.Spu
set_option autoImplicit false

/-! ## The clock -/

def cyclesPerSample : ℕ := 768

/-- `s_clock` and what belongs to it; only phases within a sample are ever carried. -/
structure SampleClock where
  clock : ℕ
  carry : ℕ
  valid : Bool
  catchingUp : Bool
  carry_lt : carry < cyclesPerSample

namespace SampleClock

/-- The first catch-up after a reset takes its own cycle for the epoch. -/
def anchor (now : ℕ) (c : SampleClock) : SampleClock :=
  if c.valid then c
  else
    { c with
      clock := if c.carry ≤ now then now - c.carry else now
      carry := 0
      valid := true
      carry_lt := by decide }

/-- `spu_catch_up`, with the cycles its frames end at. -/
def catchUp (now : ℕ) (c : SampleClock) : SampleClock × List ℕ :=
  let c := c.anchor now
  if now < c.clock then ({ c with clock := now }, [])
  else
    let frames := (now - c.clock) / cyclesPerSample
    if frames = 0 ∨ c.catchingUp then (c, [])
    else ({ c with clock := c.clock + frames * cyclesPerSample },
      (List.range frames).map fun i => c.clock + (i + 1) * cyclesPerSample)

/-- The frames a catch-up at cycle `now` would render. -/
def framesAt (c : SampleClock) (now : ℕ) : ℕ := (c.catchUp now).2.length

/-- The clock after a snapshot with this phase in it; the old format has none. -/
def restored (now : ℕ) (phase : BitVec 32) (c : SampleClock) : SampleClock :=
  let carry := phase.toNat % cyclesPerSample
  { c with
    clock := if carry ≤ now then now - carry else now
    carry := 0
    valid := true
    carry_lt := by decide }

end SampleClock

/-! ## The events -/

/-- What the scheduler of the sample events looks at. -/
structure SampleEvents where
  mode : Bool
  pump : Bool
  ctrl : BitVec 16

namespace SampleEvents

def enabled (e : SampleEvents) : Bool := e.mode && e.pump && e.ctrl &&& 0x0040 ≠ 0

/-- `psx_spu_sample_event_cycles_to_next` -/
def cyclesToNext (e : SampleEvents) (now : ℕ) : ℕ :=
  if e.mode = false then 0xFFFFFFFF
  else if e.pump = false then 0xFFFFFFFF
  else if e.ctrl &&& 0x0040 = 0 then 0xFFFFFFFF
  else
    let phase := now % cyclesPerSample
    if phase ≠ 0 then cyclesPerSample - phase else cyclesPerSample

/-- Whether `psx_spu_sample_event_service` calls the pump. -/
def pumps (e : SampleEvents) (now : ℕ) : Bool := e.enabled && now % cyclesPerSample = 0

end SampleEvents

/-! ## Guest time -/

/-- Guest time, the SPU, and the gate that freezes it while the sound is muted. -/
structure Timeline where
  now : ℕ
  spu : SampleClock
  muted : Bool

/-- The devices advance by a chunk, or the guest touches the SPU. -/
inductive Move where
  | chunk (cycles : ℕ)
  | access

namespace Timeline

/-- A catch-up, and when it has rendered which frame. -/
def catchUp (t : Timeline) : Timeline × List (ℕ × ℕ) :=
  let r := t.spu.catchUp t.now
  ({ t with spu := r.1 }, r.2.map fun stop => (t.now, stop))

/-- The installed pump, behind its gate. -/
def pump (t : Timeline) : Timeline × List (ℕ × ℕ) := if t.muted then (t, []) else t.catchUp

def step (e : SampleEvents) (t : Timeline) : Move → Timeline × List (ℕ × ℕ)
  | .chunk cycles =>
    let t := { t with now := t.now + cycles }
    if e.pumps t.now then t.pump else (t, [])
  | .access => t.catchUp

/-- The frames of a run, each with the cycle it is rendered at and the cycle it ends at. -/
def rendered (e : SampleEvents) (t : Timeline) : List Move → List (ℕ × ℕ)
  | [] => []
  | m :: moves => (t.step e m).2 ++ rendered e (t.step e m).1 moves

/-- No chunk passes over the next event. -/
def Fits (e : SampleEvents) (t : Timeline) : List Move → Prop
  | [] => True
  | .chunk cycles :: moves => cycles ≤ e.cyclesToNext t.now ∧ Fits e (t.step e (.chunk cycles)).1 moves
  | .access :: moves => Fits e (t.step e .access).1 moves

/-- The events are the sample boundaries of the SPU: the next one is as far as the scheduler says, the pump is
called at them alone, and a frame still to come is rendered at the very cycle it ends at. -/
structure OnSampleGrid (e : SampleEvents) (t : Timeline) : Prop where
  next : IsLeast {d | 0 < d ∧ t.spu.framesAt t.now < t.spu.framesAt (t.now + d)} (e.cyclesToNext t.now)
  pumps : ∀ d > 0, e.pumps (t.now + d) = true ↔ t.spu.framesAt (t.now + d - 1) < t.spu.framesAt (t.now + d)
  onTime : ∀ moves, t.Fits e moves → ∀ r ∈ t.rendered e moves, t.now < r.2 → r.1 = r.2

/-- The clock runs, not ahead of the guest, from a whole sample after cycle zero. -/
structure Aligned (t : Timeline) : Prop where
  valid : t.spu.valid = true
  free : t.spu.catchingUp = false
  behind : t.spu.clock ≤ t.now
  whole : cyclesPerSample ∣ t.spu.clock
  open_gate : t.muted = false

end Timeline

/-! ## Frames owed -/

variable {c : SampleClock} {e : SampleEvents} {t : Timeline} {now d : ℕ}

theorem framesAt_valid (hvalid : c.valid = true) (hfree : c.catchingUp = false) (now : ℕ) :
    c.framesAt now = (now - c.clock) / cyclesPerSample := by
  unfold SampleClock.framesAt SampleClock.catchUp SampleClock.anchor
  simp only [hvalid, if_true, hfree, Bool.false_eq_true, or_false]
  split_ifs with hearly hzero
  · rw [Nat.sub_eq_zero_of_le hearly.le, Nat.zero_div]
    rfl
  · exact hzero.symm
  · simp

/-- Before its epoch is set, and inside itself, a catch-up renders nothing. -/
theorem framesAt_idle (h : c.valid = false ∨ c.catchingUp = true) (now : ℕ) : c.framesAt now = 0 := by
  unfold SampleClock.framesAt SampleClock.catchUp
  rcases h with hinvalid | hbusy
  · have hcarry := c.carry_lt
    unfold SampleClock.anchor
    simp only [hinvalid, Bool.false_eq_true, if_false]
    have hzero : (now - if c.carry ≤ now then now - c.carry else now) / cyclesPerSample = 0 := by
      refine Nat.div_eq_of_lt ?_
      split_ifs <;> omega
    simp only [hzero, true_or, if_true]
    split_ifs <;> rfl
  · have hbusy' : (c.anchor now).catchingUp = true := by
      unfold SampleClock.anchor
      split_ifs <;> exact hbusy
    simp only [hbusy', or_true, if_true]
    split_ifs <;> rfl

theorem cyclesToNext_enabled (he : e.enabled = true) (now : ℕ) :
    e.cyclesToNext now = cyclesPerSample - now % cyclesPerSample := by
  simp only [SampleEvents.enabled, Bool.and_eq_true, decide_eq_true_eq] at he
  obtain ⟨⟨hmode, hpump⟩, hctrl⟩ := he
  unfold SampleEvents.cyclesToNext
  simp only [hmode, hpump, Bool.true_eq_false, if_false, if_neg hctrl]
  split_ifs with hphase
  · rfl
  · omega

theorem pumps_enabled (he : e.enabled = true) (now : ℕ) :
    e.pumps now = true ↔ now % cyclesPerSample = 0 := by
  simp [SampleEvents.pumps, he]

/-- The next frame ends where the phase of the clock comes round. -/
theorem isLeast_boundary (hvalid : c.valid = true) (hfree : c.catchingUp = false) (hbehind : c.clock ≤ now) :
    IsLeast {d | 0 < d ∧ c.framesAt now < c.framesAt (now + d)}
      (cyclesPerSample - (now - c.clock) % cyclesPerSample) := by
  constructor
  · refine ⟨?_, ?_⟩
    · simp only [cyclesPerSample]
      omega
    · rw [framesAt_valid hvalid hfree, framesAt_valid hvalid hfree]
      simp only [cyclesPerSample]
      omega
  · rintro d ⟨hpos, hmore⟩
    rw [framesAt_valid hvalid hfree, framesAt_valid hvalid hfree] at hmore
    simp only [cyclesPerSample] at hmore ⊢
    omega

/-- A catch-up renders the frames that end behind the clock, and stops at the last boundary. -/
theorem catchUp_whole (hvalid : c.valid = true) (hfree : c.catchingUp = false) (hbehind : c.clock ≤ now)
    (hwhole : cyclesPerSample ∣ c.clock) :
    (∀ stop, stop ∈ (c.catchUp now).2 ↔ cyclesPerSample ∣ stop ∧ c.clock < stop ∧ stop ≤ now) ∧
      (c.catchUp now).1.valid = true ∧ (c.catchUp now).1.catchingUp = false ∧
      (c.catchUp now).1.clock = now / cyclesPerSample * cyclesPerSample := by
  obtain ⟨k, hk⟩ := hwhole
  have hle : ¬now < c.clock := by omega
  unfold SampleClock.catchUp SampleClock.anchor
  simp only [hvalid, if_true, hfree, Bool.false_eq_true, or_false, if_neg hle]
  split_ifs with hzero
  · refine ⟨fun stop => iff_of_false List.not_mem_nil ?_, hvalid, hfree, ?_⟩
    · rintro ⟨hstop, hlt, hle⟩
      simp only [cyclesPerSample] at hk hzero hstop
      omega
    · simp only [cyclesPerSample] at hk hzero ⊢
      omega
  · refine ⟨fun stop => ?_, rfl, rfl, ?_⟩
    · rw [List.mem_map]
      simp only [cyclesPerSample] at hk hzero ⊢
      constructor
      · rintro ⟨i, hi, rfl⟩
        have hi' := List.mem_range.1 hi
        exact ⟨by omega, by omega, by omega⟩
      · rintro ⟨hstop, hlt, hle⟩
        exact ⟨(stop - c.clock) / 768 - 1, List.mem_range.2 (by omega), by omega⟩
    · simp only [cyclesPerSample] at hk hzero ⊢
      omega

/-! ## Runs -/

/-- Of the frames that end behind `start` none is owed. -/
structure Prompt (start : ℕ) (t : Timeline) : Prop where
  aligned : t.Aligned
  later : start ≤ t.now
  owed : ∀ stop, cyclesPerSample ∣ stop → t.spu.clock < stop → stop ≤ t.now → stop ≤ start

variable {start : ℕ}

theorem Timeline.Aligned.catchUp (h : t.Aligned) (hlater : start ≤ t.now)
    (howed : ∀ stop, cyclesPerSample ∣ stop → t.spu.clock < stop → stop ≤ t.now → stop ≤ start ∨ stop = t.now) :
    (∀ r ∈ t.catchUp.2, start < r.2 → r.1 = r.2) ∧ Prompt start t.catchUp.1 := by
  obtain ⟨hstops, hvalid, hfree, hclock⟩ := catchUp_whole h.valid h.free h.behind h.whole
  have hround := Nat.div_mul_le_self t.now cyclesPerSample
  refine ⟨?_, ⟨hvalid, hfree, ?_, ?_, h.open_gate⟩, hlater, ?_⟩
  · intro r hr hlt
    obtain ⟨stop, hstop, rfl⟩ := List.mem_map.1 hr
    obtain ⟨hdvd, hgt, hle⟩ := (hstops stop).1 hstop
    rcases howed stop hdvd hgt hle with hearly | rfl
    · omega
    · rfl
  · exact hclock ▸ hround
  · exact hclock ▸ Nat.dvd_mul_left _ _
  · intro stop hdvd hgt hle
    have hgt' : t.now / cyclesPerSample * cyclesPerSample < stop := hclock ▸ hgt
    have hle' : stop ≤ t.now := hle
    simp only [cyclesPerSample] at hgt' hdvd
    omega

theorem Prompt.access (h : Prompt start t) :
    (∀ r ∈ t.catchUp.2, start < r.2 → r.1 = r.2) ∧ Prompt start t.catchUp.1 :=
  h.aligned.catchUp h.later fun stop hdvd hgt hle => .inl (h.owed stop hdvd hgt hle)

/-- A chunk up to the next event ends before the boundary or at it. -/
theorem Prompt.chunk (he : e.enabled = true) (h : Prompt start t) (hfits : d ≤ e.cyclesToNext t.now) :
    (∀ r ∈ (t.step e (.chunk d)).2, start < r.2 → r.1 = r.2) ∧ Prompt start (t.step e (.chunk d)).1 := by
  rw [cyclesToNext_enabled he] at hfits
  have hbehind := h.aligned.behind
  have hlater := h.later
  have hmoved : Timeline.Aligned { t with now := t.now + d } :=
    ⟨h.aligned.valid, h.aligned.free, by dsimp only; omega, h.aligned.whole, h.aligned.open_gate⟩
  have howed : ∀ stop, cyclesPerSample ∣ stop → t.spu.clock < stop → stop ≤ t.now + d →
      stop ≤ start ∨ stop = t.now + d ∧ (t.now + d) % cyclesPerSample = 0 := by
    intro stop hdvd hgt hle
    by_cases hold : stop ≤ t.now
    · exact .inl (h.owed stop hdvd hgt hold)
    · simp only [cyclesPerSample] at hfits hdvd ⊢
      omega
  simp only [Timeline.step]
  by_cases hpump : e.pumps (t.now + d) = true
  · rw [if_pos hpump, Timeline.pump, if_neg (by simp [h.aligned.open_gate])]
    refine hmoved.catchUp (by dsimp only; omega) fun stop hdvd hgt hle => ?_
    exact (howed stop hdvd hgt hle).imp_right And.left
  · rw [if_neg hpump]
    refine ⟨fun r hr => absurd hr List.not_mem_nil, hmoved, by dsimp only; omega, ?_⟩
    intro stop hdvd hgt hle
    refine (howed stop hdvd hgt hle).resolve_right fun hend => hpump ?_
    exact (pumps_enabled he _).2 hend.2

theorem Prompt.rendered (he : e.enabled = true) (h : Prompt start t) {moves : List Move}
    (hfits : t.Fits e moves) : ∀ r ∈ t.rendered e moves, start < r.2 → r.1 = r.2 := by
  induction moves generalizing t with
  | nil => exact fun r hr => absurd hr List.not_mem_nil
  | cons m moves ih =>
    intro r hr hlt
    rw [Timeline.rendered, List.mem_append] at hr
    cases m with
    | chunk cycles =>
      obtain ⟨hnow, hnext⟩ := h.chunk he hfits.1
      exact hr.elim (fun hr => hnow r hr hlt) fun hr => ih hnext hfits.2 r hr hlt
    | access =>
      obtain ⟨hnow, hnext⟩ := h.access
      exact hr.elim (fun hr => hnow r hr hlt) fun hr => ih hnext hfits r hr hlt

theorem Timeline.Aligned.prompt (h : t.Aligned) : Prompt t.now t :=
  ⟨h, le_rfl, fun _ _ _ hle => hle⟩

/-! ## The grid -/

theorem Timeline.Aligned.onSampleGrid (he : e.enabled = true) (h : t.Aligned) : t.OnSampleGrid e := by
  have hbehind := h.behind
  have hwhole := h.whole
  refine ⟨?_, fun d hd => ?_, fun moves hfits => h.prompt.rendered he hfits⟩
  · have hleast := isLeast_boundary h.valid h.free h.behind
    have hphase : (t.now - t.spu.clock) % cyclesPerSample = t.now % cyclesPerSample := by
      simp only [cyclesPerSample] at hwhole ⊢
      omega
    rwa [hphase, ← cyclesToNext_enabled he] at hleast
  · rw [pumps_enabled he, framesAt_valid h.valid h.free, framesAt_valid h.valid h.free]
    simp only [cyclesPerSample] at hwhole ⊢
    omega

/-- With the gate closed a frame waits for the next access. -/
theorem open_of_onTime (he : e.enabled = true) (hvalid : t.spu.valid = true) (hfree : t.spu.catchingUp = false)
    (hbehind : t.spu.clock ≤ t.now) (hwhole : cyclesPerSample ∣ t.spu.clock)
    (honTime : ∀ moves, t.Fits e moves → ∀ r ∈ t.rendered e moves, t.now < r.2 → r.1 = r.2) :
    t.muted = false := by
  by_contra hmuted
  rw [Bool.not_eq_false] at hmuted
  obtain ⟨d, hd⟩ : ∃ d, d = e.cyclesToNext t.now := ⟨_, rfl⟩
  have hd' := hd
  rw [cyclesToNext_enabled he] at hd'
  have hpump : e.pumps (t.now + d) = true := by
    rw [pumps_enabled he]
    simp only [cyclesPerSample] at hd' ⊢
    omega
  have hquiet : e.pumps (t.now + d + 1) = false := by
    rw [Bool.eq_false_iff, ne_eq, pumps_enabled he]
    simp only [cyclesPerSample] at hd' ⊢
    omega
  have hfirst : t.step e (.chunk d) = ({ t with now := t.now + d }, []) := by
    simp [Timeline.step, hpump, Timeline.pump, hmuted]
  have hsecond : Timeline.step e { t with now := t.now + d } (.chunk 1) = ({ t with now := t.now + d + 1 }, []) := by
    simp [Timeline.step, hquiet]
  obtain ⟨hstops, -⟩ := @catchUp_whole _ (t.now + d + 1) hvalid hfree (by omega) hwhole
  have hfits : t.Fits e [.chunk d, .chunk 1, .access] := by
    refine ⟨hd.le, ?_, trivial⟩
    rw [hfirst, cyclesToNext_enabled he]
    simp only [cyclesPerSample]
    omega
  have hstop : t.now + d ∈ (t.spu.catchUp (t.now + d + 1)).2 := by
    rw [hstops]
    simp only [cyclesPerSample] at hd' hwhole ⊢
    omega
  have hmem : (t.now + d + 1, t.now + d) ∈ t.rendered e [.chunk d, .chunk 1, .access] := by
    simp only [Timeline.rendered, hfirst, hsecond, List.nil_append, List.append_nil]
    exact List.mem_map.2 ⟨t.now + d, hstop, rfl⟩
  have hlate := honTime _ hfits _ hmem (by simp only [cyclesPerSample] at hd' ⊢; omega)
  dsimp only at hlate
  omega

/-- Without the events no frame is met, however far away the next one is. -/
theorem events_on (h : t.OnSampleGrid e) : e.mode = true := by
  by_contra hmode
  have hquiet : ∀ d, e.pumps (t.now + d) = false := fun d => by
    simp [SampleEvents.pumps, SampleEvents.enabled, hmode]
  have hstill : ∀ d, t.spu.framesAt (t.now + d) ≤ t.spu.framesAt t.now := by
    intro d
    induction d with
    | zero => exact le_rfl
    | succ d ih =>
      have hstep := h.pumps (d + 1) (Nat.succ_pos d)
      rw [hquiet, ← Nat.add_assoc, Nat.add_sub_cancel] at hstep
      have hle := Nat.not_lt.1 (mt hstep.2 Bool.false_ne_true)
      exact hle.trans ih
  exact absurd h.next.1.2 (Nat.not_lt.2 (hstill _))

/-- With the pump installed and the interrupt enabled, the events are the sample boundaries of the SPU exactly if
they are switched on, and the clock of the SPU runs, is not ahead of the guest, stands a whole number of samples
from cycle zero, and the gate of the pump is open. -/
theorem sample_grid (e : SampleEvents) (t : Timeline) (hpump : e.pump = true) (hctrl : e.ctrl &&& 0x0040 ≠ 0) :
    t.OnSampleGrid e ↔ e.mode = true ∧ t.Aligned := by
  have henabled (hmode : e.mode = true) : e.enabled = true := by
    simp only [SampleEvents.enabled, hmode, hpump, Bool.true_and]
    exact decide_eq_true hctrl
  refine ⟨fun h => ⟨events_on h, ?_⟩, fun h => h.2.onSampleGrid (henabled h.1)⟩
  have he := henabled (events_on h)
  obtain ⟨hpos, hmore⟩ := h.next.1
  have hd := cyclesToNext_enabled he t.now
  have hrun : ¬(t.spu.valid = false ∨ t.spu.catchingUp = true) := fun hidle => by
    rw [framesAt_idle hidle, framesAt_idle hidle] at hmore
    exact absurd hmore (lt_irrefl 0)
  obtain ⟨hvalid, hfree⟩ := not_or.1 hrun
  rw [Bool.not_eq_false] at hvalid
  rw [Bool.not_eq_true] at hfree
  have hbehind : t.spu.clock ≤ t.now := by
    rw [framesAt_valid hvalid hfree, framesAt_valid hvalid hfree, hd] at hmore
    simp only [cyclesPerSample] at hmore
    omega
  have hwhole : cyclesPerSample ∣ t.spu.clock := by
    have hunique := h.next.unique (isLeast_boundary hvalid hfree hbehind)
    rw [hd] at hunique
    simp only [cyclesPerSample] at hunique ⊢
    omega
  exact ⟨hvalid, hfree, hbehind, hwhole, open_of_onTime he hvalid hfree hbehind hwhole h.onTime⟩

/-! ## Epochs -/

def powerOnClock : SampleClock := ⟨0, 0, false, false, by decide⟩

def irqEvents : SampleEvents := ⟨true, true, 0x8040⟩

/-- Primed at cycle zero. -/
theorem sample_grid_primed : Timeline.OnSampleGrid irqEvents ⟨1000, (powerOnClock.catchUp 0).1, false⟩ :=
  (sample_grid irqEvents ⟨1000, (powerOnClock.catchUp 0).1, false⟩ rfl (by decide)).2
    ⟨rfl, rfl, rfl, by decide, by decide, rfl⟩

/-- Restored at cycle 100 from a snapshot without a phase: the next frame ends 768 cycles on, and the event
comes after 668. -/
theorem shifted_epoch : ¬Timeline.OnSampleGrid irqEvents ⟨100, powerOnClock.restored 100 0, false⟩ := by
  intro h
  have hleast := @isLeast_boundary (powerOnClock.restored 100 0) 100 rfl rfl (by decide)
  exact absurd (h.next.unique hleast) (by decide)

end PsxRecomp.Spu
