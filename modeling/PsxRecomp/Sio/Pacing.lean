import PsxRecomp.Sio.Port

/-! The pacing of SIO0: a walk over some cycles is the walk over their parts, and no deadline is
passed over. -/
namespace PsxRecomp.Sio
set_option autoImplicit false

/-! ## Deadlines -/

namespace Pace

/-- No deadline has been passed over; one may be due. -/
structure Counted (p : Pace) : Prop where
  shift : p.shiftActive = true → 0 ≤ p.shiftRemaining ∧ p.shiftRemaining ≤ baudCycles
  ack : p.pendingAck = true → 0 ≤ p.ackRemaining ∧ p.ackRemaining ≤ baudCycles + ackCycles
  buffered : p.txBuffered = true → p.shiftActive = true
  gate : p.shiftActive = true ∨ p.pendingAck = true → p.timingActive = true

/-- Between calls no deadline is due. -/
structure Timed (p : Pace) : Prop extends Counted p where
  shift_pos : p.shiftActive = true → 0 < p.shiftRemaining
  ack_pos : p.pendingAck = true → 0 < p.ackRemaining

/-- An acknowledge comes before the next byte is complete. -/
def InOrder (p : Pace) : Prop :=
  p.pendingAck = true → p.ackRemaining ≤ ackCycles ∧
    (p.shiftActive = true → p.ackRemaining < p.shiftRemaining)

/-- The nearest deadline; a byte goes before an acknowledge that falls together with it. -/
def due (p : Pace) : Option (ℤ × Deadline) :=
  if p.shiftActive ∧ (p.pendingAck → p.shiftRemaining ≤ p.ackRemaining) then
    some (p.shiftRemaining, .shift)
  else if p.pendingAck then some (p.ackRemaining, .ack)
  else none

theorem nextEvent_due {p : Pace} (h : p.Counted) {d : ℤ} {k : Deadline} (hd : p.due = some (d, k))
    {remaining : ℤ} (hle : d ≤ remaining) : p.nextEvent remaining = (d, k) := by
  have hs := h.shift
  have ha := h.ack
  unfold due at hd
  unfold nextEvent
  cases hshift : p.shiftActive <;> cases hack : p.pendingAck <;>
    simp only [hshift, hack] at hd hs ha ⊢ <;> grind

theorem nextEvent_idle {p : Pace} {remaining : ℤ} (hr : 0 ≤ remaining)
    (hd : ∀ d k, p.due = some (d, k) → remaining < d) : p.nextEvent remaining = (remaining, .idle) := by
  unfold due at hd
  unfold nextEvent
  cases hshift : p.shiftActive <;> cases hack : p.pendingAck <;>
    simp only [hshift, hack] at hd ⊢ <;> grind

/-- What lies ahead of the nearest deadline lies ahead of each of them. -/
theorem ahead_of_due {p : Pace} {P : ℤ → Prop} (hP : ∀ x y, x ≤ y → P x → P y)
    (h : ∀ d k, p.due = some (d, k) → P d) :
    (p.shiftActive = true → P p.shiftRemaining) ∧ (p.pendingAck = true → P p.ackRemaining) := by
  unfold due at h
  cases hshift : p.shiftActive with
  | false =>
    cases hack : p.pendingAck with
    | false => simp
    | true => exact ⟨by simp, fun _ => h _ .ack (by simp [hshift, hack])⟩
  | true =>
    cases hack : p.pendingAck with
    | false => exact ⟨fun _ => h _ .shift (by simp [hshift, hack]), by simp⟩
    | true =>
      rcases le_or_gt p.shiftRemaining p.ackRemaining with hle | hlt
      · have hs := h p.shiftRemaining .shift (by simp [hshift, hack, hle])
        exact ⟨fun _ => hs, fun _ => hP _ _ hle hs⟩
      · have ha := h p.ackRemaining .ack (by simp [hshift, hack, hlt])
        exact ⟨fun _ => hP _ _ hlt.le ha, fun _ => ha⟩

theorem Counted.due_nonneg {p : Pace} (h : p.Counted) {d : ℤ} {k : Deadline}
    (hd : p.due = some (d, k)) : 0 ≤ d := by
  have hs := h.shift
  have ha := h.ack
  unfold due at hd
  grind

theorem elapse_zero (p : Pace) : p.elapse 0 = p := by
  simp [elapse]

theorem elapse_elapse (p : Pace) (s t : ℤ) : (p.elapse s).elapse t = p.elapse (s + t) := by
  cases hshift : p.shiftActive <;> cases hack : p.pendingAck <;> simp [elapse, hshift, hack] <;>
    omega

theorem elapse_still {p : Pace} (hs : p.shiftActive = false) (ha : p.pendingAck = false) (t : ℤ) :
    p.elapse t = p := by
  simp only [elapse, hs, ha]
  cases p
  simp_all

theorem due_elapse (p : Pace) (t : ℤ) :
    (p.elapse t).due = p.due.map fun e => (e.1 - t, e.2) := by
  cases hshift : p.shiftActive <;> cases hack : p.pendingAck <;> simp [due, elapse, hshift, hack]
  split_ifs <;> rfl

theorem work_elapse (p : Pace) (t : ℤ) : (p.elapse t).work = p.work := rfl

/-- Time passes up to the nearest deadline. -/
theorem Counted.elapse {p : Pace} (h : p.Counted) {t : ℤ} (ht : 0 ≤ t)
    (hd : ∀ d k, p.due = some (d, k) → t ≤ d) : (p.elapse t).Counted := by
  obtain ⟨hs, ha⟩ := ahead_of_due (P := fun x => t ≤ x) (fun _ _ => le_trans' ) hd
  refine ⟨fun hshift => ?_, fun hack => ?_, h.buffered, h.gate⟩
  · have := h.shift hshift
    have := hs hshift
    simp only [Pace.elapse, show p.shiftActive = true from hshift, if_true]
    omega
  · have := h.ack hack
    have := ha hack
    simp only [Pace.elapse, show p.pendingAck = true from hack, if_true]
    omega

theorem Counted.timed {p : Pace} (h : p.Counted) {t : ℤ} (ht : 0 ≤ t)
    (hd : ∀ d k, p.due = some (d, k) → t < d) : (p.elapse t).Timed := by
  obtain ⟨hs, ha⟩ := ahead_of_due (P := fun x => t < x) (fun _ _ hle hlt => hlt.trans_le hle) hd
  refine ⟨h.elapse ht fun d k hk => (hd d k hk).le, fun hshift => ?_, fun hack => ?_⟩
  · simp only [Pace.elapse, show p.shiftActive = true from hshift, if_true]
    exact sub_pos.2 (hs hshift)
  · simp only [Pace.elapse, show p.pendingAck = true from hack, if_true]
    exact sub_pos.2 (ha hack)

theorem InOrder.elapse {p : Pace} (h : p.InOrder) {t : ℤ} (ht : 0 ≤ t) : (p.elapse t).InOrder := by
  unfold InOrder at h ⊢
  simp only [Pace.elapse]
  grind

/-- No acknowledge waits when a byte is complete. -/
theorem InOrder.no_ack {p : Pace} (h : p.InOrder) {d : ℤ} (hd : p.due = some (d, .shift)) :
    p.pendingAck = false := by
  unfold InOrder at h
  unfold due at hd
  grind

end Pace

/-! ## One deadline -/

variable {ω : Type} (F : Files ω)

def Port.elapse (t : ℤ) (p : Port ω) : Port ω := { p with pace := p.pace.elapse t }

/-- What a deadline brings, so many cycles into the call. -/
def meet (k : Deadline) (after : ℤ) (p : Port ω) : Port ω × List Event :=
  match k with
  | .shift => ((shiftComplete F p).1, [(shiftComplete F p).2])
  | .ack => fireAckIrq after { p with pace := { p.pace with pendingAck := false } }
  | .idle => (p, [])

variable {F} {p : Port ω} {d : ℤ} {k : Deadline}

/-- The shifter behind a byte that is complete. -/
def Pace.completed (acked : Bool) (p : Pace) : Pace :=
  (if acked then
    { p with
      shiftActive := false, pendingAck := true, ackRemaining := ackCycles,
      pendingAckIrqEn := p.shiftAckIrqEn }
  else { p with shiftActive := false } : Pace).promote.settle

theorem shiftComplete_pace (F : Files ω) (p : Port ω) :
    ∃ acked : Bool, (shiftComplete F p).1.pace = p.pace.completed acked := by
  by_cases h : (p.core.processByte F p.pace.shiftByte).1.stat &&& statAck ≠ 0
  · refine ⟨true, ?_⟩
    simp only [shiftComplete]
    rw [if_pos h]
    rfl
  · refine ⟨false, ?_⟩
    simp only [shiftComplete]
    rw [if_neg h]
    rfl

theorem fireAckIrq_pace (after : ℤ) (p : Port ω) :
    (fireAckIrq after p).1.pace = ({ p.pace with pendingAckIrqEn := false } : Pace).settle ∨
      (fireAckIrq after p).1.pace = { p.pace with pendingAckIrqEn := false } := by
  unfold fireAckIrq
  dsimp only
  split_ifs
  · exact Or.inl rfl
  · exact Or.inr rfl

namespace Pace

theorem settle_eq (p : Pace) : p.settle = { p with timingActive := p.settle.timingActive } := by
  unfold settle
  split_ifs <;> rfl

theorem Counted.settle {p : Pace} (h : p.Counted) : p.settle.Counted := by
  unfold Pace.settle
  split_ifs with hwork
  · exact h
  · refine ⟨h.shift, h.ack, h.buffered, ?_⟩
    intro hactive
    simp only at hactive
    rcases hactive with hs | ha
    · simp [hs] at hwork
    · simp [ha] at hwork

theorem Counted.completed {p : Pace} (h : p.Counted) (hs : p.shiftActive = true) (acked : Bool) :
    (p.completed acked).Counted := by
  have hgate := h.gate (Or.inl hs)
  unfold Pace.completed
  refine Counted.settle ?_
  have hack := h.ack
  have hbaud : 0 ≤ baudCycles := by decide
  have hpulse : 0 ≤ ackCycles := by decide
  cases acked <;> cases hb : p.txBuffered
  all_goals
    refine ⟨?_, ?_, ?_, ?_⟩
    all_goals simp [promote, hgate]
  case false.false.refine_2 | false.true.refine_2 => exact hack
  case false.true.refine_1 | true.true.refine_1 => exact hbaud
  case true.false.refine_2 | true.true.refine_2 => exact ⟨hpulse, hbaud⟩

theorem work_settle (p : Pace) : p.settle.work = p.work := by
  rw [settle_eq]
  rfl

/-- A byte that is complete leaves fewer deadlines. -/
theorem work_completed {p : Pace} (hs : p.shiftActive = true) (acked : Bool) :
    (p.completed acked).work < p.work := by
  unfold Pace.completed
  rw [work_settle]
  cases acked <;> cases hb : p.txBuffered <;> cases ha : p.pendingAck <;>
    simp [promote, work, hb, ha, hs]

/-- An acknowledge armed by one byte comes before the byte behind it is complete. -/
theorem InOrder.completed {p : Pace} (h : p.pendingAck = false) (acked : Bool) :
    (p.completed acked).InOrder := by
  unfold Pace.completed
  rw [settle_eq]
  have hlt : ackCycles < baudCycles := by decide
  unfold InOrder promote
  grind

end Pace

/-- The deadline that is met is under way. -/
theorem Pace.due_kind {p : Pace} (hd : p.due = some (d, k)) :
    k = .shift ∧ p.shiftActive = true ∨ k = .ack ∧ p.pendingAck = true := by
  unfold Pace.due at hd
  grind

theorem meet_counted (h : p.pace.Counted) (hd : p.pace.due = some (d, k)) (after : ℤ) :
    (meet F k after p).1.pace.Counted := by
  rcases Pace.due_kind hd with ⟨rfl, hs⟩ | ⟨rfl, -⟩
  · obtain ⟨acked, hpace⟩ := shiftComplete_pace F p
    rw [meet, hpace]
    exact h.completed hs acked
  · have hdone : ({ p.pace with pendingAck := false, pendingAckIrqEn := false } : Pace).Counted :=
      ⟨h.shift, by simp, h.buffered, fun ha => h.gate (Or.inl (by simpa using ha))⟩
    rcases fireAckIrq_pace after { p with pace := { p.pace with pendingAck := false } } with h' | h'
    · rw [meet, h']
      exact hdone.settle
    · rw [meet, h']
      exact hdone

theorem meet_work (hd : p.pace.due = some (d, k)) (after : ℤ) :
    (meet F k after p).1.pace.work < p.pace.work := by
  rcases Pace.due_kind hd with ⟨rfl, hs⟩ | ⟨rfl, ha⟩
  · obtain ⟨acked, hpace⟩ := shiftComplete_pace F p
    rw [meet, hpace]
    exact Pace.work_completed hs acked
  · have hdone : ({ p.pace with pendingAck := false, pendingAckIrqEn := false } : Pace).work <
        p.pace.work := by
      simp [Pace.work, ha]
    rcases fireAckIrq_pace after { p with pace := { p.pace with pendingAck := false } } with h' | h'
    · rw [meet, h', Pace.work_settle]
      exact hdone
    · rw [meet, h']
      exact hdone

theorem meet_inOrder (h : p.pace.InOrder) (hd : p.pace.due = some (d, k)) (after : ℤ) :
    (meet F k after p).1.pace.InOrder := by
  rcases Pace.due_kind hd with ⟨rfl, -⟩ | ⟨rfl, -⟩
  · obtain ⟨acked, hpace⟩ := shiftComplete_pace F p
    rw [meet, hpace]
    exact Pace.InOrder.completed (h.no_ack hd) acked
  · intro ha
    rcases fireAckIrq_pace after { p with pace := { p.pace with pendingAck := false } } with h' | h'
    · rw [meet, h', Pace.settle_eq] at ha
      cases ha
    · rw [meet, h'] at ha
      cases ha

/-! ## The walk -/

theorem Port.elapse_zero (p : Port ω) : p.elapse 0 = p := by
  rw [Port.elapse, Pace.elapse_zero]

theorem Port.elapse_elapse (p : Port ω) (s t : ℤ) : (p.elapse s).elapse t = p.elapse (s + t) := by
  simp only [Port.elapse, Pace.elapse_elapse]

theorem Port.elapse_due (hd : p.pace.due = some (d, k)) (t : ℤ) :
    (p.elapse t).pace.due = some (d - t, k) := by
  rw [Port.elapse, Pace.due_elapse, hd]
  rfl

/-- Nothing is due within the cycles. -/
def Port.Quiet (t : ℤ) (p : Port ω) : Prop := ∀ d k, p.pace.due = some (d, k) → t < d

theorem Pace.overdue_of_due {q : Pace} (hd : q.due = some (0, k)) : q.overdue = true := by
  unfold Pace.due at hd
  unfold Pace.overdue
  grind

theorem paceWalk_due (h : p.pace.Counted) (hd : p.pace.due = some (d, k)) {remaining : ℤ}
    (hle : d ≤ remaining) (cycles : ℤ) (passes : ℕ) :
    paceWalk F cycles (passes + 1) remaining p =
      let r := meet F k (cycles - (remaining - d)) (p.elapse d)
      let s := paceWalk F cycles passes (remaining - d) r.1
      (s.1, r.2 ++ s.2) := by
  have hpos := h.due_nonneg hd
  have hgo : 0 < remaining ∨ p.pace.overdue = true := by
    rcases hpos.lt_or_eq with hlt | rfl
    · exact Or.inl (by omega)
    · exact Or.inr (Pace.overdue_of_due hd)
  rw [paceWalk, if_pos hgo]
  simp only [Pace.nextEvent_due h hd hle]
  rcases Pace.due_kind hd with ⟨rfl, -⟩ | ⟨rfl, -⟩
  · rfl
  · rfl

theorem paceWalk_quiet {remaining : ℤ} (hr : 0 ≤ remaining)
    (hq : p.Quiet remaining) (cycles : ℤ) (passes : ℕ) :
    paceWalk F cycles (passes + 1) remaining p = (p.elapse remaining, []) := by
  rw [paceWalk]
  split_ifs with hgo
  · simp only [Pace.nextEvent_idle hr hq]
    rfl
  · obtain rfl : remaining = 0 := by omega
    rw [Port.elapse_zero]

theorem elapse_due_counted (h : p.pace.Counted) (hd : p.pace.due = some (d, k)) :
    (p.elapse d).pace.Counted :=
  h.elapse (h.due_nonneg hd) fun d' k' hd' => by
    rw [hd] at hd'
    cases hd'
    exact le_rfl

/-- The port behind a deadline that is met keeps its counts and has fewer deadlines. -/
theorem met (h : p.pace.Counted) (hd : p.pace.due = some (d, k)) (after : ℤ) :
    (meet F k after (p.elapse d)).1.pace.Counted ∧
      (meet F k after (p.elapse d)).1.pace.work < p.pace.work :=
  ⟨meet_counted (elapse_due_counted h hd) (Port.elapse_due hd d) after,
    meet_work (Port.elapse_due hd d) after⟩

/-- Either nothing is due within the cycles or a deadline is. -/
theorem Port.quiet_or_due (p : Port ω) (t : ℤ) :
    p.Quiet t ∨ ∃ d k, p.pace.due = some (d, k) ∧ d ≤ t := by
  by_cases hq : p.Quiet t
  · exact Or.inl hq
  · simp only [Port.Quiet, not_forall, not_lt] at hq
    obtain ⟨d, k, hd, hle⟩ := hq
    exact Or.inr ⟨d, k, hd, hle⟩

/-- Passes beyond what the deadlines can need change nothing. -/
theorem paceWalk_enough (h : p.pace.Counted) {remaining : ℤ} (hr : 0 ≤ remaining) (cycles : ℤ)
    {m n : ℕ} (hm : p.pace.work < m) (hn : p.pace.work < n) :
    paceWalk F cycles m remaining p = paceWalk F cycles n remaining p := by
  induction m generalizing n p remaining with
  | zero => omega
  | succ m ih =>
    obtain ⟨n, rfl⟩ := Nat.exists_eq_succ_of_ne_zero (by omega : n ≠ 0)
    rcases p.quiet_or_due remaining with hq | ⟨d, k, hd, hle⟩
    · rw [paceWalk_quiet hr hq, paceWalk_quiet hr hq]
    · rw [paceWalk_due h hd hle, paceWalk_due h hd hle]
      obtain ⟨hcounted, hwork⟩ := met (F := F) h hd (cycles - (remaining - d))
      dsimp only
      rw [ih hcounted (sub_nonneg.2 hle) (by omega) (by omega : _ < n)]

/-- The walk leaves no deadline due. -/
theorem paceWalk_timed (h : p.pace.Counted) {remaining : ℤ} (hr : 0 ≤ remaining) (cycles : ℤ)
    {passes : ℕ} (hp : p.pace.work < passes) :
    (paceWalk F cycles passes remaining p).1.pace.Timed := by
  induction passes generalizing p remaining with
  | zero => omega
  | succ passes ih =>
    rcases p.quiet_or_due remaining with hq | ⟨d, k, hd, hle⟩
    · rw [paceWalk_quiet hr hq]
      exact h.timed hr hq
    · rw [paceWalk_due h hd hle]
      obtain ⟨hcounted, hwork⟩ := met (F := F) h hd (cycles - (remaining - d))
      exact ih hcounted (sub_nonneg.2 hle) (by omega)

theorem paceWalk_work (h : p.pace.Counted) {remaining : ℤ} (hr : 0 ≤ remaining) (cycles : ℤ)
    (passes : ℕ) : (paceWalk F cycles passes remaining p).1.pace.work ≤ p.pace.work := by
  induction passes generalizing p remaining with
  | zero => exact le_rfl
  | succ passes ih =>
    rcases p.quiet_or_due remaining with hq | ⟨d, k, hd, hle⟩
    · rw [paceWalk_quiet hr hq]
      exact (Pace.work_elapse _ _).le
    · rw [paceWalk_due h hd hle]
      obtain ⟨hcounted, hwork⟩ := met (F := F) h hd (cycles - (remaining - d))
      exact (ih hcounted (sub_nonneg.2 hle)).trans hwork.le

theorem paceWalk_inOrder (h : p.pace.Counted) (ho : p.pace.InOrder) {remaining : ℤ}
    (hr : 0 ≤ remaining) (cycles : ℤ) {passes : ℕ} (hp : p.pace.work < passes) :
    (paceWalk F cycles passes remaining p).1.pace.InOrder := by
  induction passes generalizing p remaining with
  | zero => omega
  | succ passes ih =>
    rcases p.quiet_or_due remaining with hq | ⟨d, k, hd, hle⟩
    · rw [paceWalk_quiet hr hq]
      exact ho.elapse hr
    · rw [paceWalk_due h hd hle]
      obtain ⟨hcounted, hwork⟩ := met (F := F) h hd (cycles - (remaining - d))
      exact ih hcounted
        (meet_inOrder (ho.elapse (h.due_nonneg hd)) (Port.elapse_due hd d) _)
        (sub_nonneg.2 hle) (by omega)

/-- The walk over `a + b` cycles is the walk over `a` and then the walk over `b`. -/
theorem paceWalk_add (h : p.pace.Counted) {a b : ℤ} (ha : 0 ≤ a) (hb : 0 ≤ b) (cycles : ℤ)
    {passes : ℕ} (hp : p.pace.work < passes) :
    paceWalk F cycles passes (a + b) p =
      let r := paceWalk F (cycles - b) passes a p
      let s := paceWalk F cycles passes b r.1
      (s.1, r.2 ++ s.2) := by
  induction passes generalizing p a with
  | zero => omega
  | succ passes ih =>
    rcases p.quiet_or_due a with hq | ⟨d, k, hd, hle⟩
    · rw [paceWalk_quiet ha hq]
      have hstill : (p.elapse a).pace.Counted := (h.timed ha hq).toCounted
      dsimp only
      rw [List.nil_append]
      rcases p.quiet_or_due (a + b) with hq' | ⟨d, k, hd, hle⟩
      · have hrest : (p.elapse a).Quiet b := fun d k hd => by
          rw [Port.elapse, Pace.due_elapse] at hd
          obtain ⟨⟨d', k'⟩, hd', he⟩ := Option.map_eq_some_iff.1 hd
          have := hq' d' k' hd'
          cases he
          omega
        rw [paceWalk_quiet (by omega) hq', paceWalk_quiet hb hrest, Port.elapse_elapse]
      · rw [paceWalk_due h hd hle, paceWalk_due hstill (Port.elapse_due hd a) (by omega)]
        rw [Port.elapse_elapse, show a + (d - a) = d by omega,
          show b - (d - a) = a + b - d by omega]
    · rw [paceWalk_due h hd (by omega), paceWalk_due h hd hle]
      obtain ⟨hcounted, hwork⟩ := met (F := F) h hd (cycles - b - (a - d))
      dsimp only
      rw [show cycles - (a + b - d) = cycles - b - (a - d) by omega,
        show a + b - d = a - d + b by omega, ih hcounted (sub_nonneg.2 hle) (by omega)]
      dsimp only
      rw [List.append_assoc]
      have hleft := paceWalk_work (F := F) hcounted (sub_nonneg.2 hle) (cycles - b) passes
      have hfuel : (meet F k (cycles - b - (a - d)) (p.elapse d)).1.pace.work < passes := by omega
      have hcalm :=
        (paceWalk_timed (F := F) hcounted (sub_nonneg.2 hle) (cycles - b) hfuel).toCounted
      rw [paceWalk_enough hcalm hb cycles (m := passes) (n := passes + 1) (by omega) (by omega)]

/-! ## A call -/

/-- An event of a part of the cycles, as the whole call shows it. -/
def Event.later (t : ℤ) : Event → Event
  | .irq after => .irq (t + after)
  | e => e

theorem fireAckIrq_later (t after : ℤ) (p : Port ω) :
    fireAckIrq (t + after) p =
      ((fireAckIrq after p).1, (fireAckIrq after p).2.map (Event.later t)) := by
  unfold fireAckIrq
  dsimp only
  split_ifs <;> rfl

theorem paceWalk_later (t cycles : ℤ) (passes : ℕ) (remaining : ℤ) (p : Port ω) :
    paceWalk F (t + cycles) passes remaining p =
      ((paceWalk F cycles passes remaining p).1,
        (paceWalk F cycles passes remaining p).2.map (Event.later t)) := by
  induction passes generalizing remaining p with
  | zero => rfl
  | succ passes ih =>
    rw [paceWalk, paceWalk]
    split_ifs
    · dsimp only
      split
      · rw [ih]
        rfl
      · rw [add_sub_assoc, fireAckIrq_later, ih, List.map_append]
      · rfl
    · rfl

theorem Pace.Timed.due_pos {q : Pace} (h : q.Timed) (hd : q.due = some (d, k)) : 0 < d := by
  have hs := h.shift_pos
  have ha := h.ack_pos
  unfold Pace.due at hd
  grind

/-- While the gate is shut nothing is under way. -/
theorem Pace.Counted.idle {q : Pace} (h : q.Counted) (hgate : q.timingActive = false) :
    q.shiftActive = false ∧ q.pendingAck = false := by
  have := h.gate
  grind

theorem sioAdvance_eq_walk (h : p.pace.Timed) {n : BitVec 32} (hn : 0 ≤ n.toInt) :
    sioAdvance F n p = paceWalk F n.toInt (p.pace.work + 1) n.toInt p := by
  unfold sioAdvance
  split_ifs with hno
  · rcases hno with rfl | hgate
    · have hq : p.Quiet (0 : BitVec 32).toInt := fun d k hd => h.due_pos hd
      rw [paceWalk_quiet hn hq]
      exact congrArg (·, []) p.elapse_zero.symm
    · obtain ⟨hs, ha⟩ := h.idle hgate
      have hq : p.Quiet n.toInt := fun d k hd => by simp [Pace.due, hs, ha] at hd
      rw [paceWalk_quiet hn hq, Port.elapse, Pace.elapse_still hs ha]
  · rfl

/-- A call with an argument from `2^31` on is a walk over a negative number of cycles. -/
theorem sioAdvance_negative (h : p.pace.Timed) {n : BitVec 32} (hn : n.toInt < 0) :
    sioAdvance F n p = (p, []) := by
  unfold sioAdvance
  split_ifs
  · rfl
  · have hover : p.pace.overdue = false := by
      have hs := h.shift_pos
      have ha := h.ack_pos
      unfold Pace.overdue
      grind
    rw [paceWalk, if_neg]
    simp [hover, hn.le]

theorem sioAdvance_timed (h : p.pace.Timed) (n : BitVec 32) :
    (sioAdvance F n p).1.pace.Timed := by
  rcases lt_or_ge n.toInt 0 with hn | hn
  · rw [sioAdvance_negative h hn]
    exact h
  · rw [sioAdvance_eq_walk h hn]
    exact paceWalk_timed h.toCounted hn _ (Nat.lt_add_one _)

theorem sioAdvance_inOrder (h : p.pace.Timed) (ho : p.pace.InOrder) (n : BitVec 32) :
    (sioAdvance F n p).1.pace.InOrder := by
  rcases lt_or_ge n.toInt 0 with hn | hn
  · rw [sioAdvance_negative h hn]
    exact ho
  · rw [sioAdvance_eq_walk h hn]
    exact paceWalk_inOrder h.toCounted ho hn _ (Nat.lt_add_one _)

theorem sioAdvance_add (h : p.pace.Timed) {a b : BitVec 32} (hab : a.toNat + b.toNat < 2 ^ 31) :
    sioAdvance F (a + b) p =
      let r := sioAdvance F a p
      let s := sioAdvance F b r.1
      (s.1, r.2 ++ s.2.map (Event.later a.toNat)) := by
  have hint {n : BitVec 32} (hn : n.toNat < 2 ^ 31) : n.toInt = n.toNat :=
    BitVec.toInt_eq_toNat_of_lt (by omega)
  have ha := hint (n := a) (by omega)
  have hb := hint (n := b) (by omega)
  have hsum : (a + b).toInt = a.toInt + b.toInt := by
    rw [hint (by rw [BitVec.toNat_add]; omega), BitVec.toNat_add, Nat.mod_eq_of_lt (by omega), ha, hb]
    push_cast
    rfl
  have ha₀ : 0 ≤ a.toInt := by omega
  have hb₀ : 0 ≤ b.toInt := by omega
  have hafter := sioAdvance_timed (F := F) h a
  dsimp only
  rw [sioAdvance_eq_walk hafter hb₀, sioAdvance_eq_walk h ha₀, sioAdvance_eq_walk h (by omega), hsum,
    paceWalk_add h.toCounted ha₀ hb₀ _ (Nat.lt_add_one _), add_sub_cancel_right]
  dsimp only
  rw [paceWalk_later, ← ha]
  have hcalm := paceWalk_timed (F := F) h.toCounted ha₀ a.toInt (Nat.lt_add_one _)
  have hwork := paceWalk_work (F := F) h.toCounted ha₀ a.toInt (p.pace.work + 1)
  rw [paceWalk_enough hcalm.toCounted hb₀ b.toInt (m := p.pace.work + 1) (by omega)
    (Nat.lt_add_one _)]

/-! ## Reachable ports -/

/-- The pacing between two calls; pad bytes that are not shifted keep no order. -/
structure Paced (sync : Bool) (q : Pace) : Prop where
  timed : q.Timed
  inOrder : sync = false → q.InOrder

variable {sync : Bool}

theorem Paced.cleared (q : Pace) : Paced sync q.cleared :=
  ⟨⟨⟨by simp [Pace.cleared], by simp [Pace.cleared], by simp [Pace.cleared], by simp [Pace.cleared]⟩,
    by simp [Pace.cleared], by simp [Pace.cleared]⟩, fun _ => by simp [Pace.InOrder, Pace.cleared]⟩

/-- Owner and position on the bus do not count. -/
theorem Paced.bus {q : Pace} (h : Paced sync q) (owner : BusOwner) (byteIndex : BitVec 32) :
    Paced sync { q with owner := owner, byteIndex := byteIndex } :=
  ⟨⟨⟨h.timed.shift, h.timed.ack, h.timed.buffered, h.timed.gate⟩, h.timed.shift_pos, h.timed.ack_pos⟩,
    h.inOrder⟩

theorem Paced.released {q : Pace} (h : Paced sync q) : Paced sync q.released := h.bus _ _

theorem Paced.start {q : Pace} (h : Paced sync q) (b : Byte) (ackIrqEn : Bool) :
    Paced sync { q with
      shiftByte := b, shiftActive := true, shiftRemaining := baudCycles,
      shiftAckIrqEn := ackIrqEn, timingActive := true } := by
  refine ⟨⟨⟨fun _ => by simp [baudCycles], h.timed.ack, fun _ => rfl, fun _ => rfl⟩,
    fun _ => by simp [baudCycles], h.timed.ack_pos⟩, fun hsync hack => ?_⟩
  have hlate := (h.inOrder hsync hack).1
  refine ⟨hlate, fun _ => ?_⟩
  simp only [ackCycles, baudCycles] at hlate ⊢
  omega

theorem Paced.buffer {q : Pace} (h : Paced sync q) (hs : q.shiftActive = true) (b : Byte)
    (ackIrqEn : Bool) :
    Paced sync { q with txBuffer := b, txBuffered := true, txBufferAckIrqEn := ackIrqEn } :=
  ⟨⟨⟨h.timed.shift, h.timed.ack, fun _ => hs, h.timed.gate⟩, h.timed.shift_pos, h.timed.ack_pos⟩,
    h.inOrder⟩

theorem Paced.queueByte (h : Paced sync p.pace) (b : Byte) : Paced sync (queueByte b p).pace := by
  unfold Sio.queueByte
  dsimp only
  by_cases hs : p.pace.shiftActive = false
  · rw [if_pos hs]
    exact (h.start b _).bus _ _
  · rw [if_neg hs]
    by_cases hb : p.pace.txBuffered = false
    · rw [if_pos hb]
      exact (h.buffer (by simpa using hs) b _).bus _ _
    · rw [if_neg hb]
      exact h.bus _ _

/-- A byte that is not shifted arms its acknowledge a whole byte ahead. -/
theorem Paced.syncByte (F : Files ω) (p : Port ω) (b : Byte) : Paced true (syncByte F b p).1.pace := by
  unfold Sio.syncByte
  dsimp only
  split_ifs
  · exact ⟨⟨⟨by simp [Pace.cleared], fun _ => by simp [baudCycles, ackCycles], by simp [Pace.cleared],
      fun _ => rfl⟩, by simp [Pace.cleared], fun _ => by simp [baudCycles, ackCycles]⟩, by simp⟩
  · exact (Paced.cleared p.pace).bus _ _

theorem Paced.writeData (h : Paced sync p.pace) (value : BitVec 32) :
    Paced sync (writeData F sync value p).1.pace := by
  unfold Sio.writeData
  dsimp only
  split_ifs with _ hsync
  · exact h
  · obtain rfl : sync = true := by
      unfold isSyncByte at hsync
      cases sync with
      | false => simp at hsync
      | true => rfl
    exact Paced.syncByte F _ _
  · exact Paced.queueByte (p := ⟨{ p.core with txData := value.setWidth 8 }, p.pace⟩) h _

theorem Paced.stopShifter (h : Paced sync p.pace) (select : Bool) :
    Paced sync (stopShifter select p).pace := by
  unfold Sio.stopShifter
  dsimp only
  split_ifs
  · exact Paced.cleared _
  · exact (Paced.cleared _).released
  · exact h

theorem Paced.resetPort (p : Port ω) : Paced sync (resetPort p).pace := (Paced.cleared _).released

theorem Paced.deselect (p : Port ω) : Paced sync (deselect p).pace := (Paced.cleared _).released

theorem Paced.ite {q : Port ω} (h : Paced sync p.pace) (b : Bool) (hq : Paced sync q.pace) :
    Paced sync (if b then q else p).pace := by
  cases b with
  | true => exact hq
  | false => exact h

theorem Paced.select (h : Paced sync p.pace) (b : Bool) :
    Paced sync (if b then { p with pace := p.pace.released } else p : Port ω).pace :=
  Paced.ite (q := { p with pace := p.pace.released }) h b h.released

theorem Paced.writeCtrl (h : Paced sync p.pace) (value : BitVec 32) :
    Paced sync (writeCtrl value p).1.pace := by
  unfold Sio.writeCtrl
  dsimp only
  refine Paced.ite (Paced.ite ?_ _ (Paced.stopShifter ?_ _)) _ (Paced.deselect _)
  all_goals
    refine Paced.select (Paced.ite ?_ _ (Paced.resetPort _)) _
    split_ifs <;> exact h

theorem sioTick_pace (p : Port ω) : (sioTick p).1.pace = p.pace := by
  unfold sioTick
  dsimp only
  split_ifs <;> rfl

theorem Paced.sioWrite (h : Paced sync p.pace) (addr value : BitVec 32) :
    Paced sync (sioWrite F sync addr value p).1.pace := by
  unfold Sio.sioWrite
  dsimp only
  rw [sioTick_pace]
  split_ifs
  · exact h.writeData value
  · exact h
  · exact h.writeCtrl value
  · exact h
  · exact h

theorem sioRead_pace (addr : BitVec 32) (p : Port ω) : (sioRead addr p).1.pace = p.pace := by
  unfold sioRead
  dsimp only
  split_ifs <;> exact sioTick_pace p

theorem Paced.call (h : Paced sync p.pace) (c : Call) : Paced sync (call F sync p c).1.pace := by
  cases c with
  | write addr value => exact h.sioWrite addr value
  | read addr =>
    rw [Sio.call, sioRead_pace]
    exact h
  | advance cycles =>
    exact ⟨sioAdvance_timed h.timed cycles, fun hs => sioAdvance_inOrder h.timed (h.inOrder hs) cycles⟩
  | tick =>
    rw [Sio.call, sioTick_pace]
    exact h
  | host c => exact h

theorem Paced.run (h : Paced sync p.pace) (calls : List Call) :
    Paced sync (run F sync p calls).1.pace := by
  induction calls generalizing p with
  | nil => exact h
  | cons c calls ih => exact ih (h.call c)

theorem Paced.init (p : Port ω) : Paced sync (sioInit p).pace := (Paced.cleared _).released

/-! ## The next interrupt -/

/-- `sio_cycles_to_irq` -/
def sioCyclesToIrq (iMask : BitVec 32) (p : Port ω) : BitVec 32 :=
  if iMask.getLsbD 7 = false then 0xFFFFFFFF
  else
    let best : BitVec 32 := 0xFFFFFFFF
    let best := if p.core.irqPending ∧ 0 < p.core.irqCountdown ∧
        BitVec.ofInt 32 p.core.irqCountdown < best then BitVec.ofInt 32 p.core.irqCountdown
      else best
    if p.pace.timingActive then
      let best := if p.pace.pendingAck ∧ 0 < p.pace.ackRemaining ∧
          BitVec.ofInt 32 p.pace.ackRemaining < best then BitVec.ofInt 32 p.pace.ackRemaining
        else best
      if p.pace.shiftActive ∧ 0 < p.pace.shiftRemaining ∧
          BitVec.ofInt 32 p.pace.shiftRemaining < best then BitVec.ofInt 32 p.pace.shiftRemaining
      else best
    else best

theorem sioCyclesToIrq_le {iMask : BitVec 32} (hmask : iMask.getLsbD 7 = true)
    (hgate : p.pace.timingActive = true) :
    (p.pace.pendingAck = true → 0 < p.pace.ackRemaining →
      sioCyclesToIrq iMask p ≤ BitVec.ofInt 32 p.pace.ackRemaining) ∧
    (p.pace.shiftActive = true → 0 < p.pace.shiftRemaining →
      sioCyclesToIrq iMask p ≤ BitVec.ofInt 32 p.pace.shiftRemaining) := by
  unfold sioCyclesToIrq
  rw [if_neg (by simp [hmask]), if_pos hgate]
  dsimp only
  constructor
  · intro hack hpos
    simp only [hack, hpos, true_and]
    grind
  · intro hshift hpos
    simp only [hshift, hpos, true_and]
    grind

theorem ofInt_toNat {x : ℤ} (hx : 0 ≤ x) (hlt : x < 2 ^ 31) : ((BitVec.ofInt 32 x).toNat : ℤ) = x := by
  rw [BitVec.toNat_ofInt]
  omega

/-- Short of the next interrupt no deadline is met. -/
theorem sioAdvance_quiet (h : p.pace.Timed) {iMask n : BitVec 32} (hmask : iMask.getLsbD 7 = true)
    (hn : n < sioCyclesToIrq iMask p) : (sioAdvance F n p).2 = [] := by
  rcases lt_or_ge n.toInt 0 with hneg | hpos
  · rw [sioAdvance_negative h hneg]
  · have hint : n.toInt = n.toNat := by
      rw [BitVec.toInt_eq_toNat_cond] at hpos ⊢
      split_ifs at hpos ⊢ <;> omega
    have hbefore {x : ℤ} (hx : 0 ≤ x) (hlt : x < 2 ^ 31)
        (hle : sioCyclesToIrq iMask p ≤ BitVec.ofInt 32 x) : n.toInt < x := by
      have hlt' := BitVec.lt_def.1 hn
      have hle' := BitVec.le_def.1 hle
      have := ofInt_toNat hx hlt
      omega
    have hq : p.Quiet n.toInt := by
      intro d k hd
      have hgate : p.pace.timingActive = true := by
        rcases Pace.due_kind hd with ⟨-, hs⟩ | ⟨-, ha⟩
        · exact h.gate (Or.inl hs)
        · exact h.gate (Or.inr ha)
      obtain ⟨hack, hshift⟩ := sioCyclesToIrq_le hmask hgate
      have hbaud : baudCycles = 1088 := rfl
      have hpulse : ackCycles = 170 := rfl
      have h₁ : p.pace.pendingAck = true → n.toInt < p.pace.ackRemaining := fun ha =>
        hbefore (h.ack ha).1 (by have := (h.ack ha).2; omega) (hack ha (h.ack_pos ha))
      have h₂ : p.pace.shiftActive = true → n.toInt < p.pace.shiftRemaining := fun hs =>
        hbefore (h.shift hs).1 (by have := (h.shift hs).2; omega) (hshift hs (h.shift_pos hs))
      unfold Pace.due at hd
      grind
    rw [sioAdvance_eq_walk h hpos, paceWalk_quiet hpos hq]

/-! ## Bytes and acknowledges in order -/

theorem toInt_ofInt {x : ℤ} (hx : 0 ≤ x) (hlt : x < 2 ^ 31) : (BitVec.ofInt 32 x).toInt = x := by
  rw [BitVec.toInt_ofInt]
  exact Int.bmod_eq_of_le (by omega) (by omega)

theorem fireAckIrq_shift (after : ℤ) (p : Port ω) :
    (fireAckIrq after p).1.pace.shiftActive = p.pace.shiftActive ∧
      (fireAckIrq after p).1.pace.shiftRemaining = p.pace.shiftRemaining ∧
      (fireAckIrq after p).1.pace.pendingAck = p.pace.pendingAck := by
  rcases fireAckIrq_pace after p with h | h
  · rw [h, Pace.settle_eq]
    exact ⟨rfl, rfl, rfl⟩
  · rw [h]
    exact ⟨rfl, rfl, rfl⟩

theorem fireAckIrq_events (after : ℤ) (p : Port ω) :
    (fireAckIrq after p).2 =
      if p.pace.pendingAckIrqEn || p.core.ctrl.getLsbD ctrlAckIrqEn then [.irq after] else [] := by
  unfold fireAckIrq
  dsimp only
  split_ifs <;> rfl

/-- One cycle before a byte is complete the acknowledge of the byte before it has been given. -/
theorem ack_before_shift (h : p.pace.Timed) (ho : p.pace.InOrder) (hs : p.pace.shiftActive = true) :
    let r := sioAdvance F (BitVec.ofInt 32 (p.pace.shiftRemaining - 1)) p
    r.1.pace.shiftActive = true ∧ r.1.pace.shiftRemaining = 1 ∧ r.1.pace.pendingAck = false ∧
      r.2 = if p.pace.pendingAck && (p.pace.pendingAckIrqEn || p.core.ctrl.getLsbD ctrlAckIrqEn) then
          [.irq p.pace.ackRemaining]
        else [] := by
  have hpos := h.shift_pos hs
  have hmax := (h.shift hs).2
  have hbaud : baudCycles = 1088 := rfl
  have hint : (BitVec.ofInt 32 (p.pace.shiftRemaining - 1)).toInt = p.pace.shiftRemaining - 1 :=
    toInt_ofInt (by omega) (by omega)
  dsimp only
  rw [sioAdvance_eq_walk h (by omega), hint]
  cases hack : p.pace.pendingAck with
  | false =>
    have hq : p.Quiet (p.pace.shiftRemaining - 1) := by
      intro d k hd
      simp [Pace.due, hs, hack] at hd
      omega
    rw [paceWalk_quiet (by omega) hq]
    simp [Port.elapse, Pace.elapse, hs, hack]
  | true =>
    obtain ⟨-, hlt⟩ := ho hack
    have hlt := hlt hs
    have hd : p.pace.due = some (p.pace.ackRemaining, .ack) := by
      simp [Pace.due, hs, hack, hlt]
    obtain ⟨w, hw⟩ := Nat.exists_eq_succ_of_ne_zero (by simp [Pace.work, hs] : p.pace.work ≠ 0)
    rw [paceWalk_due h.toCounted hd (by omega), hw, sub_sub_cancel]
    generalize hm : meet F .ack p.pace.ackRemaining (p.elapse p.pace.ackRemaining) = m
    obtain ⟨h₁, h₂, h₃⟩ : m.1.pace.shiftActive = true ∧
        m.1.pace.shiftRemaining = p.pace.shiftRemaining - p.pace.ackRemaining ∧
        m.1.pace.pendingAck = false := by
      obtain ⟨h₁, h₂, h₃⟩ := fireAckIrq_shift p.pace.ackRemaining
        ⟨p.core, { p.pace.elapse p.pace.ackRemaining with pendingAck := false }⟩
      rw [← hm]
      refine ⟨h₁.trans hs, h₂.trans ?_, h₃⟩
      simp [Pace.elapse, hs]
    have hq : m.1.Quiet (p.pace.shiftRemaining - 1 - p.pace.ackRemaining) := by
      intro d k hd
      simp [Pace.due, h₁, h₂, h₃] at hd
      omega
    dsimp only
    rw [paceWalk_quiet (by omega) hq, List.append_nil]
    refine ⟨h₁, ?_, h₃, ?_⟩
    · simp only [Port.elapse, Pace.elapse, h₁, if_true, h₂]
      omega
    · rw [← hm, Bool.true_and]
      exact fireAckIrq_events _ _

/-- Between two calls of any run the walk over some cycles below `2^31` is the walk over their
parts, nothing is under way behind a shut gate, and nothing is raised short of the next interrupt
that the port announces. Where every byte is shifted, the acknowledge of a byte is given before the
byte behind it is complete. -/
theorem sio_pacing (F : Files ω) (sync : Bool) (p : Port ω) (calls : List Call) :
    let q := (run F sync (sioInit p) calls).1
    (∀ a b : BitVec 32, a.toNat + b.toNat < 2 ^ 31 → sioAdvance F (a + b) q =
      let r := sioAdvance F a q
      let s := sioAdvance F b r.1
      (s.1, r.2 ++ s.2.map (Event.later a.toNat))) ∧
    ((q.pace.shiftActive || q.pace.txBuffered || q.pace.pendingAck) = true →
      q.pace.timingActive = true) ∧
    (sync = false → q.pace.shiftActive = true →
      (q.pace.pendingAck = true → 0 < q.pace.ackRemaining ∧
        q.pace.ackRemaining < q.pace.shiftRemaining) ∧
      let r := sioAdvance F (BitVec.ofInt 32 (q.pace.shiftRemaining - 1)) q
      r.1.pace.shiftActive = true ∧ r.1.pace.shiftRemaining = 1 ∧ r.1.pace.pendingAck = false ∧
        r.2 = if q.pace.pendingAck && (q.pace.pendingAckIrqEn || q.core.ctrl.getLsbD ctrlAckIrqEn) then
            [.irq q.pace.ackRemaining]
          else []) ∧
    (∀ iMask n : BitVec 32, iMask.getLsbD 7 = true → n < sioCyclesToIrq iMask q →
      ∀ after, Event.irq after ∉ (sioAdvance F n q).2) := by
  have h : Paced sync (run F sync (sioInit p) calls).1.pace := (Paced.init p).run calls
  refine ⟨fun a b hab => sioAdvance_add h.timed hab, fun hwork => ?_, fun hsync hs => ⟨fun ha => ?_, ?_⟩,
    fun iMask n hmask hn after => ?_⟩
  · rw [Bool.or_eq_true, Bool.or_eq_true] at hwork
    rcases hwork with (hs | hb) | ha
    · exact h.timed.gate (Or.inl hs)
    · exact h.timed.gate (Or.inl (h.timed.buffered hb))
    · exact h.timed.gate (Or.inr ha)
  · exact ⟨h.timed.ack_pos ha, (h.inOrder hsync ha).2 hs⟩
  · exact ack_before_shift h.timed (h.inOrder hsync) hs
  · rw [sioAdvance_quiet h.timed hmask hn]
    exact List.not_mem_nil

/-! ## A walk over too many cycles, and a byte that is not shifted -/

def oneByte (sync : Bool) (calls : List Call) : Port Unit × List Outcome :=
  run ⟨fun _ _ _ => (), fun _ _ => 0⟩ sync
    (sioInit (.statics 2 (fun _ => ⟨false, fun _ _ => 0⟩) ())) calls

def Event.isIrq : Event → Bool
  | .irq _ => true
  | _ => false

/-- A select byte to a pad with acknowledge interrupts, and the next byte 100 cycles later. -/
def hastyPoll : List Call :=
  [.host (.connectPad 0), .write 0x1F80104A 0x1003, .write 0x1F801040 0x01, .advance 100]

/-- `2^31` cycles at once are no cycles at all; and a pad byte that is processed at the write takes
the place of an acknowledge that has not been given. -/
theorem sio_pacing_exceptions :
    (let q := (oneByte false [.write 0x1F80104A 1, .write 0x1F801040 0x01]).1
     let F : Files Unit := ⟨fun _ _ _ => (), fun _ _ => 0⟩
     (sioAdvance F 0x80000000 q).1.pace.shiftActive = true ∧
      (sioAdvance F 0x40000000 (sioAdvance F 0x40000000 q).1).1.pace.shiftActive = false) ∧
    (let q := oneByte true hastyPoll
     let r := oneByte true (hastyPoll ++ [.write 0x1F801040 0x42])
     q.1.pace.pendingAck = true ∧ q.1.pace.ackRemaining = 1158 ∧
      r.1.pace.pendingAck = true ∧ r.1.pace.ackRemaining = 1258 ∧
      r.2.all (fun o => o.events.all fun e => !e.isIrq) = true) := by
  decide

end PsxRecomp.Sio
