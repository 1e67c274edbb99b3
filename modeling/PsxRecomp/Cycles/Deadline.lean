import Mathlib
import PsxRecomp.Cycles.Sequences

/-! Servicing at deadlines refines one-cycle stepping. The catch-up loop jumps over quiet
intervals and takes every announced boundary as a cycle of its own, so the devices pass through
the states, and emit the events at the cycles, of a clock that steps one cycle at a time. -/
namespace PsxRecomp.Cycles
open Transducer
set_option autoImplicit false

variable {S R ε : Type*} (D : DeviceSet S R ε) (M : Modes)

/-! ## The reference: one guest cycle at a time -/

def referenceCycle : Step (Timed S R) (ℕ × ε) :=
  seq (advanceDevices D 0 1) (serviceScheduledEvents D 0)

/-- `n` guest cycles of the conservative path. -/
def referenceRun : ℕ → Step (Timed S R) (ℕ × ε)
  | 0 => skip
  | n + 1 => seq (serviceScheduledEvents D 0) (iterate (referenceCycle D) (n + 1))

/-- What the claim of exactness assumes of the devices: at a point where nothing is left to
service, an advance may be cut inside an interval without events, and no event comes before the
nearest announced distance. -/
structure EventExact : Prop where
  additive : AdditiveWhenQuiet (advanceDevices D 0) (Serviced D 0)
  neverLate : ∀ s n, Serviced D 0 s → n < nearestEvent D 0 s →
    QuietFor (advanceDevices D 0 1) n s

theorem referenceCycle_eq : referenceCycle D = advanceDevices D 0 1 := advance_seq_service D 0 1

theorem iterate_serviced (n : ℕ) (s : Timed S R) (hs : Serviced D 0 s) :
    Serviced D 0 (iterate (advanceDevices D 0 1) n s).1 := by
  cases n with
  | zero => exact hs
  | succ n =>
    rw [iterate_succ_last, seq_fst]
    exact serviced_after_advance D 0 1 _

theorem iterate_time (n : ℕ) (s : Timed S R) :
    (iterate (advanceDevices D 0 1) n s).1.1 = s.1 + n := by
  induction n with
  | zero => rfl
  | succ n ih => rw [iterate_succ_last, seq_fst, advanceDevices_time, ih, Nat.add_assoc]

theorem referenceRun_pos {n : ℕ} (hn : 0 < n) :
    referenceRun D n = seq (serviceScheduledEvents D 0) (iterate (advanceDevices D 0 1) n) := by
  cases n with
  | zero => exact absurd hn (lt_irrefl 0)
  | succ n => rw [referenceRun, referenceCycle_eq]

theorem referenceRun_time (n : ℕ) (s : Timed S R) : (referenceRun D n s).1.1 = s.1 + n := by
  rcases Nat.eq_zero_or_pos n with rfl | hn
  · rfl
  · rw [referenceRun_pos D hn, seq_fst, iterate_time, serviceScheduledEvents_time]

theorem referenceRun_serviced {n : ℕ} (hn : 0 < n) (s : Timed S R) :
    Serviced D 0 (referenceRun D n s).1 := by
  rw [referenceRun_pos D hn, seq_fst]
  exact iterate_serviced D n _ (serviced_after_service D 0 s)

/-- Stopping and starting again at a cycle services it twice, which is once. -/
theorem referenceRun_flow : IsFlow (referenceRun D) := by
  refine ⟨rfl, fun m n => ?_⟩
  rcases Nat.eq_zero_or_pos m with rfl | hm
  · rw [Nat.zero_add]
    exact (skip_seq _).symm
  rcases Nat.eq_zero_or_pos n with rfl | hn
  · rw [Nat.add_zero]
    exact (seq_skip _).symm
  funext s
  have hidle := serviceScheduledEvents_serviced D 0 _ (referenceRun_serviced D hm s)
  rw [referenceRun_pos D (by omega), iterate_add, ← seq_assoc, ← referenceRun_pos D hm,
    referenceRun_pos D hn]
  simp only [seq, hidle, List.nil_append]

/-! ## The catch-up loop takes the reference's steps -/

theorem nextInternalEvent_pos (pend : ℕ) (s : Timed S R) :
    0 < devicesCyclesToNextInternalEvent D pend s := by
  rw [devicesCyclesToNextInternalEvent]
  split_ifs <;> omega

/-- A chunk is one cycle, or reaches the announced event, or ends before it. -/
theorem chunkLength_cases (pend target : ℕ) (s : Timed S R) :
    chunkLength D pend target s = 1 ∨
      chunkLength D pend target s ≤ devicesCyclesToNextInternalEvent D pend s := by
  have hpos := nextInternalEvent_pos D pend s
  rw [chunkLength]
  generalize devicesCyclesToNextInternalEvent D pend s = toEv at hpos ⊢
  split_ifs <;> omega

theorem advanceChunk_iterate (hD : EventExact D) (target : ℕ) (s : Timed S R)
    (hs : Serviced D 0 s) :
    advanceChunk D 0 target s =
      iterate (advanceDevices D 0 1) (chunkLength D 0 target s) s := by
  have hpos := chunkLength_pos D 0 target s
  have hjump : ∀ n, 0 < n → n < nearestEvent D 0 s →
      advanceDevices D 0 n s = iterate (advanceDevices D 0 1) n s :=
    fun n hn hlt => jump_quiet hD.additive hn hs (hD.neverLate s n hs hlt)
  have hnear : ∀ n, 1 < n → n ≤ devicesCyclesToNextInternalEvent D 0 s →
      devicesCyclesToNextInternalEvent D 0 s = nearestEvent D 0 s := by
    intro n hn hle
    rw [devicesCyclesToNextInternalEvent] at hle ⊢
    split_ifs at hle ⊢ <;> omega
  rw [advanceChunk]
  split_ifs with hboundary
  · -- the quiet prefix, then the boundary cycle
    have hev := hnear _ hboundary.1 hboundary.2.ge
    have hprefix := hjump (chunkLength D 0 target s - 1) (by omega) (by omega)
    have hlen : chunkLength D 0 target s = chunkLength D 0 target s - 1 + 1 := by omega
    conv_rhs => rw [hlen, iterate_succ_last]
    simp only [seq, hprefix]
  · by_cases hone : chunkLength D 0 target s = 1
    · rw [hone, iterate_one]
    · -- the gap ends before the next announced event
      have hle := (chunkLength_cases D 0 target s).resolve_left hone
      have hne : devicesCyclesToNextInternalEvent D 0 s ≠ chunkLength D 0 target s :=
        fun h => hboundary ⟨by omega, h⟩
      have hlt := lt_of_le_of_ne hle hne.symm
      have hev := hnear _ (by omega) hlt.le
      exact hjump _ hpos (by omega)

theorem advanceChunk_serviced (target : ℕ) (s : Timed S R) :
    Serviced D 0 (advanceChunk D 0 target s).1 := by
  rw [advanceChunk]
  split_ifs
  · exact serviced_after_advance D 0 1 _
  · exact serviced_after_advance D 0 _ s

theorem catchUp_iterate (hD : EventExact D) (target : ℕ) (s : Timed S R) (hs : Serviced D 0 s) :
    catchUp D 0 target s = iterate (advanceDevices D 0 1) (target - s.1) s := by
  induction hm : target - s.1 using Nat.strongRecOn generalizing s with
  | _ m ih =>
    rw [catchUp]
    split_ifs with hlt
    · have hpos := chunkLength_pos D 0 target s
      have hle := chunkLength_le D 0 target s hlt
      have hserviced := advanceChunk_serviced D target s
      have hidle := serviceScheduledEvents_serviced D 0 _ hserviced
      have hchunk : seq (advanceChunk D 0 target) (serviceScheduledEvents D 0) s =
          iterate (advanceDevices D 0 1) (chunkLength D 0 target s) s := by
        rw [← advanceChunk_iterate D hD target s hs]
        simp only [seq, hidle, List.append_nil]
      have htime := iterate_time D (chunkLength D 0 target s) s
      have hrest := ih (target - (s.1 + chunkLength D 0 target s)) (by omega)
        (iterate (advanceDevices D 0 1) (chunkLength D 0 target s) s).1
        (iterate_serviced D _ s hs) (by rw [htime])
      dsimp only
      rw [hchunk, hrest]
      have hsplit : m = chunkLength D 0 target s + (target - (s.1 + chunkLength D 0 target s)) := by
        omega
      conv_rhs => rw [hsplit, iterate_add]
      rfl
    · have hz : m = 0 := by omega
      rw [hz]
      rfl

theorem exactLoop_iterate (hcons : M.eventStepConservative = true) (cycles : ℕ) (s : Timed S R) :
    exactLoop D M 0 cycles s = iterate (advanceDevices D 0 1) cycles s := by
  induction cycles generalizing s with
  | zero => rw [exactLoop, dif_neg (lt_irrefl 0), iterate_zero, skip]
  | succ n ih =>
    have hone : exactStepLength D M (n + 1) s = 1 := by
      have hle := exactStepLength_le D M (n + 1) s
      have hpos := exactStepLength_pos D M (n + 1) s (Nat.succ_pos n)
      rcases Nat.eq_zero_or_pos n with rfl | hn
      · omega
      · simp [exactStepLength, hcons, hn]
    rw [exactLoop, dif_pos (Nat.succ_pos n)]
    dsimp only
    rw [hone, Nat.add_sub_cancel, ih, advance_seq_service]
    rfl

end PsxRecomp.Cycles
