import Mathlib
import PsxRecomp.Dma.LinkedList

/-! `dma_gpu_ll_advance` spends cycles and services the events they reach. It is a flow: how a
total number of cycles is cut into calls never shows, and an event happens at its own cycle. -/
namespace PsxRecomp.Dma
open Transducer
set_option autoImplicit false

variable {ω : Type*} (ops : Ops ω) (mem : BitVec 32 → BitVec 32)

/-! ## Where a serviced event leaves the transfer -/

theorem finish_inactive (s : LinkedList × ω) : (finish ops s).1.1.active = false := by
  rw [finish]
  cases ops.complete <;> rfl

theorem nextNode_due (s : LinkedList × ω) :
    (nextNode ops s).1.1.active = false ∨
      (nextNode ops s).1.1.phase = .header ∧ (nextNode ops s).1.1.cyclesRemaining = 1 := by
  rw [nextNode]
  split_ifs
  · exact Or.inl (finish_inactive ops s)
  · exact Or.inr ⟨rfl, rfl⟩

/-- The transfer waits for a word: nothing is due before the next clock. -/
def Waiting (ll : LinkedList) : Prop :=
  ll.cyclesRemaining ≠ 0 ∧ (ll.phase = .header ∨ ll.phase = .payload)

theorem serviceHeader_cases (s : LinkedList × ω) :
    (serviceHeader ops mem s).1.1.active = false ∨ Waiting (serviceHeader ops mem s).1.1 ∨
      ((serviceHeader ops mem s).1.1.phase = .setup ∧
        (serviceHeader ops mem s).1.1.cyclesRemaining = 0) := by
  rw [serviceHeader]
  split_ifs
  · exact Or.inl (finish_inactive ops _)
  · rw [seq_fst]
    split_ifs
    · exact Or.inr (Or.inr ⟨rfl, rfl⟩)
    · rcases nextNode_due ops (beginNode ops (loadHeader ops mem s).1).1 with h | ⟨hp, hc⟩
      · exact Or.inl h
      · exact Or.inr (Or.inl ⟨by rw [seq_fst, hc]; decide, Or.inl (by rw [seq_fst, hp])⟩)

theorem servicePayload_cases (s : LinkedList × ω) (hs : s.1.phase = .payload) :
    (servicePayload ops mem s).1.1.active = false ∨ Waiting (servicePayload ops mem s).1.1 := by
  have hword : (transferWord ops mem s).1.1.phase = .payload := by
    rw [transferWord]
    split_ifs
    · cases ops.emitWord <;> exact hs
    · exact hs
  rw [servicePayload, seq_fst]
  split_ifs
  · exact Or.inr ⟨Nat.one_ne_zero, Or.inr hword⟩
  · rcases nextNode_due ops (transferWord ops mem s).1 with h | ⟨hp, hc⟩
    · exact Or.inl h
    · exact Or.inr ⟨by rw [hc]; decide, Or.inl hp⟩

/-- A serviced event ends the transfer, waits for a word, or leaves the free setup of a node. -/
theorem service_cases (s : LinkedList × ω) :
    (service ops mem s).1.1.active = false ∨ Waiting (service ops mem s).1.1 ∨
      (s.1.phase = .header ∧ (service ops mem s).1.1.phase = .setup ∧
        (service ops mem s).1.1.cyclesRemaining = 0) := by
  rw [service]
  cases hs : s.1.phase with
  | idle => exact Or.inl (finish_inactive ops _)
  | header => simpa using serviceHeader_cases ops mem s
  | setup => exact Or.inr (Or.inl ⟨Nat.one_ne_zero, Or.inr rfl⟩)
  | payload =>
    rcases servicePayload_cases ops mem s hs with h | h
    · exact Or.inl h
    · exact Or.inr (Or.inl h)

/-! ## The loop -/

/-- Events still due at the current clock: at most a header and the setup that follows it. -/
def dueRank (ll : LinkedList) : ℕ :=
  if ll.cyclesRemaining ≠ 0 then 0 else if ll.phase = .setup then 1 else 2

def spend (ll : LinkedList) (cycles : ℕ) : LinkedList :=
  { ll with cyclesRemaining := ll.cyclesRemaining - cycles }

/-- The state in which the loop services the event its cycles reached. -/
def due (s : LinkedList × ω) : LinkedList × ω := (spend s.1 s.1.cyclesRemaining, s.2)

theorem loop_decreases (s : LinkedList × ω) (cycles : ℕ) (hc : ¬cycles < s.1.cyclesRemaining)
    (ha : (service ops mem (due s)).1.1.active = true) :
    3 * (cycles - s.1.cyclesRemaining) + dueRank (service ops mem (due s)).1.1 <
      3 * cycles + dueRank s.1 := by
  rcases service_cases ops mem (due s) with h | h | ⟨hp, hsetup, hzero⟩
  · rw [h] at ha
    cases ha
  · have hr : dueRank (service ops mem (due s)).1.1 = 0 := if_pos h.1
    rw [hr]
    by_cases hz : s.1.cyclesRemaining = 0
    · rw [dueRank, hz, if_neg (by simp)]
      split_ifs <;> omega
    · omega
  · have hr : dueRank (service ops mem (due s)).1.1 = 1 := by
      rw [dueRank, if_neg (by simp [hzero]), if_pos hsetup]
    have hp' : s.1.phase = .header := hp
    rw [hr]
    by_cases hz : s.1.cyclesRemaining = 0
    · rw [dueRank, hz, if_neg (by simp), hp', if_neg (by decide)]
      omega
    · omega

def advanceLoop (cycles : ℕ) (s : LinkedList × ω) : (LinkedList × ω) × List Call :=
  if cycles < s.1.cyclesRemaining then ((spend s.1 cycles, s.2), [])
  else
    let serviced := service ops mem (due s)
    if serviced.1.1.active = true then
      if cycles - s.1.cyclesRemaining = 0 ∧ serviced.1.1.cyclesRemaining ≠ 0 then serviced
      else
        let rest := advanceLoop (cycles - s.1.cyclesRemaining) serviced.1
        (rest.1, serviced.2 ++ rest.2)
    else serviced
termination_by 3 * cycles + dueRank s.1
decreasing_by
  exact loop_decreases ops mem s cycles ‹_› ‹_›

def dmaGpuLlAdvance (cycles : ℕ) : Step (LinkedList × ω) Call := fun s =>
  if s.1.active = false ∨ cycles = 0 then (s, [])
  else
    match ops.readWord with
    | none => (s, [])
    | some mem => advanceLoop ops mem cycles s

/-! ## Cutting the cycles -/

@[simp] theorem advance_zero (s : LinkedList × ω) : dmaGpuLlAdvance ops 0 s = (s, []) := by
  simp [dmaGpuLlAdvance]

theorem advance_inactive (cycles : ℕ) (s : LinkedList × ω) (h : s.1.active = false) :
    dmaGpuLlAdvance ops cycles s = (s, []) := by
  simp [dmaGpuLlAdvance, h]

theorem advance_loop (hmem : ops.readWord = some mem) {cycles : ℕ} (hc : cycles ≠ 0)
    (s : LinkedList × ω) (hs : s.1.active = true) :
    dmaGpuLlAdvance ops cycles s = advanceLoop ops mem cycles s := by
  simp [dmaGpuLlAdvance, hs, hc, hmem]

theorem loop_wait {cycles : ℕ} {s : LinkedList × ω} (h : cycles < s.1.cyclesRemaining) :
    advanceLoop ops mem cycles s = ((spend s.1 cycles, s.2), []) := by
  rw [advanceLoop, if_pos h]

theorem loop_serviced {cycles : ℕ} {s : LinkedList × ω} (h : ¬cycles < s.1.cyclesRemaining) :
    advanceLoop ops mem cycles s =
      if (service ops mem (due s)).1.1.active = true then
        if cycles - s.1.cyclesRemaining = 0 ∧ (service ops mem (due s)).1.1.cyclesRemaining ≠ 0
        then service ops mem (due s)
        else seq (fun s => service ops mem (due s))
          (advanceLoop ops mem (cycles - s.1.cyclesRemaining)) s
      else service ops mem (due s) := by
  rw [advanceLoop, if_neg h]
  rfl

@[simp] theorem spend_cycles (ll : LinkedList) (n : ℕ) :
    (spend ll n).cyclesRemaining = ll.cyclesRemaining - n := rfl

theorem spend_spend (ll : LinkedList) (m n : ℕ) : spend (spend ll m) n = spend ll (m + n) := by
  simp only [spend, Nat.sub_sub]

theorem due_spend (s : LinkedList × ω) (cycles : ℕ) : due (spend s.1 cycles, s.2) = due s := by
  simp [due, spend]

/-- The loop on a sum: when its first part stops, the second part takes over where it stood. -/
theorem advanceLoop_add (hmem : ops.readWord = some mem) (a b : ℕ) (s : LinkedList × ω)
    (hs : s.1.active = true) :
    advanceLoop ops mem (a + b) s = seq (advanceLoop ops mem a) (dmaGpuLlAdvance ops b) s := by
  induction hm : 3 * a + dueRank s.1 using Nat.strongRecOn generalizing a s with
  | _ m ih =>
    by_cases ha : a < s.1.cyclesRemaining
    · -- the cut falls inside the wait for one word
      rw [seq_quiet _ _ (loop_wait ops mem ha)]
      by_cases hb : b = 0
      · rw [hb, Nat.add_zero, loop_wait ops mem ha, advance_zero]
      rw [advance_loop ops mem hmem hb (spend s.1 a, s.2) hs]
      by_cases hab : a + b < s.1.cyclesRemaining
      · have hb' : b < (spend s.1 a).cyclesRemaining := by rw [spend_cycles]; omega
        rw [loop_wait ops mem hab, loop_wait ops mem (s := (spend s.1 a, s.2)) hb', spend_spend]
      · have hb' : ¬b < (spend s.1 a).cyclesRemaining := by rw [spend_cycles]; omega
        have hleft : a + b - s.1.cyclesRemaining = b - (spend s.1 a).cyclesRemaining := by
          rw [spend_cycles]; omega
        rw [loop_serviced ops mem hab, loop_serviced ops mem (s := (spend s.1 a, s.2)) hb',
          due_spend, hleft]
        simp only [seq, due_spend]
    · have hleft : a + b - s.1.cyclesRemaining = a - s.1.cyclesRemaining + b := by omega
      have hsum : ¬a + b < s.1.cyclesRemaining := by omega
      rw [loop_serviced ops mem hsum, hleft]
      simp only [seq]
      rw [loop_serviced ops mem ha]
      by_cases hact : (service ops mem (due s)).1.1.active = true
      · simp only [if_pos hact]
        by_cases hstop : a - s.1.cyclesRemaining = 0 ∧
            (service ops mem (due s)).1.1.cyclesRemaining ≠ 0
        · -- the cut falls on the clock of the event itself
          rw [if_pos hstop]
          by_cases hb : b = 0
          · rw [if_pos ⟨by omega, hstop.2⟩, hb, advance_zero, List.append_nil]
          · rw [if_neg (by omega), hstop.1, Nat.zero_add,
              advance_loop ops mem hmem hb _ hact]
        · have hrec := ih _ (hm ▸ loop_decreases ops mem s a ha hact) _ _ hact rfl
          rw [if_neg hstop, if_neg (by omega), hrec]
          simp only [seq, List.append_assoc]
      · have hoff : (service ops mem (due s)).1.1.active = false := by simpa using hact
        simp only [if_neg hact, advance_inactive ops b _ hoff, List.append_nil]

theorem advance_flow : IsFlow (dmaGpuLlAdvance ops : ℕ → Step (LinkedList × ω) Call) := by
  refine ⟨by funext s; exact advance_zero ops s, ?_⟩
  intro a b
  funext s
  by_cases ha : a = 0
  · rw [ha, Nat.zero_add]
    simp [seq]
  cases hs : s.1.active with
  | false => simp [seq, advance_inactive ops _ s hs]
  | true =>
    cases hmem : ops.readWord with
    | none => simp [seq, dmaGpuLlAdvance, hmem]
    | some mem =>
      have hsum := advanceLoop_add ops mem hmem a b s hs
      rw [advance_loop ops mem hmem (by omega) s hs, hsum]
      simp only [seq, advance_loop ops mem hmem ha s hs]

/-! ## An event happens at its own cycle -/

/-- What holds of a transfer between two calls: an active one waits for a word. -/
def Settled (s : LinkedList × ω) : Prop := s.1.active = true → Waiting s.1

theorem start_settled (startAddr maxNodes : BitVec 32) (env : ω) :
    Settled (dmaGpuLlStart startAddr maxNodes, env) :=
  fun _ => ⟨Nat.one_ne_zero, Or.inl rfl⟩

theorem spend_settled (s : LinkedList × ω) (h : Settled s) {cycles : ℕ}
    (hc : cycles < s.1.cyclesRemaining) : Settled (spend s.1 cycles, s.2) := by
  intro ha
  exact ⟨by simp only [spend]; omega, (h ha).2⟩

/-- The loop stops only where the transfer is over or waits for a word. -/
theorem advanceLoop_settled (cycles : ℕ) (s : LinkedList × ω)
    (h : Settled s ∨ s.1.phase = .setup ∧ s.1.cyclesRemaining = 0) :
    Settled (advanceLoop ops mem cycles s).1 := by
  induction hm : 3 * cycles + dueRank s.1 using Nat.strongRecOn generalizing cycles s with
  | _ m ih =>
    by_cases hc : cycles < s.1.cyclesRemaining
    · rw [loop_wait ops mem hc]
      rcases h with h | h
      · exact spend_settled s h hc
      · omega
    rw [loop_serviced ops mem hc]
    split_ifs with hact hstop
    · rcases service_cases ops mem (due s) with h' | h' | h'
      · intro ha
        rw [h'] at ha
        cases ha
      · exact fun _ => h'
      · exact absurd h'.2.2 hstop.2
    · refine ih _ (hm ▸ loop_decreases ops mem s cycles hc hact) _ _ ?_ rfl
      rcases service_cases ops mem (due s) with h' | h' | h'
      · rw [h'] at hact
        cases hact
      · exact Or.inl fun _ => h'
      · exact Or.inr h'.2
    · intro ha
      exact absurd ha hact

theorem advance_settled (cycles : ℕ) (s : LinkedList × ω) (h : Settled s) :
    Settled (dmaGpuLlAdvance ops cycles s).1 := by
  rw [dmaGpuLlAdvance]
  split_ifs
  · exact h
  · cases ops.readWord with
    | none => exact h
    | some mem => exact advanceLoop_settled ops mem cycles s (Or.inl h)

theorem cuts_settled (cuts : List ℕ) (s : LinkedList × ω) (h : Settled s) :
    Settled (runCuts (dmaGpuLlAdvance ops) cuts s).1 := by
  rw [(advance_flow ops).cuts]
  exact advance_settled ops cuts.sum s h

theorem advance_before_event (cycles : ℕ) (s : LinkedList × ω) (h : Settled s)
    (hc : cycles < dmaGpuLlCyclesToEvent s.1) :
    (dmaGpuLlAdvance ops cycles s).2 = [] ∧
      ((dmaGpuLlAdvance ops cycles s).1 = s ∨
        (dmaGpuLlAdvance ops cycles s).1 = (spend s.1 cycles, s.2)) := by
  rw [dmaGpuLlAdvance]
  split_ifs with hstop
  · exact ⟨rfl, Or.inl rfl⟩
  · rw [not_or, Bool.not_eq_false] at hstop
    have hwait := h hstop.1
    rw [dmaGpuLlCyclesToEvent, if_pos hstop.1, if_pos hwait.1] at hc
    cases ops.readWord with
    | none => exact ⟨rfl, Or.inl rfl⟩
    | some mem =>
      simp only [loop_wait ops mem hc]
      exact ⟨trivial, Or.inr trivial⟩

theorem beginNode_active (s : LinkedList × ω) : (beginNode ops s).1.1.active = s.1.active := by
  rw [beginNode]
  cases ops.beginNode <;> rfl

theorem service_setup (s : LinkedList × ω) (hs : s.1.phase = .setup) :
    service ops mem s = seq (beginNode ops) enterPayload s := by
  rw [service, hs]

/-- With no cycle left the loop still takes the free setup of a node, and stops there. -/
theorem loop_setup (s : LinkedList × ω) (hs : s.1.phase = .setup)
    (hc : s.1.cyclesRemaining = 0) (ha : s.1.active = true) :
    advanceLoop ops mem 0 s = seq (beginNode ops) enterPayload s := by
  have hdue : due s = s := by
    rw [due, hc]
    rfl
  have hact : (seq (beginNode ops) enterPayload s).1.1.active = true :=
    (beginNode_active ops s).trans ha
  rw [loop_serviced ops mem (by omega), hdue, service_setup ops mem s hs, if_pos hact,
    if_pos ⟨by omega, by simp [enterPayload]⟩]

/-- What the call that reaches the next event does: it services that event, and the setup with it
when the event was a header with payload. -/
theorem advance_at_event (hmem : ops.readWord = some mem) (s : LinkedList × ω)
    (ha : s.1.active = true) (hw : Waiting s.1) :
    dmaGpuLlAdvance ops (dmaGpuLlCyclesToEvent s.1) s = service ops mem (due s) ∨
      (s.1.phase = .header ∧ (service ops mem (due s)).1.1.active = true ∧
        dmaGpuLlAdvance ops (dmaGpuLlCyclesToEvent s.1) s =
          seq (service ops mem) (seq (beginNode ops) enterPayload) (due s)) := by
  rw [dmaGpuLlCyclesToEvent, if_pos ha, if_pos hw.1, advance_loop ops mem hmem hw.1 s ha,
    loop_serviced ops mem (by omega), Nat.sub_self]
  split_ifs with hact hstop
  · exact Or.inl rfl
  · refine Or.inr ?_
    have hzero : (service ops mem (due s)).1.1.cyclesRemaining = 0 := by
      by_contra hne
      exact hstop ⟨rfl, hne⟩
    rcases service_cases ops mem (due s) with h | h | h
    · rw [h] at hact
      cases hact
    · exact absurd hzero h.1
    · refine ⟨h.1, hact, ?_⟩
      simp only [seq]
      rw [loop_setup ops mem _ h.2.1 hzero hact]
      rfl
  · exact Or.inl rfl

/-- The callback that the next event opens with, if it makes one at all. -/
def nextCall (ll : LinkedList) : Option Call :=
  match ll.phase with
  | .header =>
    if ll.nodesProcessed ≥ ll.maxNodes then ops.complete.map fun _ => .complete true
    else some (.readWord (resolveAddress ops ll.currentAddr))
  | .payload =>
    if ll.emitNode then some (.readWord (payloadAddress ops ll))
    else if ll.payloadIndex + 1 < ll.wordCount then none
    else if ll.nextAddr = endMarker then ops.complete.map fun _ => .complete ll.hitLimit
    else none
  | _ => none

theorem finish_calls (s : LinkedList × ω) :
    (finish ops s).2.head? = ops.complete.map fun _ => .complete s.1.hitLimit := by
  rw [finish]
  cases ops.complete <;> rfl

theorem loadHeader_calls (s : LinkedList × ω) :
    ∃ rest, (loadHeader ops mem s).2 = .readWord (resolveAddress ops s.1.currentAddr) :: rest := by
  rw [loadHeader]
  cases ops.observeHeader with
  | none => exact ⟨[], rfl⟩
  | some observe => exact ⟨_, rfl⟩

theorem service_header_calls (s : LinkedList × ω) (hs : s.1.phase = .header) :
    (service ops mem s).2.head? = nextCall ops s.1 := by
  rw [service, hs, nextCall, hs]
  dsimp only
  rw [serviceHeader]
  split_ifs
  · exact finish_calls ops _
  · obtain ⟨rest, h⟩ := loadHeader_calls ops mem s
    rw [seq_snd, h]
    rfl

theorem service_header_active (s : LinkedList × ω) (hs : s.1.phase = .header)
    (ha : (service ops mem s).1.1.active = true) : ∃ c rest, (service ops mem s).2 = c :: rest := by
  rw [service, hs] at ha ⊢
  dsimp only at ha ⊢
  rw [serviceHeader] at ha ⊢
  split_ifs at ha ⊢
  · rw [finishAtLimit, finish_inactive] at ha
    cases ha
  · obtain ⟨rest, h⟩ := loadHeader_calls ops mem s
    rw [seq_snd, h]
    exact ⟨_, _, rfl⟩

theorem service_payload_calls (s : LinkedList × ω) (hs : s.1.phase = .payload) :
    (service ops mem s).2.head? = nextCall ops s.1 := by
  rw [service, hs, nextCall, hs]
  dsimp only
  rw [servicePayload, seq_snd]
  by_cases he : s.1.emitNode = true
  · have h : ∃ rest, (transferWord ops mem s).2 = .readWord (payloadAddress ops s.1) :: rest := by
      rw [transferWord, if_pos he]
      cases ops.emitWord with
      | none => exact ⟨[], rfl⟩
      | some emit => exact ⟨_, rfl⟩
    obtain ⟨rest, h⟩ := h
    rw [h, if_pos he]
    rfl
  · rw [transferWord, if_neg he, if_neg he, List.nil_append]
    dsimp only
    split_ifs with hlt hend
    · rfl
    · rw [nextNode, if_pos hend]
      exact finish_calls ops _
    · rw [nextNode, if_neg hend]
      rfl

/-- One more word is accounted for, or the node limit ends the transfer. -/
def Progress (ll ll' : LinkedList) : Prop :=
  ll'.totalWords = ll.totalWords + 1 ∨ ll'.active = false ∧ ll'.hitLimit = true

theorem beginNode_words (s : LinkedList × ω) :
    (beginNode ops s).1.1.totalWords = s.1.totalWords := by
  rw [beginNode]
  cases ops.beginNode <;> rfl

theorem nextNode_words (s : LinkedList × ω) :
    (nextNode ops s).1.1.totalWords = s.1.totalWords := by
  rw [nextNode]
  split_ifs
  · rw [finish]
    cases ops.complete <;> rfl
  · rfl

theorem serviceHeader_progress (s : LinkedList × ω) :
    Progress s.1 (serviceHeader ops mem s).1.1 := by
  rw [serviceHeader]
  split_ifs
  · refine Or.inr ⟨finish_inactive ops _, ?_⟩
    rw [finishAtLimit, finish]
    cases ops.complete <;> rfl
  · have hload : (loadHeader ops mem s).1.1.totalWords = s.1.totalWords + 1 := by
      rw [loadHeader]
      cases ops.observeHeader <;> rfl
    refine Or.inl ?_
    rw [seq_fst, ← hload]
    split_ifs
    · rfl
    · rw [seq_fst, nextNode_words, beginNode_words]

theorem servicePayload_progress (s : LinkedList × ω) :
    Progress s.1 (servicePayload ops mem s).1.1 := by
  have hword : (transferWord ops mem s).1.1.totalWords = s.1.totalWords + 1 := by
    rw [transferWord]
    split_ifs
    · cases ops.emitWord <;> rfl
    · rfl
  refine Or.inl ?_
  rw [servicePayload, seq_fst, ← hword]
  split_ifs
  · rfl
  · rw [nextNode_words]

theorem setup_progress (ll : LinkedList) (s : LinkedList × ω) (h : Progress ll s.1) :
    Progress ll (seq (beginNode ops) enterPayload s).1.1 := by
  have hlimit : (beginNode ops s).1.1.hitLimit = s.1.hitLimit := by
    rw [beginNode]
    cases ops.beginNode <;> rfl
  rcases h with h | h
  · exact Or.inl ((beginNode_words ops s).trans h)
  · exact Or.inr ⟨(beginNode_active ops s).trans h.1, hlimit.trans h.2⟩

theorem advance_event (hmem : ops.readWord = some mem) (s : LinkedList × ω)
    (ha : s.1.active = true) (hw : Waiting s.1) :
    (dmaGpuLlAdvance ops (dmaGpuLlCyclesToEvent s.1) s).2.head? = nextCall ops s.1 ∧
      Progress s.1 (dmaGpuLlAdvance ops (dmaGpuLlCyclesToEvent s.1) s).1.1 := by
  have hcalls : (service ops mem (due s)).2.head? = nextCall ops s.1 := by
    rcases hw.2 with h | h
    · exact service_header_calls ops mem (due s) h
    · exact service_payload_calls ops mem (due s) h
  have hprogress : Progress s.1 (service ops mem (due s)).1.1 := by
    have hphase : (due s).1.phase = s.1.phase := rfl
    rw [service, hphase]
    rcases hw.2 with h | h
    · rw [h]
      exact serviceHeader_progress ops mem (due s)
    · rw [h]
      exact servicePayload_progress ops mem (due s)
  rcases advance_at_event ops mem hmem s ha hw with h | h
  · rw [h]
    exact ⟨hcalls, hprogress⟩
  · obtain ⟨hheader, hact, h⟩ := h
    obtain ⟨c, rest, hne⟩ := service_header_active ops mem (due s) hheader hact
    rw [h]
    refine ⟨?_, setup_progress ops s.1 _ hprogress⟩
    rw [seq_snd, ← hcalls, hne]
    rfl

/-! ## Transfers cut anywhere -/

/-- Every started transfer, over every memory, cut into calls in any way: the state and the calls
are those of one call with the total; between two calls nothing happens before the announced
cycle, and at that cycle the next event does. -/
theorem advance_split (hmem : ops.readWord = some mem) (startAddr maxNodes : BitVec 32) (env : ω)
    (cuts : List ℕ) :
    runCuts (dmaGpuLlAdvance ops) cuts (dmaGpuLlStart startAddr maxNodes, env) =
        dmaGpuLlAdvance ops cuts.sum (dmaGpuLlStart startAddr maxNodes, env) ∧
      ∀ s, s = (runCuts (dmaGpuLlAdvance ops) cuts (dmaGpuLlStart startAddr maxNodes, env)).1 →
        (∀ n < dmaGpuLlCyclesToEvent s.1, (dmaGpuLlAdvance ops n s).2 = []) ∧
        (s.1.active = true →
          (dmaGpuLlAdvance ops (dmaGpuLlCyclesToEvent s.1) s).2.head? = nextCall ops s.1 ∧
          Progress s.1 (dmaGpuLlAdvance ops (dmaGpuLlCyclesToEvent s.1) s).1.1) := by
  refine ⟨congrFun ((advance_flow ops).cuts cuts) _, ?_⟩
  rintro s rfl
  have hset := cuts_settled ops cuts _ (start_settled startAddr maxNodes env)
  refine ⟨fun n hn => (advance_before_event ops n _ hset hn).1, fun ha => ?_⟩
  exact advance_event ops mem hmem _ ha (hset ha)

/-- Callbacks of a bus that counts what they do; every word of its memory is a header of one
payload word that ends the list. -/
def countingOps : Ops ℕ where
  resolveAddress := some fun address => address &&& 0x001FFFFC
  readWord := some fun _ => 0x01FFFFFF
  observeHeader := some fun n _ _ => n + 1
  beginNode := some fun n _ _ => (true, n + 1)
  emitWord := some fun n _ _ => n + 1
  complete := some fun n _ => n + 1

theorem advance_split_counting :
    runCuts (dmaGpuLlAdvance countingOps) [1, 0, 1] (dmaGpuLlStart 0x80000040 8, 0) =
        dmaGpuLlAdvance countingOps 2 (dmaGpuLlStart 0x80000040 8, 0) ∧
      (dmaGpuLlAdvance countingOps 1 (dmaGpuLlStart 0x80000040 8, 0)).2.head? =
        some (.readWord 0x40) := by
  refine ⟨(advance_split countingOps _ rfl 0x80000040 8 0 [1, 0, 1]).1, ?_⟩
  exact (((advance_split countingOps _ rfl 0x80000040 8 0 []).2 _ rfl).2 rfl).1

end PsxRecomp.Dma
