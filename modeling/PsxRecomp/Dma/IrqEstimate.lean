import Mathlib
import PsxRecomp.Dma.Deadline
import PsxRecomp.Dma.Interrupt

/-! `dma_cycles_to_irq` and `dma_cycles_to_deliverable_irq` against the clock: whether interrupt line 3
can come before they say. -/
namespace PsxRecomp.Dma
open Transducer
set_option autoImplicit false

/-! ## The estimates -/

section Estimates
variable {ω : Type*}

/-- One cycle for each word that is left, less the cycles already paid. -/
def asyncEstimate (a : Async) : Option ℕ :=
  if a.active = false ∨ a.remainingWords = 0 then none else some (a.remainingWords - a.cyclesAccum)

/-- The entries of the channels that count, in the order of the source. -/
def estimates (counts : Fin 7 → Bool) (s : Controller ω) : List (Option ℕ) :=
  [if counts 0 then asyncEstimate (s.core.mdec 0) else none,
    if counts 1 then asyncEstimate (s.core.mdec 1) else none,
    if counts 3 then asyncEstimate s.core.cdrom else none,
    if counts 2 && s.list.active then some (dmaGpuLlCyclesToEvent s.list) else none] ++
  (List.finRange 7).map fun ch => if counts ch then delayedDeadline s.core ch else none

def dmaCyclesToIrq (iMask : BitVec 32) (s : Controller ω) : ℕ :=
  if iMask.getLsbD 3 = false then uint32Limit else earliest (estimates (fun _ => true) s)

def dmaCyclesToDeliverableIrq (iMask : BitVec 32) (s : Controller ω) : ℕ :=
  if iMask.getLsbD 3 = false then uint32Limit else earliest (estimates s.core.irqFlagArmed s)

/-- The clock, one cycle at a time; between two cycles the other devices do as they like. -/
def ticks (dev : Devices ω) (outside : List (ω → ω)) (s : Controller (ω × ℕ)) : Controller (ω × ℕ) :=
  outside.foldl (fun s o => elapse dev.counted s (Elapse.counted ⟨o, 1⟩)) s

/-- No interrupt comes before so many cycles, and none at all for `UINT32_MAX`. -/
def NeverLate (dev : Devices ω) (estimate : ℕ) (s : Controller (ω × ℕ)) : Prop :=
  ∀ outside : List (ω → ω), outside.length < estimate ∨ estimate = uint32Limit →
    raises (ticks dev outside s).core = raises s.core

/-! ## Records with some cycles to go -/

def Async.Far (k : ℕ) (a : Async) : Prop :=
  a.active = true → a.remainingWords ≠ 0 → k ≤ a.remainingWords - a.cyclesAccum

def Delayed.Far (k : ℕ) (d : Delayed) : Prop := d.active = true → k ≤ d.cyclesRemaining

structure Far (counts : Fin 7 → Bool) (k : ℕ) (s : Controller ω) : Prop where
  mdec : ∀ i, counts (mdecChannel i) = true → (s.core.mdec i).Far k
  cdrom : counts 3 = true → s.core.cdrom.Far k
  list : counts 2 = true → s.list.active = true → k ≤ dmaGpuLlCyclesToEvent s.list
  delayed : ∀ ch, counts ch = true → (s.core.delayed ch).Far k

/-- An MDEC channel set up in the direction it does not have is completed by the next cycle, armed for
an interrupt that is not yet pending, while every armed record has more than that to go. -/
def Overtaken (s : Controller ω) : Prop :=
  ∃ i, mdecMisrouted s.core i = true ∧ s.core.irqFlagArmed (mdecChannel i) = true ∧
    dicrMasterFlag s.core.dicr = false ∧ Far s.core.irqFlagArmed 2 s

end Estimates

/-! ## The estimates bound the records -/

section Bounds
variable {ω : Type*} {counts : Fin 7 → Bool} {s : Controller ω}

theorem le_earliest_iff {l : List (Option ℕ)} {k : ℕ} : k ≤ earliest l ↔ k ≤ uint32Limit ∧ ∀ d, some d ∈ l → k ≤ d := by
  constructor
  · intro h
    exact ⟨h.trans (earliest_fold l uint32Limit).1, fun d hd => h.trans (earliest_le hd)⟩
  · rintro ⟨hlimit, hall⟩
    rcases earliest_mem l with h | h
    · rw [h]
      exact hlimit
    · exact hall _ h

theorem asyncEstimate_le_iff {a : Async} {k : ℕ} : (∀ d, some d = asyncEstimate a → k ≤ d) ↔ a.Far k := by
  unfold asyncEstimate Async.Far
  cases a.active <;> by_cases h : a.remainingWords = 0 <;> simp [h]

theorem delayedDeadline_le_iff {c : Core ω} {ch : Fin 7} {k : ℕ} :
    (∀ d, some d = delayedDeadline c ch → k ≤ d) ↔ (c.delayed ch).Far k := by
  unfold delayedDeadline Delayed.Far
  cases (c.delayed ch).active <;> simp

theorem estimates_iff (k : ℕ) : (∀ d, some d ∈ estimates counts s → k ≤ d) ↔ Far counts k s := by
  have hif {b : Bool} {o : Option ℕ} : (∀ d, some d = (if b then o else none) → k ≤ d) ↔
      (b = true → ∀ d, some d = o → k ≤ d) := by
    cases b <;> simp
  have hmem {a b c e : Option ℕ} {f : Fin 7 → Option ℕ} :
      (∀ d, some d ∈ [a, b, c, e] ++ (List.finRange 7).map f → k ≤ d) ↔
        (∀ d, some d = a → k ≤ d) ∧ (∀ d, some d = b → k ≤ d) ∧ (∀ d, some d = c → k ≤ d) ∧
          (∀ d, some d = e → k ≤ d) ∧ ∀ ch d, some d = f ch → k ≤ d := by
    simp only [List.mem_append, List.mem_cons, List.not_mem_nil, or_false, List.mem_map, List.mem_finRange, true_and]
    constructor
    · intro h
      refine ⟨fun d hd => h d ?_, fun d hd => h d ?_, fun d hd => h d ?_, fun d hd => h d ?_, fun ch d hd => h d ?_⟩
      · tauto
      · tauto
      · tauto
      · tauto
      · exact Or.inr ⟨ch, hd.symm⟩
    · rintro ⟨ha, hb, hc, he, hf⟩ d ((rfl | rfl | rfl | rfl) | ⟨ch, hd⟩)
      · exact ha d rfl
      · exact hb d rfl
      · exact hc d rfl
      · exact he d rfl
      · exact hf ch d hd.symm
  unfold estimates
  rw [hmem]
  have hlist : (∀ d, some d = (if counts 2 && s.list.active then some (dmaGpuLlCyclesToEvent s.list) else none) → k ≤ d) ↔
      (counts 2 = true → s.list.active = true → k ≤ dmaGpuLlCyclesToEvent s.list) := by
    cases counts 2 <;> cases s.list.active <;> simp
  rw [hlist]
  simp only [hif, asyncEstimate_le_iff, delayedDeadline_le_iff]
  constructor
  · rintro ⟨h0, h1, h3, h2, hd⟩
    refine ⟨fun i => ?_, h3, h2, hd⟩
    match i with
    | 0 => exact h0
    | 1 => exact h1
  · rintro ⟨hm, h3, h2, hd⟩
    exact ⟨hm 0, hm 1, h3, h2, hd⟩

end Bounds

/-! ## What the clock does to DICR -/

/-- Without a write DICR gains flags only, and line 3 is raised as the master flag comes up. -/
structure Grows {ω : Type*} (c c' : Core (ω × ℕ)) : Prop where
  low : ∀ k < 24, c'.dicr.getLsbD k = c.dicr.getLsbD k
  high : ∀ k, c.dicr.getLsbD k = true → c'.dicr.getLsbD k = true
  edge : raises c' = raises c + if dicrMasterFlag c.dicr = false ∧ dicrMasterFlag c'.dicr = true then 1 else 0

section Growing
variable {ω : Type*} {dev : Devices ω} {c c' c'' : Core (ω × ℕ)}

theorem Grows.master (h : Grows c c') (hm : dicrMasterFlag c.dicr = true) : dicrMasterFlag c'.dicr = true := by
  unfold dicrMasterFlag at hm ⊢
  rw [h.low 15 (by decide), h.low 23 (by decide)]
  rw [Bool.or_eq_true, Bool.and_eq_true] at hm ⊢
  refine hm.imp_right fun hflags => ⟨hflags.1, ?_⟩
  simp only [ne_eq, decide_eq_true_eq] at hflags ⊢
  intro hzero
  refine hflags.2 (BitVec.eq_of_getLsbD_eq fun k _ => ?_)
  have hk : (c'.dicr &&& dicrResetMask).getLsbD k = (0 : BitVec 32).getLsbD k := by rw [hzero]
  rw [BitVec.getLsbD_and] at hk ⊢
  cases hd : c.dicr.getLsbD k
  · simp
  · rwa [h.high k hd] at hk

theorem Grows.refl (c : Core (ω × ℕ)) : Grows c c where
  low _ _ := rfl
  high _ h := h
  edge := by cases dicrMasterFlag c.dicr <;> rfl

theorem Grows.trans (h : Grows c c') (h' : Grows c' c'') : Grows c c'' where
  low k hk := (h'.low k hk).trans (h.low k hk)
  high k hk := h'.high k (h.high k hk)
  edge := by
    have hm := h.master
    have hm' := h'.master
    rw [h'.edge, h.edge]
    revert hm hm'
    cases dicrMasterFlag c.dicr <;> cases dicrMasterFlag c'.dicr <;> cases dicrMasterFlag c''.dicr <;> simp

theorem Grows.armed (h : Grows c c') : c'.irqFlagArmed = c.irqFlagArmed := by
  funext ch
  rw [Core.irqFlagArmed, Core.irqFlagArmed, h.low _ (by omega), h.low 23 (by decide)]

theorem Quiet.grows (h : Quiet c c') : Grows c c' where
  low k _ := by rw [h.1]
  high k hk := by rwa [h.1]
  edge := by
    rw [raises, raises, h.1, h.2]
    cases dicrMasterFlag c.dicr <;> rfl

theorem completeTransfer_grows (ch : Fin 7) (c : Core (ω × ℕ)) : Grows c (completeTransfer dev.counted ch c) := by
  obtain ⟨hdicr, hraises⟩ := completeTransfer_watched dev ch c
  refine ⟨fun k hk => ?_, fun k hk => ?_, ?_⟩
  · have hne : ¬24 + ch.val = k := by omega
    rw [hdicr, latched]
    split
    · rw [BitVec.getLsbD_or, BitVec.getLsbD_twoPow, decide_eq_false hne, Bool.and_false, Bool.or_false]
    · rfl
  · rw [hdicr, latched]
    split
    · rw [BitVec.getLsbD_or, hk, Bool.true_or]
    · exact hk
  · rw [hdicr]
    refine hraises.trans ?_
    split <;> rfl

theorem completeTransfer_unarmed {ch : Fin 7} {c : Core (ω × ℕ)} (h : c.irqFlagArmed ch = false) :
    Quiet c (completeTransfer dev.counted ch c) := by
  obtain ⟨hdicr, hraises⟩ := completeTransfer_watched dev ch c
  have hsame : latched ch c = c.dicr := if_neg (by simpa using h)
  rw [hsame] at hdicr hraises
  refine ⟨hdicr, hraises.trans (if_neg fun hedge => ?_)⟩
  exact Bool.noConfusion (hedge.1.symm.trans hedge.2)

theorem Runs.grows {chs : Set (Fin 7)} (h : Runs dev.counted chs c c') : Grows c c' := by
  induction h with
  | refl => exact Grows.refl c
  | calm _ hc ih => exact ih.trans hc.quiet.grows
  | complete _ _ ih => exact ih.trans (completeTransfer_grows _ _)

/-- Channels that are not armed complete without a trace in DICR. -/
theorem Runs.quiet {chs : Set (Fin 7)} (h : Runs dev.counted chs c c') (hchs : ∀ ch ∈ chs, c.irqFlagArmed ch = false) :
    Quiet c c' := by
  induction h with
  | refl => exact ⟨rfl, rfl⟩
  | calm _ hc ih => exact ih.trans hc.quiet
  | @complete _ hr ch hch ih =>
    have hunarmed := hchs ch hch
    rw [← hr.grows.armed] at hunarmed
    refine ih.trans (completeTransfer_unarmed hunarmed)

theorem Runs.fades {chs : Set (Fin 7)} (h : Runs dev.counted chs c c') :
    c'.dpcr = c.dpcr ∧ ∀ j, c'.busy j = true → c.busy j = true ∧ c'.fromRam j = c.fromRam j := by
  have hcalm {d d' : Core (ω × ℕ)} (hc : Calm d d') (hd : d.dpcr = c.dpcr ∧
      ∀ j, d.busy j = true → c.busy j = true ∧ d.fromRam j = c.fromRam j) :
      d'.dpcr = c.dpcr ∧ ∀ j, d'.busy j = true → c.busy j = true ∧ d'.fromRam j = c.fromRam j := by
    refine ⟨hc.dpcr.trans hd.1, fun j hb => ?_⟩
    obtain ⟨hb', hdir⟩ := hc.busy j hb
    exact ⟨(hd.2 j hb').1, hdir.trans (hd.2 j hb').2⟩
  induction h with
  | refl => exact ⟨rfl, fun _ h => ⟨h, rfl⟩⟩
  | calm _ hc ih => exact hcalm hc ih
  | @complete d _ ch _ ih =>
    obtain ⟨dicr, world, he⟩ := completeTransfer_eq dev.counted ch d
    rw [he]
    have hclear := hcalm (clearBusy_calm d ch) ih
    exact hclear

theorem ticks_runs (outside : List (ω → ω)) (s : Controller (ω × ℕ)) :
    Runs dev.counted Set.univ s.core (ticks dev outside s).core := by
  induction outside generalizing s with
  | nil => exact .refl s.core
  | cons o outside ih => exact (elapse_runs dev ⟨o, 1⟩ s).trans (ih _)

end Growing

/-! ## One cycle of the records -/

theorem Async.Far.pay {a : Async} {k : ℕ} (h : a.Far (k + 1)) : (a.pay 1).Far k := by
  intro hact hrem
  have hfar := h hact hrem
  have haccum : (a.pay 1).cyclesAccum ≤ a.cyclesAccum + 1 := min_le_left _ _
  have hwords : (a.pay 1).remainingWords = a.remainingWords := rfl
  omega

theorem Async.Far.spend {a : Async} {k words price : ℕ} (h : a.Far k) (hprice : 0 < price)
    (hwords : words * price ≤ a.cyclesAccum) : (a.spend words price).Far k := by
  intro hact hrem
  have hle : words ≤ words * price := Nat.le_mul_of_pos_right _ hprice
  simp only [Async.spend] at hrem ⊢
  have hfar := h hact (by omega)
  omega

/-- Two cycles before its estimate an active record does not end. -/
theorem Async.Far.goes_on {a : Async} {n words budget : ℕ} (h : a.Far (n + 1)) (hn : 0 < n) (hact : a.active = true)
    (hmoved : words ≤ budget) (hbudget : budget ≤ (a.pay 1).cyclesAccum) (hsome : words ≠ 0)
    (hwords : words ≤ a.remainingWords) (price : ℕ) : ((a.pay 1).spend words price).remainingWords ≠ 0 := by
  have hfar := h hact (by omega)
  have hleft : ((a.pay 1).spend words price).remainingWords = a.remainingWords - words := rfl
  have haccum : (a.pay 1).cyclesAccum ≤ a.cyclesAccum + 1 := min_le_left _ _
  omega

theorem Delayed.Far.after {d : Delayed} {k : ℕ} (h : d.Far (k + 1)) : (d.after 1).Far k := by
  unfold Delayed.after
  split_ifs with hoff hlt
  · intro hact
    exact Nat.le_of_succ_le (h hact)
  · intro hact
    rw [Bool.not_eq_false] at hoff
    rw [Delayed.counted, if_pos hoff]
    exact Nat.le_sub_of_add_le (h hoff)
  · exact fun hact => absurd hact Bool.false_ne_true

section OneCycle
variable {ω : Type*} (dev : Devices ω)

theorem advanceMdec_far {c : Core ω} {i : Fin 2} {k : ℕ} (h : (c.mdec i).Far (k + 1)) :
    ((advanceMdecChannel dev i 1 c).mdec i).Far k := by
  have hat (c : Core ω) (a : Async) : (c.setMdec i a).mdec i = a := Function.update_self ..
  have hidle (c : Core ω) : ((finishAsyncMdecTransfer dev i c).mdec i).Far k := by
    rw [finishAsyncMdecTransfer, completeTransfer_mdec, cancelAsync_mdec, if_pos rfl]
    exact fun hact => absurd hact Bool.false_ne_true
  have hsame : (c.mdec i).Far k := fun hact hrem => Nat.le_of_succ_le (h hact hrem)
  unfold advanceMdecChannel
  dsimp only
  split_ifs
  · exact hsame
  · exact hidle c
  · exact hsame
  · rw [hat]
    exact h.pay
  · rw [hat]
    exact h.pay
  · unfold mdecMoved
    dsimp only
    split
    · exact hidle _
    · rw [hat, hat]
      refine h.pay.spend (mdecCyclesPerWord_pos i) ?_
      have hmoved := (moveWords_le (fun w => (mdecReady dev i w, w)) (mdecWord dev i)
        (c.nextAddr dev (mdecChannel i)) (min ((c.mdec i).pay 1).remainingWords
          (((c.mdec i).pay 1).cyclesAccum / mdecCyclesPerWord i)) (c.startAddr dev (mdecChannel i)) c.world).trans
        (min_le_right _ _)
      exact (Nat.le_div_iff_mul_le (mdecCyclesPerWord_pos i)).mp hmoved

theorem advanceCdrom_far {c : Core ω} {k : ℕ} (h : c.cdrom.Far (k + 1)) : (advanceCdrom dev 1 c).cdrom.Far k := by
  have hsame : c.cdrom.Far k := fun hact hrem => Nat.le_of_succ_le (h hact hrem)
  unfold advanceCdrom
  dsimp only
  split_ifs
  · exact hsame
  · rw [Core.clearBusy]
    exact fun hact => absurd hact Bool.false_ne_true
  · exact hsame
  · exact h.pay
  · unfold cdromMoved
    dsimp only
    split
    · rw [finishAsyncCdromTransfer, completeTransfer_cdrom, cancelAsync_cdrom, if_pos rfl]
      exact fun hact => absurd hact Bool.false_ne_true
    · refine h.pay.spend (by decide) ?_
      have hmoved := (moveWords_le dev.cdromReady (toRam dev dev.cdromRead) (c.nextAddr dev 3)
        (min (c.cdrom.pay 1).remainingWords ((c.cdrom.pay 1).cyclesAccum / cdromCyclesPerWord))
        (c.startAddr dev 3) (dev.cdromReady c.world).2).trans (min_le_right _ _)
      exact (Nat.le_div_iff_mul_le (by decide)).mp hmoved

/-- An MDEC channel of the right direction does not end before its estimate. -/
theorem advanceMdec_calm {c : Core (ω × ℕ)} {i : Fin 2} {n : ℕ} (hroute : mdecMisrouted c i = false)
    (h : (c.mdec i).Far (n + 1)) (hn : 0 < n) : Calm c (advanceMdecChannel dev.counted i 1 c) := by
  have hset (a : Async) : Calm c (c.setMdec i a) := .of_chcr ⟨rfl, rfl⟩ rfl fun _ => rfl
  unfold advanceMdecChannel
  dsimp only
  split_ifs with hoff hbad _ _ hnone
  · exact .refl c
  · rw [not_or, not_or, Bool.not_eq_false, Bool.not_eq_false, Bool.not_eq_false] at hoff
    simp [mdecMisrouted, mdecRuns, hoff.1, hoff.2.1, hoff.2.2, hbad] at hroute
  · exact .refl c
  · exact hset _
  · exact hset _
  · rw [not_or, Bool.not_eq_false] at hoff
    unfold mdecMoved
    dsimp only
    have hle := moveWords_le (fun w => (mdecReady dev.counted i w, w)) (mdecWord dev.counted i)
      (c.nextAddr dev.counted (mdecChannel i)) (min ((c.mdec i).pay 1).remainingWords
        (((c.mdec i).pay 1).cyclesAccum / mdecCyclesPerWord i)) (c.startAddr dev.counted (mdecChannel i)) c.world
    have hmore := h.goes_on hn hoff.1 (hle.trans (min_le_right _ _)) (Nat.div_le_self _ _) hnone
      (hle.trans (min_le_left _ _)) (mdecCyclesPerWord i)
    have hat (a : Async) : (c.setMdec i a).mdec i = a := Function.update_self ..
    rw [hat, if_neg hmore]
    exact mdecMoved_calm dev i _ _ _ c

theorem advanceCdrom_calm {c : Core (ω × ℕ)} {n : ℕ} (h : c.cdrom.Far (n + 1)) (hn : 0 < n) :
    Quiet c (advanceCdrom dev.counted 1 c) := by
  unfold advanceCdrom
  dsimp only
  split_ifs with hoff _ _ hnone
  · exact ⟨rfl, rfl⟩
  · exact (cancelAsync_calm 3 c).quiet.trans ⟨rfl, rfl⟩
  · exact ⟨rfl, rfl⟩
  · have hcount := moveWords_count dev.counted.cdromReady (toRam dev.counted dev.counted.cdromRead) (fun _ => rfl)
      (fun _ _ => rfl) (c.nextAddr dev.counted 3)
    exact ⟨rfl, hcount _ _ (dev.counted.cdromReady c.world).2⟩
  · have hcount := moveWords_count dev.counted.cdromReady (toRam dev.counted dev.counted.cdromRead) (fun _ => rfl)
      (fun _ _ => rfl) (c.nextAddr dev.counted 3)
    have hle := moveWords_le dev.counted.cdromReady (toRam dev.counted dev.counted.cdromRead) (c.nextAddr dev.counted 3)
      (min (c.cdrom.pay 1).remainingWords ((c.cdrom.pay 1).cyclesAccum / cdromCyclesPerWord))
      (c.startAddr dev.counted 3) (dev.counted.cdromReady c.world).2
    have hact : c.cdrom.active = true := by
      simp only [dmaCdromTransferActive, Bool.not_eq_false, Bool.and_eq_true] at hoff
      exact hoff.1.1.1
    have hmore := h.goes_on hn hact (hle.trans (min_le_right _ _)) (Nat.div_le_self _ _) hnone
      (hle.trans (min_le_left _ _)) cdromCyclesPerWord
    unfold cdromMoved
    dsimp only
    rw [if_neg hmore]
    exact ⟨rfl, hcount _ _ (dev.counted.cdromReady c.world).2⟩

theorem advanceDelayed_quiet {c : Core (ω × ℕ)} (h : ∀ ch, c.irqFlagArmed ch = true → (c.delayed ch).Far 2) :
    Quiet c (advanceDelayed dev.counted 1 c) := by
  suffices hfold : ∀ l : List (Fin 7), l.Nodup → ∀ d : Core (ω × ℕ), Quiet c d → (∀ ch ∈ l, d.delayed ch = c.delayed ch) →
      Quiet c (l.foldl (fun c ch => advanceDelayedComplete dev.counted ch 1 c) d) from
    hfold _ (List.nodup_finRange 7) c ⟨rfl, rfl⟩ fun _ _ => rfl
  intro l hl
  induction l with
  | nil => exact fun d hd _ => hd
  | cons ch l ih =>
    intro d hd hsame
    rw [List.nodup_cons] at hl
    refine ih hl.2 _ ?_ fun j hj => ?_
    · cases harmed : c.irqFlagArmed ch
      · refine hd.trans ((delayedAdvance_runs dev ch 1 d).quiet fun j hj => ?_)
        rw [Set.mem_singleton_iff.mp hj, hd.grows.armed, harmed]
      · have hfar := h ch harmed
        rw [← hsame ch List.mem_cons_self] at hfar
        refine hd.trans ?_
        dsimp only
        unfold advanceDelayedComplete
        split_ifs with hoff hlt
        · exact ⟨rfl, rfl⟩
        · exact ⟨rfl, rfl⟩
        · rw [Bool.not_eq_false] at hoff
          exact absurd (hfar hoff) (by omega)
    · have hne : j ≠ ch := fun he => hl.1 (he ▸ hj)
      rw [advanceDelayedComplete_delayed, if_neg hne, hsame j (List.mem_cons_of_mem _ hj)]

end OneCycle

/-! ## Which step touches which record -/

section Frame
variable {ω : Type*} (dev : Devices ω)

theorem advanceMdec_frame (i : Fin 2) (n : ℕ) {c : Core ω} (hs : c.Sound) :
    (advanceMdecChannel dev i n c).cdrom = c.cdrom ∧
      ∀ j, (advanceMdecChannel dev i n c).delayed j = c.delayed j ∨
        (advanceMdecChannel dev i n c).delayed j = .idle := by
  have hne : mdecChannel i ≠ 3 := (ne_mdecChannel i (by decide)).symm
  obtain ⟨c₁, a, h₁, -, ⟨he, -⟩ | he⟩ := advanceMdec_cases dev i n c (hs.mdec i)
  · rw [he]
    exact ⟨h₁.cdrom, fun j => Or.inl (congrFun h₁.delayed j)⟩
  · rw [he, finishAsyncMdecTransfer, completeTransfer_cdrom, cancelAsync_cdrom, if_neg hne, completeTransfer_delayed,
      cancelAsync_delayed]
    refine ⟨h₁.cdrom, fun j => ?_⟩
    by_cases hj : j = mdecChannel i
    · rw [hj, Function.update_self]
      exact Or.inr rfl
    · rw [Function.update_of_ne hj]
      exact Or.inl (congrFun h₁.delayed j)

theorem advanceList_frame (n : ℕ) (s : Controller ω) :
    (advanceList dev n s).core.cdrom = s.core.cdrom ∧ (advanceList dev n s).core.delayed = s.core.delayed := by
  obtain he | ⟨-, ⟨-, hs⟩ | ⟨-, c₁, hs, hs'⟩⟩ := advanceList_cases dev n s
  · rw [he]
    exact ⟨rfl, rfl⟩
  · exact ⟨hs.cdrom, hs.delayed⟩
  · rw [hs'.cdrom, completeTransfer_cdrom, hs.cdrom, hs'.delayed, completeTransfer_delayed, hs.delayed]
    exact ⟨rfl, rfl⟩

theorem advanceCdrom_frame (n : ℕ) {c : Core ω} (hs : c.Sound) (j : Fin 7) :
    (advanceCdrom dev n c).delayed j = c.delayed j ∨ (advanceCdrom dev n c).delayed j = .idle := by
  obtain ⟨c₁, a, w, h₁, -, ⟨he, -⟩ | ⟨addr, he⟩⟩ := advanceCdrom_cases dev n c hs.cdrom
  · rw [he]
    exact Or.inl (congrFun h₁.delayed j)
  · rw [he, finishAsyncCdromTransfer, completeTransfer_delayed, cancelAsync_delayed]
    by_cases hj : j = 3
    · rw [hj, Function.update_self]
      exact Or.inr rfl
    · rw [Function.update_of_ne hj]
      exact Or.inl (congrFun h₁.delayed j)

theorem advanceMdec_active (i : Fin 2) (n : ℕ) {c : Core ω} (hs : c.Sound)
    (h : ((advanceMdecChannel dev i n c).mdec i).active = true) : (c.mdec i).active = true := by
  obtain ⟨c₁, a, h₁, ha, ⟨he, -⟩ | he⟩ := advanceMdec_cases dev i n c (hs.mdec i)
  · have hat : ((c₁.setMdec i a).mdec i) = a := Function.update_self ..
    rwa [he, hat, ha] at h
  · rw [he, finishAsyncMdecTransfer, completeTransfer_mdec, cancelAsync_mdec, if_pos rfl] at h
    cases h

end Frame

/-! ## One cycle of the controller -/

/-- An armed channel counts, and none is set up in the wrong direction. -/
structure Estimable {ω : Type*} (counts : Fin 7 → Bool) (k : ℕ) (s : Controller ω) : Prop where
  counted : ∀ ch, s.core.irqFlagArmed ch = true → counts ch = true
  routed : ∀ i, s.core.irqFlagArmed (mdecChannel i) = true → mdecMisrouted s.core i = false
  far : Far counts k s

section Tick
variable {ω : Type*} (dev : Devices ω) {counts : Fin 7 → Bool}

theorem misrouted_fades {chs : Set (Fin 7)} {c c' : Core (ω × ℕ)} (h : Runs dev.counted chs c c') {i : Fin 2}
    (hact : (c'.mdec i).active = true → (c.mdec i).active = true) (hm : mdecMisrouted c' i = true) :
    mdecMisrouted c i = true := by
  obtain ⟨hdpcr, hbusy⟩ := h.fades
  simp only [mdecMisrouted, mdecRuns, Bool.and_eq_true] at hm ⊢
  obtain ⟨⟨⟨ha, hb⟩, he⟩, hr⟩ := hm
  obtain ⟨hb', hdir⟩ := hbusy _ hb
  refine ⟨⟨⟨hact ha, hb'⟩, ?_⟩, ?_⟩
  · rwa [Core.channelEnabled, hdpcr] at he
  · unfold mdecRouteInvalid at hr ⊢
    fin_cases i
    · have hdir : c'.fromRam 0 = c.fromRam 0 := hdir
      simpa [hdir] using hr
    · have hdir : c'.fromRam 1 = c.fromRam 1 := hdir
      simpa [hdir] using hr

/-- An MDEC channel that is armed is on its way, and one that is not completes in silence. -/
theorem advanceMdec_quiet {c : Core (ω × ℕ)} {i : Fin 2} {n : ℕ} (hn : 0 < n)
    (hroute : c.irqFlagArmed (mdecChannel i) = true → mdecMisrouted c i = false)
    (hfar : c.irqFlagArmed (mdecChannel i) = true → (c.mdec i).Far (n + 1)) :
    Quiet c (advanceMdecChannel dev.counted i 1 c) := by
  cases harmed : c.irqFlagArmed (mdecChannel i)
  · refine (mdecAdvance_runs dev i 1 c).quiet fun j hj => ?_
    rw [Set.mem_singleton_iff.mp hj, harmed]
  · exact (advanceMdec_calm dev (hroute harmed) (hfar harmed) hn).quiet

/-! The controller after the MDEC channels, the display list and the CD-ROM had their cycle. -/

def mdecsAdvanced (s : Controller ω) : Core ω := advanceMdecChannel dev 1 1 (advanceMdecChannel dev 0 1 s.core)

def listAdvanced (s : Controller ω) : Controller ω := advanceList dev 1 ⟨mdecsAdvanced dev s, s.list⟩

def cdromAdvanced (s : Controller ω) : Core ω := advanceCdrom dev 1 (listAdvanced dev s).core

theorem dmaAdvance_one (s : Controller ω) :
    dmaAdvance dev 1 s = { listAdvanced dev s with core := advanceDelayed dev 1 (cdromAdvanced dev s) } := rfl

section Sound
variable {s : Controller ω} (hs : s.Sound)
include hs

theorem mdecsAdvanced_sound : (mdecsAdvanced dev s).Sound := (hs.core.advanceMdec dev 0 1).advanceMdec dev 1 1

theorem listAdvanced_sound : (listAdvanced dev s).Sound := by
  have hmid : Controller.Sound ⟨mdecsAdvanced dev s, s.list⟩ := ⟨mdecsAdvanced_sound dev hs, hs.list⟩
  exact hmid.advanceList dev 1

theorem mdecsAdvanced_zero : (mdecsAdvanced dev s).mdec 0 = (advanceMdecChannel dev 0 1 s.core).mdec 0 :=
  advanceMdec_other dev (by decide) 1 (hs.core.advanceMdec dev 0 1)

theorem mdecsAdvanced_cdrom : (listAdvanced dev s).core.cdrom = s.core.cdrom := by
  have h₀ := (advanceMdec_frame dev 0 1 hs.core).1
  have h₁ := (advanceMdec_frame dev 1 1 (hs.core.advanceMdec dev 0 1)).1
  exact ((advanceList_frame dev 1 _).1.trans h₁).trans h₀

theorem cdromAdvanced_delayed (j : Fin 7) :
    (cdromAdvanced dev s).delayed j = s.core.delayed j ∨ (cdromAdvanced dev s).delayed j = .idle := by
  have h₀ := (advanceMdec_frame dev 0 1 hs.core).2 j
  have h₁ := (advanceMdec_frame dev 1 1 (hs.core.advanceMdec dev 0 1)).2 j
  have h₃ := congrFun (advanceList_frame dev 1 ⟨mdecsAdvanced dev s, s.list⟩).2 j
  rcases advanceCdrom_frame dev 1 (listAdvanced_sound dev hs).core j with h | h
  · have hmid : (cdromAdvanced dev s).delayed j = (mdecsAdvanced dev s).delayed j := h.trans h₃
    rcases h₁ with h₁ | h₁
    · exact h₀.imp (hmid.trans h₁).trans (hmid.trans h₁).trans
    · exact Or.inr (hmid.trans h₁)
  · exact Or.inr h

theorem mdecsAdvanced_active {i : Fin 2} (hact : ((mdecsAdvanced dev s).mdec i).active = true) :
    (s.core.mdec i).active = true := by
  match i with
  | 0 =>
    rw [mdecsAdvanced_zero dev hs] at hact
    exact advanceMdec_active dev 0 1 hs.core hact
  | 1 =>
    have h₁ := advanceMdec_active dev 1 1 (hs.core.advanceMdec dev 0 1) hact
    rwa [advanceMdec_other dev (by decide) 1 hs.core] at h₁

end Sound

section Step
variable {s : Controller (ω × ℕ)} (hs : s.Sound) {n : ℕ} (hn : 0 < n) (h : Estimable counts (n + 1) s)
include hs hn h

theorem mdecs_quiet : Quiet s.core (mdecsAdvanced dev.counted s) := by
  have hfirst : Quiet s.core (advanceMdecChannel dev.counted 0 1 s.core) :=
    advanceMdec_quiet dev hn (h.routed 0) fun ha => h.far.mdec 0 (h.counted _ ha)
  have hother := advanceMdec_other dev.counted (i := 0) (j := 1) (by decide) 1 hs.core
  refine hfirst.trans (advanceMdec_quiet dev hn (fun ha => ?_) fun ha => ?_)
  · rw [hfirst.grows.armed] at ha
    cases hm : mdecMisrouted (advanceMdecChannel dev.counted 0 1 s.core) 1
    · rfl
    · have hbefore := misrouted_fades dev (mdecAdvance_runs dev 0 1 s.core) (fun hact => by rwa [hother] at hact) hm
      exact absurd hbefore (by simp [h.routed 1 ha])
  · rw [hfirst.grows.armed] at ha
    rw [hother]
    exact h.far.mdec 1 (h.counted _ ha)

omit hs hn in
/-- Between two calls the next event of a display list is due in one cycle. -/
theorem list_off (hs : s.Sound) (hn : 0 < n) (h2 : counts 2 = true) : s.list.active = false := by
  cases hact : s.list.active
  · rfl
  · have hfar := h.far.list h2 hact
    rw [dmaGpuLlCyclesToEvent, if_pos hact, (hs.list hact).2] at hfar
    have hle : n + 1 ≤ 1 := hfar
    omega

theorem list_quiet : Quiet s.core (listAdvanced dev.counted s).core := by
  have hmdecs := mdecs_quiet dev hs hn h
  refine hmdecs.trans ?_
  cases harmed : (mdecsAdvanced dev.counted s).irqFlagArmed 2
  · refine (listAdvance_runs dev 1 ⟨mdecsAdvanced dev.counted s, s.list⟩).quiet fun j hj => ?_
    rw [Set.mem_singleton_iff.mp hj]
    exact harmed
  · rw [hmdecs.grows.armed] at harmed
    have hoff := list_off h hs hn (h.counted 2 harmed)
    unfold listAdvanced advanceList listWalks
    rw [hoff]
    exact ⟨rfl, rfl⟩

theorem cdrom_quiet : Quiet s.core (cdromAdvanced dev.counted s) := by
  have hlist := list_quiet dev hs hn h
  refine hlist.trans ?_
  cases harmed : (listAdvanced dev.counted s).core.irqFlagArmed 3
  · refine (cdromAdvance_runs dev 1 _).quiet fun j hj => ?_
    rw [Set.mem_singleton_iff.mp hj, harmed]
  · rw [hlist.grows.armed] at harmed
    refine advanceCdrom_calm dev ?_ hn
    rw [mdecsAdvanced_cdrom dev.counted hs]
    exact h.far.cdrom (h.counted 3 harmed)

omit hn in
theorem delayed_far {k : ℕ} (hk : k ≤ n + 1) {j : Fin 7} (hj : counts j = true) :
    ((cdromAdvanced dev.counted s).delayed j).Far k := by
  rcases cdromAdvanced_delayed dev.counted hs j with he | he
  · rw [he]
    exact fun hact => hk.trans (h.far.delayed j hj hact)
  · rw [he]
    exact nofun

theorem advance_quiet : Quiet s.core (dmaAdvance dev.counted 1 s).core := by
  have hcdrom := cdrom_quiet dev hs hn h
  refine hcdrom.trans (advanceDelayed_quiet dev fun j hj => ?_)
  rw [hcdrom.grows.armed] at hj
  exact delayed_far dev hs h (by omega) (h.counted j hj)

theorem advance_far : Far counts n (dmaAdvance dev.counted 1 s) := by
  have hmdec : (dmaAdvance dev.counted 1 s).core.mdec = (mdecsAdvanced dev.counted s).mdec :=
    dmaAdvance_mdec dev.counted Nat.one_ne_zero hs
  refine ⟨fun i hi => ?_, fun h3 => ?_, fun h2 hact => ?_, fun ch hch => ?_⟩
  · rw [hmdec]
    match i with
    | 0 =>
      rw [mdecsAdvanced_zero dev.counted hs]
      exact advanceMdec_far dev.counted (h.far.mdec 0 hi)
    | 1 =>
      refine advanceMdec_far dev.counted ?_
      rw [advanceMdec_other dev.counted (by decide) 1 hs.core]
      exact h.far.mdec 1 hi
  · rw [dmaAdvance_one]
    dsimp only
    rw [(advanceDelayed_words dev.counted 1 _).2]
    refine advanceCdrom_far dev.counted ?_
    rw [mdecsAdvanced_cdrom dev.counted hs]
    exact h.far.cdrom h3
  · have hoff := list_off h hs hn h2
    rw [dmaAdvance_one] at hact
    unfold listAdvanced advanceList listWalks at hact
    dsimp only at hact
    rw [hoff] at hact
    simp [hoff] at hact
  · rw [dmaAdvance_one]
    dsimp only
    rw [advanceDelayed_delayed]
    exact (delayed_far dev hs h le_rfl hch).after

/-- One cycle before the estimate nothing shows in DICR, and the estimate is one cycle less. -/
theorem advance_step : Quiet s.core (dmaAdvance dev.counted 1 s).core ∧
    Estimable counts n (dmaAdvance dev.counted 1 s) := by
  have hq := advance_quiet dev hs hn h
  refine ⟨hq, fun ch ha => ?_, fun i ha => ?_, advance_far dev hs hn h⟩
  · rw [hq.grows.armed] at ha
    exact h.counted ch ha
  · rw [hq.grows.armed] at ha
    cases hm : mdecMisrouted (dmaAdvance dev.counted 1 s).core i
    · rfl
    · have hmdec : (dmaAdvance dev.counted 1 s).core.mdec = (mdecsAdvanced dev.counted s).mdec :=
        dmaAdvance_mdec dev.counted Nat.one_ne_zero hs
      have hbefore := misrouted_fades dev (dmaAdvance_runs dev 1 s) (fun hact => by
        rw [hmdec] at hact
        exact mdecsAdvanced_active dev.counted hs hact) hm
      exact absurd hbefore (by simp [h.routed i ha])

end Step

end Tick

/-! ## The law -/

section Law
variable {ω : Type*} (dev : Devices ω) {counts : Fin 7 → Bool}

theorem ticks_quiet {s : Controller (ω × ℕ)} (hs : s.Sound) {k : ℕ} (h : Estimable counts k s) (outside : List (ω → ω))
    (hlen : outside.length < k) : raises (ticks dev outside s).core = raises s.core := by
  induction outside generalizing s k with
  | nil => rfl
  | cons o outside ih =>
    rw [List.length_cons] at hlen
    obtain ⟨n, rfl⟩ : ∃ n, k = n + 1 := ⟨k - 1, by omega⟩
    have hworld : Estimable counts (n + 1) { s with core := { s.core with world := (o s.core.world.1, s.core.world.2) } } :=
      ⟨h.counted, h.routed, ⟨h.far.mdec, h.far.cdrom, h.far.list, h.far.delayed⟩⟩
    have hsound : Controller.Sound { s with core := { s.core with world := (o s.core.world.1, s.core.world.2) } } :=
      ⟨hs.core.same (.world _ _), hs.list⟩
    obtain ⟨hq, hnext⟩ := advance_step dev hsound (by omega) hworld
    exact (ih (hsound.dmaAdvance dev.counted 1) hnext (by omega)).trans hq.2

/-- Over a pending interrupt nothing is raised. -/
theorem ticks_pending {s : Controller (ω × ℕ)} (hm : dicrMasterFlag s.core.dicr = true) (outside : List (ω → ω)) :
    raises (ticks dev outside s).core = raises s.core := by
  have hruns : Runs dev.counted Set.univ s.core (ticks dev outside s).core := ticks_runs outside s
  have hedge := hruns.grows.edge
  rw [hedge, hm]
  rfl

/-- With `UINT32_MAX` for an estimate no record that counts is under way. -/
theorem Far.never {s : Controller ω} (hs : s.Sound) (h : Far counts uint32Limit s) (k : ℕ) :
    Far counts k s := by
  have hword (a : Async) (ha : a.Sound) (hfar : a.Far uint32Limit) : a.Far k := by
    intro hact hrem
    have hle := (hfar hact hrem).trans ((Nat.sub_le _ _).trans ha.short)
    exact absurd hle (by decide)
  refine ⟨fun i hi => hword _ (hs.core.mdec i) (h.mdec i hi), fun h3 => hword _ hs.core.cdrom (h.cdrom h3), fun h2 hact => ?_,
    fun ch hch hact => ?_⟩
  · have hle := h.list h2 hact
    rw [dmaGpuLlCyclesToEvent, if_pos hact, (hs.list hact).2] at hle
    exact absurd hle (by decide)
  · exact absurd (h.delayed ch hch hact) (Nat.not_le.mpr ((hs.core.delayed ch).cycles hact).2)

theorem neverLate_of {s : Controller (ω × ℕ)} (hs : s.Sound)
    (hcounts : ∀ ch, s.core.irqFlagArmed ch = true → counts ch = true)
    (hroute : ∀ i, s.core.irqFlagArmed (mdecChannel i) = true → mdecMisrouted s.core i = false) :
    NeverLate dev (earliest (estimates counts s)) s := by
  intro outside hlen
  have hfar : Far counts (earliest (estimates counts s)) s := (estimates_iff _).mp fun d hd => earliest_le hd
  rcases hlen with hlen | hnever
  · exact ticks_quiet dev hs ⟨hcounts, hroute, hfar⟩ outside hlen
  · rw [hnever] at hfar
    exact ticks_quiet dev hs ⟨hcounts, hroute, hfar.never hs _⟩ outside (Nat.lt_succ_self _)

/-! ### The wrong direction -/

theorem advanceMdec_channels (i : Fin 2) (n : ℕ) (c : Core ω) {j : Fin 7} (hj : j ≠ mdecChannel i) :
    (advanceMdecChannel dev i n c).channels j = c.channels j := by
  have hset (d : Core ω) (f : Channel → Channel) : (d.setChannel (mdecChannel i) f).channels j = d.channels j :=
    Function.update_of_ne hj _ _
  have hmoved (d : Core ω) (m : BitVec 32 × ω) (a : Async) :
      ((d.moved (mdecChannel i) m).setMdec i a).channels j = d.channels j := hset d fun r => { r with madr := m.1 }
  have hfinish (d : Core ω) : (finishAsyncMdecTransfer dev i d).channels j = d.channels j := by
    obtain ⟨dicr, world, he⟩ := completeTransfer_eq dev (mdecChannel i) (d.cancelAsync (mdecChannel i))
    rw [finishAsyncMdecTransfer, he]
    dsimp only
    rw [Core.clearBusy, hset, cancelAsync_channels]
  unfold advanceMdecChannel
  dsimp only
  split_ifs
  · rfl
  · exact hfinish c
  · rfl
  · rfl
  · rfl
  · unfold mdecMoved
    dsimp only
    split
    · exact (hfinish _).trans (hmoved _ _ _)
    · exact hmoved _ _ _

/-- The refused channel is completed, and its flag is up. -/
theorem misrouted_completes {c : Core (ω × ℕ)} {i : Fin 2} (hm : mdecMisrouted c i = true)
    (harmed : c.irqFlagArmed (mdecChannel i) = true) :
    dicrMasterFlag (advanceMdecChannel dev.counted i 1 c).dicr = true := by
  simp only [mdecMisrouted, Bool.and_eq_true] at hm
  have heq : advanceMdecChannel dev.counted i 1 c = finishAsyncMdecTransfer dev.counted i c := by
    unfold advanceMdecChannel
    rw [if_neg (mdecRuns_gate hm.1), if_pos hm.2]
  have hsame := (cancelAsync_calm (mdecChannel i) c).quiet
  have harmed' : (c.cancelAsync (mdecChannel i)).irqFlagArmed (mdecChannel i) = true := by
    rwa [hsame.grows.armed]
  have hlt : 24 + (mdecChannel i).val < 32 := by omega
  have h23 : c.dicr.getLsbD 23 = true := by
    simp only [Core.irqFlagArmed, Bool.and_eq_true] at harmed
    exact harmed.2
  rw [heq, finishAsyncMdecTransfer, (completeTransfer_watched dev _ _).1, latched, if_pos harmed', hsame.1]
  unfold dicrMasterFlag
  have hlow : (c.dicr ||| BitVec.twoPow 32 (24 + (mdecChannel i).val)).getLsbD 23 = true := by
    rw [BitVec.getLsbD_or, h23, Bool.true_or]
  rw [hlow, Bool.true_and, Bool.or_eq_true]
  refine Or.inr (decide_eq_true fun hzero => ?_)
  have hreset (n : Fin 7) : dicrResetMask.getLsbD (24 + n) = true := by
    revert n
    decide
  have hbit := congrArg (fun v : BitVec 32 => v.getLsbD (24 + (mdecChannel i).val)) hzero
  rw [BitVec.getLsbD_and, BitVec.getLsbD_or, BitVec.getLsbD_twoPow, hreset] at hbit
  simp [hlt] at hbit

theorem overtaken_raises {s : Controller (ω × ℕ)} (hs : s.Sound) {i : Fin 2} (hm : mdecMisrouted s.core i = true)
    (harmed : s.core.irqFlagArmed (mdecChannel i) = true) (hclear : dicrMasterFlag s.core.dicr = false) :
    raises (dmaAdvance dev.counted 1 s).core = raises s.core + 1 := by
  have hfirst := (mdecAdvance_runs dev 0 1 s.core).grows
  have hmdecs : dicrMasterFlag (mdecsAdvanced dev.counted s).dicr = true := by
    match i with
    | 0 => exact (mdecAdvance_runs dev 1 1 _).grows.master (misrouted_completes dev hm harmed)
    | 1 =>
      refine misrouted_completes dev ?_ ?_
      · have hchannel := advanceMdec_channels dev.counted 0 1 s.core (j := 1) (by decide)
        have hrecord := advanceMdec_other dev.counted (i := 0) (j := 1) (by decide) 1 hs.core
        have hdpcr := (mdecAdvance_runs dev 0 1 s.core).fades.1
        simp only [mdecMisrouted, mdecRuns, mdecRouteInvalid, Core.busy, Core.fromRam, Core.channelEnabled,
          mdecChannel_one, hrecord, hchannel, hdpcr] at hm ⊢
        exact hm
      · rwa [hfirst.armed]
  have hlist := (listAdvance_runs dev 1 ⟨mdecsAdvanced dev.counted s, s.list⟩).grows.master hmdecs
  have hcdrom := (cdromAdvance_runs dev 1 (listAdvanced dev.counted s).core).grows.master hlist
  have hall : dicrMasterFlag (dmaAdvance dev.counted 1 s).core.dicr = true :=
    (runs_foldl (fun c ch => (delayedAdvance_runs dev ch 1 c).mono (Set.subset_univ {ch})) _ _).grows.master hcdrom
  rw [(dmaAdvance_runs dev 1 s).grows.edge, hclear, hall]
  rfl

/-- Neither estimate is late in a state of a run, unless a channel set up in the wrong direction overtakes
them. -/
theorem cycles_to_irq_not_late_iff {s : Controller (ω × ℕ)} (hs : Reaches dev.counted Counting s) {iMask : BitVec 32}
    (hmask : iMask.getLsbD 3 = true) :
    NeverLate dev (dmaCyclesToIrq iMask s) s ∧ NeverLate dev (dmaCyclesToDeliverableIrq iMask s) s ↔ ¬Overtaken s := by
  have hirq : dmaCyclesToIrq iMask s = earliest (estimates (fun _ => true) s) := if_neg (by simp [hmask])
  have hdeliverable : dmaCyclesToDeliverableIrq iMask s = earliest (estimates s.core.irqFlagArmed s) :=
    if_neg (by simp [hmask])
  rw [hirq, hdeliverable]
  constructor
  · rintro ⟨-, hlate⟩ ⟨i, hm, harmed, hclear, hfar⟩
    have hle : 2 ≤ earliest (estimates s.core.irqFlagArmed s) :=
      le_earliest_iff.mpr ⟨by decide, (estimates_iff 2).mpr hfar⟩
    have hsame : raises (dmaAdvance dev.counted 1 s).core = raises s.core := hlate [id] (Or.inl hle)
    rw [overtaken_raises dev hs.sound hm harmed hclear] at hsame
    omega
  · intro hgood
    have hcase (counts : Fin 7 → Bool) (hcounts : ∀ ch, s.core.irqFlagArmed ch = true → counts ch = true) :
        NeverLate dev (earliest (estimates counts s)) s := by
      by_cases hroute : ∀ i, s.core.irqFlagArmed (mdecChannel i) = true → mdecMisrouted s.core i = false
      · exact neverLate_of dev hs.sound hcounts hroute
      cases hclear : dicrMasterFlag s.core.dicr
      · -- a channel in the wrong direction: the estimate is at most one
        simp only [not_forall, Bool.not_eq_false] at hroute
        obtain ⟨i, harmed, hm⟩ := hroute
        have hsmall : earliest (estimates counts s) < 2 := by
          by_contra hle
          have hfar := (estimates_iff 2).mp (le_earliest_iff.mp (Nat.le_of_not_lt hle)).2
          refine hgood ⟨i, hm, harmed, hclear, ⟨fun i hi => hfar.mdec i (hcounts _ hi), fun h3 => hfar.cdrom (hcounts _ h3),
            fun h2 => hfar.list (hcounts _ h2), fun ch hch => hfar.delayed ch (hcounts _ hch)⟩⟩
        intro outside hlen
        have hnil : outside = [] := by
          rcases hlen with hlen | hlen
          · exact List.length_eq_zero_iff.mp (by omega)
          · rw [hlen] at hsmall
            exact absurd hsmall (by decide)
        rw [hnil]
        rfl
      · exact fun outside _ => ticks_pending dev hclear outside
    exact ⟨hcase _ fun _ _ => rfl, hcase _ fun _ h => h⟩

end Law

/-- Two words to the SPU, with the interrupt of channel 4 enabled. -/
theorem cycles_to_irq_not_late_spu : ∃ s : Controller (Unit × ℕ), dmaCyclesToDeliverableIrq 8 s = 96 ∧
    NeverLate silentDevices (dmaCyclesToIrq 8 s) s ∧ NeverLate silentDevices (dmaCyclesToDeliverableIrq 8 s) s := by
  have h0 : Reaches silentDevices.counted Counting (dmaInit ((), 0)) := .init _
  have h1 := h0.next silentDevices.counted (Access.counted (.write 0x1F8010F0 0x000F0000 0xFFFFFFFF [])) ⟨_, rfl⟩ (by decide)
  have h2 := h1.next silentDevices.counted (Access.counted (.write 0x1F8010F4 0x00900000 0xFFFFFFFF [])) ⟨_, rfl⟩ (by decide)
  have h3 := h2.next silentDevices.counted (Access.counted (.write 0x1F8010C4 2 0xFFFFFFFF [])) ⟨_, rfl⟩ (by decide)
  have h4 := h3.next silentDevices.counted (Access.counted (.write 0x1F8010C8 0x01000201 0xFFFFFFFF [])) ⟨_, rfl⟩ (by decide)
  refine ⟨_, by decide, (cycles_to_irq_not_late_iff silentDevices h4 (by decide)).mpr ?_⟩
  rintro ⟨i, hm, -⟩
  match i with
  | 0 => exact absurd hm (by decide)
  | 1 => exact absurd hm (by decide)

/-- Sixteen words out of the MDEC input channel: announced for the sixteenth cycle, completed by the
first. -/
theorem wrong_direction_overtakes : ¬∀ s : Controller (Unit × ℕ), Reaches silentDevices.counted Counting s →
    NeverLate silentDevices (dmaCyclesToIrq 8 s) s ∧ NeverLate silentDevices (dmaCyclesToDeliverableIrq 8 s) s := by
  intro h
  have h0 : Reaches silentDevices.counted Counting (dmaInit ((), 0)) := .init _
  have h1 := h0.next silentDevices.counted (Access.counted (.write 0x1F8010F0 0x00000008 0xFFFFFFFF [])) ⟨_, rfl⟩ (by decide)
  have h2 := h1.next silentDevices.counted (Access.counted (.write 0x1F8010F4 0x00810000 0xFFFFFFFF [])) ⟨_, rfl⟩ (by decide)
  have h3 := h2.next silentDevices.counted (Access.counted (.write 0x1F801084 16 0xFFFFFFFF [])) ⟨_, rfl⟩ (by decide)
  have h4 := h3.next silentDevices.counted (Access.counted (.write 0x1F801088 0x01000000 0xFFFFFFFF [])) ⟨_, rfl⟩ (by decide)
  have hlate := (h _ h4).2 [id] (Or.inl (by decide))
  exact absurd hlate (by decide)

end PsxRecomp.Dma
