import Mathlib
import PsxRecomp.Dma.Liveness

/-! `dma_cycles_to_internal_event` against `dma_advance`: before the announced cycle nothing but
the countdowns moves, and at it something does. -/
namespace PsxRecomp.Dma
open Transducer
set_option autoImplicit false

variable {ω : Type*} (dev : Devices ω)

/-! ## Channels with nothing due -/

/-- The MDEC record is active on a busy, enabled channel. -/
def mdecRuns (c : Core ω) (i : Fin 2) : Bool :=
  (c.mdec i).active && c.busy (mdecChannel i) && c.channelEnabled (mdecChannel i)

def mdecMisrouted (c : Core ω) (i : Fin 2) : Bool := mdecRuns c i && mdecRouteInvalid c i

/-- The record counts cycles towards its next job. -/
def mdecCounting (c : Core ω) (i : Fin 2) : Bool :=
  mdecRuns c i && !mdecRouteInvalid c i && mdecReady dev i c.world

def mdecCost (c : Core ω) (i : Fin 2) : ℕ := jobWords dev (c.mdec i) * mdecCyclesPerWord i

def mdecIdle (n : ℕ) (c : Core ω) (i : Fin 2) : Prop :=
  mdecMisrouted c i = false ∧
    (mdecCounting dev c i = true → (c.mdec i).cyclesAccum + n < mdecCost dev c i)

def listIdle (n : ℕ) (s : Controller ω) : Prop :=
  listWalks s = true → n < s.list.cyclesRemaining

def cdromIdle (c : Core ω) : Prop :=
  dmaCdromTransferActive c = true → dev.cdromReady c.world = (false, c.world)

def delayedIdle (n : ℕ) (c : Core ω) (ch : Fin 7) : Prop :=
  (c.delayed ch).active = true → n < (c.delayed ch).cyclesRemaining

/-- In `n` cycles no channel moves a word, completes or is cancelled. -/
structure IdleFor (n : ℕ) (s : Controller ω) : Prop where
  mdec : ∀ i, mdecIdle dev n s.core i
  list : listIdle n s
  cdrom : cdromIdle dev s.core
  delayed : ∀ ch, delayedIdle n s.core ch

/-! ## Counting down -/

def mdecCounted (n : ℕ) (c : Core ω) (i : Fin 2) : Async :=
  if mdecCounting dev c i then (c.mdec i).pay n else c.mdec i

def Delayed.counted (n : ℕ) (d : Delayed) : Delayed :=
  if d.active then { d with cyclesRemaining := d.cyclesRemaining - n } else d

/-- The state after `n` cycles in which nothing was due. -/
def countdown (n : ℕ) (s : Controller ω) : Controller ω :=
  { core := { s.core with
      mdec := mdecCounted dev n s.core, delayed := fun ch => (s.core.delayed ch).counted n }
    list := if listWalks s then spend s.list n else s.list }

theorem mdecCyclesPerWord_pos (i : Fin 2) : 0 < mdecCyclesPerWord i := by
  unfold mdecCyclesPerWord
  split <;> decide

theorem jobWords_pos {a : Async} (h : 0 < a.remainingWords) : 0 < jobWords dev a :=
  lt_min h dev.job_pos

theorem mdecCost_lt (c : Core ω) (i : Fin 2) : mdecCost dev c i < uint32Limit := by
  have hjob : jobWords dev (c.mdec i) ≤ dev.mdecWordsPerJob := min_le_right _ _
  have hcost : mdecCyclesPerWord i ≤ 14 := by
    unfold mdecCyclesPerWord
    split <;> decide
  exact lt_of_le_of_lt (Nat.mul_le_mul hjob hcost) dev.job_small

theorem advanceMdec_still {n : ℕ} {c : Core ω} {i : Fin 2} (h : mdecRuns c i = false) :
    advanceMdecChannel dev i n c = c := by
  unfold advanceMdecChannel
  rw [if_pos]
  simpa only [mdecRuns, Bool.and_eq_false_iff, or_assoc] using h

theorem mdecRuns_gate {c : Core ω} {i : Fin 2} (h : mdecRuns c i = true) :
    ¬((c.mdec i).active = false ∨ c.busy (mdecChannel i) = false ∨
      c.channelEnabled (mdecChannel i) = false) := by
  unfold mdecRuns at h
  simp only [Bool.and_eq_true] at h
  simp [h.1.1, h.1.2, h.2]

/-- What a running record of the right direction does with some cycles. -/
theorem advanceMdec_runs {n : ℕ} {c : Core ω} {i : Fin 2} (h : mdecCounting dev c i = true) :
    advanceMdecChannel dev i n c =
      let a := (c.mdec i).pay n
      let budget := a.cyclesAccum / mdecCyclesPerWord i
      if budget < jobWords dev a ∨ budget = 0 then c.setMdec i a
      else
        let m := moveWords (fun w => (mdecReady dev i w, w)) (mdecWord dev i)
          (c.nextAddr dev (mdecChannel i)) (min a.remainingWords budget)
          (c.startAddr dev (mdecChannel i)) c.world
        if m.1 = 0 then c.setMdec i a else mdecMoved dev i (c.setMdec i a) m := by
  unfold mdecCounting at h
  simp only [Bool.and_eq_true, Bool.not_eq_true'] at h
  unfold advanceMdecChannel
  rw [if_neg (mdecRuns_gate h.1.1), if_neg (by simp [h.1.2]), if_neg (by simp [h.2])]

/-- Below the price of the next job the record only counts. -/
theorem advanceMdec_idle {n : ℕ} {c : Core ω} {i : Fin 2} (h : mdecIdle dev n c i) :
    advanceMdecChannel dev i n c = c.setMdec i (mdecCounted dev n c i) := by
  have hself : c.setMdec i (c.mdec i) = c := by
    rw [Core.setMdec, Function.update_eq_self]
  obtain ⟨hroute, hcount⟩ := h
  unfold mdecCounted
  cases hc : mdecCounting dev c i
  · rw [if_neg (by simp), hself]
    cases hruns : mdecRuns c i
    · exact advanceMdec_still dev hruns
    · have hvalid : mdecRouteInvalid c i = false := by
        simpa [mdecMisrouted, hruns] using hroute
      have hready : mdecReady dev i c.world = false := by
        simpa [mdecCounting, hruns, hvalid] using hc
      unfold advanceMdecChannel
      rw [if_neg (mdecRuns_gate hruns), if_neg (by simp [hvalid]), if_pos hready]
  · have hlt := hcount hc
    have hbudget : ((c.mdec i).pay n).cyclesAccum / mdecCyclesPerWord i <
        jobWords dev ((c.mdec i).pay n) := by
      rw [Nat.div_lt_iff_lt_mul (mdecCyclesPerWord_pos i)]
      exact lt_of_le_of_lt (min_le_left _ _) hlt
    rw [advanceMdec_runs dev hc, if_pos rfl]
    exact if_pos (Or.inl hbudget)

/-! ## What a channel with something due shows -/

def Async.shown (a : Async) : Async := { a with cyclesAccum := 0 }

def Delayed.shown (d : Delayed) : Delayed := { d with cyclesRemaining := 0 }

def LinkedList.shown (ll : LinkedList) : LinkedList := { ll with cyclesRemaining := 0 }

/-- Everything but the countdowns. -/
def observable (s : Controller ω) : Controller ω :=
  { core := { s.core with
      mdec := fun i => (s.core.mdec i).shown, cdrom := s.core.cdrom.shown
      delayed := fun ch => (s.core.delayed ch).shown }
    list := s.list.shown }

theorem finishMdec_shown {c c' : Core ω} {i : Fin 2} (hact : (c.mdec i).active = true) :
    ((finishAsyncMdecTransfer dev i c').mdec i).shown ≠ (c.mdec i).shown := by
  intro he
  have hidle : (finishAsyncMdecTransfer dev i c').mdec i = .idle := by
    rw [finishAsyncMdecTransfer, completeTransfer_mdec, cancelAsync_mdec, if_pos rfl]
  rw [hidle] at he
  have hfalse := (congrArg Async.active he).trans hact
  cases hfalse

theorem mdecMoved_shown {c : Core ω} {i : Fin 2} {n : ℕ} {m : ℕ × BitVec 32 × ω}
    (hact : (c.mdec i).active = true) (hrem : 0 < (c.mdec i).remainingWords) (hm : m.1 ≠ 0) :
    ((mdecMoved dev i (c.setMdec i ((c.mdec i).pay n)) m).mdec i).shown ≠ (c.mdec i).shown := by
  have hat : (c.setMdec i ((c.mdec i).pay n)).mdec i = (c.mdec i).pay n := Function.update_self ..
  unfold mdecMoved
  dsimp only
  rw [hat, setMdec_moved]
  split
  · exact finishMdec_shown dev hact
  · intro he
    have hset : ∀ a, ((c.moved (mdecChannel i) m.2).setMdec i a).mdec i = a :=
      fun a => Function.update_self ..
    rw [hset] at he
    have hwords : (c.mdec i).remainingWords - m.1 = (c.mdec i).remainingWords :=
      congrArg Async.remainingWords he
    omega

/-- A record with something due shows it: a word moves, or the transfer ends. -/
theorem advanceMdec_due {n : ℕ} {c : Core ω} {i : Fin 2} (hs : (c.mdec i).Sound)
    (h : ¬mdecIdle dev n c i) :
    ((advanceMdecChannel dev i n c).mdec i).shown ≠ (c.mdec i).shown := by
  have hruns : mdecRuns c i = true := by
    by_contra hne
    exact h ⟨by simp [mdecMisrouted, hne], fun hc => by simp [mdecCounting, hne] at hc⟩
  have hact : (c.mdec i).active = true := by
    simp only [mdecRuns, Bool.and_eq_true] at hruns
    exact hruns.1.1
  cases hvalid : mdecRouteInvalid c i
  · cases hc : mdecCounting dev c i
    · exact absurd ⟨by simp [mdecMisrouted, hvalid], fun h' => by simp [hc] at h'⟩ h
    · have hcost : mdecCost dev c i ≤ (c.mdec i).cyclesAccum + n := by
        by_contra hlt
        exact h ⟨by simp [mdecMisrouted, hvalid], fun _ => Nat.lt_of_not_le hlt⟩
      have hrem := hs.remaining hact
      have hpaid : mdecCost dev c i ≤ ((c.mdec i).pay n).cyclesAccum :=
        le_min hcost (mdecCost_lt dev c i).le
      have hjob : jobWords dev (c.mdec i) ≤
          ((c.mdec i).pay n).cyclesAccum / mdecCyclesPerWord i :=
        (Nat.le_div_iff_mul_le (mdecCyclesPerWord_pos i)).2 hpaid
      have hpos := jobWords_pos dev hrem
      have hready : mdecReady dev i c.world = true := by
        simp only [mdecCounting, Bool.and_eq_true] at hc
        exact hc.2
      rw [advanceMdec_runs dev hc]
      dsimp only
      have hbudget : ¬(((c.mdec i).pay n).cyclesAccum / mdecCyclesPerWord i <
          jobWords dev ((c.mdec i).pay n) ∨
          ((c.mdec i).pay n).cyclesAccum / mdecCyclesPerWord i = 0) := by
        rw [not_or]
        exact ⟨Nat.not_lt.2 hjob, by omega⟩
      rw [if_neg hbudget]
      have hsome : min ((c.mdec i).pay n).remainingWords
          (((c.mdec i).pay n).cyclesAccum / mdecCyclesPerWord i) ≠ 0 :=
        (lt_min hrem (by omega)).ne'
      have hmoved := moveWords_pos (fun w => (mdecReady dev i w, w)) (mdecWord dev i)
        (c.nextAddr dev (mdecChannel i)) hsome (c.startAddr dev (mdecChannel i)) c.world hready
      rw [if_neg hmoved]
      exact mdecMoved_shown dev hact hrem hmoved
  · have he : advanceMdecChannel dev i n c = finishAsyncMdecTransfer dev i c := by
      unfold advanceMdecChannel
      rw [if_neg (mdecRuns_gate hruns), if_pos hvalid]
    rw [he]
    exact finishMdec_shown dev hact

theorem advanceCdrom_idle {n : ℕ} {c : Core ω} (h : cdromIdle dev c) :
    advanceCdrom dev n c = c := by
  unfold advanceCdrom
  cases hact : dmaCdromTransferActive c
  · rw [if_pos rfl]
  · have hdir : c.fromRam 3 = false := by
      simp only [dmaCdromTransferActive, Bool.and_eq_true, Bool.not_eq_true'] at hact
      exact hact.2
    rw [if_neg (by simp), if_neg (by simp [hdir]), h hact]
    rfl

theorem finishCdrom_shown {c c' : Core ω} {addr : BitVec 32} (hact : c.cdrom.active = true) :
    (finishAsyncCdromTransfer dev addr c').cdrom.shown ≠ c.cdrom.shown := by
  intro he
  have hidle : (finishAsyncCdromTransfer dev addr c').cdrom = .idle := by
    rw [finishAsyncCdromTransfer, completeTransfer_cdrom, cancelAsync_cdrom, if_pos rfl]
  rw [hidle] at he
  have hfalse := (congrArg Async.active he).trans hact
  cases hfalse

theorem cdromMoved_shown {c : Core ω} {n : ℕ} {m : ℕ × BitVec 32 × ω}
    (hact : c.cdrom.active = true) (hrem : 0 < c.cdrom.remainingWords) (hm : m.1 ≠ 0) :
    (cdromMoved dev c (c.cdrom.pay n) m).cdrom.shown ≠ c.cdrom.shown := by
  unfold cdromMoved
  dsimp only
  split
  · exact finishCdrom_shown dev hact
  · intro he
    have hwords : c.cdrom.remainingWords - m.1 = c.cdrom.remainingWords :=
      congrArg Async.remainingWords he
    omega

/-- A ready CD-ROM moves a word in any number of cycles. -/
theorem advanceCdrom_due {n : ℕ} (hn : n ≠ 0) {c : Core ω} (hs : c.cdrom.Sound)
    (hact : dmaCdromTransferActive c = true)
    (hready : dev.cdromReady c.world = (true, c.world)) :
    (advanceCdrom dev n c).cdrom.shown ≠ c.cdrom.shown := by
  have hgate := hact
  simp only [dmaCdromTransferActive, Bool.and_eq_true, Bool.not_eq_true'] at hgate
  have hrun : c.cdrom.active = true := hgate.1.1.1
  have hrem := hs.remaining hrun
  unfold advanceCdrom
  rw [if_neg (by simp [hact]), if_neg (by simp [hgate.2]), hready]
  dsimp only
  rw [if_neg (by simp)]
  have hbudget : (c.cdrom.pay n).cyclesAccum / cdromCyclesPerWord ≠ 0 := by
    have hpaid : 0 < (c.cdrom.pay n).cyclesAccum := lt_min (by omega) (by decide)
    rw [cdromCyclesPerWord, Nat.div_one]
    exact hpaid.ne'
  have hsome : min (c.cdrom.pay n).remainingWords
      ((c.cdrom.pay n).cyclesAccum / cdromCyclesPerWord) ≠ 0 :=
    (lt_min hrem (Nat.pos_of_ne_zero hbudget)).ne'
  have hmoved := moveWords_pos dev.cdromReady (toRam dev dev.cdromRead) (c.nextAddr dev 3) hsome
    (c.startAddr dev 3) c.world (by rw [hready])
  rw [if_neg hmoved]
  exact cdromMoved_shown dev hrun hrem hmoved

theorem listWalks_active {s : Controller ω} (hw : listWalks s = true) : s.list.active = true := by
  simp only [listWalks, Bool.and_eq_true] at hw
  exact hw.1.1

theorem advanceList_idle {n : ℕ} {s : Controller ω} (h : listIdle n s) :
    advanceList dev n s = { s with list := if listWalks s then spend s.list n else s.list } := by
  unfold advanceList
  split
  case isFalse => rfl
  case isTrue hw =>
    have hact := listWalks_active hw
    have hwait : dmaGpuLlAdvance (gpuLlOps dev (dev.readWord s.core.world)) n (s.list, s.core) =
        ((spend s.list n, s.core), []) := by
      by_cases hn : n = 0
      · rw [hn, advance_zero]
        rfl
      · rw [advance_loop _ _ rfl hn _ hact, loop_wait _ _ (h hw)]
    unfold walkList
    rw [hwait]
    dsimp only
    rw [if_neg (by simp [spend, hact])]

theorem advanceList_due {n : ℕ} {s : Controller ω} (hs : s.list.Sound) (hw : listWalks s = true)
    (hn : n = s.list.cyclesRemaining) :
    (advanceList dev n s).list.shown ≠ s.list.shown := by
  have hact := listWalks_active hw
  obtain ⟨hwait, hone⟩ := hs hact
  have hevent : n = dmaGpuLlCyclesToEvent s.list := by
    rw [dmaGpuLlCyclesToEvent, if_pos hact, if_pos hwait.1, hn]
  have hprogress := (advance_event (gpuLlOps dev (dev.readWord s.core.world)) _ rfl
    (s.list, s.core) hact hwait).2
  have hlist : (advanceList dev n s).list = (dmaGpuLlAdvance
      (gpuLlOps dev (dev.readWord s.core.world)) (dmaGpuLlCyclesToEvent s.list)
      (s.list, s.core)).1.1 := by
    rw [advanceList, if_pos hw, hevent]
    rfl
  intro he
  rw [← hlist] at hprogress
  rcases hprogress with hwords | hdone
  · have hsame := congrArg LinkedList.totalWords he
    have hne : s.list.totalWords ≠ s.list.totalWords + 1 := by simp
    exact hne (hsame.symm.trans hwords)
  · have hsame := congrArg LinkedList.active he
    have hfalse := (hdone.1.symm.trans hsame).trans hact
    cases hfalse

/-- A delayed completion after some cycles. -/
def Delayed.after (n : ℕ) (d : Delayed) : Delayed :=
  if d.active = false then d else if n < d.cyclesRemaining then d.counted n else .idle

theorem advanceDelayedComplete_delayed (n : ℕ) (ch j : Fin 7) (c : Core ω) :
    (advanceDelayedComplete dev ch n c).delayed j =
      if j = ch then (c.delayed j).after n else c.delayed j := by
  have hset : ∀ d, (c.setDelayed ch d).delayed j = if j = ch then d else c.delayed j := by
    intro d
    show Function.update c.delayed ch d j = _
    rw [Function.update_apply]
  unfold advanceDelayedComplete Delayed.after
  by_cases hj : j = ch
  · subst hj
    rw [if_pos rfl]
    split_ifs with hoff hlt
    · rfl
    · rw [hset, if_pos rfl, Delayed.counted, if_pos (by simpa using hoff)]
    · rw [completeTransfer_delayed, hset, if_pos rfl]
  · rw [if_neg hj]
    split_ifs
    · rfl
    · rw [hset, if_neg hj]
    · rw [completeTransfer_delayed, hset, if_neg hj]

theorem foldl_delayed (n : ℕ) (l : List (Fin 7)) (hl : l.Nodup) (j : Fin 7) (c : Core ω) :
    (l.foldl (fun c ch => advanceDelayedComplete dev ch n c) c).delayed j =
      if j ∈ l then (c.delayed j).after n else c.delayed j := by
  induction l generalizing c with
  | nil => rfl
  | cons ch l ih =>
    rw [List.nodup_cons] at hl
    rw [List.foldl_cons, ih hl.2, advanceDelayedComplete_delayed]
    by_cases hj : j = ch
    · subst hj
      rw [if_neg hl.1, if_pos rfl, if_pos List.mem_cons_self]
    · simp [hj]

theorem advanceDelayed_delayed (n : ℕ) (j : Fin 7) (c : Core ω) :
    (advanceDelayed dev n c).delayed j = (c.delayed j).after n := by
  unfold advanceDelayed
  rw [foldl_delayed dev n _ (List.nodup_finRange 7), if_pos (List.mem_finRange j)]

theorem after_due {n : ℕ} {c : Core ω} {ch : Fin 7} (h : ¬delayedIdle n c ch) :
    ((c.delayed ch).after n).shown ≠ (c.delayed ch).shown := by
  unfold delayedIdle at h
  rw [Classical.not_imp] at h
  unfold Delayed.after
  rw [if_neg (by simp [h.1]), if_neg h.2]
  intro he
  have hfalse : false = (c.delayed ch).active := congrArg Delayed.active he
  rw [h.1] at hfalse
  cases hfalse

theorem foldl_idle (n : ℕ) (l : List (Fin 7)) (hl : l.Nodup) (c : Core ω)
    (h : ∀ ch ∈ l, delayedIdle n c ch) :
    l.foldl (fun c ch => advanceDelayedComplete dev ch n c) c =
      { c with delayed := fun ch =>
          if ch ∈ l then (c.delayed ch).counted n else c.delayed ch } := by
  induction l generalizing c with
  | nil => rfl
  | cons ch l ih =>
    rw [List.nodup_cons] at hl
    have hstep : advanceDelayedComplete dev ch n c =
        c.setDelayed ch ((c.delayed ch).counted n) := by
      have hch := h ch List.mem_cons_self
      unfold advanceDelayedComplete Delayed.counted
      by_cases hact : (c.delayed ch).active = true
      · rw [if_neg (by simp [hact]), if_pos (hch hact), if_pos hact]
      · rw [if_pos (by simpa using hact), if_neg hact, Core.setDelayed, Function.update_eq_self]
    have hkeep : ∀ j ∈ l, (c.setDelayed ch ((c.delayed ch).counted n)).delayed j =
        c.delayed j := by
      intro j hj
      have hne : j ≠ ch := fun he => hl.1 (he ▸ hj)
      show Function.update c.delayed ch _ j = _
      rw [Function.update_of_ne hne]
    rw [List.foldl_cons, hstep, ih hl.2]
    · unfold Core.setDelayed
      congr 1
      funext j
      dsimp only
      by_cases hj : j = ch
      · subst hj
        simp [hl.1]
      · simp [hj]
    · intro j hj
      unfold delayedIdle
      rw [hkeep j hj]
      exact h j (List.mem_cons_of_mem _ hj)

theorem advanceDelayed_idle {n : ℕ} {c : Core ω} (h : ∀ ch, delayedIdle n c ch) :
    advanceDelayed dev n c = { c with delayed := fun ch => (c.delayed ch).counted n } := by
  unfold advanceDelayed
  rw [foldl_idle dev n _ (List.nodup_finRange 7) c fun ch _ => h ch]
  simp

/-! ## The whole controller -/

theorem mdecCounted_shown (n : ℕ) (c : Core ω) (i : Fin 2) :
    (mdecCounted dev n c i).shown = (c.mdec i).shown := by
  unfold mdecCounted
  split <;> rfl

theorem mdecCounted_active (n : ℕ) (c : Core ω) (i : Fin 2) :
    (mdecCounted dev n c i).active = (c.mdec i).active := by
  unfold mdecCounted
  split <;> rfl

theorem setMdec_other {i j : Fin 2} (h : j ≠ i) (a : Async) (c : Core ω) :
    (c.setMdec i a).mdec j = c.mdec j := by
  show Function.update c.mdec i a j = _
  rw [Function.update_of_ne h]

/-- The record of the other MDEC channel plays no part. -/
theorem mdecIdle_setMdec {n : ℕ} {i j : Fin 2} (h : j ≠ i) (a : Async) (c : Core ω) :
    mdecIdle dev n (c.setMdec i a) j ↔ mdecIdle dev n c j := by
  unfold mdecIdle mdecCost mdecMisrouted mdecCounting mdecRuns
  rw [setMdec_other h]
  rfl

theorem mdecCounted_setMdec {n : ℕ} {i j : Fin 2} (h : j ≠ i) (a : Async) (c : Core ω) :
    mdecCounted dev n (c.setMdec i a) j = mdecCounted dev n c j := by
  unfold mdecCounted mdecCounting mdecRuns
  rw [setMdec_other h]
  rfl

/-- Both MDEC channels idle. -/
theorem advanceMdec_both {n : ℕ} {c : Core ω} (h : ∀ i, mdecIdle dev n c i) :
    advanceMdecChannel dev 1 n (advanceMdecChannel dev 0 n c) =
      { c with mdec := mdecCounted dev n c } := by
  rw [advanceMdec_idle dev (h 0), advanceMdec_idle dev ((mdecIdle_setMdec dev (by decide) _ c).2
    (h 1)), mdecCounted_setMdec dev (by decide)]
  unfold Core.setMdec
  congr 1
  funext i
  match i with
  | 0 => rfl
  | 1 => rfl

theorem dmaAdvance_idle {n : ℕ} (hn : n ≠ 0) {s : Controller ω} (h : IdleFor dev n s) :
    dmaAdvance dev n s = countdown dev n s := by
  unfold dmaAdvance
  rw [if_neg hn]
  dsimp only
  rw [advanceMdec_both dev h.mdec]
  have hlist : listIdle n { s with core := { s.core with mdec := mdecCounted dev n s.core } } :=
    h.list
  rw [advanceList_idle dev hlist]
  have hcdrom : cdromIdle dev { s.core with mdec := mdecCounted dev n s.core } := h.cdrom
  dsimp only
  rw [advanceCdrom_idle dev hcdrom]
  have hdelayed : ∀ ch, delayedIdle n { s.core with mdec := mdecCounted dev n s.core } ch :=
    h.delayed
  rw [advanceDelayed_idle dev hdelayed]
  rfl

theorem observable_countdown (n : ℕ) (s : Controller ω) :
    observable (countdown dev n s) = observable s := by
  have hmdec : ∀ i, (mdecCounted dev n s.core i).shown = (s.core.mdec i).shown :=
    mdecCounted_shown dev n s.core
  have hdelayed : ∀ ch, ((s.core.delayed ch).counted n).shown = (s.core.delayed ch).shown := by
    intro ch
    unfold Delayed.counted
    split <;> rfl
  have hlist : (if listWalks s then spend s.list n else s.list).shown = s.list.shown := by
    split <;> rfl
  unfold observable countdown
  simp only [hmdec, hdelayed, hlist]

/-! ## Which step of an advance touches which record -/

theorem advanceMdec_other {i j : Fin 2} (h : j ≠ i) (n : ℕ) {c : Core ω} (hs : c.Sound) :
    (advanceMdecChannel dev i n c).mdec j = c.mdec j := by
  have hne : mdecChannel j ≠ mdecChannel i := by
    intro he
    have hval := congrArg Fin.val he
    exact h (Fin.ext hval)
  obtain ⟨c₁, a, h₁, -, ⟨he, -⟩ | he⟩ := advanceMdec_cases dev i n c (hs.mdec i)
  · rw [he, setMdec_other h, h₁.mdec]
  · rw [he, finishAsyncMdecTransfer, completeTransfer_mdec, cancelAsync_mdec, if_neg hne,
      setMdec_other h, h₁.mdec]

theorem advanceList_mdec (n : ℕ) (s : Controller ω) :
    (advanceList dev n s).core.mdec = s.core.mdec := by
  obtain he | ⟨-, ⟨-, hs⟩ | ⟨-, c₁, hs, hs'⟩⟩ := advanceList_cases dev n s
  · rw [he]
  · exact hs.mdec
  · rw [hs'.mdec, completeTransfer_mdec, hs.mdec]

theorem advanceCdrom_mdec (n : ℕ) {c : Core ω} (hs : c.Sound) :
    (advanceCdrom dev n c).mdec = c.mdec := by
  obtain ⟨c₁, a, w, h₁, -, ⟨he, -⟩ | ⟨addr, he⟩⟩ := advanceCdrom_cases dev n c hs.cdrom
  · rw [he]
    exact h₁.mdec
  · rw [he, finishAsyncCdromTransfer, completeTransfer_mdec]
    funext i
    rw [cancelAsync_mdec, if_neg (ne_mdecChannel i (by decide)).symm]
    exact congrFun h₁.mdec i

theorem advanceDelayed_words (n : ℕ) (c : Core ω) :
    (advanceDelayed dev n c).mdec = c.mdec ∧ (advanceDelayed dev n c).cdrom = c.cdrom := by
  unfold advanceDelayed
  refine foldl_keeps (P := fun c' : Core ω => c'.mdec = c.mdec ∧ c'.cdrom = c.cdrom) ?_ _
    ⟨rfl, rfl⟩
  intro c' ch h
  obtain he | ⟨-, ⟨n', -, -, he⟩ | he⟩ := advanceDelayed_cases dev ch n c'
  · rw [he]
    exact h
  · rw [he]
    exact h
  · rw [he, completeTransfer_mdec, completeTransfer_cdrom]
    exact h

theorem dmaAdvance_mdec {n : ℕ} (hn : n ≠ 0) {s : Controller ω} (hs : s.Sound) :
    (dmaAdvance dev n s).core.mdec =
      (advanceMdecChannel dev 1 n (advanceMdecChannel dev 0 n s.core)).mdec := by
  have hcore := (hs.core.advanceMdec dev 0 n).advanceMdec dev 1 n
  have hlist : Controller.Sound ⟨advanceMdecChannel dev 1 n (advanceMdecChannel dev 0 n s.core),
      s.list⟩ := ⟨hcore, hs.list⟩
  unfold dmaAdvance
  rw [if_neg hn]
  dsimp only
  rw [(advanceDelayed_words dev n _).1, advanceCdrom_mdec dev n (hlist.advanceList dev n).core,
    advanceList_mdec]

/-- Something due shows after the cycles that reach it. -/
theorem dmaAdvance_due {n : ℕ} (hn : n ≠ 0) {s : Controller ω} (hs : s.Sound)
    (h : ¬IdleFor dev n s) (hlist : listWalks s = true → n ≤ s.list.cyclesRemaining)
    (hcdrom : (∀ i, mdecIdle dev n s.core i) → dmaCdromTransferActive s.core = true →
      (dev.cdromReady s.core.world).2 = s.core.world) :
    observable (dmaAdvance dev n s) ≠ observable s := by
  intro he
  have hmdec : ∀ i, ((dmaAdvance dev n s).core.mdec i).shown = (s.core.mdec i).shown :=
    fun i => congrArg (fun t : Controller ω => t.core.mdec i) he
  rw [dmaAdvance_mdec dev hn hs] at hmdec
  -- channel 0 and then channel 1 of the MDEC
  have h0 : mdecIdle dev n s.core 0 := by
    by_contra hdue
    have hother := advanceMdec_other dev (show (0 : Fin 2) ≠ 1 by decide) n
      (hs.core.advanceMdec dev 0 n)
    have hshown := hmdec 0
    rw [hother] at hshown
    exact advanceMdec_due dev (hs.core.mdec 0) hdue hshown
  have h1 : mdecIdle dev n s.core 1 := by
    by_contra hdue
    have hsound := (hs.core.advanceMdec dev 0 n).mdec 1
    have hother := advanceMdec_other dev (show (1 : Fin 2) ≠ 0 by decide) n hs.core
    have hshown := hmdec 1
    rw [← hother] at hshown
    refine advanceMdec_due dev hsound ?_ hshown
    rw [advanceMdec_idle dev h0, mdecIdle_setMdec dev (by decide)]
    exact hdue
  have hidle : ∀ i, mdecIdle dev n s.core i := by
    intro i
    match i with
    | 0 => exact h0
    | 1 => exact h1
  have hadvance : dmaAdvance dev n s =
      let t := advanceList dev n { s with core := { s.core with mdec := mdecCounted dev n s.core } }
      { t with core := advanceDelayed dev n (advanceCdrom dev n t.core) } := by
    unfold dmaAdvance
    rw [if_neg hn, ← advanceMdec_both dev hidle]
  -- then the display list
  have hlistIdle : listIdle n s := by
    intro hw
    by_contra hdue
    have hshown : (dmaAdvance dev n s).list.shown = s.list.shown :=
      congrArg Controller.list he
    rw [hadvance] at hshown
    refine advanceList_due dev (s := { s with core := { s.core with
      mdec := mdecCounted dev n s.core } }) hs.list hw ?_ hshown
    exact Nat.le_antisymm (hlist hw) (Nat.le_of_not_lt hdue)
  have hquiet := advanceList_idle dev (s := { s with core := { s.core with
    mdec := mdecCounted dev n s.core } }) (n := n) hlistIdle
  rw [hquiet] at hadvance
  dsimp only at hadvance
  -- then the CD-ROM
  have hcdromIdle : cdromIdle dev s.core := by
    intro hact
    by_contra hdue
    have hready : dev.cdromReady s.core.world = (true, s.core.world) := by
      have hworld := hcdrom hidle hact
      cases hr : (dev.cdromReady s.core.world).1
      · exact absurd (Prod.ext hr hworld) hdue
      · exact Prod.ext hr hworld
    have hshown : (dmaAdvance dev n s).core.cdrom.shown = s.core.cdrom.shown :=
      congrArg (fun t : Controller ω => t.core.cdrom) he
    rw [hadvance] at hshown
    dsimp only at hshown
    rw [(advanceDelayed_words dev n _).2] at hshown
    exact advanceCdrom_due dev hn (c := { s.core with mdec := mdecCounted dev n s.core })
      hs.core.cdrom hact hready hshown
  have hstill := advanceCdrom_idle dev (n := n)
    (c := { s.core with mdec := mdecCounted dev n s.core }) hcdromIdle
  rw [hstill] at hadvance
  -- and last the delayed completions
  refine h ⟨hidle, hlistIdle, hcdromIdle, ?_⟩
  intro ch
  by_contra hdue
  have hshown : ((dmaAdvance dev n s).core.delayed ch).shown = (s.core.delayed ch).shown :=
    congrArg (fun t : Controller ω => t.core.delayed ch) he
  rw [hadvance] at hshown
  dsimp only at hshown
  rw [advanceDelayed_delayed] at hshown
  exact after_due hdue hshown

/-! ## Cutting an idle stretch -/

theorem pay_pay (a : Async) (m n : ℕ) : (a.pay m).pay n = a.pay (m + n) := by
  unfold Async.pay accumulate
  congr 1
  dsimp only
  omega

theorem mdecCounting_countdown (n : ℕ) (s : Controller ω) (i : Fin 2) :
    mdecCounting dev (countdown dev n s).core i = mdecCounting dev s.core i := by
  have hact := mdecCounted_active dev n s.core i
  unfold mdecCounting mdecRuns
  rw [show (countdown dev n s).core.mdec i = mdecCounted dev n s.core i from rfl, hact]
  rfl

theorem listWalks_countdown (n : ℕ) (s : Controller ω) :
    listWalks (countdown dev n s) = listWalks s := by
  have hact : (countdown dev n s).list.active = s.list.active := by
    unfold countdown
    dsimp only
    split <;> rfl
  unfold listWalks
  rw [hact]
  rfl

theorem counted_counted (d : Delayed) (m n : ℕ) :
    (d.counted m).counted n = d.counted (m + n) := by
  unfold Delayed.counted
  by_cases h : d.active = true
  · simp [h, Nat.sub_sub]
  · simp [h]

theorem countdown_countdown (m n : ℕ) (s : Controller ω) :
    countdown dev n (countdown dev m s) = countdown dev (m + n) s := by
  have hmdec : mdecCounted dev n (countdown dev m s).core = mdecCounted dev (m + n) s.core := by
    funext i
    unfold mdecCounted
    rw [mdecCounting_countdown]
    show (if _ then (mdecCounted dev m s.core i).pay n else mdecCounted dev m s.core i) = _
    unfold mdecCounted
    split
    · exact pay_pay _ m n
    · rfl
  have hdelayed : ∀ ch, ((countdown dev m s).core.delayed ch).counted n =
      (s.core.delayed ch).counted (m + n) := fun ch => counted_counted _ m n
  have hlist : (if listWalks (countdown dev m s) then spend (countdown dev m s).list n
      else (countdown dev m s).list) = if listWalks s then spend s.list (m + n) else s.list := by
    rw [listWalks_countdown]
    unfold countdown
    dsimp only
    split
    · exact spend_spend s.list m n
    · rfl
  show Controller.mk { (countdown dev m s).core with
    mdec := mdecCounted dev n (countdown dev m s).core
    delayed := fun ch => ((countdown dev m s).core.delayed ch).counted n } _ = _
  simp only [hmdec, hdelayed, hlist]
  rfl

/-- Part of an idle stretch is idle, and so is the rest of it afterwards. -/
theorem IdleFor.mono {m n : ℕ} {s : Controller ω} (h : IdleFor dev n s) (hm : m ≤ n) :
    IdleFor dev m s := by
  refine ⟨fun i => ⟨(h.mdec i).1, fun hc => ?_⟩, fun hw => ?_, h.cdrom, fun ch ha => ?_⟩
  · exact lt_of_le_of_lt (Nat.add_le_add_left hm _) ((h.mdec i).2 hc)
  · exact lt_of_le_of_lt hm (h.list hw)
  · exact lt_of_le_of_lt hm (h.delayed ch ha)

theorem IdleFor.rest {m n : ℕ} {s : Controller ω} (h : IdleFor dev (m + n) s) :
    IdleFor dev n (countdown dev m s) := by
  refine ⟨fun i => ⟨?_, fun hc => ?_⟩, fun hw => ?_, h.cdrom, fun ch ha => ?_⟩
  · have hact := mdecCounted_active dev m s.core i
    have hroute := (h.mdec i).1
    unfold mdecMisrouted mdecRuns at hroute ⊢
    rw [show (countdown dev m s).core.mdec i = mdecCounted dev m s.core i from rfl, hact]
    exact hroute
  · rw [mdecCounting_countdown] at hc
    have hlt := (h.mdec i).2 hc
    have hat : (countdown dev m s).core.mdec i = (s.core.mdec i).pay m := by
      show mdecCounted dev m s.core i = _
      unfold mdecCounted
      rw [if_pos hc]
    unfold mdecCost at hlt ⊢
    rw [hat]
    have hle : ((s.core.mdec i).pay m).cyclesAccum ≤ (s.core.mdec i).cyclesAccum + m :=
      min_le_left _ _
    have hjob : jobWords dev ((s.core.mdec i).pay m) = jobWords dev (s.core.mdec i) := rfl
    rw [hjob]
    omega
  · rw [listWalks_countdown] at hw
    have hlt := h.list hw
    show n < (if listWalks s then spend s.list m else s.list).cyclesRemaining
    rw [if_pos hw, spend_cycles]
    omega
  · have hact : (s.core.delayed ch).active = true := by
      have hsame : ((s.core.delayed ch).counted m).active = (s.core.delayed ch).active := by
        unfold Delayed.counted
        split <;> rfl
      exact hsame.symm.trans ha
    have hlt := h.delayed ch hact
    show n < ((s.core.delayed ch).counted m).cyclesRemaining
    rw [Delayed.counted, if_pos hact]
    dsimp only
    omega

theorem dmaAdvance_split {a b : ℕ} {s : Controller ω} (h : IdleFor dev (a + b) s) :
    dmaAdvance dev b (dmaAdvance dev a s) = dmaAdvance dev (a + b) s := by
  have hzero : ∀ t : Controller ω, dmaAdvance dev 0 t = t := fun _ => rfl
  by_cases ha : a = 0
  · rw [ha, hzero, Nat.zero_add]
  by_cases hb : b = 0
  · rw [hb, hzero, Nat.add_zero]
  rw [dmaAdvance_idle dev ha (h.mono dev (Nat.le_add_right a b)), dmaAdvance_idle dev hb h.rest,
    dmaAdvance_idle dev (by omega) h, countdown_countdown]

/-! ## The announced cycle -/

/-- Readiness does not change by itself: asking the CD-ROM again answers the same, and asking it
changes nothing for the MDEC. -/
structure Steady : Prop where
  cdrom : ∀ w, dev.cdromReady (dev.cdromReady w).2 = dev.cdromReady w
  mdec : ∀ i w, mdecReady dev i (dev.cdromReady w).2 = mdecReady dev i w

theorem earliest_fold (l : List (Option ℕ)) (best : ℕ) :
    l.foldl (fun best d => d.elim best (min best)) best ≤ best ∧
      ∀ x, some x ∈ l → l.foldl (fun best d => d.elim best (min best)) best ≤ x := by
  induction l generalizing best with
  | nil => exact ⟨Nat.le_refl best, by simp⟩
  | cons d l ih =>
    obtain ⟨hle, hall⟩ := ih (d.elim best (min best))
    have hd : d.elim best (min best) ≤ best := by
      cases d
      · exact Nat.le_refl best
      · exact min_le_left _ _
    rw [List.foldl_cons]
    refine ⟨hle.trans hd, ?_⟩
    intro x hx
    rcases List.mem_cons.1 hx with rfl | hx
    · exact hle.trans (min_le_right _ _)
    · exact hall x hx

theorem earliest_le {l : List (Option ℕ)} {x : ℕ} (h : some x ∈ l) : earliest l ≤ x :=
  (earliest_fold l uint32Limit).2 x h

theorem earliest_mem (l : List (Option ℕ)) : earliest l = uint32Limit ∨ some (earliest l) ∈ l := by
  have hfold : ∀ best, l.foldl (fun best d => d.elim best (min best)) best = best ∨
      some (l.foldl (fun best d => d.elim best (min best)) best) ∈ l := by
    induction l with
    | nil => exact fun best => Or.inl rfl
    | cons d l ih =>
      intro best
      rw [List.foldl_cons]
      rcases ih (d.elim best (min best)) with h | h
      · rw [h]
        cases d with
        | none => exact Or.inl rfl
        | some x =>
          show min best x = best ∨ some (min best x) ∈ _
          rcases min_choice best x with hm | hm
          · exact Or.inl hm
          · rw [hm]
            exact Or.inr List.mem_cons_self
      · exact Or.inr (List.mem_cons_of_mem _ h)
  exact hfold uint32Limit

/-- The transfer from the CD-ROM stands with its direction bit reversed. -/
def reversed (s : Controller ω) : Bool := cdromBusy s.core && s.core.fromRam 3

/-- The deadlines the query compares, with the answer `cdrom` of the CD-ROM. -/
def deadlines (s : Controller ω) (cdrom : Option ℕ) : List (Option ℕ) :=
  [mdecDeadline dev s.core 0, mdecDeadline dev s.core 1, cdrom, listDeadline s] ++
    (List.finRange 7).map (delayedDeadline s.core)

def asked (s : Controller ω) : Controller ω :=
  { s with core := { s.core with world := (dev.cdromReady s.core.world).2 } }

def cdromAnswer (s : Controller ω) : Option ℕ :=
  if (dev.cdromReady s.core.world).1 then some (cdromDeadline s.core) else none

theorem query_cases (s : Controller ω) :
    ((mdecRefused s.core 0 || mdecRefused s.core 1) = true ∧
        dmaCyclesToInternalEvent dev s = (1, s)) ∨
      ((mdecRefused s.core 0 || mdecRefused s.core 1) = false ∧ reversed s = true ∧
        dmaCyclesToInternalEvent dev s = (1, s)) ∨
      ((mdecRefused s.core 0 || mdecRefused s.core 1) = false ∧ reversed s = false ∧
        ((cdromBusy s.core = true ∧ dmaCyclesToInternalEvent dev s =
            (earliest (deadlines dev s (cdromAnswer dev s)), asked dev s)) ∨
          (cdromBusy s.core = false ∧
            dmaCyclesToInternalEvent dev s = (earliest (deadlines dev s none), s)))) := by
  unfold dmaCyclesToInternalEvent
  dsimp only
  by_cases hrefused : (mdecRefused s.core 0 || mdecRefused s.core 1) = true
  · exact Or.inl ⟨hrefused, if_pos hrefused⟩
  rw [if_neg hrefused]
  rw [Bool.not_eq_true] at hrefused
  by_cases hreversed : reversed s = true
  · exact Or.inr (Or.inl ⟨hrefused, hreversed, if_pos hreversed⟩)
  rw [if_neg (show ¬(cdromBusy s.core && s.core.fromRam 3) = true from hreversed)]
  rw [Bool.not_eq_true] at hreversed
  by_cases hbusy : cdromBusy s.core = true
  · exact Or.inr (Or.inr ⟨hrefused, hreversed, Or.inl ⟨hbusy, if_pos hbusy⟩⟩)
  · rw [if_neg hbusy]
    rw [Bool.not_eq_true] at hbusy
    exact Or.inr (Or.inr ⟨hrefused, hreversed, Or.inr ⟨hbusy, rfl⟩⟩)

/-- A transfer that is active is one the query asks the CD-ROM about. -/
theorem cdromBusy_of_active {c : Core ω} (hs : c.cdrom.Sound)
    (h : dmaCdromTransferActive c = true) : cdromBusy c = true ∧ c.fromRam 3 = false := by
  unfold dmaCdromTransferActive at h
  simp only [Bool.and_eq_true, Bool.not_eq_true'] at h
  obtain ⟨⟨⟨hact, hbusy⟩, hen⟩, hdir⟩ := h
  have hrem := hs.remaining hact
  refine ⟨?_, hdir⟩
  simp [cdromBusy, hact, hbusy, hen, hrem.ne']

theorem mdecRefused_iff {c : Core ω} {i : Fin 2} (hs : (c.mdec i).Sound) :
    mdecRefused c i = mdecMisrouted c i := by
  unfold mdecRefused mdecMisrouted mdecRuns
  cases hact : (c.mdec i).active
  · simp
  · simp [(hs.remaining hact).ne']

theorem not_misrouted {s : Controller ω} (hs : s.Sound)
    (h : (mdecRefused s.core 0 || mdecRefused s.core 1) = false) (i : Fin 2) :
    mdecMisrouted s.core i = false := by
  rw [Bool.or_eq_false_iff] at h
  match i with
  | 0 => exact (mdecRefused_iff (hs.core.mdec 0)).symm.trans h.1
  | 1 => exact (mdecRefused_iff (hs.core.mdec 1)).symm.trans h.2

theorem mdecDeadline_counting {c : Core ω} {i : Fin 2} (hs : (c.mdec i).Sound)
    (h : mdecCounting dev c i = true) :
    mdecDeadline dev c i = some (if (c.mdec i).cyclesAccum < mdecCost dev c i
      then mdecCost dev c i - (c.mdec i).cyclesAccum else 1) := by
  unfold mdecCounting mdecRuns at h
  simp only [Bool.and_eq_true, Bool.not_eq_true'] at h
  obtain ⟨⟨⟨⟨hact, hbusy⟩, hen⟩, -⟩, hready⟩ := h
  unfold mdecDeadline
  dsimp only
  rw [if_neg (by simp [hact, hbusy, hen, (hs.remaining hact).ne']), if_neg (by simp [hready])]
  rfl

theorem mdecDeadline_some {c : Core ω} {i : Fin 2} {d : ℕ} (hm : mdecMisrouted c i = false)
    (h : mdecDeadline dev c i = some d) : mdecCounting dev c i = true := by
  have hopen : ¬((c.mdec i).active = false ∨ (c.mdec i).remainingWords = 0 ∨
      c.busy (mdecChannel i) = false ∨ c.channelEnabled (mdecChannel i) = false) ∧
      ¬mdecReady dev i c.world = false := by
    unfold mdecDeadline at h
    dsimp only at h
    split at h
    · cases h
    · split at h
      · cases h
      · exact ⟨‹_›, ‹_›⟩
  simp only [not_or, Bool.not_eq_false] at hopen
  obtain ⟨hoff, hready⟩ := hopen
  obtain ⟨hact, -, hbusy, hen⟩ := hoff
  have hruns : mdecRuns c i = true := by simp [mdecRuns, hact, hbusy, hen]
  have hvalid : mdecRouteInvalid c i = false := by simpa [mdecMisrouted, hruns] using hm
  simp [mdecCounting, hruns, hvalid, hready]

theorem mdecDeadline_lt {c : Core ω} {i : Fin 2} {d : ℕ}
    (h : mdecDeadline dev c i = some d) : d < uint32Limit := by
  have hcost := mdecCost_lt dev c i
  unfold mdecDeadline at h
  dsimp only at h
  split_ifs at h with hoff hready hacc
  · cases h
    exact lt_of_le_of_lt (Nat.sub_le _ _) hcost
  · cases h
    decide

/-- All deadlines of `s` lie beyond `n` cycles. -/
def AllBeyond (n : ℕ) (s : Controller ω) (cdrom : Option ℕ) : Prop :=
  ∀ d, some d ∈ deadlines dev s cdrom → n < d

theorem AllBeyond.mdec {n : ℕ} {s : Controller ω} {o : Option ℕ} (h : AllBeyond dev n s o)
    (hn : n ≠ 0) (hs : s.Sound) (hm : ∀ i, mdecMisrouted s.core i = false) (i : Fin 2) :
    mdecIdle dev n s.core i := by
  refine ⟨hm i, fun hc => ?_⟩
  have hd := mdecDeadline_counting dev (hs.core.mdec i) hc
  have hmem : mdecDeadline dev s.core i ∈ deadlines dev s o := by
    match i with
    | 0 => simp [deadlines]
    | 1 => simp [deadlines]
  rw [hd] at hmem
  have hlt := h _ hmem
  split at hlt
  · omega
  · omega

theorem AllBeyond.list {n : ℕ} {s : Controller ω} {o : Option ℕ} (h : AllBeyond dev n s o)
    (hs : s.Sound) : listIdle n s := by
  intro hw
  have hact := listWalks_active hw
  have hmem : listDeadline s ∈ deadlines dev s o := by simp [deadlines]
  rw [listDeadline, if_pos hw, dmaGpuLlCyclesToEvent, if_pos hact,
    if_pos (hs.list hact).1.1] at hmem
  exact h _ hmem

theorem AllBeyond.delayed {n : ℕ} {s : Controller ω} {o : Option ℕ} (h : AllBeyond dev n s o)
    (ch : Fin 7) : delayedIdle n s.core ch := by
  intro ha
  have hmem : delayedDeadline s.core ch ∈ deadlines dev s o := by
    unfold deadlines
    exact List.mem_append_right _ (List.mem_map_of_mem (List.mem_finRange ch))
  rw [delayedDeadline, if_pos ha] at hmem
  exact h _ hmem

/-- The question to the CD-ROM moves nothing of the other channels. -/
theorem mdecIdle_asked (hsteady : Steady dev) {n : ℕ} {s : Controller ω} {i : Fin 2} :
    mdecIdle dev n (asked dev s).core i ↔ mdecIdle dev n s.core i := by
  unfold mdecIdle mdecCounting mdecMisrouted mdecRuns
  rw [show mdecReady dev i (asked dev s).core.world = mdecReady dev i s.core.world from
    hsteady.mdec i s.core.world]
  rfl

/-- A stretch below every deadline is idle where the query leaves the controller. -/
theorem idle_of_beyond (hsteady : Steady dev) {n : ℕ} (hn : n ≠ 0) {s : Controller ω}
    (hs : s.Sound) (hrefused : (mdecRefused s.core 0 || mdecRefused s.core 1) = false) :
    (cdromBusy s.core = true → AllBeyond dev n s (cdromAnswer dev s) →
        (dev.cdromReady s.core.world).1 = false → IdleFor dev n (asked dev s)) ∧
      (cdromBusy s.core = false → AllBeyond dev n s none → IdleFor dev n s) := by
  have hm := not_misrouted hs hrefused
  refine ⟨fun _ h hready => ?_, fun hbusy h => ?_⟩
  · refine ⟨fun i => (mdecIdle_asked dev hsteady).2 (h.mdec dev hn hs hm i), h.list dev hs,
      fun _ => ?_, h.delayed dev⟩
    show dev.cdromReady (dev.cdromReady s.core.world).2 = (false, (dev.cdromReady s.core.world).2)
    rw [hsteady.cdrom]
    exact Prod.ext hready rfl
  · refine ⟨h.mdec dev hn hs hm, h.list dev hs, fun hact => ?_, h.delayed dev⟩
    have hcontra := (cdromBusy_of_active hs.core.cdrom hact).1
    rw [hbusy] at hcontra
    cases hcontra

/-- Before the announced cycle the controller is idle. -/
theorem idle_before (hsteady : Steady dev) {s : Controller ω} (hs : s.Sound) {n : ℕ} (hn : n ≠ 0)
    (h : n < (dmaCyclesToInternalEvent dev s).1) :
    IdleFor dev n (dmaCyclesToInternalEvent dev s).2 := by
  rcases query_cases dev s with ⟨-, he⟩ | ⟨-, -, he⟩ | ⟨hr, -, ⟨hb, he⟩ | ⟨hb, he⟩⟩
  · rw [he] at h
    dsimp only at h
    omega
  · rw [he] at h
    dsimp only at h
    omega
  · rw [he] at h ⊢
    have hbeyond : AllBeyond dev n s (cdromAnswer dev s) :=
      fun d hd => lt_of_lt_of_le h (earliest_le hd)
    refine (idle_of_beyond dev hsteady hn hs hr).1 hb hbeyond ?_
    -- a ready CD-ROM announces the next cycle
    by_contra hready
    rw [Bool.not_eq_false] at hready
    have hmem : some (cdromDeadline s.core) ∈ deadlines dev s (cdromAnswer dev s) := by
      rw [cdromAnswer, if_pos hready]
      simp [deadlines]
    have hlt := hbeyond _ hmem
    unfold cdromDeadline cdromCyclesPerWord at hlt
    split at hlt <;> omega
  · rw [he] at h ⊢
    exact (idle_of_beyond dev hsteady hn hs hr).2 hb
      fun d hd => lt_of_lt_of_le h (earliest_le hd)

/-- With no cycle announced the controller is idle for ever. -/
theorem idle_never (hsteady : Steady dev) {s : Controller ω} (hs : s.Sound)
    (h : (dmaCyclesToInternalEvent dev s).1 = uint32Limit) {n : ℕ} (hn : n ≠ 0) :
    IdleFor dev n (dmaCyclesToInternalEvent dev s).2 := by
  have hfar : ∀ o, earliest (deadlines dev s o) = uint32Limit →
      (∀ d, o = some d → d < uint32Limit) → AllBeyond dev n s o := by
    intro o he ho d hd
    have hle := earliest_le hd
    rw [he] at hle
    have hlt : d < uint32Limit := by
      unfold deadlines at hd
      rcases List.mem_append.1 hd with hd | hd
      · simp only [List.mem_cons, List.not_mem_nil, or_false] at hd
        rcases hd with hd | hd | hd | hd
        · exact mdecDeadline_lt dev hd.symm
        · exact mdecDeadline_lt dev hd.symm
        · exact ho d hd.symm
        · unfold listDeadline at hd
          split at hd
          case isTrue hw =>
            have hact := listWalks_active hw
            obtain ⟨hwait, hone⟩ := hs.list hact
            rw [dmaGpuLlCyclesToEvent, if_pos hact, if_pos hwait.1, hone] at hd
            cases hd
            decide
          case isFalse => cases hd
      · obtain ⟨ch, -, hch⟩ := List.mem_map.1 hd
        unfold delayedDeadline at hch
        split at hch
        case isTrue hact =>
          cases hch
          exact ((hs.core.delayed ch).cycles hact).2
        case isFalse => cases hch
    omega
  rcases query_cases dev s with ⟨-, he⟩ | ⟨-, -, he⟩ | ⟨hr, -, ⟨hb, he⟩ | ⟨hb, he⟩⟩
  · rw [he] at h
    exact absurd h (show ¬(1 = uint32Limit) by decide)
  · rw [he] at h
    exact absurd h (show ¬(1 = uint32Limit) by decide)
  · rw [he] at h ⊢
    have hcdrom : cdromDeadline s.core < uint32Limit := by
      unfold cdromDeadline cdromCyclesPerWord uint32Limit
      split <;> omega
    have hready : (dev.cdromReady s.core.world).1 = false := by
      by_contra hready
      rw [Bool.not_eq_false] at hready
      have hmem : some (cdromDeadline s.core) ∈ deadlines dev s (cdromAnswer dev s) := by
        rw [cdromAnswer, if_pos hready]
        simp [deadlines]
      have hle := earliest_le hmem
      dsimp only at h
      omega
    have hbeyond := hfar _ h (by simp [cdromAnswer, hready])
    exact (idle_of_beyond dev hsteady hn hs hr).1 hb hbeyond hready
  · rw [he] at h ⊢
    exact (idle_of_beyond dev hsteady hn hs hr).2 hb (hfar none h (by simp))

/-- At the announced cycle something is due. -/
theorem due_at (hsteady : Steady dev) {s : Controller ω} (hs : s.Sound)
    (hreversed : reversed s = true → ¬IdleFor dev 1 s)
    (h : (dmaCyclesToInternalEvent dev s).1 ≠ uint32Limit) :
    (dmaCyclesToInternalEvent dev s).1 ≠ 0 ∧
      ¬IdleFor dev (dmaCyclesToInternalEvent dev s).1 (dmaCyclesToInternalEvent dev s).2 := by
  have hm := fun hr => not_misrouted (s := s) hs hr
  -- an entry of the list is due in the state `t` the query leaves
  have hentry : ∀ (o : Option ℕ) (t : Controller ω), (∀ i, mdecMisrouted s.core i = false) →
      (∀ i n, mdecIdle dev n t.core i ↔ mdecIdle dev n s.core i) →
      (∀ n, listIdle n t ↔ listIdle n s) → (∀ n ch, delayedIdle n t.core ch ↔
        delayedIdle n s.core ch) → (∀ d, o = some d → d ≠ 0 ∧ ¬cdromIdle dev t.core) →
      ∀ d, some d ∈ deadlines dev s o → d ≠ 0 ∧ ¬IdleFor dev d t := by
    intro o t hroute hmdec hlist hdelayed ho d hd
    unfold deadlines at hd
    rcases List.mem_append.1 hd with hd | hd
    · have hcount : ∀ i, mdecDeadline dev s.core i = some d → d ≠ 0 ∧ ¬IdleFor dev d t := by
        intro i hi
        have hc := mdecDeadline_some dev (hroute i) hi
        rw [mdecDeadline_counting dev (hs.core.mdec i) hc] at hi
        have hval := Option.some.inj hi
        refine ⟨by split at hval <;> omega, fun hidle => ?_⟩
        have hlt := ((hmdec i d).1 (hidle.mdec i)).2 hc
        split at hval <;> omega
      simp only [List.mem_cons, List.not_mem_nil, or_false] at hd
      rcases hd with hd | hd | hd | hd
      · exact hcount 0 hd.symm
      · exact hcount 1 hd.symm
      · exact ⟨(ho d hd.symm).1, fun hidle => (ho d hd.symm).2 hidle.cdrom⟩
      · unfold listDeadline at hd
        split at hd
        case isTrue hw =>
          have hact := listWalks_active hw
          obtain ⟨hwait, hone⟩ := hs.list hact
          rw [dmaGpuLlCyclesToEvent, if_pos hact, if_pos hwait.1, hone] at hd
          cases hd
          refine ⟨Nat.one_ne_zero, fun hidle => ?_⟩
          have hlt := (hlist 1).1 hidle.list hw
          omega
        case isFalse => cases hd
    · obtain ⟨ch, -, hch⟩ := List.mem_map.1 hd
      unfold delayedDeadline at hch
      split at hch
      case isTrue hact =>
        cases hch
        refine ⟨((hs.core.delayed ch).cycles hact).1.ne', fun hidle => ?_⟩
        exact lt_irrefl _ ((hdelayed _ ch).1 (hidle.delayed ch) hact)
      case isFalse => cases hch
  rcases query_cases dev s with ⟨hr, he⟩ | ⟨hr, hrev, he⟩ | ⟨hr, hrev, ⟨hb, he⟩ | ⟨hb, he⟩⟩
  · rw [he]
    refine ⟨Nat.one_ne_zero, fun hidle => ?_⟩
    rw [mdecRefused_iff (hs.core.mdec 0), mdecRefused_iff (hs.core.mdec 1), (hidle.mdec 0).1,
      (hidle.mdec 1).1] at hr
    cases hr
  · rw [he]
    exact ⟨Nat.one_ne_zero, hreversed hrev⟩
  · rw [he] at h ⊢
    rcases earliest_mem (deadlines dev s (cdromAnswer dev s)) with hlim | hmem
    · exact absurd hlim h
    · refine hentry _ _ (hm hr) (fun i n => mdecIdle_asked dev hsteady) (fun n => Iff.rfl)
        (fun n ch => Iff.rfl) ?_ _ hmem
      intro d hd
      unfold cdromAnswer at hd
      split at hd
      case isFalse => cases hd
      case isTrue hready =>
        cases hd
        refine ⟨by unfold cdromDeadline cdromCyclesPerWord; split <;> omega, fun hidle => ?_⟩
        have hactive : dmaCdromTransferActive s.core = true := by
          have hdir : s.core.fromRam 3 = false := by simpa [reversed, hb] using hrev
          unfold cdromBusy at hb
          simp only [Bool.and_eq_true] at hb
          simp [dmaCdromTransferActive, hb.1.1.1, hb.1.2, hb.2, hdir]
        have hno := congrArg Prod.fst (hidle hactive)
        rw [show (asked dev s).core.world = (dev.cdromReady s.core.world).2 from rfl,
          hsteady.cdrom, hready] at hno
        cases hno
  · rw [he] at h ⊢
    rcases earliest_mem (deadlines dev s none) with hlim | hmem
    · exact absurd hlim h
    · exact hentry none s (hm hr) (fun _ _ => Iff.rfl) (fun _ => Iff.rfl) (fun _ _ => Iff.rfl)
        (by simp) _ hmem

/-- The announced cycle does not pass the next event of the display list. -/
theorem deadline_le_list {s : Controller ω} (hs : s.Sound)
    (hw : listWalks (dmaCyclesToInternalEvent dev s).2 = true) :
    (dmaCyclesToInternalEvent dev s).1 ≤ (dmaCyclesToInternalEvent dev s).2.list.cyclesRemaining := by
  have hone : listWalks s = true → s.list.cyclesRemaining = 1 := fun hw => (hs.list (listWalks_active hw)).2
  have hle : ∀ o, listWalks s = true →
      earliest (deadlines dev s o) ≤ s.list.cyclesRemaining := by
    intro o hw
    have hact := listWalks_active hw
    refine earliest_le ?_
    have hmem : listDeadline s ∈ deadlines dev s o := by simp [deadlines]
    rw [listDeadline, if_pos hw, dmaGpuLlCyclesToEvent, if_pos hact,
      if_pos (hs.list hact).1.1] at hmem
    exact hmem
  rcases query_cases dev s with ⟨-, he⟩ | ⟨-, -, he⟩ | ⟨-, -, ⟨-, he⟩ | ⟨-, he⟩⟩
  · rw [he] at hw ⊢
    exact (hone hw).ge
  · rw [he] at hw ⊢
    exact (hone hw).ge
  · rw [he] at hw ⊢
    exact hle _ hw
  · rw [he] at hw ⊢
    exact hle _ hw

theorem query_sound {s : Controller ω} (hs : s.Sound) :
    (dmaCyclesToInternalEvent dev s).2.Sound := by
  rcases query_cases dev s with ⟨-, he⟩ | ⟨-, -, he⟩ | ⟨-, -, ⟨-, he⟩ | ⟨-, he⟩⟩
  · rw [he]
    exact hs
  · rw [he]
    exact hs
  · rw [he]
    exact ⟨hs.core.same (.world _ _), hs.list⟩
  · rw [he]
    exact hs

/-- What the query promises of the state it leaves. -/
structure DeadlineExact (s : Controller ω) : Prop where
  quiet : ∀ n < (dmaCyclesToInternalEvent dev s).1,
    observable (dmaAdvance dev n (dmaCyclesToInternalEvent dev s).2) =
      observable (dmaCyclesToInternalEvent dev s).2
  split : ∀ a b, a + b < (dmaCyclesToInternalEvent dev s).1 →
    dmaAdvance dev b (dmaAdvance dev a (dmaCyclesToInternalEvent dev s).2) =
      dmaAdvance dev (a + b) (dmaCyclesToInternalEvent dev s).2
  never : (dmaCyclesToInternalEvent dev s).1 = uint32Limit → ∀ n,
    observable (dmaAdvance dev n (dmaCyclesToInternalEvent dev s).2) =
      observable (dmaCyclesToInternalEvent dev s).2
  due : (dmaCyclesToInternalEvent dev s).1 ≠ uint32Limit →
    observable (dmaAdvance dev (dmaCyclesToInternalEvent dev s).1
      (dmaCyclesToInternalEvent dev s).2) ≠ observable (dmaCyclesToInternalEvent dev s).2

theorem observable_idle {n : ℕ} {s : Controller ω} (h : n ≠ 0 → IdleFor dev n s) :
    observable (dmaAdvance dev n s) = observable s := by
  by_cases hn : n = 0
  · rw [hn]
    rfl
  · rw [dmaAdvance_idle dev hn (h hn), observable_countdown]

/-- The query announces the next cycle for a reversed transfer, and nothing comes of it. -/
theorem reversed_repeats {s : Controller ω} (hs : s.Sound) (hrev : reversed s = true)
    (hidle : IdleFor dev 1 s) : ¬DeadlineExact dev s := by
  intro h
  have hquery : dmaCyclesToInternalEvent dev s = (1, s) := by
    rcases query_cases dev s with ⟨hr, -⟩ | ⟨-, -, he⟩ | ⟨-, hno, -⟩
    · rw [mdecRefused_iff (hs.core.mdec 0), mdecRefused_iff (hs.core.mdec 1), (hidle.mdec 0).1,
        (hidle.mdec 1).1] at hr
      cases hr
    · exact he
    · rw [hrev] at hno
      cases hno
  have hdue := h.due
  rw [hquery] at hdue
  exact hdue (show 1 ≠ uint32Limit by decide) (observable_idle dev fun _ => hidle)

/-- In every run the announced cycle is exact in every state reached, but for one in which the
direction bit of an active CD-ROM transfer is reversed and no other channel has anything due at
the next cycle. -/
theorem deadline_exact_iff (hsteady : Steady dev) {ok : Controller ω → Access ω → Prop}
    {s : Controller ω} (h : Reaches dev ok s) :
    DeadlineExact dev s ↔ ¬(reversed s = true ∧ IdleFor dev 1 s) := by
  have hs := h.sound
  refine ⟨fun hex hbad => reversed_repeats dev hs hbad.1 hbad.2 hex, fun hgood => ?_⟩
  have hrev : reversed s = true → ¬IdleFor dev 1 s := fun hr hi => hgood ⟨hr, hi⟩
  refine ⟨fun n hn => ?_, fun a b hab => ?_, fun hnever n => ?_, fun hne => ?_⟩
  · exact observable_idle dev fun hz => idle_before dev hsteady hs hz hn
  · by_cases hz : a + b = 0
    · rw [Nat.add_eq_zero_iff.1 hz |>.1, Nat.add_eq_zero_iff.1 hz |>.2]
      rfl
    · exact dmaAdvance_split dev (idle_before dev hsteady hs hz hab)
  · exact observable_idle dev fun hz => idle_never dev hsteady hs hnever hz
  · obtain ⟨hpos, hdue⟩ := due_at dev hsteady hs hrev hne
    refine dmaAdvance_due dev hpos (query_sound dev hs) hdue (deadline_le_list dev hs) ?_
    intro hidle hact
    rcases query_cases dev s with ⟨hr, he⟩ | ⟨-, hrev', he⟩ | ⟨-, -, ⟨-, he⟩ | ⟨hb, he⟩⟩
    · rw [he] at hidle
      rw [mdecRefused_iff (hs.core.mdec 0), mdecRefused_iff (hs.core.mdec 1), (hidle 0).1,
        (hidle 1).1] at hr
      cases hr
    · rw [he] at hact
      have hdir := (cdromBusy_of_active hs.core.cdrom hact).2
      simp [reversed, hdir] at hrev'
    · rw [he]
      exact congrArg Prod.snd (hsteady.cdrom s.core.world)
    · rw [he] at hact
      rw [(cdromBusy_of_active hs.core.cdrom hact).1] at hb
      cases hb

theorem silentDevices_steady : Steady silentDevices := ⟨fun _ => rfl, fun _ _ => rfl⟩

theorem deadline_exact_spu : ∃ s : Controller Unit, reversed s = false ∧
    (dmaCyclesToInternalEvent silentDevices s).1 = 96 ∧ DeadlineExact silentDevices s := by
  have h0 : Reaches silentDevices (fun _ _ => True) (dmaInit ()) := .init ()
  -- a transfer of two words to the SPU
  have h1 := h0.next silentDevices (.write 0x1F8010F0 0x000F0000 0xFFFFFFFF []) trivial (by decide)
  have h2 := h1.next silentDevices (.write 0x1F8010C4 2 0xFFFFFFFF []) trivial (by decide)
  have h3 := h2.next silentDevices (.write 0x1F8010C8 0x01000201 0xFFFFFFFF []) trivial (by decide)
  refine ⟨_, by decide, by decide, (deadline_exact_iff silentDevices silentDevices_steady h3).2 ?_⟩
  exact fun hbad => absurd hbad.1 (by decide)

/-- A write to the low byte of CHCR reverses a CD-ROM transfer under way: from then on the next
cycle is announced for ever. -/
theorem reversed_cdrom_repeats : ¬∀ s : Controller Unit,
    Reaches silentDevices (fun _ _ => True) s → DeadlineExact silentDevices s := by
  intro h
  have h0 : Reaches silentDevices (fun _ _ => True) (dmaInit ()) := .init ()
  have h1 := h0.next silentDevices (.write 0x1F8010F0 0x00008000 0xFFFFFFFF []) trivial (by decide)
  have h2 := h1.next silentDevices (.write 0x1F8010B8 0x01000000 0xFFFFFFFF []) trivial (by decide)
  have h3 := h2.next silentDevices (.write 0x1F8010B8 0x00000001 0x000000FF []) trivial (by decide)
  refine reversed_repeats silentDevices h3.sound (by decide) ?_ (h _ h3)
  refine ⟨fun i => ?_, fun hw => absurd hw (by decide), fun hact => absurd hact (by decide),
    fun ch => ?_⟩
  · match i with
    | 0 => exact ⟨by decide, fun hc => absurd hc (by decide)⟩
    | 1 => exact ⟨by decide, fun hc => absurd hc (by decide)⟩
  · revert ch
    unfold delayedIdle
    decide

end PsxRecomp.Dma
