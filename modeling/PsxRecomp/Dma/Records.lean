import Mathlib
import PsxRecomp.Dma.Controller

/-! What an operation of the controller does to the records of the transfers: which channel is
busy, which record is active, and how much work an active record still has. -/
namespace PsxRecomp.Dma
open Transducer
set_option autoImplicit false

variable {ω : Type*} (dev : Devices ω)

/-! ## The status of a channel -/

structure Status where
  busy : Bool
  async : Bool
  delayed : Bool
deriving DecidableEq

/-- The record driven word by word; `walking` tells whether the display list is active. -/
def Core.asyncActive (c : Core ω) (walking : Bool) : Fin 7 → Bool
  | 0 => (c.mdec 0).active
  | 1 => (c.mdec 1).active
  | 2 => walking
  | 3 => c.cdrom.active
  | _ => false

def Core.status (c : Core ω) (walking : Bool) (ch : Fin 7) : Status :=
  { busy := c.busy ch, async := c.asyncActive walking ch, delayed := (c.delayed ch).active }

def status (s : Controller ω) (ch : Fin 7) : Status := s.core.status s.list.active ch

theorem status_congr {c c' : Core ω} (hb : c'.busy = c.busy) (hm : c'.mdec = c.mdec)
    (hc : c'.cdrom = c.cdrom) (hd : c'.delayed = c.delayed) : c'.status = c.status := by
  funext w ch
  unfold Core.status Core.asyncActive
  rw [hb, hm, hc, hd]

@[simp] theorem idleChcr_busy (v : BitVec 32) : (idleChcr v).getLsbD 24 = false := by
  simp [idleChcr]

theorem busy_setChannel (c : Core ω) (ch j : Fin 7) (f : Channel → Channel) :
    (c.setChannel ch f).busy j =
      if j = ch then (f (c.channels ch)).chcr.getLsbD 24 else c.busy j := by
  unfold Core.busy Core.setChannel
  by_cases h : j = ch
  · subst h
    simp
  · simp [h]

theorem busy_setChannel_same (c : Core ω) (ch : Fin 7) (f : Channel → Channel)
    (h : ∀ r, (f r).chcr.getLsbD 24 = r.chcr.getLsbD 24) : (c.setChannel ch f).busy = c.busy := by
  funext j
  rw [busy_setChannel]
  split
  case isTrue hj => rw [h, hj, Core.busy]
  case isFalse => rfl

theorem status_setChannel (c : Core ω) (ch : Fin 7) (f : Channel → Channel)
    (h : ∀ r, (f r).chcr.getLsbD 24 = r.chcr.getLsbD 24) :
    (c.setChannel ch f).status = c.status :=
  status_congr (busy_setChannel_same c ch f h) rfl rfl rfl

/-! ## Completing and cancelling -/

theorem raise_eq (before : BitVec 32) (c : Core ω) :
    ∃ world, raiseDmaIrqOnMasterEdge dev before c = { c with world := world } := by
  unfold raiseDmaIrqOnMasterEdge
  split
  · exact ⟨_, rfl⟩
  · exact ⟨c.world, rfl⟩

theorem completeTransfer_eq (ch : Fin 7) (c : Core ω) :
    ∃ dicr world, completeTransfer dev ch c =
      { c.clearBusy ch with dicr := dicr, world := world } := by
  unfold completeTransfer latchFlag
  dsimp only
  split
  · obtain ⟨world, h⟩ := raise_eq dev (c.clearBusy ch).dicr
      { c.clearBusy ch with
        dicr := (c.clearBusy ch).dicr ||| BitVec.twoPow 32 (24 + ch.val) }
    rw [h]
    exact ⟨_, _, rfl⟩
  · exact ⟨_, _, rfl⟩

@[simp] theorem completeTransfer_dpcr (ch : Fin 7) (c : Core ω) :
    (completeTransfer dev ch c).dpcr = c.dpcr := by
  obtain ⟨dicr, world, h⟩ := completeTransfer_eq dev ch c
  rw [h]
  rfl

@[simp] theorem completeTransfer_mdec (ch : Fin 7) (c : Core ω) :
    (completeTransfer dev ch c).mdec = c.mdec := by
  obtain ⟨dicr, world, h⟩ := completeTransfer_eq dev ch c
  rw [h]
  rfl

@[simp] theorem completeTransfer_cdrom (ch : Fin 7) (c : Core ω) :
    (completeTransfer dev ch c).cdrom = c.cdrom := by
  obtain ⟨dicr, world, h⟩ := completeTransfer_eq dev ch c
  rw [h]
  rfl

@[simp] theorem completeTransfer_delayed (ch : Fin 7) (c : Core ω) :
    (completeTransfer dev ch c).delayed = c.delayed := by
  obtain ⟨dicr, world, h⟩ := completeTransfer_eq dev ch c
  rw [h]
  rfl

theorem status_clearBusy (w : Bool) (ch j : Fin 7) (c : Core ω) :
    (c.clearBusy ch).status w j =
      if j = ch then { c.status w j with busy := false } else c.status w j := by
  unfold Core.status
  rw [Core.clearBusy, busy_setChannel, idleChcr_busy]
  split <;> rfl

theorem status_completeTransfer (w : Bool) (ch j : Fin 7) (c : Core ω) :
    (completeTransfer dev ch c).status w j =
      if j = ch then { c.status w j with busy := false } else c.status w j := by
  obtain ⟨dicr, world, h⟩ := completeTransfer_eq dev ch c
  rw [h, ← status_clearBusy]
  rfl

@[simp] theorem cancelAsync_dpcr (ch : Fin 7) (c : Core ω) : (c.cancelAsync ch).dpcr = c.dpcr := by
  unfold Core.cancelAsync
  split_ifs <;> rfl

@[simp] theorem cancelAsync_channels (ch : Fin 7) (c : Core ω) :
    (c.cancelAsync ch).channels = c.channels := by
  unfold Core.cancelAsync
  split_ifs <;> rfl

@[simp] theorem cancelAsync_delayed (ch : Fin 7) (c : Core ω) :
    (c.cancelAsync ch).delayed = Function.update c.delayed ch .idle := by
  unfold Core.cancelAsync
  split_ifs <;> rfl

theorem cancelAsync_mdec (ch : Fin 7) (i : Fin 2) (c : Core ω) :
    (c.cancelAsync ch).mdec i = if mdecChannel i = ch then .idle else c.mdec i := by
  unfold Core.cancelAsync
  fin_cases ch <;> fin_cases i <;> rfl

theorem cancelAsync_cdrom (ch : Fin 7) (c : Core ω) :
    (c.cancelAsync ch).cdrom = if ch = 3 then .idle else c.cdrom := by
  unfold Core.cancelAsync
  fin_cases ch <;> rfl

@[simp] theorem mdecChannel_zero : mdecChannel 0 = 0 := rfl

@[simp] theorem mdecChannel_one : mdecChannel 1 = 1 := rfl

theorem cancelAsync_async (w : Bool) (ch j : Fin 7) (c : Core ω) :
    (c.cancelAsync ch).asyncActive w j =
      if j = ch then (ch = 2 : Bool) && w else c.asyncActive w j := by
  by_cases h : j = ch
  · subst h
    match j with
    | 0 | 1 | 2 | 3 | 4 | 5 | 6 =>
      simp [Core.asyncActive, cancelAsync_mdec, cancelAsync_cdrom, Async.idle]
  · rw [if_neg h]
    match j, h with
    | 0, h =>
      show ((c.cancelAsync ch).mdec 0).active = _
      rw [cancelAsync_mdec, mdecChannel_zero, if_neg h]
      rfl
    | 1, h =>
      show ((c.cancelAsync ch).mdec 1).active = _
      rw [cancelAsync_mdec, mdecChannel_one, if_neg h]
      rfl
    | 3, h =>
      show (c.cancelAsync ch).cdrom.active = _
      rw [cancelAsync_cdrom, if_neg (Ne.symm h)]
      rfl
    | 2, _ | 4, _ | 5, _ | 6, _ => rfl

theorem status_cancelAsync (w : Bool) (ch j : Fin 7) (c : Core ω) :
    (c.cancelAsync ch).status w j =
      if j = ch then { busy := c.busy j, async := (ch = 2 : Bool) && w, delayed := false }
      else c.status w j := by
  unfold Core.status Core.busy
  rw [cancelAsync_channels, cancelAsync_delayed, cancelAsync_async]
  by_cases h : j = ch
  · subst h
    simp [Delayed.idle]
  · simp [h]

/-- A transfer of the MDEC or of the CD-ROM that ends leaves its channel with nothing. -/
theorem status_finish (w : Bool) (ch j : Fin 7) (hch : ch ≠ 2) (c : Core ω) :
    (completeTransfer dev ch (c.cancelAsync ch)).status w j =
      if j = ch then { busy := false, async := false, delayed := false } else c.status w j := by
  rw [status_completeTransfer, status_cancelAsync]
  by_cases h : j = ch
  · simp [h, hch]
  · simp [h]

theorem ne_mdecChannel {j : Fin 7} (i : Fin 2) (h : 2 ≤ j.val) : j ≠ mdecChannel i := by
  rintro rfl
  have hval : (mdecChannel i).val = i.val := rfl
  omega

theorem asyncActive_mdec (w : Bool) (i : Fin 2) (c : Core ω) :
    c.asyncActive w (mdecChannel i) = (c.mdec i).active :=
  match i with
  | 0 => rfl
  | 1 => rfl

theorem setMdec_async (w : Bool) (i : Fin 2) (a : Async) (j : Fin 7) (c : Core ω) :
    (c.setMdec i a).asyncActive w j =
      if j = mdecChannel i then a.active else c.asyncActive w j := by
  have hmdec : ∀ k, ((c.setMdec i a).mdec k).active =
      if k = i then a.active else (c.mdec k).active := by
    intro k
    show (Function.update c.mdec i a k).active = _
    rw [Function.update_apply]
    split <;> rfl
  match j with
  | 0 => exact (hmdec 0).trans (match i with | 0 => rfl | 1 => rfl)
  | 1 => exact (hmdec 1).trans (match i with | 0 => rfl | 1 => rfl)
  | 2 | 3 | 4 | 5 | 6 => exact (if_neg (ne_mdecChannel i (by decide))).symm

theorem status_setMdec (w : Bool) (i : Fin 2) (a : Async) (j : Fin 7) (c : Core ω) :
    (c.setMdec i a).status w j =
      if j = mdecChannel i then { c.status w j with async := a.active } else c.status w j := by
  unfold Core.status
  rw [setMdec_async]
  split <;> rfl

theorem status_setMdec_same (i : Fin 2) (a : Async) (c : Core ω)
    (h : a.active = (c.mdec i).active) : (c.setMdec i a).status = c.status := by
  funext w j
  rw [status_setMdec, h]
  split
  case isTrue hj =>
    rw [hj, ← asyncActive_mdec w]
    rfl
  case isFalse => rfl

theorem status_setDelayed (w : Bool) (ch j : Fin 7) (d : Delayed) (c : Core ω) :
    (c.setDelayed ch d).status w j =
      if j = ch then { c.status w j with delayed := d.active } else c.status w j := by
  unfold Core.status Core.setDelayed Core.busy Core.asyncActive
  by_cases h : j = ch
  · subst h
    simp
  · simp [h]

@[simp] theorem status_moved (ch : Fin 7) (m : BitVec 32 × ω) (c : Core ω) :
    (c.moved ch m).status = c.status := by
  have hbusy := busy_setChannel_same c ch (fun r => { r with madr := m.1 }) fun _ => rfl
  exact status_congr hbusy rfl rfl rfl

/-! ## What one advance of a record comes to -/

theorem moveWords_le (ready : ω → Bool × ω) (word : ω → BitVec 32 → ω)
    (next : BitVec 32 → BitVec 32) (n : ℕ) (addr : BitVec 32) (w : ω) :
    (moveWords ready word next n addr w).1 ≤ n := by
  induction n generalizing addr w with
  | zero => exact Nat.le_refl 0
  | succ n ih =>
    rw [moveWords]
    dsimp only
    split
    · exact Nat.succ_le_succ (ih _ _)
    · exact Nat.zero_le _

/-- A ready device moves the first word. -/
theorem moveWords_pos (ready : ω → Bool × ω) (word : ω → BitVec 32 → ω)
    (next : BitVec 32 → BitVec 32) {n : ℕ} (hn : n ≠ 0) (addr : BitVec 32) (w : ω)
    (hw : (ready w).1 = true) : (moveWords ready word next n addr w).1 ≠ 0 := by
  cases n with
  | zero => exact absurd rfl hn
  | succ n =>
    rw [moveWords]
    simp [hw]

/-- Between two calls a record is at rest, or it is active with work left, and no more than a start lets through. -/
def Async.Sound (a : Async) : Prop :=
  a = .idle ∨ (a.active = true ∧ 0 < a.remainingWords ∧ a.remainingWords ≤ maxTransferWords)

def Delayed.Sound (d : Delayed) : Prop :=
  d = .idle ∨ (d.active = true ∧ 0 < d.cyclesRemaining ∧ d.cyclesRemaining < uint32Limit)

def LinkedList.Sound (ll : LinkedList) : Prop :=
  ll.active = true → Waiting ll ∧ ll.cyclesRemaining = 1

structure Core.Sound (c : Core ω) : Prop where
  mdec : ∀ i, (c.mdec i).Sound
  cdrom : c.cdrom.Sound
  delayed : ∀ ch, (c.delayed ch).Sound

theorem Async.Sound.remaining {a : Async} (h : a.Sound) (ha : a.active = true) :
    0 < a.remainingWords := by
  rcases h with rfl | h
  · cases ha
  · exact h.2.1

theorem Async.Sound.short {a : Async} (h : a.Sound) : a.remainingWords ≤ maxTransferWords := by
  rcases h with rfl | h
  · exact Nat.zero_le _
  · exact h.2.2

theorem Delayed.Sound.cycles {d : Delayed} (h : d.Sound) (hd : d.active = true) :
    0 < d.cyclesRemaining ∧ d.cyclesRemaining < uint32Limit := by
  rcases h with rfl | h
  · cases hd
  · exact h.2

theorem Async.idle_sound : Async.idle.Sound := Or.inl rfl

theorem Delayed.idle_sound : Delayed.idle.Sound := Or.inl rfl

theorem update_sound {ι α : Type*} [DecidableEq ι] {P : α → Prop} {f : ι → α} {i : ι} {a : α}
    (hf : ∀ j, P (f j)) (ha : P a) (j : ι) : P (Function.update f i a j) := by
  by_cases h : j = i
  · subst h
    rwa [Function.update_self]
  · rw [Function.update_of_ne h]
    exact hf j

theorem Core.Sound.setMdec {c : Core ω} (h : c.Sound) {a : Async} (ha : a.Sound) (i : Fin 2) :
    (c.setMdec i a).Sound :=
  ⟨update_sound h.mdec ha, h.cdrom, h.delayed⟩

theorem Core.Sound.setDelayed {c : Core ω} (h : c.Sound) {d : Delayed} (hd : d.Sound)
    (ch : Fin 7) : (c.setDelayed ch d).Sound :=
  ⟨h.mdec, h.cdrom, update_sound h.delayed hd⟩

theorem Core.Sound.complete {c : Core ω} (h : c.Sound) (ch : Fin 7) :
    (completeTransfer dev ch c).Sound := by
  refine ⟨?_, ?_, ?_⟩
  · rw [completeTransfer_mdec]
    exact h.mdec
  · rw [completeTransfer_cdrom]
    exact h.cdrom
  · rw [completeTransfer_delayed]
    exact h.delayed

theorem Core.Sound.cancelAsync {c : Core ω} (h : c.Sound) (ch : Fin 7) :
    (c.cancelAsync ch).Sound := by
  refine ⟨fun i => ?_, ?_, ?_⟩
  · rw [cancelAsync_mdec]
    split
    · exact Async.idle_sound
    · exact h.mdec i
  · rw [cancelAsync_cdrom]
    split
    · exact Async.idle_sound
    · exact h.cdrom
  · rw [cancelAsync_delayed]
    exact update_sound h.delayed Delayed.idle_sound

/-- The registers and the world are no part of soundness. -/
theorem Core.Sound.congr {c c' : Core ω} (h : c.Sound) (hm : c'.mdec = c.mdec)
    (hc : c'.cdrom = c.cdrom) (hd : c'.delayed = c.delayed) : c'.Sound := by
  refine ⟨?_, ?_, ?_⟩
  · rw [hm]
    exact h.mdec
  · rw [hc]
    exact h.cdrom
  · rw [hd]
    exact h.delayed

/-! ## Steps that leave every record in place -/

/-- Registers other than bit 24 of a CHCR, and the world, may differ. -/
structure SameRecords (c c' : Core ω) : Prop where
  dpcr : c'.dpcr = c.dpcr
  status : c'.status = c.status
  mdec : c'.mdec = c.mdec
  cdrom : c'.cdrom = c.cdrom
  delayed : c'.delayed = c.delayed

theorem SameRecords.refl (c : Core ω) : SameRecords c c := ⟨rfl, rfl, rfl, rfl, rfl⟩

theorem SameRecords.trans {c c' c'' : Core ω} (h : SameRecords c c') (h' : SameRecords c' c'') :
    SameRecords c c'' :=
  ⟨h'.dpcr.trans h.dpcr, h'.status.trans h.status, h'.mdec.trans h.mdec, h'.cdrom.trans h.cdrom,
    h'.delayed.trans h.delayed⟩

theorem SameRecords.world (c : Core ω) (world : ω) : SameRecords c { c with world := world } :=
  ⟨rfl, rfl, rfl, rfl, rfl⟩

theorem SameRecords.setChannel (c : Core ω) (ch : Fin 7) (f : Channel → Channel)
    (h : ∀ r, (f r).chcr.getLsbD 24 = r.chcr.getLsbD 24) : SameRecords c (c.setChannel ch f) :=
  ⟨rfl, status_setChannel c ch f h, rfl, rfl, rfl⟩

theorem SameRecords.moved (c : Core ω) (ch : Fin 7) (m : BitVec 32 × ω) :
    SameRecords c (c.moved ch m) :=
  ⟨rfl, status_moved ch m c, rfl, rfl, rfl⟩

theorem Core.Sound.same {c c' : Core ω} (h : c.Sound) (hs : SameRecords c c') : c'.Sound :=
  h.congr hs.mdec hs.cdrom hs.delayed

/-! ## What one advance of a record comes to -/

theorem setMdec_moved (i : Fin 2) (a a' : Async) (ch : Fin 7) (m : BitVec 32 × ω) (c : Core ω) :
    ((c.setMdec i a).moved ch m).setMdec i a' = (c.moved ch m).setMdec i a' := by
  simp [Core.setMdec, Core.moved, Core.setChannel]

theorem mdecMoved_cases (i : Fin 2) (c : Core ω) {a : Async} (ha : a.active = true)
    (hle : a.remainingWords ≤ maxTransferWords) (m : ℕ × BitVec 32 × ω) :
    ∃ c₁ a', SameRecords c c₁ ∧ a'.active = true ∧
      ((mdecMoved dev i (c.setMdec i a) m = c₁.setMdec i a' ∧ a'.Sound) ∨
        mdecMoved dev i (c.setMdec i a) m = finishAsyncMdecTransfer dev i (c₁.setMdec i a')) := by
  have hat : (c.setMdec i a).mdec i = a := Function.update_self ..
  refine ⟨c.moved (mdecChannel i) m.2, a.spend m.1 (mdecCyclesPerWord i), .moved c _ m.2, ha, ?_⟩
  unfold mdecMoved
  dsimp only
  rw [hat, setMdec_moved]
  split
  · exact Or.inr rfl
  · exact Or.inl ⟨rfl, Or.inr ⟨ha, Nat.pos_of_ne_zero ‹_›, (Nat.sub_le _ _).trans hle⟩⟩

theorem cdromMoved_cases (c : Core ω) {a : Async} (ha : a.active = true)
    (hle : a.remainingWords ≤ maxTransferWords) (m : ℕ × BitVec 32 × ω) :
    ∃ c₁ a' w, SameRecords c c₁ ∧ a'.active = true ∧
      ((cdromMoved dev c a m = c₁.setCdrom a' w ∧ a'.Sound) ∨
        ∃ addr, cdromMoved dev c a m = finishAsyncCdromTransfer dev addr (c₁.setCdrom a' w)) := by
  refine ⟨c.moved 3 m.2, a.spend m.1 cdromCyclesPerWord, m.2.2, .moved c 3 m.2, ha, ?_⟩
  unfold cdromMoved
  dsimp only
  split
  · exact Or.inr ⟨_, rfl⟩
  · exact Or.inl ⟨rfl, Or.inr ⟨ha, Nat.pos_of_ne_zero ‹_›, (Nat.sub_le _ _).trans hle⟩⟩

/-- An MDEC record after some cycles: it goes on with work left, or its transfer ends. -/
theorem advanceMdec_cases (i : Fin 2) (cycles : ℕ) (c : Core ω) (h : (c.mdec i).Sound) :
    ∃ c₁ a, SameRecords c c₁ ∧ a.active = (c.mdec i).active ∧
      ((advanceMdecChannel dev i cycles c = c₁.setMdec i a ∧ a.Sound) ∨
        advanceMdecChannel dev i cycles c = finishAsyncMdecTransfer dev i (c₁.setMdec i a)) := by
  have hself : c.setMdec i (c.mdec i) = c := by
    rw [Core.setMdec, Function.update_eq_self]
  unfold advanceMdecChannel
  dsimp only
  split_ifs with hoff hroute hready hbudget hnone
  · exact ⟨c, c.mdec i, .refl c, rfl, Or.inl ⟨hself.symm, h⟩⟩
  · exact ⟨c, c.mdec i, .refl c, rfl, Or.inr (by rw [hself])⟩
  · exact ⟨c, c.mdec i, .refl c, rfl, Or.inl ⟨hself.symm, h⟩⟩
  all_goals
    have hact : (c.mdec i).active = true := by simpa using (not_or.mp hoff).1
    have hrem := And.intro (h.remaining hact) h.short
  · exact ⟨c, (c.mdec i).pay cycles, .refl c, rfl, Or.inl ⟨rfl, Or.inr ⟨hact, hrem⟩⟩⟩
  · exact ⟨c, (c.mdec i).pay cycles, .refl c, rfl, Or.inl ⟨rfl, Or.inr ⟨hact, hrem⟩⟩⟩
  · rw [hact]
    exact mdecMoved_cases dev i c (a := (c.mdec i).pay cycles) hact h.short _

theorem advanceCdrom_cases (cycles : ℕ) (c : Core ω) (h : c.cdrom.Sound) :
    ∃ c₁ a w, SameRecords c c₁ ∧ a.active = c.cdrom.active ∧
      ((advanceCdrom dev cycles c = c₁.setCdrom a w ∧ a.Sound) ∨
        ∃ addr, advanceCdrom dev cycles c =
          finishAsyncCdromTransfer dev addr (c₁.setCdrom a w)) := by
  unfold advanceCdrom
  dsimp only
  split_ifs with hoff hback hready hnone
  · exact ⟨c, c.cdrom, c.world, .refl c, rfl, Or.inl ⟨rfl, h⟩⟩
  · exact absurd hback (by simp_all [dmaCdromTransferActive])
  · exact ⟨c, c.cdrom, _, .refl c, rfl, Or.inl ⟨rfl, h⟩⟩
  all_goals
    have hact : c.cdrom.active = true := by
      by_contra hne
      simp_all [dmaCdromTransferActive]
    have hrem := And.intro (h.remaining hact) h.short
  · exact ⟨c, c.cdrom.pay cycles, _, .refl c, rfl, Or.inl ⟨rfl, Or.inr ⟨hact, hrem⟩⟩⟩
  · rw [hact]
    exact cdromMoved_cases dev c (a := c.cdrom.pay cycles) hact h.short _

theorem advanceDelayed_cases (ch : Fin 7) (cycles : ℕ) (c : Core ω) :
    advanceDelayedComplete dev ch cycles c = c ∨ (c.delayed ch).active = true ∧
      ((∃ n, 0 < n ∧ n ≤ (c.delayed ch).cyclesRemaining ∧ advanceDelayedComplete dev ch cycles c =
        c.setDelayed ch { c.delayed ch with cyclesRemaining := n }) ∨
      advanceDelayedComplete dev ch cycles c = completeTransfer dev ch (c.setDelayed ch .idle)) := by
  unfold advanceDelayedComplete
  split_ifs with hoff hwait
  · exact Or.inl rfl
  · exact Or.inr ⟨by simpa using hoff, Or.inl ⟨_, by omega, by omega, rfl⟩⟩
  · exact Or.inr ⟨by simpa using hoff, Or.inr rfl⟩

/-! ## The walk of the display list -/

/-- How the walk stands to the state it began in: under way it changed no record, and at its end
it has completed channel 2. -/
def Walk (c : Core ω) (s : LinkedList × Core ω) : Prop :=
  if s.1.active = true then SameRecords c s.2
  else ∃ c₁, SameRecords c c₁ ∧ SameRecords (completeTransfer dev 2 c₁) s.2

section Walking
variable (mem : BitVec 32 → BitVec 32) {c : Core ω} {s : LinkedList × Core ω}

theorem finish_walk (h : SameRecords c s.2) : Walk dev c (finish (gpuLlOps dev mem) s).1 := by
  refine (if_neg (by simp [finish_inactive])).mpr ?_
  cases hl : s.1.hitLimit
  · refine ⟨_, h.trans (SameRecords.setChannel s.2 2 (fun r => { r with madr := 0x00FFFFFF })
      fun _ => rfl), ?_⟩
    simp only [finish, gpuLlOps, hl]
    exact SameRecords.refl _
  · refine ⟨_, h, ?_⟩
    simp only [finish, gpuLlOps, hl]
    exact SameRecords.refl _

theorem loadHeader_walk (h : SameRecords c s.2) :
    (loadHeader (gpuLlOps dev mem) mem s).1.1.active = s.1.active ∧
      SameRecords c (loadHeader (gpuLlOps dev mem) mem s).1.2 :=
  ⟨rfl, h.trans (SameRecords.world s.2 _)⟩

theorem beginNode_walk (h : SameRecords c s.2) :
    (beginNode (gpuLlOps dev mem) s).1.1.active = s.1.active ∧
      SameRecords c (beginNode (gpuLlOps dev mem) s).1.2 :=
  ⟨rfl, h.trans (SameRecords.world s.2 _)⟩

theorem nextNode_walk (ha : s.1.active = true) (h : SameRecords c s.2) :
    Walk dev c (nextNode (gpuLlOps dev mem) s).1 := by
  unfold nextNode
  split
  · exact finish_walk dev mem h
  · exact (if_pos ha).mpr h

theorem transferWord_walk (h : SameRecords c s.2) :
    (transferWord (gpuLlOps dev mem) mem s).1.1.active = s.1.active ∧
      SameRecords c (transferWord (gpuLlOps dev mem) mem s).1.2 := by
  unfold transferWord
  dsimp only
  split
  · exact ⟨rfl, h.trans (SameRecords.world s.2 _)⟩
  · exact ⟨rfl, h⟩

theorem service_walk (ha : s.1.active = true) (h : SameRecords c s.2) :
    Walk dev c (service (gpuLlOps dev mem) mem s).1 := by
  unfold service
  split
  · -- a header ends the list at its limit, enters its payload, or passes to the next node
    unfold serviceHeader
    split
    · exact finish_walk dev mem h
    · obtain ⟨hact, hrec⟩ := loadHeader_walk dev mem h
      rw [seq_fst]
      split
      · exact (if_pos (hact.trans ha)).mpr hrec
      · obtain ⟨hact', hrec'⟩ := beginNode_walk dev mem hrec
        exact nextNode_walk dev mem (hact'.trans (hact.trans ha)) hrec'
  · obtain ⟨hact, hrec⟩ := beginNode_walk dev mem h
    exact (if_pos (hact.trans ha)).mpr hrec
  · obtain ⟨hact, hrec⟩ := transferWord_walk dev mem h
    unfold servicePayload
    rw [seq_fst]
    split
    · exact (if_pos (hact.trans ha)).mpr hrec
    · exact nextNode_walk dev mem (hact.trans ha) hrec
  · exact finish_walk dev mem h

theorem advanceLoop_walk (cycles : ℕ) (ha : s.1.active = true) (h : SameRecords c s.2) :
    Walk dev c (advanceLoop (gpuLlOps dev mem) mem cycles s).1 := by
  induction hm : 3 * cycles + dueRank s.1 using Nat.strongRecOn generalizing cycles s with
  | _ m ih =>
    have hstep := service_walk dev mem (s := due s) ha h
    by_cases hc : cycles < s.1.cyclesRemaining
    · rw [loop_wait _ mem hc]
      exact (if_pos ha).mpr h
    rw [loop_serviced _ mem hc]
    split_ifs with hact hstop
    · exact hstep
    · exact ih _ (hm ▸ loop_decreases _ mem s cycles hc hact) _ hact ((if_pos hact).mp hstep) rfl
    · exact hstep

theorem dmaGpuLlAdvance_walk (cycles : ℕ) (h : s.1.active = true) :
    Walk dev s.2 (dmaGpuLlAdvance (gpuLlOps dev mem) cycles s).1 := by
  by_cases hc : cycles = 0
  · rw [hc, advance_zero]
    exact (if_pos h).mpr (SameRecords.refl s.2)
  · rw [advance_loop _ mem rfl hc s h]
    exact advanceLoop_walk dev mem cycles h (SameRecords.refl s.2)

theorem service_cycles (s : LinkedList × Core ω) :
    (service (gpuLlOps dev mem) mem s).1.1.cyclesRemaining ≤ 1 := by
  have hnext : ∀ t, (nextNode (gpuLlOps dev mem) t).1.1.cyclesRemaining ≤ 1 := by
    intro t
    unfold nextNode
    split
    · exact Nat.zero_le 1
    · exact Nat.le_refl 1
  unfold service
  split
  · unfold serviceHeader
    split
    · exact Nat.zero_le 1
    · rw [seq_fst]
      split
      · exact Nat.zero_le 1
      · exact hnext _
  · exact Nat.le_refl 1
  · unfold servicePayload
    rw [seq_fst]
    split
    · exact Nat.le_refl 1
    · exact hnext _
  · exact Nat.zero_le 1

theorem advanceLoop_cycles (cycles : ℕ) (s : LinkedList × Core ω)
    (h : s.1.cyclesRemaining ≤ 1) :
    (advanceLoop (gpuLlOps dev mem) mem cycles s).1.1.cyclesRemaining ≤ 1 := by
  induction hm : 3 * cycles + dueRank s.1 using Nat.strongRecOn generalizing cycles s with
  | _ m ih =>
    by_cases hc : cycles < s.1.cyclesRemaining
    · rw [loop_wait _ mem hc]
      exact (Nat.sub_le _ _).trans h
    rw [loop_serviced _ mem hc]
    split_ifs with hact hstop
    · exact service_cycles dev mem _
    · exact ih _ (hm ▸ loop_decreases _ mem s cycles hc hact) _ _ (service_cycles dev mem _) rfl
    · exact service_cycles dev mem _

end Walking

/-- A list between two calls waits one clock for its next word. -/
theorem LinkedList.Sound.advance {ll : LinkedList} (h : ll.Sound) (mem : BitVec 32 → BitVec 32)
    (cycles : ℕ) (c : Core ω) :
    (dmaGpuLlAdvance (gpuLlOps dev mem) cycles (ll, c)).1.1.Sound := by
  by_cases hstop : ll.active = false ∨ cycles = 0
  · rw [dmaGpuLlAdvance, if_pos hstop]
    exact h
  rw [not_or, Bool.not_eq_false] at hstop
  have hset : Settled (ll, c) := fun ha => (h ha).1
  intro ha
  have hwait := advance_settled (gpuLlOps dev mem) cycles (ll, c) hset ha
  refine ⟨hwait, Nat.le_antisymm ?_ (Nat.pos_of_ne_zero hwait.1)⟩
  rw [advance_loop _ mem rfl hstop.2 _ hstop.1]
  exact advanceLoop_cycles dev mem cycles (ll, c) (h hstop.1).2.le

theorem LinkedList.zero_sound : LinkedList.zero.Sound := nofun

theorem LinkedList.start_sound (startAddr maxNodes : BitVec 32) :
    (dmaGpuLlStart startAddr maxNodes).Sound :=
  fun _ => ⟨⟨Nat.one_ne_zero, Or.inl rfl⟩, rfl⟩

/-- The list and channel 2 after some cycles: under way no record changed, and at its end channel 2
is completed. -/
theorem advanceList_cases (cycles : ℕ) (s : Controller ω) :
    advanceList dev cycles s = s ∨ s.list.active = true ∧
      (((advanceList dev cycles s).list.active = true ∧
          SameRecords s.core (advanceList dev cycles s).core) ∨
        ((advanceList dev cycles s).list.active = false ∧ ∃ c₁, SameRecords s.core c₁ ∧
          SameRecords (completeTransfer dev 2 c₁) (advanceList dev cycles s).core)) := by
  unfold advanceList
  split
  case isFalse => exact Or.inl rfl
  case isTrue hw =>
    have hact : s.list.active = true := by simp_all [listWalks]
    have hwalk := dmaGpuLlAdvance_walk dev (dev.readWord s.core.world) cycles (s := (s.list, s.core))
      hact
    refine Or.inr ⟨hact, ?_⟩
    unfold walkList
    dsimp only
    revert hwalk
    generalize (dmaGpuLlAdvance (gpuLlOps dev (dev.readWord s.core.world)) cycles
      (s.list, s.core)).1 = r
    intro hwalk
    cases hr : r.1.active
    · obtain ⟨c₁, h₁, h₂⟩ := (if_neg (by simp [hr])).mp hwalk
      refine Or.inr ⟨rfl, c₁, h₁, ?_⟩
      split
      · exact h₂.trans (SameRecords.setChannel _ _ _ fun _ => rfl)
      · exact h₂
    · refine Or.inl ⟨rfl, ?_⟩
      rw [if_neg (by simp)]
      exact (if_pos hr).mp hwalk

end PsxRecomp.Dma
