import PsxRecomp.Dma.Liveness

/-! DICR and interrupt line 3: what a run of the controller does to them, one write or completion at
a time. -/
namespace PsxRecomp.Dma
open Transducer
set_option autoImplicit false

/-! ## Watching the devices -/

/-- What is kept beside the world about the calls that DICR is concerned in. -/
structure Watch (γ : Type*) where
  raise : γ → γ
  complete : γ → Fin 7 → BitVec 32 → BitVec 32 → γ
  regWrite : γ → BitVec 32 → BitVec 32 → BitVec 32 → BitVec 32 → γ

section Watched
variable {ω γ : Type*}

def Devices.watched (dev : Devices ω) (watch : Watch γ) : Devices (ω × γ) where
  ramAddr := dev.ramAddr
  resolveAddress := dev.resolveAddress
  readWord w addr := dev.readWord w.1 addr
  writeWord w addr word := (dev.writeWord w.1 addr word, w.2)
  mdecWriteReady w := dev.mdecWriteReady w.1
  mdecReadReady w := dev.mdecReadReady w.1
  mdecWriteWord w word := (dev.mdecWriteWord w.1 word, w.2)
  mdecReadWord w := ((dev.mdecReadWord w.1).1, (dev.mdecReadWord w.1).2, w.2)
  cdromReady w := ((dev.cdromReady w.1).1, (dev.cdromReady w.1).2, w.2)
  cdromRead w := ((dev.cdromRead w.1).1, (dev.cdromRead w.1).2, w.2)
  cdromSectorWords w := dev.cdromSectorWords w.1
  gpuRead w := ((dev.gpuRead w.1).1, (dev.gpuRead w.1).2, w.2)
  gpuWrite w addr word := (dev.gpuWrite w.1 addr word, w.2)
  gpuHeader w addr header := (dev.gpuHeader w.1 addr header, w.2)
  gpuBeginNode w addr count := (dev.gpuBeginNode w.1 addr count, w.2)
  spuRead w := ((dev.spuRead w.1).1, (dev.spuRead w.1).2, w.2)
  spuWrite w word := (dev.spuWrite w.1 word, w.2)
  raiseIrq w := (dev.raiseIrq w.1, watch.raise w.2)
  traceComplete w ch before after := (dev.traceComplete w.1 ch before after, watch.complete w.2 ch before after)
  traceRegWrite w val mask before after :=
    (dev.traceRegWrite w.1 val mask before after, watch.regWrite w.2 val mask before after)
  mdecWordsPerJob := dev.mdecWordsPerJob
  job_pos := dev.job_pos
  job_small := dev.job_small

def Elapse.counted (e : Elapse ω) : Elapse (ω × γ) :=
  { outside := fun w => (e.outside w.1, w.2), cycles := e.cycles }

def Access.counted : Access ω → Access (ω × γ)
  | .write addr val mask rounds => .write addr val mask (rounds.map fun round => round.map Elapse.counted)
  | .pass e => .pass e.counted

/-- The devices with a count of the calls of `psx_irq_raise(3)` beside their world. -/
abbrev Devices.counted (dev : Devices ω) : Devices (ω × ℕ) :=
  dev.watched { raise := (· + 1), complete := fun n _ _ _ => n, regWrite := fun n _ _ _ _ => n }

def raises (c : Core (ω × ℕ)) : ℕ := c.world.2

end Watched

/-! ## The run of DICR -/

def dicrReadValue (v : BitVec 32) : BitVec 32 :=
  v &&& 0x7FFFFFFF ||| if dicrMasterFlag v then 0x80000000 else 0

/-- Bit 31 of `dma_get_dicr()` -/
def masterBit (dicr : BitVec 32) : Bool := (dicrReadValue dicr).getLsbD 31

/-- The DICR flag of a channel. -/
def channelFlag (dicr : BitVec 32) (n : Fin 7) : Bool := dicr.getLsbD (24 + n)

inductive Event where
  | write (val mask : BitVec 32)
  | complete (ch : Fin 7)
deriving DecidableEq

/-- A call of `complete_transfer` or a write to DICR: DICR before and after it, and how often line 3 was raised until
then. -/
structure Moment where
  event : Event
  before : BitVec 32
  after : BitVec 32
  raises : ℕ

structure Moment.Lawful (m : Moment) : Prop where
  set : ∀ n, channelFlag m.before n = false → channelFlag m.after n = true →
    m.event = .complete n ∧ m.before.getLsbD (16 + n) = true ∧ m.before.getLsbD 23 = true
  cleared : ∀ n, channelFlag m.before n = true → channelFlag m.after n = false →
    ∃ val mask, m.event = .write val mask ∧ val.getLsbD (24 + n) = true ∧ mask.getLsbD (24 + n) = true
  stored : m.after.getLsbD 31 = false

/-- The interrupts of a moment: one where bit 31 comes up. -/
def Moment.edge (m : Moment) : ℕ := if masterBit m.before = false ∧ masterBit m.after = true then 1 else 0

/-- Moments that lead from one DICR and count of interrupts to another: each finds DICR as the one before it has left it,
raises the line as bit 31 comes up and at no other time, and keeps the law. -/
inductive Account (dicr : BitVec 32) (raises : ℕ) : List Moment → BitVec 32 → ℕ → Prop where
  | nil : Account dicr raises [] dicr raises
  | snoc {l : List Moment} {m : Moment} {n : ℕ} (hl : Account dicr raises l m.before n) (hm : m.Lawful)
      (hn : m.raises = n + m.edge) : Account dicr raises (l ++ [m]) m.after m.raises

/-- What the traces have recorded, and the count of interrupts beside them. -/
structure Journal where
  raises : ℕ
  moments : List Moment

def Journal.enter (j : Journal) (event : Event) (before after : BitVec 32) : Journal :=
  { j with moments := j.moments ++ [⟨event, before, after, j.raises⟩] }

abbrev Devices.traced {ω : Type*} (dev : Devices ω) : Devices (ω × Journal) :=
  dev.watched
    { raise := fun j => { j with raises := j.raises + 1 }
      complete := fun j ch => j.enter (.complete ch)
      regWrite := fun j val mask => j.enter (.write val mask) }

section Runs
variable {ω γ : Type*} (dev : Devices (ω × γ))

/-- DICR and what is kept beside the world are left alone. -/
def Quiet (c c' : Core (ω × γ)) : Prop := c'.dicr = c.dicr ∧ c'.world.2 = c.world.2

/-- Other work of the controller: no channel gets busy, and a busy one keeps its direction. -/
structure Calm (c c' : Core (ω × γ)) : Prop where
  quiet : Quiet c c'
  dpcr : c'.dpcr = c.dpcr
  busy : ∀ j, c'.busy j = true → c.busy j = true ∧ c'.fromRam j = c.fromRam j

/-- What the controller does by itself when only these channels complete. -/
inductive Runs (chs : Set (Fin 7)) : Core (ω × γ) → Core (ω × γ) → Prop where
  | refl (c : Core (ω × γ)) : Runs chs c c
  | calm {c c' c'' : Core (ω × γ)} (h : Runs chs c c') (hc : Calm c' c'') : Runs chs c c''
  | complete {c c' : Core (ω × γ)} (h : Runs chs c c') {ch : Fin 7} (hch : ch ∈ chs) :
      Runs chs c (completeTransfer dev ch c')

end Runs

/-! ## One moment -/

theorem masterBit_eq (dicr : BitVec 32) : masterBit dicr = dicrMasterFlag dicr := by
  unfold masterBit dicrReadValue
  split
  · rename_i h
    simp [h]
  · rename_i h
    simp [h]

section Moments
variable {ω γ : Type*} (dev : Devices ω) {watch : Watch γ}

theorem raise_watched (watch : Watch γ) (before : BitVec 32) (c : Core (ω × γ)) :
    (raiseDmaIrqOnMasterEdge (dev.watched watch) before c).dicr = c.dicr ∧
      (raiseDmaIrqOnMasterEdge (dev.watched watch) before c).world.2 =
        if dicrMasterFlag before = false ∧ dicrMasterFlag c.dicr = true then watch.raise c.world.2 else c.world.2 := by
  unfold raiseDmaIrqOnMasterEdge
  cases dicrMasterFlag before <;> cases dicrMasterFlag c.dicr <;> exact ⟨rfl, rfl⟩

/-- DICR behind a completion. -/
def latched (ch : Fin 7) (c : Core ω) : BitVec 32 :=
  if c.irqFlagArmed ch then c.dicr ||| BitVec.twoPow 32 (24 + ch.val) else c.dicr

theorem completeTransfer_watched (ch : Fin 7) (c : Core (ω × γ)) :
    (completeTransfer (dev.watched watch) ch c).dicr = latched ch c ∧
      (completeTransfer (dev.watched watch) ch c).world.2 =
        watch.complete (if dicrMasterFlag c.dicr = false ∧ dicrMasterFlag (latched ch c) = true then
          watch.raise c.world.2 else c.world.2) ch c.dicr (latched ch c) := by
  have harmed : (c.clearBusy ch).irqFlagArmed ch = c.irqFlagArmed ch := rfl
  unfold completeTransfer latchFlag latched
  dsimp only
  rw [harmed]
  cases c.irqFlagArmed ch
  · have hno : ¬(dicrMasterFlag c.dicr = false ∧ dicrMasterFlag c.dicr = true) := fun h =>
      Bool.noConfusion (h.1.symm.trans h.2)
    refine ⟨rfl, ?_⟩
    show _ = watch.complete (if dicrMasterFlag c.dicr = false ∧ dicrMasterFlag c.dicr = true then _ else _) ch c.dicr c.dicr
    rw [if_neg hno]
    rfl
  · obtain ⟨hdicr, hworld⟩ := raise_watched dev watch c.dicr
      { c.clearBusy ch with dicr := c.dicr ||| BitVec.twoPow 32 (24 + ch.val) }
    refine ⟨hdicr, ?_⟩
    show watch.complete _ ch c.dicr _ = _
    rw [if_pos rfl, if_pos rfl, show (c.clearBusy ch).dicr = c.dicr from rfl, hdicr, hworld]
    rfl

def writtenDicr (val mask dicr : BitVec 32) : BitVec 32 :=
  masked dicr val (dicrWriteMask &&& mask) &&& ~~~(val &&& (dicrResetMask &&& mask))

theorem writeDicr_watched (val mask : BitVec 32) (c : Core (ω × γ)) :
    (writeDicr (dev.watched watch) val mask c).dicr = writtenDicr val mask c.dicr ∧
      (writeDicr (dev.watched watch) val mask c).world.2 =
        watch.regWrite (if dicrMasterFlag c.dicr = false ∧ dicrMasterFlag (writtenDicr val mask c.dicr) = true then
          watch.raise c.world.2 else c.world.2) val mask c.dicr (writtenDicr val mask c.dicr) := by
  obtain ⟨hdicr, hworld⟩ := raise_watched dev watch c.dicr { c with dicr := writtenDicr val mask c.dicr }
  refine ⟨hdicr, ?_⟩
  show watch.regWrite _ val mask c.dicr _ = _
  rw [← hworld]
  exact congrArg _ hdicr

end Moments

theorem writtenDicr_lawful (val mask dicr : BitVec 32) (h31 : dicr.getLsbD 31 = false) (raises : ℕ) :
    Moment.Lawful ⟨.write val mask, dicr, writtenDicr val mask dicr, raises⟩ := by
  have hwrite (n : Fin 7) : dicrWriteMask.getLsbD (24 + n) = false := by
    revert n
    decide
  have hreset (n : Fin 7) : dicrResetMask.getLsbD (24 + n) = true := by
    revert n
    decide
  have hflag (n : Fin 7) : channelFlag (writtenDicr val mask dicr) n =
      (channelFlag dicr n && !(val.getLsbD (24 + n) && mask.getLsbD (24 + n))) := by
    have hn : 24 + n.val < 32 := by omega
    rw [channelFlag, writtenDicr, channelFlag]
    simp only [masked, BitVec.getLsbD_and, BitVec.getLsbD_or, BitVec.getLsbD_not, hwrite n, hreset n, hn,
      decide_true, Bool.false_and, Bool.and_false, Bool.true_and, Bool.not_false, Bool.and_true, Bool.or_false]
  refine ⟨fun n hbefore hafter => ?_, fun n hbefore hafter => ?_, ?_⟩
  · dsimp only at hbefore hafter
    rw [hflag, hbefore] at hafter
    cases hafter
  · dsimp only at hbefore hafter
    rw [hflag, hbefore] at hafter
    refine ⟨val, mask, rfl, ?_⟩
    simpa using hafter
  · have hmask : dicrWriteMask.getLsbD 31 = false := by decide
    dsimp only [writtenDicr]
    simp only [masked, BitVec.getLsbD_and, BitVec.getLsbD_or, h31, hmask, Bool.false_and, Bool.and_false, Bool.or_false]

theorem latched_lawful {ω : Type*} (ch : Fin 7) (c : Core ω) (h31 : c.dicr.getLsbD 31 = false) (raises : ℕ) :
    Moment.Lawful ⟨.complete ch, c.dicr, latched ch c, raises⟩ := by
  by_cases harmed : c.irqFlagArmed ch = true
  · have heq : latched ch c = c.dicr ||| BitVec.twoPow 32 (24 + ch.val) := if_pos harmed
    have hflag (n : Fin 7) : channelFlag (latched ch c) n = (channelFlag c.dicr n || decide (n = ch)) := by
      have hch : 24 + ch.val < 32 := by omega
      rw [channelFlag, heq, BitVec.getLsbD_or, BitVec.getLsbD_twoPow, channelFlag]
      simp [hch, Fin.ext_iff, eq_comm]
    have harm : c.dicr.getLsbD (16 + ch.val) = true ∧ c.dicr.getLsbD 23 = true := by
      simpa [Core.irqFlagArmed] using harmed
    refine ⟨fun n hbefore hafter => ?_, fun n hbefore hafter => ?_, ?_⟩
    · dsimp only at hbefore hafter
      rw [hflag, hbefore, Bool.false_or, decide_eq_true_eq] at hafter
      subst hafter
      exact ⟨rfl, harm⟩
    · dsimp only at hbefore hafter
      rw [hflag, hbefore] at hafter
      cases hafter
    · dsimp only
      rw [heq, BitVec.getLsbD_or, h31, BitVec.getLsbD_twoPow]
      simp
      omega
  · have heq : latched ch c = c.dicr := if_neg harmed
    refine ⟨fun n hbefore hafter => ?_, fun n hbefore hafter => ?_, ?_⟩
    · exact absurd (hbefore.symm.trans (heq ▸ hafter)) Bool.noConfusion
    · exact absurd (hbefore.symm.trans (heq ▸ hafter)) Bool.noConfusion
    · exact heq ▸ h31

/-! ## Accounts -/

theorem Account.append {dicr dicr' dicr'' : BitVec 32} {n n' n'' : ℕ} {l l' : List Moment}
    (h : Account dicr n l dicr' n') (h' : Account dicr' n' l' dicr'' n'') : Account dicr n (l ++ l') dicr'' n'' := by
  induction h' with
  | nil => rwa [List.append_nil]
  | snoc hl hm hn ih =>
    rw [← List.append_assoc]
    exact .snoc ih hm hn

theorem Account.stored {dicr dicr' : BitVec 32} {n n' : ℕ} {l : List Moment} (h : Account dicr n l dicr' n')
    (h31 : dicr.getLsbD 31 = false) : dicr'.getLsbD 31 = false := by
  cases h with
  | nil => exact h31
  | snoc _ hm _ => exact hm.stored

section Accounts
variable {ω : Type*} (dev : Devices ω)

/-- The journal has grown by these moments, and they account for DICR and the interrupts. -/
structure Accounts (c c' : Core (ω × Journal)) (l : List Moment) : Prop where
  moments : c'.world.2.moments = c.world.2.moments ++ l
  account : Account c.dicr c.world.2.raises l c'.dicr c'.world.2.raises

variable {c c' c'' : Core (ω × Journal)}

theorem Accounts.trans {l l' : List Moment} (h : Accounts c c' l) (h' : Accounts c' c'' l') : Accounts c c'' (l ++ l') :=
  ⟨by rw [h'.moments, h.moments, List.append_assoc], h.account.append h'.account⟩

theorem Quiet.accounts (h : Quiet c c') : Accounts c c' [] := by
  obtain ⟨hdicr, hworld⟩ := h
  refine ⟨by rw [hworld, List.append_nil], ?_⟩
  rw [hdicr, hworld]
  exact .nil

/-- One entry, written behind the interrupt that the change of DICR raises. -/
theorem accounts_enter {event : Event} (hlaw : ∀ n, Moment.Lawful ⟨event, c.dicr, c'.dicr, n⟩)
    (hworld : c'.world.2 = (if dicrMasterFlag c.dicr = false ∧ dicrMasterFlag c'.dicr = true then
      { c.world.2 with raises := c.world.2.raises + 1 } else c.world.2).enter event c.dicr c'.dicr) :
    Accounts c c' [⟨event, c.dicr, c'.dicr, c'.world.2.raises⟩] := by
  have hraises : c'.world.2.raises = c.world.2.raises + Moment.edge ⟨event, c.dicr, c'.dicr, c'.world.2.raises⟩ := by
    rw [Moment.edge, masterBit_eq, masterBit_eq, hworld]
    dsimp only
    split <;> rfl
  refine ⟨?_, Account.nil.snoc (hlaw _) hraises⟩
  rw [hworld]
  split <;> rfl

theorem completeTransfer_accounts (ch : Fin 7) (h31 : c.dicr.getLsbD 31 = false) :
    ∃ m, m.event = .complete ch ∧ Accounts c (completeTransfer dev.traced ch c) [m] := by
  obtain ⟨hdicr, hworld⟩ := completeTransfer_watched dev ch c
  exact ⟨_, rfl, accounts_enter (fun n => hdicr ▸ latched_lawful ch c h31 n) (hdicr ▸ hworld)⟩

theorem writeDicr_accounts (val mask : BitVec 32) (h31 : c.dicr.getLsbD 31 = false) :
    ∃ m, m.event = .write val mask ∧ Accounts c (writeDicr dev.traced val mask c) [m] := by
  obtain ⟨hdicr, hworld⟩ := writeDicr_watched dev val mask c
  exact ⟨_, rfl, accounts_enter (fun n => hdicr ▸ writtenDicr_lawful val mask c.dicr h31 n) (hdicr ▸ hworld)⟩

end Accounts

/-! ## Runs -/

section RunRules
variable {ω γ : Type*} {dev : Devices (ω × γ)} {chs : Set (Fin 7)} {c c' c'' : Core (ω × γ)}

theorem Quiet.trans (h : Quiet c c') (h' : Quiet c' c'') : Quiet c c'' := ⟨h'.1.trans h.1, h'.2.trans h.2⟩

theorem Calm.refl (c : Core (ω × γ)) : Calm c c := ⟨⟨rfl, rfl⟩, rfl, fun _ h => ⟨h, rfl⟩⟩

theorem Calm.trans (h : Calm c c') (h' : Calm c' c'') : Calm c c'' := by
  refine ⟨h.quiet.trans h'.quiet, h'.dpcr.trans h.dpcr, fun j hb => ?_⟩
  obtain ⟨hb', hd'⟩ := h'.busy j hb
  obtain ⟨hb, hd⟩ := h.busy j hb'
  exact ⟨hb, hd'.trans hd⟩

/-- The CHCRs as they were. -/
theorem Calm.of_chcr (hq : Quiet c c') (hp : c'.dpcr = c.dpcr)
    (hch : ∀ j, (c'.channels j).chcr = (c.channels j).chcr) : Calm c c' := by
  refine ⟨hq, hp, fun j hb => ?_⟩
  unfold Core.busy Core.fromRam at *
  rw [hch] at *
  exact ⟨hb, rfl⟩

theorem setChannel_chcr (c : Core (ω × γ)) (ch : Fin 7) (f : Channel → Channel) (hf : ∀ r, (f r).chcr = r.chcr)
    (j : Fin 7) : ((c.setChannel ch f).channels j).chcr = (c.channels j).chcr := by
  rw [Core.setChannel]
  dsimp only
  by_cases hj : j = ch
  · rw [hj, Function.update_self, hf]
  · rw [Function.update_of_ne hj]

theorem Calm.moved {c₁ : Core (ω × γ)} (h : Calm c c₁) (ch : Fin 7) {m : BitVec 32 × ω × γ} (hm : m.2.2 = c₁.world.2) :
    Calm c (c₁.moved ch m) :=
  h.trans (.of_chcr ⟨rfl, hm⟩ rfl (setChannel_chcr c₁ ch (fun r => { r with madr := m.1 }) fun _ => rfl))

theorem clearBusy_calm (c : Core (ω × γ)) (ch : Fin 7) : Calm c (c.clearBusy ch) := by
  refine ⟨⟨rfl, rfl⟩, rfl, fun j hb => ?_⟩
  by_cases hj : j = ch
  · rw [Core.clearBusy, busy_setChannel, if_pos hj, idleChcr_busy] at hb
    cases hb
  · unfold Core.busy Core.fromRam Core.clearBusy Core.setChannel at *
    dsimp only at *
    rw [Function.update_of_ne hj] at *
    exact ⟨hb, rfl⟩

theorem Runs.trans (h : Runs dev chs c c') (h' : Runs dev chs c' c'') : Runs dev chs c c'' := by
  induction h' with
  | refl => exact h
  | calm _ hc ih => exact ih.calm hc
  | complete _ hch ih => exact ih.complete hch

theorem Runs.mono {chs' : Set (Fin 7)} (h : Runs dev chs c c') (hsub : chs ⊆ chs') : Runs dev chs' c c' := by
  induction h with
  | refl => exact .refl _
  | calm _ hc ih => exact ih.calm hc
  | complete _ hch ih => exact ih.complete (hsub hch)

theorem Calm.runs (h : Calm c c') : Runs dev chs c c' := (Runs.refl c).calm h

theorem runs_complete (h : Calm c c') {ch : Fin 7} (hch : ch ∈ chs) : Runs dev chs c (completeTransfer dev ch c') :=
  h.runs.complete hch

theorem runs_foldl {α : Type} {f : Core (ω × γ) → α → Core (ω × γ)} (hf : ∀ c a, Runs dev chs c (f c a)) (l : List α)
    (c : Core (ω × γ)) : Runs dev chs c (l.foldl f c) := by
  induction l generalizing c with
  | nil => exact .refl c
  | cons a l ih => exact (hf c a).trans (ih _)

end RunRules

section Operations
variable {ω γ : Type*} (dev : Devices ω) {watch : Watch γ}

theorem cancelAsync_calm (ch : Fin 7) (c : Core (ω × γ)) : Calm c (c.cancelAsync ch) := by
  unfold Core.cancelAsync
  split_ifs <;> exact ⟨⟨rfl, rfl⟩, rfl, fun _ h => ⟨h, rfl⟩⟩

theorem moveWords_count (ready : ω × γ → Bool × ω × γ) (word : ω × γ → BitVec 32 → ω × γ)
    (hready : ∀ w, (ready w).2.2 = w.2) (hword : ∀ w addr, (word w addr).2 = w.2) (next : BitVec 32 → BitVec 32)
    (n : ℕ) (addr : BitVec 32) (w : ω × γ) : (moveWords ready word next n addr w).2.2.2 = w.2 := by
  induction n generalizing addr w with
  | zero => rfl
  | succ n ih =>
    unfold moveWords
    dsimp only
    split
    · exact (ih _ _).trans ((hword _ _).trans (hready w))
    · exact hready w

theorem transfer_calm (c : Core (ω × γ)) (ch : Fin 7) (word : ω × γ → BitVec 32 → ω × γ)
    (hword : ∀ w addr, (word w addr).2 = w.2) (n : ℕ) : Calm c (c.transfer (dev.watched watch) ch word n) :=
  (Calm.refl c).moved ch (moveWords_count _ word (fun _ => rfl) hword _ n _ c.world)

theorem scheduled_runs (ch : Fin 7) (words cyclesPerWord : ℕ) {c c' : Core (ω × γ)} (h : Calm c c') :
    Runs (dev.watched watch) {ch} c (scheduleDelayedComplete (dev.watched watch) ch words cyclesPerWord c') := by
  unfold scheduleDelayedComplete
  split
  · exact runs_complete h rfl
  · exact h.runs.calm (.of_chcr ⟨rfl, rfl⟩ rfl fun _ => rfl)

theorem delayedAdvance_runs (ch : Fin 7) (cycles : ℕ) (c : Core (ω × γ)) :
    Runs (dev.watched watch) {ch} c (advanceDelayedComplete (dev.watched watch) ch cycles c) := by
  unfold advanceDelayedComplete
  split_ifs
  · exact .refl c
  · exact Calm.runs (.of_chcr ⟨rfl, rfl⟩ rfl fun _ => rfl)
  · have hidle : Calm c (c.setDelayed ch .idle) := .of_chcr ⟨rfl, rfl⟩ rfl fun _ => rfl
    exact runs_complete hidle rfl

theorem finishMdec_runs (i : Fin 2) {c c' : Core (ω × γ)} (h : Calm c c') :
    Runs (dev.watched watch) {mdecChannel i} c (finishAsyncMdecTransfer (dev.watched watch) i c') :=
  runs_complete (h.trans (cancelAsync_calm _ c')) rfl

theorem mdecWord_count (i : Fin 2) (w : ω × γ) (addr : BitVec 32) : (mdecWord (dev.watched watch) i w addr).2 = w.2 := by
  unfold mdecWord
  split <;> rfl

/-- The words an MDEC channel moves. -/
theorem mdecMoved_calm (i : Fin 2) (n : ℕ) (a a' : Async) (c : Core (ω × γ)) :
    Calm c (((c.setMdec i a).moved (mdecChannel i) (moveWords (fun w => (mdecReady (dev.watched watch) i w, w))
      (mdecWord (dev.watched watch) i) (c.nextAddr (dev.watched watch) (mdecChannel i)) n
      (c.startAddr (dev.watched watch) (mdecChannel i)) c.world).2).setMdec i a') := by
  have hset : Calm c (c.setMdec i a) := .of_chcr ⟨rfl, rfl⟩ rfl fun _ => rfl
  have hcount := moveWords_count (fun w => (mdecReady (dev.watched watch) i w, w)) (mdecWord (dev.watched watch) i)
    (fun _ => rfl) (mdecWord_count dev i) (c.nextAddr (dev.watched watch) (mdecChannel i)) n
    (c.startAddr (dev.watched watch) (mdecChannel i)) c.world
  exact (hset.moved (mdecChannel i) hcount).trans (.of_chcr ⟨rfl, rfl⟩ rfl fun _ => rfl)

theorem mdecAdvance_runs (i : Fin 2) (cycles : ℕ) (c : Core (ω × γ)) :
    Runs (dev.watched watch) {mdecChannel i} c (advanceMdecChannel (dev.watched watch) i cycles c) := by
  have hset (a : Async) : Calm c (c.setMdec i a) := .of_chcr ⟨rfl, rfl⟩ rfl fun _ => rfl
  unfold advanceMdecChannel
  split
  · exact .refl c
  split
  · exact finishMdec_runs dev i (.refl c)
  split
  · exact .refl c
  dsimp only
  split
  · exact (hset _).runs
  split
  · exact (hset _).runs
  · -- the words are moved, and the last of them finishes the transfer
    unfold mdecMoved
    dsimp only
    split
    · exact finishMdec_runs dev i (mdecMoved_calm dev i _ _ _ c)
    · exact (mdecMoved_calm dev i _ _ _ c).runs

theorem cdromAdvance_runs (cycles : ℕ) (c : Core (ω × γ)) :
    Runs (dev.watched watch) {3} c (advanceCdrom (dev.watched watch) cycles c) := by
  unfold advanceCdrom
  split
  · exact .refl c
  split
  · exact (cancelAsync_calm 3 c).runs.calm (clearBusy_calm _ 3)
  dsimp only
  split
  · exact Calm.runs (.of_chcr ⟨rfl, rfl⟩ rfl fun _ => rfl)
  have hcount (n : ℕ) (addr : BitVec 32) : (moveWords (dev.watched watch).cdromReady (toRam (dev.watched watch) (dev.watched watch).cdromRead)
      (c.nextAddr (dev.watched watch) 3) n addr ((dev.watched watch).cdromReady c.world).2).2.2.2 = c.world.2 :=
    moveWords_count (dev.watched watch).cdromReady (toRam (dev.watched watch) (dev.watched watch).cdromRead) (fun _ => rfl) (fun _ _ => rfl) _ n
      addr _
  split
  · refine Calm.runs (.of_chcr ?_ rfl fun _ => rfl)
    exact ⟨rfl, hcount _ _⟩
  · have hmoved (m : ℕ × BitVec 32 × ω × γ) (hm : m.2.2.2 = c.world.2) (a : Async) :
        Calm c ((c.moved 3 m.2).setCdrom a m.2.2) :=
      ((Calm.refl c).moved 3 hm).trans (.of_chcr ⟨rfl, rfl⟩ rfl fun _ => rfl)
    unfold cdromMoved
    dsimp only
    split
    · have hmadr {c₁ : Core (ω × γ)} (h : Calm c c₁) (addr : BitVec 32) :
          Calm c (c₁.setChannel 3 fun r => { r with madr := addr }) :=
        h.trans (.of_chcr ⟨rfl, rfl⟩ rfl (setChannel_chcr _ 3 _ fun _ => rfl))
      exact runs_complete ((hmadr (hmoved _ (hcount _ _) _) _).trans (cancelAsync_calm 3 _)) rfl
    · exact (hmoved _ (hcount _ _) _).runs

/-! ## The display list -/

section List
variable (mem : BitVec 32 → BitVec 32) {c : Core (ω × γ)} {s : LinkedList × Core (ω × γ)}

theorem finish_runs (h : Calm c s.2) : Runs (dev.watched watch) {2} c (finish (gpuLlOps (dev.watched watch) mem) s).1.2 := by
  refine runs_complete (h.trans ?_) rfl
  split
  · exact .refl s.2
  · exact .of_chcr ⟨rfl, rfl⟩ rfl (setChannel_chcr s.2 2 _ fun _ => rfl)

theorem beginNode_calm (h : Calm c s.2) : Calm c (beginNode (gpuLlOps (dev.watched watch) mem) s).1.2 :=
  h.trans (.of_chcr ⟨rfl, rfl⟩ rfl fun _ => rfl)

theorem nextNode_runs (h : Calm c s.2) : Runs (dev.watched watch) {2} c (nextNode (gpuLlOps (dev.watched watch) mem) s).1.2 := by
  unfold nextNode
  split
  · exact finish_runs dev mem h
  · exact h.runs

theorem service_runs (s : LinkedList × Core (ω × γ)) :
    Runs (dev.watched watch) {2} s.2 (service (gpuLlOps (dev.watched watch) mem) mem s).1.2 := by
  have hself := Calm.refl s.2
  unfold service
  split
  · unfold serviceHeader
    split
    · exact finish_runs dev mem hself
    · have hload : Calm s.2 (loadHeader (gpuLlOps (dev.watched watch) mem) mem s).1.2 :=
        .of_chcr ⟨rfl, rfl⟩ rfl fun _ => rfl
      rw [seq_fst]
      split
      · exact hload.runs
      · exact nextNode_runs dev mem (beginNode_calm dev mem hload)
  · exact (beginNode_calm dev mem hself).runs
  · have hword : Calm s.2 (transferWord (gpuLlOps (dev.watched watch) mem) mem s).1.2 := by
      unfold transferWord
      dsimp only
      split <;> exact .of_chcr ⟨rfl, rfl⟩ rfl fun _ => rfl
    unfold servicePayload
    rw [seq_fst]
    split
    · exact hword.runs
    · exact nextNode_runs dev mem hword
  · exact finish_runs dev mem hself

theorem advanceLoop_runs (cycles : ℕ) (s : LinkedList × Core (ω × γ)) :
    Runs (dev.watched watch) {2} s.2 (advanceLoop (gpuLlOps (dev.watched watch) mem) mem cycles s).1.2 := by
  induction hm : 3 * cycles + dueRank s.1 using Nat.strongRecOn generalizing cycles s with
  | _ m ih =>
    have hstep : Runs (dev.watched watch) {2} s.2 (service (gpuLlOps (dev.watched watch) mem) mem (due s)).1.2 :=
    service_runs dev mem (due s)
    by_cases hc : cycles < s.1.cyclesRemaining
    · rw [loop_wait _ mem hc]
      exact .refl s.2
    rw [loop_serviced _ mem hc]
    split_ifs with hact hstop
    · exact hstep
    · exact hstep.trans (ih _ (hm ▸ loop_decreases _ mem s cycles hc hact) _ _ rfl)
    · exact hstep

end List

theorem listAdvance_runs (cycles : ℕ) (s : Controller (ω × γ)) :
    Runs (dev.watched watch) {2} s.core (advanceList (dev.watched watch) cycles s).core := by
  have hwalk (mem : BitVec 32 → BitVec 32) :
      Runs (dev.watched watch) {2} s.core (dmaGpuLlAdvance (gpuLlOps (dev.watched watch) mem) cycles (s.list, s.core)).1.2 := by
    unfold dmaGpuLlAdvance
    split
    · exact .refl s.core
    · exact advanceLoop_runs dev mem cycles (s.list, s.core)
  unfold advanceList
  split
  · unfold walkList
    dsimp only
    have hcore := hwalk ((dev.watched watch).readWord s.core.world)
    split
    · exact hcore.calm (.of_chcr ⟨rfl, rfl⟩ rfl (setChannel_chcr _ 2 _ fun _ => rfl))
    · exact hcore
  · exact .refl s.core

/-! ## Accesses -/

theorem dmaAdvance_runs (cycles : ℕ) (s : Controller (ω × γ)) :
    Runs (dev.watched watch) Set.univ s.core (dmaAdvance (dev.watched watch) cycles s).core := by
  have hall (ch : Fin 7) : ({ch} : Set (Fin 7)) ⊆ Set.univ := Set.subset_univ _
  unfold dmaAdvance
  split
  · exact .refl s.core
  · have hfirst : Runs (dev.watched watch) Set.univ s.core (advanceMdecChannel (dev.watched watch) 0 cycles s.core) :=
      (mdecAdvance_runs dev 0 cycles s.core).mono (hall _)
    have hmdec := hfirst.trans ((mdecAdvance_runs dev 1 cycles _).mono (hall _))
    have hlist := hmdec.trans ((listAdvance_runs dev cycles ⟨_, s.list⟩).mono (hall _))
    exact (hlist.trans ((cdromAdvance_runs dev cycles _).mono (hall _))).trans
      (runs_foldl (fun c ch => (delayedAdvance_runs dev ch cycles c).mono (hall _)) _ _)

theorem elapse_runs (e : Elapse ω) (s : Controller (ω × γ)) :
    Runs (dev.watched watch) Set.univ s.core (elapse (dev.watched watch) s e.counted).core := by
  have hworld : Calm s.core { s.core with world := e.counted.outside s.core.world } :=
    .of_chcr ⟨rfl, rfl⟩ rfl fun _ => rfl
  exact hworld.runs.trans (dmaAdvance_runs dev e.cycles ⟨_, s.list⟩)

theorem hold_runs (rounds : List (List (Elapse ω))) (s : Controller (ω × γ)) :
    Runs (dev.watched watch) Set.univ s.core
      (holdCpuForGpuLinkedList (dev.watched watch) (rounds.map fun round => round.map Elapse.counted) s).core := by
  induction rounds generalizing s with
  | nil => exact .refl s.core
  | cons round rounds ih =>
    have hround (l : List (Elapse ω)) (s : Controller (ω × γ)) :
        Runs (dev.watched watch) Set.univ s.core ((l.map Elapse.counted).foldl (elapse (dev.watched watch)) s).core := by
      induction l generalizing s with
      | nil => exact .refl s.core
      | cons e l ih => exact (elapse_runs dev e s).trans (ih _)
    rw [List.map_cons]
    unfold holdCpuForGpuLinkedList
    dsimp only
    split_ifs
    · exact hround round s
    · exact (hround round s).trans (ih _)
    · exact .refl s.core

theorem executeCh2Gpu_calm (c : Core (ω × γ)) : Calm c (executeCh2Gpu (dev.watched watch) c).2 := by
  unfold executeCh2Gpu
  split_ifs
  · refine transfer_calm dev c 2 _ (fun _ _ => ?_) _
    rfl
  · exact .refl c
  · exact .refl c
  · refine transfer_calm dev c 2 _ (fun _ _ => ?_) _
    rfl

theorem executeCh4Spu_calm (c : Core (ω × γ)) : Calm c (executeCh4Spu (dev.watched watch) c).2 := by
  unfold executeCh4Spu
  dsimp only
  split
  · refine transfer_calm dev c 4 _ (fun _ _ => ?_) _
    rfl
  · refine transfer_calm dev c 4 _ (fun _ _ => ?_) _
    rfl

theorem clearTable_count (n : ℕ) (addr : BitVec 32) (w : ω × γ) : (clearTable (dev.watched watch) n addr w).2 = w.2 := by
  induction n generalizing addr w with
  | zero => rfl
  | succ n ih => exact ih _ _

theorem startMdec_runs (i : Fin 2) (c : Core (ω × γ)) :
    Runs (dev.watched watch) Set.univ c (startAsyncMdecTransfer (dev.watched watch) i c) := by
  unfold startAsyncMdecTransfer
  split
  · exact .refl c
  · exact Calm.runs (.of_chcr ⟨rfl, rfl⟩ rfl fun _ => rfl)

theorem startCdrom_runs (c : Core (ω × γ)) : Runs (dev.watched watch) Set.univ c (executeCh3Cdrom (dev.watched watch) c) := by
  have hset (a : Async) : Calm c { c with cdrom := a } := .of_chcr ⟨rfl, rfl⟩ rfl fun _ => rfl
  unfold executeCh3Cdrom
  split
  · exact (clearBusy_calm c 3).runs
  unfold startAsyncCdromTransfer
  dsimp only
  split_ifs
  · exact .refl c
  · exact runs_complete ((hset _).trans (cancelAsync_calm 3 _)) (Set.mem_univ _)
  · exact (hset _).runs

theorem execute_runs (rounds : List (List (Elapse ω))) (ch : Fin 7) (s : Controller (ω × γ)) :
    Runs (dev.watched watch) Set.univ s.core
      (execute (dev.watched watch) (rounds.map fun round => round.map Elapse.counted) ch s).core := by
  unfold execute
  split
  · exact startMdec_runs dev 0 s.core
  · exact startMdec_runs dev 1 s.core
  · split
    · have hstart : (startAsyncGpuLinkedList (dev.watched watch) s).core = s.core := by
        unfold startAsyncGpuLinkedList
        split <;> rfl
      have hheld : Runs (dev.watched watch) Set.univ (startAsyncGpuLinkedList (dev.watched watch) s).core _ :=
        hold_runs dev rounds (startAsyncGpuLinkedList (dev.watched watch) s)
      rwa [hstart] at hheld
    · exact (scheduled_runs dev 2 _ _ (executeCh2Gpu_calm dev s.core)).mono (Set.subset_univ _)
  · exact startCdrom_runs dev s.core
  · exact (scheduled_runs dev 4 _ _ (executeCh4Spu_calm dev s.core)).mono (Set.subset_univ _)
  · refine runs_complete (transfer_calm dev s.core 5 _ (fun _ _ => ?_) _) (Set.mem_univ _)
    split <;> rfl
  · have htable (n : ℕ) (addr : BitVec 32) :
        Calm s.core { s.core with world := clearTable (dev.watched watch) n addr s.core.world } :=
      .of_chcr ⟨rfl, clearTable_count dev n addr _⟩ rfl fun _ => rfl
    exact runs_complete (htable _ _) (Set.mem_univ _)

end Operations

/-! ## The moments of an access -/

section Law
variable {ω : Type*} (dev : Devices ω)

def Completions (l : List Moment) : Prop := ∀ m ∈ l, ∃ ch, m.event = .complete ch

/-- A write to DICR is one moment, with the value and the mask written; every other access is completions only. -/
def Access.Leaves (l : List Moment) : Access ω → Prop
  | .write addr val mask _ => if register addr = .dicr then l.map Moment.event = [.write val mask] else Completions l
  | .pass _ => Completions l

theorem Runs.accounts {chs : Set (Fin 7)} {c c' : Core (ω × Journal)} (h : Runs dev.traced chs c c')
    (h31 : c.dicr.getLsbD 31 = false) : ∃ l, Completions l ∧ Accounts c c' l := by
  induction h with
  | refl => exact ⟨[], List.forall_mem_nil _, Quiet.accounts ⟨rfl, rfl⟩⟩
  | calm _ hc ih =>
    obtain ⟨l, hl, hacc⟩ := ih
    exact ⟨_, by rwa [List.append_nil], hacc.trans hc.quiet.accounts⟩
  | @complete _ _ ch _ ih =>
    obtain ⟨l, hl, hacc⟩ := ih
    obtain ⟨m, hm, hone⟩ := completeTransfer_accounts dev ch (hacc.account.stored h31)
    exact ⟨_, List.forall_mem_append.2 ⟨hl, List.forall_mem_singleton.2 ⟨ch, hm⟩⟩, hacc.trans hone⟩

theorem writeChannelControl_accounts {rounds : List (List (Elapse ω))} {ch : Fin 7} {val mask : BitVec 32}
    {s s' : Controller (ω × Journal)} (h31 : s.core.dicr.getLsbD 31 = false)
    (h : writeChannelControl dev.traced (rounds.map fun round => round.map Elapse.counted) ch val mask s = some s') :
    ∃ l, Completions l ∧ Accounts s.core s'.core l := by
  have hquiet {c : Core (ω × Journal)} (hq : Quiet s.core c) : ∃ l, Completions l ∧ Accounts s.core c l :=
    ⟨[], List.forall_mem_nil _, hq.accounts⟩
  unfold writeChannelControl tryExecute at h
  dsimp only at h
  split_ifs at h
  · rw [← Option.some.inj h]
    exact hquiet ⟨rfl, rfl⟩
  · rw [← Option.some.inj h]
    exact hquiet ⟨rfl, rfl⟩
  · rw [← Option.some.inj h]
    have hkicked : Quiet s.core (kicked ch { s with core := s.core.writeChcr ch val mask }).core := ⟨rfl, rfl⟩
    obtain ⟨l, hl, hacc⟩ := (execute_runs dev rounds ch _).accounts dev (hkicked.accounts.account.stored h31)
    exact ⟨l, hl, hkicked.accounts.trans hacc⟩
  · rw [← Option.some.inj h]
    have hwritten : Quiet s.core (s.core.writeChcr ch val mask) := ⟨rfl, rfl⟩
    exact hquiet (hwritten.trans (cancelAsync_calm ch _).quiet)

theorem access_accounts {a : Access ω} {s s' : Controller (ω × Journal)} (h31 : s.core.dicr.getLsbD 31 = false)
    (h : access dev.traced s a.counted = some s') : ∃ l, a.Leaves l ∧ Accounts s.core s'.core l := by
  cases a with
  | pass e =>
    rw [← Option.some.inj h]
    exact (elapse_runs dev e s).accounts dev h31
  | write addr val mask rounds =>
    have hother (hne : register addr ≠ .dicr) (h : ∃ l, Completions l ∧ Accounts s.core s'.core l) :
        ∃ l, (Access.write addr val mask rounds).Leaves l ∧ Accounts s.core s'.core l := by
      simpa only [Access.Leaves, if_neg hne] using h
    have hquiet (hne : register addr ≠ .dicr) (hq : Quiet s.core s'.core) :
        ∃ l, (Access.write addr val mask rounds).Leaves l ∧ Accounts s.core s'.core l :=
      hother hne ⟨[], List.forall_mem_nil _, hq.accounts⟩
    simp only [access, Access.counted, dmaWriteMasked] at h
    cases hreg : register addr with
    | dpcr | madr ch | bcr ch | unmapped =>
      simp only [hreg] at h
      rw [← Option.some.inj h] at hquiet ⊢
      exact hquiet (by rw [hreg]; exact Register.noConfusion) ⟨rfl, rfl⟩
    | dicr =>
      simp only [hreg] at h
      obtain ⟨m, hm, hacc⟩ := writeDicr_accounts dev val mask h31
      rw [← Option.some.inj h]
      exact ⟨[m], (if_pos hreg).mpr (congrArg (fun e => [e]) hm), hacc⟩
    | chcr ch =>
      simp only [hreg] at h
      exact hother (by rw [hreg]; exact Register.noConfusion) (writeChannelControl_accounts dev h31 h)

/-! ## The law -/

/-- A run of accesses; the guest and the other devices do not touch the journal. -/
def runAccesses (accesses : List (Access ω)) (s : Controller (ω × Journal)) : Option (Controller (ω × Journal)) :=
  accesses.foldlM (fun s a => access dev.traced s a.counted) s

theorem runAccesses_accounts (accesses : List (Access ω)) {s s' : Controller (ω × Journal)}
    (h31 : s.core.dicr.getLsbD 31 = false) (h : runAccesses dev accesses s = some s') :
    ∃ l, Accounts s.core s'.core l := by
  induction accesses generalizing s with
  | nil =>
    rw [← Option.some.inj h]
    exact ⟨[], Quiet.accounts ⟨rfl, rfl⟩⟩
  | cons a accesses ih =>
    unfold runAccesses at h
    rw [List.foldlM_cons] at h
    obtain ⟨s₁, ha, hrest⟩ := Option.bind_eq_some_iff.1 h
    obtain ⟨l, -, hacc⟩ := access_accounts dev h31 ha
    obtain ⟨l', hacc'⟩ := ih (hacc.account.stored h31) hrest
    exact ⟨l ++ l', hacc.trans hacc'⟩

end Law

/-- From `dma_init` on, the journal accounts for DICR and for every interrupt: it holds the completions and the writes to
DICR in their order, line 3 is raised at those that bring bit 31 up, and each keeps the law. An access enters its own
write, or the completions made in it. -/
theorem dicr_law {ω : Type*} (dev : Devices ω) (world : ω) (accesses : List (Access ω)) {s : Controller (ω × Journal)}
    (hrun : runAccesses dev accesses (dmaInit (world, ⟨0, []⟩)) = some s) :
    s.core.dicr.getLsbD 31 = false ∧
      Account 0 0 s.core.world.2.moments s.core.dicr s.core.world.2.raises ∧
      ∀ (a : Access ω) s', access dev.traced s a.counted = some s' →
        ∃ l, s'.core.world.2.moments = s.core.world.2.moments ++ l ∧ a.Leaves l ∧
          Account s.core.dicr s.core.world.2.raises l s'.core.dicr s'.core.world.2.raises := by
  obtain ⟨l, hmoments, haccount⟩ := runAccesses_accounts dev accesses BitVec.getLsbD_zero hrun
  have h31 := haccount.stored BitVec.getLsbD_zero
  rw [show s.core.world.2.moments = l from hmoments]
  refine ⟨h31, haccount, fun a s' ha => ?_⟩
  obtain ⟨l', hleaves, hmoments', haccount'⟩ := access_accounts dev h31 ha
  exact ⟨l', by rw [hmoments', hmoments]; rfl, hleaves, haccount'⟩

def acknowledged : List (Access Unit) :=
  [.write 0x1F8010F0 0x08800000 0xFFFFFFFF [], .write 0x1F8010F4 0x00E00000 0x00FF0000 [],
    .write 0x1F8010E4 2 0xFFFFFFFF [], .write 0x1F8010E8 0x11000002 0xFFFFFFFF [],
    .write 0x1F8010F4 0x40E00000 0xFFFFFFFF [], .write 0x1F8010E8 0x11000002 0xFFFFFFFF [],
    .write 0x1F8010D4 1 0xFFFFFFFF [], .write 0x1F8010D8 0x11000001 0xFFFFFFFF []]

/-- Channels 5 and 6 complete while they are armed, and the flags are acknowledged between: the second completion raises the
line again, the third finds bit 31 up. -/
theorem dicr_law_acknowledged : ∃ s : Controller (Unit × Journal),
    runAccesses silentDevices acknowledged (dmaInit ((), ⟨0, []⟩)) = some s ∧
      s.core.dicr = 0x60E00000 ∧ s.core.world.2.raises = 2 ∧
      s.core.world.2.moments.map Moment.event = [.write 0x00E00000 0x00FF0000, .complete 6, .write 0x40E00000 0xFFFFFFFF,
        .complete 6, .complete 5] ∧
      Account 0 0 s.core.world.2.moments s.core.dicr s.core.world.2.raises :=
  ⟨_, (Option.some_get (by decide)).symm, by decide, by decide, by decide,
    (dicr_law silentDevices () acknowledged (Option.some_get (by decide)).symm).2.1⟩

/-- The guest and the other devices do not touch the count. -/
def Counting {ω : Type*} (_ : Controller (ω × ℕ)) (a : Access (ω × ℕ)) : Prop := ∃ b : Access ω, a = b.counted

end PsxRecomp.Dma
