import Mathlib
import PsxRecomp.Dma.Records

/-! In which runs a busy channel has a transfer under way, and an idle one has none. -/
namespace PsxRecomp.Dma
open Transducer
set_option autoImplicit false

variable {ω : Type*} (dev : Devices ω)

/-! ## Records stay sound -/

structure Controller.Sound (s : Controller ω) : Prop where
  core : s.core.Sound
  list : s.list.Sound

theorem cancelAsync_setMdec (i : Fin 2) (a : Async) (c : Core ω) :
    (c.setMdec i a).cancelAsync (mdecChannel i) = c.cancelAsync (mdecChannel i) := by
  match i with
  | 0 => simp [Core.cancelAsync, Core.setMdec, Core.setDelayed]
  | 1 => simp [Core.cancelAsync, Core.setMdec, Core.setDelayed]

theorem Core.Sound.finishMdec {c : Core ω} (h : c.Sound) (i : Fin 2) (a : Async) :
    (finishAsyncMdecTransfer dev i (c.setMdec i a)).Sound := by
  unfold finishAsyncMdecTransfer
  rw [cancelAsync_setMdec]
  exact (h.cancelAsync _).complete dev _

theorem Core.Sound.finishCdrom {c : Core ω} (h : c.Sound) (a : Async) (w : ω)
    (addr : BitVec 32) : (finishAsyncCdromTransfer dev addr (c.setCdrom a w)).Sound := by
  unfold finishAsyncCdromTransfer
  refine Core.Sound.complete dev ?_ 3
  refine ⟨h.mdec, Async.idle_sound, ?_⟩
  rw [cancelAsync_delayed]
  exact update_sound h.delayed Delayed.idle_sound

theorem Core.Sound.advanceMdec {c : Core ω} (h : c.Sound) (i : Fin 2) (cycles : ℕ) :
    (advanceMdecChannel dev i cycles c).Sound := by
  obtain ⟨c₁, a, hs, -, ⟨he, ha⟩ | he⟩ := advanceMdec_cases dev i cycles c (h.mdec i)
  · rw [he]
    exact (h.same hs).setMdec ha i
  · rw [he]
    exact (h.same hs).finishMdec dev i a

theorem Core.Sound.advanceCdrom {c : Core ω} (h : c.Sound) (cycles : ℕ) :
    (advanceCdrom dev cycles c).Sound := by
  obtain ⟨c₁, a, w, hs, -, ⟨he, ha⟩ | ⟨addr, he⟩⟩ := advanceCdrom_cases dev cycles c h.cdrom
  · rw [he]
    exact ⟨(h.same hs).mdec, ha, (h.same hs).delayed⟩
  · rw [he]
    exact (h.same hs).finishCdrom dev a w addr

theorem Core.Sound.advanceDelayedComplete {c : Core ω} (h : c.Sound) (ch : Fin 7) (cycles : ℕ) :
    (advanceDelayedComplete dev ch cycles c).Sound := by
  obtain he | ⟨hact, ⟨n, hpos, hle, he⟩ | he⟩ := advanceDelayed_cases dev ch cycles c
  · rw [he]
    exact h
  · rw [he]
    have hlimit := ((h.delayed ch).cycles hact).2
    refine h.setDelayed (Or.inr ?_) ch
    exact ⟨hact, hpos, lt_of_le_of_lt hle hlimit⟩
  · rw [he]
    exact (h.setDelayed Delayed.idle_sound ch).complete dev ch

theorem foldl_keeps {α β : Type*} {P : α → Prop} {f : α → β → α} (h : ∀ a b, P a → P (f a b))
    (l : List β) {a : α} (ha : P a) : P (l.foldl f a) := by
  induction l generalizing a with
  | nil => exact ha
  | cons b l ih => exact ih (h a b ha)

theorem Core.Sound.advanceDelayed {c : Core ω} (h : c.Sound) (cycles : ℕ) :
    (advanceDelayed dev cycles c).Sound :=
  foldl_keeps (P := Core.Sound) (fun _ ch h => h.advanceDelayedComplete dev ch cycles) _ h

theorem Controller.Sound.advanceList {s : Controller ω} (h : s.Sound) (cycles : ℕ) :
    (advanceList dev cycles s).Sound := by
  refine ⟨?_, ?_⟩
  · obtain he | ⟨-, ⟨-, hs⟩ | ⟨-, c₁, hs, hs'⟩⟩ := advanceList_cases dev cycles s
    · rw [he]
      exact h.core
    · exact h.core.same hs
    · exact ((h.core.same hs).complete dev 2).same hs'
  · unfold Dma.advanceList
    split
    · exact h.list.advance dev _ cycles s.core
    · exact h.list

theorem Controller.Sound.dmaAdvance {s : Controller ω} (h : s.Sound) (cycles : ℕ) :
    (dmaAdvance dev cycles s).Sound := by
  unfold Dma.dmaAdvance
  split
  · exact h
  · have hmdec := (h.core.advanceMdec dev 0 cycles).advanceMdec dev 1 cycles
    have hlist := Controller.Sound.advanceList dev (s := { s with core := _ }) ⟨hmdec, h.list⟩ cycles
    exact ⟨(hlist.core.advanceCdrom dev cycles).advanceDelayed dev cycles, hlist.list⟩

theorem Controller.Sound.elapse {s : Controller ω} (h : s.Sound) (e : Elapse ω) :
    (elapse dev s e).Sound := by
  unfold Dma.elapse
  refine Controller.Sound.dmaAdvance dev ?_ e.cycles
  exact ⟨h.core.same (.world _ _), h.list⟩

/-! ## Starts of sound records -/

theorem transferWordCount_pos (c : Core ω) {ch : Fin 7} (h : ch ≠ 3) :
    0 < transferWordCount dev c ch := by
  unfold transferWordCount
  rw [if_neg (fun h' => h h'.1)]
  dsimp only
  split_ifs <;> first | omega | exact Nat.mul_pos (by omega) (by omega)

/-- A start of channel 2 moves at most what its length was checked for. -/
theorem gpuWords_le (c : Core ω) (hv : lengthValid dev c 2) : gpuWords c ≤ maxTransferWords := by
  unfold lengthValid transferWordCount at hv
  unfold gpuWords
  split_ifs with h₁ h₂ h₃
  · rw [if_neg (by simp), if_pos h₁, h₁] at hv
    have hle : blockSize c 2 * blockCount c 2 ≤
        (if blockSize c 2 = 0 then 0x10000 else blockSize c 2) *
          (if blockCount c 2 = 0 then 1 else blockCount c 2) :=
      Nat.mul_le_mul (by split <;> omega) (by split <;> omega)
    rcases hv with hv | hv
    · exact absurd hv.2 (by decide)
    · exact hle.trans hv
  · exact Nat.zero_le _
  · decide
  · rw [if_neg (by simp), if_neg h₁, if_neg h₃] at hv
    rcases hv with hv | hv
    · exact absurd (Or.inr hv.2) h₂
    · exact hv

theorem executeCh2Gpu_same (c : Core ω) : SameRecords c (executeCh2Gpu dev c).2 := by
  unfold executeCh2Gpu
  split_ifs
  · exact SameRecords.moved c 2 _
  · exact SameRecords.refl c
  · exact SameRecords.refl c
  · exact SameRecords.moved c 2 _

theorem executeCh2Gpu_words (c : Core ω) : (executeCh2Gpu dev c).1 = gpuWords c := by
  unfold executeCh2Gpu
  split_ifs with h₀ h₁ h₂
  · rfl
  · rw [gpuWords, if_neg h₁, if_pos (Or.inl h₀)]
  · rw [gpuWords, h₂, if_neg (by decide), if_pos (Or.inr rfl)]
  · rfl

theorem executeCh4Spu_same (c : Core ω) : SameRecords c (executeCh4Spu dev c).2 := by
  unfold executeCh4Spu
  dsimp only
  split
  · exact SameRecords.moved c 4 _
  · exact SameRecords.moved c 4 _

theorem executeCh4Spu_words (c : Core ω) :
    (executeCh4Spu dev c).1 = transferWordCount dev c 4 := by
  unfold executeCh4Spu
  dsimp only
  split <;> rfl

theorem Core.Sound.startMdec {c : Core ω} (h : c.Sound) (i : Fin 2)
    (hv : transferWordCount dev c (mdecChannel i) ≤ maxTransferWords) :
    (startAsyncMdecTransfer dev i c).Sound := by
  unfold startAsyncMdecTransfer
  split
  · exact h
  · have hne : mdecChannel i ≠ 3 := (ne_mdecChannel i (by decide)).symm
    exact h.setMdec (Or.inr ⟨rfl, transferWordCount_pos dev c hne, hv⟩) i

theorem Core.Sound.schedule {c : Core ω} (h : c.Sound) (ch : Fin 7) {words cyclesPerWord : ℕ}
    (hlimit : words * cyclesPerWord < uint32Limit) :
    (scheduleDelayedComplete dev ch words cyclesPerWord c).Sound := by
  unfold scheduleDelayedComplete
  split
  · exact h.complete dev ch
  · rename_i hz
    rw [not_or] at hz
    have hpos : 0 < words * cyclesPerWord :=
      Nat.mul_pos (Nat.pos_of_ne_zero hz.1) (Nat.pos_of_ne_zero hz.2)
    refine h.setDelayed (Or.inr ⟨rfl, ?_, ?_⟩) ch
    · exact lt_min hpos (by decide)
    · exact lt_of_le_of_lt (min_le_left _ _) hlimit

theorem Core.Sound.executeCdrom {c : Core ω} (h : c.Sound)
    (hv : transferWordCount dev c 3 ≤ maxTransferWords) : (executeCh3Cdrom dev c).Sound := by
  unfold executeCh3Cdrom startAsyncCdromTransfer
  dsimp only
  split_ifs with hdir hact hwords
  · exact h.congr rfl rfl rfl
  · exact h
  · refine Core.Sound.complete dev ?_ 3
    refine ⟨h.mdec, Async.idle_sound, ?_⟩
    rw [cancelAsync_delayed]
    exact update_sound h.delayed Delayed.idle_sound
  · exact ⟨h.mdec, Or.inr ⟨rfl, Nat.pos_of_ne_zero hwords, hv⟩, h.delayed⟩

theorem Controller.Sound.startList {s : Controller ω} (h : s.Sound) :
    (startAsyncGpuLinkedList dev s).Sound := by
  unfold startAsyncGpuLinkedList
  split
  · exact h
  · exact ⟨h.core, LinkedList.start_sound _ _⟩

theorem Controller.Sound.hold {s : Controller ω} (h : s.Sound) (rounds : List (List (Elapse ω))) :
    (holdCpuForGpuLinkedList dev rounds s).Sound := by
  induction rounds generalizing s with
  | nil => exact h
  | cons round rounds ih =>
    have hround : (round.foldl (Dma.elapse dev) s).Sound :=
      foldl_keeps (P := Controller.Sound) (fun _ e h => h.elapse dev e) round h
    rw [holdCpuForGpuLinkedList]
    dsimp only
    split
    · split
      · exact hround
      · exact ih hround
    · exact h

theorem Controller.Sound.execute {s : Controller ω} (h : s.Sound)
    (rounds : List (List (Elapse ω))) (ch : Fin 7) (hv : lengthValid dev s.core ch) :
    (execute dev rounds ch s).Sound := by
  have hwords (hch : ch ≠ 2) : transferWordCount dev s.core ch ≤ maxTransferWords :=
    hv.resolve_left fun h2 => hch h2.1
  match ch, hv with
  | 0, _ => exact ⟨h.core.startMdec dev 0 (hwords (by decide)), h.list⟩
  | 1, _ => exact ⟨h.core.startMdec dev 1 (hwords (by decide)), h.list⟩
  | 2, hv =>
    show Controller.Sound (if _ then _ else _)
    split
    · exact Controller.Sound.hold dev (h.startList dev) rounds
    · refine ⟨(h.core.same (executeCh2Gpu_same dev s.core)).schedule dev 2 ?_, h.list⟩
      have hle := gpuWords_le dev s.core hv
      rw [executeCh2Gpu_words]
      simp only [maxTransferWords, gpuCyclesPerWord, uint32Limit] at hle ⊢
      omega
  | 3, _ => exact ⟨h.core.executeCdrom dev (hwords (by decide)), h.list⟩
  | 4, hv =>
    refine ⟨(h.core.same (executeCh4Spu_same dev s.core)).schedule dev 4 ?_, h.list⟩
    have hle := hwords (by decide)
    rw [executeCh4Spu_words]
    simp only [maxTransferWords, spuCyclesPerWord, uint32Limit] at hle ⊢
    omega
  | 5, _ => exact ⟨(h.core.same (.moved _ 5 _)).complete dev 5, h.list⟩
  | 6, _ => exact ⟨(h.core.same (.world _ _)).complete dev 6, h.list⟩

/-! ## Accesses -/

/-- What a register write does when it is not one to DPCR or a CHCR. -/
theorem write_cases {s s' : Controller ω} {rounds : List (List (Elapse ω))}
    {addr val mask : BitVec 32} (h : dmaWriteMasked dev rounds addr val mask s = some s') :
    (register addr = .dpcr ∧
        s' = { s with core := { s.core with dpcr := masked s.core.dpcr val mask } }) ∨
      (∃ ch, register addr = .chcr ch ∧ writeChannelControl dev rounds ch val mask s = some s') ∨
      ∃ c, SameRecords s.core c ∧ s' = { s with core := c } := by
  unfold dmaWriteMasked at h
  dsimp only at h
  split at h
  case h_1 hr => exact Or.inl ⟨hr, (Option.some.inj h).symm⟩
  case h_2 =>
    refine Or.inr (Or.inr ⟨_, ?_, (Option.some.inj h).symm⟩)
    unfold writeDicr
    dsimp only
    generalize masked s.core.dicr val (dicrWriteMask &&& mask) &&&
      ~~~(val &&& (dicrResetMask &&& mask)) = dicr
    obtain ⟨world, he⟩ := raise_eq dev s.core.dicr { s.core with dicr := dicr }
    rw [he]
    exact ⟨rfl, rfl, rfl, rfl, rfl⟩
  case h_3 =>
    refine Or.inr (Or.inr ⟨_, ?_, (Option.some.inj h).symm⟩)
    exact SameRecords.setChannel _ _ _ fun _ => rfl
  case h_4 =>
    refine Or.inr (Or.inr ⟨_, ?_, (Option.some.inj h).symm⟩)
    exact SameRecords.setChannel _ _ _ fun _ => rfl
  case h_5 ch hr => exact Or.inr (Or.inl ⟨ch, hr, h⟩)
  case h_6 => exact Or.inr (Or.inr ⟨s.core, .refl _, (Option.some.inj h).symm⟩)

theorem kicked_same (ch : Fin 7) (s : Controller ω) : SameRecords s.core (kicked ch s).core := by
  unfold kicked
  dsimp only
  refine SameRecords.setChannel _ _ _ ?_
  intro r
  simp

/-- A write to a CHCR leaves the transfer alone, cancels it, or starts the channel. -/
theorem control_cases {s s' : Controller ω} {rounds : List (List (Elapse ω))} {ch : Fin 7}
    {val mask : BitVec 32} (h : writeChannelControl dev rounds ch val mask s = some s') :
    let t := { s with core := s.core.writeChcr ch val mask }
    (mask.getLsbD 24 = false ∧ s' = t) ∨
      (mask.getLsbD 24 = true ∧ t.core.busy ch = false ∧ s' = cancelAsyncTransfer ch t) ∨
      (mask.getLsbD 24 = true ∧ t.core.busy ch = true ∧
        ((t.core.channelEnabled ch = false ∧ s' = t) ∨
          (t.core.channelEnabled ch = true ∧ lengthValid dev (kicked ch t).core ch ∧
            s' = execute dev rounds ch (kicked ch t)))) := by
  intro t
  unfold writeChannelControl at h
  dsimp only at h
  split_ifs at h with hmask hbusy
  · exact Or.inl ⟨hmask, (Option.some.inj h).symm⟩
  · rw [Bool.not_eq_false] at hmask
    refine Or.inr (Or.inr ⟨hmask, hbusy, ?_⟩)
    unfold tryExecute at h
    split_ifs at h with hoff hvalid
    · have hen : t.core.channelEnabled ch = false :=
        hoff.resolve_left (by rw [Bool.not_eq_false]; exact hbusy)
      exact Or.inl ⟨hen, (Option.some.inj h).symm⟩
    · rw [not_or, Bool.not_eq_false, Bool.not_eq_false] at hoff
      exact Or.inr ⟨hoff.2, hvalid, (Option.some.inj h).symm⟩
  · rw [Bool.not_eq_false] at hmask
    rw [Bool.not_eq_true] at hbusy
    exact Or.inr (Or.inl ⟨hmask, hbusy, (Option.some.inj h).symm⟩)

/-- Whatever happens to the controller, its records stay sound. -/
theorem Controller.Sound.access {s s' : Controller ω} (h : s.Sound) (a : Access ω)
    (ha : access dev s a = some s') : s'.Sound := by
  cases a with
  | pass e =>
    cases ha
    exact h.elapse dev e
  | write addr val mask rounds =>
    obtain ⟨-, rfl⟩ | ⟨ch, -, hc⟩ | ⟨c, hs, rfl⟩ := write_cases dev ha
    · exact ⟨⟨h.core.mdec, h.core.cdrom, h.core.delayed⟩, h.list⟩
    · have hwritten : (s.core.writeChcr ch val mask).Sound :=
        ⟨h.core.mdec, h.core.cdrom, h.core.delayed⟩
      obtain ⟨-, rfl⟩ | ⟨-, -, rfl⟩ | ⟨-, -, ⟨-, rfl⟩ | ⟨-, hv, rfl⟩⟩ := control_cases dev hc
      · exact ⟨hwritten, h.list⟩
      · refine ⟨hwritten.cancelAsync ch, ?_⟩
        unfold cancelAsyncTransfer
        dsimp only
        split
        · exact LinkedList.zero_sound
        · exact h.list
      · exact ⟨hwritten, h.list⟩
      · refine Controller.Sound.execute dev ?_ rounds ch hv
        exact ⟨hwritten.same (kicked_same ch { s with core := _ }), h.list⟩
    · exact ⟨h.core.same hs, h.list⟩

theorem dmaInit_sound (w : ω) : (dmaInit w).Sound :=
  ⟨⟨fun _ => Async.idle_sound, Async.idle_sound, fun _ => Delayed.idle_sound⟩,
    LinkedList.zero_sound⟩

theorem Reaches.sound {ok : Controller ω → Access ω → Prop} {s : Controller ω}
    (h : Reaches dev ok s) : s.Sound :=
  h.invariant dev dmaInit_sound fun _ _ a hs _ ha => hs.access dev a ha

/-! ## Liveness of a channel -/

/-- A record stands only on a busy channel, a busy and enabled channel has one, and never two. -/
structure LiveStatus (ch : Fin 7) (enabled : Bool) (st : Status) : Prop where
  busy : (st.async || st.delayed) = true → st.busy = true
  carried : st.busy = true → enabled = true → (st.async || st.delayed) = true
  single : (st.async && st.delayed) = false
  channel : st.delayed = true → ch = 2 ∨ ch = 4

def Core.Live (c : Core ω) (walking : Bool) : Prop :=
  ∀ ch, LiveStatus ch (c.channelEnabled ch) (c.status walking ch)

def Controller.Live (s : Controller ω) : Prop := s.core.Live s.list.active

theorem LiveStatus.ended (ch : Fin 7) (enabled : Bool) :
    LiveStatus ch enabled { busy := false, async := false, delayed := false } := by
  refine ⟨?_, ?_, ?_, ?_⟩ <;> simp

theorem Core.Live.congr {c c' : Core ω} {w : Bool} (h : c.Live w) (hd : c'.dpcr = c.dpcr)
    (hs : c'.status = c.status) : c'.Live w := by
  intro ch
  unfold Core.channelEnabled
  rw [hd, hs]
  exact h ch

/-- Only the channel `ch` changed, and its new status is live. -/
theorem Core.live_of_update {c c' : Core ω} {w w' : Bool} {ch : Fin 7}
    (h : ∀ j ≠ ch, LiveStatus j (c.channelEnabled j) (c.status w j))
    (hd : c'.dpcr = c.dpcr) (hs : ∀ j ≠ ch, c'.status w' j = c.status w j)
    (hch : LiveStatus ch (c.channelEnabled ch) (c'.status w' ch)) : c'.Live w' := by
  intro j
  unfold Core.channelEnabled at h hch ⊢
  rw [hd]
  by_cases hj : j = ch
  · rw [hj]
    exact hch
  · rw [hs j hj]
    exact h j hj

theorem Core.Live.same {c c' : Core ω} {w : Bool} (h : c.Live w) (hs : SameRecords c c') :
    c'.Live w := h.congr hs.dpcr hs.status

/-- A channel whose records are cleared and whose busy bit falls is at rest. -/
theorem Core.Live.finish {c : Core ω} {w : Bool} (h : c.Live w) {ch : Fin 7} (hch : ch ≠ 2) :
    (completeTransfer dev ch (c.cancelAsync ch)).Live w := by
  refine Core.live_of_update (fun j (_ : j ≠ ch) => h j) ?_ ?_ ?_
  · rw [completeTransfer_dpcr, cancelAsync_dpcr]
  · intro j hj
    rw [status_finish dev w ch j hch, if_neg hj]
  · rw [status_finish dev w ch ch hch, if_pos rfl]
    exact LiveStatus.ended ch _

/-- A delayed completion is alone on its channel. -/
theorem Core.Live.complete {c : Core ω} {w : Bool} (h : c.Live w) {ch : Fin 7}
    (hact : (c.delayed ch).active = true) :
    (completeTransfer dev ch (c.setDelayed ch .idle)).Live w := by
  have hasync : c.asyncActive w ch = false := by
    have hsingle := (h ch).single
    simpa [Core.status, hact] using hsingle
  have hst : ∀ j, (completeTransfer dev ch (c.setDelayed ch .idle)).status w j =
      if j = ch then { busy := false, async := false, delayed := false } else c.status w j := by
    intro j
    rw [status_completeTransfer, status_setDelayed]
    by_cases hj : j = ch
    · simp [hj, Core.status, hasync, Delayed.idle]
    · simp [hj]
  refine Core.live_of_update (fun j (_ : j ≠ ch) => h j) ?_ (fun j hj => ?_) ?_
  · rw [completeTransfer_dpcr]
    rfl
  · rw [hst, if_neg hj]
  · rw [hst, if_pos rfl]
    exact LiveStatus.ended ch _

theorem Core.Live.advanceMdec {c : Core ω} {w : Bool} (h : c.Live w) (hs : c.Sound) (i : Fin 2)
    (cycles : ℕ) : (advanceMdecChannel dev i cycles c).Live w := by
  have hset : ∀ (c₁ : Core ω) (a : Async), SameRecords c c₁ → a.active = (c.mdec i).active →
      (c₁.setMdec i a).Live w := by
    intro c₁ a h₁ ha
    refine (h.same h₁).congr rfl (status_setMdec_same i a c₁ ?_)
    rw [ha, h₁.mdec]
  obtain ⟨c₁, a, h₁, ha, ⟨he, -⟩ | he⟩ := advanceMdec_cases dev i cycles c (hs.mdec i)
  · rw [he]
    exact hset c₁ a h₁ ha
  · rw [he]
    exact (hset c₁ a h₁ ha).finish dev (ne_mdecChannel i (by decide)).symm

theorem status_setCdrom (c : Core ω) (a : Async) (world : ω) (h : a.active = c.cdrom.active) :
    (c.setCdrom a world).status = c.status := by
  funext w ch
  unfold Core.status Core.setCdrom Core.busy Core.asyncActive
  rw [h]

theorem status_setCdrom_ne {w : Bool} {j : Fin 7} (c : Core ω) (a : Async) (hj : j ≠ 3) :
    ({ c with cdrom := a } : Core ω).status w j = c.status w j := by
  match j, hj with
  | 0, _ | 1, _ | 2, _ | 4, _ | 5, _ | 6, _ => rfl

theorem Core.Live.advanceCdrom {c : Core ω} {w : Bool} (h : c.Live w) (hs : c.Sound)
    (cycles : ℕ) : (advanceCdrom dev cycles c).Live w := by
  have hset : ∀ (c₁ : Core ω) (a : Async) (world : ω), SameRecords c c₁ →
      a.active = c.cdrom.active → (c₁.setCdrom a world).Live w := by
    intro c₁ a world h₁ ha
    refine (h.same h₁).congr rfl (status_setCdrom c₁ a world ?_)
    rw [ha, h₁.cdrom]
  obtain ⟨c₁, a, world, h₁, ha, ⟨he, -⟩ | ⟨addr, he⟩⟩ := advanceCdrom_cases dev cycles c hs.cdrom
  · rw [he]
    exact hset c₁ a world h₁ ha
  · rw [he]
    refine Core.Live.finish dev ?_ (by decide)
    exact (hset c₁ a world h₁ ha).same (SameRecords.setChannel _ _ _ fun _ => rfl)

theorem Core.Live.advanceDelayedComplete {c : Core ω} {w : Bool} (h : c.Live w) (ch : Fin 7)
    (cycles : ℕ) : (advanceDelayedComplete dev ch cycles c).Live w := by
  obtain he | ⟨hact, ⟨n, -, -, he⟩ | he⟩ := advanceDelayed_cases dev ch cycles c
  · rw [he]
    exact h
  · rw [he]
    refine h.congr rfl ?_
    funext w j
    rw [status_setDelayed]
    split
    case isTrue hj => rw [hj]; rfl
    case isFalse => rfl
  · rw [he]
    exact h.complete dev hact

theorem Core.Live.advanceDelayed {c : Core ω} {w : Bool} (h : c.Live w) (cycles : ℕ) :
    (advanceDelayed dev cycles c).Live w :=
  foldl_keeps (P := fun c => Core.Live c w)
    (fun _ ch h => h.advanceDelayedComplete dev ch cycles) _ h

theorem Controller.Live.advanceList {s : Controller ω} (h : s.Live) (cycles : ℕ) :
    (advanceList dev cycles s).Live := by
  obtain he | ⟨hact, ⟨hact', hs⟩ | ⟨hact', c₁, hs, hs'⟩⟩ := advanceList_cases dev cycles s
  · rw [he]
    exact h
  · unfold Controller.Live
    rw [hact', ← hact]
    exact Core.Live.same h hs
  · have hdelayed : (c₁.delayed 2).active = false := by
      have hsingle := (h 2).single
      rw [hs.delayed]
      simpa [Core.status, Core.asyncActive, hact] using hsingle
    have hst : ∀ j, (completeTransfer dev 2 c₁).status false j =
        if j = 2 then { busy := false, async := false, delayed := false }
        else s.core.status s.list.active j := by
      intro j
      rw [status_completeTransfer]
      by_cases hj : j = 2
      · simp [hj, Core.status, Core.asyncActive, hdelayed]
      · rw [if_neg hj, if_neg hj, ← hs.status]
        unfold Core.status
        fin_cases j
        all_goals first | exact absurd rfl hj | rfl
    unfold Controller.Live
    rw [hact']
    refine Core.Live.same ?_ hs'
    refine Core.live_of_update (fun j (_ : j ≠ 2) => h j) ?_ (fun j hj => ?_) ?_
    · rw [completeTransfer_dpcr, hs.dpcr]
    · rw [hst, if_neg hj]
    · rw [hst, if_pos rfl]
      exact LiveStatus.ended 2 _

theorem Controller.Live.dmaAdvance {s : Controller ω} (h : s.Live) (hs : s.Sound) (cycles : ℕ) :
    (dmaAdvance dev cycles s).Live := by
  unfold Dma.dmaAdvance
  split
  · exact h
  · have hmdec := (Core.Live.advanceMdec dev h hs.core 0 cycles).advanceMdec dev
      (hs.core.advanceMdec dev 0 cycles) 1 cycles
    have hsound : Controller.Sound ⟨advanceMdecChannel dev 1 cycles
        (advanceMdecChannel dev 0 cycles s.core), s.list⟩ :=
      ⟨(hs.core.advanceMdec dev 0 cycles).advanceMdec dev 1 cycles, hs.list⟩
    have hlist := Controller.Live.advanceList dev (s := { s with core := _ }) hmdec cycles
    exact (Core.Live.advanceCdrom dev hlist (hsound.advanceList dev cycles).core
      cycles).advanceDelayed dev cycles

theorem Controller.Live.elapse {s : Controller ω} (h : s.Live) (hs : s.Sound) (e : Elapse ω) :
    (elapse dev s e).Live := by
  unfold Dma.elapse
  refine Controller.Live.dmaAdvance dev ?_ ?_ e.cycles
  · exact Core.Live.same h (.world _ _)
  · exact ⟨hs.core.same (.world _ _), hs.list⟩

theorem Controller.Live.hold {s : Controller ω} (h : s.Live) (hs : s.Sound)
    (rounds : List (List (Elapse ω))) : (holdCpuForGpuLinkedList dev rounds s).Live := by
  induction rounds generalizing s with
  | nil => exact h
  | cons round rounds ih =>
    have hround := foldl_keeps (P := fun s : Controller ω => s.Live ∧ s.Sound)
      (fun s e h => ⟨h.1.elapse dev h.2 e, h.2.elapse dev e⟩) round ⟨h, hs⟩
    rw [holdCpuForGpuLinkedList]
    dsimp only
    split
    · split
      · exact hround.1
      · exact ih hround.1 hround.2
    · exact h

/-! ## Starts -/

/-- What a start of channel 2 or 3 must find: it does not share the channel with the record of
another transfer. -/
def StartClear (c : Core ω) (walking : Bool) (ch : Fin 7) : Prop :=
  (ch = 2 → if c.listMode then (c.delayed 2).active = false
    else walking = false ∧ (gpuWords c = 0 → (c.delayed 2).active = false)) ∧
  (ch = 3 → c.fromRam 3 = true → c.cdrom.active = false)

/-- The state in which a started channel is handed to its device: only that channel may still be
without a record. -/
structure Core.Starting (c : Core ω) (w : Bool) (ch : Fin 7) : Prop where
  others : ∀ j ≠ ch, LiveStatus j (c.channelEnabled j) (c.status w j)
  busy : c.busy ch = true
  single : (c.asyncActive w ch && (c.delayed ch).active) = false
  channel : (c.delayed ch).active = true → ch = 2 ∨ ch = 4

theorem LiveStatus.started (ch : Fin 7) (enabled : Bool) :
    LiveStatus ch enabled { busy := true, async := true, delayed := false } := by
  refine ⟨?_, ?_, ?_, ?_⟩ <;> simp

theorem LiveStatus.deferred {ch : Fin 7} (hch : ch = 2 ∨ ch = 4) (enabled : Bool) :
    LiveStatus ch enabled { busy := true, async := false, delayed := true } := by
  refine ⟨?_, ?_, ?_, fun _ => hch⟩ <;> simp

section Starting
variable {c : Core ω} {w : Bool} {ch : Fin 7}

theorem Core.Starting.same {c' : Core ω} (h : c.Starting w ch) (hs : SameRecords c c') :
    c'.Starting w ch := by
  have hst := congrFun (congrFun hs.status w)
  refine ⟨fun j hj => ?_, ?_, ?_, ?_⟩
  · unfold Core.channelEnabled
    rw [hs.dpcr, hst]
    exact h.others j hj
  · exact (congrArg Status.busy (hst ch)).trans h.busy
  · have hasync := congrArg Status.async (hst ch)
    simp only [Core.status] at hasync
    rw [hasync, hs.delayed]
    exact h.single
  · rw [hs.delayed]
    exact h.channel

theorem Core.Starting.no_delayed (h : c.Starting w ch) (h2 : ch ≠ 2) (h4 : ch ≠ 4) :
    (c.delayed ch).active = false := by
  by_contra hne
  rw [Bool.not_eq_false] at hne
  exact (h.channel hne).elim h2 h4

/-- The start ends with the status `st` of its channel. -/
theorem Core.Starting.live {c' : Core ω} {w' : Bool} (h : c.Starting w ch)
    (hd : c'.dpcr = c.dpcr) (hs : ∀ j ≠ ch, c'.status w' j = c.status w j) {st : Status}
    (hst : c'.status w' ch = st) (hlive : LiveStatus ch (c.channelEnabled ch) st) : c'.Live w' :=
  Core.live_of_update h.others hd hs (hst ▸ hlive)

theorem Core.Starting.startMdec {i : Fin 2} (h : c.Starting w (mdecChannel i)) :
    (startAsyncMdecTransfer dev i c).Live w := by
  have hdelayed := h.no_delayed (ne_mdecChannel i (by decide)).symm
    (ne_mdecChannel i (by decide)).symm
  have hbusy := h.busy
  unfold startAsyncMdecTransfer
  split
  case isTrue hact =>
    refine h.live rfl (fun _ _ => rfl) ?_ (LiveStatus.started _ _)
    simp [Core.status, asyncActive_mdec, hact, hdelayed, hbusy]
  case isFalse hact =>
    refine h.live rfl (fun j hj => ?_) ?_ (LiveStatus.started _ _)
    · rw [status_setMdec, if_neg hj]
    · rw [status_setMdec, if_pos rfl]
      simp [Core.status, hdelayed, hbusy]

theorem Core.Starting.complete (h : c.Starting w ch) (hasync : c.asyncActive w ch = false)
    (hdelayed : (c.delayed ch).active = false) : (completeTransfer dev ch c).Live w := by
  refine h.live (completeTransfer_dpcr dev ch c) (fun j hj => ?_) ?_ (LiveStatus.ended _ _)
  · rw [status_completeTransfer, if_neg hj]
  · rw [status_completeTransfer, if_pos rfl]
    simp [Core.status, hasync, hdelayed]

theorem Core.Starting.schedule (h : c.Starting w ch) (hch : ch = 2 ∨ ch = 4)
    (hasync : c.asyncActive w ch = false) {words cyclesPerWord : ℕ} (hcost : cyclesPerWord ≠ 0)
    (hnone : words = 0 → (c.delayed ch).active = false) :
    (scheduleDelayedComplete dev ch words cyclesPerWord c).Live w := by
  unfold scheduleDelayedComplete
  split
  case isTrue hz => exact h.complete dev hasync (hnone (hz.resolve_right hcost))
  case isFalse hz =>
    refine h.live rfl (fun j hj => ?_) ?_ (LiveStatus.deferred hch _)
    · rw [status_setDelayed, if_neg hj]
    · have hbusy := h.busy
      rw [status_setDelayed, if_pos rfl]
      simp [Core.status, hasync, hbusy]

theorem Core.Starting.executeCdrom (h : c.Starting w 3)
    (hclear : c.fromRam 3 = true → c.cdrom.active = false) : (executeCh3Cdrom dev c).Live w := by
  have hdelayed := h.no_delayed (by decide) (by decide)
  have hbusy := h.busy
  unfold executeCh3Cdrom startAsyncCdromTransfer
  dsimp only
  split_ifs with hdir hact hwords
  · refine h.live rfl (fun j hj => ?_) ?_ (LiveStatus.ended _ _)
    · rw [status_clearBusy, if_neg hj]
    · rw [status_clearBusy, if_pos rfl]
      simp [Core.status, Core.asyncActive, hclear hdir, hdelayed]
  · refine h.live rfl (fun _ _ => rfl) ?_ (LiveStatus.started _ _)
    simp [Core.status, Core.asyncActive, hact, hdelayed, hbusy]
  · refine h.live ?_ (fun j hj => ?_) ?_ (LiveStatus.ended _ _)
    · rw [completeTransfer_dpcr, cancelAsync_dpcr]
    · rw [status_finish dev w 3 j (by decide), if_neg hj]
      exact status_setCdrom_ne c _ hj
    · rw [status_finish dev w 3 3 (by decide), if_pos rfl]
  · refine h.live rfl (fun j hj => ?_) ?_ (LiveStatus.started _ _)
    · exact status_setCdrom_ne c _ hj
    · simp only [Core.status, Core.asyncActive, hdelayed]
      exact congrArg (fun b => Status.mk b true false) hbusy

theorem Core.Starting.startList (h : c.Starting w 2) (hdelayed : (c.delayed 2).active = false) :
    c.Live true := by
  have hbusy := h.busy
  refine h.live rfl (fun j hj => ?_) ?_ (LiveStatus.started _ _)
  · match j, hj with
    | 0, _ | 1, _ | 3, _ | 4, _ | 5, _ | 6, _ => rfl
  · simp [Core.status, Core.asyncActive, hdelayed, hbusy]

end Starting

theorem Controller.Live.startList {s : Controller ω} (h : s.core.Starting s.list.active 2)
    (hdelayed : (s.core.delayed 2).active = false) : (startAsyncGpuLinkedList dev s).Live := by
  have hlive := h.startList hdelayed
  unfold startAsyncGpuLinkedList
  split
  case isTrue hact =>
    rw [← hact] at hlive
    exact hlive
  case isFalse => exact hlive

theorem Core.Starting.executeGpu {c : Core ω} (h : c.Starting false 2)
    (hnone : gpuWords c = 0 → (c.delayed 2).active = false) :
    (scheduleDelayedComplete dev 2 (executeCh2Gpu dev c).1 gpuCyclesPerWord
      (executeCh2Gpu dev c).2).Live false := by
  have hsame := executeCh2Gpu_same dev c
  refine (h.same hsame).schedule dev (Or.inl rfl) rfl (by decide) ?_
  rw [executeCh2Gpu_words, hsame.delayed]
  exact hnone

/-- A start of channel 2: the display list walks, or the words are moved and completion waits. -/
theorem Controller.Live.executeGpu {s : Controller ω} (h : s.core.Starting s.list.active 2)
    (hs : s.Sound) (hclear : StartClear s.core s.list.active 2)
    (rounds : List (List (Elapse ω))) : (execute dev rounds 2 s).Live := by
  have hclear := hclear.1 rfl
  rw [execute]
  split
  case isTrue hlist =>
    rw [if_pos hlist] at hclear
    exact Controller.Live.hold dev (Controller.Live.startList dev h hclear) (hs.startList dev) rounds
  case isFalse hlist =>
    rw [if_neg hlist] at hclear
    rw [hclear.1] at h
    have hlive := h.executeGpu dev hclear.2
    rw [← hclear.1] at hlive
    exact hlive

theorem Core.Starting.executeSpu {c : Core ω} {w : Bool} (h : c.Starting w 4) :
    (scheduleDelayedComplete dev 4 (executeCh4Spu dev c).1 spuCyclesPerWord
      (executeCh4Spu dev c).2).Live w := by
  refine (h.same (executeCh4Spu_same dev c)).schedule dev (Or.inr rfl) rfl (by decide) ?_
  intro hz
  rw [executeCh4Spu_words] at hz
  exact absurd hz (transferWordCount_pos dev c (by decide)).ne'

theorem Core.Starting.executePio {c : Core ω} {w : Bool} (h : c.Starting w 5) :
    (executeCh5Pio dev c).Live w :=
  (h.same (.moved _ 5 _)).complete dev rfl (h.no_delayed (by decide) (by decide))

theorem Core.Starting.executeOtc {c : Core ω} {w : Bool} (h : c.Starting w 6) :
    (executeCh6Otc dev c).Live w :=
  (h.same (.world _ _)).complete dev rfl (h.no_delayed (by decide) (by decide))

theorem Controller.Live.execute {s : Controller ω} {ch : Fin 7}
    (h : s.core.Starting s.list.active ch) (hs : s.Sound)
    (hclear : StartClear s.core s.list.active ch) (rounds : List (List (Elapse ω))) :
    (execute dev rounds ch s).Live := by
  fin_cases ch
  · have h0 : s.core.Starting s.list.active (mdecChannel 0) := h
    exact h0.startMdec dev
  · have h1 : s.core.Starting s.list.active (mdecChannel 1) := h
    exact h1.startMdec dev
  · exact Controller.Live.executeGpu dev h hs hclear rounds
  · exact Core.Starting.executeCdrom dev h (hclear.2 rfl)
  · exact Core.Starting.executeSpu dev h
  · exact Core.Starting.executePio dev h
  · exact Core.Starting.executeOtc dev h

/-! ## Runs -/

/-- Some record of the channel is active. -/
def recorded (s : Controller ω) (ch : Fin 7) : Bool :=
  s.core.asyncActive s.list.active ch || (s.core.delayed ch).active

/-- No write to DPCR enables a busy channel that was never started, and no start of channel 2 or 3
finds the record of another transfer on its channel. -/
def Unobstructed (s : Controller ω) : Access ω → Prop
  | .pass _ => True
  | .write addr val mask _ =>
    match register addr with
    | .dpcr => ∀ ch : Fin 7, s.core.busy ch = true →
        (masked s.core.dpcr val mask).getLsbD (ch.val * 4 + 3) = true → recorded s ch = true
    | .chcr ch =>
      let t : Controller ω := { s with core := s.core.writeChcr ch val mask }
      mask.getLsbD 24 = true → t.core.busy ch = true → t.core.channelEnabled ch = true →
        StartClear (kicked ch t).core s.list.active ch
    | _ => True

theorem masked_unmasked {old val mask : BitVec 32} {n : ℕ} (hn : n < 32)
    (h : mask.getLsbD n = false) : (masked old val mask).getLsbD n = old.getLsbD n := by
  unfold masked
  simp only [BitVec.getLsbD_or, BitVec.getLsbD_and, BitVec.getLsbD_not, h, hn]
  simp

/-- A write to a CHCR changes the status of its channel in the busy bit only. -/
theorem status_writeChcr (w : Bool) (ch j : Fin 7) (val mask : BitVec 32) (c : Core ω) :
    (c.writeChcr ch val mask).status w j =
      { c.status w j with busy := (c.writeChcr ch val mask).busy j } := rfl

theorem busy_writeChcr_ne {ch j : Fin 7} (hj : j ≠ ch) (val mask : BitVec 32) (c : Core ω) :
    (c.writeChcr ch val mask).busy j = c.busy j := by
  rw [Core.writeChcr, busy_setChannel, if_neg hj]

theorem status_writeChcr_ne (w : Bool) {ch j : Fin 7} (hj : j ≠ ch) (val mask : BitVec 32)
    (c : Core ω) : (c.writeChcr ch val mask).status w j = c.status w j := by
  rw [status_writeChcr, busy_writeChcr_ne hj]
  rfl

theorem Controller.Live.cancel {s : Controller ω} {ch : Fin 7}
    (h : ∀ j ≠ ch, LiveStatus j (s.core.channelEnabled j) (status s j))
    (hbusy : s.core.busy ch = false) : (cancelAsyncTransfer ch s).Live := by
  unfold Controller.Live cancelAsyncTransfer
  dsimp only
  refine Core.live_of_update h (cancelAsync_dpcr ch s.core) (fun j hj => ?_) ?_
  · rw [status_cancelAsync, if_neg hj]
    by_cases hch : ch = 2
    · subst hch
      match j, hj with
      | 0, _ | 1, _ | 3, _ | 4, _ | 5, _ | 6, _ => rfl
    · rw [if_neg (fun hl => hch hl.1)]
  · rw [status_cancelAsync, if_pos rfl, hbusy]
    by_cases hch : ch = 2
    · subst hch
      have hoff : (if (2 : Fin 7) = 2 ∧ s.list.active = true then LinkedList.zero
          else s.list).active = false := by
        split
        · rfl
        · simp_all
      rw [hoff, Bool.and_false]
      exact LiveStatus.ended 2 _
    · simp only [hch, decide_false, Bool.false_and]
      exact LiveStatus.ended ch _

theorem Controller.Live.control {s s' : Controller ω} (h : s.Live) (hs : s.Sound)
    {rounds : List (List (Elapse ω))} {ch : Fin 7} {val mask : BitVec 32}
    (hc : writeChannelControl dev rounds ch val mask s = some s')
    (hclear : mask.getLsbD 24 = true → (s.core.writeChcr ch val mask).busy ch = true →
      (s.core.writeChcr ch val mask).channelEnabled ch = true →
      StartClear (kicked ch { s with core := s.core.writeChcr ch val mask }).core
        s.list.active ch) : s'.Live := by
  have hothers : ∀ j ≠ ch, LiveStatus j (s.core.channelEnabled j)
      ((s.core.writeChcr ch val mask).status s.list.active j) := by
    intro j hj
    rw [status_writeChcr_ne _ hj]
    exact h j
  obtain ⟨hm, rfl⟩ | ⟨-, hbusy, rfl⟩ | ⟨hm, hbusy, ⟨hoff, rfl⟩ | ⟨hon, -, rfl⟩⟩ :=
    control_cases dev hc
  · have hsame : SameRecords s.core (s.core.writeChcr ch val mask) := by
      unfold Core.writeChcr
      refine SameRecords.setChannel _ _ _ ?_
      intro r
      exact masked_unmasked (by decide) hm
    exact Core.Live.same h hsame
  · exact Controller.Live.cancel hothers hbusy
  · -- a start while the channel is disabled only sets the busy bit
    refine Core.live_of_update hothers rfl (fun _ _ => rfl) ?_
    have hch := h ch
    refine ⟨fun _ => hbusy, fun _ hen => ?_, hch.single, hch.channel⟩
    exact absurd hen (by simpa using hoff)
  · have hstart : (s.core.writeChcr ch val mask).Starting s.list.active ch :=
      ⟨hothers, hbusy, (h ch).single, (h ch).channel⟩
    have hkick := kicked_same ch { s with core := s.core.writeChcr ch val mask }
    refine Controller.Live.execute dev ?_ ?_ (hclear hm hbusy hon) rounds
    · exact hstart.same hkick
    · exact ⟨⟨hs.core.mdec, hs.core.cdrom, hs.core.delayed⟩, hs.list⟩

theorem Controller.Live.access {s s' : Controller ω} (h : s.Live) (hs : s.Sound) {a : Access ω}
    (hok : Unobstructed s a) (ha : access dev s a = some s') : s'.Live := by
  cases a with
  | pass e =>
    cases ha
    exact h.elapse dev hs e
  | write addr val mask rounds =>
    unfold Unobstructed at hok
    dsimp only at hok
    obtain ⟨hr, rfl⟩ | ⟨ch, hr, hc⟩ | ⟨c, hsame, rfl⟩ := write_cases dev ha
    · rw [hr] at hok
      intro ch
      have hch := h ch
      exact ⟨hch.busy, fun hb hen => hok ch hb hen, hch.single, hch.channel⟩
    · rw [hr] at hok
      exact h.control dev hs hc hok
    · exact Core.Live.same h hsame

theorem dmaInit_live (w : ω) : (dmaInit w).Live := by
  intro ch
  have hbusy : (dmaInit w).core.busy ch = false := by
    simp [dmaInit, Core.busy]
  have hasync : (dmaInit w).core.asyncActive (dmaInit w).list.active ch = false := by
    fin_cases ch <;> rfl
  rw [Core.status, hbusy, hasync]
  exact LiveStatus.ended ch _

theorem Reaches.live {s : Controller ω} (h : Reaches dev Unobstructed s) : s.Live := by
  have hboth : s.Live ∧ s.Sound := @Reaches.invariant _ dev _ (fun s => s.Live ∧ s.Sound)
    (fun w => ⟨dmaInit_live w, dmaInit_sound w⟩)
    (fun _ _ a hi hok ha => ⟨hi.1.access dev hi.2 hok ha, hi.2.access dev a ha⟩) s h
  exact hboth.1

/-- The words, or the cycles, that the records of a channel still have before them. -/
def leftover (s : Controller ω) : Fin 7 → ℕ
  | 0 => (s.core.mdec 0).remainingWords
  | 1 => (s.core.mdec 1).remainingWords
  | 2 => (if s.list.active then s.list.cyclesRemaining else 0) + (s.core.delayed 2).cyclesRemaining
  | 3 => s.core.cdrom.remainingWords
  | ch => (s.core.delayed ch).cyclesRemaining

/-- A record is active only on a busy channel and has work left; a busy and enabled channel has
one; an idle channel keeps no count that a later start would resume. -/
structure ChannelsLive (s : Controller ω) : Prop where
  busy : ∀ ch, recorded s ch = true → s.core.busy ch = true
  carried : ∀ ch, s.core.busy ch = true → s.core.channelEnabled ch = true → recorded s ch = true
  unfinished : ∀ ch, recorded s ch = true → 0 < leftover s ch
  idle : ∀ ch, s.core.busy ch = false → leftover s ch = 0

theorem Async.Sound.resting {a : Async} (h : a.Sound) (ha : a.active = false) :
    a.remainingWords = 0 := by
  rcases h with rfl | h
  · rfl
  · simp [h.1] at ha

theorem Delayed.Sound.resting {d : Delayed} (h : d.Sound) (hd : d.active = false) :
    d.cyclesRemaining = 0 := by
  rcases h with rfl | h
  · rfl
  · simp [h.1] at hd

/-- Work is left on a channel exactly while one of its records is active. -/
theorem leftover_pos_iff {s : Controller ω} (h : s.Live) (hs : s.Sound) (ch : Fin 7) :
    0 < leftover s ch ↔ recorded s ch = true := by
  have hasync : ∀ {a : Async} {j : Fin 7}, a.Sound → j ≠ 2 → j ≠ 4 →
      (0 < a.remainingWords ↔ (a.active || (s.core.delayed j).active) = true) := by
    intro a j ha h2 h4
    have hdelayed : (s.core.delayed j).active = false := by
      by_contra hne
      rw [Bool.not_eq_false] at hne
      exact ((h j).channel hne).elim h2 h4
    rw [hdelayed, Bool.or_false]
    cases hact : a.active
    · simp [ha.resting hact]
    · simp [ha.remaining hact]
  have hdelayed : ∀ j, 0 < (s.core.delayed j).cyclesRemaining ↔
      (s.core.delayed j).active = true := by
    intro j
    cases hact : (s.core.delayed j).active
    · simp [(hs.core.delayed j).resting hact]
    · simp [((hs.core.delayed j).cycles hact).1]
  match ch with
  | 0 => exact hasync (hs.core.mdec 0) (by decide) (by decide)
  | 1 => exact hasync (hs.core.mdec 1) (by decide) (by decide)
  | 2 =>
    have hd := hdelayed 2
    unfold leftover recorded Core.asyncActive
    cases hl : s.list.active
    · simpa using hd
    · simp [(hs.list hl).2]
  | 3 => exact hasync hs.core.cdrom (by decide) (by decide)
  | 4 => exact hdelayed 4
  | 5 => exact hdelayed 5
  | 6 => exact hdelayed 6

/-- Every run whose accesses are unobstructed keeps the channels live. -/
theorem channels_live {s : Controller ω} (h : Reaches dev Unobstructed s) : ChannelsLive s := by
  have hlive := h.live
  have hleft := leftover_pos_iff hlive h.sound
  refine ⟨fun ch => (hlive ch).busy, fun ch => (hlive ch).carried, fun ch => (hleft ch).2, ?_⟩
  intro ch hb
  by_contra hne
  have hrec := (hleft ch).1 (Nat.pos_of_ne_zero hne)
  have hbusy := (hlive ch).busy hrec
  rw [show s.core.busy ch = true from hbusy] at hb
  cases hb

/-- Devices that keep nothing: every word reads as zero and no FIFO is ever ready. -/
def silentDevices : Devices Unit where
  ramAddr a := a &&& 0x001FFFFC
  resolveAddress a := a &&& 0x001FFFFC
  readWord _ _ := 0
  writeWord w _ _ := w
  mdecWriteReady _ := false
  mdecReadReady _ := false
  mdecWriteWord w _ := w
  mdecReadWord w := (0, w)
  cdromReady w := (false, w)
  cdromRead w := (0, w)
  cdromSectorWords _ := 512
  gpuRead w := (0, w)
  gpuWrite w _ _ := w
  gpuHeader w _ _ := w
  gpuBeginNode w _ _ := w
  spuRead w := (0, w)
  spuWrite w _ := w
  raiseIrq w := w
  traceComplete w _ _ _ := w
  traceRegWrite w _ _ _ _ := w
  mdecWordsPerJob := 1
  job_pos := Nat.one_pos
  job_small := by decide

theorem channels_live_spu : ∃ s : Controller Unit,
    Reaches silentDevices Unobstructed s ∧ recorded s 4 = true ∧ ChannelsLive s := by
  have h0 : Reaches silentDevices Unobstructed (dmaInit ()) := .init ()
  -- the channel is enabled, given two words and started
  have h1 := h0.next silentDevices (.write 0x1F8010F0 0x000F0000 0xFFFFFFFF [])
    (fun ch hb => absurd hb (by simp [dmaInit, Core.busy])) (by decide)
  have h2 := h1.next silentDevices (.write 0x1F8010C4 2 0xFFFFFFFF []) trivial (by decide)
  have h3 := h2.next silentDevices (.write 0x1F8010C8 0x01000201 0xFFFFFFFF [])
    (fun _ _ _ => ⟨fun h => absurd h (by decide), fun h => absurd h (by decide)⟩) (by decide)
  exact ⟨_, h3, by decide, channels_live silentDevices h3⟩

/-- Over all runs it fails: a channel started while DPCR had it disabled stays busy without any
transfer once DPCR enables it. -/
theorem enabled_late_stuck : ¬∀ s : Controller Unit,
    Reaches silentDevices (fun _ _ => True) s → ChannelsLive s := by
  intro h
  have h0 : Reaches silentDevices (fun _ _ => True) (dmaInit ()) := .init ()
  have h1 := h0.next silentDevices (.write 0x1F8010E8 0x11000002 0xFFFFFFFF []) trivial (by decide)
  have h2 := h1.next silentDevices (.write 0x1F8010F0 0x0F654321 0xFFFFFFFF []) trivial (by decide)
  have hcarried := (h _ h2).carried 6 (by decide) (by decide)
  exact absurd hcarried (by decide)

end PsxRecomp.Dma
