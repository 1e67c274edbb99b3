import Mathlib
import PsxRecomp.Cdrom.Settled

/-! How long the controller raises nothing by itself. Either a response holds its slot, and its
presentation is the only thing that can raise; or the slot is free, and each countdown is as long
as what it leads to is away. One cycle takes one off both, and a run of cycles as many. -/
namespace PsxRecomp.Cdrom
set_option autoImplicit false

/-! ## The estimate -/

/-- `cycles_until_due` -/
def cyclesUntilDue (now due : ℕ) : ℕ := if due = 0 ∨ due ≤ now then 0 else min (due - now) 0x7FFFFFFF

/-- `UINT32_MAX`: nothing is due. -/
def neverDue : ℕ := 0xFFFFFFFF

/-- An armed response awaiting presentation. -/
def armedCountdown (env : Env) (s : Controller) : ℕ :=
  if maskMatchesReason s.line.enable s.line.flag then cyclesUntilDue env.now s.line.presentDue
  else neverDue

/-- The second response; once due it waits for the slot. -/
def secondCountdown (env : Env) (s : Controller) : ℕ :=
  if s.pending.pending then
    if env.now < s.pending.due then cyclesUntilDue env.now s.pending.due
    else if s.line.flag = 0#8 then 0
    else neverDue
  else neverDue

/-- The scheduled release of a waiting notification. -/
def waitingCountdown (env : Env) (s : Controller) : ℕ :=
  if s.waiting.presentDue ≠ 0 then cyclesUntilDue env.now s.waiting.presentDue else neverDue

/-- The next sector of an active read. -/
def readCountdown (env : Env) (s : Controller) : ℕ :=
  if s.read.reading ∧ warmRouteConsumerBlocked env s = false ∧ 0 < s.read.delay then
    s.read.delay.toNat
  else neverDue

/-- `cdrom_cycles_to_irq` -/
def cdromCyclesToIrq (env : Env) (iMask : BitVec 32) (s : Controller) : ℕ :=
  if iMask &&& 4#32 = 0#32 then neverDue
  else min neverDue (min (armedCountdown env s) (min (secondCountdown env s)
    (min (waitingCountdown env s) (readCountdown env s))))

/-! ## Single cycles -/

/-- `cdrom_advance(1)` so many times, the image staying in the drive. -/
def stepCycles (disc : Option Disc) (dma : ℕ → Bool) (now : ℕ) : ℕ → Controller → Controller
  | 0, s => s
  | k + 1, s => cdromAdvance ⟨now + (k + 1), disc, dma (k + 1)⟩ 1 (stepCycles disc dma now k s)

def Event.isRaise : Event → Bool
  | .raise .. => true
  | _ => false

def raises (log : List Event) : ℕ := log.countP Event.isRaise

/-- Before so many cycles have passed; at any time, where nothing is due. -/
def Within (k bound : ℕ) : Prop := bound = neverDue ∨ k < bound

/-- No cycle before the estimate raises the interrupt, whatever the transfers do meanwhile. -/
def NeverLate (env : Env) (iMask : BitVec 32) (s : Controller) : Prop :=
  ∀ (dma : ℕ → Bool) (k : ℕ), Within k (cdromCyclesToIrq env iMask s) →
    raises (stepCycles env.disc dma env.now k s).log = raises s.log

/-! ## Playback by itself -/

/-- A sector that is reported. -/
def Reported (mode : Byte) (lba : BitVec 32) : Prop :=
  mode &&& 0x04#8 ≠ 0#8 ∧ (lbaToMsf lba.toInt 150).f % 10 = 0

/-- The address lies behind its track. -/
def TrackOver (image : Disc) (track : ℤ) (lba : BitVec 32) : Prop :=
  ¬(cddaTrackEndLba image track ≠ 0 ∧ lba.toNat < (cddaTrackEndLba image track).toNat)

instance (image : Disc) (track : ℤ) (lba : BitVec 32) : Decidable (TrackOver image track lba) :=
  inferInstanceAs (Decidable ¬_)

/-- Playback does not go on into another track. -/
def LastTrack (image : Disc) (mode : Byte) (track : ℤ) : Prop :=
  mode &&& 0x02#8 ≠ 0#8 ∨ track + 1 > image.cddaTrackCount ∨
    image.cddaTrackIsAudio (track + 1) = false

/-- The sector played at a position gives a response: its report, or the end of data. -/
def Speaks (image : Disc) (mode : Byte) (p : ℤ × BitVec 32) : Prop :=
  Reported mode p.2 ∨ TrackOver image p.1 (p.2 + 1) ∧ LastTrack image mode p.1

/-- The position behind a sector that gives none. -/
def nextPosition (image : Disc) (p : ℤ × BitVec 32) : ℤ × BitVec 32 :=
  (if TrackOver image p.1 (p.2 + 1) then p.1 + 1 else p.1, p.2 + 1)

def Controller.position (s : Controller) : ℤ × BitVec 32 := (s.cdda.track, s.cdda.lba)

/-- No sector played gives a response that would be presented before so many cycles. -/
structure Silent (image : Disc) (n : ℕ) (s : Controller) : Prop where
  playing : s.cdda.playing = true → 0 < s.cdda.delay
  sectors : s.cdda.playing = true → ∀ m : ℕ,
    Speaks image s.mode ((nextPosition image)^[m] s.position) →
      (n : ℤ) ≤ s.cdda.delay + m * singleSpeedSectorCycles + 5000

/-- An end of data waits to be told. -/
def EndPending (s : Controller) : Prop := s.cdda.dataEndPending = true ∨ s.xa.dataEndPending = true

/-! ## The slot is taken -/

/-- The response in the slot is not presented before so many cycles. -/
structure Held (now n : ℕ) (s : Controller) : Prop where
  taken : s.line.flag ≠ 0#8
  due : maskMatchesReason s.line.enable s.line.flag = true →
    s.line.latched = true ∨ now + n ≤ s.line.presentDue

/-- Nothing happened to the line. -/
structure Unraised (s t : Controller) : Prop where
  line : t.line = s.line
  log : ∃ es, t.log = es ++ s.log ∧ ∀ e ∈ es, e.side = true

variable {s t u : Controller} {env : Env} {image : Disc} {now n r : ℕ}

theorem Quiet.unraised (h : Quiet s t) : Unraised s t := ⟨h.line, h.log⟩

theorem Unraised.refl (s : Controller) : Unraised s s := (Quiet.refl s).unraised

theorem Unraised.trans (h : Unraised s t) (h' : Unraised t u) : Unraised s u where
  line := h'.line.trans h.line
  log := by
    obtain ⟨es, he, hes⟩ := h.log
    obtain ⟨es', he', hes'⟩ := h'.log
    refine ⟨es' ++ es, ?_, fun e hmem => (List.mem_append.1 hmem).elim (hes' e) (hes e)⟩
    rw [he', he, List.append_assoc]

/-- A change of other parts. -/
theorem Unraised.set (h : Unraised s t) (hline : u.line = t.line) (hlog : u.log = t.log) :
    Unraised s u :=
  h.trans ⟨hline, [], hlog, fun _ h => absurd h List.not_mem_nil⟩

theorem Unraised.emit {e : Event} (h : Unraised s t) (hline : u.line = t.line)
    (hlog : u.log = e :: t.log) (he : e.side = true) : Unraised s u :=
  h.trans ⟨hline, [e], hlog, fun _ h => List.mem_singleton.1 h ▸ he⟩

theorem raises_side {es log : List Event} (hes : ∀ e ∈ es, e.side = true) :
    raises (es ++ log) = raises log := by
  unfold raises
  rw [List.countP_append, Nat.add_eq_right, List.countP_eq_zero]
  intro e he hraise
  have hside := hes e he
  cases e with
  | raise => cases hside
  | _ => cases hraise

theorem Unraised.raises (h : Unraised s t) : raises t.log = raises s.log := by
  obtain ⟨es, he, hes⟩ := h.log
  rw [he, raises_side hes]

theorem Held.unraised (h : Held now n s) (hu : Unraised s t) : Held now n t := by
  refine ⟨?_, ?_⟩
  · rw [hu.line]
    exact h.taken
  · rw [hu.line]
    exact h.due

/-- A response that is not due, or not enabled, is not presented. -/
theorem Held.presentIrq (h : Held env.now n s) (hn : 0 < n) : presentIrq env s = s := by
  unfold Cdrom.presentIrq
  split
  case isTrue => rfl
  case isFalse hdue =>
    split
    case isTrue hraise =>
      rcases h.due hraise.1 with hlatched | hlater
      · exact Bool.noConfusion (hlatched.symm.trans hraise.2)
      · exact absurd ⟨by omega, by omega⟩ hdue
    case isFalse => rfl

theorem unraised_processLid (hflag : s.line.flag ≠ 0#8) : Unraised s (processLid env s) := by
  unfold processLid presentLidOpen
  rw [if_pos (.inr hflag)]
  exact (quiet_closeLid env s).unraised

theorem unraised_releaseWaiting (hflag : s.line.flag ≠ 0#8) :
    Unraised s (releaseWaiting env s) := by
  unfold releaseWaiting presentWaiting
  split
  · rw [if_pos (.inr hflag)]
    exact (Unraised.refl s).set rfl rfl
  · exact Unraised.refl s

theorem unraised_sectorDue (hflag : s.line.flag ≠ 0#8) : Unraised s (sectorDue env s) := by
  have hread := fun continuation => (Quiet.refl s).deliverReadSectorWithoutIrq env continuation
  unfold sectorDue
  rw [if_neg hflag]
  split
  · exact (hread true).unraised
  · dsimp only
    split
    · have hwaits : Event.waits.side = true := rfl
      exact (hread false).countLost.unraised.emit rfl rfl hwaits
    · exact (hread false).unraised

theorem unraised_processReadStream (cycles : BitVec 32) (hflag : s.line.flag ≠ 0#8) :
    Unraised s (processReadStream env cycles s) := by
  unfold processReadStream
  split
  · exact Unraised.refl s
  · split
    · exact (Unraised.refl s).set rfl rfl
    · dsimp only
      have hpass : Unraised s (passRead cycles s) := (Unraised.refl s).set rfl rfl
      split
      · have hdue : Unraised (passRead cycles s) (sectorDue env (passRead cycles s)) :=
          unraised_sectorDue hflag
        exact (hpass.trans hdue).set rfl rfl
      · exact hpass

theorem unraised_deliverCddaDataEnd (hflag : s.line.flag ≠ 0#8) :
    deliverCddaDataEnd env s = s := if_pos (.inr hflag)

theorem unraised_cddaTrackEnd (env : Env) (hflag : s.line.flag ≠ 0#8) : Unraised s (cddaTrackEnd env s) := by
  unfold cddaTrackEnd
  dsimp only
  split
  · exact Unraised.refl s
  · split
    · have hmark : Unraised s (markCddaEnd (stopCddaPlayback s)) := (Unraised.refl s).set rfl rfl
      have hflag' : (markCddaEnd (stopCddaPlayback s)).line.flag ≠ 0#8 := hflag
      rw [unraised_deliverCddaDataEnd hflag']
      exact hmark
    · exact (Unraised.refl s).set rfl rfl

theorem unraised_pushCdda (pcm : List Frame) (s : Controller) : Unraised s (pushCdda pcm s) :=
  (Unraised.refl s).emit rfl rfl rfl

theorem unraised_cddaSector (hflag : s.line.flag ≠ 0#8) : Unraised s (cddaSector env s) := by
  have hreport : reportSector env (cddaFrames (env.image.readCddaSector s.cdda.lba)) s = s := by
    unfold reportSector deliverCddaReport
    rw [if_pos (Or.inr hflag : _ ∨ s.line.flag ≠ 0#8), ite_self]
  unfold cddaSector
  dsimp only
  rw [hreport]
  exact (unraised_pushCdda _ s).trans (unraised_cddaTrackEnd env hflag)

theorem unraised_cddaLoop (k : ℕ) (hflag : s.line.flag ≠ 0#8) :
    Unraised s (cddaLoop env k s) := by
  induction k generalizing s with
  | zero => exact Unraised.refl s
  | succ k ih =>
    unfold cddaLoop
    split
    · have hsector : Unraised s (cddaSector env s) := unraised_cddaSector hflag
      refine hsector.trans (ih ?_)
      rw [hsector.line]
      exact hflag
    · exact Unraised.refl s

theorem unraised_dropCddaDebt (s : Controller) : Unraised s (dropCddaDebt s) := by
  unfold dropCddaDebt
  split
  · exact (Unraised.refl s).set rfl rfl
  · exact Unraised.refl s

theorem unraised_processCddaStream (cycles : BitVec 32) (hflag : s.line.flag ≠ 0#8) :
    Unraised s (processCddaStream env cycles s) := by
  have hplay : Unraised s
      (if s.cdda.playing then dropCddaDebt (cddaLoop env 16 (passCdda cycles s)) else s) := by
    split
    · have hpass : Unraised s (passCdda cycles s) := (Unraised.refl s).set rfl rfl
      have hloop : Unraised (passCdda cycles s) (cddaLoop env 16 (passCdda cycles s)) :=
        unraised_cddaLoop 16 hflag
      exact (hpass.trans hloop).trans (unraised_dropCddaDebt _)
    · exact Unraised.refl s
  unfold processCddaStream
  rw [unraised_deliverCddaDataEnd (hplay.line ▸ hflag)]
  exact hplay

/-- A cycle with the slot taken. -/
theorem Held.advance (h : Held env.now r s) (hr : 0 < r) (cycles : BitVec 32) :
    Unraised s (cdromAdvance env cycles s) := by
  have htaken : ∀ {t : Controller}, Unraised s t → t.line.flag ≠ 0#8 := fun hu => hu.line ▸ h.taken
  have hlid : Unraised s (processLid env s) := unraised_processLid h.taken
  have hpresent := (h.unraised hlid).presentIrq hr
  have hpending : processPending env (processLid env s) = processLid env s :=
    if_pos (.inr (.inr (htaken hlid)))
  have hqueued : tryExecuteQueued env (processLid env s) = processLid env s :=
    if_pos (.inr (htaken hlid))
  have hfront : Unraised s (advanceFront env s) := by
    unfold advanceFront
    rw [hpresent, hpending, hqueued]
    exact hlid.trans (unraised_releaseWaiting (htaken hlid))
  have hread := hfront.trans (unraised_processReadStream cycles (htaken hfront) : Unraised _ (processReadStream env cycles _))
  have hcdda := hread.trans (unraised_processCddaStream cycles (htaken hread) : Unraised _ (processCddaStream env cycles _))
  have hlast := hcdda.trans (unraised_processLid (htaken hcdda) : Unraised _ (processLid env _))
  have hxa : ∀ {t : Controller}, t.line.flag ≠ 0#8 → deliverXaDataEnd env t = t :=
    fun hflag => if_pos (.inr hflag)
  unfold cdromAdvance
  dsimp only
  rw [hxa (htaken hcdda), (h.unraised hlast).presentIrq hr]
  exact hlast

/-! ## The slot is free -/

/-- Nothing that the estimate counts is due within so many cycles. -/
structure Lull (now n : ℕ) (s : Controller) : Prop where
  free : s.line.flag = 0#8
  lid : s.lidIrqPending = false
  queued : s.queued.pending = false
  second : s.pending.pending = true → now + n ≤ s.pending.due
  waiting : s.waiting.presentDue ≠ 0 → now + n ≤ s.waiting.presentDue
  read : s.read.reading = true →
    (s.warm.active.isSome ∧ s.waiting.dataready) ∨ (n : ℤ) ≤ s.read.delay

/-- Nor anything else. -/
structure Idle (image : Disc) (now n : ℕ) (s : Controller) : Prop extends Lull now n s where
  silent : Silent image n s
  ends : EndPending s → n ≤ 5001

theorem maskMatches_free (enable : Byte) : maskMatchesReason enable 0#8 = false := by
  simp [maskMatchesReason]

theorem presentIrq_free (hfree : s.line.flag = 0#8) : presentIrq env s = s := by
  unfold presentIrq
  rw [hfree, maskMatches_free]
  simp

theorem closeLid_eq (env : Env) (s : Controller) :
    ∃ lid stat, closeLid env s = { s with lid := lid, stat := stat } := by
  unfold closeLid
  split
  · exact ⟨s.lid, s.stat, rfl⟩
  · split
    · exact ⟨s.lid, s.stat, rfl⟩
    · exact ⟨_, _, rfl⟩

theorem processLid_free (hlid : s.lidIrqPending = false) : processLid env s = closeLid env s := by
  unfold processLid presentLidOpen
  rw [if_pos (.inl hlid)]

/-- Nothing is due in a cycle that is not the last one. -/
theorem Lull.nothing_due (h : Lull now (r + 1) s) (hr : 0 < r) (hnow : env.now = now + 1) :
    releaseWaiting env (tryExecuteQueued env (processPending env (presentIrq env s))) = s := by
  have hpending : processPending env s = s := by
    refine if_pos ?_
    cases hp : s.pending.pending with
    | false => exact .inl rfl
    | true =>
      have hdue := h.second hp
      exact .inr (.inl (by omega))
  have hqueued : tryExecuteQueued env s = s := if_pos (.inl h.queued)
  have hwaiting : releaseWaiting env s = s := by
    refine if_neg ?_
    rintro ⟨hset, hdue⟩
    have hlater := h.waiting hset
    omega
  rw [presentIrq_free h.free, hpending, hqueued, hwaiting]

theorem Lull.setLid {lid : Lid} {stat : Byte} (h : Lull now n s) :
    Lull now n { s with lid := lid, stat := stat } :=
  ⟨h.free, h.lid, h.queued, h.second, h.waiting, h.read⟩

theorem Lull.advanceFront (h : Lull now (r + 1) s) (hr : 0 < r) (hnow : env.now = now + 1) :
    advanceFront env s = closeLid env s := by
  obtain ⟨lid, stat, hclose⟩ := closeLid_eq env s
  have hlull : Lull now (r + 1) (closeLid env s) := by
    rw [hclose]
    exact h.setLid
  unfold Cdrom.advanceFront
  rw [processLid_free h.lid]
  exact hlull.nothing_due hr hnow

/-- The read stream counts down, or is held back. -/
theorem Lull.processReadStream (env : Env) (h : Lull now (r + 1) s) (hr : 0 < r) :
    ∃ delay block, processReadStream env 1 s =
        { s with read := { s.read with delay := delay }, accelBlock := block } ∧
      Lull (now + 1) r { s with read := { s.read with delay := delay }, accelBlock := block } := by
  have hlull : ∀ {delay block : ℤ}, (s.read.reading = true →
      (s.warm.active.isSome ∧ s.waiting.dataready) ∨ (r : ℤ) ≤ delay) → Lull (now + 1) r
        { s with read := { s.read with delay := delay }, accelBlock := block } :=
    fun hread => ⟨h.free, h.lid, h.queued,
      fun hp => (by have := h.second hp; omega : now + 1 + r ≤ s.pending.due),
      fun hp => (by have := h.waiting hp; omega : now + 1 + r ≤ s.waiting.presentDue), hread⟩
  unfold Cdrom.processReadStream
  split
  · refine ⟨s.read.delay, s.accelBlock, rfl, hlull fun hreading => ?_⟩
    rcases h.read hreading with hblocked | hdelay
    · exact .inl hblocked
    · exact .inr (by omega)
  case isFalse hactive =>
    push Not at hactive
    obtain ⟨hreading, hopen⟩ := hactive
    have hdelay : ((r + 1 : ℕ) : ℤ) ≤ s.read.delay := by
      rcases h.read (by simpa using hreading) with ⟨hwarm, hready⟩ | hdelay
      · unfold warmRouteConsumerBlocked consumerBehind at hopen
        rw [hwarm, hready] at hopen
        simp at hopen
      · exact hdelay
    split
    · exact ⟨s.read.delay, _, rfl, hlull fun _ => .inr (by omega)⟩
    · dsimp only
      have hone : (1 : BitVec 32).toInt = 1 := by decide
      have hpass : ¬(passRead 1 s).read.delay ≤ 0 := by
        show ¬s.read.delay - (1 : BitVec 32).toInt ≤ 0
        omega
      rw [if_neg hpass]
      exact ⟨_, s.accelBlock, rfl, hlull fun _ => .inr (by omega)⟩

/-! ## A response is given -/

/-- Steady through the rest of a cycle: nothing due, or a response that is presented later. -/
def Steady (image : Disc) (now n : ℕ) (s t : Controller) : Prop :=
  (Lull now n t ∧ Silent image n t ∧ (EndPending t → n ≤ 5000) ∨ Held now n t) ∧
    raises t.log = raises s.log

/-- A response given now is presented 5000 cycles later. -/
theorem presentIrq_setIrq (env : Env) (source : Source) (type : Byte) (s : Controller) :
    presentIrq env (setIrq env source type s) = setIrq env source type s := by
  refine if_pos ⟨Nat.succ_ne_zero _, ?_⟩
  show env.now < env.now + 5000
  omega

theorem raises_response {source : Source} {before type : Byte} {at' : ℕ} {log : List Event} :
    raises (.response source before type at' :: log) = raises log := by
  unfold raises
  exact List.countP_cons_of_neg fun hraise => Bool.noConfusion hraise

theorem respond_held {source : Source} {type : Byte} {bytes : List Byte} (htype : type ≠ 0#8)
    (hn : n ≤ 5000) : Held env.now n (respond env source type bytes s) ∧
      raises (respond env source type bytes s).log = raises s.log := by
  have hpush : Unraised s (responsePushAll bytes (responseClear s)) :=
    ((Quiet.refl s).responseClear.responsePushAll bytes).unraised
  unfold respond
  rw [presentIrq_setIrq]
  refine ⟨⟨htype, fun _ => .inr ?_⟩, raises_response.trans hpush.raises⟩
  show env.now + n ≤ env.now + 5000
  omega

theorem Steady.unraised (h : Steady image now n s t) (hu : Unraised t u)
    (hlull : Lull now n t → Silent image n t → (EndPending t → n ≤ 5000) →
      Lull now n u ∧ Silent image n u ∧ (EndPending u → n ≤ 5000)) : Steady image now n s u := by
  refine ⟨?_, hu.raises.trans h.2⟩
  rcases h.1 with ⟨hl, hs, he⟩ | hheld
  · exact .inl (hlull hl hs he)
  · exact .inr (hheld.unraised hu)

/-- An end of data is told at the end of the cycle. -/
theorem Steady.end_told (h : Steady image env.now n s t) {ending : Prop} [Decidable ending]
    {source : Source} {bytes : List Byte} (hending : ending → EndPending t)
    (hlog : u.log = t.log) : Steady image env.now n s (if ¬ending ∨ t.line.flag ≠ 0#8 then t
      else respond env source irqDataEnd bytes u) := by
  split
  case isTrue => exact h
  case isFalse hc =>
    push Not at hc
    rcases h.1 with ⟨_, _, hend⟩ | hheld
    · have htype : irqDataEnd ≠ 0#8 := by decide
      have hresponse : Held env.now n (respond env source irqDataEnd bytes u) ∧
          raises (respond env source irqDataEnd bytes u).log = raises u.log :=
        respond_held htype (hend (hending hc.1))
      obtain ⟨hheld, hraises⟩ := hresponse
      refine ⟨.inr hheld, hraises.trans ?_⟩
      rw [hlog]
      exact h.2
    · exact absurd hc.2 hheld.taken

theorem Steady.deliverCddaDataEnd (h : Steady image env.now n s t) :
    Steady image env.now n s (deliverCddaDataEnd env t) := by
  have htold : Steady image env.now n s
      (if ¬t.cdda.dataEndPending = true ∨ t.line.flag ≠ 0#8 then t
        else respond env .cddaEnd irqDataEnd [t.stat]
          { t with cdda := { t.cdda with dataEndPending := false } }) := h.end_told .inl rfl
  simp only [Bool.not_eq_true] at htold
  exact htold

theorem Steady.deliverXaDataEnd (h : Steady image env.now n s t) :
    Steady image env.now n s (deliverXaDataEnd env t) := by
  have htold : Steady image env.now n s
      (if ¬t.xa.dataEndPending = true ∨ t.line.flag ≠ 0#8 then t
        else respond env .xaEnd irqDataEnd [t.stat] (clearXaEnd t)) := h.end_told .inr rfl
  simp only [Bool.not_eq_true] at htold
  exact htold

/-! ## A sector is played -/

/-- The loop over the sectors stops behind one. -/
theorem cddaLoop_stop (k : ℕ) (h : ¬(s.cdda.playing = true ∧ s.cdda.delay ≤ 0)) :
    cddaLoop env k s = s := by
  cases k with
  | zero => rfl
  | succ k =>
    unfold cddaLoop
    exact if_neg h

theorem Silent.advance (h : Silent image (r + 1) s) (hplaying : s.cdda.playing = true)
    (hlast : s.cdda.delay = 1) (hmode : t.mode = s.mode) (hnext : t.position = nextPosition image s.position)
    (hdelay : t.cdda.delay = singleSpeedSectorCycles) : Silent image r t := by
  refine ⟨fun _ => ?_, fun _ m hm => ?_⟩
  · rw [hdelay]
    decide
  · rw [hmode, hnext, ← Function.iterate_succ_apply] at hm
    have hbound := h.sectors hplaying (m + 1) hm
    rw [hlast] at hbound
    rw [hdelay]
    push_cast at hbound
    have hsplit : ((m : ℤ) + 1) * singleSpeedSectorCycles =
        singleSpeedSectorCycles + m * singleSpeedSectorCycles := by ring
    omega

theorem Lull.of_eq (h : Lull now n s) (hline : t.line = s.line)
    (hlid : t.lidIrqPending = s.lidIrqPending) (hqueued : t.queued = s.queued)
    (hpending : t.pending = s.pending) (hwaiting : t.waiting = s.waiting)
    (hread : t.read = s.read) (hwarm : t.warm = s.warm) : Lull now n t := by
  refine ⟨?_, ?_, ?_, ?_, ?_, ?_⟩
  · rw [hline]
    exact h.free
  · rw [hlid]
    exact h.lid
  · rw [hqueued]
    exact h.queued
  · rw [hpending]
    exact h.second
  · rw [hwaiting]
    exact h.waiting
  · rw [hread, hwarm, hwaiting]
    exact h.read

theorem reportSector_silent (pcm : List Frame) (h : ¬Reported s.mode s.cdda.lba) :
    reportSector env pcm s = s := by
  unfold reportSector deliverCddaReport
  split
  case isTrue hmode => exact if_pos (.inl fun hframe => h ⟨hmode, hframe⟩)
  case isFalse => rfl

theorem reportSector_reported (pcm : List Frame) (h : Reported s.mode s.cdda.lba)
    (hfree : s.line.flag = 0#8) : reportSector env pcm s =
      respond env .cddaReport irqDataReady (cddaReportBytes env.image pcm s) s := by
  unfold reportSector deliverCddaReport
  rw [if_pos h.1, if_neg]
  rintro (hframe | hflag)
  · exact hframe h.2
  · exact hflag hfree

/-- The end of a track, told or not. -/
theorem Steady.cddaTrackEnd (h : Lull env.now r t) (hraises : raises t.log = raises s.log)
    (hdelay : t.cdda.delay = singleSpeedSectorCycles)
    (hend : EndPending t → r ≤ 5000)
    (hspeaks : TrackOver env.image t.cdda.track t.cdda.lba → LastTrack env.image t.mode t.cdda.track →
      r ≤ 5000)
    (hsilent : ∀ u : Controller, u.mode = t.mode → u.cdda.delay = singleSpeedSectorCycles →
      u.position = (if TrackOver env.image t.cdda.track t.cdda.lba then t.cdda.track + 1
        else t.cdda.track, t.cdda.lba) → Silent env.image r u) :
    Steady env.image env.now r s (cddaTrackEnd env t) := by
  have hgo : ∀ {track : ℤ}, track = (if TrackOver env.image t.cdda.track t.cdda.lba then
      t.cdda.track + 1 else t.cdda.track) → Steady env.image env.now r s
        { t with cdda := { t.cdda with track := track } } := by
    intro track htrack
    refine ⟨.inl ⟨h.of_eq rfl rfl rfl rfl rfl rfl rfl, hsilent _ rfl hdelay ?_, hend⟩, hraises⟩
    exact Prod.ext htrack rfl
  unfold Cdrom.cddaTrackEnd
  dsimp only
  split
  case isTrue hinside => exact hgo (if_neg fun hover => hover hinside).symm
  case isFalse hover =>
    split
    case isTrue hlast =>
      refine Steady.deliverCddaDataEnd ⟨.inl ⟨h.of_eq rfl rfl rfl rfl rfl rfl rfl, ?_, ?_⟩, hraises⟩
      · exact ⟨fun hp => Bool.noConfusion hp, fun hp => Bool.noConfusion hp⟩
      · exact fun _ => hspeaks hover hlast
    case isFalse => exact hgo (if_pos hover).symm

/-- The sector that falls due in this cycle. -/
theorem Lull.cddaSector (h : Lull env.now r s) (hs : Silent env.image (r + 1) s)
    (hend : EndPending s → r ≤ 5000) (hplaying : s.cdda.playing = true)
    (hlast : s.cdda.delay = 1) :
    Steady env.image env.now r s (cddaSector env (passCdda 1 s)) := by
  have hzero : s.cdda.delay - (1 : BitVec 32).toInt = 0 := by
    rw [hlast]
    decide
  have hbound : Speaks env.image s.mode s.position → r ≤ 5000 := by
    intro hspeaks
    have hfirst := hs.sectors hplaying 0 hspeaks
    rw [hlast] at hfirst
    push_cast at hfirst
    omega
  unfold Cdrom.cddaSector
  dsimp only
  generalize cddaFrames (env.image.readCddaSector (passCdda 1 s).cdda.lba) = pcm
  by_cases hreport : Reported s.mode s.cdda.lba
  · -- the report takes the slot, and what follows leaves the line alone
    have hreport : Reported (passCdda 1 s).mode (passCdda 1 s).cdda.lba := hreport
    rw [reportSector_reported pcm hreport h.free]
    have hresponse : Held env.now r (respond env .cddaReport irqDataReady
          (cddaReportBytes env.image pcm (passCdda 1 s)) (passCdda 1 s)) ∧
        raises (respond env .cddaReport irqDataReady
          (cddaReportBytes env.image pcm (passCdda 1 s)) (passCdda 1 s)).log =
          raises (passCdda 1 s).log := respond_held (by decide) (hbound (.inl ‹_›))
    obtain ⟨hheld, hraises⟩ := hresponse
    have hpush := unraised_pushCdda pcm (respond env .cddaReport irqDataReady
      (cddaReportBytes env.image pcm (passCdda 1 s)) (passCdda 1 s))
    have hrest := hpush.trans (unraised_cddaTrackEnd env (hheld.unraised hpush).taken)
    exact ⟨.inr (hheld.unraised hrest), hrest.raises.trans hraises⟩
  · have hsilent : ¬Reported (passCdda 1 s).mode (passCdda 1 s).cdda.lba := hreport
    rw [reportSector_silent pcm hsilent]
    have hdelay : (pushCdda pcm (passCdda 1 s)).cdda.delay = singleSpeedSectorCycles := by
      show s.cdda.delay - (1 : BitVec 32).toInt + singleSpeedSectorCycles = _
      rw [hzero, zero_add]
    have hraises : raises (pushCdda pcm (passCdda 1 s)).log = raises s.log :=
      (unraised_pushCdda pcm (passCdda 1 s)).raises
    refine Steady.cddaTrackEnd (h.of_eq rfl rfl rfl rfl rfl rfl rfl) hraises hdelay hend ?_ ?_
    · exact fun hover htrack => hbound (.inr ⟨hover, htrack⟩)
    · intro u hmode hdelay hposition
      exact hs.advance hplaying hlast hmode hposition hdelay

theorem Lull.processCddaStream (h : Lull env.now r s) (hs : Silent env.image (r + 1) s)
    (hend : EndPending s → r ≤ 5000) :
    Steady env.image env.now r s (processCddaStream env 1 s) := by
  have hone : (1 : BitVec 32).toInt = 1 := by decide
  refine Steady.deliverCddaDataEnd ?_
  split
  case isFalse hplaying =>
    exact ⟨.inl ⟨h, ⟨fun hp => absurd hp hplaying, fun hp => absurd hp hplaying⟩, hend⟩, rfl⟩
  case isTrue hplaying =>
    have hpos := hs.playing hplaying
    have hdrop : ∀ {t : Controller}, Steady env.image env.now r s t →
        Steady env.image env.now r s (dropCddaDebt t) := by
      intro t ht
      refine ht.unraised (unraised_dropCddaDebt t) fun hl hs he => ?_
      rw [show dropCddaDebt t = t from if_neg fun hc => by have := hs.playing hc.1; omega]
      exact ⟨hl, hs, he⟩
    refine hdrop ?_
    by_cases hlast : s.cdda.delay = 1
    · have hsector := h.cddaSector hs hend hplaying hlast
      have hloop : cddaLoop env 16 (passCdda 1 s) =
          cddaLoop env 15 (Cdrom.cddaSector env (passCdda 1 s)) := by
        refine if_pos ⟨hplaying, ?_⟩
        show s.cdda.delay - (1 : BitVec 32).toInt ≤ 0
        omega
      rw [hloop]
      refine ⟨?_, ?_⟩
      · rcases hsector.1 with ⟨hl, hsil, he⟩ | hheld
        · rw [cddaLoop_stop 15 fun hc => by have := hsil.playing hc.1; omega]
          exact .inl ⟨hl, hsil, he⟩
        · exact .inr (hheld.unraised (unraised_cddaLoop 15 hheld.taken))
      · rcases hsector.1 with ⟨hl, hsil, he⟩ | hheld
        · rw [cddaLoop_stop 15 fun hc => by have := hsil.playing hc.1; omega]
          exact hsector.2
        · exact (unraised_cddaLoop 15 hheld.taken).raises.trans hsector.2
    · have hstop : ¬((passCdda 1 s).cdda.playing = true ∧ (passCdda 1 s).cdda.delay ≤ 0) := by
        rintro ⟨_, hdue⟩
        replace hdue : s.cdda.delay - (1 : BitVec 32).toInt ≤ 0 := hdue
        omega
      rw [cddaLoop_stop 16 hstop]
      refine ⟨.inl ⟨h.of_eq rfl rfl rfl rfl rfl rfl rfl, ⟨fun _ => ?_, fun _ m hm => ?_⟩, hend⟩, rfl⟩
      · show 0 < s.cdda.delay - (1 : BitVec 32).toInt
        omega
      · have hbound := hs.sectors hplaying m hm
        show (r : ℤ) ≤ s.cdda.delay - (1 : BitVec 32).toInt + m * singleSpeedSectorCycles + 5000
        push_cast at hbound
        omega

/-! ## Whole cycles -/

theorem Steady.lastLid (h : Steady image env.now r s t) (hr : 0 < r) :
    Steady image env.now r s (presentIrq env (processLid env t)) := by
  rcases h.1 with ⟨hl, hs, he⟩ | hheld
  · obtain ⟨lid, stat, hclose⟩ := closeLid_eq env t
    have hfree : (closeLid env t).line.flag = 0#8 := by
      rw [hclose]
      exact hl.free
    rw [processLid_free hl.lid, presentIrq_free hfree]
    refine h.unraised (quiet_closeLid env t).unraised fun _ _ _ => ?_
    rw [hclose]
    exact ⟨hl.setLid, ⟨hs.playing, hs.sectors⟩, he⟩
  · have hlid : Unraised t (processLid env t) := unraised_processLid hheld.taken
    rw [(hheld.unraised hlid).presentIrq hr]
    exact ⟨.inr (hheld.unraised hlid), hlid.raises.trans h.2⟩

/-- A cycle that is not the last one, with the slot free. -/
theorem Idle.advance (h : Idle env.image now (r + 1) s) (hr : 0 < r) (hnow : env.now = now + 1) :
    Steady env.image env.now r s (cdromAdvance env 1 s) := by
  obtain ⟨lid, stat, hclose⟩ := closeLid_eq env s
  have hfront : advanceFront env s = { s with lid := lid, stat := stat } := by
    rw [h.toLull.advanceFront hr hnow, hclose]
  obtain ⟨delay, block, hread, hlull⟩ :=
    Lull.processReadStream env
      (h.toLull.setLid : Lull now (r + 1) { s with lid := lid, stat := stat }) hr
  rw [← hnow] at hlull
  have hstream := hlull.processCddaStream ⟨h.silent.playing, h.silent.sectors⟩ fun hend => by
    have hle := h.ends hend
    omega
  have hlast := (hstream.deliverXaDataEnd).lastLid hr
  unfold cdromAdvance
  dsimp only
  rw [hfront, hread]
  exact hlast

/-- Nothing is raised within so many cycles. -/
def Unpresented (image : Disc) (now n : ℕ) (s : Controller) : Prop :=
  Idle image now n s ∨ Held now n s

theorem Unpresented.advance (h : Unpresented env.image now (r + 1) s) (hr : 0 < r)
    (hnow : env.now = now + 1) : Unpresented env.image env.now r (cdromAdvance env 1 s) ∧
      raises (cdromAdvance env 1 s).log = raises s.log := by
  rcases h with hidle | hheld
  · obtain ⟨hstate, hraises⟩ := hidle.advance hr hnow
    refine ⟨?_, hraises⟩
    rcases hstate with ⟨hl, hs, he⟩ | hheld
    · exact .inl ⟨hl, hs, fun hend => (he hend).trans (by decide)⟩
    · exact .inr hheld
  · have hlater : Held env.now r s :=
      ⟨hheld.taken, fun hmask => (hheld.due hmask).imp_right fun hdue => by omega⟩
    have hstep := hlater.advance hr 1
    exact ⟨.inr (hlater.unraised hstep), hstep.raises⟩

theorem Unpresented.run (h : Unpresented image now n s) {disc : Option Disc}
    (himage : disc.getD Disc.absent = image) (dma : ℕ → Bool) {k : ℕ} (hk : k < n) :
    Unpresented image (now + k) (n - k) (stepCycles disc dma now k s) ∧
      raises (stepCycles disc dma now k s).log = raises s.log := by
  induction k with
  | zero => exact ⟨h, rfl⟩
  | succ k ih =>
    obtain ⟨hstate, hraises⟩ := ih (Nat.lt_of_succ_lt hk)
    have hleft : n - k = n - (k + 1) + 1 := by omega
    rw [hleft, ← himage] at hstate
    let env : Env := ⟨now + (k + 1), disc, dma (k + 1)⟩
    have hnow : env.now = now + k + 1 := rfl
    have hstart : Unpresented env.image (now + k) (n - (k + 1) + 1) (stepCycles disc dma now k s) :=
      hstate
    obtain ⟨hstate', hraises'⟩ := hstart.advance (by omega) hnow
    exact ⟨himage ▸ hstate', hraises'.trans hraises⟩

/-! ## The estimate is a bound -/

/-- No report and no end of data, which the estimate does not count, would be presented earlier. -/
structure Unvoiced (image : Disc) (bound : ℕ) (s : Controller) : Prop where
  ends : EndPending s → ¬Within 5001 bound
  sectors : s.cdda.playing = true → ∀ m : ℕ,
    Speaks image s.mode ((nextPosition image)^[m] s.position) →
      ¬Within (s.cdda.delay + m * singleSpeedSectorCycles + 5000).toNat bound

variable {bound k : ℕ}

theorem Within.lt {d : ℕ} (hk : Within k bound) (hd : ¬Within d bound) : k < d := by
  unfold Within at hk hd
  push Not at hd
  rcases hk with hnever | hlt
  · exact absurd hnever hd.1
  · exact lt_of_lt_of_le hlt hd.2

theorem Within.countdown {due : ℕ} (hk : Within k bound) (hle : bound ≤ cyclesUntilDue now due) :
    now + (k + 1) ≤ due := by
  unfold cyclesUntilDue at hle
  rcases hk with rfl | hlt
  · split at hle
    · exact absurd hle (by decide)
    · exact absurd (hle.trans (min_le_right _ _)) (by decide)
  · split at hle
    · omega
    · have hcount := hle.trans (min_le_left _ _)
      omega

theorem idle_of_estimate {iMask : BitVec 32} (h : Settled s) (hint : s.read.delay < 2 ^ 31)
    (hmask : iMask &&& 4#32 ≠ 0#32) (hfree : s.line.flag = 0#8)
    (hsilent : Unvoiced env.image (cdromCyclesToIrq env iMask s) s)
    (hk : Within k (cdromCyclesToIrq env iMask s)) : Idle env.image env.now (k + 1) s := by
  have hbound : cdromCyclesToIrq env iMask s ≤ min (armedCountdown env s)
      (min (secondCountdown env s) (min (waitingCountdown env s) (readCountdown env s))) := by
    unfold cdromCyclesToIrq
    rw [if_neg hmask]
    exact min_le_right _ _
  obtain ⟨-, hrest⟩ := le_min_iff.1 hbound
  obtain ⟨hsecond, hrest⟩ := le_min_iff.1 hrest
  obtain ⟨hwaiting, hread⟩ := le_min_iff.1 hrest
  refine ⟨⟨hfree, h.lid hfree, h.queued hfree, fun hp => ?_, fun hp => ?_, fun hp => ?_⟩,
    ⟨h.cdda, fun hp m hm => ?_⟩, fun hend => ?_⟩
  · unfold secondCountdown at hsecond
    rw [if_pos hp] at hsecond
    split at hsecond
    · exact hk.countdown hsecond
    · rcases hk with hnever | hlt
      · rw [hnever] at hsecond
        exact absurd hsecond (by decide)
      · omega
  · unfold waitingCountdown at hwaiting
    rw [if_pos hp] at hwaiting
    exact hk.countdown hwaiting
  · by_cases hblocked : warmRouteConsumerBlocked env s = true
    · refine .inl ?_
      unfold warmRouteConsumerBlocked consumerBehind at hblocked
      simpa [hfree] using hblocked
    · right
      have hpos := h.read hp
      unfold readCountdown at hread
      rw [if_pos ⟨hp, by simpa using hblocked, hpos⟩] at hread
      rcases hk with hnever | hlt
      · rw [hnever] at hread
        unfold neverDue at hread
        omega
      · omega
  · have hlt := hk.lt (hsilent.sectors hp m hm)
    omega
  · have hlt := hk.lt (hsilent.ends hend)
    omega

theorem held_of_estimate {iMask : BitVec 32} (hmask : iMask &&& 4#32 ≠ 0#32)
    (htaken : s.line.flag ≠ 0#8) (hk : Within k (cdromCyclesToIrq env iMask s)) :
    Held env.now (k + 1) s := by
  refine ⟨htaken, fun henabled => .inr (hk.countdown ?_)⟩
  unfold cdromCyclesToIrq armedCountdown
  rw [if_neg hmask, if_pos henabled]
  exact (min_le_right _ _).trans (min_le_left _ _)

/-- Every run leaves the controller settled. With the interrupt unmasked, a settled controller
raises nothing before the estimate, but for a report or an end of data that is presented earlier
with the slot free. -/
theorem cycles_to_irq_never_late :
    (∀ (env : Env) (mounts : Bool) (old : Controller) (calls : List Call),
      Settled (runCalls (cdromInit env mounts old) calls)) ∧
    ∀ (env : Env) (iMask : BitVec 32) (s : Controller), Settled s → s.read.delay < 2 ^ 31 →
      iMask &&& 4#32 ≠ 0#32 →
      (s.line.flag = 0#8 → Unvoiced env.image (cdromCyclesToIrq env iMask s) s) →
      NeverLate env iMask s := by
  refine ⟨fun env mounts old calls => (settled_init env mounts old).run calls, ?_⟩
  intro env iMask s h hint hmask hsilent dma k hk
  have hstart : Unpresented env.image env.now (k + 1) s := by
    by_cases hfree : s.line.flag = 0#8
    · exact .inl (idle_of_estimate h hint hmask hfree (hsilent hfree) hk)
    · exact .inr (held_of_estimate hmask hfree hk)
  exact (hstart.run rfl dma (Nat.lt_succ_self k)).2

/-! ## A masked interrupt -/

/-- The statics before `cdrom_init`. -/
def zeroController : Controller where
  index := 0#8
  stat := 0#8
  request := 0#8
  line := ⟨0#8, 0#8, false, 0, 0, 0⟩
  lid := ⟨0, false, false⟩
  lidIrqPending := false
  params := ⟨fun _ => 0#8, 0⟩
  responses := ⟨fun _ => 0#8, 0, 0⟩
  buffers := ⟨fun _ => emptyBuf, 0, 0, emptyBuf⟩
  lastSector := ⟨fun _ => 0#8, 0, false, 0, 0#8, false, 0#8, 0#8, 0#8, 0#8, 0#8⟩
  seek := ⟨0#8, 0#8, 0#8, 0, false, false⟩
  read := ⟨false, ⟨0, 0, 0⟩, 0#8, 0⟩
  mode := 0#8
  filterFile := 0#8
  filterChannel := 0#8
  muted := false
  xa := ⟨⟨⟨0, 0⟩, ⟨0, 0⟩⟩, 0#8, 0#8, 0#8, false, false⟩
  cdda := ⟨false, 0, 0, 0, false, 0⟩
  speed := ⟨1, 1, 0⟩
  warm := ⟨[], false, false, 0, none, 0, 0⟩
  pending := ⟨0#8, false, 0, 0⟩
  queued := ⟨0#8, ⟨fun _ => 0#8, 0⟩, false⟩
  waiting := ⟨false, 0#8, 0, 0, 0⟩
  accelBlock := 0
  pendingVolume := ⟨0#8, 0#8, 0#8, 0#8⟩
  decodeVolume := ⟨0#8, 0#8, 0#8, 0#8⟩
  subq := ⟨fun _ => 0#8, false⟩
  discScex := fun _ => 0#8
  log := []

/-- A read whose next sector is 100 cycles away. -/
def readingController : Controller :=
  { zeroController with read := ⟨true, ⟨0, 2, 0⟩, 0x06#8, 100⟩ }

theorem cycles_to_irq_never_late_reading :
    cdromCyclesToIrq ⟨0, none, false⟩ 4#32 readingController = 100 ∧
      NeverLate ⟨0, none, false⟩ 4#32 readingController := by
  refine ⟨by decide, cycles_to_irq_never_late.2 _ _ _ ?_ (by decide) (by decide) fun _ => ?_⟩
  · exact ⟨⟨fun _ => by decide, fun h => Bool.noConfusion h⟩, fun _ => rfl, fun _ => rfl⟩
  · exact ⟨fun h => h.elim (fun h => Bool.noConfusion h) fun h => Bool.noConfusion h,
      fun h => Bool.noConfusion h⟩

/-- An acknowledge of `GetStat` one cycle before its presentation. -/
def armedController : Controller :=
  { zeroController with line := ⟨0x1F#8, 0x03#8, false, 1, 0, 5000⟩ }

theorem masked_interrupt_raises :
    cdromCyclesToIrq ⟨4999, none, false⟩ 0#32 armedController = neverDue ∧
      ¬NeverLate ⟨4999, none, false⟩ 0#32 armedController := by
  refine ⟨by decide, fun h => ?_⟩
  have hstep := h (fun _ => false) 1 (.inl rfl)
  have hone : raises (stepCycles none (fun _ => false) 4999 1 armedController).log = 1 := rfl
  exact absurd (hone.symm.trans hstep) (by decide)

end PsxRecomp.Cdrom
