import PsxRecomp.Cdrom.Protocol

/-! What a settled controller is: with the response slot free no command is queued and no opening
of the lid waits to be told, and a running countdown has cycles left. Every access leaves it so. -/
namespace PsxRecomp.Cdrom
set_option autoImplicit false

structure Running (s : Controller) : Prop where
  read : s.read.reading = true → 0 < s.read.delay
  cdda : s.cdda.playing = true → 0 < s.cdda.delay

structure Settled (s : Controller) : Prop extends Running s where
  lid : s.line.flag = 0#8 → s.lidIrqPending = false
  queued : s.line.flag = 0#8 → s.queued.pending = false

/-! ## What a function may do to it -/

/-- Nothing is queued, no opening is noted, and the read stream keeps its countdown or is given a
new one. -/
structure Kept (s t : Controller) : Prop where
  lid : t.lidIrqPending = true → s.lidIrqPending = true
  queued : t.queued.pending = true → s.queued.pending = true
  read : t.read.reading = true →
    0 < t.read.delay ∨ s.read.reading = true ∧ t.read.delay = s.read.delay

/-- Playback as well. -/
structure Paced (s t : Controller) : Prop extends Kept s t where
  cdda : t.cdda.playing = true →
    0 < t.cdda.delay ∨ s.cdda.playing = true ∧ t.cdda.delay = s.cdda.delay

variable {s t u : Controller} {env : Env} {cmd type : Byte}

theorem Kept.refl (s : Controller) : Kept s s := ⟨id, id, fun h => .inr ⟨h, rfl⟩⟩

theorem Kept.trans (h : Kept s t) (h' : Kept t u) : Kept s u where
  lid hu := h.lid (h'.lid hu)
  queued hu := h.queued (h'.queued hu)
  read hu := by
    rcases h'.read hu with hpos | ⟨ht, hdelay⟩
    · exact .inl hpos
    · rw [hdelay]
      exact h.read ht

theorem Paced.refl (s : Controller) : Paced s s := ⟨Kept.refl s, fun h => .inr ⟨h, rfl⟩⟩

theorem Paced.trans (h : Paced s t) (h' : Paced t u) : Paced s u where
  toKept := h.toKept.trans h'.toKept
  cdda hu := by
    rcases h'.cdda hu with hpos | ⟨ht, hdelay⟩
    · exact .inl hpos
    · rw [hdelay]
      exact h.cdda ht

theorem Kept.of_eq (hlid : t.lidIrqPending = s.lidIrqPending) (hqueued : t.queued = s.queued)
    (hread : t.read = s.read) : Kept s t :=
  ⟨fun h => hlid ▸ h, fun h => hqueued ▸ h, fun h => .inr ⟨hread ▸ h, hread ▸ rfl⟩⟩

theorem Paced.of_eq (hlid : t.lidIrqPending = s.lidIrqPending) (hqueued : t.queued = s.queued)
    (hread : t.read = s.read) (hcdda : t.cdda = s.cdda) : Paced s t :=
  ⟨Kept.of_eq hlid hqueued hread, fun h => .inr ⟨hcdda ▸ h, hcdda ▸ rfl⟩⟩

theorem Paced.set (h : Paced s t) (hlid : u.lidIrqPending = t.lidIrqPending)
    (hqueued : u.queued = t.queued) (hread : u.read = t.read) (hcdda : u.cdda = t.cdda) :
    Paced s u :=
  h.trans (Paced.of_eq hlid hqueued hread hcdda)

theorem Paced.ite {p : Prop} [Decidable p] (ht : Paced s t) (hu : Paced s u) :
    Paced s (if p then t else u) := by
  split
  · exact ht
  · exact hu

theorem Running.paced (h : Running s) (hp : Paced s t) : Running t where
  read ht := by
    rcases hp.read ht with hpos | ⟨hs, hdelay⟩
    · exact hpos
    · rw [hdelay]
      exact h.read hs
  cdda ht := by
    rcases hp.cdda ht with hpos | ⟨hs, hdelay⟩
    · exact hpos
    · rw [hdelay]
      exact h.cdda hs

theorem Settled.paced (h : Settled s) (hp : Paced s t)
    (hflag : t.line.flag = 0#8 → s.line.flag = 0#8) : Settled t where
  toRunning := h.toRunning.paced hp
  lid ht := Bool.eq_false_iff.2 fun hlid =>
    Bool.noConfusion ((hp.lid hlid).symm.trans (h.lid (hflag ht)))
  queued ht := Bool.eq_false_iff.2 fun hqueued =>
    Bool.noConfusion ((hp.queued hqueued).symm.trans (h.queued (hflag ht)))

/-- With the response slot taken nothing else is asked. -/
theorem Running.settled (h : Running s) (hflag : s.line.flag ≠ 0#8) : Settled s :=
  ⟨h, fun h0 => absurd h0 hflag, fun h0 => absurd h0 hflag⟩

/-! ## Pacing gives cycles -/

theorem framePeriod_pos (rate : ℤ) : 0 < framePeriod rate :=
  lt_of_lt_of_le (by decide) (le_max_left _ _)

theorem applySpeed_pos {delay : ℤ} (h : 0 < delay) : 0 < applySpeed s delay := by
  unfold applySpeed
  split
  · exact h
  · split
    · exact framePeriod_pos _
    · exact lt_of_lt_of_le (by decide) (le_max_left _ _)

theorem applyReadSpeed_pos {delay : ℤ} (h : 0 < delay) : 0 < applyReadSpeed s delay := by
  unfold applyReadSpeed
  split
  · exact h
  · split
    · exact framePeriod_pos _
    · exact applySpeed_pos h

theorem sectorDelayCycles_pos (s : Controller) : 0 < sectorDelayCycles s := by
  refine applyReadSpeed_pos ?_
  unfold authenticSectorPeriod
  split <;> decide

theorem initialReadDelayCycles_pos (s : Controller) : 0 < initialReadDelayCycles s := by
  refine applyReadSpeed_pos ?_
  split <;> decide

/-! ## The response slot and the sector buffers -/

theorem Paced.responsePushAll (vals : List Byte) (h : Paced s t) :
    Paced s (responsePushAll vals t) := by
  induction vals generalizing t with
  | nil => exact h
  | cons val vals ih => exact ih (Paced.ite (h.set rfl rfl rfl rfl) h)

theorem paced_presentIrq (env : Env) (s : Controller) : Paced s (presentIrq env s) :=
  Paced.ite (Paced.refl s) (Paced.ite (Paced.of_eq rfl rfl rfl rfl) (Paced.refl s))

theorem Paced.respond (source : Source) (type : Byte) (bytes : List Byte) (h : Paced s t) :
    Paced s (respond env source type bytes t) := by
  have hpush : Paced s (Cdrom.responsePushAll bytes (responseClear t)) :=
    Paced.responsePushAll bytes (h.set rfl rfl rfl rfl)
  have hset : Paced s (setIrq env source type (Cdrom.responsePushAll bytes (responseClear t))) :=
    hpush.set rfl rfl rfl rfl
  exact hset.trans (paced_presentIrq env _)

theorem Paced.selectSlot (slot : Fin 8) (h : Paced s t) : Paced s (selectSlot slot t) := by
  unfold Cdrom.selectSlot loadDataFifo
  exact Paced.ite (h.set rfl rfl rfl rfl) (h.set rfl rfl rfl rfl)

theorem Paced.announce (source : Source) (slot : Fin 8) (stat : Byte) (h : Paced s t) :
    Paced s (announce env source slot stat t) := by
  have hpush : Paced s (Cdrom.responsePushAll [stat] (responseClear t)) :=
    Paced.responsePushAll _ (h.set rfl rfl rfl rfl)
  have hset : Paced s (setIrq env source irqDataReady
      (Cdrom.selectSlot slot (Cdrom.responsePushAll [stat] (responseClear t)))) :=
    (hpush.selectSlot slot).set rfl rfl rfl rfl
  exact hset.trans (paced_presentIrq env _)

/-! ## Audio and streams -/

theorem Paced.stopReadStream (h : Paced s t) : Paced s (stopReadStream t) :=
  h.trans ⟨⟨id, id, fun h => Bool.noConfusion h⟩, fun h => .inr ⟨h, rfl⟩⟩

theorem Paced.stopCddaPlayback (h : Paced s t) : Paced s (stopCddaPlayback t) :=
  h.trans ⟨⟨id, id, fun h => .inr ⟨h, rfl⟩⟩, fun h => Bool.noConfusion h⟩

theorem Paced.moveToSeek (h : Paced s t) : Paced s (moveToSeek t) :=
  h.trans ⟨⟨id, id, fun h => .inr ⟨h, rfl⟩⟩, fun h => .inr ⟨h, rfl⟩⟩

theorem Paced.advanceRead (h : Paced s t) : Paced s (advanceRead t) :=
  h.trans ⟨⟨id, id, fun h => .inr ⟨h, rfl⟩⟩, fun h => .inr ⟨h, rfl⟩⟩

theorem Paced.resetAudioForMode (h : Paced s t) : Paced s (resetAudioForMode t) :=
  Paced.ite (h.set rfl rfl rfl rfl) h

theorem Paced.takeSetloc (h : Paced s t) : Paced s (takeSetloc t) :=
  Paced.ite (h.moveToSeek.set rfl rfl rfl rfl) h

theorem Paced.clearSetloc (h : Paced s t) : Paced s (clearSetloc t) := h.set rfl rfl rfl rfl

theorem Paced.armStream (cmd : Byte) (h : Paced s t) : Paced s (armStream cmd t) :=
  h.trans ⟨⟨id, id, fun _ => .inl (initialReadDelayCycles_pos t)⟩, fun h => .inr ⟨h, rfl⟩⟩

theorem Paced.startReadStream (cmd : Byte) (h : Paced s t) : Paced s (startReadStream cmd t) := by
  have hclear : Paced s (clearWaiting (clearSectorBuffer (Cdrom.stopCddaPlayback t))) :=
    h.stopCddaPlayback.set rfl rfl rfl rfl
  exact (hclear.resetAudioForMode.takeSetloc.clearSetloc).armStream cmd

theorem Paced.updateLastValidSubq (env : Env) (lba : ℤ) (h : Paced s t) :
    Paced s (updateLastValidSubq env lba t) := by
  unfold Cdrom.updateLastValidSubq
  split
  · split
    · exact h.set rfl rfl rfl rfl
    · exact h
  · exact h

theorem Paced.maybeDeliverXaAudio (raw : Option (Fin 2352 → Byte)) (d : Delivery)
    (h : Paced s t) : Paced s (maybeDeliverXaAudio raw d t).1 := by
  have hfollow : Paced s (followXaStream d t) := Paced.ite (h.set rfl rfl rfl rfl) h
  unfold Cdrom.maybeDeliverXaAudio
  split
  · exact h
  · split
    · exact h
    · split
      · exact hfollow.set rfl rfl rfl rfl
      · exact h

theorem Paced.noteXaEnd (d : Delivery) (h : Paced s t) : Paced s (noteXaEnd d t) := by
  have hmark : Paced s (markXaEnd t) := h.set rfl rfl rfl rfl
  exact Paced.ite (Paced.ite hmark.stopReadStream hmark) h

theorem Paced.storeSector (r : SectorRead) (buf : SectorBuf) (h : Paced s t) :
    Paced s (storeSector r buf t) :=
  Paced.ite (h.set rfl rfl rfl rfl) h

theorem Paced.recordSector (r : SectorRead) (buf : SectorBuf) (h : Paced s t) :
    Paced s (recordSector r buf t) := h.set rfl rfl rfl rfl

theorem Paced.readSectorAt (env : Env) (supplied : Option (Fin 2352 → Byte)) (h : Paced s t) :
    Paced s (readSectorAt env supplied t).1 := by
  unfold Cdrom.readSectorAt
  exact (((h.updateLastValidSubq env _).maybeDeliverXaAudio _ _).noteXaEnd _ |>.storeSector _ _)
    |>.recordSector _ _

theorem Paced.deliverReadSector (env : Env) (supplied : Option (Fin 2352 → Byte))
    (h : Paced s t) : Paced s (deliverReadSector env supplied t) := by
  have hread := (h.readSectorAt env supplied).advanceRead
  unfold Cdrom.deliverReadSector respondSector
  exact Paced.ite (Paced.respond _ _ _ (hread.set rfl rfl rfl rfl))
    (Paced.ite (hread.announce _ _ _) hread)

theorem Paced.deliverReadSectorWithoutIrq (env : Env) (continuation : Bool) (h : Paced s t) :
    Paced s (deliverReadSectorWithoutIrq env continuation t).1 := by
  have hread := (h.readSectorAt env none).advanceRead
  unfold Cdrom.deliverReadSectorWithoutIrq continueDma
  exact Paced.ite ((hread.selectSlot _).set rfl rfl rfl rfl) hread

theorem Paced.startCddaPlayback {requested : ℤ} (h : Paced s t)
    (hstart : startCddaPlayback env requested t = some u) : Paced s u := by
  unfold Cdrom.startCddaPlayback at hstart
  dsimp only at hstart
  split at hstart
  · cases hstart
  · obtain rfl := Option.some.inj hstart
    have hcycles : 0 < singleSpeedSectorCycles := by decide
    exact h.stopReadStream.trans ⟨⟨id, id, fun h => .inr ⟨h, rfl⟩⟩, fun _ => .inl hcycles⟩

theorem Paced.haltDrive (h : Paced s t) : Paced s (haltDrive t) :=
  h.stopReadStream.stopCddaPlayback.set rfl rfl rfl rfl

/-! ## Commands -/

theorem Paced.answer (type : Byte) (bytes : List Byte) (h : Paced s t) :
    Paced s (answer env cmd type bytes t) :=
  (h.responsePushAll bytes).set rfl rfl rfl rfl

theorem Paced.acknowledge (h : Paced s t) : Paced s (acknowledge env cmd t) := h.answer _ _

theorem Paced.acknowledgeThen (latency : ℤ) (h : Paced s t) :
    Paced s (acknowledgeThen env cmd latency t) :=
  Paced.set (h.acknowledge : Paced s (Cdrom.acknowledge env cmd t)) rfl rfl rfl rfl

theorem Paced.getStat (h : Paced s t) : Paced s (getStat env cmd t) :=
  Paced.answer _ _ (Paced.ite (h.set rfl rfl rfl rfl) (h.set rfl rfl rfl rfl))

theorem Paced.setLoc (h : Paced s t) : Paced s (setLoc env cmd t) :=
  Paced.ite (Paced.ite (h.answer _ _) (Paced.acknowledge (h.set rfl rfl rfl rfl))) h.acknowledge

theorem Paced.readCommand (h : Paced s t) : Paced s (readCommand env cmd t) :=
  Paced.ite (h.answer _ _) (Paced.ite h.clearSetloc.acknowledge (h.startReadStream cmd).acknowledge)

theorem Paced.playCommand (h : Paced s t) : Paced s (playCommand env cmd t) := by
  unfold Cdrom.playCommand
  dsimp only
  refine Paced.ite (h.answer _ _) ?_
  split
  case h_1 hstart => exact (h.startCddaPlayback hstart).acknowledge
  case h_2 =>
    have hsilent : Paced s { Cdrom.stopReadStream t with
        cdda := { (Cdrom.stopReadStream t).cdda with dataEndPending := false }
        stat := (Cdrom.stopReadStream t).stat &&& ~~~(statSeek ||| statRead) ||| statMotor |||
          statPlay } :=
      h.stopReadStream.trans ⟨⟨id, id, fun h => .inr ⟨h, rfl⟩⟩, fun h => .inr ⟨h, rfl⟩⟩
    exact Paced.ite hsilent.acknowledge (h.answer _ _)

theorem Paced.seekCommand (h : Paced s t) : Paced s (seekCommand env cmd t) := by
  have hstop : Paced s (Cdrom.stopCddaPlayback (audioReset (xaResetDecode
      (Cdrom.stopReadStream t)))) :=
    Paced.stopCddaPlayback (h.stopReadStream.set rfl rfl rfl rfl)
  exact Paced.ite (h.answer _ _)
    (Paced.acknowledgeThen _ (hstop.moveToSeek.set rfl rfl rfl rfl))

theorem Paced.initCommand (h : Paced s t) : Paced s (initCommand env cmd t) :=
  Paced.acknowledgeThen _ (h.stopReadStream.stopCddaPlayback.set rfl rfl rfl rfl)

theorem Paced.setFilter (h : Paced s t) : Paced s (setFilter env cmd t) :=
  Paced.ite (Paced.acknowledge (h.set rfl rfl rfl rfl)) h.acknowledge

theorem Paced.setMode (h : Paced s t) : Paced s (setMode env cmd t) :=
  Paced.ite (Paced.ite (Paced.acknowledge (h.set rfl rfl rfl rfl))
    (Paced.acknowledge (h.set rfl rfl rfl rfl))) h.acknowledge

theorem Paced.getlocP (h : Paced s t) : Paced s (getlocP env cmd t) :=
  Paced.ite ((h.updateLastValidSubq env _).answer _ _) ((h.updateLastValidSubq env _).answer _ _)

theorem paced_dispatch (env : Env) (cmd : Byte) (s : Controller) :
    Paced s (dispatch env cmd s) := by
  have h := Paced.refl s
  have hack : ∀ {t : Controller}, Paced s t → Paced s (acknowledge env cmd t) :=
    fun h => h.acknowledge
  unfold dispatch
  refine Paced.ite h.getStat (Paced.ite h.setLoc (Paced.ite h.playCommand
    (Paced.ite h.readCommand ?_)))
  refine Paced.ite (Paced.ite (h.answer _ _) (h.acknowledgeThen _)) ?_
  refine Paced.ite (Paced.acknowledgeThen _ (h.haltDrive.set rfl rfl rfl rfl)) ?_
  refine Paced.ite (Paced.acknowledgeThen _ (h.haltDrive.set rfl rfl rfl rfl)) ?_
  refine Paced.ite h.initCommand ?_
  refine Paced.ite (hack (h.set rfl rfl rfl rfl)) (Paced.ite (hack (h.set rfl rfl rfl rfl)) ?_)
  refine Paced.ite h.setFilter (Paced.ite h.setMode (Paced.ite (h.answer _ _) ?_))
  refine Paced.ite (Paced.ite (h.answer _ _) (h.answer _ _)) (Paced.ite h.getlocP ?_)
  refine Paced.ite (h.answer _ _) (Paced.ite (Paced.ite (h.answer _ _) (h.answer _ _)) ?_)
  refine Paced.ite h.seekCommand (Paced.ite (Paced.ite (h.answer _ _) h.acknowledge) ?_)
  exact Paced.ite (h.acknowledgeThen _) (Paced.ite (h.acknowledgeThen _) (h.answer _ _))

theorem presentIrq_flag (env : Env) (s : Controller) :
    (presentIrq env s).line.flag = s.line.flag := (presentIrq_line env s).1

/-- A command fills the response slot. -/
theorem Answered.flag (h : Answered env cmd s t) : t.line.flag ≠ 0#8 := by
  cases h with
  | plain _ htype => exact htype.1
  | armed _ htype _ => exact htype.1

theorem Running.execCommand (h : Running s) : Settled (execCommand env cmd s) := by
  have hclear : Paced s (responseClear { s with
      pending := { s.pending with pending := false } }) := Paced.of_eq rfl rfl rfl rfl
  have hdone := h.paced (hclear.trans (paced_dispatch env cmd _))
  refine Running.settled (Running.paced (Running.paced hdone ?_) (paced_presentIrq env _)) ?_
  · exact Paced.of_eq rfl rfl rfl rfl
  · show (presentIrq env _).line.flag ≠ 0#8
    rw [presentIrq_flag]
    exact (dispatch_answered env cmd _).flag

/-- A queued command is taken off before it is executed. -/
theorem Running.tryExecuteQueued (h : Running s)
    (hlid : s.line.flag = 0#8 → s.lidIrqPending = false) : Settled (tryExecuteQueued env s) := by
  unfold Cdrom.tryExecuteQueued
  split
  case isTrue hc =>
    refine ⟨h, hlid, fun hflag => ?_⟩
    rcases hc with hnone | hset
    · exact hnone
    · exact absurd hflag hset
  case isFalse =>
    refine Running.execCommand ⟨h.read, h.cdda⟩

theorem Settled.queueOrExec (h : Settled s) : Settled (queueOrExec env cmd s) := by
  unfold Cdrom.queueOrExec
  split
  case isTrue => exact h.toRunning.execCommand
  case isFalse hflag => exact Running.settled ⟨h.read, h.cdda⟩ hflag

/-! ## Registers -/

theorem paced_presentLidOpen (env : Env) (s : Controller) : Paced s (presentLidOpen env s) := by
  unfold presentLidOpen
  refine Paced.ite (Paced.refl s) (Paced.respond _ _ _ ?_)
  exact ⟨⟨fun h => Bool.noConfusion h, id, fun h => .inr ⟨h, rfl⟩⟩, fun h => .inr ⟨h, rfl⟩⟩

/-- Behind it the opening of the lid waits for a response at most. -/
theorem presentLidOpen_told (env : Env) (s : Controller)
    (hflag : (presentLidOpen env s).line.flag = 0#8) : (presentLidOpen env s).lidIrqPending = false := by
  unfold presentLidOpen at hflag ⊢
  split at hflag
  case isTrue hc =>
    rw [if_pos hc]
    rcases hc with hnone | hset
    · exact hnone
    · exact absurd hflag hset
  case isFalse =>
    unfold respond at hflag
    rw [presentIrq_flag] at hflag
    have htype : irqError ≠ 0#8 := by decide
    exact absurd hflag htype

theorem told_flag (h : Told env s t) (hflag : t.line.flag = 0#8) : s.line.flag = 0#8 := by
  cases h with
  | quiet hq => exact hq.line ▸ hflag
  | told _ hs _ _ => exact hs

theorem paced_deliverSecond (env : Env) (cmd : Byte) (s : Controller) :
    Paced s (deliverSecond env cmd s) := by
  unfold deliverSecond
  split
  · unfold secondSector
    dsimp only
    have hread := ((Paced.refl s).readSectorAt env none).advanceRead
    exact Paced.ite (Paced.refl s) (Paced.ite (hread.announce _ _ _) hread)
  · split
    · exact Paced.refl s
    · rename_i u type bytes hu
      have hsecond : Paced s u := by
        unfold secondResponse at hu
        dsimp only at hu
        repeat' split at hu
        all_goals cases hu
        all_goals exact Paced.of_eq rfl rfl rfl rfl
      have hset : Paced s (setIrq env (.second cmd) type (responsePushAll bytes u)) :=
        (hsecond.responsePushAll bytes).set rfl rfl rfl rfl
      exact hset.trans (paced_presentIrq env _)

theorem paced_processPending (env : Env) (s : Controller) : Paced s (processPending env s) := by
  unfold processPending
  have hclear : Paced s (responseClear { s with
      pending := { s.pending with pending := false, due := 0 } }) := Paced.of_eq rfl rfl rfl rfl
  exact Paced.ite (Paced.refl s) (hclear.trans (paced_deliverSecond env _ _))

/-- A second response finds the slot free. -/
theorem processPending_flag (env : Env) (s : Controller)
    (hflag : (processPending env s).line.flag = 0#8) : s.line.flag = 0#8 := by
  unfold processPending at hflag
  split at hflag
  case isTrue => exact hflag
  case isFalse hc =>
    push Not at hc
    exact hc.2.2

theorem masked_out {a b : Byte} (hlow : a &&& b = 0#8) (v : Byte)
    (h : a &&& ~~~(v &&& b) = 0#8) : a = 0#8 := by
  ext i hi
  have hlow := congrArg (fun x => x.getLsbD i) hlow
  have h := congrArg (fun x => x.getLsbD i) h
  simp [hi] at hlow h ⊢
  grind

theorem Settled.writeAck (val : Byte) (h : Settled s) : Settled (writeAck env val s) := by
  have hclear : Running (clearFlag val s) := ⟨h.read, h.cdda⟩
  have hack : Running (acknowledgeFlag env val s) ∧ ((acknowledgeFlag env val s).line.flag = 0#8 →
      (acknowledgeFlag env val s).lidIrqPending = false) := by
    unfold acknowledgeFlag
    dsimp only
    split
    case isTrue =>
      refine ⟨Running.paced ?_ (paced_presentLidOpen env _), presentLidOpen_told env _⟩
      exact ⟨h.read, h.cdda⟩
    case isFalse hc =>
      refine ⟨hclear, fun hflag => h.lid ?_⟩
      -- a flag that was set and is gone has been acknowledged in full
      replace hflag : s.line.flag &&& ~~~(val &&& 0x1F#8) = 0#8 := hflag
      by_contra hset
      refine hc ⟨fun hlow => hset (masked_out hlow val hflag), ?_⟩
      show s.line.flag &&& ~~~(val &&& 0x1F#8) &&& 0x1F#8 = 0#8
      rw [hflag, BitVec.zero_and]
  have hreset : Paced (acknowledgeFlag env val s) (resetParams val (acknowledgeFlag env val s)) :=
    Paced.ite (Paced.of_eq rfl rfl rfl rfl) (Paced.refl _)
  have hschedule : Paced (acknowledgeFlag env val s)
      (scheduleWaiting env (resetParams val (acknowledgeFlag env val s))) :=
    Paced.ite (hreset.set rfl rfl rfl rfl) hreset
  have hline : (scheduleWaiting env (resetParams val (acknowledgeFlag env val s))).line =
      (acknowledgeFlag env val s).line := by
    unfold scheduleWaiting resetParams
    split <;> split <;> rfl
  have hpending := hschedule.trans (paced_processPending env _)
  refine (hack.1.paced hpending).tryExecuteQueued fun hflag => Bool.eq_false_iff.2 fun hlid => ?_
  have hfree := processPending_flag env _ hflag
  rw [hline] at hfree
  exact Bool.noConfusion ((hpending.lid hlid).symm.trans (hack.2 hfree))

theorem Settled.cdromWrite (addr : BitVec 32) (val : Byte) (h : Settled s) :
    Settled (cdromWrite env addr val s) := by
  have hset : ∀ {t : Controller}, t.line.flag = s.line.flag → Paced s t → Settled t :=
    fun hline hp => h.paced hp fun hflag => hline ▸ hflag
  have hite : ∀ {p : Prop} [Decidable p] {t u : Controller}, Settled t → Settled u →
      Settled (if p then t else u) := fun ht hu => by split; exacts [ht, hu]
  have heq : ∀ {t : Controller}, t.line.flag = s.line.flag → t.lidIrqPending = s.lidIrqPending →
      t.queued = s.queued → t.read = s.read → t.cdda = s.cdda → Settled t :=
    fun h1 h2 h3 h4 h5 => hset h1 (Paced.of_eq h2 h3 h4 h5)
  unfold Cdrom.cdromWrite
  refine hite (heq rfl rfl rfl rfl rfl) (hite ?_ (hite ?_ (hite ?_ h)))
  · exact hite h.queueOrExec (hite (heq rfl rfl rfl rfl rfl) h)
  · refine hite (hite (heq rfl rfl rfl rfl rfl) h) (hite (heq rfl rfl rfl rfl rfl) ?_)
    exact hite (heq rfl rfl rfl rfl rfl) (hite (heq rfl rfl rfl rfl rfl) h)
  · refine hite (heq rfl rfl rfl rfl rfl) (hite (hite (heq rfl rfl rfl rfl rfl) h) ?_)
    refine hite ?_ (hite (h.writeAck val) h)
    refine hite (hite (heq rfl rfl rfl rfl rfl) (heq rfl rfl rfl rfl rfl)) ?_
    exact heq rfl rfl rfl rfl rfl

theorem Settled.cdromRead (addr : BitVec 32) (h : Settled s) : Settled (cdromRead addr s).1 := by
  have heq : ∀ {t : Controller}, t.line = s.line → t.lidIrqPending = s.lidIrqPending →
      t.queued = s.queued → t.read = s.read → t.cdda = s.cdda → Settled t :=
    fun h1 h2 h3 h4 h5 => h.paced (Paced.of_eq h2 h3 h4 h5) fun hflag => h1 ▸ hflag
  unfold Cdrom.cdromRead
  repeat' split
  all_goals exact heq rfl rfl rfl rfl rfl

theorem Settled.cdromDmaRead (h : Settled s) : Settled (cdromDmaRead s).1 := by
  unfold Cdrom.cdromDmaRead
  dsimp only
  split
  · exact h.paced (Paced.of_eq rfl rfl rfl rfl) id
  · exact h

theorem Settled.cdromDmaReady (h : Settled s) : Settled (cdromDmaReady env s).1 := by
  unfold Cdrom.cdromDmaReady refillForDma loadDataFifo
  dsimp only
  split
  · split
    · exact h
    · exact h.paced (Paced.of_eq rfl rfl rfl rfl) id
  · exact h

/-! ## The clock -/

theorem Settled.told (h : Settled s) (hp : Paced s t) (ht : Told env s t) : Settled t :=
  h.paced hp (told_flag ht)

theorem paced_closeLid (env : Env) (s : Controller) : Paced s (closeLid env s) := by
  unfold closeLid
  split
  · exact Paced.refl s
  · split
    · exact Paced.refl s
    · exact Paced.of_eq rfl rfl rfl rfl

theorem Settled.processLid (h : Settled s) : Settled (processLid env s) :=
  (h.told (paced_presentLidOpen env s) (told_presentLidOpen env s)).paced (paced_closeLid env _)
    fun hflag => (quiet_closeLid env _).line ▸ hflag

theorem Settled.presentIrq (h : Settled s) : Settled (presentIrq env s) :=
  h.paced (paced_presentIrq env s) fun hflag => presentIrq_flag env s ▸ hflag

theorem paced_presentWaiting (env : Env) (s : Controller) : Paced s (presentWaiting env s) := by
  have hclear : Paced s { s with waiting := { s.waiting with presentDue := 0, dataready := false } } :=
    Paced.of_eq rfl rfl rfl rfl
  exact Paced.ite (Paced.refl s) (hclear.announce _ _ _)

theorem Settled.releaseWaiting (h : Settled s) : Settled (releaseWaiting env s) := by
  unfold Cdrom.releaseWaiting
  split
  · have hclear : Settled { s with waiting := { s.waiting with presentDue := 0 } } :=
      h.paced (Paced.of_eq rfl rfl rfl rfl) id
    exact hclear.told (paced_presentWaiting env _) (told_presentWaiting env _)
  · exact h

theorem Settled.advanceFront (h : Settled s) : Settled (advanceFront env s) := by
  have hpending : Settled (processPending env (Cdrom.presentIrq env (Cdrom.processLid env s))) :=
    h.processLid.presentIrq.paced (paced_processPending env _) (processPending_flag env _)
  exact (hpending.toRunning.tryExecuteQueued hpending.lid).releaseWaiting

theorem paced_sectorDue (env : Env) (s : Controller) : Paced s (sectorDue env s) := by
  have hread := fun continuation => (Paced.refl s).deliverReadSectorWithoutIrq env continuation
  unfold sectorDue
  refine Paced.ite ((Paced.refl s).deliverReadSector env none) (Paced.ite (hread true) ?_)
  have hlost : Paced s (countLost (deliverReadSectorWithoutIrq env false s).1) :=
    Paced.ite ((hread false).set rfl rfl rfl rfl) (hread false)
  exact Paced.ite (hlost.set rfl rfl rfl rfl) (hread false)

theorem sectorDue_flag (env : Env) (s : Controller) (hflag : (sectorDue env s).line.flag = 0#8) :
    s.line.flag = 0#8 := by
  by_contra hset
  have hread := fun continuation => (Quiet.refl s).deliverReadSectorWithoutIrq env continuation
  unfold sectorDue at hflag
  rw [if_neg hset] at hflag
  split at hflag
  · exact hset ((hread true).line ▸ hflag)
  · dsimp only at hflag
    split at hflag
    · exact hset ((hread false).countLost.line ▸ hflag)
    · exact hset ((hread false).line ▸ hflag)

theorem Settled.processReadStream (cycles : BitVec 32) (h : Settled s) :
    Settled (processReadStream env cycles s) := by
  unfold Cdrom.processReadStream
  split
  · exact h
  · split
    · exact h.paced (Paced.of_eq rfl rfl rfl rfl) id
    · dsimp only
      split
      · have hp := paced_sectorDue env (passRead cycles s)
        refine ⟨⟨fun _ => ?_, fun hplaying => ?_⟩, fun hflag => ?_, fun hflag => ?_⟩
        · show 0 < if _ ≤ 0 then sectorDelayCycles _ else _
          split
          · exact sectorDelayCycles_pos _
          · omega
        · rcases hp.cdda hplaying with hpos | ⟨hs, hdelay⟩
          · exact hpos
          · have hpos := h.cdda hs
            exact hdelay.symm ▸ hpos
        · have hfree := sectorDue_flag env _ hflag
          exact Bool.eq_false_iff.2 fun hlid =>
            Bool.noConfusion ((hp.lid hlid).symm.trans (h.lid hfree))
        · have hfree := sectorDue_flag env _ hflag
          exact Bool.eq_false_iff.2 fun hqueued =>
            Bool.noConfusion ((hp.queued hqueued).symm.trans (h.queued hfree))
      · exact ⟨⟨fun _ => by omega, h.cdda⟩, h.lid, h.queued⟩

/-! ## Playback -/

theorem paced_deliverCddaDataEnd (env : Env) (s : Controller) :
    Paced s (deliverCddaDataEnd env s) := by
  unfold deliverCddaDataEnd
  refine Paced.ite (Paced.refl s) (Paced.respond _ _ _ ?_)
  exact ⟨⟨id, id, fun h => .inr ⟨h, rfl⟩⟩, fun h => .inr ⟨h, rfl⟩⟩

theorem paced_deliverXaDataEnd (env : Env) (s : Controller) :
    Paced s (deliverXaDataEnd env s) := by
  unfold deliverXaDataEnd
  exact Paced.ite (Paced.refl s) (Paced.respond _ _ _ (Paced.of_eq rfl rfl rfl rfl))

/-- What the loop over the sectors leaves alone while its countdown runs below zero. -/
structure Looped (s t : Controller) : Prop extends Kept s t where
  flag : t.line.flag = 0#8 → s.line.flag = 0#8

theorem Looped.trans (h : Looped s t) (h' : Looped t u) : Looped s u :=
  ⟨h.toKept.trans h'.toKept, fun hu => h.flag (h'.flag hu)⟩

theorem looped_cddaTrackEnd (env : Env) (s : Controller) : Looped s (cddaTrackEnd env s) := by
  unfold cddaTrackEnd
  dsimp only
  split
  · exact ⟨Kept.refl s, id⟩
  · split
    · have hmark : Looped s (markCddaEnd (stopCddaPlayback s)) := ⟨Kept.of_eq rfl rfl rfl, id⟩
      exact hmark.trans ⟨(paced_deliverCddaDataEnd env _).toKept,
        told_flag (told_deliverCddaDataEnd env _)⟩
    · exact ⟨Kept.of_eq rfl rfl rfl, id⟩

theorem looped_cddaSector (env : Env) (s : Controller) : Looped s (cddaSector env s) := by
  have hreport : Looped s (reportSector env (cddaFrames (env.image.readCddaSector s.cdda.lba)) s) := by
    unfold reportSector
    split
    · refine ⟨?_, told_flag (told_deliverCddaReport env _ s)⟩
      exact (Paced.ite (Paced.refl s) ((Paced.refl s).respond _ _ _)).toKept
    · exact ⟨Kept.refl s, id⟩
  have hpush := hreport.trans (u := pushCdda (cddaFrames (env.image.readCddaSector s.cdda.lba))
    (reportSector env (cddaFrames (env.image.readCddaSector s.cdda.lba)) s))
    ⟨Kept.of_eq rfl rfl rfl, id⟩
  exact hpush.trans (looped_cddaTrackEnd env _)

theorem looped_cddaLoop (env : Env) (n : ℕ) (s : Controller) : Looped s (cddaLoop env n s) := by
  induction n generalizing s with
  | zero => exact ⟨Kept.refl s, id⟩
  | succ n ih =>
    unfold cddaLoop
    split
    · exact (looped_cddaSector env s).trans (ih _)
    · exact ⟨Kept.refl s, id⟩

theorem Settled.looped (h : Settled s) (hl : Looped s t)
    (hcdda : t.cdda.playing = true → 0 < t.cdda.delay) : Settled t where
  lid ht := Bool.eq_false_iff.2 fun hlid =>
    Bool.noConfusion ((hl.lid hlid).symm.trans (h.lid (hl.flag ht)))
  queued ht := Bool.eq_false_iff.2 fun hqueued =>
    Bool.noConfusion ((hl.queued hqueued).symm.trans (h.queued (hl.flag ht)))
  read ht := by
    rcases hl.read ht with hpos | ⟨hs, hdelay⟩
    · exact hpos
    · rw [hdelay]
      exact h.read hs
  cdda := hcdda

theorem Settled.processCddaStream (cycles : BitVec 32) (h : Settled s) :
    Settled (processCddaStream env cycles s) := by
  unfold Cdrom.processCddaStream
  refine Settled.told ?_ (paced_deliverCddaDataEnd env _) (told_deliverCddaDataEnd env _)
  split
  · have hpass : Looped s (passCdda cycles s) := ⟨Kept.of_eq rfl rfl rfl, id⟩
    have hloop := hpass.trans (looped_cddaLoop env 16 (passCdda cycles s))
    unfold dropCddaDebt
    split
    case isTrue =>
      refine h.looped (hloop.trans ⟨Kept.of_eq rfl rfl rfl, id⟩) fun _ => ?_
      show 0 < singleSpeedSectorCycles
      decide
    case isFalse hdebt =>
      refine h.looped hloop fun hplaying => ?_
      push Not at hdebt
      exact hdebt hplaying
  · exact h

theorem Settled.cdromAdvance (cycles : BitVec 32) (h : Settled s) :
    Settled (cdromAdvance env cycles s) := by
  have hstreams : Settled (Cdrom.processCddaStream env cycles
      (Cdrom.processReadStream env cycles (Cdrom.advanceFront env s))) :=
    (h.advanceFront.processReadStream cycles).processCddaStream cycles
  exact (hstreams.told (paced_deliverXaDataEnd env _) (told_deliverXaDataEnd env _)).processLid
    |>.presentIrq

/-! ## Runs -/

theorem Settled.access (a : Access) (h : Settled s) : Settled (access env s a).1 := by
  cases a with
  | write addr val => exact h.cdromWrite addr val
  | read addr => exact h.cdromRead addr
  | dmaRead => exact h.cdromDmaRead
  | dmaReady => exact h.cdromDmaReady
  | advance cycles => exact h.cdromAdvance cycles

theorem settled_init (env : Env) (mounts : Bool) (old : Controller) :
    Settled (cdromInit env mounts old) :=
  ⟨⟨fun h => Bool.noConfusion h, fun h => Bool.noConfusion h⟩, fun _ => rfl, fun _ => rfl⟩

theorem Settled.run (calls : List Call) (h : Settled s) : Settled (runCalls s calls) := by
  induction calls generalizing s with
  | nil => exact h
  | cons c calls ih => exact ih (h.access c.access)

end PsxRecomp.Cdrom
