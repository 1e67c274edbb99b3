import PsxRecomp.Cdrom.Ports

/-! What leaves the response protocol alone. Most of the controller's functions touch neither the
interrupt line nor the armed second response, and log nothing that counts for them; a command is
such a quiet part, one response, and at most one second response armed. -/
namespace PsxRecomp.Cdrom
set_option autoImplicit false

/-! ## Quiet changes -/

/-- An event that is neither a response, nor a raise, nor an armed second response. -/
def Event.side : Event → Bool
  | .response .. => false
  | .raise .. => false
  | .armed _ => false
  | _ => true

/-- The interrupt line and the second response are as before, and a notification that waits waited
before. -/
structure Quiet (s s' : Controller) : Prop where
  line : s'.line = s.line
  pending : s'.pending = s.pending
  waiting : s'.waiting.dataready = true →
    s.waiting.dataready = true ∧ s'.waiting.presentDue = s.waiting.presentDue
  log : ∃ es, s'.log = es ++ s.log ∧ ∀ e ∈ es, e.side = true

variable {s t u : Controller} {env : Env}

theorem Quiet.refl (s : Controller) : Quiet s s :=
  ⟨rfl, rfl, fun h => ⟨h, rfl⟩, [], rfl, fun _ h => absurd h List.not_mem_nil⟩

theorem Quiet.trans (h : Quiet s t) (h' : Quiet t u) : Quiet s u where
  line := h'.line.trans h.line
  pending := h'.pending.trans h.pending
  waiting hu := by
    obtain ⟨ht, hdue'⟩ := h'.waiting hu
    obtain ⟨hs, hdue⟩ := h.waiting ht
    exact ⟨hs, hdue'.trans hdue⟩
  log := by
    obtain ⟨es, he, hes⟩ := h.log
    obtain ⟨es', he', hes'⟩ := h'.log
    refine ⟨es' ++ es, ?_, fun e hmem => (List.mem_append.1 hmem).elim (hes' e) (hes e)⟩
    rw [he', he, List.append_assoc]

/-- A change of parts the protocol does not look at. -/
theorem Quiet.of_eq (hline : t.line = s.line) (hpending : t.pending = s.pending)
    (hwaiting : t.waiting = s.waiting) (hlog : t.log = s.log) : Quiet s t :=
  ⟨hline, hpending, fun h => ⟨hwaiting ▸ h, hwaiting ▸ rfl⟩, [], hlog,
    fun _ h => absurd h List.not_mem_nil⟩

theorem Quiet.emit {e : Event} (h : Quiet s t) (he : e.side = true) : Quiet s (t.emit e) :=
  h.trans ⟨rfl, rfl, fun h => ⟨h, rfl⟩, [e], rfl, fun _ h => List.mem_singleton.1 h ▸ he⟩

/-- A change of parts the protocol does not look at, behind a quiet one. -/
theorem Quiet.set (h : Quiet s t) (hline : u.line = t.line) (hpending : u.pending = t.pending)
    (hwaiting : u.waiting = t.waiting) (hlog : u.log = t.log) : Quiet s u :=
  h.trans (Quiet.of_eq hline hpending hwaiting hlog)

theorem Quiet.ite {p : Prop} [Decidable p] (ht : Quiet s t) (hu : Quiet s u) :
    Quiet s (if p then t else u) := by
  split
  · exact ht
  · exact hu

/-! ## The response FIFO and the sector buffers -/

theorem Quiet.responseClear (h : Quiet s t) : Quiet s (responseClear t) := h.set rfl rfl rfl rfl

theorem Quiet.responsePush (val : Byte) (h : Quiet s t) : Quiet s (responsePush val t) :=
  Quiet.ite (h.set rfl rfl rfl rfl) h

theorem Quiet.responsePushAll (vals : List Byte) (h : Quiet s t) :
    Quiet s (responsePushAll vals t) := by
  induction vals generalizing t with
  | nil => exact h
  | cons val vals ih => exact ih (h.responsePush val)

theorem Quiet.loadDataFifo (requested : Bool) (h : Quiet s t) :
    Quiet s (loadDataFifo requested t) :=
  Quiet.ite h (h.set rfl rfl rfl rfl)

theorem Quiet.selectSlot (slot : Fin 8) (h : Quiet s t) : Quiet s (selectSlot slot t) := by
  unfold Cdrom.selectSlot
  exact Quiet.loadDataFifo false (h.set rfl rfl rfl rfl)

theorem Quiet.clearWaiting (h : Quiet s t) : Quiet s (clearWaiting t) :=
  h.trans ⟨rfl, rfl, fun h => Bool.noConfusion h, [], rfl, fun _ h => absurd h List.not_mem_nil⟩

/-! ## Audio and streams -/

theorem Quiet.xaResetDecode (h : Quiet s t) : Quiet s (xaResetDecode t) := h.set rfl rfl rfl rfl

theorem Quiet.audioReset (h : Quiet s t) : Quiet s (audioReset t) := h.emit rfl

theorem Quiet.stopReadStream (h : Quiet s t) : Quiet s (stopReadStream t) := by
  unfold Cdrom.stopReadStream
  have hside : Event.streamStopped.side = true := rfl
  refine Quiet.emit (Quiet.clearWaiting ?_) hside
  exact h.set rfl rfl rfl rfl

theorem Quiet.stopCddaPlayback (h : Quiet s t) : Quiet s (stopCddaPlayback t) :=
  h.set rfl rfl rfl rfl

theorem Quiet.clearSectorBuffer (h : Quiet s t) : Quiet s (clearSectorBuffer t) :=
  h.set rfl rfl rfl rfl

theorem Quiet.resetAudioForMode (h : Quiet s t) : Quiet s (resetAudioForMode t) :=
  Quiet.ite h.xaResetDecode.audioReset h

theorem Quiet.takeSetloc (h : Quiet s t) : Quiet s (takeSetloc t) :=
  Quiet.ite (h.set rfl rfl rfl rfl) h

theorem Quiet.clearSetloc (h : Quiet s t) : Quiet s (clearSetloc t) := h.set rfl rfl rfl rfl

theorem Quiet.armStream (cmd : Byte) (h : Quiet s t) : Quiet s (armStream cmd t) :=
  (h.set rfl rfl rfl rfl).trans ⟨rfl, rfl, fun h => ⟨h, rfl⟩, [.streamStarted], rfl,
    fun _ h => List.mem_singleton.1 h ▸ rfl⟩

theorem Quiet.startReadStream (cmd : Byte) (h : Quiet s t) : Quiet s (startReadStream cmd t) :=
  (h.stopCddaPlayback.clearSectorBuffer.clearWaiting.resetAudioForMode.takeSetloc
    |>.clearSetloc).armStream cmd

theorem Quiet.audioPush {frames : List Frame} (h : Quiet s t) (hline : u.line = t.line)
    (hpending : u.pending = t.pending) (hwaiting : u.waiting = t.waiting)
    (hlog : u.log = .audioPush frames :: t.log) : Quiet s u :=
  h.trans ⟨hline, hpending, fun h => ⟨hwaiting ▸ h, hwaiting ▸ rfl⟩, [.audioPush frames], hlog,
    fun _ h => List.mem_singleton.1 h ▸ rfl⟩

theorem Quiet.followXaStream (d : Delivery) (h : Quiet s t) : Quiet s (followXaStream d t) :=
  Quiet.ite (h.set rfl rfl rfl rfl) h

theorem Quiet.playXaSector (raw : Fin 2352 → Byte) (d : Delivery) (rate : ℕ) (h : Quiet s t) :
    Quiet s (playXaSector raw d rate t) :=
  h.audioPush rfl rfl rfl rfl

theorem Quiet.maybeDeliverXaAudio (raw : Option (Fin 2352 → Byte)) (d : Delivery)
    (h : Quiet s t) : Quiet s (maybeDeliverXaAudio raw d t).1 := by
  unfold Cdrom.maybeDeliverXaAudio
  split
  · exact h
  · split
    · exact h
    · split
      · exact (h.followXaStream d).playXaSector _ d _
      · exact h

theorem Quiet.updateLastValidSubq (env : Env) (lba : ℤ) (h : Quiet s t) :
    Quiet s (updateLastValidSubq env lba t) := by
  unfold Cdrom.updateLastValidSubq
  split
  · split
    · exact h.set rfl rfl rfl rfl
    · exact h
  · exact h

theorem Quiet.storeSector (r : SectorRead) (buf : SectorBuf) (h : Quiet s t) :
    Quiet s (storeSector r buf t) :=
  Quiet.ite (h.trans ⟨rfl, rfl, fun h => ⟨h, rfl⟩, [.filled (t.buffers.ringWrite + 1) r.lba], rfl,
    fun _ h => List.mem_singleton.1 h ▸ rfl⟩) h

theorem Quiet.recordSector (r : SectorRead) (buf : SectorBuf) (h : Quiet s t) :
    Quiet s (recordSector r buf t) := h.set rfl rfl rfl rfl

theorem Quiet.markXaEnd (h : Quiet s t) : Quiet s (markXaEnd t) := h.set rfl rfl rfl rfl

theorem Quiet.clearXaEnd (h : Quiet s t) : Quiet s (clearXaEnd t) := h.set rfl rfl rfl rfl

theorem Quiet.noteXaEnd (d : Delivery) (h : Quiet s t) : Quiet s (noteXaEnd d t) :=
  Quiet.ite (Quiet.ite h.markXaEnd.stopReadStream h.markXaEnd) h

theorem Quiet.readSectorAt (env : Env) (supplied : Option (Fin 2352 → Byte)) (h : Quiet s t) :
    Quiet s (readSectorAt env supplied t).1 := by
  unfold Cdrom.readSectorAt
  exact (((h.updateLastValidSubq env _).maybeDeliverXaAudio _ _).noteXaEnd _ |>.storeSector _ _)
    |>.recordSector _ _

theorem Quiet.advanceRead (h : Quiet s t) : Quiet s (advanceRead t) := h.set rfl rfl rfl rfl

theorem Quiet.continueDma (taken : Bool) (h : Quiet s t) : Quiet s (continueDma taken t) :=
  Quiet.ite ((h.selectSlot _).emit rfl) h

theorem Quiet.deliverReadSectorWithoutIrq (env : Env) (continuation : Bool) (h : Quiet s t) :
    Quiet s (deliverReadSectorWithoutIrq env continuation t).1 :=
  (h.readSectorAt env none).advanceRead.continueDma _

theorem Quiet.startCddaPlayback {requested : ℤ} (h : Quiet s t)
    (hstart : startCddaPlayback env requested t = some u) : Quiet s u := by
  unfold Cdrom.startCddaPlayback at hstart
  dsimp only at hstart
  split at hstart
  · cases hstart
  · obtain rfl := Option.some.inj hstart
    exact h.stopReadStream.audioReset.set rfl rfl rfl rfl

theorem Quiet.haltDrive (h : Quiet s t) : Quiet s (haltDrive t) :=
  h.stopReadStream.stopCddaPlayback.xaResetDecode.audioReset

/-! ## Commands -/

/-- The commands with a second response, and the types of a response. -/
abbrev Armable (cmd : Byte) : Prop :=
  cmd ∈ [0x07#8, 0x08#8, 0x09#8, 0x0A#8, 0x15#8, 0x16#8, 0x1A#8, 0x1E#8]

abbrev ResponseType (type : Byte) : Prop := type ≠ 0#8 ∧ type &&& 0x1F#8 = type

/-- A handler: a quiet part, one response, at most one second response. -/
inductive Answered (env : Env) (cmd : Byte) (s : Controller) : Controller → Prop
  | plain {u : Controller} {type : Byte} : Quiet s u → ResponseType type →
      Answered env cmd s (setIrq env (.command cmd) type u)
  | armed {u : Controller} {type : Byte} {latency : ℤ} : Quiet s u → ResponseType type →
      Armable cmd → Answered env cmd s (pendingArm env cmd latency 1
        (setIrq env (.command cmd) type u))

variable {cmd : Byte}

theorem responseType_ack : ResponseType irqAck := by decide

theorem responseType_error : ResponseType irqError := by decide

theorem Quiet.answer {type : Byte} (htype : ResponseType type) (bytes : List Byte)
    (h : Quiet s t) : Answered env cmd s (answer env cmd type bytes t) :=
  .plain (h.responsePushAll bytes) htype

theorem Quiet.acknowledge (h : Quiet s t) : Answered env cmd s (acknowledge env cmd t) :=
  h.answer responseType_ack _

theorem Quiet.acknowledgeThen (latency : ℤ) (hcmd : Armable cmd) (h : Quiet s t) :
    Answered env cmd s (acknowledgeThen env cmd latency t) :=
  .armed (h.responsePushAll _) responseType_ack hcmd

theorem Answered.ite {p : Prop} [Decidable p] (ht : Answered env cmd s t)
    (hu : Answered env cmd s u) : Answered env cmd s (if p then t else u) := by
  split
  · exact ht
  · exact hu

theorem Quiet.getStat (h : Quiet s t) : Answered env cmd s (getStat env cmd t) :=
  Quiet.answer responseType_ack _
    (Quiet.ite (h.set rfl rfl rfl rfl) (h.set rfl rfl rfl rfl))

theorem Quiet.setLoc (h : Quiet s t) : Answered env cmd s (setLoc env cmd t) :=
  Answered.ite (Answered.ite (h.answer responseType_error _)
    (Quiet.acknowledge (h.set rfl rfl rfl rfl))) h.acknowledge

theorem Quiet.readCommand (h : Quiet s t) : Answered env cmd s (readCommand env cmd t) :=
  Answered.ite (h.answer responseType_error _)
    (Answered.ite h.clearSetloc.acknowledge (h.startReadStream cmd).acknowledge)

theorem Quiet.motorOn (hcmd : Armable cmd) (h : Quiet s t) :
    Answered env cmd s (motorOn env cmd t) :=
  Answered.ite (h.answer responseType_error _) (h.acknowledgeThen _ hcmd)

theorem Quiet.stopCommand (hcmd : Armable cmd) (h : Quiet s t) :
    Answered env cmd s (stopCommand env cmd t) :=
  Quiet.acknowledgeThen _ hcmd (h.haltDrive.set rfl rfl rfl rfl)

theorem Quiet.pauseCommand (hcmd : Armable cmd) (h : Quiet s t) :
    Answered env cmd s (pauseCommand env cmd t) :=
  Quiet.acknowledgeThen _ hcmd (h.haltDrive.set rfl rfl rfl rfl)

theorem Quiet.initCommand (hcmd : Armable cmd) (h : Quiet s t) :
    Answered env cmd s (initCommand env cmd t) :=
  Quiet.acknowledgeThen _ hcmd
    (h.stopReadStream.stopCddaPlayback.audioReset.xaResetDecode.set rfl rfl rfl rfl)

theorem Quiet.setFilter (h : Quiet s t) : Answered env cmd s (setFilter env cmd t) :=
  Answered.ite (Quiet.acknowledge (Quiet.xaResetDecode (h.set rfl rfl rfl rfl))) h.acknowledge

theorem Quiet.setMode (h : Quiet s t) : Answered env cmd s (setMode env cmd t) :=
  Answered.ite
    (Answered.ite
      (Quiet.acknowledge (Quiet.audioReset (Quiet.xaResetDecode (h.set rfl rfl rfl rfl))))
      (Quiet.acknowledge (h.set rfl rfl rfl rfl)))
    h.acknowledge

theorem Quiet.getlocL (h : Quiet s t) : Answered env cmd s (getlocL env cmd t) :=
  Answered.ite (h.answer responseType_error _) (h.answer responseType_ack _)

theorem Quiet.getlocP (h : Quiet s t) : Answered env cmd s (getlocP env cmd t) :=
  Answered.ite ((h.updateLastValidSubq env _).answer responseType_ack _)
    ((h.updateLastValidSubq env _).answer responseType_ack _)

theorem Quiet.getTD (h : Quiet s t) : Answered env cmd s (getTD env cmd t) :=
  Answered.ite (h.answer responseType_error _) (h.answer responseType_ack _)

theorem Quiet.playCommand (h : Quiet s t) : Answered env cmd s (playCommand env cmd t) := by
  unfold Cdrom.playCommand
  dsimp only
  refine Answered.ite (h.answer responseType_error _) ?_
  split
  case h_1 hstart => exact (h.startCddaPlayback hstart).acknowledge
  case h_2 =>
    exact Answered.ite (Quiet.acknowledge (h.stopReadStream.set rfl rfl rfl rfl))
      (h.answer responseType_error _)

theorem Quiet.seekCommand (hcmd : Armable cmd) (h : Quiet s t) :
    Answered env cmd s (seekCommand env cmd t) :=
  Answered.ite (h.answer responseType_error _)
    (Quiet.acknowledgeThen _ hcmd
      (h.stopReadStream.xaResetDecode.audioReset.stopCddaPlayback.set rfl rfl rfl rfl))

theorem Quiet.testCommand (h : Quiet s t) : Answered env cmd s (testCommand env cmd t) :=
  Answered.ite (h.answer responseType_ack _) h.acknowledge

/-- A case of the `switch`. -/
theorem Answered.case {p : Prop} [Decidable p] (ht : p → Answered env cmd s t)
    (hu : Answered env cmd s u) : Answered env cmd s (if p then t else u) := by
  split
  case isTrue hp => exact ht hp
  case isFalse => exact hu

/-- Every command, known or not. -/
theorem dispatch_answered (env : Env) (cmd : Byte) (s : Controller) :
    Answered env cmd s (dispatch env cmd s) := by
  have h := Quiet.refl s
  unfold dispatch
  refine Answered.case (fun _ => h.getStat) (Answered.case (fun _ => h.setLoc)
    (Answered.case (fun _ => h.playCommand) (Answered.case (fun _ => h.readCommand) ?_)))
  refine Answered.case (fun hcmd => h.motorOn (hcmd ▸ by decide)) ?_
  refine Answered.case (fun hcmd => h.stopCommand (hcmd ▸ by decide)) ?_
  refine Answered.case (fun hcmd => h.pauseCommand (hcmd ▸ by decide)) ?_
  refine Answered.case (fun hcmd => h.initCommand (hcmd ▸ by decide)) ?_
  refine Answered.case (fun _ => Quiet.acknowledge (h.set rfl rfl rfl rfl)) ?_
  refine Answered.case (fun _ => Quiet.acknowledge (h.set rfl rfl rfl rfl)) ?_
  refine Answered.case (fun _ => h.setFilter) (Answered.case (fun _ => h.setMode) ?_)
  refine Answered.case (fun _ => h.answer responseType_ack _) ?_
  refine Answered.case (fun _ => h.getlocL) (Answered.case (fun _ => h.getlocP) ?_)
  refine Answered.case (fun _ => h.answer responseType_ack _) ?_
  refine Answered.case (fun _ => h.getTD) ?_
  refine Answered.case (fun hcmd => h.seekCommand (hcmd.elim (· ▸ by decide) (· ▸ by decide))) ?_
  refine Answered.case (fun _ => h.testCommand) ?_
  refine Answered.case (fun hcmd => h.acknowledgeThen _ (hcmd ▸ by decide)) ?_
  refine Answered.case (fun hcmd => h.acknowledgeThen _ (hcmd ▸ by decide)) ?_
  exact h.answer responseType_error _

end PsxRecomp.Cdrom
