import PsxRecomp.Cdrom.Frame

/-! The response protocol over whole runs. About ten producers share the one response slot; every
one of them finds it free, every response is presented at most once and not before its time, and
neither a waiting notification nor an armed second response gets lost. -/
namespace PsxRecomp.Cdrom
set_option autoImplicit false

/-! ## What the log says -/

/-- Each response finds the flag at 0. -/
def SlotFree (log : List Event) : Prop :=
  ∀ source before type now, .response source before type now ∈ log → before = 0#8

/-- The time of the last response, if it was not raised since. -/
def armedAt : List Event → Option ℕ
  | [] => none
  | .response _ _ _ now :: _ => some now
  | .raise _ _ :: _ => none
  | _ :: es => armedAt es

/-- Each raise has a response of its own, at least 5000 cycles old. -/
def RaisesOnce : List Event → Prop
  | [] => True
  | .raise _ now :: es => (∃ armed, armedAt es = some armed ∧ armed + 5000 ≤ now) ∧ RaisesOnce es
  | _ :: es => RaisesOnce es

/-- The second response left armed. It goes by its delivery, or with the response to a later
command, and by nothing else. -/
def armedSecond : List Event → Option Byte
  | [] => none
  | .armed cmd :: _ => some cmd
  | .response (.second _) _ _ _ :: _ => none
  | .response (.command _) _ _ _ :: _ => none
  | _ :: es => armedSecond es

/-- Each second response delivered is the one that was armed. -/
def SecondsArmed : List Event → Prop
  | [] => True
  | .response (.second cmd) _ _ _ :: es => armedSecond es = some cmd ∧ SecondsArmed es
  | _ :: es => SecondsArmed es

/-- A source that is neither a command nor a second response. -/
def Source.plain : Source → Bool
  | .command _ => false
  | .second _ => false
  | _ => true

structure LogOk (log : List Event) : Prop where
  free : SlotFree log
  raises : RaisesOnce log
  seconds : SecondsArmed log

section Log

variable {e : Event} {es log : List Event} {source : Source} {before type : Byte} {now : ℕ}

theorem armedAt_side (he : e.side = true) : armedAt (e :: log) = armedAt log := by
  cases e with
  | response => cases he
  | raise => cases he
  | _ => rfl

theorem armedSecond_side (he : e.side = true) : armedSecond (e :: log) = armedSecond log := by
  cases e with
  | response => cases he
  | armed => cases he
  | _ => rfl

theorem armedSecond_plain (hs : source.plain = true) :
    armedSecond (.response source before type now :: log) = armedSecond log := by
  cases source with
  | command => cases hs
  | second => cases hs
  | _ => rfl

theorem armedAt_append (hes : ∀ e ∈ es, e.side = true) : armedAt (es ++ log) = armedAt log := by
  induction es with
  | nil => rfl
  | cons e es ih =>
    obtain ⟨he, hes⟩ := List.forall_mem_cons.1 hes
    rw [List.cons_append, armedAt_side he, ih hes]

theorem armedSecond_append (hes : ∀ e ∈ es, e.side = true) :
    armedSecond (es ++ log) = armedSecond log := by
  induction es with
  | nil => rfl
  | cons e es ih =>
    obtain ⟨he, hes⟩ := List.forall_mem_cons.1 hes
    rw [List.cons_append, armedSecond_side he, ih hes]

theorem SlotFree.cons (h : SlotFree log)
    (he : ∀ source before type now, e = .response source before type now → before = 0#8) :
    SlotFree (e :: log) := by
  intro source before type now hmem
  rcases List.mem_cons.1 hmem with heq | hmem
  · exact he source before type now heq.symm
  · exact h source before type now hmem

theorem LogOk.side (h : LogOk log) (he : e.side = true) : LogOk (e :: log) := by
  refine ⟨h.free.cons ?_, ?_, ?_⟩
  · rintro source before type now rfl
    cases he
  · cases e with
    | raise => cases he
    | _ => exact h.raises
  · cases e with
    | response => cases he
    | _ => exact h.seconds

theorem LogOk.armed (h : LogOk log) (cmd : Byte) : LogOk (.armed cmd :: log) :=
  ⟨h.free.cons fun _ _ _ _ he => Event.noConfusion he, h.raises, h.seconds⟩

theorem LogOk.append (h : LogOk log) (hes : ∀ e ∈ es, e.side = true) : LogOk (es ++ log) := by
  induction es with
  | nil => exact h
  | cons e es ih =>
    obtain ⟨he, hes⟩ := List.forall_mem_cons.1 hes
    exact (ih hes).side he

theorem LogOk.response (h : LogOk log)
    (hsecond : ∀ cmd, source = .second cmd → armedSecond log = some cmd) :
    LogOk (.response source 0#8 type now :: log) := by
  refine ⟨h.free.cons ?_, h.raises, ?_⟩
  · intro source' before' type' now' he
    cases he
    rfl
  · cases source with
    | second cmd => exact ⟨hsecond cmd rfl, h.seconds⟩
    | _ => exact h.seconds

theorem LogOk.raise {armed : ℕ} {detail : Byte} (h : LogOk log) (harmed : armedAt log = some armed)
    (hnow : armed + 5000 ≤ now) : LogOk (.raise detail now :: log) :=
  ⟨h.free.cons fun _ _ _ _ he => Event.noConfusion he, ⟨⟨armed, harmed, hnow⟩, h.raises⟩, h.seconds⟩

end Log

/-! ## The invariant -/

/-- The second response the state holds. -/
def Controller.second (s : Controller) : Option Byte :=
  if s.pending.pending then some s.pending.cmd else none

structure Protocol (s : Controller) : Prop where
  log : LogOk s.log
  armed : s.line.flag ≠ 0#8 → s.line.latched = false →
    ∃ t, armedAt s.log = some t ∧ s.line.presentDue = t + 5000
  low : s.line.flag &&& 0x1F#8 = s.line.flag
  second : s.second = armedSecond s.log
  kinds : s.pending.pending = true → Armable s.pending.cmd

/-- A waiting notification is behind a response, or has a time. -/
def NotStranded (s : Controller) : Prop :=
  s.waiting.dataready = true → s.line.flag ≠ 0#8 ∨ s.waiting.presentDue ≠ 0

structure Safe (s : Controller) : Prop where
  protocol : Protocol s
  notStranded : NotStranded s

variable {s t u : Controller} {env : Env} {source : Source} {type cmd : Byte}

theorem Protocol.quiet (h : Protocol s) (hq : Quiet s t) : Protocol t := by
  obtain ⟨es, hlog, hes⟩ := hq.log
  refine ⟨?_, ?_, ?_, ?_, ?_⟩
  · rw [hlog]
    exact h.log.append hes
  · rw [hq.line, hlog, armedAt_append hes]
    exact h.armed
  · rw [hq.line]
    exact h.low
  · unfold Controller.second
    rw [hq.pending, hlog, armedSecond_append hes]
    exact h.second
  · rw [hq.pending]
    exact h.kinds

theorem NotStranded.quiet (h : NotStranded s) (hq : Quiet s t) : NotStranded t := by
  intro ht
  obtain ⟨hs, hdue⟩ := hq.waiting ht
  rw [hq.line, hdue]
  exact h hs

theorem Safe.quiet (h : Safe s) (hq : Quiet s t) : Safe t :=
  ⟨h.protocol.quiet hq, h.notStranded.quiet hq⟩

theorem Protocol.setIrq (h : Protocol s) (hflag : s.line.flag = 0#8) (htype : ResponseType type)
    (hsource : source.plain = true) : Protocol (setIrq env source type s) := by
  refine ⟨?_, fun _ _ => ⟨env.now, rfl, rfl⟩, htype.2, ?_, h.kinds⟩
  · show LogOk (.response source s.line.flag type env.now :: s.log)
    rw [hflag]
    refine h.log.response ?_
    rintro cmd rfl
    cases hsource
  · show s.second = armedSecond (.response source s.line.flag type env.now :: s.log)
    rw [armedSecond_plain hsource]
    exact h.second

/-- A presentation needs a response that is set and not presented yet: the invariant's armed one. -/
theorem Protocol.presentIrq (h : Protocol s) : Protocol (presentIrq env s) := by
  unfold Cdrom.presentIrq
  split
  case isTrue => exact h
  case isFalse hdue =>
    split
    case isTrue hraise =>
      obtain ⟨hmask, hlatched⟩ := hraise
      have hflag : s.line.flag ≠ 0#8 := by
        intro h0
        unfold maskMatchesReason at hmask
        rw [h0] at hmask
        simp at hmask
      obtain ⟨t, ht, hpresent⟩ := h.armed hflag hlatched
      refine ⟨h.log.raise ht ?_, fun _ hl => Bool.noConfusion hl, h.low, h.second, h.kinds⟩
      push Not at hdue
      have hle := hdue (by omega)
      omega
    case isFalse => exact h

theorem presentIrq_line (env : Env) (s : Controller) :
    (presentIrq env s).line.flag = s.line.flag ∧ (presentIrq env s).waiting = s.waiting := by
  unfold presentIrq
  split
  · exact ⟨rfl, rfl⟩
  · split <;> exact ⟨rfl, rfl⟩

theorem NotStranded.presentIrq (h : NotStranded s) : NotStranded (presentIrq env s) := by
  unfold NotStranded
  rw [(presentIrq_line env s).1, (presentIrq_line env s).2]
  exact h

theorem Safe.presentIrq (h : Safe s) : Safe (presentIrq env s) :=
  ⟨h.protocol.presentIrq, h.notStranded.presentIrq⟩

/-! ## Producers -/

/-- A producer leaves the protocol alone or, with the slot free, gives a response. -/
inductive Told (env : Env) (s : Controller) : Controller → Prop
  | quiet {t : Controller} : Quiet s t → Told env s t
  | told {u : Controller} {source : Source} {type : Byte} : Quiet s u → s.line.flag = 0#8 →
      source.plain = true → ResponseType type →
      Told env s (presentIrq env (setIrq env source type u))

theorem Protocol.told (h : Protocol s) (ht : Told env s t) : Protocol t := by
  cases ht with
  | quiet hq => exact h.quiet hq
  | told hq hflag hsource htype =>
    have hflag' := (congrArg Line.flag hq.line).trans hflag
    exact ((h.quiet hq).setIrq hflag' htype hsource).presentIrq

theorem Safe.told (h : Safe s) (ht : Told env s t) : Safe t := by
  refine ⟨h.protocol.told ht, ?_⟩
  cases ht with
  | quiet hq => exact h.notStranded.quiet hq
  | told _ _ _ htype => exact NotStranded.presentIrq fun _ => .inl htype.1

/-- Producers that look at the flag themselves. -/
theorem told_unless {p : Prop} [Decidable p] (hq : Quiet s t) (hsource : source.plain = true)
    (htype : ResponseType type) :
    Told env s (if p ∨ s.line.flag ≠ 0#8 then s
      else presentIrq env (setIrq env source type t)) := by
  split
  case isTrue => exact .quiet (Quiet.refl s)
  case isFalse h =>
    push Not at h
    exact .told hq h.2 hsource htype

theorem told_presentLidOpen (env : Env) (s : Controller) : Told env s (presentLidOpen env s) :=
  told_unless (Quiet.responsePushAll _ (Quiet.responseClear (Quiet.of_eq rfl rfl rfl rfl)))
    rfl (by decide)

theorem told_deliverCddaDataEnd (env : Env) (s : Controller) :
    Told env s (deliverCddaDataEnd env s) :=
  told_unless (Quiet.responsePushAll _ (Quiet.responseClear (Quiet.of_eq rfl rfl rfl rfl)))
    rfl (by decide)

theorem told_deliverXaDataEnd (env : Env) (s : Controller) :
    Told env s (deliverXaDataEnd env s) :=
  told_unless ((Quiet.refl s).clearXaEnd.responseClear.responsePushAll _) rfl (by decide)

theorem told_deliverCddaReport (env : Env) (pcm : List Frame) (s : Controller) :
    Told env s (deliverCddaReport env pcm s) :=
  told_unless ((Quiet.refl s).responseClear.responsePushAll _) rfl (by decide)

theorem told_presentWaiting (env : Env) (s : Controller) : Told env s (presentWaiting env s) := by
  refine told_unless ?_ rfl (by decide)
  refine Quiet.selectSlot _ (Quiet.responsePushAll _ (Quiet.responseClear ?_))
  exact ⟨rfl, rfl, fun h => Bool.noConfusion h, [], rfl, fun _ h => absurd h List.not_mem_nil⟩

theorem told_deliverReadSector (env : Env) (supplied : Option (Fin 2352 → Byte))
    (hflag : s.line.flag = 0#8) : Told env s (deliverReadSector env supplied s) := by
  have hq := ((Quiet.refl s).readSectorAt env supplied).advanceRead
  unfold deliverReadSector respondSector
  dsimp only
  split
  · exact .told (hq.clearXaEnd.responseClear.responsePushAll _) hflag rfl (by decide)
  · split
    · exact .told ((hq.responseClear.responsePushAll _).selectSlot _) hflag rfl (by decide)
    · exact .quiet hq

/-! ## Commands and second responses -/

theorem Protocol.answered (h : Protocol s) (hflag : s.line.flag = 0#8)
    (ha : Answered env cmd (responseClear { s with
      pending := { s.pending with pending := false } }) t) : Protocol t ∧ t.line.flag ≠ 0#8 := by
  have hcommand : ∀ {u : Controller} {type : Byte},
      Quiet (responseClear { s with pending := { s.pending with pending := false } }) u →
      ResponseType type → LogOk (.response (.command cmd) u.line.flag type env.now :: u.log) ∧
        u.pending.pending = false := by
    intro u type hq htype
    obtain ⟨es, hlog, hes⟩ := hq.log
    refine ⟨?_, congrArg PendingCmd.pending hq.pending⟩
    rw [(congrArg Line.flag hq.line).trans hflag, hlog]
    exact (h.log.append hes).response fun _ he => Source.noConfusion he
  cases ha with
  | plain hq htype =>
    obtain ⟨hlog, hpending⟩ := hcommand hq htype
    refine ⟨⟨hlog, fun _ _ => ⟨env.now, rfl, rfl⟩, htype.2, if_neg ?_, fun hp => ?_⟩, htype.1⟩
    · exact Bool.eq_false_iff.1 hpending
    · exact Bool.noConfusion (hp.symm.trans hpending)
  | armed hq htype hcmd =>
    obtain ⟨hlog, _⟩ := hcommand hq htype
    exact ⟨⟨hlog.armed cmd, fun _ _ => ⟨env.now, rfl, rfl⟩, htype.2, rfl, fun _ => hcmd⟩, htype.1⟩

theorem Safe.execCommand (h : Safe s) (hflag : s.line.flag = 0#8) :
    Safe (execCommand env cmd s) := by
  obtain ⟨hp, hset⟩ := h.protocol.answered hflag (dispatch_answered env cmd _)
  have hparams := hp.quiet (Quiet.of_eq rfl rfl rfl rfl (t := { dispatch env cmd (responseClear
    { s with pending := { s.pending with pending := false } }) with
      params := { (dispatch env cmd (responseClear
        { s with pending := { s.pending with pending := false } })).params with count := 0 } }))
  exact ⟨hparams.presentIrq, NotStranded.presentIrq fun _ => .inl hset⟩

theorem Safe.tryExecuteQueued (h : Safe s) : Safe (tryExecuteQueued env s) := by
  unfold Cdrom.tryExecuteQueued
  split
  case isTrue => exact h
  case isFalse hc =>
    push Not at hc
    exact Safe.execCommand (h.quiet (Quiet.of_eq rfl rfl rfl rfl)) hc.2

theorem Safe.queueOrExec (h : Safe s) : Safe (queueOrExec env cmd s) := by
  unfold Cdrom.queueOrExec
  split
  case isTrue hflag => exact h.execCommand hflag
  case isFalse => exact h.quiet (Quiet.of_eq rfl rfl rfl rfl)

/-- A command that can be armed has an answer when it is due. -/
theorem secondResponse_some (env : Env) (s : Controller) (hcmd : Armable cmd) :
    ∃ u type bytes, secondResponse env cmd s = some (u, type, bytes) ∧ ResponseType type ∧
      Quiet s u := by
  simp only [Armable, List.mem_cons, List.not_mem_nil, or_false] at hcmd
  have hdone : ∀ u : Controller, Quiet s u → secondResponse env cmd s =
      some (u, irqComplete, [u.stat]) → ∃ u type bytes, secondResponse env cmd s =
        some (u, type, bytes) ∧ ResponseType type ∧ Quiet s u :=
    fun u hq h => ⟨u, irqComplete, [u.stat], h, by decide, hq⟩
  rcases hcmd with rfl | rfl | rfl | rfl | rfl | rfl | rfl | rfl
  · refine hdone _ ?_ rfl
    exact Quiet.of_eq rfl rfl rfl rfl
  · refine hdone _ ?_ rfl
    exact Quiet.of_eq rfl rfl rfl rfl
  · refine hdone _ ?_ rfl
    exact Quiet.of_eq rfl rfl rfl rfl
  · exact hdone _ (Quiet.refl s) rfl
  · refine hdone _ ?_ rfl
    exact Quiet.of_eq rfl rfl rfl rfl
  · refine hdone _ ?_ rfl
    exact Quiet.of_eq rfl rfl rfl rfl
  · have hid : secondResponse env 0x1A#8 s =
        if hasDisc env s = false then some (s, irqError, [s.stat ||| statIdError, 0x80#8])
        else some (s, irqComplete, [s.stat, 0x00#8, 0x20#8, 0x00#8] ++ List.ofFn s.discScex) := rfl
    rw [hid]
    split
    · exact ⟨_, _, _, rfl, by decide, Quiet.refl s⟩
    · exact ⟨_, _, _, rfl, by decide, Quiet.refl s⟩
  · exact hdone _ (Quiet.refl s) rfl

theorem not_read_of_armable (hcmd : Armable cmd) : ¬(cmd = 0x06#8 ∨ cmd = 0x1B#8) := by
  rintro (rfl | rfl)
  · exact absurd hcmd (by decide)
  · exact absurd hcmd (by decide)

theorem Safe.processPending (h : Safe s) : Safe (processPending env s) := by
  unfold Cdrom.processPending
  split
  case isTrue => exact h
  case isFalse hc =>
    push Not at hc
    obtain ⟨hpending, _, hflag⟩ := hc
    have hpending : s.pending.pending = true := by simpa using hpending
    have hcmd := h.protocol.kinds hpending
    obtain ⟨u, type, bytes, hu, htype, hq⟩ := secondResponse_some env (responseClear
      { s with pending := { s.pending with pending := false, due := 0 } }) hcmd
    unfold deliverSecond
    rw [if_neg (not_read_of_armable hcmd), hu]
    have hq := hq.responsePushAll bytes
    obtain ⟨es, hlog, hes⟩ := hq.log
    -- the response is to the command the log has armed, and nothing is armed behind it
    have hsecond : armedSecond s.log = some s.pending.cmd := by
      rw [← h.protocol.second]
      exact if_pos hpending
    have hset : Protocol (setIrq env (.second s.pending.cmd) type (responsePushAll bytes u)) := by
      have hnone : (responsePushAll bytes u).pending.pending = false :=
        congrArg PendingCmd.pending hq.pending
      refine ⟨?_, fun _ _ => ⟨env.now, rfl, rfl⟩, htype.2, if_neg ?_, fun hp => ?_⟩
      · show LogOk (.response _ (responsePushAll bytes u).line.flag type env.now ::
          (responsePushAll bytes u).log)
        rw [(congrArg Line.flag hq.line).trans hflag, hlog]
        refine (h.protocol.log.append hes).response fun cmd he => ?_
        cases he
        exact (armedSecond_append hes).trans hsecond
      · exact Bool.eq_false_iff.1 hnone
      · exact Bool.noConfusion (hp.symm.trans hnone)
    exact ⟨hset.presentIrq, NotStranded.presentIrq fun _ => .inl htype.1⟩

/-! ## The register file -/

theorem clearFlag_low (val : Byte) (h : s.line.flag &&& 0x1F#8 = s.line.flag) :
    (clearFlag val s).line.flag &&& 0x1F#8 = (clearFlag val s).line.flag := by
  show s.line.flag &&& ~~~(val &&& 0x1F#8) &&& 0x1F#8 = s.line.flag &&& ~~~(val &&& 0x1F#8)
  rw [BitVec.and_assoc, BitVec.and_comm (~~~(val &&& 0x1F#8)), ← BitVec.and_assoc, h]

theorem Protocol.clearFlag (val : Byte) (h : Protocol s) : Protocol (clearFlag val s) := by
  refine ⟨h.log, fun hflag hlatched => h.armed ?_ hlatched, clearFlag_low val h.low, h.second,
    h.kinds⟩
  intro h0
  apply hflag
  show s.line.flag &&& ~~~(val &&& 0x1F#8) = 0#8
  rw [h0, BitVec.zero_and]

theorem Protocol.acknowledgeFlag (val : Byte) (h : Protocol s) :
    Protocol (acknowledgeFlag env val s) := by
  have hc := h.clearFlag val
  unfold Cdrom.acknowledgeFlag
  dsimp only
  split
  case isTrue hack =>
    have hlatch : Protocol { Cdrom.clearFlag val s with
        line := { (Cdrom.clearFlag val s).line with latched := false } } :=
      ⟨hc.log, fun hflag _ => absurd (hc.low.symm.trans hack.2) hflag, hc.low, hc.second, hc.kinds⟩
    exact hlatch.told (told_presentLidOpen env _)
  case isFalse => exact hc

theorem Protocol.set_waiting {waiting : Waiting} (h : Protocol s) :
    Protocol { s with waiting := waiting } :=
  ⟨h.log, h.armed, h.low, h.second, h.kinds⟩

theorem Safe.scheduleWaiting (h : Protocol s) : Safe (scheduleWaiting env s) := by
  unfold Cdrom.scheduleWaiting
  split
  case isTrue => exact ⟨h.set_waiting, fun _ => .inr (Nat.succ_ne_zero (env.now + 499))⟩
  case isFalse hc =>
    push Not at hc
    exact ⟨h, fun hready => .inr (hc hready)⟩

theorem Safe.writeAck (val : Byte) (h : Safe s) : Safe (writeAck env val s) := by
  have hparams : Protocol (resetParams val (acknowledgeFlag env val s)) :=
    (h.protocol.acknowledgeFlag val).quiet (Quiet.ite (Quiet.of_eq rfl rfl rfl rfl) (Quiet.refl _))
  exact (Safe.scheduleWaiting hparams).processPending.tryExecuteQueued

theorem Safe.cdromWrite (addr : BitVec 32) (val : Byte) (h : Safe s) :
    Safe (cdromWrite env addr val s) := by
  have hset : ∀ {t : Controller}, t.line = s.line → t.pending = s.pending →
      t.waiting = s.waiting → t.log = s.log → Safe t :=
    fun h1 h2 h3 h4 => h.quiet (Quiet.of_eq h1 h2 h3 h4)
  have hite : ∀ {p : Prop} [Decidable p] {t u : Controller}, Safe t → Safe u →
      Safe (if p then t else u) := fun ht hu => by split; exacts [ht, hu]
  unfold Cdrom.cdromWrite
  refine hite (hset rfl rfl rfl rfl) (hite ?_ (hite ?_ (hite ?_ h)))
  · exact hite h.queueOrExec (hite (hset rfl rfl rfl rfl) h)
  · refine hite (h.quiet (Quiet.ite (Quiet.of_eq rfl rfl rfl rfl) (Quiet.refl s))) (hite ?_
      (hite (hset rfl rfl rfl rfl) (hite (hset rfl rfl rfl rfl) h)))
    exact ⟨⟨h.protocol.log, h.protocol.armed, h.protocol.low, h.protocol.second,
      h.protocol.kinds⟩, h.notStranded⟩
  · refine hite (hset rfl rfl rfl rfl) (hite (hite (hset rfl rfl rfl rfl) h)
      (hite ?_ (hite (h.writeAck val) h)))
    exact h.quiet (Quiet.ite (Quiet.loadDataFifo true (Quiet.of_eq rfl rfl rfl rfl))
      (Quiet.of_eq rfl rfl rfl rfl))

theorem quiet_cdromRead (addr : BitVec 32) (s : Controller) : Quiet s (cdromRead addr s).1 := by
  unfold cdromRead
  split
  · exact Quiet.refl s
  · split
    · split
      · exact Quiet.of_eq rfl rfl rfl rfl
      · exact Quiet.refl s
    · split
      · split
        · exact Quiet.of_eq rfl rfl rfl rfl
        · exact Quiet.refl s
      · split
        · split <;> exact Quiet.refl s
        · exact Quiet.refl s

theorem quiet_cdromDmaRead (s : Controller) : Quiet s (cdromDmaRead s).1 := by
  unfold cdromDmaRead
  dsimp only
  split
  · exact Quiet.of_eq rfl rfl rfl rfl
  · exact Quiet.refl s

theorem quiet_cdromDmaReady (env : Env) (s : Controller) : Quiet s (cdromDmaReady env s).1 :=
  Quiet.ite ((Quiet.refl s).loadDataFifo false) (Quiet.refl s)

/-! ## The clock -/

theorem quiet_closeLid (env : Env) (s : Controller) : Quiet s (closeLid env s) := by
  unfold closeLid
  split
  · exact Quiet.refl s
  · split
    · exact Quiet.refl s
    · exact Quiet.of_eq rfl rfl rfl rfl

theorem Safe.processLid (h : Safe s) : Safe (processLid env s) :=
  (h.told (told_presentLidOpen env s)).quiet (quiet_closeLid env _)

theorem Safe.releaseWaiting (h : Safe s) : Safe (releaseWaiting env s) := by
  unfold Cdrom.releaseWaiting
  split
  case isTrue =>
    have hp : Protocol { s with waiting := { s.waiting with presentDue := 0 } } :=
      h.protocol.set_waiting
    refine ⟨hp.told (told_presentWaiting env _), ?_⟩
    -- a notification that goes on waiting does so behind a response
    unfold presentWaiting
    split
    case isTrue hc =>
      intro hready
      rcases hc with hnone | hflag
      · exact Bool.noConfusion (hnone.symm.trans hready)
      · exact .inl hflag
    case isFalse =>
      have htype : irqDataReady ≠ 0#8 := by decide
      exact NotStranded.presentIrq fun _ => .inl htype
  case isFalse => exact h

theorem Safe.holdNotification (h : Safe s) (hflag : s.line.flag ≠ 0#8) :
    Safe (holdNotification s) :=
  ⟨⟨h.protocol.log.side rfl, h.protocol.armed, h.protocol.low, h.protocol.second,
    h.protocol.kinds⟩, fun _ => .inl hflag⟩

theorem Quiet.countLost (h : Quiet s t) : Quiet s (countLost t) :=
  Quiet.ite (h.trans ⟨rfl, rfl, fun h => ⟨h, rfl⟩, [.lost], rfl,
    fun _ h => List.mem_singleton.1 h ▸ rfl⟩) h

theorem Safe.sectorDue (h : Safe s) : Safe (sectorDue env s) := by
  unfold Cdrom.sectorDue
  split
  case isTrue hflag => exact h.told (told_deliverReadSector env none hflag)
  case isFalse hflag =>
    have hq := fun continuation => (Quiet.refl s).deliverReadSectorWithoutIrq env continuation
    split
    · exact h.quiet (hq true)
    · dsimp only
      split
      · have hlost := (hq false).countLost
        refine Safe.holdNotification (h.quiet hlost) ?_
        rw [hlost.line]
        exact hflag
      · exact h.quiet (hq false)

theorem Safe.processReadStream (cycles : BitVec 32) (h : Safe s) :
    Safe (processReadStream env cycles s) := by
  unfold Cdrom.processReadStream
  split
  · exact h
  · split
    · exact h.quiet (Quiet.of_eq rfl rfl rfl rfl)
    · have hpass : Safe (passRead cycles s) := h.quiet (Quiet.of_eq rfl rfl rfl rfl)
      dsimp only
      split
      · exact hpass.sectorDue.quiet (Quiet.of_eq rfl rfl rfl rfl)
      · exact hpass

theorem Safe.cddaSector (h : Safe s) : Safe (cddaSector env s) := by
  have hreport : Safe (reportSector env (cddaFrames (env.image.readCddaSector s.cdda.lba)) s) := by
    unfold reportSector
    split
    · exact h.told (told_deliverCddaReport env _ s)
    · exact h
  have hpush : Safe (pushCdda (cddaFrames (env.image.readCddaSector s.cdda.lba))
      (reportSector env (cddaFrames (env.image.readCddaSector s.cdda.lba)) s)) :=
    hreport.quiet (Quiet.audioPush (Quiet.refl _) rfl rfl rfl rfl)
  unfold Cdrom.cddaSector cddaTrackEnd
  dsimp only
  split
  · exact hpush
  · split
    · refine Safe.told (hpush.quiet ?_) (told_deliverCddaDataEnd env _)
      exact (Quiet.refl _).stopCddaPlayback.set rfl rfl rfl rfl
    · exact hpush.quiet (Quiet.of_eq rfl rfl rfl rfl)

theorem Safe.cddaLoop {n : ℕ} (h : Safe s) : Safe (cddaLoop env n s) := by
  induction n generalizing s with
  | zero => exact h
  | succ n ih =>
    unfold Cdrom.cddaLoop
    split
    · exact ih h.cddaSector
    · exact h

theorem Safe.processCddaStream (cycles : BitVec 32) (h : Safe s) :
    Safe (processCddaStream env cycles s) := by
  refine Safe.told ?_ (told_deliverCddaDataEnd env _)
  split
  · have hloop : Safe (Cdrom.cddaLoop env 16 (passCdda cycles s)) :=
      Safe.cddaLoop (h.quiet (Quiet.of_eq rfl rfl rfl rfl))
    exact hloop.quiet (Quiet.ite (Quiet.of_eq rfl rfl rfl rfl) (Quiet.refl _))
  · exact h

theorem Safe.cdromAdvance (cycles : BitVec 32) (h : Safe s) : Safe (cdromAdvance env cycles s) := by
  have hfront : Safe (advanceFront env s) :=
    h.processLid.presentIrq.processPending.tryExecuteQueued.releaseWaiting
  have hstreams : Safe (Cdrom.processCddaStream env cycles
      (Cdrom.processReadStream env cycles (advanceFront env s))) :=
    (hfront.processReadStream cycles).processCddaStream cycles
  exact (hstreams.told (told_deliverXaDataEnd env _)).processLid.presentIrq

/-! ## Runs -/

theorem Safe.access (a : Access) (h : Safe s) : Safe (access env s a).1 := by
  cases a with
  | write addr val => exact h.cdromWrite addr val
  | read addr => exact h.quiet (quiet_cdromRead addr s)
  | dmaRead => exact h.quiet (quiet_cdromDmaRead s)
  | dmaReady => exact h.quiet (quiet_cdromDmaReady env s)
  | advance cycles => exact h.cdromAdvance cycles

theorem safe_init (env : Env) (mounts : Bool) (old : Controller) :
    Safe (cdromInit env mounts old) where
  protocol := {
    log := ⟨fun _ _ _ _ h => absurd h List.not_mem_nil, trivial, trivial⟩
    armed := fun h => absurd rfl h
    low := by
      show 0#8 &&& 0x1F#8 = 0#8
      rfl
    second := rfl
    kinds := fun h => Bool.noConfusion h }
  notStranded h := Bool.noConfusion h

theorem Safe.run (calls : List Call) (h : Safe s) : Safe (runCalls s calls) := by
  induction calls generalizing s with
  | nil => exact h
  | cons c calls ih => exact ih (h.access c.access)

/-- In every run from `cdrom_init`: each response finds the slot free; each is raised at most once,
and not before 5000 cycles; a waiting notification is behind a response or has a time; and the
second response is the one the log leaves armed, each delivery being that of an armed one. -/
theorem response_protocol (env : Env) (mounts : Bool) (old : Controller) (calls : List Call) :
    let s := runCalls (cdromInit env mounts old) calls
    SlotFree s.log ∧ RaisesOnce s.log ∧
      (s.waiting.dataready = true → s.line.flag ≠ 0#8 ∨ s.waiting.presentDue ≠ 0) ∧
      s.second = armedSecond s.log ∧ SecondsArmed s.log := by
  have h := (safe_init env mounts old).run calls
  exact ⟨h.protocol.log.free, h.protocol.log.raises, h.notStranded, h.protocol.second,
    h.protocol.log.seconds⟩

end PsxRecomp.Cdrom
