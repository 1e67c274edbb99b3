import PsxRecomp.Sio.Pacing

/-! Acknowledges of shifted bytes: the device answers through a bit of `SIO_STAT` that a given
acknowledge leaves set. -/
namespace PsxRecomp.Sio
set_option autoImplicit false

/-! ## The device a byte goes to -/

variable {ω : Type}

inductive Addressed (ω : Type) where
  | nobody
  | pad (bus : PadBus)
  | card (selected : ℤ) (port : CardPort ω)

/-- The device that takes a byte, as it is before the byte. -/
def Core.addressed (c : Core ω) (tx : Byte) : Addressed ω :=
  match c.active with
  | .none =>
    let c := c.selectSlot
    if tx = 0x01 then .pad c.bus
    else
      let card := c.card.loadSlot c.bus.selectedSlot
      if tx = 0x81 then
        .card c.bus.selectedSlot { card.goTo .idle with slot := c.bus.selectedSlot }
      else if card.work.state ≠ .idle ∧ c.bus.selectedSlot = card.slot then
        .card c.bus.selectedSlot card
      else .nobody
  | .pad => .pad c.bus
  | .memcard =>
    if c.card.work.state = .idle ∧ tx ≠ 0x81 then
      if tx = 0x01 then .pad c.selectSlot.bus else .nobody
    else .card c.bus.selectedSlot c.card
  | .unknown _ => .nobody

def Addressed.acknowledges (F : Files ω) (tx : Byte) : Addressed ω → Bool
  | .nobody => false
  | .pad bus => (bus.processByte tx).ack
  | .card selected port => (mcProcessByte F selected tx port).ack

def ackVisible (stat : BitVec 16) : Bool := stat.getLsbD 7

theorem and_statAck (stat : BitVec 16) : stat &&& statAck ≠ 0 ↔ ackVisible stat = true := by
  have h : statAck = BitVec.twoPow 16 7 := by decide
  rw [h, BitVec.and_twoPow, ackVisible]
  cases stat.getLsbD 7 <;> decide

theorem ackVisible_idle (stat : BitVec 16) : ackVisible (stat ||| statIdle) = ackVisible stat := by
  have h : statIdle.getLsbD 7 = false := by decide
  rw [ackVisible, ackVisible, BitVec.getLsbD_or, h, Bool.or_false]

theorem ackVisible_answer (stat : BitVec 16) (ack : Bool) :
    ackVisible ((if ack then stat ||| statAck else stat) ||| statRxRdy ||| statIdle) =
      (ack || ackVisible stat) := by
  have h₁ : statAck.getLsbD 7 = true := by decide
  have h₂ : statRxRdy.getLsbD 7 = false := by decide
  rw [ackVisible_idle]
  rw [ackVisible, ackVisible, BitVec.getLsbD_or, h₂, Bool.or_false]
  cases ack with
  | true => rw [if_pos rfl, BitVec.getLsbD_or, h₁, Bool.or_true, Bool.true_or]
  | false => rfl

variable (F : Files ω) (c : Core ω) (tx : Byte)

/-- A byte leaves the bit set if its device acknowledges, and if it was set before. -/
theorem processByte_ackVisible :
    ackVisible (c.processByte F tx).1.stat =
      ((c.addressed tx).acknowledges F tx || ackVisible c.stat) := by
  unfold Core.processByte Core.addressed
  cases c.active with
  | none =>
    dsimp only
    unfold Core.firstByte
    dsimp only
    split_ifs
    · exact ackVisible_answer _ _
    · exact ackVisible_answer _ _
    · exact ackVisible_answer _ _
    · exact ackVisible_answer _ _
    · exact ackVisible_idle _
  | pad => exact ackVisible_answer _ _
  | memcard =>
    dsimp only
    unfold Core.nextCardByte
    dsimp only
    split_ifs
    · exact ackVisible_answer _ _
    · exact ackVisible_idle _
    · exact ackVisible_answer _ _
  | unknown code => rfl

/-! ## Bytes that are not acknowledged -/

/-- A command that a pad goes on with. -/
def Pad.supports (p : Pad) (legacy : Bool) (tx : Byte) : Bool :=
  tx = 0x42 || p.analog ≠ padNegcon && p.supportsConfig ≠ 0 &&
    (tx = 0x43 || if legacy then isLegacyConfigCommand tx else p.inConfig ≠ 0 && isConfigCommand tx)

theorem Pad.command_goesOn (p : Pad) (legacy onTap : Bool) (tx : Byte) :
    (p.command legacy onTap tx).1.goesOn = p.supports legacy tx := by
  unfold Pad.command Pad.supports
  dsimp only
  split_ifs <;> simp_all [Reply.send, Reply.refuse]

/-- An address byte that neither a pad nor the multitap answers. -/
def PadBus.Unaddressed (b : PadBus) (tx : Byte) : Prop :=
  ¬(tx = 0x01 ∧ b.portHasDevice b.selectedSlot = true) ∧
    ¬(b.selectedIsMtapPort = true ∧ 0x02 ≤ tx ∧ tx ≤ 0x04)

/-- A command that is not the multitap's own and that no connected pad goes on with. -/
def PadBus.Unsupported (b : PadBus) (tx : Byte) : Prop :=
  b.isTapPoll tx = false ∧
    (b.inRange b.activeLogical && b.isConnected b.activeLogical &&
      (b.pad b.activeLogical).supports b.legacyCfg tx) = false

/-- The bytes that no device acknowledges: one that nobody takes, an address byte without a device
behind it, an unknown command, the last byte of an answer, and a byte to an empty card slot. -/
def Addressed.Silent (tx : Byte) : Addressed ω → Prop
  | .nobody => True
  | .pad bus =>
    bus.state = .idle ∧ bus.Unaddressed tx ∨ bus.state = .waitAccess ∧ bus.Unsupported tx ∨
      bus.state = .sendResponse ∧ bus.responseLen.toNat ≤ bus.responseIdx.toNat + 1
  | .card selected port =>
    port.work.state = .idle ∧ port.isPresent selected = false ∨
      port.work.state = .cmd ∧ tx ≠ 0x52 ∧ tx ≠ 0x57 ∧ tx ≠ 0x53 ∨
      port.work.state = .readEnd ∨ port.work.state = .writeEnd ∨ port.work.state = .getId4

namespace PadBus
variable {b : PadBus} {tx : Byte}

theorem answer_ack (b : PadBus) (r : Reply) : (b.answer r).ack = r.goesOn := by
  unfold answer
  cases r.goesOn <;> rfl

theorem applyRequests_device (b : PadBus) :
    b.applyRequests.portHasDevice b.selectedSlot = b.portHasDevice b.selectedSlot ∧
      b.applyRequests.selectedIsMtapPort = b.selectedIsMtapPort := by
  have hplayers : b.applyRequests.players = b.players := List.length_map _
  unfold portHasDevice selectedIsMtapPort multitapActive standaloneLogical dualMultitap
  rw [hplayers]
  exact ⟨rfl, rfl⟩

theorem address_ack (h : b.Unaddressed tx) : (b.applyRequests.address tx).ack = false := by
  obtain ⟨hdevice, htap⟩ := b.applyRequests_device
  have hslot : b.applyRequests.selectedSlot = b.selectedSlot := rfl
  unfold address
  rw [hslot, hdevice, htap, if_neg h.1, if_neg h.2]

theorem single_ack (b : PadBus) (tx : Byte)
    (h : (b.inRange b.activeLogical && b.isConnected b.activeLogical &&
      (b.pad b.activeLogical).supports b.legacyCfg tx) = false) : (b.single tx).ack = false := by
  unfold single
  split_ifs with hpad
  · dsimp only
    rw [answer_ack, Pad.command_goesOn]
    rw [hpad, Bool.true_and] at h
    exact h
  · rfl

theorem command_ack (h : b.Unsupported tx) : (b.command tx).ack = false := by
  obtain ⟨htap, hpad⟩ := h
  unfold command
  dsimp only
  refine (congrArg Exchange.ack (if_neg fun hpoll => ?_)).trans (single_ack _ _ hpad)
  exact absurd (htap.symm.trans hpoll) (by decide)

theorem dataByte_index (b : PadBus) (tx : Byte) :
    (b.dataByte tx).responseIdx = b.responseIdx ∧ (b.dataByte tx).responseLen = b.responseLen := by
  unfold dataByte
  dsimp only
  split_ifs <;> exact ⟨rfl, rfl⟩

theorem respond_ack (h : b.responseLen.toNat ≤ b.responseIdx.toNat + 1) :
    (b.respond tx).ack = false := by
  obtain ⟨hidx, hlen⟩ := b.dataByte_index tx
  unfold respond
  dsimp only
  rw [hidx, hlen]
  split_ifs with h₁ h₂
  · have h₁ := BitVec.lt_def.1 h₁
    have h₂ := BitVec.lt_def.1 h₂
    have hone : (1 : Byte).toNat = 1 := rfl
    have := b.responseLen.isLt
    rw [BitVec.toNat_add, hone, Nat.mod_eq_of_lt (by omega)] at h₂
    omega
  · rfl
  · rfl

end PadBus

theorem Addressed.Silent.acknowledges {tx : Byte} {a : Addressed ω} (h : a.Silent tx) :
    a.acknowledges F tx = false := by
  cases a with
  | nobody => rfl
  | pad bus =>
    unfold Addressed.acknowledges PadBus.processByte
    dsimp only
    rcases h with ⟨hst, h⟩ | ⟨hst, h⟩ | ⟨hst, h⟩
    · rw [hst]
      exact PadBus.address_ack h
    · rw [hst]
      exact PadBus.command_ack h
    · rw [hst]
      exact PadBus.respond_ack h
  | card selected port =>
    unfold Addressed.acknowledges mcProcessByte
    rcases h with ⟨hst, h⟩ | ⟨hst, h₁, h₂, h₃⟩ | hst | hst | hst
    · have h' : ({ port with slot := selected } : CardPort ω).isPresent selected = false := h
      simp only [hst, cardSelect, h']
      rfl
    · simp only [hst, cardCommand, h₁, h₂, h₃, or_self, if_false]
      rfl
    · simp only [hst]
      rfl
    · simp only [hst]
      rfl
    · simp only [hst]
      rfl

/-! ## Completed bytes -/

/-- The ports at which a walk completes a byte. -/
def completedIn : ℕ → ℤ → Port ω → List (Port ω)
  | 0, _, _ => []
  | passes + 1, remaining, p =>
    match p.pace.due with
    | none => []
    | some (d, k) =>
      if d ≤ remaining then
        let rest := completedIn passes (remaining - d) (meet F k 0 (p.elapse d)).1
        if k = .shift then p.elapse d :: rest else rest
      else []

def Call.completed (p : Port ω) : Call → List (Port ω)
  | .advance cycles =>
    if cycles = 0 ∨ p.pace.timingActive = false then []
    else completedIn F (p.pace.work + 1) cycles.toInt p
  | _ => []

/-- The ports at which a run completes a byte. -/
def completed (sync : Bool) (p : Port ω) : List Call → List (Port ω)
  | [] => []
  | c :: calls => c.completed F p ++ completed sync (call F sync p c).1 calls

variable {F} {p : Port ω}

theorem meet_state (k : Deadline) (after : ℤ) (p : Port ω) :
    (meet F k after p).1 = (meet F k 0 p).1 := by
  cases k with
  | shift => rfl
  | ack =>
    unfold meet fireAckIrq
    dsimp only
    split_ifs <;> rfl
  | idle => rfl

def Event.shift? : Event → Option Shift
  | .shifted s => some s
  | _ => none

theorem meet_ack_shift? (after : ℤ) (p : Port ω) :
    (meet F .ack after p).2.filterMap Event.shift? = [] := by
  rw [meet, fireAckIrq_events]
  split_ifs <;> rfl

theorem completedIn_due {d : ℤ} {k : Deadline} (hd : p.pace.due = some (d, k)) {remaining : ℤ}
    (hle : d ≤ remaining) (passes : ℕ) :
    completedIn F (passes + 1) remaining p =
      let rest := completedIn F passes (remaining - d) (meet F k 0 (p.elapse d)).1
      if k = .shift then p.elapse d :: rest else rest := by
  rw [completedIn, hd]
  exact if_pos hle

theorem completedIn_quiet {remaining : ℤ} (hq : p.Quiet remaining) (passes : ℕ) :
    completedIn F (passes + 1) remaining p = [] := by
  rw [completedIn]
  split
  · rfl
  · next d k hd => exact if_neg (not_le.2 (hq d k hd))

/-- They are those whose bytes the walk shows. -/
theorem completedIn_shown (h : p.pace.Counted) {remaining : ℤ} (hr : 0 ≤ remaining) (cycles : ℤ)
    (passes : ℕ) :
    (completedIn F passes remaining p).map (fun q => q.core.shift F q.pace.shiftByte) =
      (paceWalk F cycles passes remaining p).2.filterMap Event.shift? := by
  induction passes generalizing remaining p with
  | zero => rfl
  | succ passes ih =>
    rcases p.quiet_or_due remaining with hq | ⟨d, k, hd, hle⟩
    · rw [completedIn_quiet hq, paceWalk_quiet hr hq]
      rfl
    · rw [completedIn_due hd hle, paceWalk_due h hd hle]
      have hstep := ih (met (F := F) h hd 0).1 (sub_nonneg.2 hle)
      dsimp only
      rw [List.filterMap_append, meet_state k (cycles - (remaining - d)), ← hstep]
      rcases Pace.due_kind hd with ⟨rfl, -⟩ | ⟨rfl, -⟩
      · rfl
      · rw [meet_ack_shift?]
        rfl

theorem completedIn_no_ack (h : p.pace.Counted) (ho : p.pace.InOrder) {remaining : ℤ}
    (hr : 0 ≤ remaining) {passes : ℕ} {q : Port ω} (hq : q ∈ completedIn F passes remaining p) :
    q.pace.pendingAck = false := by
  induction passes generalizing remaining p with
  | zero => cases hq
  | succ passes ih =>
    rcases p.quiet_or_due remaining with hquiet | ⟨d, k, hd, hle⟩
    · rw [completedIn_quiet hquiet] at hq
      cases hq
    · rw [completedIn_due hd hle] at hq
      have hrest := ih (met (F := F) h hd 0).1
        (meet_inOrder (ho.elapse (h.due_nonneg hd)) (Port.elapse_due hd d) 0) (sub_nonneg.2 hle)
      dsimp only at hq
      split_ifs at hq with hk
      · rcases List.mem_cons.1 hq with rfl | hq
        · rw [hk] at hd
          exact ho.no_ack hd
        · exact hrest hq
      · exact hrest hq

theorem sioTick_shift? (p : Port ω) : (sioTick p).2.filterMap Event.shift? = [] := by
  unfold sioTick
  dsimp only
  split_ifs <;> rfl

theorem sioRead_shift? (addr : BitVec 32) (p : Port ω) :
    (sioRead addr p).2.1.filterMap Event.shift? = [] := by
  unfold sioRead
  dsimp only
  split_ifs <;> exact sioTick_shift? p

theorem writeCtrl_shift? (value : BitVec 32) (p : Port ω) :
    (writeCtrl value p).2.filterMap Event.shift? = [] := by
  have hone (b : Bool) (cause : Break) :
      (if b then [Event.broken cause] else []).filterMap Event.shift? = [] := by
    cases b <;> rfl
  unfold writeCtrl
  dsimp only
  rw [List.filterMap_append, List.filterMap_append, hone, hone, hone]
  rfl

theorem sioWrite_shift? (addr value : BitVec 32) (p : Port ω) :
    (sioWrite F false addr value p).2.filterMap Event.shift? = [] := by
  unfold sioWrite
  dsimp only
  rw [List.filterMap_append, sioTick_shift?, List.append_nil]
  split_ifs
  · unfold writeData
    dsimp only
    split_ifs with _ hsync
    · rfl
    · simp [isSyncByte] at hsync
    · rfl
  · rfl
  · exact writeCtrl_shift? value p
  · rfl
  · rfl

/-- A walk over a negative number of cycles completes nothing. -/
theorem completedIn_negative (h : p.pace.Timed) {cycles : ℤ} (hneg : cycles < 0) (passes : ℕ) :
    completedIn F (passes + 1) cycles p = [] :=
  completedIn_quiet (fun _ _ hd => hneg.trans (h.due_pos hd)) passes

/-- Where every byte is shifted, a call shows the bytes that it completes. -/
theorem Call.completed_shown (h : p.pace.Timed) (c : Call) :
    (c.completed F p).map (fun q => q.core.shift F q.pace.shiftByte) =
      (call F false p c).2.events.filterMap Event.shift? := by
  cases c with
  | advance cycles =>
    unfold Call.completed Sio.call
    dsimp only
    split_ifs with hno
    · rw [sioAdvance, if_pos hno]
      rfl
    · rw [sioAdvance, if_neg hno]
      rcases lt_or_ge cycles.toInt 0 with hneg | hpos
      · have hwalk := sioAdvance_negative (F := F) h hneg
        rw [sioAdvance, if_neg hno] at hwalk
        rw [completedIn_negative h hneg, hwalk]
        rfl
      · exact completedIn_shown h.toCounted hpos _ _
  | write addr value => exact (sioWrite_shift? addr value p).symm
  | read addr => exact (sioRead_shift? addr p).symm
  | tick => exact (sioTick_shift? p).symm
  | host c => rfl

theorem Call.completed_no_ack (h : Paced false p.pace) {c : Call} {q : Port ω}
    (hq : q ∈ c.completed F p) : q.pace.pendingAck = false := by
  cases c with
  | advance cycles =>
    unfold Call.completed at hq
    dsimp only at hq
    split_ifs at hq with hno
    · cases hq
    · rcases lt_or_ge cycles.toInt 0 with hneg | hpos
      · rw [completedIn_negative h.timed hneg] at hq
        cases hq
      · exact completedIn_no_ack h.timed.toCounted (h.inOrder rfl) hpos hq
  | write addr value => cases hq
  | read addr => cases hq
  | tick => cases hq
  | host c => cases hq

theorem completed_shown (h : Paced false p.pace) (calls : List Call) :
    (completed F false p calls).map (fun q => q.core.shift F q.pace.shiftByte) =
      ((run F false p calls).2.flatMap Outcome.events).filterMap Event.shift? := by
  induction calls generalizing p with
  | nil => rfl
  | cons c calls ih =>
    rw [completed, run, List.map_append, Call.completed_shown h.timed c, ih (h.call c),
      List.flatMap_cons, List.filterMap_append]

theorem completed_no_ack (h : Paced false p.pace) {calls : List Call} {q : Port ω}
    (hq : q ∈ completed F false p calls) : q.pace.pendingAck = false := by
  induction calls generalizing p with
  | nil => cases hq
  | cons c calls ih =>
    rcases List.mem_append.1 hq with hq | hq
    · exact Call.completed_no_ack h hq
    · exact ih (h.call c) hq

/-! ## Armed acknowledges -/

/-- A completed byte arms an acknowledge if its device gives one, and if an older one still shows. -/
theorem shiftComplete_arms (q : Port ω) (h : q.pace.pendingAck = false) :
    (shiftComplete F q).1.pace.pendingAck =
      ((q.core.addressed q.pace.shiftByte).acknowledges F q.pace.shiftByte ||
        ackVisible q.core.stat) := by
  rw [← processByte_ackVisible, Bool.eq_iff_iff, ← and_statAck]
  have hkeep (r : Pace) : (r.promote.settle).pendingAck = r.pendingAck := by
    rw [Pace.settle_eq]
    unfold Pace.promote
    dsimp only
    split_ifs <;> rfl
  unfold shiftComplete
  dsimp only
  rw [hkeep]
  split_ifs with hacked
  · exact iff_of_true rfl hacked
  · exact iff_of_false (by simp [h]) hacked

/-- In every run a completed byte arms an acknowledge exactly if its device acknowledges it, except
for a byte that its device leaves unacknowledged while an acknowledge given earlier still shows in
`SIO_STAT`. Where every byte is shifted, these are all bytes, and none waits for an acknowledge. -/
theorem ack_soundness (F : Files ω) (sync : Bool) (p : Port ω) (calls : List Call) :
    (sync = false → (completed F sync (sioInit p) calls).map
        (fun q => q.core.shift F q.pace.shiftByte) =
      ((run F sync (sioInit p) calls).2.flatMap Outcome.events).filterMap Event.shift?) ∧
    ∀ q ∈ completed F sync (sioInit p) calls,
      let device := q.core.addressed q.pace.shiftByte
      let acknowledged := device.acknowledges F q.pace.shiftByte
      let armed := (shiftComplete F q).1.pace.pendingAck
      (sync = false → q.pace.pendingAck = false) ∧
      (q.pace.pendingAck = false →
        (armed = acknowledged ↔ (acknowledged = true ∨ q.core.stat &&& statAck = 0)) ∧
        (device.Silent q.pace.shiftByte → q.core.stat &&& statAck = 0 → armed = false)) := by
  constructor
  · rintro rfl
    exact completed_shown (Paced.init p) calls
  · intro q hq
    dsimp only
    refine ⟨?_, fun hno => ?_⟩
    · rintro rfl
      exact completed_no_ack (Paced.init p) hq
    · have hclear : q.core.stat &&& statAck = 0 ↔ ackVisible q.core.stat = false := by
        rw [← not_iff_not, ← ne_eq, and_statAck, Bool.not_eq_false]
      rw [shiftComplete_arms q hno, hclear]
      refine ⟨?_, fun hsilent hbit => ?_⟩
      · cases (q.core.addressed q.pace.shiftByte).acknowledges F q.pace.shiftByte <;>
          cases ackVisible q.core.stat <;> simp
      · rw [hsilent.acknowledges F, hbit]
        rfl

/-! ## A stale acknowledge -/

/-- A poll whose second byte is no command, with the acknowledge of its first byte never read. -/
def unreadPoll : List Call :=
  [.host (.connectPad 0), .write 0x1F80104A 0x1003, .write 0x1F801040 0x01, .advance 1258,
    .write 0x1F801040 0x99, .advance 1258]

/-- The pad refuses the second byte, and yet it arms an acknowledge and raises the interrupt. -/
theorem stale_ack_arms :
    let F : Files Unit := ⟨fun _ _ _ => (), fun _ _ => 0⟩
    let p : Port Unit := sioInit (.statics 2 (fun _ => ⟨false, fun _ _ => 0⟩) ())
    (∃ q ∈ completed F false p unreadPoll, q.pace.shiftByte = 0x99 ∧
      (q.core.addressed 0x99).acknowledges F 0x99 = false ∧
      (shiftComplete F q).1.pace.pendingAck = true) ∧
    ((run F false p unreadPoll).2.flatMap Outcome.events).countP Event.isIrq = 2 := by
  decide

end PsxRecomp.Sio
