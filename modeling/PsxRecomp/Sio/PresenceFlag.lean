import PsxRecomp.Sio.Acknowledge
import PsxRecomp.Sio.Transactions

/-! The presence flag of a memory card: the working copy that answers, the two that are kept, and what
becomes of a completed write between them. -/
namespace PsxRecomp.Sio
set_option autoImplicit false

variable {ω : Type}

/-! ## The bytes of a run -/

section Bytes
variable (F : Files ω) (sync : Bool)

/-- The bytes a walk hands to the devices, each with the port before it. -/
def paceBytes (cycles : ℤ) : ℕ → ℤ → Port ω → List (Core ω × Byte)
  | 0, _, _ => []
  | passes + 1, remaining, p =>
    if 0 < remaining ∨ p.pace.overdue then
      let next := p.pace.nextEvent remaining
      let p := { p with pace := p.pace.elapse next.1 }
      let remaining := remaining - next.1
      match next.2 with
      | .shift => (p.core, p.pace.shiftByte) :: paceBytes cycles passes remaining (shiftComplete F p).1
      | .ack =>
        paceBytes cycles passes remaining
          (fireAckIrq (cycles - remaining) { p with pace := { p.pace with pendingAck := false } }).1
      | .idle => []
    else []

/-- A pad byte that is processed in the write itself. -/
def writeBytes (value : BitVec 32) (p : Port ω) : List (Core ω × Byte) :=
  let b : Byte := value.setWidth 8
  let p := { p with core := { p.core with txData := b } }
  if p.core.ctrl.getLsbD ctrlTxEn = false then []
  else if isSyncByte sync b p then [(p.core, b)] else []

def Call.bytes (p : Port ω) : Call → List (Core ω × Byte)
  | .write addr value => if addr = 0x1F801040 then writeBytes sync value p else []
  | .advance cycles =>
    if cycles = 0 ∨ p.pace.timingActive = false then []
    else paceBytes F cycles.toInt (p.pace.work + 1) cycles.toInt p
  | _ => []

def runBytes (p : Port ω) : List Call → List (Core ω × Byte)
  | [] => []
  | c :: calls => c.bytes F sync p ++ runBytes (call F sync p c).1 calls

theorem paceBytes_shown (cycles : ℤ) (passes : ℕ) (remaining : ℤ) (p : Port ω) :
    (paceBytes F cycles passes remaining p).map (fun x => x.1.shift F x.2) =
      (paceWalk F cycles passes remaining p).2.filterMap Event.shift? := by
  induction passes generalizing remaining p with
  | zero => rfl
  | succ passes ih =>
    rw [paceBytes, paceWalk]
    split_ifs
    · dsimp only
      generalize p.pace.nextEvent remaining = next
      obtain ⟨d, k⟩ := next
      cases k with
      | shift =>
        dsimp only
        rw [List.map_cons, ih]
        rfl
      | ack =>
        dsimp only
        rw [ih, List.filterMap_append]
        unfold fireAckIrq
        dsimp only
        split_ifs <;> simp [Event.shift?]
      | idle => rfl
    · rfl

theorem writeData_shown (value : BitVec 32) (p : Port ω) :
    (writeBytes sync value p).map (fun x => x.1.shift F x.2) =
      (writeData F sync value p).2.filterMap Event.shift? := by
  unfold writeBytes writeData
  dsimp only
  split_ifs
  · rfl
  · simp [syncByte, Event.shift?]
  · rfl

theorem Call.bytes_shown (p : Port ω) (c : Call) :
    (c.bytes F sync p).map (fun x => x.1.shift F x.2) =
      (call F sync p c).2.events.filterMap Event.shift? := by
  cases c with
  | write addr value =>
    simp only [Call.bytes, call, sioWrite, List.filterMap_append, sioTick_shift?, List.append_nil]
    split_ifs with hdata hmode hctrl
    · exact writeData_shown F sync value p
    · rfl
    · exact (writeCtrl_shift? value p).symm
    · rfl
    · rfl
  | read addr => exact (sioRead_shift? addr p).symm
  | advance cycles =>
    simp only [Call.bytes, call, sioAdvance]
    split_ifs
    · rfl
    · exact paceBytes_shown F _ _ _ p
  | tick => exact (sioTick_shift? p).symm
  | host h => rfl

/-- They are the bytes the run shows. -/
theorem runBytes_shown (p : Port ω) (calls : List Call) :
    (runBytes F sync p calls).map (fun x => x.1.shift F x.2) =
      ((run F sync p calls).2.flatMap Outcome.events).filterMap Event.shift? := by
  induction calls generalizing p with
  | nil => rfl
  | cons c calls ih =>
    rw [runBytes, run, List.map_append, List.flatMap_cons, List.filterMap_append, ih, Call.bytes_shown]

end Bytes

/-! ## Writes and flags -/

/-- The card whose write transaction the next byte completes. -/
def Addressed.completesWrite : Addressed ω → Option (Fin 2)
  | .card _ port => if port.work.state = .writeEnd then slotIndex port.slot else none
  | _ => none

/-- The card that answers a command byte with its flag. -/
def Addressed.asksFlag (tx : Byte) : Addressed ω → Option (Fin 2)
  | .card _ port =>
    if port.work.state = .cmd ∧ (tx = 0x52 ∨ tx = 0x57 ∨ tx = 0x53) then slotIndex port.slot else none
  | _ => none

/-- A write transaction on card `i` is among the bytes. -/
def Written (log : List (Core ω × Byte)) (i : Fin 2) : Prop :=
  ∃ x ∈ log, (x.1.addressed x.2).completesWrite = some i

def Tells (flag : Byte) (written : Prop) : Prop := (written → flag = 0x00) ∧ (¬written → flag = 0x08)

/-- Every flag a card has answered with says whether it has been written. -/
def FlagsTold (F : Files ω) (log : List (Core ω × Byte)) : Prop :=
  ∀ pre c tx post, log = pre ++ (c, tx) :: post → ∀ i, (c.addressed tx).asksFlag tx = some i →
    Tells (c.processByte F tx).1.rxData (Written pre i)

/-- The working flag is not the one kept for its slot: a write of this selection has completed. -/
def Core.lagging (c : Core ω) : Bool :=
  c.active = .memcard && match slotIndex c.card.slot with
    | none => false
    | some i => c.card.work.flag ≠ (c.card.saved i).flag

/-- A byte to a finished card that the card does not take while its flag is still to be kept, or a select byte
after the selected slot has changed under it. -/
def Core.forgets (c : Core ω) (tx : Byte) : Bool :=
  c.active = .memcard && c.card.work.state = .idle &&
    if tx = 0x81 then c.bus.selectedSlot ≠ c.card.slot else c.lagging

/-- A reset while a flag is still to be kept. -/
def Call.forgets (p : Port ω) : Call → Bool
  | .write addr value =>
    addr = 0x1F80104A && (value.setWidth 16 : BitVec 16).getLsbD ctrlReset && p.core.lagging
  | _ => false

/-- No call of the run, and no byte of it, forgets a flag. -/
def Keeps (F : Files ω) (sync : Bool) (p : Port ω) : List Call → Prop
  | [] => True
  | c :: calls => c.forgets p = false ∧ (∀ x ∈ c.bytes F sync p, x.1.forgets x.2 = false) ∧
      Keeps F sync (call F sync p c).1 calls

/-! ## What a byte does to the flags -/

section Byte
variable (F : Files ω)

/-- Within a transaction the flag changes at the end of a write alone, and only in the working copy. -/
theorem mcProcessByte_flag {c : CardPort ω} (h : c.work.state ≠ .idle) (selected : ℤ) (tx : Byte) :
    (mcProcessByte F selected tx c).state.slot = c.slot ∧ (mcProcessByte F selected tx c).state.saved = c.saved ∧
      (mcProcessByte F selected tx c).state.work.flag =
        if c.work.state = .writeEnd then 0x00 else c.work.flag := by
  unfold mcProcessByte
  cases hst : c.work.state with
  | idle => exact absurd hst h
  | cmd =>
    simp only [cardCommand]
    split_ifs <;> simp_all [CardPort.reply, CardPort.finish, CardPort.goTo]
  | addrLsb =>
    simp only [cardAddress]
    split_ifs <;> simp_all [CardPort.reply, CardPort.goTo]
  | readData =>
    simp only [cardReadByte]
    split <;> simp_all [CardPort.reply, CardPort.goTo]
  | writeLsbEcho =>
    simp only [cardWriteByte]
    split <;> simp_all [CardPort.reply, CardPort.goTo]
  | writeData =>
    simp only [cardWriteByte]
    split <;> simp_all [CardPort.reply, CardPort.goTo]
  | writeChk =>
    simp only [cardWriteCheck, writeSector, reduceCtorEq, if_false]
    by_cases hstore : tx = dataXor c.work.data (c.work.sectorMsb ^^^ c.work.sectorLsb) ∧
        c.work.sector.toNat < memcardSectors
    · rw [if_pos hstore]
      split
      · simp
      · split_ifs <;> simp
    · rw [if_neg hstore]
      simp
  | _ => simp [CardPort.reply, CardPort.finish, CardPort.goTo, cardReadEnd, cardWriteEnd]

/-- The answer to a command byte is the working flag. -/
theorem mcProcessByte_answer {c : CardPort ω} {tx : Byte} (h : c.work.state = .cmd)
    (htx : tx = 0x52 ∨ tx = 0x57 ∨ tx = 0x53) (selected : ℤ) :
    (mcProcessByte F selected tx c).rx = c.work.flag := by
  simp only [mcProcessByte, h, cardCommand, if_pos htx, CardPort.reply]

end Byte

/-- The flags against the cards that have been written. -/
structure FlagsHeld (written : Fin 2 → Prop) (c : Core ω) : Prop where
  resting : ∀ i, (c.card.saved i).state = .idle
  idle : c.active ≠ .memcard → c.card.work.state = .idle
  working : c.active = .memcard → ∃ i, slotIndex c.card.slot = some i ∧ Tells c.card.work.flag (written i)
  kept : ∀ i, ¬(c.active = .memcard ∧ slotIndex c.card.slot = some i) → Tells (c.card.saved i).flag (written i)

variable {written : Fin 2 → Prop} {c d : Core ω}

theorem FlagsHeld.same (h : FlagsHeld written c) (hcard : d.card = c.card) (hactive : d.active = c.active) :
    FlagsHeld written d := by
  refine ⟨?_, ?_, ?_, ?_⟩
  · rw [hcard]
    exact h.resting
  · rw [hcard, hactive]
    exact h.idle
  · rw [hcard, hactive]
    exact h.working
  · rw [hcard, hactive]
    exact h.kept

/-- The flags of all cards are kept when no card is selected, and when the working flag is. -/
theorem FlagsHeld.all_kept (h : FlagsHeld written c) (hlag : c.lagging = false) (i : Fin 2) :
    Tells (c.card.saved i).flag (written i) := by
  by_cases hi : c.active = .memcard ∧ slotIndex c.card.slot = some i
  · obtain ⟨j, hj, htells⟩ := h.working hi.1
    obtain rfl : i = j := Option.some.inj (hi.2.symm.trans hj)
    simp only [Core.lagging, hi.1, hj, decide_true, Bool.true_and, ne_eq, decide_not, Bool.not_eq_false',
      decide_eq_true_eq] at hlag
    rwa [hlag] at htells
  · exact h.kept i hi

theorem Core.not_lagging (h : c.active ≠ .memcard) : c.lagging = false := by
  simp [Core.lagging, h]

/-- A core with no card selected and nothing to be kept. -/
theorem FlagsHeld.unselected (hactive : d.active ≠ .memcard) (hresting : ∀ i, (d.card.saved i).state = .idle)
    (hidle : d.card.work.state = .idle) (hkept : ∀ i, Tells (d.card.saved i).flag (written i)) :
    FlagsHeld written d :=
  ⟨hresting, fun _ => hidle, fun h => absurd h hactive, fun i _ => hkept i⟩

/-- A byte that completes no write. -/
theorem FlagsHeld.unwritten (h : FlagsHeld written d) {a : Option (Fin 2)} (ha : a = none) :
    FlagsHeld (fun i => written i ∨ a = some i) d := by
  subst ha
  simpa using h

theorem slotIndex_selected (b : Bool) : slotIndex (if b then 1 else 0) = some (if b then 1 else 0) := by
  cases b <;> rfl

section Byte
variable (F : Files ω)

/-- A select byte: the card in the slot starts again with the flag it has. -/
theorem FlagsHeld.select {i : Fin 2} (hactive : d.active = .memcard) (hidle : d.card.work.state = .idle)
    (hresting : ∀ i, (d.card.saved i).state = .idle) (hslot : slotIndex d.bus.selectedSlot = some i)
    (hwork : Tells d.card.work.flag (written i))
    (hkept : ∀ j ≠ i, Tells (d.card.saved j).flag (written j)) (tx : Byte) :
    FlagsHeld written (d.cardByte F tx).1 := by
  have hcard : (mcProcessByte F d.bus.selectedSlot tx d.card).state.slot = d.bus.selectedSlot ∧
      (mcProcessByte F d.bus.selectedSlot tx d.card).state.saved = d.card.saved ∧
      (mcProcessByte F d.bus.selectedSlot tx d.card).state.work.flag = d.card.work.flag := by
    simp only [mcProcessByte, hidle, cardSelect]
    split_ifs <;> simp [CardPort.reply, CardPort.goTo]
  obtain ⟨hs, hsaved, hflag⟩ := hcard
  refine ⟨?_, fun h => absurd hactive h, fun _ => ⟨i, ?_, ?_⟩, fun j hj => ?_⟩
  · simpa only [Core.cardByte, hsaved] using hresting
  · simpa only [Core.cardByte, hs] using hslot
  · simpa only [Core.cardByte, hflag] using hwork
  · simp only [Core.cardByte, hs, hsaved, hactive, hslot, true_and, Option.some.injEq] at hj ⊢
    exact hkept j fun h => hj h.symm

/-- A byte within a transaction. -/
theorem FlagsHeld.within (h : FlagsHeld written c) (hactive : c.active = .memcard)
    (hbusy : c.card.work.state ≠ .idle) (tx : Byte) :
    FlagsHeld (fun i => written i ∨ (c.addressed tx).completesWrite = some i) (c.cardByte F tx).1 := by
  obtain ⟨hs, hsaved, hflag⟩ := mcProcessByte_flag F hbusy c.bus.selectedSlot tx
  obtain ⟨i, hi, htells⟩ := h.working hactive
  have hcompletes : (c.addressed tx).completesWrite = if c.card.work.state = .writeEnd then some i else none := by
    simp only [Core.addressed, hactive, hbusy, false_and, if_false, Addressed.completesWrite, hi]
  refine ⟨?_, fun hne => absurd hactive hne, fun _ => ⟨i, ?_, ?_⟩, fun j hj => ?_⟩
  · simpa only [Core.cardByte, hsaved] using h.resting
  · simpa only [Core.cardByte, hs] using hi
  · rw [hcompletes]
    simp only [Core.cardByte, hflag]
    split_ifs
    · exact ⟨fun _ => rfl, fun hno => absurd (Or.inr rfl) hno⟩
    · simpa using htells
  · have hne : i ≠ j := by
      rintro rfl
      exact hj ⟨hactive, by simpa only [Core.cardByte, hs] using hi⟩
    have hkept := h.kept j fun hj' => hne (Option.some.inj (hi.symm.trans hj'.2))
    rw [hcompletes]
    simp only [Core.cardByte, hsaved]
    split_ifs
    · simpa only [Option.some.injEq, hne, or_false] using hkept
    · simpa using hkept

theorem FlagsHeld.first (h : FlagsHeld written c) (hactive : c.active = .none) (tx : Byte) :
    FlagsHeld (fun i => written i ∨ (c.addressed tx).completesWrite = some i) (c.firstByte F tx).1 := by
  have hne : c.active ≠ .memcard := by simp [hactive]
  have hidle := h.idle hne
  have hkept := h.all_kept (Core.not_lagging hne)
  have hload := loadSlot_idle h.resting hidle c.selectSlot.bus.selectedSlot
  have hnone : (c.addressed tx).completesWrite = none := by
    simp only [Core.addressed, hactive]
    split_ifs <;> simp_all [Addressed.completesWrite, Core.selectSlot, CardPort.goTo]
  refine FlagsHeld.unwritten ?_ hnone
  unfold Core.firstByte
  dsimp only
  by_cases h1 : tx = 0x01
  · rw [if_pos h1]
    have hcard : c.selectSlot.card = c.card := rfl
    rw [hcard, if_pos hidle]
    exact FlagsHeld.unselected (by simp [Core.padByte]) h.resting hidle hkept
  · rw [if_neg h1]
    by_cases h81 : tx = 0x81
    · rw [if_pos h81]
      have hslot := slotIndex_selected c.slotBit
      refine FlagsHeld.select F rfl rfl ?_ hslot ?_ (fun j _ => ?_) tx
      · intro i
        change ((c.card.loadSlot _).saved i).state = .idle
        rw [loadSlot_saved]
        exact h.resting i
      · change Tells (c.card.loadSlot (if c.slotBit then 1 else 0)).work.flag _
        rw [CardPort.loadSlot, hslot]
        exact hkept _
      · change Tells ((c.card.loadSlot _).saved j).flag _
        rw [loadSlot_saved]
        exact hkept j
    · rw [if_neg h81, if_neg (fun hbusy => hbusy.1 hload)]
      refine FlagsHeld.unselected (by simp [Core.strayByte, Core.selectSlot, hactive]) ?_ rfl ?_
      · intro i
        change ((c.card.loadSlot _).saved i).state = .idle
        rw [loadSlot_saved]
        exact h.resting i
      · intro i
        change Tells ((c.card.loadSlot _).saved i).flag _
        rw [loadSlot_saved]
        exact hkept i

theorem FlagsHeld.next (h : FlagsHeld written c) (hactive : c.active = .memcard) {tx : Byte}
    (hkeep : c.forgets tx = false) :
    FlagsHeld (fun i => written i ∨ (c.addressed tx).completesWrite = some i) (c.nextCardByte F tx).1 := by
  unfold Core.nextCardByte
  by_cases hidle : c.card.work.state = .idle
  · have hnone : (c.addressed tx).completesWrite = none := by
      simp only [Core.addressed, hactive, hidle, true_and]
      split_ifs <;> simp_all [Addressed.completesWrite]
    refine FlagsHeld.unwritten ?_ hnone
    by_cases h81 : tx = 0x81
    · rw [if_neg (fun hx => hx.2 h81)]
      obtain ⟨i, hi, htells⟩ := h.working hactive
      have hslot : c.bus.selectedSlot = c.card.slot := by
        simpa [Core.forgets, hactive, hidle, h81] using hkeep
      refine FlagsHeld.select F hactive hidle h.resting (hslot ▸ hi) htells (fun j hj => ?_) tx
      exact h.kept j fun hj' => hj (Option.some.inj (hj'.2.symm.trans hi))
    · have hlag : c.lagging = false := by
        simpa only [Core.forgets, hactive, hidle, decide_true, Bool.true_and, if_neg h81] using hkeep
      rw [if_pos ⟨hidle, h81⟩]
      dsimp only
      split_ifs
      · exact FlagsHeld.unselected (by simp [Core.padByte]) h.resting hidle (h.all_kept hlag)
      · exact FlagsHeld.unselected (by simp [Core.strayByte, Core.selectSlot]) h.resting hidle (h.all_kept hlag)
  · rw [if_neg (fun hx => hidle hx.1)]
    exact h.within F hactive hidle tx

/-- A byte moves the flags as it should unless it forgets one. -/
theorem FlagsHeld.byte (h : FlagsHeld written c) {tx : Byte} (hkeep : c.forgets tx = false) :
    FlagsHeld (fun i => written i ∨ (c.addressed tx).completesWrite = some i) (c.processByte F tx).1 := by
  unfold Core.processByte
  cases hactive : c.active with
  | none => exact (h.first F hactive tx).same rfl rfl
  | memcard => exact (h.next F hactive hkeep).same rfl rfl
  | pad | unknown =>
    have hnone : (c.addressed tx).completesWrite = none := by
      simp only [Core.addressed, hactive, Addressed.completesWrite]
    exact (h.unwritten hnone).same rfl rfl

theorem FlagsHeld.unasked (h : FlagsHeld written c) (hne : c.active ≠ .memcard) (tx : Byte) :
    (c.addressed tx).asksFlag tx = none := by
  have hload := loadSlot_idle h.resting (h.idle hne) c.selectSlot.bus.selectedSlot
  cases hactive : c.active with
  | none =>
    simp only [Core.addressed, hactive]
    split_ifs with h1 h81 hbusy
    · rfl
    · simp [Addressed.asksFlag, CardPort.goTo]
    · exact absurd hload hbusy.1
    · rfl
  | pad => simp only [Core.addressed, hactive, Addressed.asksFlag]
  | memcard => exact absurd hactive hne
  | unknown code => simp only [Core.addressed, hactive, Addressed.asksFlag]

/-- The answer to a command byte tells whether the card has been written. -/
theorem FlagsHeld.answer (h : FlagsHeld written c) {tx : Byte} {i : Fin 2}
    (hask : (c.addressed tx).asksFlag tx = some i) : Tells (c.processByte F tx).1.rxData (written i) := by
  have hactive : c.active = .memcard := by
    by_contra hne
    rw [h.unasked hne] at hask
    cases hask
  have hcmd : c.card.work.state = .cmd ∧ (tx = 0x52 ∨ tx = 0x57 ∨ tx = 0x53) ∧ slotIndex c.card.slot = some i := by
    simp only [Core.addressed, hactive] at hask
    split_ifs at hask
    · simp [Addressed.asksFlag] at hask
    · simp [Addressed.asksFlag] at hask
    · simp only [Addressed.asksFlag] at hask
      split_ifs at hask with hcond
      exact ⟨hcond.1, hcond.2, hask⟩
  obtain ⟨hstate, htx, hslot⟩ := hcmd
  obtain ⟨j, hj, htells⟩ := h.working hactive
  obtain rfl : i = j := Option.some.inj (hslot.symm.trans hj)
  have hrx := mcProcessByte_answer F hstate htx c.bus.selectedSlot
  simp only [Core.processByte, hactive, Core.nextCardByte, hstate, reduceCtorEq, false_and, if_false,
    Core.cardByte, hrx]
  exact htells

end Byte

/-! ## Runs -/

section Runs
variable {F : Files ω} {log : List (Core ω × Byte)} {p q : Port ω}

/-- What holds of a port and of all bytes before it. -/
structure Told (F : Files ω) (log : List (Core ω × Byte)) (c : Core ω) : Prop where
  held : FlagsHeld (Written log) c
  told : FlagsTold F log

theorem Told.same (h : Told F log c) (hcard : d.card = c.card) (hactive : d.active = c.active) : Told F log d :=
  ⟨h.held.same hcard hactive, h.told⟩

theorem written_snoc (x : Core ω × Byte) (i : Fin 2) :
    Written (log ++ [x]) i ↔ Written log i ∨ (x.1.addressed x.2).completesWrite = some i := by
  simp only [Written, List.mem_append, List.mem_singleton, or_and_right, exists_or, exists_eq_left]

theorem FlagsTold.snoc (h : FlagsTold F log) {tx : Byte}
    (hlast : ∀ i, (c.addressed tx).asksFlag tx = some i → Tells (c.processByte F tx).1.rxData (Written log i)) :
    FlagsTold F (log ++ [(c, tx)]) := by
  intro pre c' tx' post hsplit
  rcases List.eq_nil_or_concat post with rfl | ⟨init, last, rfl⟩
  · obtain ⟨rfl, hx⟩ := List.append_inj' hsplit rfl
    obtain ⟨rfl, rfl⟩ := Prod.mk.inj (List.singleton_inj.1 hx)
    exact hlast
  · rw [List.concat_eq_append, ← List.cons_append, ← List.append_assoc] at hsplit
    obtain ⟨rfl, -⟩ := List.append_inj' hsplit rfl
    exact h pre c' tx' init rfl

theorem Told.byte (h : Told F log c) {tx : Byte} (hkeep : c.forgets tx = false) :
    Told F (log ++ [(c, tx)]) (c.processByte F tx).1 := by
  refine ⟨?_, h.told.snoc fun i hask => h.held.answer F hask⟩
  have hwritten : Written (log ++ [(c, tx)]) =
      fun i => Written log i ∨ (c.addressed tx).completesWrite = some i := by
    funext i
    exact propext (written_snoc (c, tx) i)
  rw [hwritten]
  exact h.held.byte F hkeep

/-- The induction is on the passes of the walk. -/
theorem Told.paceWalk (h : Told F log p.core) (cycles : ℤ) (passes : ℕ) (remaining : ℤ)
    (hkeep : ∀ x ∈ paceBytes F cycles passes remaining p, x.1.forgets x.2 = false) :
    Told F (log ++ paceBytes F cycles passes remaining p) (paceWalk F cycles passes remaining p).1.core := by
  induction passes generalizing remaining p log with
  | zero =>
    rw [paceBytes, List.append_nil]
    exact h
  | succ passes ih =>
    rw [paceBytes] at hkeep ⊢
    rw [Sio.paceWalk]
    by_cases hgo : 0 < remaining ∨ p.pace.overdue = true
    · rw [if_pos hgo] at hkeep ⊢
      rw [if_pos hgo]
      dsimp only at hkeep ⊢
      revert hkeep
      generalize p.pace.nextEvent remaining = next
      obtain ⟨t, k⟩ := next
      cases k with
      | shift =>
        dsimp only
        intro hkeep
        obtain ⟨hfirst, hrest⟩ := List.forall_mem_cons.1 hkeep
        rw [List.append_cons]
        exact ih ((h.byte hfirst).same rfl rfl) _ hrest
      | ack =>
        dsimp only
        intro hkeep
        refine ih (h.same ?_ ?_) _ hkeep
        · unfold fireAckIrq
          dsimp only
          split_ifs <;> rfl
        · unfold fireAckIrq
          dsimp only
          split_ifs <;> rfl
      | idle =>
        intro _
        rw [List.append_nil]
        exact h
    · rw [if_neg hgo, if_neg hgo, List.append_nil]
      exact h

theorem Told.sioTick (h : Told F log p.core) : Told F log (sioTick p).1.core := by
  unfold Sio.sioTick
  dsimp only
  split_ifs
  · exact h.same rfl rfl
  · exact h.same rfl rfl
  · exact h

theorem Told.writeData (h : Told F log p.core) {sync : Bool} {value : BitVec 32}
    (hkeep : ∀ x ∈ writeBytes sync value p, x.1.forgets x.2 = false) :
    Told F (log ++ writeBytes sync value p) (writeData F sync value p).1.core := by
  have hq : Told F log { p.core with txData := value.setWidth 8 } := h.same rfl rfl
  unfold writeBytes at hkeep ⊢
  unfold Sio.writeData
  dsimp only at hkeep ⊢
  split_ifs at hkeep ⊢
  · rw [List.append_nil]
    exact hq
  · refine (hq.byte (hkeep _ List.mem_cons_self)).same ?_ ?_
    · unfold syncByte
      dsimp only
      split_ifs <;> rfl
    · unfold syncByte
      dsimp only
      split_ifs <;> rfl
  · rw [List.append_nil]
    refine hq.same ?_ ?_
    · unfold queueByte
      dsimp only
      split_ifs <;> rfl
    · unfold queueByte
      dsimp only
      split_ifs <;> rfl

theorem Told.resetPort (h : Told F log p.core) (hlag : p.core.lagging = false) :
    Told F log (resetPort p).core :=
  ⟨FlagsHeld.unselected (by simp [Sio.resetPort]) (fun _ => rfl) rfl (h.held.all_kept hlag), h.told⟩

/-- A deselection keeps the working flag in its slot. -/
theorem Told.deselect (h : Told F log p.core) : Told F log (deselect p).core := by
  refine ⟨FlagsHeld.unselected (by simp [Sio.deselect]) (fun _ => rfl) rfl fun i => ?_, h.told⟩
  simp only [Sio.deselect]
  split
  · next j hactive hj =>
    obtain ⟨k, hk, htells⟩ := h.held.working hactive
    obtain rfl : j = k := Option.some.inj (hj.symm.trans hk)
    by_cases hij : i = j
    · subst hij
      simpa using htells
    · rw [Function.update_of_ne hij]
      exact h.held.kept i fun hi => hij (Option.some.inj (hi.2.symm.trans hj))
  · next hother =>
    exact h.held.kept i fun hi => hother i hi.1 hi.2

theorem Told.stopShifter (h : Told F log p.core) (select : Bool) : Told F log (stopShifter select p).core := by
  refine h.same ?_ ?_
  · unfold Sio.stopShifter
    split_ifs <;> rfl
  · unfold Sio.stopShifter
    split_ifs <;> rfl

theorem Told.released (h : Told F log p.core) : Told F log (⟨p.core, p.pace.released⟩ : Port ω).core := h

theorem Told.ite (h : Told F log p.core) (b : Bool) (hq : b = true → Told F log q.core) :
    Told F log (if b then q else p).core := by
  cases b with
  | true => exact hq rfl
  | false => exact h

theorem Told.writeCtrl (h : Told F log p.core) {value : BitVec 32}
    (hkeep : (value.setWidth 16 : BitVec 16).getLsbD ctrlReset = true → p.core.lagging = false) :
    Told F log (writeCtrl value p).1.core := by
  have hctrl : Told F log (⟨{ p.core with ctrl := value.setWidth 16 }, p.pace⟩ : Port ω).core := h.same rfl rfl
  have hack := hctrl.ite ((value.setWidth 16 : BitVec 16).getLsbD ctrlAck)
    (q := ⟨{ p.core with
      ctrl := value.setWidth 16
      stat := p.core.stat &&& ~~~statIrq &&& ~~~statAck
      ackVisibleReads := 0 }, p.pace⟩) fun _ => hctrl.same rfl rfl
  have hreset := hack.ite ((value.setWidth 16 : BitVec 16).getLsbD ctrlReset) fun hb => hack.resetPort (by
    have hlag := hkeep hb
    cases (value.setWidth 16 : BitVec 16).getLsbD ctrlAck <;> exact hlag)
  have hselect := hreset.ite
    (!p.core.ctrl.getLsbD ctrlSelect && (value.setWidth 16 : BitVec 16).getLsbD ctrlSelect)
    fun _ => hreset.released
  have hstop := hselect.ite
    (p.core.ctrl.getLsbD ctrlTxEn && !(value.setWidth 16 : BitVec 16).getLsbD ctrlTxEn)
    fun _ => hselect.stopShifter ((value.setWidth 16 : BitVec 16).getLsbD ctrlSelect)
  exact hstop.ite
    (p.core.ctrl.getLsbD ctrlSelect && !(value.setWidth 16 : BitVec 16).getLsbD ctrlSelect)
    fun _ => hstop.deselect

theorem Told.hostCall (h : Told F log p.core) (c : HostCall) : Told F log (hostCall c p).core := by
  cases c
  case canonicalizeSession =>
    simp only [Sio.hostCall]
    by_cases hpad : p.core.active = .pad
    · have hne : p.core.active ≠ .memcard := by simp [hpad]
      rw [if_pos hpad]
      exact ⟨FlagsHeld.unselected (by simp) h.held.resting (h.held.idle hne)
        (h.held.all_kept (Core.not_lagging hne)), h.told⟩
    · rw [if_neg hpad]
      exact h.same rfl rfl
  all_goals exact h.same rfl rfl

theorem Told.call (h : Told F log p.core) {sync : Bool} {c : Call} (hcall : c.forgets p = false)
    (hkeep : ∀ x ∈ c.bytes F sync p, x.1.forgets x.2 = false) :
    Told F (log ++ c.bytes F sync p) (call F sync p c).1.core := by
  cases c with
  | write addr value =>
    simp only [Call.bytes, Sio.call, sioWrite] at hkeep ⊢
    refine Told.sioTick ?_
    split_ifs at hkeep ⊢ with hdata hmode hctrl
    · exact h.writeData hkeep
    · rw [List.append_nil]
      exact h.same rfl rfl
    · rw [List.append_nil]
      refine h.writeCtrl fun hb => ?_
      simpa [Call.forgets, hctrl, hb] using hcall
    · rw [List.append_nil]
      exact h.same rfl rfl
    · rw [List.append_nil]
      exact h
  | read addr =>
    have ht := h.sioTick
    simp only [Call.bytes, Sio.call, sioRead, List.append_nil]
    split_ifs
    all_goals exact ht.same rfl rfl
  | advance cycles =>
    simp only [Call.bytes, Sio.call, sioAdvance] at hkeep ⊢
    split_ifs at hkeep ⊢
    · rw [List.append_nil]
      exact h
    · exact h.paceWalk _ _ _ hkeep
  | tick =>
    simp only [Call.bytes, Sio.call, List.append_nil]
    exact h.sioTick
  | host c =>
    simp only [Call.bytes, Sio.call, List.append_nil]
    exact h.hostCall c

theorem Told.run (h : Told F log p.core) {sync : Bool} {calls : List Call} (hkeep : Keeps F sync p calls) :
    Told F (log ++ runBytes F sync p calls) (run F sync p calls).1.core := by
  induction calls generalizing p log with
  | nil =>
    rw [runBytes, List.append_nil]
    exact h
  | cons c calls ih =>
    obtain ⟨hcall, hbytes, hrest⟩ := hkeep
    rw [runBytes, ← List.append_assoc]
    exact ih (h.call hcall hbytes) hrest

theorem Told.init (p : Port ω) : Told F [] (sioInit p).core := by
  refine ⟨FlagsHeld.unselected (by simp [sioInit]) (fun _ => rfl) rfl fun i => ⟨?_, fun _ => rfl⟩, ?_⟩
  · rintro ⟨x, hx, -⟩
    cases hx
  · intro pre c tx post hsplit
    simp at hsplit

end Runs

/-- In a run that forgets no flag, a card answers a command byte with `08` before its first completed write and
with `00` behind it, whatever has been shifted to the other card or to the pads, and however the selections
have ended. -/
theorem presence_flag (F : Files ω) (sync : Bool) (p : Port ω) (calls : List Call)
    (hkeep : Keeps F sync (sioInit p) calls) :
    let log := runBytes F sync (sioInit p) calls
    log.map (fun x => x.1.shift F x.2) =
        ((run F sync (sioInit p) calls).2.flatMap Outcome.events).filterMap Event.shift? ∧
      ∀ pre c tx post, log = pre ++ (c, tx) :: post → ∀ i, (c.addressed tx).asksFlag tx = some i →
        (Written pre i → (c.processByte F tx).1.rxData = 0x00) ∧
          (¬Written pre i → (c.processByte F tx).1.rxData = 0x08) :=
  ⟨runBytes_shown F sync (sioInit p) calls, ((Told.init p).run hkeep).told⟩

/-! ## A flag that is forgotten -/

/-- A sector of the first card is written. -/
def sectorWrite : List Call :=
  .write 0x1F80104A 3 :: ([0x81, 0x57, 0, 0, 0, 5] ++ List.replicate 128 0x5A ++ [5, 0, 0, 0]).flatMap sendByte

def flagQuery : List Call := .write 0x1F80104A 3 :: [0x81, 0x52].flatMap sendByte

/-- The write, an end of the selection, and the next command. -/
def queryAfter (control : BitVec 32) : List Call := sectorWrite ++ .write 0x1F80104A control :: flagQuery

def blankPort : Port Unit := .statics 2 blankCard ()

instance (F : Files ω) (sync : Bool) : (p : Port ω) → (calls : List Call) → Decidable (Keeps F sync p calls)
  | _, [] => isTrue trivial
  | p, c :: calls =>
    have : Decidable (Keeps F sync (call F sync p c).1 calls) := instDecidableKeeps F sync _ calls
    inferInstanceAs (Decidable (c.forgets p = false ∧ (∀ x ∈ c.bytes F sync p, x.1.forgets x.2 = false) ∧
      Keeps F sync (call F sync p c).1 calls))

def queryLog (control : BitVec 32) : List (Core Unit × Byte) :=
  runBytes quietFiles false (sioInit blankPort) (queryAfter control)

/-- The byte and the card that answers it. -/
def query (x : Core Unit × Byte) : Byte × Option (Fin 2) := (x.2, (x.1.addressed x.2).asksFlag x.2)

theorem asked_after_write {log : List (Core Unit × Byte)} (hlast : log.getLast?.map query = some (0x52, some 0))
    (hwritten : log.dropLast.any (fun x => (x.1.addressed x.2).completesWrite = some 0) = true) :
    ∃ pre c, log = pre ++ [(c, 0x52)] ∧ (c.addressed 0x52).asksFlag 0x52 = some 0 ∧ Written pre 0 := by
  obtain ⟨⟨c, tx⟩, hx, hquery⟩ := Option.map_eq_some_iff.1 hlast
  obtain ⟨rfl, hasks⟩ := Prod.mk.inj hquery
  obtain ⟨pre, rfl⟩ := List.getLast?_eq_some_iff.1 hx
  refine ⟨pre, c, rfl, hasks, ?_⟩
  rw [List.dropLast_concat, List.any_eq_true] at hwritten
  obtain ⟨x, hmem, hx'⟩ := hwritten
  exact ⟨x, hmem, of_decide_eq_true hx'⟩

set_option maxRecDepth 2000 in
theorem queryLog_asks (control : BitVec 32) (hcontrol : control = 0x00 ∨ control = 0x40) :
    (queryLog control).getLast?.map query = some (0x52, some 0) ∧
      (queryLog control).dropLast.any (fun x => (x.1.addressed x.2).completesWrite = some 0) = true := by
  rcases hcontrol with rfl | rfl <;> decide

set_option maxRecDepth 4000 in
/-- Behind a deselection the written card answers with `00`. -/
theorem presence_flag_deselected : ∃ pre c, queryLog 0x00 = pre ++ [(c, 0x52)] ∧
    (c.processByte quietFiles 0x52).1.rxData = 0x00 := by
  obtain ⟨hlast, hwritten⟩ := queryLog_asks 0x00 (Or.inl rfl)
  obtain ⟨pre, c, hlog, hasks, hpre⟩ := asked_after_write hlast hwritten
  have h := presence_flag quietFiles false blankPort (queryAfter 0x00) (by decide)
  exact ⟨pre, c, hlog, (h.2 pre c 0x52 [] hlog 0 hasks).1 hpre⟩

set_option maxRecDepth 2000 in
/-- A reset drops the working copy before its flag is kept: the written card answers `08` again. -/
theorem reset_forgets_write : ¬FlagsTold quietFiles (queryLog 0x40) := by
  intro h
  obtain ⟨hlast, hwritten⟩ := queryLog_asks 0x40 (Or.inr rfl)
  obtain ⟨pre, c, hlog, hasks, hpre⟩ := asked_after_write hlast hwritten
  have hanswer : (queryLog 0x40).getLast?.map (fun x => (x.1.processByte quietFiles x.2).1.rxData) = some 0x08 := by
    decide
  rw [hlog, List.getLast?_append_of_ne_nil _ (List.cons_ne_nil _ _)] at hanswer
  have hzero := (h pre c 0x52 [] hlog 0 hasks).1 hpre
  simp only [List.getLast?_singleton, Option.map_some, hzero] at hanswer
  exact absurd hanswer (by decide)

end PsxRecomp.Sio
