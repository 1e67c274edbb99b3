import Mathlib
import PsxRecomp.Sio.Port

/-! Card transactions as byte streams: what has been shifted when a sector is stored, and what when a
read is complete. -/
namespace PsxRecomp.Sio
set_option autoImplicit false

/-! ## Streams -/

/-- The bytes shifted since the stream last ended. -/
def sinceBreak (ends : Break → Bool) (es : List Event) : List Shift :=
  es.foldl (fun l e => match e with
    | .shifted s => l ++ [s]
    | .broken b => if ends b then [] else l
    | .irq _ => l) []

/-- A card drops its transaction at a deselection and at a reset. -/
def endsTransaction (b : Break) : Bool := b ≠ .txEnable

theorem sinceBreak_append (ends : Break → Bool) (es : List Event) (e : Event) :
    sinceBreak ends (es ++ [e]) = match e with
      | .shifted s => sinceBreak ends es ++ [s]
      | .broken b => if ends b then [] else sinceBreak ends es
      | .irq _ => sinceBreak ends es := by
  simp only [sinceBreak, List.foldl_append, List.foldl_cons, List.foldl_nil]

def sent (txn : List Shift) : List Byte := txn.map Shift.tx

def answered (txn : List Shift) : List Byte := txn.map Shift.rx

/-- `81 57 x x msb lsb d0..d127 chk` with the checksum of its address and its data. -/
def WriteStream (txn : List Shift) (sector : ℕ) (data : Sector) : Prop :=
  ∃ x y msb lsb : Byte,
    sent txn = [0x81, 0x57, x, y, msb, lsb] ++ (List.ofFn data ++ [dataXor data (msb ^^^ lsb)]) ∧
      sector = (msb ++ lsb).toNat ∧ sector < memcardSectors

/-- A whole read of 140 bytes: of a sector of the card its data, their checksum and `47`, else bytes
`FF` with theirs and `FF`. -/
def ReadStream (txn : List Shift) (card : MemCard) : Prop :=
  ∃ x y msb lsb more,
    sent txn = [0x81, 0x52, x, y, msb, lsb] ++ more ∧ txn.length = 140 ∧
      (let inCard := (msb ++ lsb).toNat < memcardSectors
       let data := if inCard then card.sectors (msb ++ lsb).toNat else fun _ => 0xFF
       (answered txn).drop 10 =
         List.ofFn data ++ [dataXor data (msb ^^^ lsb), if inCard then 0x47 else 0xFF])

/-- The card of a transaction is in the slot selected when its first byte was shifted. Nothing is
said of a transaction behind another one in the same stream. -/
def OnSlot (before txn : List Shift) (card : Fin 2) : Prop :=
  (∀ s ∈ before, s.tx ≠ 0x81) → ∃ s rest, txn = s :: rest ∧ card = if s.slot then 1 else 0

/-- What the last byte of a stream has done is what its bytes ask for. -/
def Justified (cards : Fin 2 → MemCard) (stream : List Shift) : CardEffect → Prop
  | .quiet => True
  | .stored card sector data => ∃ before txn, stream = before ++ txn ∧ OnSlot before txn card ∧
      WriteStream txn sector data
  | .completed => ∃ before txn card, stream = before ++ txn ∧ OnSlot before txn card ∧
      ReadStream txn (cards card)
  | .outside => False

def CardEffect.apply (cards : Fin 2 → MemCard) : CardEffect → Fin 2 → MemCard
  | .stored i sector data => Function.update cards i
      { cards i with sectors := Function.update (cards i).sectors sector data }
  | _ => cards

/-- The images after what the bytes of a run have done. -/
def imagesAfter (cards : Fin 2 → MemCard) (es : List Event) : Fin 2 → MemCard :=
  es.foldl (fun cards e => match e with
    | .shifted s => s.effect.apply cards
    | _ => cards) cards

theorem imagesAfter_append (cards : Fin 2 → MemCard) (es : List Event) (e : Event) :
    imagesAfter cards (es ++ [e]) = match e with
      | .shifted s => s.effect.apply (imagesAfter cards es)
      | _ => imagesAfter cards es := by
  simp only [imagesAfter, List.foldl_append, List.foldl_cons, List.foldl_nil]

/-! ## The card in a transaction -/

variable {ω : Type} (F : Files ω)

/-- The sector a read has fetched. -/
def fetched (card : MemCard) (sector : BitVec 16) : Sector :=
  if sector.toNat < memcardSectors then card.sectors sector.toNat else fun _ => 0xFF

/-- `n` bytes into a read. -/
structure Reading (card : MemCard) (w : McSlotState) (txn : List Shift) (n : ℕ) : Prop where
  length : txn.length = n
  bytes : ∃ x y more, sent txn = [0x81, 0x52, x, y, w.sectorMsb, w.sectorLsb] ++ more
  sector : w.sector = w.sectorMsb ++ w.sectorLsb
  data : w.data = fetched card w.sector
  checksum : w.checksum = dataXor w.data (w.sectorMsb ^^^ w.sectorLsb)
  reply : (answered txn).drop 10 = (List.ofFn w.data ++ [w.checksum]).take (n - 10)

/-- `n` bytes of data into a write. -/
structure Writing (w : McSlotState) (txn : List Shift) (n : ℕ) : Prop where
  index : w.dataIdx = n
  bytes : ∃ x y, sent txn = [0x81, 0x57, x, y, w.sectorMsb, w.sectorLsb] ++ (List.ofFn w.data).take n
  sector : w.sector = w.sectorMsb ++ w.sectorLsb

def isAddressed (cmd : Byte) : Prop := cmd = 0x52 ∨ cmd = 0x57

/-- The bytes of the transaction so far, by the state of the card. -/
def Transcript (card : MemCard) (w : McSlotState) (txn : List Shift) : Prop :=
  match w.state with
  | .idle => False
  | .cmd => sent txn = [0x81]
  | .id1 => sent txn = [0x81, w.cmd] ∧ (w.cmd = 0x53 ∨ isAddressed w.cmd)
  | .id2 => (∃ x, sent txn = [0x81, w.cmd, x]) ∧ (w.cmd = 0x53 ∨ isAddressed w.cmd)
  | .addrMsb => (∃ x y, sent txn = [0x81, w.cmd, x, y]) ∧ isAddressed w.cmd
  | .addrLsb => (∃ x y, sent txn = [0x81, w.cmd, x, y, w.sectorMsb]) ∧ isAddressed w.cmd
  | .readAck1 => Reading card w txn 6
  | .readAck2 => Reading card w txn 7
  | .readMsbEcho => Reading card w txn 8
  | .readLsbEcho => Reading card w txn 9
  | .readData => ∃ i < 128, w.dataIdx = (i : ℕ) ∧ Reading card w txn (10 + i)
  | .readChk => Reading card w txn 138
  | .readEnd => Reading card w txn 139
  | .writeLsbEcho => Writing w txn 0
  | .writeData => ∃ i < 128, Writing w txn i
  | .writeChk => Writing w txn 128
  | _ => True

theorem sent_append (txn : List Shift) (s : Shift) : sent (txn ++ [s]) = sent txn ++ [s.tx] := by
  simp [sent]

/-- One more byte of a read: an acknowledge, or the byte that is due. -/
theorem Reading.next {card : MemCard} {w w' : McSlotState} {txn : List Shift} {n : ℕ}
    (h : Reading card w txn n) (hn : 6 ≤ n) {s : Shift}
    (hs : n < 10 ∨ (List.ofFn w.data ++ [w.checksum])[n - 10]? = some s.rx)
    (hw : w'.sectorMsb = w.sectorMsb ∧ w'.sectorLsb = w.sectorLsb ∧ w'.sector = w.sector ∧
      w'.data = w.data ∧ w'.checksum = w.checksum) :
    Reading card w' (txn ++ [s]) (n + 1) := by
  obtain ⟨h₁, h₂, h₃, h₄, h₅⟩ := hw
  obtain ⟨x, y, more, hsent⟩ := h.bytes
  refine ⟨?_, ⟨x, y, more ++ [s.tx], ?_⟩, ?_, ?_, ?_, ?_⟩
  · rw [List.length_append, h.length]
    rfl
  · rw [sent_append, hsent, h₁, h₂, List.append_assoc]
  · rw [h₁, h₂, h₃, h.sector]
  · rw [h₃, h₄, h.data]
  · rw [h₁, h₂, h₄, h₅, h.checksum]
  · have hlen : (answered txn).length = n := by rw [answered, List.length_map, h.length]
    rw [h₄, h₅, answered, List.map_append]
    rcases Nat.lt_or_ge n 10 with hlt | hge
    · rw [show n + 1 - 10 = 0 by omega, List.take_zero, List.drop_eq_nil_iff]
      simp only [List.length_append, List.length_map, h.length, List.length_singleton]
      omega
    · have hbyte := hs.resolve_left (by omega)
      rw [List.drop_append_of_le_length (by rw [List.length_map, h.length]; exact hge),
        show n + 1 - 10 = n - 10 + 1 by omega, List.take_add_one, hbyte]
      have hold := h.reply
      rw [answered] at hold
      rw [hold]
      rfl

theorem take_ofFn_update {m : ℕ} {data : Fin m → Byte} {i : ℕ} (hi : i < m) (v : Byte) :
    (List.ofFn (Function.update data ⟨i, hi⟩ v)).take (i + 1) = (List.ofFn data).take i ++ [v] := by
  refine List.ext_getElem? fun k => ?_
  rcases Nat.lt_trichotomy k i with hk | rfl | hk
  · rw [List.getElem?_append_left (by simp; omega), List.getElem?_take_of_lt (by omega),
      List.getElem?_take_of_lt hk, List.getElem?_ofFn, List.getElem?_ofFn]
    simp [show k < m by omega, Function.update, Fin.ext_iff, hk.ne]
  · rw [List.getElem?_append_right (by simp), List.getElem?_take_of_lt (by omega),
      List.getElem?_ofFn]
    simp [hi, Nat.min_eq_left hi.le]
  · rw [List.getElem?_eq_none (by simp; omega), List.getElem?_eq_none (by simp; omega)]

/-- One more byte of data. -/
theorem Writing.next {w : McSlotState} {txn : List Shift} {i : ℕ} (h : Writing w txn i)
    (hi : i < 128) (s : Shift) {w' : McSlotState}
    (hw : w' = { w with state := w'.state, data := Function.update w.data ⟨i, hi⟩ s.tx,
                        dataIdx := w.dataIdx + 1 }) :
    Writing w' (txn ++ [s]) (i + 1) := by
  obtain ⟨x, y, hsent⟩ := h.bytes
  rw [hw]
  refine ⟨?_, ⟨x, y, ?_⟩, h.sector⟩
  · simp only [h.index]
    push_cast
    rfl
  · rw [sent_append, hsent, List.append_assoc, take_ofFn_update hi]

theorem putData_eq (data : Sector) {i : ℕ} (hi : i < 128) (v : Byte) :
    putData data i v = some (Function.update data ⟨i, hi⟩ v) := by
  rw [putData, dif_pos (by omega)]
  rfl

theorem dataAt_eq (data : Sector) {i : ℕ} (hi : i < 128) : dataAt data i = some (data ⟨i, hi⟩) := by
  rw [dataAt, dif_pos (by omega)]
  rfl

/-! ## One byte to a card in a transaction -/

/-- What the last byte did, for the card of the transaction. -/
def Done (i : Fin 2) (card : MemCard) (txn : List Shift) : CardEffect → Prop
  | .quiet => True
  | .stored j sector data => j = i ∧ WriteStream txn sector data
  | .completed => ReadStream txn card
  | .outside => False

/-- The transaction goes on or is over, and the byte has done what the bytes ask for. -/
structure CardStep (i : Fin 2) (c : CardPort ω) (txn : List Shift) (slot : Bool) (tx : Byte)
    (e : CardExchange ω) : Prop where
  sameSlot : e.state.slot = c.slot
  saved : e.state.saved = c.saved
  cards : e.state.cards = e.effect.apply c.cards
  next : e.state.work.state = .idle ∨
    Transcript (e.state.cards i) e.state.work (txn ++ [⟨tx, e.rx, slot, e.effect⟩])
  effect : Done i (c.cards i) (txn ++ [⟨tx, e.rx, slot, e.effect⟩]) e.effect

variable {i : Fin 2} {c : CardPort ω} {txn : List Shift} {slot : Bool} {tx : Byte}

theorem CardStep.reply {w : McSlotState} {state : McState} {rx : Byte}
    (h : Transcript (c.cards i) { w with state := state } (txn ++ [⟨tx, rx, slot, .quiet⟩])) :
    CardStep i c txn slot tx (({ c with work := w }).reply state rx) :=
  ⟨rfl, rfl, rfl, Or.inr h, trivial⟩

theorem CardStep.finish {w : McSlotState} {rx : Byte} :
    CardStep i c txn slot tx (({ c with work := w }).finish rx) :=
  ⟨rfl, rfl, rfl, Or.inl rfl, trivial⟩

theorem cardCommand_step (ht : Transcript (c.cards i) c.work txn) (hst : c.work.state = .cmd) :
    CardStep i c txn slot tx (cardCommand tx c) := by
  simp only [Transcript, hst] at ht
  unfold cardCommand
  split_ifs with h
  · refine CardStep.reply ⟨?_, ?_⟩
    · rw [sent_append, ht]
      rfl
    · unfold isAddressed
      tauto
  · exact CardStep.finish

theorem cardAddress_step (hslot : slotIndex c.slot = some i) (hpresent : (c.cards i).present = true)
    (ht : Transcript (c.cards i) c.work txn) (hst : c.work.state = .addrLsb) :
    CardStep i c txn slot tx (cardAddress tx c) := by
  simp only [Transcript, hst] at ht
  obtain ⟨⟨x, y, hsent⟩, hcmd⟩ := ht
  unfold cardAddress
  dsimp only
  by_cases h : c.work.cmd = 0x52
  · rw [if_pos h]
    refine CardStep.reply ?_
    refine ⟨?_, ⟨x, y, [], ?_⟩, rfl, ?_, ?_, ?_⟩
    · have := congrArg List.length hsent
      rw [sent, List.length_map] at this
      rw [List.length_append, this]
      rfl
    · rw [sent_append, hsent, h]
      rfl
    · simp only [fetched, readSector, hslot, hpresent, if_true]
    · dsimp only
    · rw [List.take_zero, List.drop_eq_nil_iff, answered, List.length_map]
      have := congrArg List.length hsent
      rw [sent, List.length_map] at this
      rw [List.length_append, this]
      simp
  · rw [if_neg h]
    refine CardStep.reply ⟨rfl, ⟨x, y, ?_⟩, rfl⟩
    rw [sent_append, hsent, hcmd.resolve_left h]
    rfl

theorem cardReadByte_step (ht : Transcript (c.cards i) c.work txn) (hst : c.work.state = .readData) :
    CardStep i c txn slot tx (cardReadByte c) := by
  simp only [Transcript, hst] at ht
  obtain ⟨n, hn, hidx, hread⟩ := ht
  unfold cardReadByte
  rw [hidx, dataAt_eq _ hn]
  simp only
  have hbyte : (List.ofFn c.work.data ++ [c.work.checksum])[10 + n - 10]? =
      some (c.work.data ⟨n, hn⟩) := by
    rw [Nat.add_sub_cancel_left, List.getElem?_append_left (by rw [List.length_ofFn]; exact hn),
      List.getElem?_ofFn, dif_pos hn]
  split_ifs with hlast
  · refine CardStep.reply ?_
    obtain rfl : n = 127 := by omega
    exact hread.next (by omega) (Or.inr hbyte) ⟨rfl, rfl, rfl, rfl, rfl⟩
  · refine CardStep.reply ⟨n + 1, by omega, by push_cast; rfl, ?_⟩
    exact hread.next (by omega) (Or.inr hbyte) ⟨rfl, rfl, rfl, rfl, rfl⟩

theorem cardWriteByte_step {n : ℕ} (hn : n < 128) (hw : Writing c.work txn n) {next : ℤ → McState}
    {rx : Byte} (hnext : next (c.work.dataIdx + 1) = if n = 127 then .writeChk else .writeData) :
    CardStep i c txn slot tx (cardWriteByte tx next rx c) := by
  unfold cardWriteByte
  rw [hw.index, putData_eq _ hn]
  simp only
  rw [← hw.index, hnext]
  have hnew : Writing { c.work with
      state := if n = 127 then .writeChk else .writeData
      data := Function.update c.work.data ⟨n, hn⟩ tx
      dataIdx := c.work.dataIdx + 1 } (txn ++ [⟨tx, rx, slot, .quiet⟩]) (n + 1) := hw.next hn _ rfl
  refine CardStep.reply ?_
  split_ifs at hnew ⊢ with hlast
  · subst hlast
    exact hnew
  · exact ⟨n + 1, by omega, hnew⟩

theorem writeSector_eq (hslot : slotIndex c.slot = some i) (hpresent : (c.cards i).present = true)
    (sector : ℕ) (data : Sector) :
    (writeSector F c sector data).1.slot = c.slot ∧
      (writeSector F c sector data).1.saved = c.saved ∧
      (writeSector F c sector data).2.2 = .stored i sector data ∧
      (writeSector F c sector data).1.cards = (CardEffect.stored i sector data).apply c.cards := by
  simp [writeSector, hslot, hpresent, CardEffect.apply]

theorem cardWriteCheck_step (hslot : slotIndex c.slot = some i)
    (hpresent : (c.cards i).present = true) (ht : Transcript (c.cards i) c.work txn)
    (hst : c.work.state = .writeChk) : CardStep i c txn slot tx (cardWriteCheck F tx c) := by
  simp only [Transcript, hst] at ht
  unfold cardWriteCheck
  dsimp only
  by_cases h : tx = dataXor c.work.data (c.work.sectorMsb ^^^ c.work.sectorLsb) ∧
      c.work.sector.toNat < memcardSectors
  · rw [if_pos h]
    obtain ⟨h₁, h₂, h₃, h₄⟩ := writeSector_eq F hslot hpresent c.work.sector.toNat c.work.data
    refine ⟨h₁, h₂, ?_, Or.inr trivial, ?_⟩
    · rw [h₃]
      exact h₄
    · simp only [h₃]
      obtain ⟨x, y, hsent⟩ := ht.bytes
      refine ⟨rfl, x, y, c.work.sectorMsb, c.work.sectorLsb, ?_, by rw [ht.sector], h.2⟩
      rw [sent_append, hsent, List.take_of_length_le (by rw [List.length_ofFn]), h.1,
        List.append_assoc]
  · rw [if_neg h]
    exact ⟨rfl, rfl, rfl, Or.inr trivial, trivial⟩

theorem cardReadEnd_step (ht : Transcript (c.cards i) c.work txn) (hst : c.work.state = .readEnd) :
    CardStep i c txn slot tx (cardReadEnd c) := by
  simp only [Transcript, hst] at ht
  refine ⟨rfl, rfl, rfl, Or.inl rfl, ?_⟩
  obtain ⟨x, y, more, hsent⟩ := ht.bytes
  have hdrop : (answered txn).drop 10 = List.ofFn c.work.data ++ [c.work.checksum] := by
    rw [ht.reply, List.take_of_length_le]
    rw [List.length_append, List.length_ofFn, List.length_singleton]
  refine ⟨x, y, c.work.sectorMsb, c.work.sectorLsb, more ++ [tx], ?_, ?_, ?_⟩
  · rw [sent_append, hsent, List.append_assoc]
  · rw [List.length_append, ht.length]
    rfl
  · have hlen : 10 ≤ (answered txn).length := by
      rw [answered, List.length_map, ht.length]
      decide
    have hstatus : (cardReadEnd c).rx =
        if (c.work.sectorMsb ++ c.work.sectorLsb).toNat < memcardSectors then 0x47 else 0xFF := by
      rw [← ht.sector]
      rfl
    simp only
    rw [answered, List.map_append, ← answered, List.drop_append_of_le_length hlen, hdrop,
      List.append_assoc, ht.checksum, ht.data, fetched, ht.sector, List.map_singleton, hstatus]
    rfl

/-- One byte to a card that is in a transaction. -/
theorem mcProcessByte_step (hslot : slotIndex c.slot = some i)
    (hpresent : (c.cards i).present = true) (ht : Transcript (c.cards i) c.work txn)
    (selected : ℤ) : CardStep i c txn slot tx (mcProcessByte F selected tx c) := by
  unfold mcProcessByte
  cases hst : c.work.state with
  | idle => simp [Transcript, hst] at ht
  | cmd => exact cardCommand_step ht hst
  | addrLsb => exact cardAddress_step hslot hpresent ht hst
  | readData => exact cardReadByte_step ht hst
  | readEnd => exact cardReadEnd_step ht hst
  | writeChk => exact cardWriteCheck_step F hslot hpresent ht hst
  | getId4 | writeEnd | unknown => exact CardStep.finish
  | getId1 | getId2 | getId3 | writeAck1 | writeAck2 => exact CardStep.reply trivial
  | id1 =>
    simp only [Transcript, hst] at ht
    exact CardStep.reply ⟨⟨tx, by rw [sent_append, ht.1]; rfl⟩, ht.2⟩
  | id2 =>
    simp only [Transcript, hst] at ht
    obtain ⟨⟨x, hsent⟩, hcmd⟩ := ht
    dsimp only
    split_ifs with h
    · exact CardStep.reply trivial
    · exact CardStep.reply ⟨⟨x, tx, by rw [sent_append, hsent]; rfl⟩, hcmd.resolve_left h⟩
  | addrMsb =>
    simp only [Transcript, hst] at ht
    obtain ⟨⟨x, y, hsent⟩, hcmd⟩ := ht
    exact CardStep.reply ⟨⟨x, y, by rw [sent_append, hsent]; rfl⟩, hcmd⟩
  | readAck1 | readAck2 | readMsbEcho =>
    simp only [Transcript, hst] at ht
    exact CardStep.reply (ht.next (by omega) (Or.inl (by omega)) ⟨rfl, rfl, rfl, rfl, rfl⟩)
  | readLsbEcho =>
    simp only [Transcript, hst] at ht
    exact CardStep.reply
      ⟨0, by omega, rfl, ht.next (by omega) (Or.inl (by omega)) ⟨rfl, rfl, rfl, rfl, rfl⟩⟩
  | readChk =>
    simp only [Transcript, hst] at ht
    refine CardStep.reply (ht.next (by omega) (Or.inr ?_) ⟨rfl, rfl, rfl, rfl, rfl⟩)
    rw [List.getElem?_append_right (by rw [List.length_ofFn]), List.length_ofFn]
    rfl
  | writeLsbEcho =>
    simp only [Transcript, hst] at ht
    exact cardWriteByte_step (by omega) ht rfl
  | writeData =>
    simp only [Transcript, hst] at ht
    obtain ⟨n, hn, hw⟩ := ht
    refine cardWriteByte_step hn hw ?_
    rw [hw.index]
    split_ifs <;> first | rfl | omega

/-! ## One byte on the bus -/

/-- The card state against the bytes since the stream last ended. -/
structure Tracks (card : CardPort ω) (active : ActiveDevice) (stream : List Shift) : Prop where
  selected : active = .memcard → ∃ s ∈ stream, s.tx = 0x81
  saved : ∀ i, (card.saved i).state = .idle
  work : card.work.state = .idle ∨ active = .memcard ∧ ∃ before txn i, stream = before ++ txn ∧
    OnSlot before txn i ∧ slotIndex card.slot = some i ∧ (card.cards i).present = true ∧
      Transcript (card.cards i) card.work txn

/-- One byte of a stream, with what it does to the images. -/
structure ByteStep (c : Core ω) (stream : List Shift) (tx : Byte) (r : Core ω × CardEffect) : Prop where
  tracks : Tracks r.1.card r.1.active (stream ++ [⟨tx, r.1.rxData, c.slotBit, r.2⟩])
  justified : Justified c.card.cards (stream ++ [⟨tx, r.1.rxData, c.slotBit, r.2⟩]) r.2
  images : r.1.card.cards = r.2.apply c.card.cards

theorem Justified.of_done {i : Fin 2} {cards : Fin 2 → MemCard} {before txn : List Shift}
    {effect : CardEffect} (hon : OnSlot before txn i) (h : Done i (cards i) txn effect) :
    Justified cards (before ++ txn) effect := by
  cases effect with
  | quiet => trivial
  | stored j sector data =>
    obtain ⟨rfl, hw⟩ := h
    exact ⟨before, txn, rfl, hon, hw⟩
  | completed => exact ⟨before, txn, i, rfl, hon, h⟩
  | outside => exact h

theorem OnSlot.append {before txn : List Shift} {i : Fin 2} (h : OnSlot before txn i) (s : Shift) :
    OnSlot before (txn ++ [s]) i := by
  intro hb
  obtain ⟨first, rest, rfl, hi⟩ := h hb
  exact ⟨first, rest ++ [s], rfl, hi⟩

theorem apply_present (effect : CardEffect) (cards : Fin 2 → MemCard) (i : Fin 2) :
    (effect.apply cards i).present = (cards i).present := by
  cases effect with
  | stored j sector data =>
    by_cases h : i = j
    · subst h
      simp [CardEffect.apply]
    · simp [CardEffect.apply, h]
  | quiet => rfl
  | completed => rfl
  | outside => rfl

/-- A byte that leaves the card alone. -/
theorem ByteStep.quiet {c c' : Core ω} {stream : List Shift} {tx : Byte} (hcard : c'.card = c.card)
    (hactive : c'.active ≠ .memcard) (hsaved : ∀ i, (c.card.saved i).state = .idle)
    (hidle : c.card.work.state = .idle) : ByteStep c stream tx (c', .quiet) := by
  refine ⟨⟨fun h => absurd h hactive, ?_, Or.inl ?_⟩, trivial, ?_⟩
  · rw [hcard]
    exact hsaved
  · rw [hcard]
    exact hidle
  · rw [hcard]
    rfl

theorem slotIndex_of_present {c : CardPort ω} {slot : ℤ} (h : c.isPresent slot = true) :
    ∃ i, slotIndex slot = some i ∧ (c.cards i).present = true := by
  unfold CardPort.isPresent at h
  split at h
  · cases h
  · next i hi => exact ⟨i, hi, h⟩

/-- A select byte to an idle card begins a transaction. -/
theorem ByteStep.select {c d : Core ω} {stream : List Shift} (hactive : d.active = .memcard)
    (hcards : d.card.cards = c.card.cards) (hsaved : ∀ i, (d.card.saved i).state = .idle)
    (hidle : d.card.work.state = .idle)
    (hslot : (∀ s ∈ stream, s.tx ≠ 0x81) → d.bus.selectedSlot = if c.slotBit then 1 else 0) :
    ByteStep c stream 0x81 (d.cardByte F 0x81) := by
  have heq : mcProcessByte F d.bus.selectedSlot 0x81 d.card = cardSelect d.bus.selectedSlot d.card := by
    rw [mcProcessByte, hidle]
  unfold Core.cardByte
  simp only [heq]
  have hmem (rx : Byte) (e : CardEffect) :
      ∃ s ∈ stream ++ [⟨0x81, rx, c.slotBit, e⟩], s.tx = 0x81 :=
    ⟨_, List.mem_append_right _ List.mem_cons_self, rfl⟩
  unfold cardSelect
  dsimp only
  by_cases hp : CardPort.isPresent { d.card with slot := d.bus.selectedSlot } d.bus.selectedSlot = true
  · rw [if_pos hp]
    obtain ⟨i, hi, hpresent⟩ := slotIndex_of_present hp
    refine ⟨⟨fun _ => hmem _ _, hsaved, Or.inr ⟨hactive, stream, _, i, rfl, ?_, hi, hpresent, ?_⟩⟩,
      trivial, hcards⟩
    · intro hb
      refine ⟨_, [], rfl, ?_⟩
      have hsel := hslot hb
      rw [hsel] at hi
      revert hi
      cases c.slotBit <;> simp [slotIndex, eq_comm]
    · rfl
  · rw [if_neg hp]
    exact ⟨⟨fun _ => hmem _ _, hsaved, Or.inl hidle⟩, trivial, hcards⟩

/-- A byte to a card in a transaction. -/
theorem ByteStep.card {c : Core ω} {stream : List Shift} (h : Tracks c.card c.active stream)
    (hbusy : c.card.work.state ≠ .idle) (tx : Byte) : ByteStep c stream tx (c.cardByte F tx) := by
  obtain ⟨hactive, before, txn, i, rfl, hon, hslot, hpresent, ht⟩ := h.work.resolve_left hbusy
  have hstep : CardStep i c.card txn c.slotBit tx (mcProcessByte F c.bus.selectedSlot tx c.card) :=
    mcProcessByte_step F hslot hpresent ht c.bus.selectedSlot
  unfold Core.cardByte
  refine ⟨⟨fun ha => ?_, ?_, ?_⟩, ?_, hstep.cards⟩
  · obtain ⟨s, hs, hs'⟩ := h.selected hactive
    exact ⟨s, List.mem_append_left _ hs, hs'⟩
  · exact hstep.saved ▸ h.saved
  · rcases hstep.next with hidle | hnext
    · exact Or.inl hidle
    · refine Or.inr ⟨hactive, before, _, i, List.append_assoc _ _ _, hon.append _, ?_, ?_, hnext⟩
      · exact hstep.sameSlot ▸ hslot
      · exact hstep.cards ▸ (apply_present _ _ i).trans hpresent
  · rw [List.append_assoc]
    exact Justified.of_done (hon.append _) hstep.effect

theorem loadSlot_cards (c : CardPort ω) (slot : ℤ) : (c.loadSlot slot).cards = c.cards := by
  unfold CardPort.loadSlot
  split <;> rfl

theorem loadSlot_saved (c : CardPort ω) (slot : ℤ) : (c.loadSlot slot).saved = c.saved := by
  unfold CardPort.loadSlot
  split <;> rfl

theorem loadSlot_idle {c : CardPort ω} (hs : ∀ i, (c.saved i).state = .idle)
    (hw : c.work.state = .idle) (slot : ℤ) : (c.loadSlot slot).work.state = .idle := by
  unfold CardPort.loadSlot
  split
  · exact hw
  · exact hs _

theorem firstByte_step {c : Core ω} {stream : List Shift} (h : Tracks c.card c.active stream)
    (hactive : c.active = .none) (tx : Byte) : ByteStep c stream tx (c.firstByte F tx) := by
  have hidle : c.card.work.state = .idle := by
    rcases h.work with hidle | ⟨hm, -⟩
    · exact hidle
    · rw [hactive] at hm
      cases hm
  unfold Core.firstByte
  dsimp only
  by_cases h1 : tx = 0x01
  · rw [if_pos h1]
    refine ByteStep.quiet ?_ (by simp [Core.padByte]) h.saved hidle
    change (if c.card.work.state = .idle then c.card else _) = c.card
    rw [if_pos hidle]
  · rw [if_neg h1]
    by_cases h81 : tx = 0x81
    · rw [if_pos h81]
      subst h81
      refine ByteStep.select F rfl (loadSlot_cards _ _) ?_ rfl fun _ => rfl
      intro i
      change ((c.card.loadSlot _).saved i).state = .idle
      rw [loadSlot_saved]
      exact h.saved i
    · rw [if_neg h81]
      have hload := loadSlot_idle h.saved hidle c.selectSlot.bus.selectedSlot
      rw [if_neg (fun hbusy => hbusy.1 hload)]
      refine ⟨⟨?_, ?_, Or.inl rfl⟩, trivial, loadSlot_cards _ _⟩
      · intro hm
        exact absurd (hactive.symm.trans hm) (by decide)
      · intro i
        change ((c.card.loadSlot _).saved i).state = .idle
        rw [loadSlot_saved]
        exact h.saved i

theorem nextCardByte_step {c : Core ω} {stream : List Shift} (h : Tracks c.card c.active stream)
    (hactive : c.active = .memcard) (tx : Byte) : ByteStep c stream tx (c.nextCardByte F tx) := by
  unfold Core.nextCardByte
  by_cases hidle : c.card.work.state = .idle
  · by_cases h81 : tx = 0x81
    · rw [if_neg (fun hx => hx.2 h81), h81]
      refine ByteStep.select F hactive rfl h.saved hidle fun hb => ?_
      obtain ⟨s, hs, hs'⟩ := h.selected hactive
      exact absurd hs' (hb s hs)
    · rw [if_pos ⟨hidle, h81⟩]
      dsimp only
      split_ifs
      · exact ByteStep.quiet rfl (by simp [Core.padByte]) h.saved hidle
      · exact ByteStep.quiet rfl (by simp [Core.strayByte, Core.selectSlot]) h.saved hidle
  · rw [if_neg (fun hx => hidle hx.1)]
    exact ByteStep.card F h hidle tx

theorem ByteStep.counted {c : Core ω} {stream : List Shift} {tx : Byte} {r : Core ω × CardEffect}
    (h : ByteStep c stream tx r) (n : BitVec 32) :
    ByteStep c stream tx ({ r.1 with traceSeq := n }, r.2) := ⟨h.tracks, h.justified, h.images⟩

theorem processByte_step {c : Core ω} {stream : List Shift} (h : Tracks c.card c.active stream)
    (tx : Byte) : ByteStep c stream tx (c.processByte F tx) := by
  unfold Core.processByte
  have hidle (hm : c.active ≠ .memcard) : c.card.work.state = .idle := by
    rcases h.work with hidle | ⟨hm', -⟩
    · exact hidle
    · exact absurd hm' hm
  cases hactive : c.active with
  | none => exact (firstByte_step F h hactive tx).counted _
  | pad =>
    have hm : c.active ≠ .memcard := by simp [hactive]
    have hquiet : ByteStep c stream tx (c.padByte tx, .quiet) :=
      ByteStep.quiet rfl hm h.saved (hidle hm)
    exact hquiet.counted _
  | memcard => exact (nextCardByte_step F h hactive tx).counted _
  | unknown code =>
    have hm : c.active ≠ .memcard := by simp [hactive]
    have hquiet : ByteStep c stream tx (c, .quiet) := ByteStep.quiet rfl hm h.saved (hidle hm)
    exact hquiet.counted _

/-! ## Runs -/

/-- What holds of a port and of everything shown since `sio_init`. -/
structure History (cards : Fin 2 → MemCard) (p : Port ω) (es : List Event) : Prop where
  tracks : Tracks p.core.card p.core.active (sinceBreak endsTransaction es)
  images : p.core.card.cards = imagesAfter cards es
  justified : ∀ pre s post, es = pre ++ .shifted s :: post →
    Justified (imagesAfter cards pre) (sinceBreak endsTransaction (pre ++ [.shifted s])) s.effect

variable {cards : Fin 2 → MemCard} {p q : Port ω} {es : List Event}

/-- A change of the port that the cards do not see. -/
theorem History.same (h : History cards p es) (hcard : q.core.card = p.core.card)
    (hactive : q.core.active = p.core.active) : History cards q es := by
  refine ⟨?_, ?_, h.justified⟩
  · rw [hcard, hactive]
    exact h.tracks
  · rw [hcard]
    exact h.images

theorem justified_snoc {P : List Event → Shift → Prop}
    (h : ∀ pre s post, es = pre ++ .shifted s :: post → P pre s) {e : Event}
    (he : ∀ s, e = .shifted s → P es s) (pre : List Event) (s : Shift) (post : List Event)
    (hsplit : es ++ [e] = pre ++ .shifted s :: post) : P pre s := by
  rcases List.eq_nil_or_concat post with rfl | ⟨init, last, rfl⟩
  · obtain ⟨rfl, hlast⟩ := List.append_inj' hsplit rfl
    exact he s (List.singleton_inj.1 hlast)
  · rw [List.concat_eq_append, ← List.cons_append, ← List.append_assoc] at hsplit
    obtain ⟨rfl, -⟩ := List.append_inj' hsplit rfl
    exact h pre s init rfl

theorem History.irq (h : History cards p es) (after : ℤ) : History cards p (es ++ [.irq after]) := by
  refine ⟨?_, ?_, ?_⟩
  · rw [sinceBreak_append]
    exact h.tracks
  · rw [imagesAfter_append]
    exact h.images
  · exact justified_snoc h.justified fun s hs => by cases hs

theorem History.shifted (h : History cards p es) {b : Byte}
    (hcard : q.core.card = (p.core.processByte F b).1.card)
    (hactive : q.core.active = (p.core.processByte F b).1.active) :
    History cards q (es ++ [.shifted (p.core.shift F b)]) := by
  have hstep := processByte_step F h.tracks b
  refine ⟨?_, ?_, ?_⟩
  · rw [sinceBreak_append, hcard, hactive]
    exact hstep.tracks
  · rw [imagesAfter_append, hcard, hstep.images, h.images]
    rfl
  · refine justified_snoc h.justified fun s hs => ?_
    obtain rfl := Event.shifted.inj hs
    rw [sinceBreak_append, ← h.images]
    exact hstep.justified

/-- Cards at rest need no stream. -/
theorem History.broken (h : History cards p es) (b : Break)
    (hcards : q.core.card.cards = p.core.card.cards)
    (hsaved : ∀ i, (q.core.card.saved i).state = .idle) (hidle : q.core.card.work.state = .idle)
    (hactive : q.core.active = .none) : History cards q (es ++ [.broken b]) := by
  refine ⟨⟨?_, hsaved, Or.inl hidle⟩, ?_, ?_⟩
  · intro hm
    exact absurd (hactive.symm.trans hm) (by decide)
  · rw [imagesAfter_append, hcards]
    exact h.images
  · exact justified_snoc h.justified fun s hs => by cases hs

theorem History.txEnable (h : History cards p es) : History cards p (es ++ [.broken .txEnable]) := by
  refine ⟨?_, ?_, ?_⟩
  · rw [sinceBreak_append]
    exact h.tracks
  · rw [imagesAfter_append]
    exact h.images
  · exact justified_snoc h.justified fun s hs => by cases hs

/-! ## Calls -/

theorem History.shiftComplete (h : History cards p es) :
    History cards (shiftComplete F p).1 (es ++ [(shiftComplete F p).2]) :=
  h.shifted F rfl rfl

theorem History.fireAckIrq (h : History cards p es) (after : ℤ) :
    History cards (fireAckIrq after p).1 (es ++ (fireAckIrq after p).2) := by
  unfold Sio.fireAckIrq
  dsimp only
  split_ifs
  · exact (h.irq after).same rfl rfl
  · rw [List.append_nil]
    exact h.same rfl rfl

theorem History.paceWalk (h : History cards p es) (cycles : ℤ) (passes : ℕ) (remaining : ℤ) :
    History cards (paceWalk F cycles passes remaining p).1
      (es ++ (paceWalk F cycles passes remaining p).2) := by
  induction passes generalizing p es remaining with
  | zero =>
    rw [Sio.paceWalk, List.append_nil]
    exact h
  | succ passes ih =>
    rw [Sio.paceWalk]
    have hq (pace : Pace) : History cards ⟨p.core, pace⟩ es := h.same rfl rfl
    split_ifs
    · dsimp only
      split
      · rw [List.append_cons]
        exact ih ((hq _).shiftComplete F) _
      · rw [← List.append_assoc]
        exact ih ((hq _).fireAckIrq _) _
      · rw [List.append_nil]
        exact hq _
    · rw [List.append_nil]
      exact h

theorem History.sioAdvance (h : History cards p es) (cycles : BitVec 32) :
    History cards (sioAdvance F cycles p).1 (es ++ (sioAdvance F cycles p).2) := by
  unfold Sio.sioAdvance
  split_ifs
  · rw [List.append_nil]
    exact h
  · exact h.paceWalk F _ _ _

theorem History.sioTick (h : History cards p es) :
    History cards (sioTick p).1 (es ++ (sioTick p).2) := by
  unfold Sio.sioTick
  dsimp only
  split_ifs
  · exact (h.irq 0).same rfl rfl
  · rw [List.append_nil]
    exact h.same rfl rfl
  · rw [List.append_nil]
    exact h

theorem History.sioRead (h : History cards p es) (addr : BitVec 32) :
    History cards (sioRead addr p).1 (es ++ (sioRead addr p).2.1) := by
  have ht := h.sioTick
  unfold Sio.sioRead
  dsimp only
  split_ifs
  all_goals exact ht.same rfl rfl

theorem History.writeData (h : History cards p es) (sync : Bool) (value : BitVec 32) :
    History cards (writeData F sync value p).1 (es ++ (writeData F sync value p).2) := by
  have hq (b : Byte) : History cards ⟨{ p.core with txData := b }, p.pace⟩ es := h.same rfl rfl
  unfold Sio.writeData
  dsimp only
  split_ifs
  · rw [List.append_nil]
    exact hq _
  · refine (hq (value.setWidth 8)).shifted F ?_ ?_
    · unfold syncByte
      dsimp only
      split_ifs <;> rfl
    · unfold syncByte
      dsimp only
      split_ifs <;> rfl
  · rw [List.append_nil]
    refine (hq (value.setWidth 8)).same ?_ ?_
    · unfold queueByte
      dsimp only
      split_ifs <;> rfl
    · unfold queueByte
      dsimp only
      split_ifs <;> rfl

theorem History.resetPort (h : History cards p es) :
    History cards (resetPort p) (es ++ [.broken .reset]) :=
  h.broken _ rfl (fun _ => rfl) rfl rfl

theorem History.released (h : History cards p es) :
    History cards { p with pace := p.pace.released } es := h.same rfl rfl

theorem History.stopShifter (h : History cards p es) (select : Bool) :
    History cards (stopShifter select p) (es ++ [.broken .txEnable]) := by
  refine h.txEnable.same ?_ ?_
  · unfold Sio.stopShifter
    split_ifs <;> rfl
  · unfold Sio.stopShifter
    split_ifs <;> rfl

theorem History.deselect (h : History cards p es) :
    History cards (deselect p) (es ++ [.broken .select]) :=
  h.broken _ rfl (fun _ => rfl) rfl rfl

/-- A step that is taken, with what it shows, or is not. -/
theorem History.ite (h : History cards p es) (b : Bool) {e : Event}
    (hq : History cards q (es ++ [e])) :
    History cards (if b then q else p) (es ++ if b then [e] else []) := by
  cases b with
  | true => exact hq
  | false => simpa using h

theorem History.iteSame (h : History cards p es) (b : Bool) (hq : History cards q es) :
    History cards (if b then q else p) es := by
  cases b with
  | true => exact hq
  | false => exact h

theorem History.writeCtrl (h : History cards p es) (value : BitVec 32) :
    History cards (writeCtrl value p).1 (es ++ (writeCtrl value p).2) := by
  have hctrl : History cards ⟨{ p.core with ctrl := value.setWidth 16 }, p.pace⟩ es := h.same rfl rfl
  have hack := hctrl.iteSame ((value.setWidth 16 : BitVec 16).getLsbD ctrlAck)
    (q := ⟨{ p.core with
      ctrl := value.setWidth 16
      stat := p.core.stat &&& ~~~statIrq &&& ~~~statAck
      ackVisibleReads := 0 }, p.pace⟩) (hctrl.same rfl rfl)
  have hreset := hack.ite ((value.setWidth 16 : BitVec 16).getLsbD ctrlReset) hack.resetPort
  have hselect := hreset.iteSame
    (!p.core.ctrl.getLsbD ctrlSelect && (value.setWidth 16 : BitVec 16).getLsbD ctrlSelect)
    hreset.released
  have hstop := hselect.ite
    (p.core.ctrl.getLsbD ctrlTxEn && !(value.setWidth 16 : BitVec 16).getLsbD ctrlTxEn)
    (hselect.stopShifter ((value.setWidth 16 : BitVec 16).getLsbD ctrlSelect))
  have hfall := hstop.ite
    (p.core.ctrl.getLsbD ctrlSelect && !(value.setWidth 16 : BitVec 16).getLsbD ctrlSelect)
    hstop.deselect
  rw [List.append_assoc, List.append_assoc] at hfall
  exact hfall

theorem History.sioWrite (h : History cards p es) (sync : Bool) (addr value : BitVec 32) :
    History cards (sioWrite F sync addr value p).1 (es ++ (sioWrite F sync addr value p).2) := by
  unfold Sio.sioWrite
  dsimp only
  rw [← List.append_assoc]
  refine History.sioTick ?_
  split_ifs
  · exact h.writeData F sync value
  · rw [List.append_nil]
    exact h.same rfl rfl
  · exact h.writeCtrl value
  · rw [List.append_nil]
    exact h.same rfl rfl
  · rw [List.append_nil]
    exact h

theorem History.hostCall (h : History cards p es) (c : HostCall) :
    History cards (hostCall c p) es := by
  have hactive : (Sio.hostCall c p).core.active = p.core.active ∨
      p.core.active = .pad ∧ (Sio.hostCall c p).core.active = .none := by
    cases c
    case canonicalizeSession =>
      simp only [Sio.hostCall]
      by_cases hpad : p.core.active = .pad
      · exact Or.inr ⟨hpad, if_pos hpad⟩
      · exact Or.inl (if_neg hpad)
    all_goals exact Or.inl rfl
  rcases hactive with hsame | ⟨hpad, hnone⟩
  · exact h.same rfl hsame
  · refine ⟨⟨?_, h.tracks.saved, ?_⟩, h.images, h.justified⟩
    · intro hm
      exact absurd (hnone.symm.trans hm) (by decide)
    · rcases h.tracks.work with hidle | ⟨hm, -⟩
      · exact Or.inl hidle
      · exact absurd (hpad.symm.trans hm) (by decide)

theorem History.call (h : History cards p es) (sync : Bool) (c : Call) :
    History cards (call F sync p c).1 (es ++ (call F sync p c).2.events) := by
  cases c with
  | write addr value => exact h.sioWrite F sync addr value
  | read addr => exact h.sioRead addr
  | advance cycles => exact h.sioAdvance F cycles
  | tick => exact h.sioTick
  | host c =>
    rw [Sio.call, List.append_nil]
    exact h.hostCall c

/-- What the calls of a run have shown, in order. -/
def shown (outcomes : List Outcome) : List Event := outcomes.flatMap Outcome.events

theorem History.run (h : History cards p es) (sync : Bool) (calls : List Call) :
    History cards (run F sync p calls).1 (es ++ shown (run F sync p calls).2) := by
  induction calls generalizing p es with
  | nil =>
    rw [Sio.run, shown, List.flatMap_nil, List.append_nil]
    exact h
  | cons c calls ih =>
    rw [Sio.run, shown, List.flatMap_cons, ← List.append_assoc]
    exact ih (h.call F sync c)

theorem History.init (p : Port ω) : History p.core.card.cards (sioInit p) [] := by
  refine ⟨⟨?_, fun _ => rfl, Or.inl rfl⟩, rfl, ?_⟩
  · intro hm
    cases hm
  · intro pre s post hsplit
    simp at hsplit

/-- In every run from `sio_init` the images change by what the shifted bytes have done alone, and no
byte does more to a card than the bytes of its transaction ask for: a sector is stored behind the
exact stream of a write with the right checksum, and a read that ends well has returned the sector,
its checksum and its terminator. -/
theorem card_transactions (sync : Bool) (p : Port ω) (calls : List Call) :
    let r := run F sync (sioInit p) calls
    r.1.core.card.cards = imagesAfter p.core.card.cards (shown r.2) ∧
      ∀ pre s post, shown r.2 = pre ++ .shifted s :: post →
        Justified (imagesAfter p.core.card.cards pre)
          (sinceBreak endsTransaction (pre ++ [.shifted s])) s.effect := by
  have h := (History.init p).run F sync calls
  rw [List.nil_append] at h
  exact ⟨h.images, h.justified⟩

/-! ## `TX_EN` within a transaction -/

def quietFiles : Files Unit := ⟨fun _ _ _ => (), fun _ _ => 0⟩

/-- A blank card in the first slot. -/
def blankCard (i : Fin 2) : MemCard := ⟨i = 0, fun _ _ => 0⟩

def sendByte (b : Byte) : List Call :=
  [.write 0x1F801040 (b.setWidth 32), .advance (BitVec.ofInt 32 (baudCycles + ackCycles))]

/-- The write of a sector of `5A`, with `TX_EN` off for a while behind the address. -/
def interruptedWrite : List Call :=
  .write 0x1F80104A 3 :: ([0x81, 0x57, 0, 0, 0, 5].flatMap sendByte ++
    [.write 0x1F80104A 2, .write 0x1F80104A 3] ++
    ((List.replicate 128 0x5A).flatMap sendByte ++ sendByte 5))

def interruptedRun : Port Unit × List Outcome :=
  run quietFiles false (sioInit (.statics 2 blankCard ())) interruptedWrite

def CardEffect.isStored : CardEffect → Bool
  | .stored _ _ _ => true
  | _ => false

def endsInStore (es : List Event) : Bool :=
  match es.getLast? with
  | some (.shifted s) => s.effect.isStored
  | _ => false

theorem interruptedRun_stores : endsInStore (shown interruptedRun.2) = true ∧
    (sinceBreak (fun _ => true) (shown interruptedRun.2)).length = 129 ∧
    (interruptedRun.1.core.card.cards 0).sectors 5 17 = 0x5A := by
  decide +kernel

theorem stored_of_endsInStore {es : List Event} (h : endsInStore es = true) :
    ∃ pre s, es = pre ++ [.shifted s] ∧ s.effect.isStored = true := by
  unfold endsInStore at h
  split at h
  · next s hlast =>
    obtain ⟨pre, hpre⟩ := List.getLast?_eq_some_iff.1 hlast
    exact ⟨pre, s, hpre, h⟩
  · cases h

theorem interruptedRun_justified : ∃ pre s, shown interruptedRun.2 = pre ++ [.shifted s] ∧
    s.effect.isStored = true ∧
    Justified (imagesAfter blankCard pre) (sinceBreak endsTransaction (pre ++ [.shifted s]))
      s.effect := by
  obtain ⟨pre, s, hsplit, hs⟩ := stored_of_endsInStore interruptedRun_stores.1
  exact ⟨pre, s, hsplit, hs,
    (card_transactions quietFiles false (.statics 2 blankCard ()) interruptedWrite).2 pre s [] hsplit⟩

theorem WriteStream.length {txn : List Shift} {sector : ℕ} {data : Sector}
    (h : WriteStream txn sector data) : txn.length = 135 := by
  obtain ⟨x, y, msb, lsb, hsent, -⟩ := h
  have hlen := congrArg List.length hsent
  rw [sent, List.length_map] at hlen
  rw [hlen, List.length_append, List.length_append, List.length_ofFn]
  rfl

/-- The card does not see `TX_EN` fall: a sector is stored though only its data and the checksum
were shifted since. -/
theorem interrupted_write_stored :
    (interruptedRun.1.core.card.cards 0).sectors 5 ≠ (blankCard 0).sectors 5 ∧
    ¬ ∀ pre s post, shown interruptedRun.2 = pre ++ .shifted s :: post →
      Justified (imagesAfter blankCard pre) (sinceBreak (fun _ => true) (pre ++ [.shifted s]))
        s.effect := by
  obtain ⟨hstore, hlen, hbyte⟩ := interruptedRun_stores
  refine ⟨fun h => ?_, fun h => ?_⟩
  · rw [h] at hbyte
    exact absurd hbyte (by decide)
  · obtain ⟨pre, s, hsplit, hs⟩ := stored_of_endsInStore hstore
    have hj := h pre s [] hsplit
    rw [← hsplit] at hj
    cases heffect : s.effect with
    | stored card sector data =>
      rw [heffect] at hj
      obtain ⟨before, txn, hstream, -, hw⟩ := hj
      rw [hstream, List.length_append, hw.length] at hlen
      omega
    | quiet | completed | outside => simp [heffect, CardEffect.isStored] at hs

end PsxRecomp.Sio
