import PsxRecomp.Mods.DiscFiles

/-! Effective sectors when a patch is put on the fields of a directory record and an extent behind
the disc: they have the new fields and are as they were otherwise. -/
namespace PsxRecomp.Mods
open Cells MemoryEdit
set_option autoImplicit false

/-! ## What the plan leaves alone -/

/-- Neither a claim nor a guard on these bytes of the user data. -/
def DiscPlan.Leaves (plan : DiscPlan) (first len : ℕ) : Prop :=
  ∀ c ∈ plan.guardCells ++ plan.cells, c.1.1 = .discUser → c.1.2 < first ∨ first + len ≤ c.1.2

/-- No raw claim on the mode byte of a sector. -/
def DiscPlan.KeepsModes (plan : DiscPlan) : Prop :=
  ∀ c ∈ plan.cells, c.1.1 = .discRaw → c.1.2 % 2352 ≠ 15

theorem DiscPlan.Leaves.not_mem {plan : DiscPlan} {first len : ℕ} (h : plan.Leaves first len)
    {lba q : ℕ} (hin : first ≤ lba * 2048 + q ∧ lba * 2048 + q < first + len) (v : Byte) :
    (q, v) ∉ sectorCells .discUser lba plan.guardCells ∧
      (q, v) ∉ sectorCells .discUser lba plan.cells := by
  constructor
  · intro hmem
    have := h _ (List.mem_append_left _ (mem_sectorCells.1 hmem).2) rfl
    simp only [sectorSize] at this
    omega
  · intro hmem
    have := h _ (List.mem_append_right _ (mem_sectorCells.1 hmem).2) rfl
    simp only [sectorSize] at this
    omega

/-! ## The bytes under the user patches -/

/-- A sector before its user patches. -/
def Activation.base (s : Activation) (lba : ℕ) : Except Refusal Buffer :=
  match s.extents.find? fun e => e.covers lba with
  | some e => .ok (e.userData lba)
  | none =>
    match s.reader with
    | none => .error .noDisc
    | some reader =>
      match reader.readRawSector lba with
      | some raw =>
        if raw 15 ≠ 1 ∧ (raw 15 ≠ 2 ∨ raw 18 &&& 0x20 ≠ 0) then .error .malformed
        else
          let r := applyClaims s.disc.plan .discRaw lba raw
          if r.2 then .error .guardFailed else .ok (shift r.1 (if raw 15 = 1 then 16 else 24))
      | none =>
        match reader.readSector lba with
        | some sector => .ok sector
        | none => .error (.unreadable lba)

theorem shift_editAt (off : ℕ) (f : Edit Byte) (m : Buffer) :
    shift (editAt off f m) off = f (shift m off) := by
  funext n
  rw [shift, editAt_shift]

theorem applyClaims_mode {plan : DiscPlan} (h : plan.KeepsModes) (lba : BitVec 32) (raw : Buffer) :
    (applyClaims plan .discRaw lba.toNat raw).1 15 = raw 15 := by
  rw [applyClaims_spec plan (by decide)]
  split
  case isTrue =>
    refine paint_outside _ _ _ fun v hmem => ?_
    have hcell := (mem_sectorCells.1 hmem).2
    refine h _ hcell rfl ?_
    simp only [sectorSize]
    omega
  case isFalse => rfl

/-- A read is the sector under the patches, patched. -/
theorem readUserSector_eq {s : Activation} (hopen : s.disc.Open) (hmodes : s.disc.plan.KeepsModes)
    (lba : BitVec 32) :
    s.readUserSector lba.toNat = (s.base lba.toNat).bind (s.patchedUser lba.toNat) := by
  unfold Activation.readUserSector Activation.base
  cases s.extents.find? fun e => e.covers lba.toNat with
  | some e => rfl
  | none =>
    cases s.reader with
    | none => rfl
    | some reader =>
      dsimp only
      cases reader.readRawSector lba.toNat with
      | none =>
        cases reader.readSector lba.toNat with
        | none => rfl
        | some sector => rfl
      | some raw =>
        dsimp only
        by_cases hbad : raw 15 ≠ 1 ∧ (raw 15 ≠ 2 ∨ raw 18 &&& 0x20 ≠ 0)
        · rw [if_pos hbad, if_pos hbad]
          rfl
        · rw [if_neg hbad, if_neg hbad]
          have hmode := applyClaims_mode hmodes lba raw
          have hraw : patchRawSector s.disc lba.toNat raw =
              let r := applyClaims s.disc.plan .discRaw lba.toNat raw
              if mode2Form1 raw ∧ !r.2 then
                (editAt 24 (fun window => (patchUserSector s.disc lba.toNat window).1) r.1,
                  (patchUserSector s.disc lba.toNat (shift r.1 24)).2)
              else r := if_neg (by simp [hopen.1, hopen.2])
          rw [hraw]
          dsimp only
          generalize applyClaims s.disc.plan .discRaw lba.toNat raw = r at hmode
          obtain ⟨claimed, failed⟩ := r
          dsimp only at hmode ⊢
          cases failed with
          | true =>
            have hfailed : ¬(mode2Form1 raw = true ∧ (!true) = true) := fun h => by cases h.2
            rw [if_neg hfailed]
            rfl
          | false =>
            by_cases hone : raw 15 = 1
            · have hform : ¬(mode2Form1 raw = true ∧ (!false) = true) := by simp [mode2Form1, hone]
              rw [if_neg hform]
              dsimp only
              have hclaimed : claimed 15 = 1 := hmode.trans hone
              rw [if_pos hclaimed, if_pos hone]
              rfl
            · have htwo : raw 15 = 2 ∧ raw 18 &&& 0x20 = 0 := by
                by_contra h
                refine hbad ⟨hone, ?_⟩
                by_cases h2 : raw 15 = 2
                · exact Or.inr fun h18 => h ⟨h2, h18⟩
                · exact Or.inl h2
              have hform : mode2Form1 raw = true ∧ (!false) = true := ⟨decide_eq_true htwo, rfl⟩
              have hbelow : editAt 24 (fun window => (patchUserSector s.disc lba.toNat window).1)
                  claimed 15 ≠ 1 := by
                rw [editAt_below _ _ (by norm_num), hmode]
                exact hone
              rw [if_pos hform]
              dsimp only
              rw [if_neg hbelow, shift_editAt, if_neg hone]
              rfl

/-! ## Replacing a patch -/

def derivedCellsOf (derived : List DerivedPatch) (lba : ℕ) : List (ℕ × Byte) :=
  derived.flatMap fun d => rangeCells (lba * 2048) 2048 d.offset d.bytes

theorem derivedCellsOf_append (a b : List DerivedPatch) (lba : ℕ) :
    derivedCellsOf (a ++ b) lba = derivedCellsOf a lba ++ derivedCellsOf b lba := List.flatMap_append

theorem derivedCells_eq (S : DiscState) (lba : ℕ) : derivedCells S lba = derivedCellsOf S.derived lba :=
  rfl

theorem paint_pointwise {m m' : Buffer} {cells : List (ℕ × Byte)} {q : ℕ} (h : m q = m' q) :
    paint m cells q = paint m' cells q := by
  rw [paint_eq_lastOf, paint_eq_lastOf, h]

/-- Patches that share no byte with the fields leave them alone. -/
theorem paint_offFields {record lba q : ℕ} {ds : List DerivedPatch}
    (hoff : ∀ d ∈ ds, onFields record d = false)
    (hq : record + 2 ≤ lba * 2048 + q ∧ lba * 2048 + q < record + 18) (m : Buffer) :
    paint m (derivedCellsOf ds lba) q = m q := by
  refine paint_outside _ _ _ fun v hmem => ?_
  obtain ⟨d, hd, hcell⟩ := List.mem_flatMap.1 hmem
  obtain ⟨-, hlow, hget⟩ := mem_rangeCells.1 hcell
  obtain ⟨hhigh, -⟩ := List.getElem?_eq_some_iff.1 hget
  have hno := hoff d hd
  simp only [onFields, decide_eq_false_iff_not] at hno
  omega

/-- Patches on the fields only leave the other bytes alone. -/
theorem paint_fields {record lba q : ℕ} {ds : List DerivedPatch}
    (hon : ∀ d ∈ ds, d.offset = record + 2 ∧ d.bytes.length = 16)
    (hq : ¬(record + 2 ≤ lba * 2048 + q ∧ lba * 2048 + q < record + 18)) (m : Buffer) :
    paint m (derivedCellsOf ds lba) q = m q := by
  refine paint_outside _ _ _ fun v hmem => ?_
  obtain ⟨d, hd, hcell⟩ := List.mem_flatMap.1 hmem
  obtain ⟨-, hlow, hget⟩ := mem_rangeCells.1 hcell
  obtain ⟨hhigh, -⟩ := List.getElem?_eq_some_iff.1 hget
  obtain ⟨hoffset, hlength⟩ := hon d hd
  omega

theorem putPatch_split {record : ℕ} {derived : List DerivedPatch} (patch : DerivedPatch)
    (hfree : derived.any (fun p =>
      onFields record p && !(decide (p.offset = record + 2 ∧ p.bytes.length = 16))) = false) :
    ∃ before old after, derived = before ++ old ++ after ∧
      putPatch record patch derived = before ++ [patch] ++ after ∧
      (∀ d ∈ old, d.offset = record + 2 ∧ d.bytes.length = 16) ∧
      ∀ d ∈ after, onFields record d = false := by
  unfold putPatch
  cases hindex : derived.reverse.findIdx? (onFields record) with
  | none =>
    refine ⟨derived, [], [], by simp, by simp, by simp, by simp⟩
  | some i =>
    obtain ⟨hi, hon, hbefore⟩ := List.findIdx?_eq_some_iff_getElem.1 hindex
    have hsplit : derived.reverse = derived.reverse.take i ++
        derived.reverse.get ⟨i, hi⟩ :: derived.reverse.drop (i + 1) := by
      rw [List.get_eq_getElem, List.getElem_cons_drop, List.take_append_drop]
    refine ⟨(derived.reverse.drop (i + 1)).reverse, [derived.reverse.get ⟨i, hi⟩],
      (derived.reverse.take i).reverse, ?_, ?_, ?_, ?_⟩
    · have := congrArg List.reverse hsplit
      simpa using this
    · dsimp only
      rw [List.set_eq_take_append_cons_drop, if_pos hi]
      simp
    · intro d hd
      obtain rfl := List.mem_singleton.1 hd
      have hmem : derived.reverse.get ⟨i, hi⟩ ∈ derived := by
        rw [← List.mem_reverse]
        exact List.get_mem _ _
      have := List.any_eq_false.1 hfree _ hmem
      rw [List.get_eq_getElem, hon] at this
      simpa using this
    · intro d hd
      rw [List.mem_reverse, List.mem_take_iff_getElem] at hd
      obtain ⟨j, hj, rfl⟩ := hd
      have := hbefore j (by omega)
      simpa using this

/-- The derived patches of a sector with a patch put on the fields of a record. -/
theorem paint_putPatch {record : ℕ} {derived : List DerivedPatch} {bytes : List Byte}
    (hlength : bytes.length = 16) (hfree : derived.any (fun p =>
      onFields record p && !(decide (p.offset = record + 2 ∧ p.bytes.length = 16))) = false)
    (lba : ℕ) (sector : Buffer) :
    SameSector
      (paint sector (derivedCellsOf (putPatch record ⟨record + 2, bytes⟩ derived) lba))
      (overwritten record (fun i => bytes.getD i 0) lba
        (paint sector (derivedCellsOf derived lba))) := by
  obtain ⟨before, old, after, hderived, hput, hold, hafter⟩ :=
    putPatch_split ⟨record + 2, bytes⟩ hfree
  intro q hq
  rw [hput, derivedCellsOf_append, derivedCellsOf_append, paint_append, paint_append, hderived,
    overwritten]
  by_cases hin : record + 2 ≤ lba * 2048 + q ∧ lba * 2048 + q < record + 18
  · rw [if_pos hin, paint_offFields hafter hin]
    have hget : bytes[lba * 2048 + q - (record + 2)]? =
        some (bytes.getD (lba * 2048 + q - (record + 2)) 0) := by
      rw [List.getD_eq_getElem?_getD, List.getElem?_eq_getElem (by omega), Option.getD_some]
    rcases paint_mem (paint sector (derivedCellsOf before lba))
      (derivedCellsOf [⟨record + 2, bytes⟩] lba) q with ⟨v, hmem, hv⟩ | hout
    · rw [hv]
      obtain ⟨d, hd, hcell⟩ := List.mem_flatMap.1 hmem
      obtain rfl := List.mem_singleton.1 hd
      obtain ⟨-, -, hv'⟩ := mem_rangeCells.1 hcell
      rw [hget] at hv'
      exact (Option.some.inj hv').symm
    · exact absurd (List.mem_flatMap.2 ⟨_, List.mem_singleton.2 rfl,
        mem_rangeCells.2 ⟨hq, hin.1, hget⟩⟩) (hout _)
  · rw [if_neg hin, derivedCellsOf_append, derivedCellsOf_append, paint_append, paint_append]
    refine paint_pointwise ?_
    rw [paint_fields hold hin]
    refine paint_fields (fun d hd => ?_) hin _
    obtain rfl := List.mem_singleton.1 hd
    exact ⟨rfl, hlength⟩

/-! ## Patched sectors -/

theorem patchedUser_eq {s : Activation} (hopen : s.disc.Open) (lba : BitVec 32) (sector : Buffer) :
    s.patchedUser lba.toNat sector =
      if Holds (sectorCells .discUser lba.toNat s.disc.plan.guardCells)
          (paint sector (derivedCellsOf s.disc.derived lba.toNat)) then
        .ok (paint (paint sector (derivedCellsOf s.disc.derived lba.toNat))
          (sectorCells .discUser lba.toNat s.disc.plan.cells))
      else .error .guardFailed := by
  unfold Activation.patchedUser
  rw [patchUserSector_spec s.disc lba hopen, ← derivedCells_eq]
  split
  case isTrue h => rfl
  case isFalse h => rfl

/-- The states of a disc differ in one patch on the fields of a record. -/
structure Repatched (record : ℕ) (bytes : List Byte) (S S' : DiscState) : Prop where
  plan : S'.plan = S.plan
  derived : S'.derived = putPatch record ⟨record + 2, bytes⟩ S.derived
  length : bytes.length = 16
  free : S.derived.any (fun p =>
    onFields record p && !(decide (p.offset = record + 2 ∧ p.bytes.length = 16))) = false
  leaves : S.plan.Leaves (record + 2) 16

/-- A sector patched anew has the new fields and is as it was otherwise. -/
theorem patchedUser_repatched {record : ℕ} {bytes : List Byte} {s s' : Activation}
    (h : Repatched record bytes s.disc s'.disc) (hopen : s.disc.Open) (hopen' : s'.disc.Open)
    (lba : BitVec 32) (sector : Buffer) :
    (∀ r, s.patchedUser lba.toNat sector = .ok r → ∃ r', s'.patchedUser lba.toNat sector = .ok r' ∧
        SameSector r' (overwritten record (fun i => bytes.getD i 0) lba.toNat r)) ∧
      ∀ e, s.patchedUser lba.toNat sector = .error e → s'.patchedUser lba.toNat sector = .error e := by
  rw [patchedUser_eq hopen, patchedUser_eq hopen', h.plan, h.derived]
  have hpaint := paint_putPatch h.length h.free lba.toNat sector
  generalize paint sector (derivedCellsOf s.disc.derived lba.toNat) = m at hpaint ⊢
  generalize paint sector (derivedCellsOf (putPatch record ⟨record + 2, bytes⟩ s.disc.derived)
    lba.toNat) = m' at hpaint ⊢
  have hguards : Holds (sectorCells .discUser lba.toNat s.disc.plan.guardCells) m' ↔
      Holds (sectorCells .discUser lba.toNat s.disc.plan.guardCells) m := by
    refine forall₂_congr fun c hc => ?_
    have hq := (mem_sectorCells.1 hc).1
    rw [hpaint c.1 hq, overwritten, if_neg]
    exact fun hin => (h.leaves.not_mem (by omega) c.2).1 hc
  by_cases hholds : Holds (sectorCells .discUser lba.toNat s.disc.plan.guardCells) m
  · rw [if_pos hholds, if_pos (hguards.2 hholds)]
    refine ⟨fun r hr => ⟨_, rfl, ?_⟩, fun e he => absurd he (by simp)⟩
    obtain rfl := Except.ok.inj hr
    intro q hq
    rw [overwritten]
    by_cases hin : record + 2 ≤ lba.toNat * 2048 + q ∧ lba.toNat * 2048 + q < record + 18
    · rw [if_pos hin, paint_outside _ _ _ fun v => (h.leaves.not_mem (by omega) v).2, hpaint q hq,
        overwritten, if_pos hin]
    · rw [if_neg hin]
      refine paint_pointwise ?_
      rw [hpaint q hq, overwritten, if_neg hin]
  · rw [if_neg hholds, if_neg fun h' => hholds (hguards.1 h')]
    exact ⟨fun r hr => absurd hr (by simp), fun e he => he⟩

/-! ## Extents -/

/-- The extents lie one behind the other from `first` on. -/
def Contiguous : ℕ → List DiscExtent → Prop
  | _, [] => True
  | first, e :: extents => e.lba = first ∧ 0 < e.count ∧ Contiguous (first + e.count) extents

def endOf (first : ℕ) (extents : List DiscExtent) : ℕ := first + (extents.map DiscExtent.count).sum

theorem endOf_append (first : ℕ) (a b : List DiscExtent) :
    endOf first (a ++ b) = endOf (endOf first a) b := by
  simp [endOf, Nat.add_assoc]

theorem contiguous_append {first : ℕ} {a b : List DiscExtent} :
    Contiguous first (a ++ b) ↔ Contiguous first a ∧ Contiguous (endOf first a) b := by
  induction a generalizing first with
  | nil => simp [Contiguous, endOf]
  | cons e a ih =>
    have hend : endOf first (e :: a) = endOf (first + e.count) a := by
      simp [endOf, Nat.add_assoc]
    rw [List.cons_append, Contiguous, Contiguous, ih, hend]
    tauto

theorem nextLba_eq {s : Activation} {first : ℕ} (h : Contiguous first s.extents) :
    s.nextLba first = endOf first s.extents := by
  unfold Activation.nextLba
  cases hlast : s.extents.getLast? with
  | none =>
    rw [List.getLast?_eq_none_iff.1 hlast]
    rfl
  | some e =>
    obtain ⟨a, ha⟩ := List.getLast?_eq_some_iff.1 hlast
    rw [ha] at h ⊢
    rw [endOf_append]
    have hlba := (contiguous_append.1 h).2.1
    simp [endOf, hlba]

/-- Extents lie between the end of the disc and their own end. -/
theorem contiguous_mem {first : ℕ} {extents : List DiscExtent} (h : Contiguous first extents)
    {e : DiscExtent} (he : e ∈ extents) : first ≤ e.lba ∧ e.lba + e.count ≤ endOf first extents := by
  obtain ⟨a, b, rfl⟩ := List.append_of_mem he
  obtain ⟨-, hlba, -, -⟩ := contiguous_append.1 h
  rw [endOf_append, hlba]
  unfold endOf
  simp only [List.map_cons, List.sum_cons]
  omega

theorem contiguous_pairwise {first : ℕ} {extents : List DiscExtent} (h : Contiguous first extents) :
    extents.Pairwise fun a b => a.lba + a.count ≤ b.lba := by
  induction extents generalizing first with
  | nil => exact List.Pairwise.nil
  | cons e extents ih =>
    obtain ⟨hlba, -, hrest⟩ := h
    refine List.Pairwise.cons (fun e' he' => ?_) (ih hrest)
    have := (contiguous_mem hrest he').1
    omega

/-- An added extent does not cover what was covered. -/
theorem find_append {extents : List DiscExtent} {e : DiscExtent} {lba : ℕ} :
    (extents ++ [e]).find? (fun e => e.covers lba) =
      (extents.find? fun e => e.covers lba).or (if e.covers lba then some e else none) := by
  rw [List.find?_append]
  simp [List.find?_cons]
  cases e.covers lba <;> simp

/-! ## States of an activation -/

structure Activation.Mounted (s : Activation) (reader : ISOReader) : Prop where
  mounted : s.reader = some reader
  initialized : s.disc.initialized = true
  contiguous : Contiguous reader.sectorCount s.extents
  start : s.extents ≠ [] → s.extentStart = reader.sectorCount
  derived : ∀ d ∈ s.disc.derived,
    d.offset + d.bytes.length ≤ endOf reader.sectorCount s.extents * 2048

theorem Activation.Mounted.start_eq {s : Activation} {reader : ISOReader} (h : s.Mounted reader) :
    s.startLba reader.sectorCount = reader.sectorCount := by
  unfold Activation.startLba
  by_cases hnone : s.extents = []
  · rw [if_pos hnone]
  · rw [if_neg hnone, h.start hnone]

theorem Activation.Mounted.find_eq {s : Activation} {reader : ISOReader} (h : s.Mounted reader)
    (path : List Byte) : s.find path = findEffectiveFile s.readUserSector path := by
  rw [Activation.find, h.mounted]

/-- Below the end of the disc and its extents there are sectors, above there are none. -/
theorem base_beyond {s : Activation} {reader : ISOReader} (h : s.Mounted reader) {lba : ℕ}
    (hlba : endOf reader.sectorCount s.extents ≤ lba) : s.base lba = .error (.unreadable lba) := by
  have hcount : reader.sectorCount ≤ lba := le_trans (Nat.le_add_right _ _) hlba
  have hnone : (s.extents.find? fun e => e.covers lba) = none := by
    rw [List.find?_eq_none]
    intro e he
    have := (contiguous_mem h.contiguous he).2
    simp only [DiscExtent.covers, decide_eq_true_eq]
    omega
  have hraw : reader.readRawSector lba = none := by
    cases hread : reader.readRawSector lba with
    | none => rfl
    | some sector => exact absurd (reader.raw_inside lba sector hread) (by omega)
  have huser : reader.readSector lba = none := by
    cases hread : reader.readSector lba with
    | none => rfl
    | some sector => exact absurd (reader.user_inside lba sector hread) (by omega)
  rw [Activation.base, hnone, h.mounted]
  dsimp only
  rw [hraw, huser]

/-- The sectors under the patches when an extent is added behind the last one. -/
theorem base_extended {s s' : Activation} {reader : ISOReader} (h : s.Mounted reader)
    (hreader : s'.reader = s.reader) (hplan : s'.disc.plan = s.disc.plan) {e : DiscExtent}
    (hextents : s'.extents = s.extents ++ [e]) (hlba : e.lba = endOf reader.sectorCount s.extents)
    (lba : ℕ) : s'.base lba = s.base lba ∨
      s.base lba = .error (.unreadable lba) ∧ endOf reader.sectorCount s.extents ≤ lba := by
  by_cases hbelow : lba < endOf reader.sectorCount s.extents
  · left
    have hcovers : e.covers lba = false := by
      rw [DiscExtent.covers, decide_eq_false_iff_not]
      omega
    rw [Activation.base, Activation.base, hreader, hplan, hextents, find_append, hcovers]
    simp
  · exact Or.inr ⟨base_beyond h (Nat.le_of_not_lt hbelow), Nat.le_of_not_lt hbelow⟩

/-- An added extent that nothing else changes. -/
theorem read_extended {s s' : Activation} {reader : ISOReader} (h : s.Mounted reader)
    (hopen : s.disc.Open) (hmodes : s.disc.plan.KeepsModes) (hreader : s'.reader = s.reader)
    (hdisc : s'.disc = s.disc) {e : DiscExtent} (hextents : s'.extents = s.extents ++ [e])
    (hlba : e.lba = endOf reader.sectorCount s.extents) :
    Follows id (endOf reader.sectorCount s.extents) s.readUserSector s'.readUserSector := by
  have hread : ∀ lba < 2 ^ 32, s'.readUserSector lba = s.readUserSector lba ∨
      s.readUserSector lba = .error (.unreadable lba) ∧
        endOf reader.sectorCount s.extents ≤ lba := by
    intro lba h32
    have heq := readUserSector_eq hopen hmodes (BitVec.ofNat 32 lba)
    have heq' := readUserSector_eq (s := s') (by rwa [hdisc]) (by rwa [hdisc]) (BitVec.ofNat 32 lba)
    rw [BitVec.toNat_ofNat, Nat.mod_eq_of_lt h32] at heq heq'
    have hpatched : s'.patchedUser lba = s.patchedUser lba := by
      funext sector
      rw [Activation.patchedUser, Activation.patchedUser, hdisc]
    rw [heq, heq', hpatched]
    rcases base_extended h hreader (by rw [hdisc]) hextents hlba lba with hbase | ⟨hbase, hend⟩
    · exact Or.inl (by rw [hbase])
    · exact Or.inr ⟨by rw [hbase]; rfl, hend⟩
  refine follows_extended (fun lba h32 sector hok => ?_) fun lba h32 e he => ?_
  · rcases hread lba h32 with hsame | ⟨herror, -⟩
    · rw [hsame, hok]
    · rw [hok] at herror
      cases herror
  · rcases hread lba h32 with hsame | ⟨herror, hend⟩
    · exact Or.inl (by rw [hsame, he])
    · rw [herror] at he
      exact Or.inr ⟨(Except.error.inj he).symm, hend⟩

/-- An added extent and a patch on the fields of a file's record. -/
theorem read_replaced {s s' : Activation} {reader : ISOReader} (h : s.Mounted reader)
    (hopen : s.disc.Open) (hopen' : s'.disc.Open) (hmodes : s.disc.plan.KeepsModes)
    (hreader : s'.reader = s.reader) {record : ℕ} {bytes : List Byte}
    (hrepatched : Repatched record bytes s.disc s'.disc) {e : DiscExtent}
    (hextents : s'.extents = s.extents ++ [e]) (hlba : e.lba = endOf reader.sectorCount s.extents)
    {file : Buffer} (hfile : RecordFile s.readUserSector record file)
    (hflag : (entryAt (record / 2048) file (record % 2048)).directory = false) :
    Follows (relocate record fun i => bytes.getD i 0) (endOf reader.sectorCount s.extents)
      s.readUserSector s'.readUserSector := by
  have hreads : ∀ lba < 2 ^ 32, s.readUserSector lba = (s.base lba).bind (s.patchedUser lba) ∧
      s'.readUserSector lba = (s'.base lba).bind (s'.patchedUser lba) := by
    intro lba h32
    have heq := readUserSector_eq hopen hmodes (BitVec.ofNat 32 lba)
    have heq' := readUserSector_eq hopen' (by rwa [hrepatched.plan]) (BitVec.ofNat 32 lba)
    rw [BitVec.toNat_ofNat, Nat.mod_eq_of_lt h32] at heq heq'
    exact ⟨heq, heq'⟩
  have hpatched : ∀ lba < 2 ^ 32, ∀ sector,
      (∀ r, s.patchedUser lba sector = .ok r → ∃ r', s'.patchedUser lba sector = .ok r' ∧
          SameSector r' (overwritten record (fun i => bytes.getD i 0) lba r)) ∧
        ∀ e, s.patchedUser lba sector = .error e → s'.patchedUser lba sector = .error e := by
    intro lba h32 sector
    have := patchedUser_repatched hrepatched hopen hopen' (BitVec.ofNat 32 lba) sector
    rwa [BitVec.toNat_ofNat, Nat.mod_eq_of_lt h32] at this
  refine follows_overwritten hfile hflag (fun lba h32 sector hok => ?_) fun lba h32 e he => ?_
  · rw [(hreads lba h32).1] at hok
    rw [(hreads lba h32).2]
    rcases base_extended h hreader hrepatched.plan hextents hlba lba with hbase | ⟨hbase, -⟩
    · rw [hbase]
      cases hb : s.base lba with
      | error e =>
        rw [hb] at hok
        cases hok
      | ok m =>
        rw [hb] at hok
        exact (hpatched lba h32 m).1 sector hok
    · rw [hbase] at hok
      cases hok
  · rw [(hreads lba h32).1] at he
    rw [(hreads lba h32).2]
    rcases base_extended h hreader hrepatched.plan hextents hlba lba with hbase | ⟨hbase, hend⟩
    · rw [hbase]
      cases hb : s.base lba with
      | error e' =>
        rw [hb] at he
        exact Or.inl he
      | ok m =>
        rw [hb] at he
        exact Or.inl ((hpatched lba h32 m).2 e he)
    · rw [hbase] at he
      exact Or.inr ⟨(Except.error.inj he).symm, hend⟩

end PsxRecomp.Mods
