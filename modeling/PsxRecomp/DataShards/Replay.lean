import PsxRecomp.DataShards.Shard

/-! What a replay leaves: the ranges of a shard, the marks of the recorder, and the run they stand
for. -/
namespace PsxRecomp.DataShards
open Recording (Use Marks Covered)
set_option autoImplicit false

/-! ## Cells -/

theorem phys_toNat (addr : Word) : (addr &&& 0x1FFFFFFF).toNat = addr.toNat % 2 ^ 29 := by
  rw [BitVec.toNat_and]
  exact Nat.and_two_pow_sub_one_eq_mod addr.toNat 29

theorem Geometry.mask_toNat (g : Geometry) :
    g.mask.toNat = 2 ^ 21 - 1 ∨ g.mask.toNat = 2 ^ 23 - 1 := by
  rcases g.live with h | h
  · exact Or.inl (by rw [h]; rfl)
  · exact Or.inr (by rw [h]; rfl)

theorem and_mask (g : Geometry) (v : Word) : (v &&& g.mask).toNat = v.toNat % (g.mask.toNat + 1) := by
  rw [BitVec.toNat_and]
  rcases g.mask_toNat with h | h
  · rw [h]
    exact Nat.and_two_pow_sub_one_eq_mod v.toNat 21
  · rw [h]
    exact Nat.and_two_pow_sub_one_eq_mod v.toNat 23

/-- An index that an access can name. -/
def Valid (g : Geometry) (i : ℕ) : Prop := i ≤ g.mask.toNat ∨ ramBytes ≤ i ∧ i < space

theorem Valid.lt {g : Geometry} {i : ℕ} (h : Valid g i) : i < space := by
  unfold Valid space spBytes ramBytes at *
  rcases g.mask_toNat with hm | hm <;> omega

theorem cellOf_ram (g : Geometry) {addr : Word} (h : addr &&& 0x1FFFFFFF < 0x800000) :
    cellOf g addr = addr.toNat % 2 ^ 29 % (g.mask.toNat + 1) := by
  rw [cellOf, if_pos h, and_mask, phys_toNat]

theorem not_window {v : Word} (h : 0x1F800000 ≤ v) : ¬v < 0x800000 := fun hl => by
  have hlo : 0x1F800000 ≤ v.toNat := BitVec.le_def.1 h
  have hhi : v.toNat < 0x800000 := BitVec.lt_def.1 hl
  omega

theorem cellOf_scratch (g : Geometry) {addr : Word} (h : 0x1F800000 ≤ addr &&& 0x1FFFFFFF) :
    cellOf g addr = ramBytes + (addr.toNat % 2 ^ 29 - 0x1F800000) := by
  rw [cellOf, if_neg (not_window h), phys_toNat]

/-- The recorder finds a mapped address where the handlers do. -/
theorem indexOf_mapped (g : Geometry) {addr : Word} (h : Mapped addr) :
    indexOf g addr = .cell (cellOf g addr) := by
  obtain ⟨-, h | ⟨hlo, hhi⟩⟩ := h
  · have hwindow : (addr &&& 0x1FFFFFFF) &&& 0x7FFFFF = addr &&& 0x1FFFFFFF := by
      refine BitVec.eq_of_toNat_eq ?_
      rw [BitVec.toNat_and]
      refine (Nat.and_two_pow_sub_one_eq_mod (addr &&& 0x1FFFFFFF).toNat 23).trans ?_
      exact Nat.mod_eq_of_lt (BitVec.lt_def.1 h)
    simp only [indexOf, cellOf, if_pos h, hwindow]
  · simp only [indexOf, cellOf, if_neg (not_window hlo), if_pos (And.intro hlo hhi)]

theorem Width.bytes_cases (w : Width) : w.bytes = 1 ∨ w.bytes = 2 ∨ w.bytes = 4 := by
  cases w <;> decide

theorem mem_cells {g : Geometry} {a : Access} {i : ℕ} :
    i ∈ a.cells g ↔ cellOf g a.addr ≤ i ∧ i < cellOf g a.addr + a.width.bytes := by
  simp only [Access.cells, List.mem_map, List.mem_range]
  constructor
  · rintro ⟨j, hj, rfl⟩
    omega
  · intro h
    exact ⟨i - cellOf g a.addr, by omega, by omega⟩

theorem cells_valid {g : Geometry} {a : Access} {i : ℕ} (h : i ∈ a.cells g) : Valid g i := by
  obtain ⟨hlo, hhi⟩ := mem_cells.1 h
  have ha := a.aligned
  have hw := a.width.bytes_cases
  obtain ⟨-, hr | ⟨hs, hs'⟩⟩ := a.mapped
  · left
    rw [cellOf_ram g hr] at hlo hhi
    rcases g.mask_toNat with hm | hm <;> rw [hm] at hlo hhi ⊢ <;>
      rcases hw with hw | hw | hw <;> rw [hw] at ha hhi <;> omega
  · right
    rw [cellOf_scratch g hs] at hlo hhi
    rw [BitVec.le_def, phys_toNat] at hs
    rw [BitVec.lt_def, phys_toNat] at hs'
    have hs : 0x1F800000 ≤ a.addr.toNat % 2 ^ 29 := hs
    have hs' : a.addr.toNat % 2 ^ 29 < 0x1F800400 := hs'
    unfold space spBytes ramBytes at *
    rcases hw with hw | hw | hw <;> rw [hw] at ha hhi <;> omega

/-! ## Ranges -/

/-- Bytes from an index on. -/
def cellsFrom : ℕ → List Byte → List (ℕ × Byte)
  | _, [] => []
  | i, b :: bs => (i, b) :: cellsFrom (i + 1) bs

def Range.cells (r : Range) : List (ℕ × Byte) := cellsFrom r.idx r.bytes

theorem cellsFrom_append (i : ℕ) (bs cs : List Byte) :
    cellsFrom i (bs ++ cs) = cellsFrom i bs ++ cellsFrom (i + bs.length) cs := by
  induction bs generalizing i with
  | nil => rfl
  | cons b bs ih =>
    rw [List.cons_append, cellsFrom, ih, cellsFrom, List.cons_append, List.length_cons,
      Nat.add_right_comm, Nat.add_assoc]

/-- Every index of a range has a cell. -/
theorem exists_cell {i : ℕ} {bs : List Byte} {k : ℕ} (hlo : i ≤ k) (hhi : k < i + bs.length) :
    ∃ v, (k, v) ∈ cellsFrom i bs := by
  induction bs generalizing i with
  | nil =>
    simp only [List.length_nil] at hhi
    omega
  | cons b bs ih =>
    rw [List.length_cons] at hhi
    by_cases hk : k = i
    · exact ⟨b, hk ▸ List.mem_cons_self⟩
    · obtain ⟨v, hv⟩ := ih (by omega : i + 1 ≤ k) (by omega)
      exact ⟨v, List.mem_cons_of_mem _ hv⟩

/-- The scan finds the flagged indices and their bytes; `opened` ends where it goes on. -/
theorem mem_scan (flag : ℕ → Bool) (byte : Cells) (n i : ℕ) (opened : Option Range)
    (ho : ∀ r ∈ opened, r.idx + r.bytes.length = i) (c : ℕ × Byte) :
    (∃ r ∈ scan flag byte n i opened, c ∈ r.cells) ↔
      (∃ r ∈ opened, c ∈ r.cells) ∨
        (i ≤ c.1 ∧ c.1 < i + n) ∧ flag c.1 = true ∧ c.2 = byte c.1 := by
  induction n generalizing i opened with
  | zero =>
    simp only [scan, Option.mem_toList]
    constructor
    · exact Or.inl
    · rintro (h | h)
      · exact h
      · omega
  | succ n ih =>
    have hsplit : (i ≤ c.1 ∧ c.1 < i + (n + 1)) ∧ flag c.1 = true ∧ c.2 = byte c.1 ↔
        (c.1 = i ∧ flag c.1 = true ∧ c.2 = byte c.1) ∨
          (i + 1 ≤ c.1 ∧ c.1 < i + 1 + n) ∧ flag c.1 = true ∧ c.2 = byte c.1 := by
      constructor
      · rintro ⟨hr, h⟩
        by_cases hk : c.1 = i
        · exact Or.inl ⟨hk, h⟩
        · exact Or.inr ⟨by omega, h⟩
      · rintro (⟨hk, h⟩ | ⟨hr, h⟩)
        · exact ⟨by omega, h⟩
        · exact ⟨by omega, h⟩
    rw [hsplit]
    by_cases hf : flag i = true
    · have hcell : c.1 = i ∧ flag c.1 = true ∧ c.2 = byte c.1 ↔ c = (i, byte i) := by
        constructor
        · rintro ⟨hk, -, hv⟩
          exact Prod.ext hk (hv.trans (by rw [hk]))
        · rintro rfl
          exact ⟨rfl, hf, rfl⟩
      rw [hcell]
      cases opened with
      | none =>
        simp only [scan, hf, if_true]
        rw [ih (i + 1) _ (by simp)]
        simp [Range.cells, cellsFrom]
      | some r =>
        have hend : r.idx + r.bytes.length = i := ho r rfl
        simp only [scan, hf, if_true]
        rw [ih (i + 1) _ (by simp; omega)]
        simp only [Option.mem_def, Option.some.injEq, exists_eq_left', Range.cells, cellsFrom_append,
          List.mem_append, hend, cellsFrom, List.mem_singleton]
        exact or_assoc
    · have hcell : ¬(c.1 = i ∧ flag c.1 = true ∧ c.2 = byte c.1) := fun ⟨hk, h, _⟩ => hf (hk ▸ h)
      rw [or_iff_right hcell]
      simp only [scan, hf, if_false, Bool.false_eq_true, List.mem_append, Option.mem_toList]
      have := ih (i + 1) none (by simp)
      constructor
      · rintro ⟨r, hr | hr, hc⟩
        · exact Or.inl ⟨r, hr, hc⟩
        · exact Or.inr ((this.1 ⟨r, hr, hc⟩).resolve_left (by simp))
      · rintro (⟨r, hr, hc⟩ | h)
        · exact ⟨r, Or.inl hr, hc⟩
        · obtain ⟨r, hr, hc⟩ := this.2 (Or.inr h)
          exact ⟨r, Or.inr hr, hc⟩

theorem mem_buildRanges (flag : ℕ → Bool) (byte : Cells) (c : ℕ × Byte) :
    (∃ r ∈ buildRanges flag byte, c ∈ r.cells) ↔
      c.1 < space ∧ flag c.1 = true ∧ c.2 = byte c.1 := by
  rw [buildRanges, mem_scan flag byte space 0 none (by simp) c]
  simp

/-- A recorded range does not run from the last byte of RAM into the scratchpad. -/
def Unbroken (flag : ℕ → Bool) : Prop := ¬(flag (ramBytes - 1) = true ∧ flag ramBytes = true)

theorem Unbroken.range {flag : ℕ → Bool} {byte : Cells} (h : Unbroken flag) {r : Range}
    (hr : r ∈ buildRanges flag byte) (hidx : r.idx < ramBytes) :
    r.idx + r.bytes.length ≤ ramBytes := by
  by_contra hlong
  have hflag : ∀ k, r.idx ≤ k → k < r.idx + r.bytes.length → flag k = true := by
    intro k hlo hhi
    obtain ⟨v, hv⟩ := exists_cell hlo hhi
    exact ((mem_buildRanges flag byte (k, v)).1 ⟨r, hr, hv⟩).2.1
  exact h ⟨hflag _ (by omega) (by omega), hflag _ (by omega) (by omega)⟩

/-! ## Replay -/

/-- The address a replay uses for an index. -/
def addrOf (i : ℕ) : Word :=
  if i < ramBytes then 0x80000000 + BitVec.ofNat 32 i
  else 0x1F800000 + BitVec.ofNat 32 (i - ramBytes)

theorem addrOf_toNat {i : ℕ} (h : i < space) : (addrOf i).toNat =
    if i < ramBytes then 0x80000000 + i else 0x1F800000 + (i - ramBytes) := by
  unfold addrOf
  unfold space spBytes ramBytes at *
  split
  · rw [BitVec.toNat_add, BitVec.toNat_ofNat, show (0x80000000 : Word).toNat = 0x80000000 from rfl]
    omega
  · rw [BitVec.toNat_add, BitVec.toNat_ofNat, show (0x1F800000 : Word).toNat = 0x1F800000 from rfl]
    omega

theorem addrOf_succ {i : ℕ} (h : i + 1 < space) (hne : i + 1 ≠ ramBytes) :
    addrOf i + 1 = addrOf (i + 1) := by
  refine BitVec.eq_of_toNat_eq ?_
  rw [BitVec.toNat_add, addrOf_toNat (by omega), addrOf_toNat h]
  unfold space spBytes ramBytes at *
  show (_ + 1) % 2 ^ 32 = _
  split <;> split <;> omega

theorem writeByte_addrOf {g : Geometry} {i : ℕ} (h : Valid g i) (b : Byte) (m : Cells) :
    writeByte g (addrOf i) b m = some (Function.update m i b) := by
  have hnat := addrOf_toNat h.lt
  have hmask := g.mask_toNat
  have hphys := phys_toNat (addrOf i)
  by_cases hi : i < ramBytes
  · rw [if_pos hi] at hnat
    have hram : addrOf i &&& 0x1FFFFFFF < 0x800000 := by
      rw [BitVec.lt_def, hphys, hnat]
      unfold ramBytes at hi
      simp
      omega
    have hmapped : Mapped (addrOf i) := by
      refine ⟨?_, Or.inl hram⟩
      rw [BitVec.lt_def, hnat]
      unfold ramBytes at hi
      simp
      omega
    have hcell : cellOf g (addrOf i) = i := by
      rw [cellOf_ram g hram, hnat]
      unfold Valid at h
      unfold ramBytes at *
      rcases hmask with hm | hm <;> rw [hm] at h ⊢ <;> omega
    rw [writeByte, if_pos hmapped, hcell]
  · rw [if_neg hi] at hnat
    have hlt := h.lt
    unfold space spBytes ramBytes at *
    have hlo : 0x1F800000 ≤ addrOf i &&& 0x1FFFFFFF := by
      rw [BitVec.le_def, hphys, hnat]
      simp
      omega
    have hhi : addrOf i &&& 0x1FFFFFFF < 0x1F800400 := by
      rw [BitVec.lt_def, hphys, hnat]
      simp
      omega
    have hmapped : Mapped (addrOf i) := by
      refine ⟨?_, Or.inr ⟨hlo, hhi⟩⟩
      rw [BitVec.lt_def, hnat]
      simp
      omega
    have hcell : cellOf g (addrOf i) = i := by
      rw [cellOf_scratch g hlo, hnat]
      unfold ramBytes
      omega
    rw [writeByte, if_pos hmapped, hcell]

theorem writeBytes_addrOf {g : Geometry} {i : ℕ} (bs : List Byte) (m : Cells)
    (hvalid : ∀ k, i ≤ k → k < i + bs.length → Valid g k)
    (hend : i < ramBytes → i + bs.length ≤ ramBytes) :
    writeBytes g (addrOf i) bs m = some (Cells.paint m (cellsFrom i bs)) := by
  induction bs generalizing i m with
  | nil => rfl
  | cons b bs ih =>
    rw [List.length_cons] at hvalid hend
    rw [writeBytes, writeByte_addrOf (hvalid i le_rfl (by omega))]
    cases bs with
    | nil => rfl
    | cons c bs =>
      rw [List.length_cons] at hvalid hend ih
      have hlt := (hvalid (i + 1) (by omega) (by omega)).lt
      show writeBytes g (addrOf i + 1) (c :: bs) (Function.update m i b) = _
      rw [addrOf_succ hlt (by omega), ih (Function.update m i b)
        (fun k hlo hhi => hvalid k (by omega) (by omega)) (by omega)]
      rfl

theorem writeRanges_eq {g : Geometry} {rs : List Range} (m : Cells)
    (hvalid : ∀ r ∈ rs, ∀ k, r.idx ≤ k → k < r.idx + r.bytes.length → Valid g k)
    (hend : ∀ r ∈ rs, r.idx < ramBytes → r.idx + r.bytes.length ≤ ramBytes) :
    writeRanges g rs m = some (Cells.paint m (rs.flatMap Range.cells)) := by
  induction rs generalizing m with
  | nil => rfl
  | cons r rs ih =>
    obtain ⟨hv, hvs⟩ := List.forall_mem_cons.1 hvalid
    obtain ⟨he, hes⟩ := List.forall_mem_cons.1 hend
    have hr : writeBytes g r.base r.bytes m = some (Cells.paint m r.cells) :=
      writeBytes_addrOf r.bytes m hv he
    rw [writeRanges, hr, List.flatMap_cons, Cells.paint_append]
    exact ih _ hvs hes

theorem map_range_eq {m : Cells} {i : ℕ} {bs : List Byte}
    (h : (List.range bs.length).map (fun j => m (i + j)) = bs) {c : ℕ × Byte}
    (hc : c ∈ cellsFrom i bs) : m c.1 = c.2 := by
  induction bs generalizing i with
  | nil => exact absurd hc List.not_mem_nil
  | cons b bs ih =>
    rw [List.length_cons, List.range_succ_eq_map, List.map_cons, List.map_map, List.cons.injEq] at h
    rcases List.mem_cons.1 hc with rfl | hc
    · exact h.1
    · refine ih ?_ hc
      refine Eq.trans (List.map_congr_left fun j _ => ?_) h.2
      simp only [Function.comp, Nat.succ_eq_add_one]
      congr 1
      omega

/-- A comparison that holds holds of every byte. -/
theorem verify_true {m : Cells} {rs : List Range} (h : verify m rs = some true) {r : Range}
    (hr : r ∈ rs) {c : ℕ × Byte} (hc : c ∈ r.cells) : m c.1 = c.2 := by
  induction rs with
  | nil => exact absurd hr List.not_mem_nil
  | cons q rs ih =>
    unfold verify at h
    cases hq : q.verify m with
    | none => rw [hq] at h; cases h
    | some same =>
      rw [hq] at h
      cases same with
      | false => cases h
      | true =>
        rcases List.mem_cons.1 hr with rfl | hr
        · unfold Range.verify at hq
          split at hq
          · cases hq
          · exact map_range_eq (of_decide_eq_true (Option.some.inj hq)) hc
        · exact ih h hr

theorem enter_replay {key : Word} {t : Regs} {m : Cells} {shards : List Shard} {s : Shard}
    (h : enter key t m shards = .replay s) :
    s ∈ shards ∧ s.key = key ∧ s.args = argRegs.map t.gpr ∧ verify m s.rd = some true := by
  induction shards with
  | nil => cases h
  | cons q rest ih =>
    unfold enter at h
    split at h
    · obtain ⟨hmem, hrest⟩ := ih h
      exact ⟨List.mem_cons_of_mem q hmem, hrest⟩
    · rename_i hmatch
      obtain ⟨hkey, hargs⟩ := not_or.1 hmatch
      split at h
      · rename_i hv
        cases h
        exact ⟨List.mem_cons_self, not_not.1 hkey, not_not.1 hargs, hv⟩
      · obtain ⟨hmem, hrest⟩ := ih h
        exact ⟨List.mem_cons_of_mem q hmem, hrest⟩
      · cases h

/-! ## The recorder -/

/-- The accesses that tell the recorder: all but the byte-wide ones. -/
def Heard (a : Access) : Prop := a.width ≠ .byte

def Recorder.marks (q : Recorder) : Marks ℕ := ⟨{i | q.rdFlag i = true}, {i | q.wrFlag i = true}⟩

/-- What noting some cells as read comes to. -/
structure NotedRead (m : Cells) (n idx : ℕ) (q q' : Recorder) : Prop where
  wrFlag : q'.wrFlag = q.wrFlag
  rdFlag : ∀ i, q'.rdFlag i = true ↔
    q.rdFlag i = true ∨ (idx ≤ i ∧ i < idx + n) ∧ q.wrFlag i = false
  kept : ∀ i, q.rdFlag i = true → q'.rdOrig i = q.rdOrig i
  fresh : ∀ i, q.rdFlag i = false → q'.rdFlag i = true → q'.rdOrig i = m i

theorem noteReadCells_spec (m : Cells) (n idx : ℕ) (q : Recorder)
    (h : (q.noteReadCells m n idx).poisoned = false) :
    NotedRead m n idx q (q.noteReadCells m n idx) := by
  induction n generalizing idx q with
  | zero =>
    refine ⟨rfl, fun i => ?_, fun i _ => rfl, fun i hf ht => ?_⟩
    · rw [or_iff_left (by omega)]
      rfl
    · exact absurd (hf.symm.trans ht) (by decide)
  | succ n ih =>
    unfold Recorder.noteReadCells at h ⊢
    split at h
    case isTrue hskip =>
      rw [if_pos hskip]
      obtain ⟨hw, hr, hk, hf⟩ := ih (idx + 1) q h
      refine ⟨hw, fun i => ?_, hk, hf⟩
      rw [hr i]
      refine or_congr_right' fun hi => ?_
      refine and_congr_left fun hwi => ?_
      have hne : i ≠ idx := by
        rintro rfl
        rw [hwi, Bool.false_or] at hskip
        exact hi hskip
      omega
    case isFalse hnew =>
      rw [if_neg hnew]
      simp only [Bool.or_eq_true, not_or, Bool.not_eq_true] at hnew
      dsimp only at h ⊢
      split at h
      case isTrue => exact absurd h (by simp)
      case isFalse hbudget =>
        rw [if_neg hbudget]
        obtain ⟨hw, hr, hk, hf⟩ := ih (idx + 1) _ h
        dsimp only at hr hk hf
        refine ⟨hw, fun i => ?_, fun i hi => ?_, fun i hi ht => ?_⟩
        · rw [hr i]
          by_cases he : i = idx
          · subst he
            simp [hnew.1]
          · rw [Function.update_of_ne he]
            refine or_congr_right (and_congr_left fun _ => ?_)
            omega
        · have hne : i ≠ idx := by
            rintro rfl
            rw [hnew.2] at hi
            cases hi
          rw [hk i (by rwa [Function.update_of_ne hne]), Function.update_of_ne hne]
        · by_cases he : i = idx
          · subst he
            rw [hk i (Function.update_self ..), Function.update_self]
          · exact hf i (by rwa [Function.update_of_ne he]) ht

/-- What noting some cells as written comes to. -/
structure NotedWrite (n idx : ℕ) (q q' : Recorder) : Prop where
  rdFlag : q'.rdFlag = q.rdFlag
  rdOrig : q'.rdOrig = q.rdOrig
  wrFlag : ∀ i, q'.wrFlag i = true ↔ q.wrFlag i = true ∨ idx ≤ i ∧ i < idx + n

theorem noteWriteCells_spec (n idx : ℕ) (q : Recorder)
    (h : (q.noteWriteCells n idx).poisoned = false) :
    NotedWrite n idx q (q.noteWriteCells n idx) := by
  induction n generalizing idx q with
  | zero =>
    refine ⟨rfl, rfl, fun i => ?_⟩
    rw [or_iff_left (by omega)]
    rfl
  | succ n ih =>
    unfold Recorder.noteWriteCells at h ⊢
    split at h
    case isTrue hskip =>
      rw [if_pos hskip]
      obtain ⟨hr, ho, hw⟩ := ih (idx + 1) q h
      refine ⟨hr, ho, fun i => ?_⟩
      rw [hw i]
      refine or_congr_right' fun hi => ?_
      have hne : i ≠ idx := by
        rintro rfl
        exact hi hskip
      omega
    case isFalse hnew =>
      rw [if_neg hnew]
      dsimp only at h ⊢
      split at h
      case isTrue => exact absurd h (by simp)
      case isFalse hbudget =>
        rw [if_neg hbudget]
        obtain ⟨hr, ho, hw⟩ := ih (idx + 1) _ h
        dsimp only at hw
        refine ⟨hr, ho, fun i => ?_⟩
        rw [hw i]
        by_cases he : i = idx
        · subst he
          simp
        · rw [Function.update_of_ne he]
          refine or_congr_right ?_
          omega

theorem hearLoad_spec {g : Geometry} {m : Cells} {a : Access} {q : Recorder}
    (h : (q.hearLoad g m a).poisoned = false) :
    q.poisoned = false ∧
      (¬Heard a ∧ q.hearLoad g m a = q ∨
        Heard a ∧ NotedRead m a.width.bytes (cellOf g a.addr) q (q.hearLoad g m a)) := by
  have hnote : ∀ size, (q.noteRead g m a.addr size).poisoned = false →
      q.poisoned = false ∧ NotedRead m size (cellOf g a.addr) q (q.noteRead g m a.addr size) := by
    intro size hsize
    unfold Recorder.noteRead at hsize ⊢
    rw [indexOf_mapped g a.mapped] at hsize ⊢
    split at hsize
    case isTrue hp => exact absurd (hp.symm.trans hsize) (by decide)
    case isFalse hp =>
      rw [if_neg hp]
      exact ⟨Bool.eq_false_iff.2 hp, noteReadCells_spec m size _ q hsize⟩
  unfold Recorder.hearLoad Heard at *
  cases hw : a.width with
  | byte =>
    rw [hw] at h
    exact ⟨h, Or.inl ⟨fun hn => hn rfl, rfl⟩⟩
  | half =>
    rw [hw] at h
    obtain ⟨hp, hn⟩ := hnote 2 h
    exact ⟨hp, Or.inr ⟨Width.noConfusion, hn⟩⟩
  | word =>
    rw [hw] at h
    obtain ⟨hp, hn⟩ := hnote 4 h
    exact ⟨hp, Or.inr ⟨Width.noConfusion, hn⟩⟩

theorem hearStore_spec {g : Geometry} {a : Access} {q : Recorder}
    (h : (q.hearStore g a).poisoned = false) :
    q.poisoned = false ∧
      (¬Heard a ∧ q.hearStore g a = q ∨
        Heard a ∧ NotedWrite a.width.bytes (cellOf g a.addr) q (q.hearStore g a)) := by
  have hnote : ∀ size, (q.noteWrite g a.addr size).poisoned = false →
      q.poisoned = false ∧ NotedWrite size (cellOf g a.addr) q (q.noteWrite g a.addr size) := by
    intro size hsize
    unfold Recorder.noteWrite at hsize ⊢
    rw [indexOf_mapped g a.mapped] at hsize ⊢
    split at hsize
    case isTrue hp => exact absurd (hp.symm.trans hsize) (by decide)
    case isFalse hp =>
      rw [if_neg hp]
      exact ⟨Bool.eq_false_iff.2 hp, noteWriteCells_spec size _ q hsize⟩
  unfold Recorder.hearStore Heard at *
  cases hw : a.width with
  | byte =>
    rw [hw] at h
    exact ⟨h, Or.inl ⟨fun hn => hn rfl, rfl⟩⟩
  | half =>
    rw [hw] at h
    obtain ⟨hp, hn⟩ := hnote 2 h
    exact ⟨hp, Or.inr ⟨Width.noConfusion, hn⟩⟩
  | word =>
    rw [hw] at h
    obtain ⟨hp, hn⟩ := hnote 4 h
    exact ⟨hp, Or.inr ⟨Width.noConfusion, hn⟩⟩

end PsxRecomp.DataShards
