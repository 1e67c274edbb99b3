import PsxRecomp.Mods.MainImage

/-! When the main-EXE part of a plan is applied as a whole: its conflicts are decided on virtual
addresses, while several of them name one byte. -/
namespace PsxRecomp.Mods
open Cells
set_option autoImplicit false

variable {D : Type} (B : Bus D)

/-! ## Owned and guarded bytes -/

theorem mem_addressed {location : ℕ} {bytes : List Byte} (h : location + bytes.length ≤ 2 ^ 32)
    {a : Word} {v : Byte} : (a, v) ∈ addressed location bytes ↔
      location ≤ a.toNat ∧ bytes[a.toNat - location]? = some v := by
  unfold addressed
  rw [List.mem_mapIdx]
  constructor
  · rintro ⟨i, hi, he⟩
    simp only [Prod.mk.injEq] at he
    obtain ⟨rfl, rfl⟩ := he
    have ha : (BitVec.ofNat 32 location + BitVec.ofNat 32 i).toNat = location + i := by
      rw [BitVec.toNat_add, BitVec.toNat_ofNat, BitVec.toNat_ofNat]
      omega
    rw [ha, Nat.add_sub_cancel_left, List.getElem?_eq_getElem hi]
    exact ⟨Nat.le_add_right _ _, rfl⟩
  · rintro ⟨hle, hv⟩
    obtain ⟨hi, hv⟩ := List.getElem?_eq_some_iff.1 hv
    refine ⟨a.toNat - location, hi, ?_⟩
    rw [Prod.mk.injEq, ← BitVec.toNat_inj, BitVec.toNat_add, BitVec.toNat_ofNat, BitVec.toNat_ofNat]
    exact ⟨by omega, hv⟩

theorem mem_addressed_iff_cells {location : ℕ} {bytes : List Byte}
    (h : location + bytes.length ≤ 2 ^ 32) {a : Word} {v : Byte} :
    (a, v) ∈ addressed location bytes ↔ ((.mainExe, a.toNat), v) ∈ cellsOf .mainExe location bytes := by
  rw [mem_addressed h, mem_cellsOf]
  exact ⟨fun hx => ⟨rfl, hx⟩, fun hx => hx.2⟩

theorem mem_storedBytes {w : Write} (hw : validWrite w = true) (ht : w.target = .mainExe)
    (hb : w.location + w.expected.length ≤ 2 ^ 32) {a : Word} {v : Byte} :
    (a, v) ∈ storedBytes w ↔ ((.mainExe, a.toNat), v) ∈ w.cells := by
  unfold validWrite at hw
  unfold storedBytes Write.cells Write.ownedSpans
  split
  case isTrue hf =>
    simp only [hf, ↓reduceIte, decide_eq_true_eq] at hw
    rw [mem_addressed_iff_cells (by rw [← hw.2]; exact hb)]
    simp [ht]
  case isFalse hf =>
    simp only [hf, ↓reduceIte, decide_eq_true_eq] at hw
    have hin := (validFields_spec hw.2.2).1
    rw [List.flatMap_map, List.mem_flatMap, List.mem_flatMap]
    refine exists_congr fun f => and_congr_right fun hfm => ?_
    have hle := (hin f hfm).2
    rw [mem_addressed_iff_cells (by omega), ht]

theorem mem_mainWrites {writes : List Write} {w : Write} :
    w ∈ mainWrites writes ↔ w ∈ writes ∧ w.target = .mainExe := by
  simp [mainWrites]

/-- An address is owned with one value only. -/
theorem ownedBytes_consistent (plan : MainPlan) : Consistent (ownedBytes plan.writes) := by
  have hmem : ∀ a v, (a, v) ∈ ownedBytes plan.writes →
      ((PatchTarget.mainExe, a.toNat), v) ∈ plan.writes.flatMap Write.cells := by
    intro a v h
    obtain ⟨w, hw, h⟩ := List.mem_flatMap.1 h
    obtain ⟨hwm, ht⟩ := mem_mainWrites.1 hw
    exact List.mem_flatMap.2 ⟨w, hwm,
      (mem_storedBytes (plan.valid w hwm) ht (plan.bounded w hwm ht)).1 h⟩
  intro a v u hv hu
  exact plan.consistent _ v u (hmem a v hv) (hmem a u hu)

/-- An owned address is guarded. -/
theorem owned_guarded (plan : MainPlan) {a : Word} {v : Byte}
    (h : (a, v) ∈ ownedBytes plan.writes) : ∃ e, (a, e) ∈ guardBytes plan.writes := by
  obtain ⟨w, hw, h⟩ := List.mem_flatMap.1 h
  obtain ⟨hwm, ht⟩ := mem_mainWrites.1 hw
  have hvalid := plan.valid w hwm
  have hbound := plan.bounded w hwm ht
  have hcells := (mem_storedBytes hvalid ht hbound).1 h
  obtain ⟨s, hs, hx⟩ := List.mem_flatMap.1 hcells
  rw [mem_cellsOf] at hx
  obtain ⟨-, h1, h2⟩ := hx
  obtain ⟨hlen, -⟩ := List.getElem?_eq_some_iff.1 h2
  obtain ⟨g1, g2, -⟩ := @span_guard w hvalid s hs a.toNat h1 (by dsimp only at h1 hlen; omega)
  have hlt : a.toNat - w.location < w.expected.length := by omega
  exact ⟨w.expected[a.toNat - w.location], List.mem_flatMap.2 ⟨w, hw,
    (mem_addressed hbound).2 ⟨g1, List.getElem?_eq_getElem hlt⟩⟩⟩

/-! ## Plain memory -/

/-- What a plain address reads as. -/
def readAt (m : Memory D) (addr : Word) : Byte :=
  match slotOf B addr with
  | some s => m.cells s
  | none => fixedAt B addr

theorem checkGuards_plain {bytes : List (Word × Byte)} (h : ∀ b ∈ bytes, Plain B b.1)
    (m : Memory D) : checkGuards B bytes m = (bytes.all fun b => readAt B m b.1 = b.2, m) := by
  induction bytes with
  | nil => rfl
  | cons b bytes ih =>
    obtain ⟨addr, v⟩ := b
    obtain ⟨hb, hrest⟩ := List.forall_mem_cons.1 h
    unfold checkGuards
    rw [psxReadByte_plain B hb m, List.all_cons]
    dsimp only
    change (if readAt B m addr ≠ v then _ else _) = _
    by_cases hv : readAt B m addr = v
    · rw [if_neg (not_not.2 hv), ih hrest, hv]
      simp
    · rw [if_pos hv]
      simp [hv]

theorem restoredCheck_plain (want : Word → Option Byte) {bytes : List (Word × Byte)}
    (h : ∀ b ∈ bytes, Plain B b.1) (m : Memory D) :
    restoredCheck B want bytes m =
      (bytes.all fun b => readAt B m b.1 = b.2 ∨ want b.1 = some (readAt B m b.1), m) := by
  induction bytes with
  | nil => rfl
  | cons b bytes ih =>
    obtain ⟨addr, v⟩ := b
    obtain ⟨hb, hrest⟩ := List.forall_mem_cons.1 h
    unfold restoredCheck
    rw [psxReadByte_plain B hb m, List.all_cons]
    dsimp only
    change (if readAt B m addr = v then _ else if want addr = some (readAt B m addr) then _ else _) = _
    by_cases hv : readAt B m addr = v
    · rw [if_pos hv, ih hrest]
      simp [hv]
    · rw [if_neg hv]
      by_cases hw : want addr = some (readAt B m addr)
      · rw [if_pos hw, ih hrest]
        simp [hw]
      · rw [if_neg hw]
        simp [hv, hw]

/-- The slots the stores change, with what they leave there. -/
def slotBytes (bytes : List (Word × Byte)) : List (Slot × Byte) :=
  bytes.filterMap fun b => (slotOf B b.1).map fun s => (s, b.2)

theorem mem_slotBytes {bytes : List (Word × Byte)} {s : Slot} {v : Byte} :
    (s, v) ∈ slotBytes B bytes ↔ ∃ a, (a, v) ∈ bytes ∧ slotOf B a = some s := by
  unfold slotBytes
  simp only [List.mem_filterMap, Option.map_eq_some_iff, Prod.mk.injEq, Prod.exists]
  constructor
  · rintro ⟨a, v', hm, s', hs, rfl, rfl⟩
    exact ⟨a, hm, hs⟩
  · rintro ⟨a, hm, hs⟩
    exact ⟨a, v, hm, s, hs, rfl, rfl⟩

theorem storeBytes_plain {bytes : List (Word × Byte)} (h : ∀ b ∈ bytes, Plain B b.1)
    (m : Memory D) :
    storeBytes B bytes m = { m with cells := paint m.cells (slotBytes B bytes) } := by
  induction bytes generalizing m with
  | nil => rfl
  | cons b bytes ih =>
    obtain ⟨hb, hrest⟩ := List.forall_mem_cons.1 h
    have hstep : storeBytes B (b :: bytes) m =
        storeBytes B bytes (psxHostWriteByte B b.1 b.2 m) := rfl
    rw [hstep, ih hrest, psxHostWriteByte_plain B hb]
    unfold slotBytes
    rw [List.filterMap_cons]
    cases slotOf B b.1 with
    | none => rfl
    | some s => rfl

/-! ## The whole plan or nothing -/

/-- What the dispatch promises: memory is as it was, or every owned byte reads back as its
replacement and a restored image in that state is accepted; and an image in which a guarded byte is
neither what is expected nor what the plan puts there is refused. -/
def AppliedWhole (writes : List Write) (target : Word) (s : MainState D) : Prop :=
  let m := (onDispatch B writes target s).memory
  (m = s.memory ∨
    (∀ b ∈ ownedBytes writes, (psxReadByte B b.1 m).1 = b.2) ∧
      (restoredMainMatchesPlan B writes m).1 = true) ∧
  ∀ image : Memory D,
    (∃ b ∈ guardBytes writes, (psxReadByte B b.1 image).1 ≠ b.2 ∧
      (b.1, (psxReadByte B b.1 image).1) ∉ ownedBytes writes) →
    (restoredMainMatchesPlan B writes image).1 = false

/-- The dispatch looks at the plan. -/
def DispatchOpen (target : Word) (s : MainState D) : Prop :=
  s.initialized = true ∧ s.mainApplied = false ∧ target &&& 0x1FFFFFFF#32 = s.entryPhys

def GuardsHold (writes : List Write) (m : Memory D) : Prop :=
  ∀ b ∈ guardBytes writes, (psxReadByte B b.1 m).1 = b.2

/-- Every byte of memory the stores reach ends as a byte expected there. -/
def NoEffect (writes : List Write) : Prop :=
  ∀ s v, lastOf (slotBytes B (ownedBytes writes)) s = some v →
    ∃ a, (a, v) ∈ guardBytes writes ∧ slotOf B a = some s

/-- Addresses of one byte do not want different things of it. -/
structure AliasFree (writes : List Write) : Prop where
  readOnly : ∀ a v e, (a, v) ∈ ownedBytes writes → slotOf B a = none →
    (a, e) ∈ guardBytes writes → v = e
  owned : ∀ a v a' v' s, (a, v) ∈ ownedBytes writes → (a', v') ∈ ownedBytes writes →
    slotOf B a = some s → slotOf B a' = some s → v = v'
  guarded : ∀ a v a' e s, (a, v) ∈ ownedBytes writes → (a', e) ∈ guardBytes writes →
    slotOf B a = some s → slotOf B a' = some s → (∀ v', (a', v') ∉ ownedBytes writes) → v = e

/-- An image with a wrong guarded byte is refused. -/
theorem restored_refuses (plan : MainPlan) (hdev : ∀ b ∈ guardBytes plan.writes, Plain B b.1)
    (image : Memory D)
    (h : ∃ b ∈ guardBytes plan.writes, (psxReadByte B b.1 image).1 ≠ b.2 ∧
      (b.1, (psxReadByte B b.1 image).1) ∉ ownedBytes plan.writes) :
    (restoredMainMatchesPlan B plan.writes image).1 = false := by
  obtain ⟨b, hb, hne, hno⟩ := h
  have hread : (psxReadByte B b.1 image).1 = readAt B image b.1 := by
    rw [psxReadByte_plain B (hdev b hb)]
    rfl
  rw [hread] at hne hno
  unfold restoredMainMatchesPlan
  rw [restoredCheck_plain B _ hdev]
  have hwant : desired plan.writes b.1 ≠ some (readAt B image b.1) := by
    intro hw
    exact hno ((lastOf_eq_some_iff (ownedBytes_consistent plan)).1 hw)
  simp only [List.all_eq_false, decide_eq_true_eq, not_or]
  exact ⟨b, hb, hne, hwant⟩

/-- Memory after the stores: a reached byte holds what was stored last. -/
theorem readAt_stored (plan : MainPlan) (m : Memory D) {a : Word} {s : Slot}
    (hs : slotOf B a = some s) :
    readAt B { m with cells := paint m.cells (slotBytes B (ownedBytes plan.writes)) } a =
      (lastOf (slotBytes B (ownedBytes plan.writes)) s).getD (m.cells s) := by
  unfold readAt
  rw [hs]
  exact paint_eq_lastOf _ _ _

theorem readAt_fixed (m m' : Memory D) {a : Word} (hs : slotOf B a = none) :
    readAt B m a = readAt B m' a := by
  unfold readAt
  rw [hs]

/-- An owned slot is stored with some value. -/
theorem lastOf_owned {writes : List Write} {a : Word} {v : Byte} {s : Slot}
    (h : (a, v) ∈ ownedBytes writes) (hs : slotOf B a = some s) :
    ∃ a' v', lastOf (slotBytes B (ownedBytes writes)) s = some v' ∧
      (a', v') ∈ ownedBytes writes ∧ slotOf B a' = some s := by
  obtain ⟨v', hl⟩ := lastOf_of_mem ((mem_slotBytes B).2 ⟨a, h, hs⟩)
  obtain ⟨a', ha', hs'⟩ := (mem_slotBytes B).1 (mem_of_lastOf hl)
  exact ⟨a', v', hl, ha', hs'⟩

section Applied

variable (plan : MainPlan) (m : Memory D)

/-- Memory behind the stores. -/
def stored : Memory D :=
  { m with cells := paint m.cells (slotBytes B (ownedBytes plan.writes)) }

/-- Without conflicting aliases the plan is applied and its image accepted. -/
theorem applied_of_aliasFree (hdev : ∀ b ∈ guardBytes plan.writes, Plain B b.1)
    (hguards : ∀ b ∈ guardBytes plan.writes, readAt B m b.1 = b.2)
    (h : AliasFree B plan.writes) :
    (∀ b ∈ ownedBytes plan.writes, readAt B (stored B plan m) b.1 = b.2) ∧
      (restoredMainMatchesPlan B plan.writes (stored B plan m)).1 = true := by
  have howned : ∀ b ∈ ownedBytes plan.writes, readAt B (stored B plan m) b.1 = b.2 := by
    rintro ⟨a, v⟩ hb
    obtain ⟨e, he⟩ := owned_guarded plan hb
    cases hs : slotOf B a with
    | none =>
      dsimp only
      rw [readAt_fixed B _ m hs, hguards _ he, h.readOnly a v e hb hs he]
    | some s =>
      obtain ⟨a', v', hl, hb', hs'⟩ := lastOf_owned B hb hs
      have hr := readAt_stored B plan m hs
      rw [hl] at hr
      exact hr.trans (h.owned a' v' a v s hb' hb hs' hs)
  refine ⟨howned, ?_⟩
  unfold restoredMainMatchesPlan
  rw [restoredCheck_plain B _ hdev]
  simp only [List.all_eq_true, decide_eq_true_eq]
  rintro ⟨a, e⟩ hb
  by_cases ho : ∃ v, (a, v) ∈ ownedBytes plan.writes
  · obtain ⟨v, hv⟩ := ho
    right
    rw [howned (a, v) hv]
    exact (lastOf_eq_some_iff (ownedBytes_consistent plan)).2 hv
  · rw [not_exists] at ho
    left
    cases hs : slotOf B a with
    | none => rw [readAt_fixed B _ m hs, hguards _ hb]
    | some s =>
      have hr := readAt_stored B plan m hs
      cases hl : lastOf (slotBytes B (ownedBytes plan.writes)) s with
      | none =>
        rw [hl] at hr
        have hm := hguards _ hb
        unfold readAt at hm
        rw [hs] at hm
        exact hr.trans hm
      | some v' =>
        obtain ⟨a', ha', hs'⟩ := (mem_slotBytes B).1 (mem_of_lastOf hl)
        rw [hl] at hr
        exact hr.trans (h.guarded a' v' a e s ha' hb hs' hs ho)

/-- A plan that is applied and whose image is accepted has no conflicting aliases. -/
theorem aliasFree_of_applied (hdev : ∀ b ∈ guardBytes plan.writes, Plain B b.1)
    (hguards : ∀ b ∈ guardBytes plan.writes, readAt B m b.1 = b.2)
    (howned : ∀ b ∈ ownedBytes plan.writes, readAt B (stored B plan m) b.1 = b.2)
    (haccept : (restoredMainMatchesPlan B plan.writes (stored B plan m)).1 = true) :
    AliasFree B plan.writes where
  readOnly a v e hb hs he := by
    have hv : readAt B (stored B plan m) a = v := howned _ hb
    rw [← hv, readAt_fixed B _ m hs]
    exact hguards _ he
  owned a v a' v' s hb hb' hs hs' := by
    have hv : readAt B (stored B plan m) a = v := howned _ hb
    have hv' : readAt B (stored B plan m) a' = v' := howned _ hb'
    rw [← hv, ← hv']
    unfold readAt
    rw [hs, hs']
  guarded a v a' e s hb he hs hs' hno := by
    unfold restoredMainMatchesPlan at haccept
    rw [restoredCheck_plain B _ hdev] at haccept
    simp only [List.all_eq_true, decide_eq_true_eq] at haccept
    have hv : readAt B (stored B plan m) a = v := howned _ hb
    have hsame : readAt B (stored B plan m) a' = v := by
      rw [← hv]
      unfold readAt
      rw [hs, hs']
    rcases haccept (a', e) he with hread | hwant
    · exact hsame.symm.trans hread
    · exact absurd ((lastOf_eq_some_iff (ownedBytes_consistent plan)).1 hwant) (hno _)

/-- The stores change nothing where each byte ends as expected. -/
theorem stored_eq_iff (hguards : ∀ b ∈ guardBytes plan.writes, readAt B m b.1 = b.2) :
    stored B plan m = m ↔ NoEffect B plan.writes := by
  have hcells : stored B plan m = m ↔
      ∀ s, (lastOf (slotBytes B (ownedBytes plan.writes)) s).getD (m.cells s) = m.cells s := by
    constructor
    · intro h s
      rw [← paint_eq_lastOf]
      exact congrFun (congrArg Memory.cells h) s
    · intro h
      have hc : paint m.cells (slotBytes B (ownedBytes plan.writes)) = m.cells := by
        funext s
        rw [paint_eq_lastOf]
        exact h s
      unfold stored
      rw [hc]
  have hslot : ∀ a e s, (a, e) ∈ guardBytes plan.writes → slotOf B a = some s → m.cells s = e := by
    intro a e s ha hs
    have hm := hguards _ ha
    unfold readAt at hm
    rw [hs] at hm
    exact hm
  rw [hcells]
  constructor
  · intro h s v hl
    obtain ⟨a, ha, hs⟩ := (mem_slotBytes B).1 (mem_of_lastOf hl)
    obtain ⟨e, he⟩ := owned_guarded plan ha
    have hv := h s
    rw [hl] at hv
    refine ⟨a, ?_, hs⟩
    rw [show v = e from hv.trans (hslot a e s he hs)]
    exact he
  · intro h s
    cases hl : lastOf (slotBytes B (ownedBytes plan.writes)) s with
    | none => rfl
    | some v =>
      obtain ⟨a, ha, hs⟩ := h s v hl
      exact (hslot a v s ha hs).symm

end Applied

/-- The dispatch applies the plan as a whole exactly where it is closed, a guard fails, the stores
change nothing, or no two addresses of one byte want different things of it. -/
theorem main_plan_whole_iff (plan : MainPlan) (target : Word) (s : MainState D)
    (hdev : ∀ b ∈ guardBytes plan.writes, Plain B b.1) :
    AppliedWhole B plan.writes target s ↔
      ¬DispatchOpen target s ∨ ¬GuardsHold B plan.writes s.memory ∨ NoEffect B plan.writes ∨
        AliasFree B plan.writes := by
  have hread : ∀ (m : Memory D), ∀ b ∈ guardBytes plan.writes,
      (psxReadByte B b.1 m).1 = readAt B m b.1 := by
    intro m b hb
    rw [psxReadByte_plain B (hdev b hb)]
    rfl
  have hdevOwned : ∀ b ∈ ownedBytes plan.writes, Plain B b.1 := by
    rintro ⟨a, v⟩ hb
    obtain ⟨e, he⟩ := owned_guarded plan hb
    exact hdev (a, e) he
  have hreadOwned : ∀ (m : Memory D), ∀ b ∈ ownedBytes plan.writes,
      (psxReadByte B b.1 m).1 = readAt B m b.1 := by
    intro m b hb
    rw [psxReadByte_plain B (hdevOwned b hb)]
    rfl
  have hrefuse := restored_refuses B plan hdev
  unfold AppliedWhole
  dsimp only
  rw [and_iff_left hrefuse]
  by_cases hopen : DispatchOpen target s
  · obtain ⟨hi, ha, ht⟩ := hopen
    by_cases hguards : GuardsHold B plan.writes s.memory
    · have hg : ∀ b ∈ guardBytes plan.writes, readAt B s.memory b.1 = b.2 := by
        intro b hb
        rw [← hread s.memory b hb]
        exact hguards b hb
      have hm : (onDispatch B plan.writes target s).memory = stored B plan s.memory := by
        unfold onDispatch
        rw [if_neg (by simp [hi, ha, ht]), checkGuards_plain B hdev]
        rw [show ((guardBytes plan.writes).all fun b => readAt B s.memory b.1 = b.2) = true by
          simpa [List.all_eq_true] using hg]
        exact storeBytes_plain B hdevOwned s.memory
      rw [hm, stored_eq_iff B plan s.memory hg]
      have hclosed : ¬¬DispatchOpen target s := not_not.2 ⟨hi, ha, ht⟩
      rw [or_iff_right hclosed, or_iff_right (not_not.2 hguards)]
      refine or_congr Iff.rfl ⟨fun h => ?_, fun h => ?_⟩
      · refine aliasFree_of_applied B plan s.memory hdev hg (fun b hb => ?_) h.2
        rw [← hreadOwned _ b hb]
        exact h.1 b hb
      · obtain ⟨h1, h2⟩ := applied_of_aliasFree B plan s.memory hdev hg h
        refine ⟨fun b hb => ?_, h2⟩
        rw [hreadOwned _ b hb]
        exact h1 b hb
    · refine iff_of_true (Or.inl ?_) (Or.inr (Or.inl hguards))
      have hfalse : ((guardBytes plan.writes).all fun b => readAt B s.memory b.1 = b.2) = false := by
        rw [Bool.eq_false_iff]
        intro hall
        apply hguards
        intro b hb
        rw [hread s.memory b hb]
        simpa using List.all_eq_true.1 hall b hb
      unfold onDispatch
      rw [if_neg (by simp [hi, ha, ht]), checkGuards_plain B hdev, hfalse]
      rfl
  · refine iff_of_true (Or.inl ?_) (Or.inl hopen)
    unfold onDispatch
    rw [if_pos]
    unfold DispatchOpen at hopen
    by_contra hno
    simp only [not_or, Bool.not_eq_true', Bool.not_eq_true, not_not, Bool.not_eq_false] at hno
    exact hopen hno

/-- A board with 2 MiB of RAM, an empty BIOS image and no device behind the registers. -/
def plainBoard : Bus Unit where
  ramMask := 0x1FFFFF
  gpuDmaUsed := 0
  modMemoryUsed := 0
  biosRom _ := 0
  mmioRead8 m _ := (0, m)
  mmioWrite8 m _ _ := m

/-- One byte replaced at a guest address. -/
def byteWrite (address : ℕ) (value : Byte) (id : String) : Write where
  target := .mainExe
  location := address
  expected := [0x00]
  replacement := [value]
  fields := []
  packageId := id
  featureId := "f"

/-- Two packages patch one byte of RAM, through KSEG0 and through KUSEG. -/
def aliasWrites : List Write := [byteWrite 0x80010000 0x11 "a", byteWrite 0x00010000 0x22 "b"]

def aliasPlan : MainPlan :=
  MainPlan.ofCoalesced aliasWrites [] (by decide) (by decide)

/-- Before the entry point, over cleared memory. -/
def clearedState : MainState Unit where
  initialized := true
  mainApplied := false
  entryPhys := 0x00010000
  memory := { cells := fun _ => 0, devices := () }

/-- The two packages resolve without a conflict and both guards pass, yet the first patch does not
read back. -/
theorem alias_patch_lost :
    ¬AppliedWhole plainBoard aliasPlan.writes 0x80010000 clearedState ∧
    (psxReadByte plainBoard 0x80010000
      (onDispatch plainBoard aliasPlan.writes 0x80010000 clearedState).memory).1 = 0x22 := by
  have hread : (psxReadByte plainBoard 0x80010000
      (onDispatch plainBoard aliasPlan.writes 0x80010000 clearedState).memory).1 = 0x22 := by
    decide
  refine ⟨fun h => ?_, hread⟩
  rcases h.1 with hsame | ⟨hback, -⟩
  · rw [hsame] at hread
    exact absurd hread (by decide)
  · have h11 := hback (0x80010000, 0x11) (by decide)
    rw [hread] at h11
    exact absurd h11 (by decide)

/-- Two packages patch neighbouring bytes, through KSEG0 and through KUSEG. -/
def neighbourWrites : List Write := [byteWrite 0x80010000 0x11 "a", byteWrite 0x00010001 0x22 "b"]

theorem neighbourWrites_bytes : ownedBytes neighbourWrites = [(0x80010000, 0x11), (0x00010001, 0x22)] ∧
    guardBytes neighbourWrites = [(0x80010000, 0x00), (0x00010001, 0x00)] := by decide

theorem neighbourWrites_aliasFree : AliasFree plainBoard neighbourWrites := by
  obtain ⟨howned, hguards⟩ := neighbourWrites_bytes
  have hapart : slotOf plainBoard 0x80010000 ≠ slotOf plainBoard 0x00010001 := by decide
  have hslots : slotOf plainBoard 0x80010000 ≠ none ∧ slotOf plainBoard 0x00010001 ≠ none := by decide
  constructor
  · intro a v e ha hnone _
    rw [howned] at ha
    simp only [List.mem_cons, Prod.mk.injEq, List.not_mem_nil, or_false] at ha
    rcases ha with ⟨rfl, -⟩ | ⟨rfl, -⟩
    · exact absurd hnone hslots.1
    · exact absurd hnone hslots.2
  · intro a v a' v' s ha ha' hs hs'
    rw [howned] at ha ha'
    simp only [List.mem_cons, Prod.mk.injEq, List.not_mem_nil, or_false] at ha ha'
    rcases ha with ⟨rfl, rfl⟩ | ⟨rfl, rfl⟩ <;> rcases ha' with ⟨rfl, rfl⟩ | ⟨rfl, rfl⟩
    · rfl
    · exact absurd (hs.trans hs'.symm) hapart
    · exact absurd (hs'.trans hs.symm) hapart
    · rfl
  · intro a v a' e s _ ha' _ _ hnone
    rw [hguards] at ha'
    rw [howned] at hnone
    simp only [List.mem_cons, Prod.mk.injEq, List.not_mem_nil, or_false] at ha'
    rcases ha' with ⟨rfl, -⟩ | ⟨rfl, -⟩
    · exact absurd (List.mem_cons_self ..) (hnone 0x11)
    · exact absurd (List.mem_cons_of_mem _ (List.mem_cons_self ..)) (hnone 0x22)

/-- Both patches are applied. -/
theorem main_plan_whole_neighbours : AppliedWhole plainBoard neighbourWrites 0x80010000 clearedState := by
  refine (main_plan_whole_iff plainBoard (MainPlan.ofCoalesced neighbourWrites [] (by decide) (by decide))
    0x80010000 clearedState ?_).2 (Or.inr (Or.inr (Or.inr neighbourWrites_aliasFree)))
  intro b hb phys h
  have hmem : b ∈ guardBytes neighbourWrites := hb
  rw [neighbourWrites_bytes.2] at hmem
  simp only [List.mem_cons, List.not_mem_nil, or_false] at hmem
  rcases hmem with rfl | rfl <;> cases h

end PsxRecomp.Mods
