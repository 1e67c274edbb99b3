import Mathlib
import PsxRecomp.MemoryCard.Layout

/-! A card that parses without errors is partitioned: its saves share no block, and together they
hold exactly the blocks the directory calls occupied. The walk itself ends on any bytes. -/
namespace PsxRecomp.MemoryCard
open LinkedPath MemoryEdit
set_option autoImplicit false

/-! ## States -/

section Sound
variable {p : Pointer}

theorem continuation_active (n : ℕ) : activeState (continuationState n) = true := by
  unfold continuationState
  split_ifs <;> rfl

theorem active_not_free {n : ℕ} (h : activeState n = true) : freeState n = false := by
  simp only [activeState, freeState, Bool.and_eq_true, decide_eq_true_eq] at h ⊢
  simp only [Bool.and_eq_false_iff, decide_eq_false_iff_not]
  omega

theorem Linked.active {first : Prop} {b : ℕ} (h : Linked p first b) :
    activeState (state p b) = true := by
  by_cases hfirst : first
  · rw [h.headState hfirst]
    rfl
  · rw [h.tailState hfirst]
    exact continuation_active _

theorem Threaded.active {head : ℕ} {L : List ℕ} (h : Threaded p True head L) :
    ∀ b ∈ L, activeState (state p b) = true := by
  intro b hb
  cases L with
  | nil => simp at hb
  | cons d L =>
    rcases List.mem_cons.mp hb with rfl | hb
    · exact h.path.head_eq ▸ h.head.active
    · exact (h.tail b hb).active

theorem frameErrors_nil {b : ℕ} : frameErrors p b = [] ↔
    frame p b 127 = checksum (frame p b) ∧
      (freeState (state p b) = true ∨ activeState (state p b) = true) := by
  rw [frameErrors, List.append_eq_nil_iff]
  refine and_congr ?_ ?_
  · split_ifs with h <;> simpa using h
  · cases freeState (state p b) <;> cases activeState (state p b) <;> simp

theorem active_of_occupied {b : ℕ} (h : frameErrors p b = [])
    (hocc : freeState (state p b) = false) : activeState (state p b) = true := by
  have hknown := (frameErrors_nil.mp h).2
  rw [hocc] at hknown
  exact hknown.resolve_left Bool.false_ne_true

/-- The chains hold exactly the blocks that are not free, each once. -/
theorem chains_perm (h : SoundCard p) :
    ((heads p).flatMap (chainOf p)).Perm (slots.filter fun b => !freeState (state p b)) := by
  have hslots : slots.Nodup := List.nodup_range'
  rw [List.perm_ext_iff_of_nodup h.heads.blocks (hslots.filter _)]
  intro b
  rw [List.mem_filter]
  constructor
  · intro hb
    obtain ⟨head, hhead, hmem⟩ := List.mem_flatMap.mp hb
    have hchain := (h.heads.sound head hhead).chain
    refine ⟨mem_slots.mpr (hchain.mem_slots b hmem), ?_⟩
    rw [active_not_free (hchain.active b hmem)]
    rfl
  · rintro ⟨hslot, hfree⟩
    have hocc : freeState (state p b) = false := by simpa using hfree
    exact h.covered b hslot (active_of_occupied (h.frames b hslot) hocc)

theorem saves_blocks (h : SoundCard p) (image : Bytes) :
    (parseData image p).saves.flatMap Save.blocks = (heads p).flatMap (chainOf p) := by
  rw [parseData_saves h, List.flatMap_map]
  rfl

theorem free_and_owned (h : SoundCard p) (image : Bytes) :
    (parseData image p).freeBlocks +
      ((parseData image p).saves.map fun s => s.blocks.length).sum = 15 := by
  have hsum : ((parseData image p).saves.map fun s => s.blocks.length).sum =
      (slots.filter fun b => !freeState (state p b)).length := by
    rw [← List.length_flatMap, saves_blocks h image]
    exact (chains_perm h).length_eq
  have hcount := List.length_eq_countP_add_countP (fun b => freeState (state p b)) (l := slots)
  have hnot : (slots.countP fun b => decide ¬freeState (state p b) = true) =
      (slots.filter fun b => !freeState (state p b)).length := by
    rw [List.countP_eq_length_filter]
    congr 1
    apply List.filter_congr
    intro b _
    cases freeState (state p b) <;> rfl
  have hlen : slots.length = 15 := List.length_range'
  rw [hsum, ← hnot]
  exact hcount.symm.trans hlen

end Sound

/-! ## The partition -/

/-- What the saves of a card are to its directory. -/
structure DirectoryPartition (p : Pointer) (c : Card) : Prop where
  nonempty : ∀ s ∈ c.saves, s.blocks ≠ []
  duplicateFree : ∀ s ∈ c.saves, s.blocks.Nodup
  disjoint : c.saves.Pairwise fun s t => s.blocks.Disjoint t.blocks
  union : ∀ b, (∃ s ∈ c.saves, b ∈ s.blocks) ↔ ∃ i : Fin 15, b = i + 1 ∧ c.occupied i = true
  chainOrder : ∀ s ∈ c.saves, ∃ head, s.blocks.head? = some head ∧
    IsPath (successor p) head s.blocks ∧ s.data = s.blocks.flatMap (blockData p) ∧
    s.data.length = u32 (shift (frame p head) 4)
  names : (c.saves.map Save.name).Nodup
  free : c.freeBlocks + (c.saves.map fun s => s.blocks.length).sum = 15

theorem partition_of_sound {p : Pointer} (image : Bytes) (h : SoundCard p) :
    DirectoryPartition p (parseData image p) := by
  have hblocks := saves_blocks h image
  have hnodup : ((parseData image p).saves.flatMap Save.blocks).Nodup := hblocks ▸ h.heads.blocks
  rw [List.nodup_flatMap] at hnodup
  have hsave : ∀ s ∈ (parseData image p).saves, ∃ head, HeadSound p head ∧ s = saveAt p head := by
    intro s hs
    rw [parseData_saves h, List.mem_map] at hs
    obtain ⟨head, hhead, rfl⟩ := hs
    exact ⟨head, h.heads.sound head hhead, rfl⟩
  refine ⟨fun s hs => ?_, hnodup.1, hnodup.2, fun b => ?_, fun s hs => ?_, ?_,
    free_and_owned h image⟩
  · obtain ⟨head, hsound, rfl⟩ := hsave s hs
    exact hsound.chain.path.ne_nil
  · have hmem : (∃ s ∈ (parseData image p).saves, b ∈ s.blocks) ↔
        b ∈ slots ∧ freeState (state p b) = false := by
      rw [← List.mem_flatMap, hblocks, (chains_perm h).mem_iff, List.mem_filter,
        Bool.not_eq_true']
    rw [hmem, mem_slots]
    constructor
    · rintro ⟨⟨hlow, hhigh⟩, hfree⟩
      have hback : b - 1 + 1 = b := Nat.sub_add_cancel hlow
      refine ⟨⟨b - 1, by omega⟩, hback.symm, ?_⟩
      show (!freeState (state p (b - 1 + 1))) = true
      rw [hback, hfree]
      rfl
    · rintro ⟨i, rfl, hocc⟩
      have hlt := i.isLt
      exact ⟨⟨by omega, by omega⟩, by simpa [parseData] using hocc⟩
  · obtain ⟨head, hsound, rfl⟩ := hsave s hs
    have hpath := hsound.chain.path
    refine ⟨head, ?_, hpath, rfl, hsound.size.symm⟩
    show (chainOf p head).head? = some head
    cases hchain : chainOf p head with
    | nil => exact absurd hchain hpath.ne_nil
    | cons b L =>
      rw [hchain] at hpath
      rw [hpath.head_eq]
      rfl
  · rw [parseData_saves h, List.map_map]
    exact h.heads.names

/-- Every card without errors is partitioned by its saves; and whatever the bytes are, no chain
can be followed for ever. -/
theorem parse_partition :
    (∀ input : Bytes, input.length = cardSize → (parse input).errors = [] →
      DirectoryPartition (dataOf input) (parse input)) ∧
    ∀ p : Pointer, WellFounded fun next c => chainPass p c = .more next := by
  constructor
  · intro input hsize hvalid
    rw [parse_whole hsize] at hvalid ⊢
    exact partition_of_sound input (parseData_errors.mp hvalid)
  · intro p
    apply Subrelation.wf (r := InvImage (· < ·) fun c => (unclaimed c).card)
    · intro next c hmore
      exact chainPass_more hmore
    · exact InvImage.wf _ wellFounded_lt

/-- A card with the save "A" in the slots 1, 3 and 2, and the save "C" in slot 5. -/
def twoSaveCard : Pointer := fun n =>
  if n < 128 then if n = 0 then 0x4d else if n = 1 then 0x43 else if n = 127 then 0x0e else 0
  else if n < 256 then
    match n - 128 with
    | 0 => 0x51
    | 5 => 0x60
    | 8 => 0x02
    | 10 => 0x41
    | 127 => 0x72
    | _ => 0
  else if n < 384 then
    match n - 256 with
    | 0 => 0x53
    | 8 => 0xff
    | 9 => 0xff
    | 127 => 0x53
    | _ => 0
  else if n < 512 then
    match n - 384 with
    | 0 => 0x52
    | 8 => 0x01
    | 127 => 0x53
    | _ => 0
  else if 640 ≤ n ∧ n < 768 then
    match n - 640 with
    | 0 => 0x51
    | 5 => 0x20
    | 8 => 0xff
    | 9 => 0xff
    | 10 => 0x43
    | 127 => 0x32
    | _ => 0
  else if n < 2048 then
    match n % 128 with
    | 0 => 0xa0
    | 8 => 0xff
    | 9 => 0xff
    | 127 => 0xa0
    | _ => 0
  else if n < 4608 then if n % 128 < 4 then 0xff else 0
  else
    match n with
    | 8192 | 40960 => 0x53
    | 8193 | 40961 => 0x43
    | 8194 | 40962 => 0x11
    | 8195 | 40963 => 0x01
    | _ => 0

theorem twoSaveCard_thread : Threaded twoSaveCard True 1 [1, 3, 2] := by
  have hfirst : Linked twoSaveCard True 1 :=
    ⟨le_rfl, by norm_num, Or.inr (by decide), fun _ => by decide, fun h => absurd trivial h⟩
  have hmiddle : Linked twoSaveCard False 3 :=
    ⟨by norm_num, by norm_num, Or.inr (by decide), False.elim, fun _ => by decide⟩
  have hlast : Linked twoSaveCard False 2 :=
    ⟨by norm_num, by norm_num, Or.inl (by decide), False.elim, fun _ => by decide⟩
  refine (threaded_more (by decide)).mpr ⟨hfirst, [3, 2], rfl, by decide, ?_⟩
  refine (threaded_more (by decide)).mpr ⟨hmiddle, [2], rfl, by decide, ?_⟩
  exact (threaded_last (by decide)).mpr ⟨hlast, rfl⟩

theorem twoSaveCard_single : Threaded twoSaveCard True 5 [5] := by
  have hlink : Linked twoSaveCard True 5 :=
    ⟨by norm_num, by norm_num, Or.inl (by decide), fun _ => by decide, fun h => absurd trivial h⟩
  exact (threaded_last (by decide)).mpr ⟨hlink, rfl⟩

/-- The data of a chain starts with that of its first block. -/
theorem chainData_start {p : Pointer} {b : ℕ} {rest : List ℕ} (hchain : chainOf p b = b :: rest) {i : ℕ}
    (hi : i < blockSize) : dataOf (chainData p b) i = p (b * blockSize + i) := by
  have hlen : (blockData p b).length = blockSize := by simp [blockData, bytesOf]
  have hfirst := dataOf_blockData p b i hi
  unfold dataOf at hfirst ⊢
  rw [chainData, hchain, List.flatMap_cons, List.getD_append _ _ _ _ (by rwa [hlen]), hfirst]

theorem twoSaveCard_heads : ∀ head ∈ [1, 5], HeadSound twoSaveCard head := by
  have hsound : ∀ head rest, Threaded twoSaveCard True head (head :: rest) →
      filename (frame twoSaveCard head) = .ok (nameAt twoSaveCard head) →
      u32 (shift (frame twoSaveCard head) 4) = blockSize * (rest.length + 1) →
      twoSaveCard (head * blockSize) = 0x53 → twoSaveCard (head * blockSize + 1) = 0x43 →
      twoSaveCard (head * blockSize + 2) = 0x11 → HeadSound twoSaveCard head := by
    intro head rest hthread hname hsize h0 h1 h2
    have hchain := chainOf_eq hthread
    refine ⟨hchain ▸ hthread, hname, ?_, ?_⟩
    · rw [chainData_length, hchain, hsize]
      rfl
    · rw [presentable, chainData_length, hchain, chainData_start hchain (by decide),
        chainData_start hchain (by decide), chainData_start hchain (by decide), Nat.add_zero, h0, h1, h2]
      have hlong : 512 ≤ blockSize * (rest.length + 1) := by
        rw [blockSize]
        omega
      simp [hlong]
  simp only [List.forall_mem_cons, List.not_mem_nil, false_imp_iff, implies_true, and_true]
  exact ⟨hsound 1 [3, 2] twoSaveCard_thread (by decide) (by decide) (by decide) (by decide) (by decide),
    hsound 5 [] twoSaveCard_single (by decide) (by decide) (by decide) (by decide) (by decide)⟩

theorem twoSaveCard_chains : heads twoSaveCard = [1, 5] ∧ chainOf twoSaveCard 1 = [1, 3, 2] ∧
    chainOf twoSaveCard 5 = [5] := by
  have hheads : heads twoSaveCard = [1, 5] := by decide
  exact ⟨hheads, chainOf_eq twoSaveCard_thread, chainOf_eq twoSaveCard_single⟩

set_option maxRecDepth 2000 in
theorem twoSaveCard_sound : SoundCard twoSaveCard := by
  obtain ⟨hheads, hthree, hone⟩ := twoSaveCard_chains
  have hblocks : (heads twoSaveCard).flatMap (chainOf twoSaveCard) = [1, 3, 2, 5] := by
    rw [hheads, List.flatMap_cons, List.flatMap_singleton, hthree, hone]
    rfl
  refine ⟨by decide, by decide, ⟨?_, ?_, by simp, ?_, by simp⟩, ?_⟩
  · rw [hheads]
    exact twoSaveCard_heads
  · rw [hblocks]
    decide
  · rw [hheads]
    decide
  · rw [hblocks]
    decide

theorem twoSaveCard_data : dataOf (bytesOf cardSize twoSaveCard) = twoSaveCard := by
  apply dataOf_bytesOf
  intro i hi
  unfold cardSize at hi
  unfold twoSaveCard
  rw [if_neg (by omega), if_neg (by omega), if_neg (by omega), if_neg (by omega),
    if_neg (by omega), if_neg (by omega), if_neg (by omega)]
  split <;> first | omega | rfl

theorem twoSaveCard_size : (bytesOf cardSize twoSaveCard).length = cardSize := by
  rw [bytesOf, List.length_map, List.length_range]

theorem twoSaveCard_saves :
    (parse (bytesOf cardSize twoSaveCard)).saves = [saveAt twoSaveCard 1, saveAt twoSaveCard 5] := by
  rw [parse_whole twoSaveCard_size, twoSaveCard_data, parseData_saves twoSaveCard_sound, twoSaveCard_chains.1]
  rfl

theorem parse_partition_twoSaves : (parse (bytesOf cardSize twoSaveCard)).errors = [] ∧
    DirectoryPartition twoSaveCard (parse (bytesOf cardSize twoSaveCard)) ∧
      (parse (bytesOf cardSize twoSaveCard)).saves.map Save.blocks = [[1, 3, 2], [5]] := by
  have hvalid : (parse (bytesOf cardSize twoSaveCard)).errors = [] := by
    rw [parse_whole twoSaveCard_size, parseData_errors, twoSaveCard_data]
    exact twoSaveCard_sound
  have hpartition := parse_partition.1 _ twoSaveCard_size hvalid
  rw [twoSaveCard_data] at hpartition
  refine ⟨hvalid, hpartition, ?_⟩
  rw [twoSaveCard_saves]
  exact congrArg₂ (fun a b => [a, b]) twoSaveCard_chains.2.1 twoSaveCard_chains.2.2

end PsxRecomp.MemoryCard
