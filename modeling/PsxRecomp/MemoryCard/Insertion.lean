import Mathlib
import PsxRecomp.MemoryCard.Insert
import PsxRecomp.MemoryCard.Partition

/-! The edited image. The loop of `insert` is a list of patches on disjoint frames and blocks, so
the new frames form one chain with the data of the save, and everything else is unchanged. -/
namespace PsxRecomp.MemoryCard
open LinkedPath MemoryEdit
set_option autoImplicit false

/-! ## The loop as patches -/

/-- The free blocks hold the save. -/
structure Room (s : Save) (free : List ℕ) (count : ℕ) : Prop where
  nodup : free.Nodup
  slots : ∀ b ∈ free, 1 ≤ b ∧ b ≤ 15
  enough : count ≤ free.length
  positive : 0 < count
  name : s.name.length ≤ 20
  data : s.data.length = count * blockSize

def chunk (s : Save) (k : ℕ) : Bytes := (s.data.drop (k * blockSize)).take blockSize

section Patches
variable (s : Save) (free : List ℕ) (count : ℕ)

def blockPatches (k : ℕ) : List (Patch UInt8) :=
  [⟨free.getD k 0 * frameSize, frameSize, newFrame s free count k⟩,
    ⟨free.getD k 0 * blockSize, blockSize, dataOf (chunk s k)⟩]

variable {s free count} (hroom : Room s free count)
include hroom

theorem chunk_length {k : ℕ} (hk : k < count) : (chunk s k).length = blockSize := by
  have hle : (k + 1) * blockSize ≤ count * blockSize := Nat.mul_le_mul_right _ hk
  rw [Nat.succ_mul] at hle
  unfold chunk
  rw [List.length_take, List.length_drop, hroom.data]
  omega

theorem writeBlock_patches {k : ℕ} (hk : k < count) (out : Pointer) :
    writeBlock s free count k out = applyAll (blockPatches s free count k) out := by
  have hframe : editAt (free.getD k 0 * frameSize) (writeFrame s free count k) =
      Patch.apply ⟨free.getD k 0 * frameSize, frameSize, newFrame s free count k⟩ :=
    editAt_eq_patch _ (writeFrame_outside s free count k hroom.name)
      (writeFrame_inside s free count k hroom.name)
  have hdata : editAt (free.getD k 0 * blockSize) (copyFrom (chunk s k)) =
      Patch.apply ⟨free.getD k 0 * blockSize, blockSize, dataOf (chunk s k)⟩ := by
    have hlen := chunk_length hroom hk
    apply editAt_eq_patch
    · rw [← hlen]
      exact (copyFrom_local (chunk s k)).outside
    · intro m n hn
      exact if_pos (hlen ▸ hn)
  show editAt _ (copyFrom (chunk s k)) (editAt _ (writeFrame s free count k) out) = _
  rw [hframe, hdata]
  rfl

theorem writeBlocks_patches (n : ℕ) (hn : n ≤ count) (out : Pointer) :
    writeBlocks s free count n out =
      applyAll ((List.range n).flatMap (blockPatches s free count)) out := by
  induction n with
  | zero => rfl
  | succ n ih =>
    have hstep : writeBlocks s free count (n + 1) out =
        writeBlock s free count n (writeBlocks s free count n out) := by
      unfold writeBlocks
      rw [List.range_succ, List.foldl_append]
      rfl
    rw [hstep, ih (by omega), writeBlock_patches hroom (by omega), List.range_succ,
      List.flatMap_append, applyAll_append]
    simp

theorem getD_mem {k : ℕ} (hk : k < count) : free.getD k 0 ∈ free := by
  have hlt : k < free.length := hk.trans_le hroom.enough
  rw [List.getD_eq_getElem _ _ hlt]
  exact List.getElem_mem hlt

theorem getD_inj {j k : ℕ} (hj : j < count) (hk : k < count)
    (h : free.getD j 0 = free.getD k 0) : j = k := by
  have hj' : j < free.length := hj.trans_le hroom.enough
  have hk' : k < free.length := hk.trans_le hroom.enough
  rw [List.getD_eq_getElem _ _ hj', List.getD_eq_getElem _ _ hk'] at h
  exact (hroom.nodup.getElem_inj_iff).mp h

omit hroom in
theorem blockPatches_covers {k n : ℕ} {P : Patch UInt8} (hP : P ∈ blockPatches s free count k)
    (hn : P.covers n) :
    (free.getD k 0 * 128 ≤ n ∧ n < free.getD k 0 * 128 + 128) ∨
      (free.getD k 0 * 8192 ≤ n ∧ n < free.getD k 0 * 8192 + 8192) := by
  simp only [blockPatches, List.mem_cons, List.not_mem_nil, or_false] at hP
  rcases hP with rfl | rfl
  · exact Or.inl hn
  · exact Or.inr hn

theorem patches_disjoint :
    ((List.range count).flatMap (blockPatches s free count)).Pairwise Patch.Disjoint := by
  rw [List.pairwise_flatMap]
  constructor
  · intro k hk
    have hslot := hroom.slots _ (getD_mem hroom (List.mem_range.mp hk))
    unfold blockPatches
    rw [List.pairwise_pair]
    rintro n ⟨hframe, hblock⟩
    simp only [Patch.covers, frameSize, blockSize] at hframe hblock
    omega
  · apply List.Pairwise.imp_of_mem _ List.nodup_range
    intro j k hj hk hne P hP Q hQ n hboth
    have hj' := List.mem_range.mp hj
    have hk' := List.mem_range.mp hk
    have hdiff : free.getD j 0 ≠ free.getD k 0 := fun h => hne (getD_inj hroom hj' hk' h)
    have hslotj := hroom.slots _ (getD_mem hroom hj')
    have hslotk := hroom.slots _ (getD_mem hroom hk')
    have hcoverj := blockPatches_covers hP hboth.1
    have hcoverk := blockPatches_covers hQ hboth.2
    omega

/-! ## What the edited image holds -/

theorem edited_frame (p : Pointer) {k : ℕ} (hk : k < count) :
    SameFrame (frame (writeBlocks s free count count p) (free.getD k 0))
      (newFrame s free count k) := by
  intro i hi
  rw [writeBlocks_patches hroom count le_rfl]
  have hmem : (⟨free.getD k 0 * frameSize, frameSize, newFrame s free count k⟩ : Patch UInt8) ∈
      (List.range count).flatMap (blockPatches s free count) :=
    List.mem_flatMap.mpr ⟨k, List.mem_range.mpr hk, List.mem_cons_self⟩
  exact applyAll_inside (patches_disjoint hroom) hmem p i hi

theorem edited_block (p : Pointer) {k : ℕ} (hk : k < count) :
    blockData (writeBlocks s free count count p) (free.getD k 0) = chunk s k := by
  have hlen := chunk_length hroom hk
  rw [writeBlocks_patches hroom count le_rfl]
  have hmem : (⟨free.getD k 0 * blockSize, blockSize, dataOf (chunk s k)⟩ : Patch UInt8) ∈
      (List.range count).flatMap (blockPatches s free count) :=
    List.mem_flatMap.mpr ⟨k, List.mem_range.mpr hk, List.mem_cons_of_mem _ List.mem_cons_self⟩
  apply List.ext_getElem
  · rw [blockData_length, hlen]
  · intro i hi hi'
    rw [blockData_length] at hi
    rw [← List.getD_eq_getElem _ 0, ← List.getD_eq_getElem _ 0]
    refine (dataOf_blockData _ _ i hi).trans ?_
    exact applyAll_inside (patches_disjoint hroom) hmem p i hi

theorem edited_outside (p : Pointer) (n : ℕ)
    (h : ∀ b ∈ free.take count, ¬(b * 128 ≤ n ∧ n < b * 128 + 128) ∧
      ¬(b * 8192 ≤ n ∧ n < b * 8192 + 8192)) :
    writeBlocks s free count count p n = p n := by
  rw [writeBlocks_patches hroom count le_rfl]
  apply applyAll_outside
  intro P hP hcovers
  obtain ⟨k, hk, hP⟩ := List.mem_flatMap.mp hP
  have hk' := List.mem_range.mp hk
  have hmem : free.getD k 0 ∈ free.take count := by
    rw [List.getD_eq_getElem _ _ (hk'.trans_le hroom.enough), List.mem_take_iff_getElem]
    exact ⟨k, by have := hroom.enough; omega, rfl⟩
  obtain ⟨hframe, hblock⟩ := h _ hmem
  rcases blockPatches_covers hP hcovers with hcov | hcov
  · exact hframe hcov
  · exact hblock hcov

end Patches

/-! ## Slots that were not touched -/

/-- The frame and the block of a slot are the same. -/
structure SameSlot (p q : Pointer) (b : ℕ) : Prop where
  frame : SameFrame (frame q b) (frame p b)
  block : blockData q b = blockData p b

section Congruence
variable {p q : Pointer} {b head : ℕ} {L : List ℕ} {first : Prop}

theorem state_congr (h : SameFrame (frame q b) (frame p b)) : state q b = state p b := by
  have hword := u32_congr h 0 (by omega)
  rwa [shift_zero, shift_zero] at hword

theorem nextPointer_congr (h : SameFrame (frame q b) (frame p b)) :
    nextPointer q b = nextPointer p b := u16_congr h 8 (by omega)

theorem frameErrors_congr (h : SameFrame (frame q b) (frame p b)) :
    frameErrors q b = frameErrors p b := by
  unfold frameErrors
  rw [state_congr h, checksum_congr h, h 127 (by decide)]

theorem Linked.congr (h : Linked p first b) (hsame : SameFrame (frame q b) (frame p b)) :
    Linked q first b := by
  refine ⟨h.low, h.high, ?_, ?_, ?_⟩
  · rw [nextPointer_congr hsame]
    exact h.next
  · rw [state_congr hsame]
    exact h.headState
  · rw [state_congr hsame, nextPointer_congr hsame]
    exact h.tailState

theorem Threaded.congr (h : Threaded p first head L)
    (hsame : ∀ b ∈ L, SameFrame (frame q b) (frame p b)) : Threaded q first head L := by
  refine ⟨h.path.congr fun b hb => ?_, h.nodup, h.head.congr (hsame head h.path.start_mem),
    fun d hd => (h.tail d hd).congr (hsame d (List.mem_of_mem_tail hd))⟩
  rw [successor, successor, nextPointer_congr (hsame b hb)]

theorem HeadSound.chainOf_congr (h : HeadSound p head)
    (hsame : ∀ b ∈ chainOf p head, SameSlot p q b) : chainOf q head = chainOf p head :=
  chainOf_eq (h.chain.congr fun b hb => (hsame b hb).frame)

theorem HeadSound.chainData_congr (h : HeadSound p head)
    (hsame : ∀ b ∈ chainOf p head, SameSlot p q b) : chainData q head = chainData p head := by
  unfold chainData
  rw [h.chainOf_congr hsame]
  exact List.flatMap_congr fun b hb => (hsame b hb).block

/-- A head whose slots are the same is read the same. -/
theorem HeadSound.congr (h : HeadSound p head) (hsame : ∀ b ∈ chainOf p head, SameSlot p q b) :
    HeadSound q head ∧ saveAt q head = saveAt p head := by
  have hframe := (hsame head h.chain.path.start_mem).frame
  have hchain := h.chainOf_congr hsame
  have hdata := h.chainData_congr hsame
  have hname : nameAt q head = nameAt p head := nameField_congr hframe
  constructor
  · refine ⟨?_, ?_, ?_, ?_⟩
    · rw [hchain]
      exact h.chain.congr fun b hb => (hsame b hb).frame
    · rw [filename_congr hframe, hname]
      exact h.name
    · rw [u32_congr hframe 4 (by omega), hdata]
      exact h.size
    · rw [hdata]
      exact h.header
  · have hdirectory : (fun n : Fin 128 => frame q head n) = fun n : Fin 128 => frame p head n := by
      funext n
      exact hframe n n.isLt
    unfold saveAt freshSave
    rw [hname, hchain, hdata, hdirectory]

end Congruence

/-! ## The new chain -/

theorem filename_of_nameField {d d' : Pointer} {name : Bytes} (h : filename d = .ok name)
    (hsame : nameField d' = name) : filename d' = .ok name := by
  obtain rfl := filename_ok h
  unfold filename at h ⊢
  rw [hsame]
  exact h

theorem padded_name (name : Bytes) (h : name.length ≤ 21) :
    ((List.range 21).map fun n => if n < name.length then dataOf name n else 0) =
      name ++ List.replicate (21 - name.length) 0 := by
  apply List.ext_getElem
  · simp
    omega
  · intro n hn _
    rw [List.length_map, List.length_range] at hn
    rw [List.getElem_map, List.getElem_range, List.getElem_append]
    split_ifs with hlt
    · exact List.getD_eq_getElem _ _ hlt
    · rw [List.getElem_replicate]

theorem nameField_ne_zero (d : Pointer) : ∀ c ∈ nameField d, c ≠ 0 := by
  intro c hc
  simpa using List.mem_takeWhile_imp hc

section Chain
variable {s : Save} {free : List ℕ} {count : ℕ} (hroom : Room s free count)
include hroom

theorem nameAt_edited (p : Pointer) (hname : filename (directoryData s) = .ok s.name) :
    nameAt (writeBlocks s free count count p) (free.getD 0 0) = s.name := by
  have hlen := hroom.name
  have hzero : ∀ c ∈ s.name, decide (c ≠ 0) = true := by
    rw [filename_ok hname]
    exact fun c hc => decide_eq_true (nameField_ne_zero _ c hc)
  have hbytes : (List.range 21).map (shift (newFrame s free count 0) 10) =
      s.name ++ List.replicate (21 - s.name.length) 0 := by
    rw [← padded_name s.name (by omega)]
    apply List.map_congr_left
    intro n hn
    exact newFrame_nameByte s free count n (List.mem_range.mp hn)
  have hpad : 21 - s.name.length = 20 - s.name.length + 1 := by omega
  rw [nameAt, nameField_congr (edited_frame hroom p hroom.positive), nameField, hbytes,
    List.takeWhile_append_of_pos hzero, hpad, List.replicate_succ]
  simp

theorem take_eq_map : free.take count = (List.range count).map fun k => free.getD k 0 := by
  have henough := hroom.enough
  apply List.ext_getElem
  · rw [List.length_take, List.length_map, List.length_range]
    omega
  · intro k hk _
    rw [List.length_take] at hk
    rw [List.getElem_take, List.getElem_map, List.getElem_range]
    exact (List.getD_eq_getElem _ _ (by omega)).symm

theorem mem_take {b : ℕ} : b ∈ free.take count ↔ ∃ k < count, free.getD k 0 = b := by
  rw [take_eq_map hroom, List.mem_map]
  simp only [List.mem_range]

theorem nextWord_lt (k : ℕ) : nextWord free count k < 2 ^ 16 := by
  unfold nextWord
  split_ifs with h
  · have := hroom.slots _ (getD_mem hroom h)
    omega
  · norm_num

theorem state_edited (p : Pointer) {k : ℕ} (hk : k < count) :
    state (writeBlocks s free count count p) (free.getD k 0) = stateWord count k := by
  have h := u32_congr (edited_frame hroom p hk) 0 (by omega)
  rw [shift_zero, shift_zero] at h
  rw [state, h, newFrame_state]

theorem nextPointer_edited (p : Pointer) {k : ℕ} (hk : k < count) :
    nextPointer (writeBlocks s free count count p) (free.getD k 0) = nextWord free count k := by
  rw [nextPointer, u16_congr (edited_frame hroom p hk) 8 (by omega)]
  exact newFrame_next s free count k (nextWord_lt hroom k)

theorem successor_edited (p : Pointer) {k : ℕ} (hk : k < count) :
    successor (writeBlocks s free count count p) (free.getD k 0) =
      if k + 1 < count then some (free.getD (k + 1) 0) else none := by
  rw [successor, nextPointer_edited hroom p hk, nextWord]
  by_cases hmore : k + 1 < count
  · have hslot := hroom.slots _ (getD_mem hroom hmore)
    rw [if_pos hmore, if_pos hmore, if_neg (by omega), Nat.sub_add_cancel hslot.1]
  · rw [if_neg hmore, if_neg hmore, if_pos rfl]

theorem linked_edited (p : Pointer) {k : ℕ} (hk : k < count) (first : Prop) (hfirst : first ↔ k = 0) :
    Linked (writeBlocks s free count count p) first (free.getD k 0) := by
  have hslot := hroom.slots _ (getD_mem hroom hk)
  refine ⟨hslot.1, hslot.2, ?_, fun hf => ?_, fun hf => ?_⟩
  · rw [nextPointer_edited hroom p hk, nextWord]
    split_ifs with hmore
    · have := hroom.slots _ (getD_mem hroom hmore)
      omega
    · exact Or.inl rfl
  · rw [state_edited hroom p hk, stateWord, if_pos (hfirst.mp hf)]
  · rw [state_edited hroom p hk, nextPointer_edited hroom p hk, stateWord,
      if_neg (fun h => hf (hfirst.mpr h)), continuationState, nextWord]
    by_cases hmore : k + 1 < count
    · have := hroom.slots _ (getD_mem hroom hmore)
      rw [if_neg (by omega), if_pos hmore, if_neg (by omega)]
    · rw [if_pos (by omega), if_neg hmore, if_pos rfl]

/-- The new frames form one chain, from the first free block on. -/
theorem threaded_edited (p : Pointer) :
    Threaded (writeBlocks s free count count p) True (free.getD 0 0) (free.take count) := by
  have hpos := hroom.positive
  have hlen : ((List.range count).map fun k => free.getD k 0).length = count := by simp
  refine ⟨?_, hroom.nodup.sublist (List.take_sublist _ _), ?_, fun d hd => ?_⟩
  · rw [take_eq_map hroom]
    apply isPath_of_links
    · obtain ⟨n, rfl⟩ : ∃ n, count = n + 1 := ⟨count - 1, by omega⟩
      rw [List.range_succ_eq_map]
      rfl
    · intro k hk
      rw [hlen] at hk
      rw [List.getElem_map, List.getElem_range, successor_edited hroom p hk]
      split_ifs with hmore
      · rw [List.getElem?_map, List.getElem?_range hmore]
        rfl
      · exact (List.getElem?_eq_none (by omega)).symm
  · exact linked_edited hroom p hpos True (by simp)
  · rw [take_eq_map hroom] at hd
    obtain ⟨i, hi, rfl⟩ := List.getElem_of_mem hd
    rw [List.length_tail, hlen] at hi
    rw [List.getElem_tail, List.getElem_map, List.getElem_range]
    exact linked_edited hroom p (by omega) False (by simp)

omit hroom in
theorem chunks_join (n : ℕ) : (List.range n).flatMap (chunk s) = s.data.take (n * blockSize) := by
  induction n with
  | zero => simp
  | succ n ih =>
    rw [List.range_succ, List.flatMap_append, ih, Nat.succ_mul, List.take_add]
    simp [chunk]

theorem chainData_edited (p : Pointer) :
    chainData (writeBlocks s free count count p) (free.getD 0 0) = s.data := by
  rw [chainData, chainOf_eq (threaded_edited hroom p), take_eq_map hroom, List.flatMap_map]
  have hblocks : ∀ k ∈ List.range count,
      blockData (writeBlocks s free count count p) (free.getD k 0) = chunk s k :=
    fun k hk => edited_block hroom p (List.mem_range.mp hk)
  rw [List.flatMap_congr hblocks, chunks_join, ← hroom.data, List.take_length]

end Chain

end PsxRecomp.MemoryCard
