import Mathlib
import PsxRecomp.MemoryCard.Insertion

/-! Inserting into a sound card gives a sound card: the new head joins the old ones, which are
read as before, and the free blocks shrink by the blocks of the save. -/
namespace PsxRecomp.MemoryCard
open LinkedPath MemoryEdit
set_option autoImplicit false

/-! ## The edited card -/

def freeSlots (p : Pointer) : List ℕ := slots.filter fun b => freeState (state p b)

/-- A save that fits a card and has a name of its own. -/
structure Fitting (p : Pointer) (s : Save) (count : ℕ) : Prop where
  room : Room s (freeSlots p) count
  name : filename (directoryData s) = .ok s.name
  unused : ∀ h ∈ heads p, nameAt p h ≠ s.name
  header : presentable s.data = true

section Edited
variable {p : Pointer} {s : Save} {count : ℕ}

theorem mem_freeSlots {b : ℕ} : b ∈ freeSlots p ↔ (1 ≤ b ∧ b ≤ 15) ∧ freeState (state p b) = true := by
  rw [freeSlots, List.mem_filter, mem_slots]

theorem freeSlots_nodup : (freeSlots p).Nodup := by
  have hslots : slots.Nodup := List.nodup_range'
  exact hslots.filter _

/-- The image after the loop of `insert`. -/
def edited (p : Pointer) (s : Save) (count : ℕ) : Pointer :=
  writeBlocks s (freeSlots p) count count p

/-- The head of the new chain. -/
def newHead (p : Pointer) : ℕ := (freeSlots p).getD 0 0

variable (hroom : Room s (freeSlots p) count)
include hroom

theorem taken_slot {b : ℕ} (hb : b ∈ (freeSlots p).take count) : 1 ≤ b ∧ b ≤ 15 :=
  hroom.slots b (List.mem_of_mem_take hb)

theorem edited_same {b : ℕ} (hlow : 1 ≤ b) (hhigh : b ≤ 15)
    (hb : b ∉ (freeSlots p).take count) : SameSlot p (edited p s count) b := by
  have hother : ∀ d ∈ (freeSlots p).take count, d ≠ b := fun d hd heq => hb (heq ▸ hd)
  constructor
  · intro i hi
    apply edited_outside hroom
    intro d hd
    have hne := hother d hd
    have hslot := taken_slot hroom hd
    simp only [frameSize] at hi ⊢
    omega
  · unfold blockData bytesOf
    apply List.map_congr_left
    intro i hi
    rw [List.mem_range] at hi
    apply edited_outside hroom
    intro d hd
    have hne := hother d hd
    have hslot := taken_slot hroom hd
    simp only [blockSize] at hi ⊢
    omega

/-- The header frame and the frames behind the directory are out of reach. -/
theorem edited_frame_other {b : ℕ} (hb : b = 0 ∨ (16 ≤ b ∧ b < 64)) :
    SameFrame (frame (edited p s count) b) (frame p b) := by
  intro i hi
  apply edited_outside hroom
  intro d hd
  have hslot := taken_slot hroom hd
  simp only [frameSize] at hi ⊢
  omega

theorem edited_beyond {n : ℕ} (hn : cardSize ≤ n) : edited p s count n = p n := by
  apply edited_outside hroom
  intro d hd
  have hslot := taken_slot hroom hd
  simp only [cardSize] at hn
  omega

theorem taken_active {b : ℕ} (hb : b ∈ (freeSlots p).take count) :
    activeState (state (edited p s count) b) = true := by
  obtain ⟨k, hk, rfl⟩ := (mem_take hroom).mp hb
  rw [edited, state_edited hroom p hk, stateWord]
  split_ifs <;> rfl

theorem taken_headState {b : ℕ} (hb : b ∈ (freeSlots p).take count) :
    state (edited p s count) b = 0x51 ↔ b = newHead p := by
  obtain ⟨k, hk, rfl⟩ := (mem_take hroom).mp hb
  rw [edited, state_edited hroom p hk, stateWord, newHead]
  constructor
  · intro h
    by_contra hne
    have hz : k ≠ 0 := fun hz => hne (by rw [hz])
    rw [if_neg hz] at h
    split_ifs at h <;> cases h
  · intro h
    rw [if_pos (getD_inj hroom hk hroom.positive h)]

theorem newHead_taken : newHead p ∈ (freeSlots p).take count :=
  (mem_take hroom).mpr ⟨0, hroom.positive, rfl⟩

omit hroom in
theorem free_not_head {b : ℕ} (hb : b ∈ (freeSlots p).take count) : b ∉ heads p := by
  intro hhead
  have hfree := (mem_freeSlots.mp (List.mem_of_mem_take hb)).2
  rw [(mem_heads.mp hhead).2] at hfree
  exact absurd hfree (by decide)

theorem heads_edited : (heads (edited p s count)).Perm (newHead p :: heads p) := by
  have hslots : slots.Nodup := List.nodup_range'
  have hnew := newHead_taken hroom
  have hnodup : (newHead p :: heads p).Nodup :=
    List.nodup_cons.mpr ⟨free_not_head hnew, hslots.filter _⟩
  rw [heads, List.perm_ext_iff_of_nodup (hslots.filter _) hnodup]
  intro b
  rw [← heads, List.mem_cons, mem_heads]
  by_cases hb : b ∈ (freeSlots p).take count
  · rw [taken_headState hroom hb]
    have hnot := free_not_head hb
    have hslot := taken_slot hroom hb
    tauto
  · have hne : b ≠ newHead p := fun h => hb (h ▸ hnew)
    constructor
    · rintro ⟨hslot, hstate⟩
      rw [state_congr (edited_same hroom hslot.1 hslot.2 hb).frame] at hstate
      exact Or.inr (mem_heads.mpr ⟨hslot, hstate⟩)
    · intro h
      obtain ⟨hslot, hstate⟩ := mem_heads.mp (h.resolve_left hne)
      rw [state_congr (edited_same hroom hslot.1 hslot.2 hb).frame]
      exact ⟨hslot, hstate⟩

/-! ## The old saves -/

variable (hsound : SoundCard p)
include hsound

/-- The blocks of an old save were not free. -/
theorem old_blocks {h b : ℕ} (hh : h ∈ heads p) (hb : b ∈ chainOf p h) :
    b ∉ (freeSlots p).take count ∧ SameSlot p (edited p s count) b := by
  have hchain := (hsound.heads.sound h hh).chain
  have hslot := hchain.mem_slots b hb
  have hnot : b ∉ (freeSlots p).take count := by
    intro hmem
    have hfree := (mem_freeSlots.mp (List.mem_of_mem_take hmem)).2
    rw [active_not_free (hchain.active b hb)] at hfree
    cases hfree
  exact ⟨hnot, edited_same hroom hslot.1 hslot.2 hnot⟩

theorem old_head {h : ℕ} (hh : h ∈ heads p) :
    HeadSound (edited p s count) h ∧ saveAt (edited p s count) h = saveAt p h ∧
      chainOf (edited p s count) h = chainOf p h ∧ nameAt (edited p s count) h = nameAt p h := by
  have hhead := hsound.heads.sound h hh
  have hsame := fun b hb => (old_blocks (b := b) hroom hsound hh hb).2
  have hcongr := hhead.congr hsame
  exact ⟨hcongr.1, hcongr.2, hhead.chainOf_congr hsame,
    nameField_congr (hsame h hhead.chain.path.start_mem).frame⟩

theorem edited_chains :
    ((heads (edited p s count)).flatMap (chainOf (edited p s count))).Perm
      ((freeSlots p).take count ++ (heads p).flatMap (chainOf p)) := by
  have hold : (heads p).flatMap (chainOf (edited p s count)) = (heads p).flatMap (chainOf p) :=
    List.flatMap_congr fun h hh => (old_head hroom hsound hh).2.2.1
  have hnew : chainOf (edited p s count) (newHead p) = (freeSlots p).take count :=
    chainOf_eq (threaded_edited hroom p)
  have hperm := (heads_edited hroom).flatMap_right (chainOf (edited p s count))
  rwa [List.flatMap_cons, hold, hnew] at hperm

omit hsound in
theorem edited_frameErrors (hframes : ∀ b ∈ slots, frameErrors p b = []) :
    ∀ b ∈ slots, frameErrors (edited p s count) b = [] := by
  intro b hb
  have hslot := mem_slots.mp hb
  by_cases hmem : b ∈ (freeSlots p).take count
  · obtain ⟨k, hk, rfl⟩ := (mem_take hroom).mp hmem
    have hframe := edited_frame hroom p hk
    refine frameErrors_nil.mpr ⟨?_, Or.inr (taken_active hroom hmem)⟩
    rw [edited, hframe 127 (by decide), checksum_congr hframe]
    exact newFrame_sealed s (freeSlots p) count k
  · rw [frameErrors_congr (edited_same hroom hslot.1 hslot.2 hmem).frame]
    exact hframes b hb

end Edited

section Sound
variable {p : Pointer} {s : Save} {count : ℕ}

theorem newHead_sound (hfit : Fitting p s count) : HeadSound (edited p s count) (newHead p) := by
  have hroom := hfit.room
  have hthread : Threaded (edited p s count) True (newHead p) ((freeSlots p).take count) :=
    threaded_edited hroom p
  have hdata : chainData (edited p s count) (newHead p) = s.data := chainData_edited hroom p
  have hname : nameAt (edited p s count) (newHead p) = s.name := nameAt_edited hroom p hfit.name
  have hcount : count ≤ 15 := by
    have hle := hroom.enough.trans (List.length_filter_le _ slots)
    rwa [slots, List.length_range'] at hle
  refine ⟨?_, ?_, ?_, ?_⟩
  · rwa [chainOf_eq hthread]
  · rw [hname]
    exact filename_of_nameField hfit.name hname
  · have hlt : s.data.length < 2 ^ 32 := by
      rw [hroom.data, blockSize]
      omega
    rw [hdata, ← newFrame_size s (freeSlots p) count hlt]
    exact u32_congr (edited_frame hroom p hroom.positive) 4 (by omega)
  · rw [hdata]
    exact hfit.header

/-- A fitting save leaves the card sound. -/
theorem sound_edited (hsound : SoundCard p) (hfit : Fitting p s count) :
    SoundCard (edited p s count) := by
  have hroom := hfit.room
  have hheads := heads_edited hroom
  have hchains := edited_chains hroom hsound
  refine ⟨?_, edited_frameErrors hroom hsound.frames, ⟨?_, ?_, ?_, ?_, ?_⟩, ?_⟩
  · have hzero : SameFrame (edited p s count) p := by
      have h := edited_frame_other hroom (b := 0) (Or.inl rfl)
      unfold frame at h
      rwa [Nat.zero_mul, shift_zero, shift_zero] at h
    have hheader := hsound.header
    unfold headerErrors at hheader ⊢
    rwa [hzero 0 (by decide), hzero 1 (by decide), hzero 127 (by decide), checksum_congr hzero]
  · intro h hh
    rcases List.mem_cons.mp (hheads.mem_iff.mp hh) with rfl | hh
    · exact newHead_sound hfit
    · exact (old_head hroom hsound hh).1
  · rw [hchains.nodup_iff, List.nodup_append]
    refine ⟨hroom.nodup.sublist (List.take_sublist _ _), hsound.heads.blocks, fun b hb d hd heq => ?_⟩
    obtain ⟨h, hh, hmem⟩ := List.mem_flatMap.mp hd
    exact (old_blocks hroom hsound hh hmem).1 (heq ▸ hb)
  · exact fun b _ => Finset.notMem_empty b
  · have hold : (heads p).map (nameAt (edited p s count)) = (heads p).map (nameAt p) :=
      List.map_congr_left fun h hh => (old_head hroom hsound hh).2.2.2
    rw [(hheads.map _).nodup_iff, List.map_cons, hold, edited, newHead,
      nameAt_edited hroom p hfit.name, List.nodup_cons]
    refine ⟨fun hmem => ?_, hsound.heads.names⟩
    obtain ⟨h, hh, heq⟩ := List.mem_map.mp hmem
    exact hfit.unused h hh heq
  · exact fun h _ => Finset.notMem_empty _
  · intro b hb hactive
    rw [hchains.mem_iff, List.mem_append]
    by_cases hmem : b ∈ (freeSlots p).take count
    · exact Or.inl hmem
    · have hslot := mem_slots.mp hb
      rw [state_congr (edited_same hroom hslot.1 hslot.2 hmem).frame] at hactive
      exact Or.inr (hsound.covered b hb hactive)

theorem edited_remap (hroom : Room s (freeSlots p) count) :
    remapWarnings (edited p s count) = remapWarnings p := by
  have hsame : ∀ f ∈ List.range' 16 20,
      u32 (frame (edited p s count) f) = u32 (frame p f) := by
    intro f hf
    rw [List.mem_range'_1] at hf
    have hword := u32_congr (edited_frame_other hroom (b := f) (Or.inr ⟨hf.1, by omega⟩)) 0 (by omega)
    rwa [shift_zero, shift_zero] at hword
  have hany : remapped (edited p s count) = remapped p := by
    unfold remapped
    rw [Bool.eq_iff_iff, List.any_eq_true, List.any_eq_true]
    refine exists_congr fun f => and_congr_right fun hf => ?_
    rw [hsame f hf]
  unfold remapWarnings
  rw [hany]

end Sound

/-! ## The preconditions of `insert` -/

structure Insertable (destination : Card) (s : Save) : Prop where
  named : s.name ≠ [] ∧ s.name.length ≤ 20
  identity : filename (directoryData s) = .ok s.name
  headState : u32 (directoryData s) = 0x51
  sealed : directoryData s 127 = checksum (directoryData s)
  unused : ∀ other ∈ destination.saves, other.name ≠ s.name
  data : s.data ≠ []
  whole : s.data.length % blockSize = 0
  bounded : s.data.length ≤ 15 * blockSize
  header : presentable s.data = true
  size : u32 (shift (directoryData s) 4) = s.data.length
  enough : s.data.length / blockSize ≤ (freeList destination).length

section Insert
variable {destination : Card} {s : Save}

/-- Behind its own checks only the second parse can make `insert` fail. -/
theorem insert_checked (heditable : destination.editable = true) (h : Insertable destination s) :
    destination.insert s =
      if (parse (editedImage destination s)).editable = false then
        .error "Edited card failed structural validation"
      else .ok (parse (editedImage destination s)) := by
  have hunused : destination.saves.any (fun other => decide (other.name = s.name)) = false := by
    rw [List.any_eq_false]
    intro other hother
    simpa using h.unused other hother
  have hpresented : presentation s = .ok (presented s) := presentation_ok.mpr ⟨h.header, rfl⟩
  have hnamed : ¬(s.name = [] ∨ s.name.length > 20) :=
    not_or.mpr ⟨h.named.1, Nat.not_lt.mpr h.named.2⟩
  have hsealed : ¬(s.name ≠ s.name ∨ u32 (directoryData s) ≠ 0x51 ∨
      directoryData s 127 ≠ checksum (directoryData s)) := by
    simp [h.headState, h.sealed]
  have hdata : ¬(s.data = [] ∨ s.data.length % blockSize ≠ 0 ∨ s.data.length > 15 * blockSize) := by
    simp [h.data, h.whole, h.bounded]
  unfold Card.insert
  dsimp only
  rw [if_neg (by simp [heditable]), if_neg hnamed, h.identity]
  dsimp only
  rw [if_neg hsealed, if_neg (by simp [hunused]), if_neg hdata, hpresented]
  dsimp only
  rw [if_neg (not_not.mpr h.size), if_neg (Nat.not_lt.mpr h.enough)]

theorem room_of_insertable (h : Insertable destination s) :
    Room s (freeList destination) (s.data.length / blockSize) := by
  have hslots : slots.Nodup := List.nodup_range'
  have hdiv := Nat.div_add_mod s.data.length blockSize
  rw [h.whole, Nat.add_zero, Nat.mul_comm] at hdiv
  refine ⟨hslots.filter _, fun b hb => ?_, h.enough, ?_, h.named.2, hdiv.symm⟩
  · exact mem_slots.mp (List.mem_filter.mp hb).1
  · rw [Nat.pos_iff_ne_zero]
    intro hzero
    rw [hzero, Nat.zero_mul] at hdiv
    exact h.data (List.length_eq_zero_iff.mp hdiv.symm)

end Insert

section Parsed
variable {input : Bytes} {s : Save}

theorem freeList_parseData (image : Bytes) (p : Pointer) :
    freeList (parseData image p) = freeSlots p := by
  unfold freeList freeSlots
  apply List.filter_congr
  intro b hb
  have hslot := mem_slots.mp hb
  have hback : b - 1 + 1 = b := Nat.sub_add_cancel hslot.1
  rw [occupiedAt, dif_pos (by omega)]
  show (!!freeState (state p (b - 1 + 1))) = _
  rw [Bool.not_not, hback]

theorem freeBlocks_parseData (image : Bytes) (p : Pointer) :
    (parseData image p).freeBlocks = (freeSlots p).length := List.countP_eq_length_filter

theorem freeBlocks_edited {p : Pointer} {count : ℕ} (hroom : Room s (freeSlots p) count) :
    (freeSlots (edited p s count)).length + count = (freeSlots p).length := by
  have hperm : ((freeSlots p).take count ++ freeSlots (edited p s count)).Perm (freeSlots p) := by
    rw [List.perm_ext_iff_of_nodup ?_ freeSlots_nodup]
    · intro b
      rw [List.mem_append, mem_freeSlots]
      by_cases hmem : b ∈ (freeSlots p).take count
      · have hfree := List.mem_of_mem_take hmem
        simp [hmem, hfree]
      · rw [← mem_freeSlots]
        have hiff : b ∈ freeSlots (edited p s count) ↔ b ∈ freeSlots p := by
          rw [mem_freeSlots, mem_freeSlots]
          refine and_congr_right fun hslot => ?_
          rw [state_congr (edited_same hroom hslot.1 hslot.2 hmem).frame]
        rw [hiff]
        exact or_iff_right hmem
    · rw [List.nodup_append]
      refine ⟨freeSlots_nodup.sublist (List.take_sublist _ _), freeSlots_nodup, ?_⟩
      rintro b hb d hd rfl
      have hactive := taken_active hroom hb
      have hfree := (mem_freeSlots.mp hd).2
      rw [active_not_free hactive] at hfree
      cases hfree
  have hlen := hperm.length_eq
  have henough := hroom.enough
  rw [List.length_append, List.length_take, Nat.min_eq_left henough] at hlen
  omega

end Parsed

/-! ## Inserting -/

/-- What inserting a save makes of a card. -/
structure Inserted (destination : Card) (s : Save) (result : Card) : Prop where
  editable : result.editable = true
  saves : ∃ new, result.saves.Perm (new :: destination.saves) ∧ new.name = s.name ∧ new.data = s.data
  free : result.freeBlocks + s.data.length / blockSize = destination.freeBlocks
  unchanged : ∀ b, 1 ≤ b → b ≤ 15 → occupiedAt destination b = true →
    SameSlot (dataOf destination.image) (dataOf result.image) b

section Parsed
variable {input : Bytes} {s : Save} (hsize : input.length = cardSize)
  (hroom : Room s (freeSlots (dataOf input)) (s.data.length / blockSize))
include hsize hroom

omit hroom in
theorem editedImage_eq : editedImage (parse input) s =
    bytesOf cardSize (edited (dataOf input) s (s.data.length / blockSize)) := by
  unfold editedImage edited
  rw [parse_whole hsize, freeList_parseData]
  show bytesOf input.length _ = _
  rw [hsize]
  rfl

theorem editedImage_data : dataOf (editedImage (parse input) s) =
    edited (dataOf input) s (s.data.length / blockSize) := by
  rw [editedImage_eq hsize]
  apply dataOf_bytesOf
  intro i hi
  rw [edited_beyond hroom hi, dataOf_beyond (by omega)]

omit hroom in
theorem editedImage_length : (editedImage (parse input) s).length = cardSize := by
  rw [editedImage_eq hsize, bytesOf, List.length_map, List.length_range]

end Parsed

/-- The parsed image of a fitting save is what inserting promises. -/
theorem inserted_of_fitting {input : Bytes} {s : Save} (hsize : input.length = cardSize)
    (hsound : SoundCard (dataOf input)) (hremap : remapped (dataOf input) = false)
    (hfit : Fitting (dataOf input) s (s.data.length / blockSize)) :
    Inserted (parse input) s (parse (editedImage (parse input) s)) := by
  have hroom := hfit.room
  have hdata := editedImage_data hsize hroom
  have hlen : (editedImage (parse input) s).length = cardSize := editedImage_length hsize
  have hsound' := sound_edited hsound hfit
  refine ⟨?_, ?_, ?_, ?_⟩
  · rw [parse_editable, hdata]
    refine ⟨hlen, hsound', ?_⟩
    rw [← remapWarnings_nil, edited_remap hroom, remapWarnings_nil]
    exact hremap
  · have hold : (heads (dataOf input)).map
        (saveAt (edited (dataOf input) s (s.data.length / blockSize))) =
        (heads (dataOf input)).map (saveAt (dataOf input)) :=
      List.map_congr_left fun h hh => (old_head hroom hsound hh).2.1
    refine ⟨saveAt (edited (dataOf input) s (s.data.length / blockSize)) (newHead (dataOf input)),
      ?_, nameAt_edited hroom _ hfit.name, chainData_edited hroom _⟩
    rw [parse_whole hlen, hdata, parseData_saves hsound', parse_whole hsize,
      parseData_saves hsound, ← hold, ← List.map_cons]
    exact (heads_edited hroom).map _
  · rw [parse_whole hlen, hdata, freeBlocks_parseData, parse_whole hsize, freeBlocks_parseData]
    exact freeBlocks_edited hroom
  · intro b hlow hhigh hocc
    have hnot : b ∉ (freeSlots (dataOf input)).take (s.data.length / blockSize) := by
      intro hmem
      have hfree := List.mem_of_mem_take hmem
      rw [← freeList_parseData input, ← parse_whole hsize] at hfree
      have hfalse := (List.mem_filter.mp hfree).2
      rw [hocc] at hfalse
      cases hfalse
    have hsame := edited_same hroom hlow hhigh hnot
    have himage : (parse input).image = input := by
      rw [parse_whole hsize]
      rfl
    have himage' : (parse (editedImage (parse input) s)).image = editedImage (parse input) s := by
      rw [parse_whole hlen]
      rfl
    rw [himage, himage', hdata]
    exact hsame

/-- Inserting into an editable card that was parsed always succeeds, adds exactly the save, and
leaves the frames and blocks that were not free alone. -/
theorem insert_parsed (input : Bytes) (s : Save) (heditable : (parse input).editable = true)
    (hs : Insertable (parse input) s) :
    ∃ result, (parse input).insert s = .ok result ∧ Inserted (parse input) s result := by
  obtain ⟨hsize, hsound, hremap⟩ := parse_editable.mp heditable
  have hroom := room_of_insertable hs
  rw [parse_whole hsize, freeList_parseData] at hroom
  have hnames : ∀ h ∈ heads (dataOf input), nameAt (dataOf input) h ≠ s.name := by
    intro h hh
    have hmem : saveAt (dataOf input) h ∈ (parse input).saves := by
      rw [parse_whole hsize, parseData_saves hsound]
      exact List.mem_map_of_mem hh
    exact hs.unused _ hmem
  have hinserted := inserted_of_fitting hsize hsound hremap ⟨hroom, hs.identity, hnames, hs.header⟩
  refine ⟨parse (editedImage (parse input) s), ?_, hinserted⟩
  rw [insert_checked heditable hs, if_neg (by simp [hinserted.editable])]

/-! ## A card that was never parsed -/

/-- A save of one block named "B". -/
def sampleSave : Save where
  name := [0x42]
  region := "Unknown"
  titleSjis := []
  data := [0x53, 0x43, 0x11, 0x01] ++ List.replicate 8188 0x11
  directory := fun i =>
    match i.val with
    | 0 => 0x51
    | 5 => 0x20
    | 8 => 0xff
    | 9 => 0xff
    | 10 => 0x42
    | 127 => 0x33
    | _ => 0
  blocks := []
  icons := []

set_option maxRecDepth 2000 in
theorem sampleSave_insertable {c : Card} (hunused : ∀ other ∈ c.saves, other.name ≠ [0x42])
    (hfree : 1 ≤ (freeList c).length) : Insertable c sampleSave := by
  have hlen : sampleSave.data.length = 8192 := by
    simp only [sampleSave, List.length_append, List.length_replicate, List.length_cons,
      List.length_nil]
  refine ⟨by decide, by decide, by decide, by decide, hunused, ?_, ?_, ?_, ?_, ?_, ?_⟩
  · exact List.ne_nil_of_length_pos (by omega)
  · rw [hlen, blockSize]
  · rw [hlen, blockSize]
    norm_num
  · rw [presentable, hlen]
    rfl
  · rw [hlen]
    decide
  · rw [hlen, blockSize]
    exact hfree

theorem dataOf_replicate (n i : ℕ) : dataOf (List.replicate n 0) i = 0 := by
  rw [dataOf, List.getD_eq_getElem?_getD, List.getElem?_replicate]
  split_ifs <;> rfl

/-- The image of a card that was never read has no header, so the second parse fails. -/
theorem unread_rejects {s : Save} (hs : Insertable {} s) :
    ({} : Card).insert s = .error "Edited card failed structural validation" := by
  have hroom := room_of_insertable hs
  have hsize : ({} : Card).image.length = cardSize := List.length_replicate
  have hfirst : dataOf (editedImage {} s) 0 = 0 := by
    have hbyte := edited_outside hroom (dataOf ({} : Card).image) 0 (by
      intro b hb
      have hslot := hroom.slots b (List.mem_of_mem_take hb)
      omega)
    have hzero : dataOf ({} : Card).image 0 = 0 := dataOf_replicate cardSize 0
    unfold editedImage
    rw [hsize, dataOf_bytesOf_lt _ (by decide)]
    exact hbyte.trans hzero
  have hrejected : (parse (editedImage {} s)).editable = false := by
    by_contra h
    obtain ⟨-, hsound, -⟩ := parse_editable.mp (by simpa using h)
    have hheader := hsound.header
    unfold headerErrors at hheader
    rw [hfirst, if_pos (Or.inl (by decide))] at hheader
    cases hheader
  rw [insert_checked rfl hs, if_pos hrejected]

/-- A default card counts as editable, but nothing can be inserted into it. -/
theorem default_card_rejected :
    ({} : Card).editable = true ∧ Insertable {} sampleSave ∧
      ({} : Card).insert sampleSave = .error "Edited card failed structural validation" := by
  have hs : Insertable {} sampleSave := sampleSave_insertable (by simp) (by decide)
  exact ⟨rfl, hs, unread_rejects hs⟩

theorem twoSaveCard_editable : (parse (bytesOf cardSize twoSaveCard)).editable = true := by
  rw [parse_editable, twoSaveCard_data]
  exact ⟨twoSaveCard_size, twoSaveCard_sound, by decide⟩

theorem insert_parsed_twoSaves :
    ∃ result, (parse (bytesOf cardSize twoSaveCard)).insert sampleSave = .ok result ∧
      Inserted (parse (bytesOf cardSize twoSaveCard)) sampleSave result := by
  apply insert_parsed _ _ twoSaveCard_editable
  apply sampleSave_insertable
  · rw [twoSaveCard_saves]
    intro other hother
    simp only [List.mem_cons, List.not_mem_nil, or_false] at hother
    rcases hother with rfl | rfl
    · show nameAt twoSaveCard 1 ≠ [0x42]
      decide
    · show nameAt twoSaveCard 5 ≠ [0x42]
      decide
  · rw [parse_whole twoSaveCard_size, twoSaveCard_data, freeList_parseData]
    decide

end PsxRecomp.MemoryCard
