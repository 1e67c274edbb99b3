import Mathlib
import PsxRecomp.MemoryCard.Editing

/-! Erasing a save: its chain is marked deleted and its data stays. The card that is left holds the
other saves as they were, and the erased save fits into it again. -/
namespace PsxRecomp.MemoryCard
open LinkedPath MemoryEdit
set_option autoImplicit false

/-! ## The operation -/

def Card.selected (c : Card) (n : ℕ) : Except String Save :=
  if h : c.editable = true ∧ n < c.saves.length then .ok c.saves[n]
  else .error "Card is damaged, unsupported or selection is no longer valid"

/-- `put32(d,u32(d)+0x50);seal(d);` -/
def deleteFrame (d : Pointer) : Pointer := sealFrame (put32 (u32 d + 0x50) d)

def deleteFrames (blocks : List ℕ) (out : Pointer) : Pointer :=
  blocks.foldl (fun out b => editAt (b * frameSize) deleteFrame out) out

def erasedImage (source : Card) (s : Save) : Bytes :=
  bytesOf source.image.length (deleteFrames s.blocks (dataOf source.image))

def Card.erase (source : Card) (n : ℕ) : Except String Card :=
  match source.selected n with
  | .error what => .error what
  | .ok s =>
    let result := parse (erasedImage source s)
    if result.editable = false then .error "Deleted card failed structural validation"
    else .ok result

/-- The cards there are: the one that has not been read, and what `parse` returns, which is also
what `insert` and `erase` return. -/
inductive Card.Made : Card → Prop where
  | unread : Card.Made {}
  | parsed (input : Bytes) : Card.Made (parse input)

/-! ## What the loop writes -/

theorem deleteFrame_local : Local frameSize deleteFrame := by
  constructor
  · intro d n hn
    unfold deleteFrame
    rw [sealFrame_local.outside _ n hn]
    exact if_neg (by unfold frameSize at hn; omega)
  · intro d d' hsame
    have hword : u32 d = u32 d' := by
      have h := u32_congr hsame 0 (by omega)
      rwa [shift_zero, shift_zero] at h
    unfold deleteFrame
    rw [hword]
    exact (sealFrame_local.comp ((put32_local _).mono (by decide))).inside d d' hsame

theorem deleteFrames_outside {L : List ℕ} (p : Pointer) {n : ℕ}
    (h : ∀ b ∈ L, ¬(b * 128 ≤ n ∧ n < b * 128 + 128)) : deleteFrames L p n = p n := by
  induction L generalizing p with
  | nil => rfl
  | cons b L ih =>
    have hb := h b List.mem_cons_self
    have hstep : deleteFrames (b :: L) p = deleteFrames L (editAt (b * frameSize) deleteFrame p) := rfl
    rw [hstep, ih _ fun c hc => h c (List.mem_cons_of_mem b hc)]
    unfold editAt frameSize
    split
    · rw [deleteFrame_local.outside _ _ (by unfold frameSize; omega), shift, Nat.add_sub_cancel' (by omega)]
    · rfl

theorem deleteFrames_frame {L : List ℕ} (p : Pointer) (hnodup : L.Nodup) {b : ℕ} (hb : b ∈ L) :
    SameFrame (frame (deleteFrames L p) b) (deleteFrame (frame p b)) := by
  induction L generalizing p with
  | nil => exact absurd hb List.not_mem_nil
  | cons c L ih =>
    obtain ⟨hc, hnodup⟩ := List.nodup_cons.mp hnodup
    have hstep : deleteFrames (c :: L) p = deleteFrames L (editAt (c * frameSize) deleteFrame p) := rfl
    rw [hstep]
    intro i hi
    unfold frameSize at hi
    rcases List.mem_cons.mp hb with rfl | hb
    · rw [frame, shift, deleteFrames_outside _ fun d hd hcov => ?_, editAt_shift, frame]
      have hne : d ≠ b := fun heq => hc (heq ▸ hd)
      unfold frameSize at hcov
      omega
    · have hne : c ≠ b := fun heq => hc (heq ▸ hb)
      rw [ih _ hnodup hb i hi]
      apply deleteFrame_local.inside _ _ _ i hi
      intro j hj
      unfold frameSize at hj
      unfold frame shift editAt frameSize
      split
      · rw [deleteFrame_local.outside _ _ (by unfold frameSize; omega)]
        unfold shift
        congr 1
        omega
      · rfl

/-- The state of a deleted frame. -/
theorem deleteFrame_state {d : Pointer} (h : u32 d + 0x50 < 2 ^ 32) : u32 (deleteFrame d) = u32 d + 0x50 := by
  apply u32_written h
  intro n hn
  unfold deleteFrame
  rw [sealFrame_other _ (by omega)]
  exact if_pos hn

theorem deleteFrame_sealed (d : Pointer) : deleteFrame d 127 = checksum (deleteFrame d) := by
  unfold deleteFrame
  rw [sealFrame_last, checksum_sealFrame]

/-! ## The erased card -/

def erased (p : Pointer) (head : ℕ) : Pointer := deleteFrames (chainOf p head) p

section Erased
variable {p : Pointer} {head : ℕ}

theorem deleted_free {n : ℕ} (h : activeState n = true) : freeState (n + 0x50) = true := by
  simp only [activeState, freeState, Bool.and_eq_true, decide_eq_true_eq] at h ⊢
  omega

variable (hsound : SoundCard p) (hhead : head ∈ heads p)
include hsound hhead

theorem erased_slot {b : ℕ} (hb : b ∈ chainOf p head) : 1 ≤ b ∧ b ≤ 15 :=
  (hsound.heads.sound head hhead).chain.mem_slots b hb

omit hsound hhead in
/-- Only the frames of the chain are written. -/
theorem erased_outside {n : ℕ} (h : ∀ b ∈ chainOf p head, ¬(b * 128 ≤ n ∧ n < b * 128 + 128)) :
    erased p head n = p n := deleteFrames_outside p h

theorem erased_data {n : ℕ} (hn : 8192 ≤ n) : erased p head n = p n := by
  apply erased_outside
  intro b hb
  have hslot := erased_slot hsound hhead hb
  omega

theorem erased_same {b : ℕ} (hlow : 1 ≤ b) (hb : b ∉ chainOf p head) :
    SameSlot p (erased p head) b := by
  constructor
  · intro i hi
    apply erased_outside
    intro d hd hcov
    have hne : d ≠ b := fun heq => hb (heq ▸ hd)
    unfold frameSize at hi hcov
    omega
  · unfold blockData bytesOf
    apply List.map_congr_left
    intro i hi
    apply erased_data hsound hhead
    unfold blockSize
    omega

/-- The header frame and the frames behind the directory are out of reach. -/
theorem erased_frame_other {b : ℕ} (hb : b = 0 ∨ 16 ≤ b) :
    SameFrame (frame (erased p head) b) (frame p b) := by
  intro i hi
  apply erased_outside
  intro d hd
  have hslot := erased_slot hsound hhead hd
  unfold frameSize at hi ⊢
  omega

theorem erased_frame {b : ℕ} (hb : b ∈ chainOf p head) :
    SameFrame (frame (erased p head) b) (deleteFrame (frame p b)) :=
  deleteFrames_frame p (hsound.heads.sound head hhead).chain.nodup hb

theorem erased_free {b : ℕ} (hb : b ∈ chainOf p head) : freeState (state (erased p head) b) = true := by
  have hactive := (hsound.heads.sound head hhead).chain.active b hb
  have hstate : state (erased p head) b = state p b + 0x50 := by
    have hword := u32_congr (erased_frame hsound hhead hb) 0 (by omega)
    rw [shift_zero, shift_zero] at hword
    unfold state
    rw [hword]
    apply deleteFrame_state
    have hbound := hactive
    simp only [activeState, Bool.and_eq_true, decide_eq_true_eq] at hbound
    unfold state at hbound
    omega
  rw [hstate]
  exact deleted_free hactive

/-- The chains of a card meet no other head. -/
theorem head_of_chain {h : ℕ} (hh : h ∈ heads p) (hmem : h ∈ chainOf p head) : h = head := by
  have hchain := (hsound.heads.sound head hhead).chain
  by_contra hne
  have htail : h ∈ (chainOf p head).tail := by
    cases hL : chainOf p head with
    | nil => rw [hL] at hmem; exact absurd hmem List.not_mem_nil
    | cons b L =>
      rw [hL] at hmem hchain
      rcases List.mem_cons.mp hmem with rfl | hmem
      · exact absurd hchain.path.head_eq.symm hne
      · exact hmem
  have hstate := (hchain.tail h htail).tailState id
  rw [(mem_heads.mp hh).2] at hstate
  unfold continuationState at hstate
  split_ifs at hstate <;> cases hstate

theorem heads_erased : heads (erased p head) = (heads p).erase head := by
  have hslots : slots.Nodup := List.nodup_range'
  have hnodup : (heads p).Nodup := hslots.filter _
  rw [hnodup.erase_eq_filter, heads, heads, List.filter_filter]
  apply List.filter_congr
  intro b hb
  have hslot := mem_slots.mp hb
  by_cases hmem : b ∈ chainOf p head
  · have hfree := erased_free hsound hhead hmem
    have hleft : state (erased p head) b ≠ 0x51 := by
      intro h
      rw [h] at hfree
      cases hfree
    by_cases hstate : state p b = 0x51
    · obtain rfl := head_of_chain hsound hhead (mem_heads.mpr ⟨hslot, hstate⟩) hmem
      simp [hleft]
    · simp [hleft, hstate]
  · have hne : b ≠ head := by
      rintro rfl
      exact hmem (hsound.heads.sound b hhead).chain.path.start_mem
    rw [state_congr (erased_same hsound hhead hslot.1 hmem).frame]
    simp [hne]

/-- Another save shares no block with the erased one. -/
theorem kept_blocks {h b : ℕ} (hh : h ∈ heads p) (hne : h ≠ head) (hb : b ∈ chainOf p h) :
    b ∉ chainOf p head := by
  intro hmem
  have hdisjoint := (List.nodup_flatMap.mp hsound.heads.blocks).2
  have hsymm : Std.Symm (Function.onFun List.Disjoint (chainOf p)) := ⟨fun _ _ h => h.symm⟩
  exact hdisjoint.forall hh hhead hne hb hmem

theorem kept_head {h : ℕ} (hh : h ∈ heads p) (hne : h ≠ head) :
    HeadSound (erased p head) h ∧ saveAt (erased p head) h = saveAt p h ∧
      chainOf (erased p head) h = chainOf p h ∧ nameAt (erased p head) h = nameAt p h := by
  have hsave := hsound.heads.sound h hh
  have hsame : ∀ b ∈ chainOf p h, SameSlot p (erased p head) b := fun b hb =>
    erased_same hsound hhead (hsave.chain.mem_slots b hb).1 (kept_blocks hsound hhead hh hne hb)
  have hcongr := hsave.congr hsame
  exact ⟨hcongr.1, hcongr.2, hsave.chainOf_congr hsame,
    nameField_congr (hsame h hsave.chain.path.start_mem).frame⟩

theorem erased_frameErrors : ∀ b ∈ slots, frameErrors (erased p head) b = [] := by
  intro b hb
  by_cases hmem : b ∈ chainOf p head
  · have hframe := erased_frame hsound hhead hmem
    refine frameErrors_nil.mpr ⟨?_, Or.inl (erased_free hsound hhead hmem)⟩
    rw [hframe 127 (by decide), checksum_congr hframe]
    exact deleteFrame_sealed _
  · rw [frameErrors_congr (erased_same hsound hhead (mem_slots.mp hb).1 hmem).frame]
    exact hsound.frames b hb

/-- The card without the save is sound. -/
theorem sound_erased : SoundCard (erased p head) := by
  have hslots : slots.Nodup := List.nodup_range'
  have hnodup : (heads p).Nodup := hslots.filter _
  have hkept : ∀ h ∈ (heads p).erase head, h ∈ heads p ∧ h ≠ head := by
    intro h hh
    rw [hnodup.mem_erase_iff] at hh
    exact ⟨hh.2, hh.1⟩
  have hchains : ((heads p).erase head).flatMap (chainOf (erased p head)) =
      ((heads p).erase head).flatMap (chainOf p) :=
    List.flatMap_congr fun h hh => (kept_head hsound hhead (hkept h hh).1 (hkept h hh).2).2.2.1
  have hnames : ((heads p).erase head).map (nameAt (erased p head)) =
      ((heads p).erase head).map (nameAt p) :=
    List.map_congr_left fun h hh => (kept_head hsound hhead (hkept h hh).1 (hkept h hh).2).2.2.2
  refine ⟨?_, erased_frameErrors hsound hhead, ?_, ?_⟩
  · have hzero : SameFrame (erased p head) p := by
      have h := erased_frame_other hsound hhead (b := 0) (Or.inl rfl)
      unfold frame at h
      rwa [Nat.zero_mul, shift_zero, shift_zero] at h
    have hheader := hsound.header
    unfold headerErrors at hheader ⊢
    rwa [hzero 0 (by decide), hzero 1 (by decide), hzero 127 (by decide), checksum_congr hzero]
  · rw [heads_erased hsound hhead]
    refine ⟨fun h hh => (kept_head hsound hhead (hkept h hh).1 (hkept h hh).2).1, ?_,
      fun b _ => Finset.notMem_empty b, ?_, fun h _ => Finset.notMem_empty _⟩
    · rw [hchains]
      exact hsound.heads.blocks.sublist (List.erase_sublist.flatMap _)
    · rw [hnames]
      exact hsound.heads.names.sublist (List.erase_sublist.map _)
  · intro b hb hactive
    rw [heads_erased hsound hhead, hchains]
    have hmem : b ∉ chainOf p head := by
      intro hmem
      have hfree := erased_free hsound hhead hmem
      rw [active_not_free hactive] at hfree
      cases hfree
    rw [state_congr (erased_same hsound hhead (mem_slots.mp hb).1 hmem).frame] at hactive
    obtain ⟨h, hh, hin⟩ := List.mem_flatMap.mp (hsound.covered b hb hactive)
    have hne : h ≠ head := fun heq => hmem (heq ▸ hin)
    exact List.mem_flatMap.mpr ⟨h, (hnodup.mem_erase_iff).mpr ⟨hne, hh⟩, hin⟩

theorem erased_remap : remapped (erased p head) = remapped p := by
  have hsame : ∀ f ∈ List.range' 16 20, u32 (frame (erased p head) f) = u32 (frame p f) := by
    intro f hf
    rw [List.mem_range'_1] at hf
    have hword := u32_congr (erased_frame_other hsound hhead (b := f) (Or.inr hf.1)) 0 (by omega)
    rwa [shift_zero, shift_zero] at hword
  unfold remapped
  rw [Bool.eq_iff_iff, List.any_eq_true, List.any_eq_true]
  refine exists_congr fun f => and_congr_right fun hf => ?_
  rw [hsame f hf]

end Erased

/-! ## Erasing -/

/-- What erasing a save makes of a card. -/
structure ErasedFrom (source : Card) (n : ℕ) (hn : n < source.saves.length) (result : Card) : Prop where
  editable : result.editable = true
  saves : result.saves = source.saves.eraseIdx n
  free : result.freeBlocks = source.freeBlocks + source.saves[n].blocks.length
  size : result.image.length = source.image.length
  data : ∀ i, blockSize ≤ i → dataOf result.image i = dataOf source.image i

section Parsed
variable {input : Bytes} {n : ℕ}

theorem parse_image (hsize : input.length = cardSize) : (parse input).image = input := by
  rw [parse_whole hsize]
  rfl

/-- The saves of a sound card are its heads. -/
theorem parsed_save (hsize : input.length = cardSize) (hsound : SoundCard (dataOf input))
    (hn : n < (parse input).saves.length) : ∃ h : n < (heads (dataOf input)).length,
      (parse input).saves[n] = saveAt (dataOf input) (heads (dataOf input))[n] := by
  have hsaves : (parse input).saves = (heads (dataOf input)).map (saveAt (dataOf input)) := by
    rw [parse_whole hsize, parseData_saves hsound]
  have hlen : n < (heads (dataOf input)).length := by
    rw [hsaves, List.length_map] at hn
    exact hn
  refine ⟨hlen, ?_⟩
  simp only [hsaves, List.getElem_map]

theorem erasedImage_data {head : ℕ} (hsize : input.length = cardSize) (hsound : SoundCard (dataOf input))
    (hhead : head ∈ heads (dataOf input)) :
    dataOf (erasedImage (parse input) (saveAt (dataOf input) head)) = erased (dataOf input) head := by
  unfold erasedImage
  rw [parse_image hsize, hsize]
  apply dataOf_bytesOf
  intro i hi
  have hdata := erased_data hsound hhead (n := i) (by unfold cardSize at hi; omega)
  exact hdata.trans (dataOf_beyond (by omega))

theorem erasedImage_length (hsize : input.length = cardSize) (s : Save) :
    (erasedImage (parse input) s).length = cardSize := by
  rw [erasedImage, bytesOf, List.length_map, List.length_range, parse_image hsize, hsize]

theorem erase_parsed (heditable : (parse input).editable = true) (hn : n < (parse input).saves.length) :
    (parse input).erase n = .ok (parse (erasedImage (parse input) (parse input).saves[n])) ∧
      ErasedFrom (parse input) n hn (parse (erasedImage (parse input) (parse input).saves[n])) := by
  obtain ⟨hsize, hsound, hremap⟩ := parse_editable.mp heditable
  obtain ⟨hlen, hsave⟩ := parsed_save hsize hsound hn
  have hhead : (heads (dataOf input))[n] ∈ heads (dataOf input) := List.getElem_mem hlen
  have hdata := erasedImage_data hsize hsound hhead
  have hlength := erasedImage_length hsize (parse input).saves[n]
  rw [← hsave] at hdata
  have hsound' := sound_erased hsound hhead
  have heditable' : (parse (erasedImage (parse input) (parse input).saves[n])).editable = true := by
    rw [parse_editable, hdata]
    exact ⟨hlength, hsound', (erased_remap hsound hhead).trans hremap⟩
  have hslots : slots.Nodup := List.nodup_range'
  have hnodup : (heads (dataOf input)).Nodup := hslots.filter _
  have hsaves : (parse (erasedImage (parse input) (parse input).saves[n])).saves =
      (parse input).saves.eraseIdx n := by
    rw [parse_whole hlength, hdata, parseData_saves hsound', heads_erased hsound hhead,
      parse_whole hsize, parseData_saves hsound, List.eraseIdx_map, ← hnodup.erase_getElem n hlen]
    apply List.map_congr_left
    intro h hh
    rw [hnodup.mem_erase_iff] at hh
    exact (kept_head hsound hhead hh.2 hh.1).2.1
  have hfree : (parse (erasedImage (parse input) (parse input).saves[n])).freeBlocks =
      (parse input).freeBlocks + (parse input).saves[n].blocks.length := by
    have hbefore := free_and_owned hsound input
    have hafter := free_and_owned hsound' (erasedImage (parse input) (parse input).saves[n])
    rw [← hdata, ← parse_whole hlength, hsaves] at hafter
    rw [← parse_whole hsize] at hbefore
    have hsum := ((List.getElem_cons_eraseIdx_perm hn).map fun s : Save => s.blocks.length).sum_eq
    rw [List.map_cons, List.sum_cons] at hsum
    omega
  refine ⟨?_, heditable', hsaves, hfree, ?_, fun i hi => ?_⟩
  · unfold Card.erase Card.selected
    rw [dif_pos ⟨heditable, hn⟩]
    dsimp only
    rw [if_neg (by simp [heditable'])]
  · rw [parse_image hlength, parse_image hsize]
    exact hlength.trans hsize.symm
  · have hbyte := erased_data hsound hhead (n := i) hi
    rw [← hdata] at hbyte
    rw [parse_image hlength, parse_image hsize]
    exact hbyte

/-! ## Inserting the save again -/

theorem filename_bounds {d : Pointer} {name : Bytes} (h : filename d = .ok name) :
    name ≠ [] ∧ name.length ≤ 20 := by
  have hfield := filename_ok h
  unfold filename at h
  dsimp only at h
  rw [← hfield] at h
  split_ifs at h with hlen
  refine ⟨fun hnil => hlen (Or.inl ?_), by omega⟩
  rw [hnil]
  rfl

/-- A directory frame that names the save of a head and its size, sealed. -/
structure HeadFrame (p : Pointer) (head : ℕ) (d : Pointer) : Prop where
  name : filename d = .ok (nameAt p head)
  state : u32 d = 0x51
  sealed : d 127 = checksum d
  size : u32 (shift d 4) = (chainData p head).length

theorem headFrame_same {p d : Pointer} {head : ℕ} (hsound : SoundCard p) (hhead : head ∈ heads p)
    (h : SameFrame d (frame p head)) : HeadFrame p head d := by
  have hsave := hsound.heads.sound head hhead
  have hsealed := (frameErrors_nil.mp (hsound.frames head (mem_slots.mpr (mem_heads.mp hhead).1))).1
  refine ⟨?_, ?_, ?_, ?_⟩
  · rw [filename_congr h]
    exact hsave.name
  · have hword := u32_congr h 0 (by omega)
    rw [shift_zero, shift_zero] at hword
    exact hword.trans (mem_heads.mp hhead).2
  · rw [h 127 (by decide), checksum_congr h]
    exact hsealed
  · rw [u32_congr h 4 (by omega)]
    exact hsave.size

/-- A save with the name and the data of a save of a card passes all the checks of `insert` but those
of the destination. -/
theorem insertable_of_save {destination : Card} {head : ℕ} {t : Save} {p : Pointer} (hsound : SoundCard p)
    (hhead : head ∈ heads p) (hname : t.name = nameAt p head) (hdata : t.data = chainData p head)
    (hdirectory : HeadFrame p head (directoryData t))
    (hunused : ∀ other ∈ destination.saves, other.name ≠ t.name)
    (henough : (chainOf p head).length ≤ (freeList destination).length) : Insertable destination t := by
  have hsave := hsound.heads.sound head hhead
  have hidentity : filename (directoryData t) = .ok t.name := hname ▸ hdirectory.name
  have hlength := @chainData_length p head
  have hbounds := hsave.chain.length_le
  refine ⟨filename_bounds hidentity, hidentity, hdirectory.state, hdirectory.sealed, hunused, ?_, ?_, ?_,
    ?_, ?_, ?_⟩
  · rw [hdata]
    apply List.ne_nil_of_length_pos
    rw [hlength]
    unfold blockSize
    omega
  · rw [hdata, hlength, Nat.mul_mod_right]
  · rw [hdata, hlength, Nat.mul_comm]
    exact Nat.mul_le_mul_right _ hbounds.2
  · rw [hdata]
    exact hsave.header
  · rw [hdata]
    exact hdirectory.size
  · rw [hdata, hlength, Nat.mul_div_cancel_left _ (by decide)]
    exact henough

theorem directoryData_frame {p : Pointer} {head : ℕ} {t : Save}
    (h : t.directory = (saveAt p head).directory) : SameFrame (directoryData t) (frame p head) := by
  intro i hi
  unfold frameSize at hi
  unfold directoryData
  rw [dif_pos hi, h]
  rfl

theorem erased_room {p : Pointer} {head : ℕ} (hsound : SoundCard p) (hhead : head ∈ heads p) :
    (chainOf p head).length ≤ (freeSlots (erased p head)).length := by
  have hchain := (hsound.heads.sound head hhead).chain
  apply (hchain.nodup.subperm _).length_le
  intro b hb
  exact mem_freeSlots.mpr ⟨hchain.mem_slots b hb, erased_free hsound hhead hb⟩

/-- Erasing a save of an editable card always succeeds and leaves the other saves and all data blocks
alone; the save it had, with its directory frame, can always be inserted again, which brings back the
names and data of the card. -/
theorem erase_reinsert (c : Card) (hmade : c.Made) (heditable : c.editable = true) (n : ℕ)
    (hn : n < c.saves.length) :
    ∃ result, c.erase n = .ok result ∧ ErasedFrom c n hn result ∧
      ∀ t : Save, t.name = c.saves[n].name → t.data = c.saves[n].data →
        t.directory = c.saves[n].directory → ∃ back, result.insert t = .ok back ∧ back.editable = true ∧
          (back.saves.map fun s => (s.name, s.data)).Perm (c.saves.map fun s => (s.name, s.data)) := by
  cases hmade with
  | unread => exact absurd hn (Nat.not_lt_zero n)
  | parsed input =>
    obtain ⟨hsize, hsound, -⟩ := parse_editable.mp heditable
    obtain ⟨hlen, hsave⟩ := parsed_save hsize hsound hn
    have hhead : (heads (dataOf input))[n] ∈ heads (dataOf input) := List.getElem_mem hlen
    obtain ⟨hok, herased⟩ := erase_parsed heditable hn
    refine ⟨_, hok, herased, fun t hname hdata hdirectory => ?_⟩
    have hlength := erasedImage_length hsize (parse input).saves[n]
    have himage := erasedImage_data hsize hsound hhead
    rw [← hsave] at himage
    have hnames : ((parse input).saves.map Save.name).Nodup := by
      have hold := hsound.heads.names
      rw [parse_whole hsize, parseData_saves hsound, List.map_map]
      exact hold
    have hunused : ∀ other ∈ (parse (erasedImage (parse input) (parse input).saves[n])).saves,
        other.name ≠ t.name := by
      intro other hother heq
      rw [herased.saves] at hother
      have hperm := (List.getElem_cons_eraseIdx_perm hn).map Save.name
      have hcons := hperm.nodup_iff.mpr hnames
      rw [List.map_cons, List.nodup_cons] at hcons
      exact hcons.1 (hname ▸ heq ▸ List.mem_map_of_mem hother)
    have hroom : (chainOf (dataOf input) (heads (dataOf input))[n]).length ≤
        (freeList (parse (erasedImage (parse input) (parse input).saves[n]))).length := by
      rw [parse_whole hlength, freeList_parseData, himage]
      exact erased_room hsound hhead
    rw [hsave] at hname hdata hdirectory
    have hinsertable := insertable_of_save hsound hhead hname hdata
      (headFrame_same hsound hhead (directoryData_frame hdirectory)) hunused hroom
    obtain ⟨back, hback, hinserted⟩ := insert_parsed _ t herased.editable hinsertable
    obtain ⟨new, hperm, hnewname, hnewdata⟩ := hinserted.saves
    refine ⟨back, hback, hinserted.editable, ?_⟩
    have hpairs := hperm.map fun s : Save => (s.name, s.data)
    rw [List.map_cons, herased.saves, hnewname, hnewdata, hname, hdata] at hpairs
    have hall := (List.getElem_cons_eraseIdx_perm hn).map fun s : Save => (s.name, s.data)
    rw [List.map_cons, hsave] at hall
    exact hpairs.trans hall

/-- The save of three blocks is erased and inserted again. -/
theorem erase_reinsert_twoSaves : ∃ result back, (parse (bytesOf cardSize twoSaveCard)).erase 0 = .ok result ∧
    result.saves = [saveAt twoSaveCard 5] ∧ result.insert (saveAt twoSaveCard 1) = .ok back ∧
      (back.saves.map Save.name).Perm [nameAt twoSaveCard 1, nameAt twoSaveCard 5] := by
  have hsaves := twoSaveCard_saves
  have hn : 0 < (parse (bytesOf cardSize twoSaveCard)).saves.length := by rw [hsaves]; decide
  have hfirst : (parse (bytesOf cardSize twoSaveCard)).saves[0] = saveAt twoSaveCard 1 := by
    simp only [hsaves, List.getElem_cons_zero]
  obtain ⟨result, hok, herased, hinsert⟩ := erase_reinsert _ (.parsed _) twoSaveCard_editable 0 hn
  rw [hfirst] at hinsert
  obtain ⟨back, hback, -, hperm⟩ := hinsert (saveAt twoSaveCard 1) rfl rfl rfl
  refine ⟨result, back, hok, herased.saves.trans (by rw [hsaves]; rfl), hback, ?_⟩
  have hnames := hperm.map Prod.fst
  rw [List.map_map, List.map_map, hsaves] at hnames
  exact hnames

end Parsed

end PsxRecomp.MemoryCard
