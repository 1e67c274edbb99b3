import Mathlib
import PsxRecomp.MemoryCard.Layout

/-! Inserting a save. The blocks of the new save are threaded through the free list in ascending
order, and the edited image is parsed again. -/
namespace PsxRecomp.MemoryCard
open LinkedPath MemoryEdit
set_option autoImplicit false

/-! ## Writing -/

def occupiedAt (c : Card) (b : ℕ) : Bool := if h : b - 1 < 15 then c.occupied ⟨b - 1, h⟩ else false

def freeList (c : Card) : List ℕ := slots.filter fun b => !occupiedAt c b

section Writing
variable (s : Save) (free : List ℕ) (count : ℕ)

/-- The state word of block `k` of the new chain. -/
def stateWord (k : ℕ) : ℕ := if k = 0 then 0x51 else if k + 1 = count then 0x53 else 0x52

/-- The next pointer of block `k` of the new chain. -/
def nextWord (k : ℕ) : ℕ := if k + 1 < count then free.getD (k + 1) 0 - 1 else 0xffff

def writeFrame (k : ℕ) (d : Pointer) : Pointer :=
  let d := put32 (stateWord count k) (fill frameSize d)
  let d :=
    if k = 0 then editAt 10 (copyFrom s.name) (editAt 4 (put32 s.data.length) d) else d
  sealFrame (editAt 8 (put16 (nextWord free count k)) d)

def writeBlock (k : ℕ) (out : Pointer) : Pointer :=
  let b := free.getD k 0
  editAt (b * blockSize) (copyFrom ((s.data.drop (k * blockSize)).take blockSize))
    (editAt (b * frameSize) (writeFrame s free count k) out)

def writeBlocks (n : ℕ) (out : Pointer) : Pointer :=
  (List.range n).foldl (fun out k => writeBlock s free count k out) out

end Writing

/-- The bytes `insert` hands to `parse`. -/
def editedImage (destination : Card) (s : Save) : Bytes :=
  let count := s.data.length / blockSize
  bytesOf destination.image.length
    (writeBlocks s (freeList destination) count count (dataOf destination.image))

def Card.insert (destination : Card) (s : Save) : Except String Card :=
  let d := directoryData s
  if destination.editable = false then .error "Destination card cannot be edited"
  else if s.name = [] ∨ s.name.length > 20 then
    .error "Invalid save file identity or directory checksum"
  else
    match filename d with
    | .error what => .error what
    | .ok name =>
      if name ≠ s.name ∨ u32 d ≠ 0x51 ∨ d 127 ≠ checksum d then
        .error "Invalid save file identity or directory checksum"
      else if destination.saves.any fun other => other.name = s.name then
        .error "A save with this internal name already exists. Nothing replaced; choose another destination card."
      else if s.data = [] ∨ s.data.length % blockSize ≠ 0 ∨ s.data.length > 15 * blockSize then
        .error "Invalid save data size"
      else
        match presentation s with
        | .error what => .error what
        | .ok _ =>
          if u32 (shift d 4) ≠ s.data.length then .error "Save size mismatch"
          else if s.data.length / blockSize > (freeList destination).length then
            .error "Not enough free blocks on the destination card"
          else
            let result := parse (editedImage destination s)
            if result.editable = false then .error "Edited card failed structural validation"
            else .ok result

/-! ## What a written frame holds -/

/-- Two pointers that see the same frame. -/
abbrev SameFrame (d d' : Pointer) : Prop := Agree frameSize d d'

theorem checksum_congr {d d' : Pointer} (h : SameFrame d d') : checksum d = checksum d' := by
  unfold checksum
  apply List.foldl_ext
  intro v n hn
  rw [List.mem_range] at hn
  rw [h n (by unfold frameSize; omega)]

theorem u32_congr {d d' : Pointer} (h : SameFrame d d') (k : ℕ) (hk : k ≤ 124) :
    u32 (shift d k) = u32 (shift d' k) := by
  have hat : ∀ i < 4, d (k + i) = d' (k + i) := fun i hi => h (k + i) (by unfold frameSize; omega)
  simp only [u32, shift, hat 0 (by omega), hat 1 (by omega), hat 2 (by omega), hat 3 (by omega)]

theorem u16_congr {d d' : Pointer} (h : SameFrame d d') (k : ℕ) (hk : k ≤ 126) :
    u16 (shift d k) = u16 (shift d' k) := by
  have hat : ∀ i < 2, d (k + i) = d' (k + i) := fun i hi => h (k + i) (by unfold frameSize; omega)
  simp only [u16, shift, hat 0 (by omega), hat 1 (by omega)]

theorem nameField_congr {d d' : Pointer} (h : SameFrame d d') : nameField d = nameField d' := by
  unfold nameField
  congr 1
  apply List.map_congr_left
  intro n hn
  rw [List.mem_range] at hn
  exact h (10 + n) (by unfold frameSize; omega)

theorem filename_congr {d d' : Pointer} (h : SameFrame d d') : filename d = filename d' := by
  unfold filename
  rw [nameField_congr h]

theorem local_of_writes {len : ℕ} {f : Edit UInt8} (value : Pointer)
    (h : ∀ d n, f d n = if n < len then value n else d n) : Local len f := by
  constructor
  · intro d n hn
    rw [h, if_neg (not_lt.mpr hn)]
  · intro d d' _ n hn
    rw [h, h, if_pos hn, if_pos hn]

theorem put16_local (v : ℕ) : Local 2 (put16 v) := by
  apply local_of_writes fun n => if n = 0 then UInt8.ofNat v else UInt8.ofNat (v / 256)
  intro d n
  unfold put16
  split_ifs <;> first | rfl | omega

theorem put32_local (v : ℕ) : Local 4 (put32 v) := local_of_writes _ fun _ _ => rfl

theorem copyFrom_local (b : Bytes) : Local b.length (copyFrom b) := local_of_writes _ fun _ _ => rfl

theorem fill_local (len : ℕ) : Local len (fill len) := local_of_writes (fun _ => 0) fun _ _ => rfl

theorem sealFrame_local : Local frameSize sealFrame := by
  constructor
  · intro d n hn
    unfold frameSize at hn
    exact if_neg (by omega)
  · intro d d' hsame n hn
    unfold sealFrame
    rw [checksum_congr hsame, hsame n hn]

section Frame
variable (s : Save) (free : List ℕ) (count k : ℕ)

/-- What is written after the frame was filled with zeros. -/
def frameFields (d : Pointer) : Pointer :=
  let d := put32 (stateWord count k) d
  let d :=
    if k = 0 then editAt 10 (copyFrom s.name) (editAt 4 (put32 s.data.length) d) else d
  sealFrame (editAt 8 (put16 (nextWord free count k)) d)

/-- The contents of a new frame. -/
def newFrame : Pointer := frameFields s free count k fun _ => 0

theorem frameFields_local (hname : s.name.length ≤ 20) :
    Local frameSize (frameFields s free count k) := by
  have hsize : Local frameSize (editAt 4 (put32 s.data.length)) :=
    (put32_local s.data.length).editAt.mono (by decide)
  have hcopy : Local frameSize (editAt 10 (copyFrom s.name)) :=
    (copyFrom_local s.name).editAt.mono (by unfold frameSize; omega)
  have hstate : Local frameSize (put32 (stateWord count k)) := (put32_local _).mono (by decide)
  have hnext : Local frameSize (editAt 8 (put16 (nextWord free count k))) :=
    (put16_local _).editAt.mono (by decide)
  have hhead : Local frameSize fun d =>
      if k = 0 then editAt 10 (copyFrom s.name) (editAt 4 (put32 s.data.length) d) else d :=
    (hcopy.comp hsize).ite ⟨fun _ _ _ => rfl, fun _ _ h => h⟩
  exact sealFrame_local.comp (hnext.comp (hhead.comp hstate))

theorem writeFrame_outside (hname : s.name.length ≤ 20) (d : Pointer) (n : ℕ)
    (hn : frameSize ≤ n) : writeFrame s free count k d n = d n :=
  ((frameFields_local s free count k hname).comp (fill_local frameSize)).outside d n hn

theorem writeFrame_inside (hname : s.name.length ≤ 20) (d : Pointer) :
    SameFrame (writeFrame s free count k d) (newFrame s free count k) := by
  apply (frameFields_local s free count k hname).inside
  intro n hn
  exact if_pos hn

theorem sealFrame_other (d : Pointer) {n : ℕ} (h : n ≠ 127) : sealFrame d n = d n := if_neg h

theorem sealFrame_last (d : Pointer) : sealFrame d 127 = checksum d := if_pos rfl

theorem checksum_sealFrame (d : Pointer) : checksum (sealFrame d) = checksum d := by
  unfold checksum
  apply List.foldl_ext
  intro v n hn
  rw [List.mem_range] at hn
  rw [sealFrame_other d (by omega)]

theorem u32_written {v : ℕ} (hv : v < 2 ^ 32) {d : Pointer}
    (h : ∀ n < 4, d n = UInt8.ofNat (v / 256 ^ n)) : u32 d = v := by
  unfold u32
  rw [h 0 (by omega), h 1 (by omega), h 2 (by omega), h 3 (by omega)]
  simp only [UInt8.toNat_ofNat']
  norm_num
  omega

theorem u16_written {v : ℕ} (hv : v < 2 ^ 16) {d : Pointer} (h0 : d 0 = UInt8.ofNat v)
    (h1 : d 1 = UInt8.ofNat (v / 256)) : u16 d = v := by
  unfold u16
  rw [h0, h1]
  simp only [UInt8.toNat_ofNat']
  omega

theorem stateWord_lt : stateWord count k < 2 ^ 32 := by
  unfold stateWord
  split_ifs <;> norm_num

theorem newFrame_state : u32 (newFrame s free count k) = stateWord count k := by
  apply u32_written (stateWord_lt count k)
  intro n hn
  unfold newFrame frameFields
  rw [sealFrame_other _ (by omega), editAt_below _ _ (by omega)]
  split_ifs
  · rw [editAt_below _ _ (by omega), editAt_below _ _ (by omega)]
    exact if_pos hn
  · exact if_pos hn

theorem newFrame_next (hnext : nextWord free count k < 2 ^ 16) :
    u16 (shift (newFrame s free count k) 8) = nextWord free count k := by
  have hat : ∀ n < 2, ∃ d, shift (newFrame s free count k) 8 n = put16 (nextWord free count k) d n := by
    intro n hn
    unfold newFrame frameFields
    rw [shift, sealFrame_other _ (by omega), editAt_shift]
    exact ⟨_, rfl⟩
  obtain ⟨_, h0⟩ := hat 0 (by omega)
  obtain ⟨_, h1⟩ := hat 1 (by omega)
  exact u16_written hnext h0 h1

theorem newFrame_size (hsize : s.data.length < 2 ^ 32) :
    u32 (shift (newFrame s free count 0) 4) = s.data.length := by
  apply u32_written hsize
  intro n hn
  unfold newFrame frameFields
  rw [shift, sealFrame_other _ (by omega), editAt_below _ _ (by omega), if_pos rfl,
    editAt_below _ _ (by omega), editAt_shift]
  exact if_pos hn

theorem newFrame_sealed : newFrame s free count k 127 = checksum (newFrame s free count k) := by
  unfold newFrame frameFields
  rw [sealFrame_last, checksum_sealFrame]

/-- The name field of the head frame is the name with zeros behind it. -/
theorem newFrame_nameByte (n : ℕ) (hn : n < 21) :
    shift (newFrame s free count 0) 10 n = if n < s.name.length then dataOf s.name n else 0 := by
  unfold newFrame frameFields
  have hnext : 10 + n = 8 + (2 + n) := by omega
  rw [shift, sealFrame_other _ (by omega), hnext, editAt_shift, put16, if_neg (by omega),
    if_neg (by omega), shift, ← hnext, if_pos rfl, editAt_shift, copyFrom]
  congr 1
  have hrest : 10 + n = 4 + (6 + n) := by omega
  rw [shift, hrest, editAt_shift, put32, if_neg (by omega), shift, ← hrest, put32,
    if_neg (by omega)]

end Frame

end PsxRecomp.MemoryCard
