import Mathlib
import PsxRecomp.MemoryCard.Erase

/-! Single-save files: a directory frame and the blocks of one save. What is exported can be read, and
after an insertion into another card the same name, size and data are exported again. -/
namespace PsxRecomp.MemoryCard
open LinkedPath MemoryEdit
set_option autoImplicit false

/-! ## The operations -/

/-- `put16(d+8,0xffff);seal(d);` -/
def exportFrame (d : Pointer) : Pointer := sealFrame (editAt 8 (put16 0xffff) d)

def mcsFile (s : Save) : Bytes := bytesOf frameSize (exportFrame (directoryData s)) ++ s.data

def Card.exportMcs (c : Card) (n : ℕ) : Except String Bytes :=
  match c.selected n with
  | .error what => .error what
  | .ok s => .ok (mcsFile s)

def readMcs (input : Bytes) : Except String Save :=
  let d := dataOf input
  if input.length < 128 + blockSize ∨ input.length > 128 + 15 * blockSize ∨
      (input.length - 128) % blockSize ≠ 0 then
    .error "Expected an MCS directory frame followed by complete 8 KiB save blocks"
  else if u32 d ≠ 0x51 ∨ d 127 ≠ checksum d ∨ u32 (shift d 4) ≠ input.length - 128 then
    .error "Invalid MCS directory, checksum or length"
  else
    match filename d with
    | .error what => .error what
    | .ok name =>
      presentation
        { name := name, region := "", titleSjis := [], data := input.drop 128
          directory := fun n => d n, blocks := [], icons := [] }

/-! ## The exported frame -/

theorem exportFrame_same (d : Pointer) {n : ℕ} (h8 : n ≠ 8) (h9 : n ≠ 9) (h127 : n ≠ 127) :
    exportFrame d n = d n := by
  unfold exportFrame
  rw [sealFrame_other _ h127]
  unfold editAt put16 shift
  split
  · rw [if_neg (by omega), if_neg (by omega), Nat.add_sub_cancel' ‹_›]
  · rfl

theorem exportFrame_sealed (d : Pointer) : exportFrame d 127 = checksum (exportFrame d) := by
  unfold exportFrame
  rw [sealFrame_last, checksum_sealFrame]

/-- The link and the seal are no part of what a head frame says of its save. -/
theorem HeadFrame.exported {p d : Pointer} {head : ℕ} (h : HeadFrame p head d) :
    HeadFrame p head (exportFrame d) := by
  have hname : nameField (exportFrame d) = nameField d := by
    unfold nameField
    refine congrArg (List.takeWhile _) (List.map_congr_left fun n hn => ?_)
    rw [List.mem_range] at hn
    exact exportFrame_same d (by omega) (by omega) (by omega)
  have hbyte : ∀ n < 8, exportFrame d n = d n := fun n hn =>
    exportFrame_same d (by omega) (by omega) (by omega)
  refine ⟨?_, ?_, exportFrame_sealed d, ?_⟩
  · exact filename_of_nameField h.name (hname.trans (filename_ok h.name).symm)
  · rw [← h.state]
    simp only [u32, hbyte 0 (by omega), hbyte 1 (by omega), hbyte 2 (by omega), hbyte 3 (by omega)]
  · rw [← h.size]
    simp only [u32, shift, hbyte 4 (by omega), hbyte 5 (by omega), hbyte 6 (by omega), hbyte 7 (by omega)]

theorem headFrame_congr {p d d' : Pointer} {head : ℕ} (h : HeadFrame p head d) (hsame : SameFrame d' d) :
    HeadFrame p head d' := by
  refine ⟨?_, ?_, ?_, ?_⟩
  · rw [filename_congr hsame]
    exact h.name
  · have hword := u32_congr hsame 0 (by omega)
    rw [shift_zero, shift_zero] at hword
    exact hword.trans h.state
  · rw [hsame 127 (by decide), checksum_congr hsame]
    exact h.sealed
  · rw [u32_congr hsame 4 (by omega)]
    exact h.size

/-! ## A file of a save -/

/-- A file that holds the save of a head: its frame in front, its data behind. -/
structure FileOf (p : Pointer) (head : ℕ) (file : Bytes) : Prop where
  frame : HeadFrame p head (dataOf file)
  length : file.length = 128 + (chainData p head).length
  data : file.drop 128 = chainData p head

theorem mcsFile_of {p : Pointer} {head : ℕ} {s : Save} (hframe : HeadFrame p head (directoryData s))
    (hdata : s.data = chainData p head) : FileOf p head (mcsFile s) := by
  have hlen : (bytesOf frameSize (exportFrame (directoryData s))).length = 128 := by
    rw [bytesOf, List.length_map, List.length_range]
    rfl
  refine ⟨headFrame_congr hframe.exported fun i hi => ?_, ?_, ?_⟩
  · unfold mcsFile
    rw [← dataOf_bytesOf_lt (exportFrame (directoryData s)) hi]
    unfold dataOf
    rw [List.getD_append _ _ _ _ (by rw [hlen]; exact hi)]
  · rw [mcsFile, List.length_append, hlen, hdata]
  · rw [mcsFile, List.drop_left' hlen, hdata]

/-- Reading a file of a save brings the save back. -/
theorem readMcs_of {p : Pointer} {head : ℕ} {file : Bytes} (hsave : HeadSound p head)
    (h : FileOf p head file) : ∃ saved, readMcs file = .ok saved ∧ saved.name = nameAt p head ∧
      saved.titleSjis = (saveAt p head).titleSjis ∧ saved.data = chainData p head ∧
      HeadFrame p head (directoryData saved) := by
  have hlength := @chainData_length p head
  have hbounds := hsave.chain.length_le
  have hfile := h.length
  have hdiff : file.length - 128 = (chainData p head).length := by omega
  have hheader : presentable (file.drop 128) = true := by
    rw [h.data]
    exact hsave.header
  refine ⟨presented { name := nameAt p head, region := "", titleSjis := [], data := file.drop 128
                      directory := fun n => dataOf file n, blocks := [], icons := [] }, ?_, rfl, ?_, h.data,
    headFrame_congr h.frame fun i hi => ?_⟩
  · unfold readMcs
    dsimp only
    rw [if_neg, if_neg, h.frame.name]
    · exact presentation_ok.mpr ⟨hheader, rfl⟩
    · rw [hdiff, h.frame.size]
      simp [h.frame.state, h.frame.sealed]
    · rw [hdiff, hlength, Nat.mul_mod_right, hfile, hlength]
      unfold blockSize
      omega
  · unfold presented saveAt
    dsimp only
    rw [h.data]
    rfl
  · unfold frameSize at hi
    exact dif_pos hi

/-! ## Exchange -/

/-- Files of the same save: name, size and payload. -/
structure SameSave (file file' : Bytes) : Prop where
  name : filename (dataOf file') = filename (dataOf file)
  size : u32 (shift (dataOf file') 4) = u32 (shift (dataOf file) 4) ∧ file'.length = file.length
  payload : file'.drop 128 = file.drop 128

theorem exported_parsed {input : Bytes} {n : ℕ} (heditable : (parse input).editable = true)
    (hn : n < (parse input).saves.length) : ∃ head ∈ heads (dataOf input),
      (parse input).saves[n] = saveAt (dataOf input) head ∧
      (parse input).exportMcs n = .ok (mcsFile (parse input).saves[n]) ∧
      FileOf (dataOf input) head (mcsFile (parse input).saves[n]) := by
  obtain ⟨hsize, hsound, -⟩ := parse_editable.mp heditable
  obtain ⟨hlen, hsave⟩ := parsed_save hsize hsound hn
  have hhead : (heads (dataOf input))[n] ∈ heads (dataOf input) := List.getElem_mem hlen
  refine ⟨_, hhead, hsave, ?_, ?_⟩
  · unfold Card.exportMcs Card.selected
    rw [dif_pos ⟨heditable, hn⟩]
  · rw [hsave]
    exact mcsFile_of (headFrame_same hsound hhead (directoryData_frame rfl)) rfl

theorem sameSave_of {p p' : Pointer} {head head' : ℕ} {file file' : Bytes} (h : FileOf p head file)
    (h' : FileOf p' head' file') (hname : nameAt p' head' = nameAt p head)
    (hdata : chainData p' head' = chainData p head) : SameSave file file' := by
  refine ⟨?_, ⟨?_, ?_⟩, ?_⟩
  · rw [h'.frame.name, h.frame.name, hname]
  · rw [h'.frame.size, h.frame.size, hdata]
  · rw [h'.length, h.length, hdata]
  · rw [h'.data, h.data, hdata]

/-- The names of an editable card tell its saves apart. -/
theorem save_named {input : Bytes} {k : ℕ} {new : Save} (heditable : (parse input).editable = true)
    (hk : k < (parse input).saves.length) (hnew : new ∈ (parse input).saves)
    (hname : (parse input).saves[k].name = new.name) : (parse input).saves[k] = new := by
  obtain ⟨hsize, hsound, -⟩ := parse_editable.mp heditable
  have hnames : ((parse input).saves.map Save.name).Nodup := by
    have hold := hsound.heads.names
    rw [parse_whole hsize, parseData_saves hsound, List.map_map]
    exact hold
  exact List.inj_on_of_nodup_map hnames (List.getElem_mem hk) hnew hname

theorem insert_result {destination result : Card} {s : Save} (heditable : destination.editable = true)
    (h : Insertable destination s) (hresult : destination.insert s = .ok result) :
    parse (editedImage destination s) = result := by
  rw [insert_checked heditable h] at hresult
  split_ifs at hresult
  exact Except.ok.inj hresult

/-- An exported save is read back, and after an insertion into another card with room for it the same
name, size and payload are exported. -/
theorem export_read (c : Card) (hmade : c.Made) (heditable : c.editable = true) (n : ℕ)
    (hn : n < c.saves.length) :
    ∃ file saved, c.exportMcs n = .ok file ∧ readMcs file = .ok saved ∧ saved.name = c.saves[n].name ∧
      saved.titleSjis = c.saves[n].titleSjis ∧ saved.data = c.saves[n].data ∧
      ∀ input, (parse input).editable = true →
        (∀ other ∈ (parse input).saves, other.name ≠ saved.name) →
        saved.data.length / blockSize ≤ (freeList (parse input)).length →
        ∃ result, (parse input).insert saved = .ok result ∧
          (∃ k, ∃ hk : k < result.saves.length, result.saves[k].name = saved.name) ∧
          ∀ k, ∀ hk : k < result.saves.length, result.saves[k].name = saved.name →
            ∃ file', result.exportMcs k = .ok file' ∧ SameSave file file' := by
  cases hmade with
  | unread => exact absurd hn (Nat.not_lt_zero n)
  | parsed input =>
    obtain ⟨-, hsound, -⟩ := parse_editable.mp heditable
    obtain ⟨head, hhead, hsave, hexport, hfile⟩ := exported_parsed heditable hn
    have hheadSound := hsound.heads.sound head hhead
    obtain ⟨saved, hread, hname, htitle, hdata, hframe⟩ := readMcs_of hheadSound hfile
    refine ⟨_, saved, hexport, hread, ?_, ?_, ?_, fun dest hdest hunused hroom => ?_⟩
    · rw [hname, hsave]
      rfl
    · rw [htitle, hsave]
    · rw [hdata, hsave]
      rfl
    · rw [hdata, chainData_length, Nat.mul_div_cancel_left _ (by decide)] at hroom
      have hinsertable := insertable_of_save hsound hhead hname hdata hframe hunused hroom
      obtain ⟨result, hresult, hinserted⟩ := insert_parsed dest saved hdest hinsertable
      obtain ⟨new, hperm, hnewname, hnewdata⟩ := hinserted.saves
      obtain rfl : parse (editedImage (parse dest) saved) = result := insert_result hdest hinsertable hresult
      refine ⟨_, hresult, ?_, fun k hk hkname => ?_⟩
      · obtain ⟨k, hk, hget⟩ := List.getElem_of_mem (hperm.mem_iff.mpr List.mem_cons_self)
        exact ⟨k, hk, by rw [hget, hnewname]⟩
      · obtain ⟨head', hhead', hsave', hexport', hfile'⟩ := exported_parsed hinserted.editable hk
        refine ⟨_, hexport', sameSave_of hfile hfile' ?_ ?_⟩
        · rw [← hname, ← hkname, hsave']
          rfl
        · have hnew := save_named hinserted.editable hk (hperm.mem_iff.mpr List.mem_cons_self)
            (hkname.trans hnewname.symm)
          rw [← hdata, ← hnewdata, ← hnew, hsave']
          rfl

/-! ## Runs on the card of two saves -/

/-- The save of three blocks is exported, read, erased, and inserted where it was. -/
theorem export_read_twoSaves : ∃ file saved destination result file',
    (parse (bytesOf cardSize twoSaveCard)).exportMcs 0 = .ok file ∧ readMcs file = .ok saved ∧
      (parse (bytesOf cardSize twoSaveCard)).erase 0 = .ok destination ∧
      destination.insert saved = .ok result ∧ (∃ k, result.exportMcs k = .ok file') ∧
      SameSave file file' := by
  have hn : 0 < (parse (bytesOf cardSize twoSaveCard)).saves.length := by rw [twoSaveCard_saves]; decide
  obtain ⟨file, saved, hexport, hread, hname, -, hdata, hinsert⟩ :=
    export_read _ (.parsed _) twoSaveCard_editable 0 hn
  obtain ⟨herase, herased⟩ := erase_parsed twoSaveCard_editable hn
  have hleft : (parse (erasedImage (parse (bytesOf cardSize twoSaveCard))
      (parse (bytesOf cardSize twoSaveCard)).saves[0])).saves = [saveAt twoSaveCard 5] :=
    herased.saves.trans (by rw [twoSaveCard_saves]; rfl)
  have hblocks : saved.data.length / blockSize = 3 := by
    simp only [hdata, twoSaveCard_saves, List.getElem_cons_zero]
    show (chainData twoSaveCard 1).length / blockSize = 3
    rw [chainData_length, twoSaveCard_chains.2.1]
    rfl
  have hother : ∀ other ∈ (parse (erasedImage (parse (bytesOf cardSize twoSaveCard))
      (parse (bytesOf cardSize twoSaveCard)).saves[0])).saves, other.name ≠ saved.name := by
    rw [hleft, hname]
    simp only [twoSaveCard_saves, List.getElem_cons_zero, List.mem_singleton, forall_eq]
    show nameAt twoSaveCard 5 ≠ nameAt twoSaveCard 1
    decide
  have hhead : 1 ∈ heads twoSaveCard := by decide
  have hroom := erased_room twoSaveCard_sound hhead
  obtain ⟨result, hresult, ⟨k, hk, hkname⟩, hall⟩ := hinsert _ herased.editable hother (by
    have himage := @erasedImage_data _ 1 twoSaveCard_size
    rw [twoSaveCard_data] at himage
    rw [hblocks, parse_whole (erasedImage_length twoSaveCard_size _), freeList_parseData]
    simp only [twoSaveCard_saves, List.getElem_cons_zero]
    rw [himage twoSaveCard_sound hhead]
    rwa [twoSaveCard_chains.2.1] at hroom)
  obtain ⟨file', hexport', hsame⟩ := hall k hk hkname
  exact ⟨file, saved, _, result, file', hexport, hread, herase, hresult, ⟨k, hexport'⟩, hsame⟩

/-- A card that was never read counts as editable and has room, but no save can be inserted into it. -/
theorem export_unread_rejected : ∃ file saved, (parse (bytesOf cardSize twoSaveCard)).exportMcs 0 = .ok file ∧
    readMcs file = .ok saved ∧ ({} : Card).editable = true ∧
      (∀ other ∈ ({} : Card).saves, other.name ≠ saved.name) ∧
      saved.data.length / blockSize ≤ (freeList {}).length ∧
      ({} : Card).insert saved = .error "Edited card failed structural validation" := by
  have hn : 0 < (parse (bytesOf cardSize twoSaveCard)).saves.length := by rw [twoSaveCard_saves]; decide
  obtain ⟨head, hhead, -, hexport, hfile⟩ := exported_parsed twoSaveCard_editable hn
  rw [twoSaveCard_data] at hhead hfile
  have hsave := twoSaveCard_sound.heads.sound head hhead
  obtain ⟨saved, hread, hname, -, hdata, hframe⟩ := readMcs_of hsave hfile
  have hfree : (freeList {}).length = 15 := by decide
  have hinsertable : Insertable {} saved := by
    apply insertable_of_save twoSaveCard_sound hhead hname hdata hframe (by simp)
    rw [hfree]
    exact hsave.chain.length_le.2
  exact ⟨_, saved, hexport, hread, rfl, by simp, hinsertable.enough, unread_rejects hinsertable⟩

end PsxRecomp.MemoryCard
