import PsxRecomp.Memory.PassStores
import PsxRecomp.DataShards.Replay

/-! The text guard: the reference image of the game's text and the page bitmaps of its writers. A
page that no bitmap names holds the bytes of the reference image, through every run. -/
namespace PsxRecomp.Memory
open DataShards (Byte Word Cells Geometry Width)
set_option autoImplicit false

/-! ## State -/

/-- `text_ref_image`, by physical address, with its bounds. -/
structure TextImage where
  bytes : Cells
  lo : ℕ
  hi : ℕ

/-- What `dirty_ram_is_dirty` and the baseline read besides the bitmap. -/
structure GuardEnv where
  forceInterp : Bool
  shellwinInterp : Bool
  overlayRegionFloor : ℕ
  textImageLo : ℕ

/-- RAM, `dirty_ram_bitmap` and `text_modified_bitmap`, a page of 4096 bytes a bit. -/
structure Guarded where
  bus : Bus
  env : GuardEnv
  dirty : ℕ → Bool
  modified : ℕ → Bool
  image : Option TextImage

namespace Guarded

/-- `RAM_LIVE` -/
def live (s : Guarded) : ℕ := s.bus.geometry.mask.toNat + 1

/-- `dirty_ram_is_dirty`, of an offset of the live RAM. -/
def isDirty (s : Guarded) (phys : ℕ) : Bool :=
  if s.live ≤ phys then false
  else if s.env.forceInterp ∧ 0x10000 ≤ phys then true
  else if s.env.shellwinInterp ∧ 0x30000 ≤ phys ∧ phys ≤ 0x5AFFF then true
  else if s.env.overlayRegionFloor ≤ phys ∨ 0x10000 ≤ phys ∧ phys < s.env.textImageLo then true
  else s.dirty (phys / 4096)

/-- `dirty_ram_register_text_image` -/
def registerTextImage (s : Guarded) (physLo : ℕ) (bytes : List Byte) : Guarded :=
  if bytes = [] ∨ s.live ≤ physLo then s
  else { s with
    image := some ⟨fun i => bytes.getD (i - physLo) 0, physLo, physLo + min bytes.length (s.live - physLo)⟩
    modified := fun _ => false }

/-- `text_guard_note_write` -/
def noteWrite (s : Guarded) (pos : ℕ) (val : Word) (w : Width) : Guarded :=
  match s.image with
  | none => s
  | some img =>
    if pos < img.lo ∨ img.hi < pos + w.bytes then s
    else if (List.range w.bytes).all fun i => img.bytes (pos + i) = byteOf val i then s
    else { s with modified := Function.update s.modified (pos / 4096) true }

/-- `dirty_ram_mark_kernel_write` -/
def markKernelWrite (s : Guarded) (pos : ℕ) : Guarded :=
  if 0x10000 ≤ pos ∨ s.live ≤ pos then s
  else { s with dirty := Function.update s.dirty (pos / 4096) true }

/-- `psx_write_byte`, `psx_write_half` and `psx_write_word` outside render passes. -/
def store (s : Guarded) (w : Width) (addr val : Word) : Guarded :=
  match s.bus.place w addr (clip w val) with
  | .ram pos =>
    { (s.markKernelWrite pos).noteWrite pos (clip w val) w with
      bus := (s.bus.writeRaw w addr val).1 }
  | _ => { s with bus := (s.bus.writeRaw w addr val).1 }

/-- The pages from the one of `first` to the one of `last`. -/
def setPages (bits : ℕ → Bool) (first last : ℕ) (v : Bool) : ℕ → Bool :=
  fun p => if first / 4096 ≤ p ∧ p ≤ last / 4096 then v else bits p

/-- `dirty_ram_mark_executable_range` -/
def markExecutableRange (s : Guarded) (phys len : Word) : Guarded :=
  if len = 0 ∨ s.live ≤ phys.toNat then s
  else
    let last := phys + len - 1
    let last := if s.live ≤ last.toNat ∨ last < phys then s.live - 1 else last.toNat
    { s with dirty := setPages s.dirty phys.toNat last true }

/-- `dirty_ram_text_bless` with the bytes that RAM holds. -/
def textBless (s : Guarded) (phys len : ℕ) : Guarded :=
  match s.image with
  | none => s
  | some img =>
    let lo := if phys < img.lo then img.lo else phys
    let hi := if img.hi < phys + len then img.hi else phys + len
    { s with image := some { img with
      bytes := fun i => if lo ≤ i ∧ i < hi then s.bus.ram i else img.bytes i } }

/-- `dirty_ram_clear_image_baseline` -/
def clearImageBaseline (s : Guarded) : Guarded :=
  if s.env.overlayRegionFloor ≤ 0x10000 then s
  else
    let floor := if s.live < s.env.overlayRegionFloor then s.live else s.env.overlayRegionFloor
    let base := if s.env.textImageLo < 0x10000 then 0x10000 else s.env.textImageLo
    if floor ≤ base then s else { s with dirty := setPages s.dirty base (floor - 1) false }

/-- Whether RAM and image differ on a page, within the image and the live RAM. -/
def differs (s : Guarded) (img : TextImage) (p : ℕ) : Bool :=
  let lo := if p * 4096 < img.lo then img.lo else p * 4096
  let hi := if img.hi < p * 4096 + 4096 then img.hi else p * 4096 + 4096
  let hi := if s.live < hi then s.live else hi
  (List.range (hi - lo)).any fun i => s.bus.ram (lo + i) ≠ img.bytes (lo + i)

/-- `dirty_ram_text_guard_resync_after_restore` -/
def textGuardResync (s : Guarded) : Guarded :=
  { s with modified := fun p =>
      match s.image with
      | none => false
      | some img =>
        img.lo < img.hi && img.lo / 4096 ≤ p && p ≤ (img.hi - 1) / 4096 && s.differs img p }

/-- A savestate's RAM and dirty pages, and the resync behind them. -/
def restore (s : Guarded) (ram : Cells) (dirty : ℕ → Bool) : Guarded :=
  textGuardResync { s with bus := { s.bus with ram := ram }, dirty := dirty }

/-- The loop of `dirty_ram_text_native_ok_ranges_from` over the pages of a range. -/
def pagesClean (s : Guarded) (phys len : ℕ) : Bool :=
  (List.range ((phys + len - 1) / 4096 + 1 - phys / 4096)).all fun k =>
    let p := phys / 4096 + k
    !s.modified p && !s.isDirty (p * 4096)

/-- One range: within the image, and clean or the same. -/
def rangeOk (s : Guarded) (img : TextImage) (r : Word × Word) : Bool :=
  let phys := (r.1 &&& 0x1FFFFFFF).toNat
  let len := r.2.toNat
  if len = 0 ∨ phys < img.lo ∨ img.hi ≤ phys ∨ img.hi - phys < len then false
  else s.pagesClean phys len ||
    (List.range len).all fun i => s.bus.ram (phys + i) = img.bytes (phys + i)

/-- `dirty_ram_text_native_ok_ranges_from` -/
def nativeOkRangesFrom (s : Guarded) (ranges : List (Word × Word)) : Bool :=
  match s.image with
  | none => false
  | some img =>
    if ranges = [] then false
    else if s.env.forceInterp then false
    else ranges.all (s.rangeOk img)

/-- RAM is the image where the image is. -/
def HoldsImage (s : Guarded) : Prop :=
  ∀ img ∈ s.image, ∀ i, img.lo ≤ i → i < img.hi → s.bus.ram i = img.bytes i

end Guarded

/-- What the guard has to live through. -/
inductive GuardStep : Guarded → Guarded → Prop
  | store (s : Guarded) (w : Width) (addr val : Word) (ha : addr.toNat % w.bytes = 0) :
      GuardStep s (s.store w addr val)
  | mark (s : Guarded) (phys len : Word) : GuardStep s (s.markExecutableRange phys len)
  | bless (s : Guarded) (phys len : ℕ) (h : phys + len ≤ s.live) : GuardStep s (s.textBless phys len)
  | baseline (s : Guarded) (h : s.HoldsImage) : GuardStep s s.clearImageBaseline
  | restore (s : Guarded) (ram : Cells) (dirty : ℕ → Bool) : GuardStep s (s.restore ram dirty)
  | work (s : Guarded) (b : Bus) (hram : b.ram = s.bus.ram) (hg : b.geometry = s.bus.geometry) :
      GuardStep s { s with bus := b }

variable {s s' : Guarded} {img : TextImage}

/-! ## The invariant -/

/-- Neither bitmap names the page of an offset. -/
def Guarded.CleanAt (s : Guarded) (i : ℕ) : Prop :=
  s.modified (i / 4096) = false ∧ s.isDirty (i / 4096 * 4096) = false

/-- RAM and image agree off the named pages. -/
structure Shadowed (s : Guarded) (img : TextImage) : Prop where
  image : s.image = some img
  bounds : img.lo % 4 = 0 ∧ img.hi % 4 = 0
  fits : img.hi ≤ s.live
  same : ∀ i, img.lo ≤ i → i < img.hi → s.CleanAt i → s.bus.ram i = img.bytes i

theorem isDirty_mono (henv : s'.env = s.env) (hlive : s'.live = s.live)
    (hdirty : ∀ p, s.dirty p = true → s'.dirty p = true) {x : ℕ} (h : s'.isDirty x = false) :
    s.isDirty x = false := by
  unfold Guarded.isDirty at h ⊢
  rw [henv, hlive] at h
  repeat' split
  · rfl
  · rename_i hc hf
    rw [if_neg hc, if_pos hf] at h
    exact h
  · rename_i hc hf hw
    rw [if_neg hc, if_neg hf, if_pos hw] at h
    exact h
  · rename_i hc hf hw ho
    rw [if_neg hc, if_neg hf, if_neg hw, if_pos ho] at h
    exact h
  · rename_i hc hf hw ho
    rw [if_neg hc, if_neg hf, if_neg hw, if_neg ho] at h
    exact Bool.eq_false_iff.2 fun hd => Bool.eq_false_iff.1 h (hdirty _ hd)

/-- More pages named, and the same bytes where none is. -/
theorem Shadowed.weaken (h : Shadowed s img) {img' : TextImage} (himage : s'.image = some img')
    (hlo : img'.lo = img.lo) (hhi : img'.hi = img.hi) (henv : s'.env = s.env)
    (hlive : s'.live = s.live) (hdirty : ∀ p, s.dirty p = true → s'.dirty p = true)
    (hmodified : ∀ p, s.modified p = true → s'.modified p = true)
    (hsame : ∀ i, img.lo ≤ i → i < img.hi → s'.CleanAt i →
      s'.bus.ram i = img'.bytes i ∨ s'.bus.ram i = s.bus.ram i ∧ img'.bytes i = img.bytes i) :
    Shadowed s' img' := by
  refine ⟨himage, hlo ▸ hhi ▸ h.bounds, hhi ▸ hlive ▸ h.fits, fun i hi hi' hclean => ?_⟩
  rw [hlo] at hi
  rw [hhi] at hi'
  rcases hsame i hi hi' hclean with he | ⟨hram, hbytes⟩
  · exact he
  · rw [hram, hbytes]
    exact h.same i hi hi' ⟨Bool.eq_false_iff.2 fun hm => Bool.eq_false_iff.1 hclean.1 (hmodified _ hm),
      isDirty_mono henv hlive hdirty hclean.2⟩

/-! ## Stores -/

/-- An aligned store that touches a word-aligned stretch lies within it. -/
theorem aligned_within {w : Width} {pos lo hi i : ℕ} (hpos : pos % w.bytes = 0) (hlo : lo % 4 = 0)
    (hhi : hi % 4 = 0) (hi₁ : lo ≤ i) (hi₂ : i < hi) (hw₁ : pos ≤ i) (hw₂ : i < pos + w.bytes) :
    lo ≤ pos ∧ pos + w.bytes ≤ hi ∧ i / 4096 = pos / 4096 := by
  have hw : w.bytes = 1 ∨ w.bytes = 2 ∨ w.bytes = 4 := by cases w <;> decide
  rcases hw with hw | hw | hw <;> rw [hw] at hpos hw₂ ⊢ <;> omega

theorem markKernelWrite_spec (s : Guarded) (pos : ℕ) :
    (s.markKernelWrite pos).bus = s.bus ∧ (s.markKernelWrite pos).env = s.env ∧
      (s.markKernelWrite pos).image = s.image ∧ (s.markKernelWrite pos).modified = s.modified ∧
      ∀ p, s.dirty p = true → (s.markKernelWrite pos).dirty p = true := by
  unfold Guarded.markKernelWrite
  split
  · exact ⟨rfl, rfl, rfl, rfl, fun _ h => h⟩
  · refine ⟨rfl, rfl, rfl, rfl, fun p h => ?_⟩
    by_cases hp : p = pos / 4096
    · rw [hp]
      exact Function.update_self _ _ _
    · exact (Function.update_of_ne hp _ _).trans h

theorem noteWrite_spec (himage : s.image = some img) (pos : ℕ) (val : Word) (w : Width) :
    (s.noteWrite pos val w).bus = s.bus ∧ (s.noteWrite pos val w).env = s.env ∧
      (s.noteWrite pos val w).image = some img ∧ (s.noteWrite pos val w).dirty = s.dirty ∧
      (∀ p, s.modified p = true → (s.noteWrite pos val w).modified p = true) ∧
      (img.lo ≤ pos → pos + w.bytes ≤ img.hi → (s.noteWrite pos val w).modified (pos / 4096) = false →
        ∀ k < w.bytes, img.bytes (pos + k) = byteOf val k) := by
  unfold Guarded.noteWrite
  rw [himage]
  dsimp only
  split
  · exact ⟨rfl, rfl, himage, rfl, fun _ h => h, fun _ _ => by omega⟩
  · split
    · rename_i hall
      refine ⟨rfl, rfl, himage, rfl, fun _ h => h, fun _ _ _ k hk => ?_⟩
      exact of_decide_eq_true (List.all_eq_true.1 hall k (List.mem_range.2 hk))
    · refine ⟨rfl, rfl, rfl, rfl, fun p h => ?_, fun _ _ hclean => ?_⟩
      · by_cases hp : p = pos / 4096
        · rw [hp]
          exact Function.update_self _ _ _
        · exact (Function.update_of_ne hp _ _).trans h
      · exact absurd ((Function.update_self _ _ _).symm.trans hclean) Bool.noConfusion

theorem guarded_store (h : Shadowed s img) {w : Width} {addr val : Word}
    (ha : addr.toNat % w.bytes = 0) : Shadowed (s.store w addr val) img := by
  have hgeometry := writeRaw_geometry s.bus w addr val
  rcases writeRaw_ram s.bus w addr val with ⟨pos, hplace, hram⟩ | ⟨hplace, hram⟩
  · obtain ⟨hbus, henv, himage, hmodified, hdirty⟩ := markKernelWrite_spec s pos
    obtain ⟨-, henv', himage', hdirty', hmodified', hnoted⟩ :=
      noteWrite_spec (himage.trans h.image) pos (clip w val) w
    have hstore : s.store w addr val =
        { (s.markKernelWrite pos).noteWrite pos (clip w val) w with
          bus := (s.bus.writeRaw w addr val).1 } := by
      unfold Guarded.store
      rw [hplace]
    obtain ⟨hwindow, rfl⟩ := place_ram hplace
    have hpos := mapWrite_aligned s.bus.geometry ha hwindow
    rw [hstore]
    refine h.weaken himage' rfl rfl (henv'.trans henv) (congrArg (fun g => g.mask.toNat + 1) hgeometry)
      (fun p hp => ?_) (fun p hp => hmodified' p (hmodified ▸ hp)) fun i hi hi' hclean => ?_
    · show ((s.markKernelWrite _).noteWrite _ _ w).dirty p = true
      rw [hdirty']
      exact hdirty p hp
    · dsimp only at hclean ⊢
      rw [hram]
      by_cases hin : (mapWrite s.bus.geometry addr).toNat ≤ i ∧
          i < (mapWrite s.bus.geometry addr).toNat + w.bytes
      · obtain ⟨hlo, hhi, hpage⟩ := aligned_within hpos h.bounds.1 h.bounds.2 hi hi' hin.1 hin.2
        have hbyte := hnoted hlo hhi (hpage ▸ hclean.1) (i - (mapWrite s.bus.geometry addr).toNat)
          (by omega)
        rw [Nat.add_sub_cancel' hin.1] at hbyte
        exact Or.inl ((if_pos hin).trans hbyte.symm)
      · exact Or.inr ⟨poke_outside hin, rfl⟩
  · have hstore : s.store w addr val = { s with bus := (s.bus.writeRaw w addr val).1 } := by
      unfold Guarded.store
      split
      · rename_i pos hpos
        exact absurd hpos (hplace pos)
      · rfl
    rw [hstore]
    exact h.weaken h.image rfl rfl rfl (congrArg (fun g => g.mask.toNat + 1) hgeometry)
      (fun _ hp => hp) (fun _ hp => hp) fun i _ _ _ => Or.inr ⟨congrFun hram i, rfl⟩

/-! ## The other writers -/

theorem setPages_true {bits : ℕ → Bool} {first last p : ℕ} (h : bits p = true) :
    Guarded.setPages bits first last true p = true := by
  unfold Guarded.setPages
  split
  · rfl
  · exact h

theorem guarded_mark (h : Shadowed s img) (phys len : Word) :
    Shadowed (s.markExecutableRange phys len) img := by
  unfold Guarded.markExecutableRange
  split
  · exact h
  · exact h.weaken h.image rfl rfl rfl rfl (fun _ hp => setPages_true hp) (fun _ hp => hp)
      fun _ _ _ _ => Or.inr ⟨rfl, rfl⟩

theorem ite_or {α : Type} (c : Prop) [Decidable c] (x y : α) :
    x = (if c then x else y) ∨ (if c then x else y) = y := by
  split
  · exact Or.inl rfl
  · exact Or.inr rfl

theorem guarded_bless (h : Shadowed s img) (phys len : ℕ) :
    ∃ img', Shadowed (s.textBless phys len) img' := by
  unfold Guarded.textBless
  rw [h.image]
  exact ⟨_, h.weaken rfl rfl rfl rfl rfl (fun _ hp => hp) (fun _ hp => hp) fun i _ _ _ =>
    (ite_or _ _ _).imp_right fun hkept => ⟨rfl, hkept⟩⟩

theorem guarded_baseline (h : Shadowed s img) (hholds : s.HoldsImage) :
    Shadowed s.clearImageBaseline img := by
  unfold Guarded.clearImageBaseline
  dsimp only
  repeat' split
  all_goals
    first
    | exact h
    | exact ⟨h.image, h.bounds, h.fits, fun i hi hi' _ => hholds img h.image i hi hi'⟩

/-- The resync names every page that differs. -/
theorem guarded_restore (h : Shadowed s img) (ram : Cells) (dirty : ℕ → Bool) :
    Shadowed (s.restore ram dirty) img := by
  refine ⟨h.image, h.bounds, h.fits, fun i hi hi' hclean => ?_⟩
  have hfits : img.hi ≤ s.bus.geometry.mask.toNat + 1 := h.fits
  have hpage := hclean.1
  unfold Guarded.restore Guarded.textGuardResync at hpage ⊢
  dsimp only at hpage ⊢
  rw [h.image] at hpage
  dsimp only at hpage
  by_contra hdiffer
  refine Bool.eq_false_iff.1 hpage ?_
  simp only [Bool.and_eq_true, decide_eq_true_eq]
  refine ⟨⟨⟨by omega, by omega⟩, by omega⟩, ?_⟩
  unfold Guarded.differs Guarded.live
  dsimp only
  rw [List.any_eq_true]
  generalize hlo : (if i / 4096 * 4096 < img.lo then img.lo else i / 4096 * 4096) = lo
  have hlo' : lo ≤ i := by
    rw [← hlo]
    split <;> omega
  refine ⟨i - lo, List.mem_range.2 ?_, decide_eq_true ?_⟩
  · repeat' split
    all_goals omega
  · rw [Nat.add_sub_cancel' hlo']
    exact hdiffer

theorem GuardStep.shadowed (hs : GuardStep s s') (h : ∃ img, Shadowed s img) :
    ∃ img, Shadowed s' img := by
  obtain ⟨img, h⟩ := h
  cases hs with
  | store w addr val ha => exact ⟨img, guarded_store h ha⟩
  | mark phys len => exact ⟨img, guarded_mark h phys len⟩
  | bless phys len => exact guarded_bless h phys len
  | baseline hholds => exact ⟨img, guarded_baseline h hholds⟩
  | restore ram dirty => exact ⟨img, guarded_restore h ram dirty⟩
  | work b hram hg =>
    exact ⟨img, h.weaken h.image rfl rfl rfl (congrArg (fun g => g.mask.toNat + 1) hg)
      (fun _ hp => hp) (fun _ hp => hp) fun i _ _ _ => Or.inr ⟨congrFun hram i, rfl⟩⟩

theorem run_shadowed (hrun : Relation.ReflTransGen GuardStep s s') (h : ∃ img, Shadowed s img) :
    ∃ img, Shadowed s' img := by
  induction hrun with
  | refl => exact h
  | tail _ hs ih => exact hs.shadowed ih

/-! ## The answer -/

/-- Every byte of the listed ranges is in RAM as it is in the image. -/
def Guarded.RangesSame (s : Guarded) (ranges : List (Word × Word)) : Prop :=
  ∀ img ∈ s.image, ∀ r ∈ ranges, ∀ k < r.2.toNat,
    s.bus.ram ((r.1 &&& 0x1FFFFFFF).toNat + k) = img.bytes ((r.1 &&& 0x1FFFFFFF).toNat + k)

theorem pagesClean_at {phys len k : ℕ} (h : s.pagesClean phys len = true) (hk : k < len) :
    s.CleanAt (phys + k) := by
  have hpage := List.all_eq_true.1 h ((phys + k) / 4096 - phys / 4096)
    (List.mem_range.2 (by omega))
  rw [show phys / 4096 + ((phys + k) / 4096 - phys / 4096) = (phys + k) / 4096 by omega] at hpage
  simp only [Bool.and_eq_true, Bool.not_eq_true'] at hpage
  exact hpage

theorem Shadowed.nativeOk (h : Shadowed s img) {ranges : List (Word × Word)}
    (hok : s.nativeOkRangesFrom ranges = true) : s.RangesSame ranges := by
  intro img' himg' r hr k hk
  obtain rfl := Option.some.inj (h.image.symm.trans himg')
  unfold Guarded.nativeOkRangesFrom at hok
  rw [h.image] at hok
  dsimp only at hok
  split at hok
  · cases hok
  · split at hok
    · cases hok
    · have hrange := List.all_eq_true.1 hok r hr
      unfold Guarded.rangeOk at hrange
      dsimp only at hrange
      split at hrange
      · cases hrange
      · rename_i hin
        rcases Bool.or_eq_true_iff.1 hrange with hclean | hall
        · exact h.same _ (by omega) (by omega) (pagesClean_at hclean hk)
        · exact of_decide_eq_true (List.all_eq_true.1 hall k (List.mem_range.2 hk))

/-- A page that registration leaves unnamed holds the image already. -/
def HeldAtRegistration (s : Guarded) (physLo : ℕ) (bytes : List Byte) : Prop :=
  s.env.forceInterp = true ∨ ∀ i, physLo ≤ i → i < physLo + bytes.length → i < s.live →
    s.isDirty (i / 4096 * 4096) = false → s.bus.ram i = bytes.getD (i - physLo) 0

theorem GuardStep.env (hs : GuardStep s s') : s'.env = s.env := by
  cases hs with
  | store w addr val =>
    unfold Guarded.store Guarded.noteWrite Guarded.markKernelWrite
    dsimp only
    repeat' split
    all_goals rfl
  | mark =>
    unfold Guarded.markExecutableRange
    split <;> rfl
  | bless =>
    unfold Guarded.textBless
    split <;> rfl
  | baseline =>
    unfold Guarded.clearImageBaseline
    dsimp only
    repeat' split
    all_goals rfl
  | restore => rfl
  | work => rfl

theorem run_env (hrun : Relation.ReflTransGen GuardStep s s') : s'.env = s.env := by
  induction hrun with
  | refl => rfl
  | tail _ hs ih => exact hs.env.trans ih

theorem live_le (s : Guarded) : s.live % 4 = 0 ∧ s.live ≤ 0x800000 := by
  unfold Guarded.live
  rcases s.bus.geometry.live with h | h <;> rw [h] <;> decide

section Registration

variable {physLo : ℕ} {bytes : List Byte}

theorem registered_eq (hne : bytes ≠ []) (hlo : physLo < s.live) :
    s.registerTextImage physLo bytes = { s with
      image := some ⟨fun i => bytes.getD (i - physLo) 0, physLo,
        physLo + min bytes.length (s.live - physLo)⟩
      modified := fun _ => false } := by
  unfold Guarded.registerTextImage
  exact if_neg (by rintro (h | h); exacts [hne h, by omega])

/-- At the registration the invariant says that the unnamed pages hold the image. -/
theorem registered_shadowed (hne : bytes ≠ []) (hlo : physLo < s.live) (haligned : physLo % 4 = 0)
    (hlen : bytes.length % 4 = 0)
    (hheld : ∀ i, physLo ≤ i → i < physLo + bytes.length → i < s.live →
      s.isDirty (i / 4096 * 4096) = false → s.bus.ram i = bytes.getD (i - physLo) 0) :
    ∃ img, Shadowed (s.registerTextImage physLo bytes) img := by
  have hlive := live_le s
  rw [registered_eq hne hlo]
  refine ⟨_, rfl, ⟨haligned, by dsimp only; omega⟩, ?_, fun i hi hi' hclean => ?_⟩
  · show physLo + min bytes.length (s.live - physLo) ≤ s.live
    omega
  · dsimp only at hi hi' ⊢
    exact hheld i hi (by omega) (by omega) hclean.2

/-- Compiled ranges run over the bytes they were compiled from, in every run behind a registration,
exactly when the registration found the image on every page that is not dirty. -/
theorem text_guard_sound_iff (hne : bytes ≠ []) (hlo : physLo < s.live) (haligned : physLo % 4 = 0)
    (hlen : bytes.length % 4 = 0) :
    (∀ (s' : Guarded) (ranges : List (Word × Word)),
      Relation.ReflTransGen GuardStep (s.registerTextImage physLo bytes) s' →
      s'.nativeOkRangesFrom ranges = true → s'.RangesSame ranges) ↔
    HeldAtRegistration s physLo bytes := by
  constructor
  · intro hall
    by_contra hnot
    unfold HeldAtRegistration at hnot
    push Not at hnot
    obtain ⟨hforce, i, hi, hi', hilive, hclean, hdiffer⟩ := hnot
    have hlive := live_le s
    have hsmall : (BitVec.ofNat 32 i &&& 0x1FFFFFFF : Word).toNat = i := by
      rw [DataShards.phys_toNat, BitVec.toNat_ofNat]
      omega
    have hok : (s.registerTextImage physLo bytes).nativeOkRangesFrom [(BitVec.ofNat 32 i, 1)] =
        true := by
      have hrange : ¬((1 : ℕ) = 0 ∨ i < physLo ∨ physLo + min bytes.length (s.live - physLo) ≤ i ∨
          physLo + min bytes.length (s.live - physLo) - i < 1) := by omega
      rw [registered_eq hne hlo]
      unfold Guarded.nativeOkRangesFrom
      dsimp only
      rw [if_neg (List.cons_ne_nil _ _), if_neg hforce, List.all_cons, List.all_nil, Bool.and_true]
      unfold Guarded.rangeOk
      dsimp only
      rw [hsmall, show (1 : Word).toNat = 1 from rfl, if_neg hrange]
      refine Bool.or_eq_true_iff.2 (Or.inl (List.all_eq_true.2 fun k hk => ?_))
      have hk := List.mem_range.1 hk
      rw [show i / 4096 + k = i / 4096 by omega]
      simp only [Bool.not_false, Bool.true_and, Bool.not_eq_true']
      exact hclean
    have hsame := hall _ _ .refl hok
    rw [registered_eq hne hlo] at hsame
    have hbyte := hsame _ rfl _ List.mem_cons_self 0 (show 0 < (1 : Word).toNat by decide)
    rw [hsmall] at hbyte
    exact hdiffer hbyte
  · rintro (hforce | hheld) s' ranges hrun hok
    · have henv := run_env hrun
      rw [registered_eq hne hlo] at henv
      unfold Guarded.nativeOkRangesFrom at hok
      split at hok
      · cases hok
      · split at hok
        · cases hok
        · rw [henv, if_pos hforce] at hok
          cases hok
    · obtain ⟨img, h⟩ := run_shadowed hrun (registered_shadowed hne hlo haligned hlen hheld)
      exact h.nativeOk hok

end Registration

/-! ## A registration before the text is loaded -/

def emptyGuard : Guarded where
  bus := modBus
  env := ⟨false, false, 0x20000, 0x10000⟩
  dirty _ := false
  modified _ := false
  image := none

/-- The image in RAM, a store over it, a bless, and a savestate with the blessed bytes. -/
def loadedGuard : Guarded :=
  { emptyGuard with bus := { modBus with ram := fun i => if 0x10000 ≤ i ∧ i < 0x10004 then 1 else 0 } }

def storedGuard : Guarded := (loadedGuard.registerTextImage 0x10000 [1, 1, 1, 1]).store .word 0x80010000 0x02020202

def restoredGuard : Guarded := (storedGuard.textBless 0x10000 4).restore (fun _ => 2) fun _ => false

theorem blessed_guarded :
    storedGuard.nativeOkRangesFrom [(0x80010000, 4)] = false ∧
      restoredGuard.nativeOkRangesFrom [(0x80010000, 4)] = true ∧
        restoredGuard.RangesSame [(0x80010000, 4)] := by
  have hok : restoredGuard.nativeOkRangesFrom [(0x80010000, 4)] = true := by decide
  have hheld : HeldAtRegistration loadedGuard 0x10000 [1, 1, 1, 1] := by
    refine Or.inr fun i hlo hhi _ _ => ?_
    rw [List.length_cons, List.length_cons, List.length_cons, List.length_singleton] at hhi
    obtain rfl | rfl | rfl | rfl : i = 0x10000 ∨ i = 0x10001 ∨ i = 0x10002 ∨ i = 0x10003 := by omega
    all_goals rfl
  have hrun : Relation.ReflTransGen GuardStep (loadedGuard.registerTextImage 0x10000 [1, 1, 1, 1]) restoredGuard :=
    ((Relation.ReflTransGen.single (.store _ .word 0x80010000 0x02020202 (by decide))).tail
      (.bless _ 0x10000 4 (by decide))).tail (.restore _ _ _)
  exact ⟨by decide, hok, (text_guard_sound_iff (List.cons_ne_nil _ _) (by decide) (by decide) (by decide)).2
    hheld _ _ hrun hok⟩

/-- RAM holds zeros, the image ones. -/
theorem text_guard_fails :
    ¬∀ (s : Guarded) (physLo : ℕ) (bytes : List Byte), bytes ≠ [] → physLo < s.live →
      physLo % 4 = 0 → bytes.length % 4 = 0 → ∀ (s' : Guarded) (ranges : List (Word × Word)),
      Relation.ReflTransGen GuardStep (s.registerTextImage physLo bytes) s' →
      s'.nativeOkRangesFrom ranges = true → s'.RangesSame ranges := by
  intro hall
  have hsame := hall emptyGuard 0x10000 [1, 1, 1, 1] (List.cons_ne_nil _ _) (by decide) (by decide)
    (by decide) _ [(0x80010000, 4)] .refl (by decide)
  have hbyte := hsame _ rfl _ List.mem_cons_self 0 (by decide)
  exact absurd hbyte (by decide)

end PsxRecomp.Memory
