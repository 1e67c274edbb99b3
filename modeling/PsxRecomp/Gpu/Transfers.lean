import Mathlib
import PsxRecomp.Gpu.Runs

/-! Pixels into the VRAM and back: an upload stores its halfwords along the rows of its rectangle,
round both edges, and the readback of the same rectangle returns them. -/
namespace PsxRecomp.Gpu
set_option autoImplicit false

namespace State

/-! ## GPUREAD -/

/-- One round of the loop: the pixel, and whether it was the last. -/
def readPixel (g : State) : Half × State × Bool :=
  let r := g.readback
  let pixel := g.vram ((r.y.toNat + r.row.toNat) % 512 * 1024 + (r.x.toNat + r.col.toNat) % 1024)
  if r.col + 1 = r.w then
    if r.row + 1 = r.h then
      (pixel, { g with readback := { r with col := 0, row := r.row + 1, active := 0 } }, true)
    else (pixel, { g with readback := { r with col := 0, row := r.row + 1 } }, false)
  else (pixel, { g with readback := { r with col := r.col + 1 } }, false)

/-- `gpu_read_gpuread`: two pixels a word, low half first. -/
def readGpuread (g : State) : Word × State :=
  if g.readback.active = 0 then (g.display.gpureadLatch, g)
  else
    let a := g.readPixel
    let low := a.1.setWidth 32
    let b := if a.2.2 then (low, a.2.1) else
      let b := a.2.1.readPixel
      (low ||| (b.1.setWidth 32 <<< (16 : ℕ)), b.2.1)
    (b.1, { b.2 with display := { b.2.display with gpureadLatch := b.1 } })

/-- The words of `n` reads. -/
def readWords : ℕ → State → List Word × State
  | 0, g => ([], g)
  | n + 1, g =>
    let a := g.readGpuread
    let rest := readWords n a.2
    (a.1 :: rest.1, rest.2)

def writeWords (R : Raster) (words : List Word) (g : State) : State :=
  words.foldl (fun g w => (g.writeGp0 R w).1) g

end State

/-! ## The cells of a rectangle -/

/-- A rectangle as a transfer has it: a corner in the VRAM and a size. -/
structure Block where
  x : ℕ
  y : ℕ
  w : ℕ
  h : ℕ
  w_pos : 0 < w
  w_le : w ≤ 1024
  h_le : h ≤ 512

/-- The rectangle of the words behind the head. -/
def blockOf (place dims : Word) : Block where
  x := place.toNat % 1024
  y := place.toNat / 65536 % 512
  w := pixelColumns dims
  h := pixelRows dims
  w_pos := (pixelColumns_range dims).1
  w_le := (pixelColumns_range dims).2
  h_le := (pixelRows_range dims).2

/-- Where the pixel number `p` lies, counted along the rows. -/
def Block.cell (b : Block) (p : ℕ) : ℕ := (b.y + p / b.w) % 512 * 1024 + (b.x + p % b.w) % 1024

variable {b : Block} {p q : ℕ} {R : Raster} {g : State}

theorem mod_shift_inj {n x i j : ℕ} (hi : i < n) (hj : j < n) (h : (x + i) % n = (x + j) % n) : i = j := by
  have hmod : i % n = j % n := Nat.ModEq.add_left_cancel' x h
  rwa [Nat.mod_eq_of_lt hi, Nat.mod_eq_of_lt hj] at hmod

/-- No cell is met twice. -/
theorem Block.cell_inj (hp : p < b.w * b.h) (hq : q < b.w * b.h) (h : b.cell p = b.cell q) : p = q := by
  have hw := b.w_le
  have hh := b.h_le
  have hpw := Nat.mod_lt p b.w_pos
  have hqw := Nat.mod_lt q b.w_pos
  have hph : p / b.w < b.h := Nat.div_lt_of_lt_mul hp
  have hqh : q / b.w < b.h := Nat.div_lt_of_lt_mul hq
  simp only [Block.cell] at h
  have hrow : p / b.w = q / b.w := mod_shift_inj (n := 512) (x := b.y) (by omega) (by omega) (by omega)
  have hcol : p % b.w = q % b.w := mod_shift_inj (n := 1024) (x := b.x) (by omega) (by omega) (by omega)
  rw [← Nat.div_add_mod p b.w, ← Nat.div_add_mod q b.w, hrow, hcol]

theorem rowCol {w row col : ℕ} (hcol : col < w) (hp : row * w + col = p) : p / w = row ∧ p % w = col := by
  subst hp
  rw [Nat.mul_comm, Nat.mul_add_div (by omega), Nat.mul_add_mod, Nat.div_eq_of_lt hcol, Nat.mod_eq_of_lt hcol]
  exact ⟨rfl, rfl⟩

/-! ## Storing -/

/-- What a store leaves of a pixel: bit 15 forced, and nothing stored over a protected pixel. -/
def stored (d : DrawRegs) (pixel old : Half) : Half :=
  if d.checkMaskBit ≠ 0 ∧ old.getLsbD 15 then old
  else if d.setMaskBit ≠ 0 then pixel ||| 0x8000 else pixel

/-- The VRAM after the first `n` pixels of `sent`. -/
def Block.paint (b : Block) (d : DrawRegs) (sent : ℕ → Half) (vram : Vram) : ℕ → Vram
  | 0 => vram
  | n + 1 => Function.update (b.paint d sent vram n) (b.cell n) (stored d (sent n) (b.paint d sent vram n (b.cell n)))

theorem Block.paint_outside {d : DrawRegs} {sent : ℕ → Half} {vram : Vram} {n k : ℕ}
    (hk : ∀ p < n, b.cell p ≠ k) : b.paint d sent vram n k = vram k := by
  induction n with
  | zero => rfl
  | succ n ih =>
    rw [Block.paint, Function.update_of_ne (hk n (Nat.lt_succ_self n)).symm]
    exact ih fun p hp => hk p (Nat.lt_succ_of_lt hp)

theorem Block.paint_cell {d : DrawRegs} {sent : ℕ → Half} {vram : Vram} {n : ℕ} (hn : n ≤ b.w * b.h)
    (hp : p < n) : b.paint d sent vram n (b.cell p) = stored d (sent p) (vram (b.cell p)) := by
  induction n with
  | zero => omega
  | succ n ih =>
    rw [Block.paint]
    rcases Nat.lt_succ_iff_lt_or_eq.1 hp with hlt | rfl
    · have hne : b.cell p ≠ b.cell n := fun h => by
        have := b.cell_inj (by omega) (by omega) h
        omega
      rw [Function.update_of_ne hne]
      exact ih (by omega) hlt
    · rw [Function.update_self, b.paint_outside]
      intro q hq h
      have := b.cell_inj (by omega) (by omega) h
      omega

/-- The upload stands at pixel `p` of the block. -/
structure Standing (b : Block) (p : ℕ) (u : Upload) : Prop where
  at_pixel : AtPixel b.w b.h p u
  x : u.x.toNat = b.x
  y : u.y.toNat = b.y

theorem storePixel_paints {sent : ℕ → Half} {vram : Vram} (hs : Standing b p g.upload)
    (hv : g.vram = b.paint g.draw sent vram p) :
    (g.storePixel (sent p)).vram = b.paint g.draw sent vram (p + 1) := by
  obtain ⟨hrow, hcol⟩ := rowCol hs.at_pixel.col hs.at_pixel.place
  rw [Block.paint, Block.cell, hrow, hcol, ← hs.x, ← hs.y, ← hv]
  unfold State.storePixel stored
  dsimp only
  by_cases hkeep : g.draw.checkMaskBit ≠ 0 ∧ (g.vram ((g.upload.y.toNat + g.upload.row.toNat) % 512 * 1024 +
      (g.upload.x.toNat + g.upload.col.toNat) % 1024)).getLsbD 15 = true
  · rw [if_pos hkeep, if_pos hkeep, Function.update_eq_self]
  · rw [if_neg hkeep, if_neg hkeep]

theorem storePixel_draw (pixel : Half) (g : State) : (g.storePixel pixel).draw = g.draw := by
  unfold State.storePixel
  dsimp only
  split <;> rfl

/-- What a pixel of an upload leaves as it was. -/
theorem uploadPixel_keeps (pixel : Half) (g : State) :
    (g.uploadPixel pixel).1.vram = (g.storePixel pixel).vram ∧ (g.uploadPixel pixel).1.draw = g.draw ∧
      (g.uploadPixel pixel).1.upload.x = g.upload.x ∧ (g.uploadPixel pixel).1.upload.y = g.upload.y := by
  unfold State.uploadPixel
  dsimp only
  split <;> simp only [storePixel_upload, storePixel_draw, and_self]

/-! ## An upload -/

/-- The pixel number `p` of the data words, low half first. -/
def sentPixel (data : List Word) (p : ℕ) : Half := (data.getD (p / 2) 0 >>> (16 * (p % 2))).setWidth 16

variable {data : List Word} {vram₀ : Vram} {d₀ : DrawRegs} {j : ℕ}

theorem sentPixel_low : sentPixel data (2 * j) = (data.getD j 0).setWidth 16 := by
  simp [sentPixel]

theorem sentPixel_high : sentPixel data (2 * j + 1) = (data.getD j 0 >>> (16 : ℕ)).setWidth 16 := by
  have hdiv : (2 * j + 1) / 2 = j := by omega
  have hmod : (2 * j + 1) % 2 = 1 := by omega
  simp [sentPixel, hdiv, hmod]

/-- The upload under way, with everything up to its pixel stored. -/
structure Painted (b : Block) (data : List Word) (vram₀ : Vram) (d₀ : DrawRegs) (p : ℕ) (g : State) : Prop where
  standing : Standing b p g.upload
  draw : g.draw = d₀
  vram : g.vram = b.paint d₀ (sentPixel data) vram₀ p

theorem Painted.pixel {pixel : Half} (h : Painted b data vram₀ d₀ p g) (hpixel : pixel = sentPixel data p) :
    (g.uploadPixel pixel).1.draw = d₀ ∧
      (g.uploadPixel pixel).1.vram = b.paint d₀ (sentPixel data) vram₀ (p + 1) ∧
      (((g.uploadPixel pixel).2 = true ∧ p + 1 = b.w * b.h) ∨
        ((g.uploadPixel pixel).2 = false ∧ Painted b data vram₀ d₀ (p + 1) (g.uploadPixel pixel).1)) := by
  subst hpixel
  obtain ⟨hvram, hdraw, hx, hy⟩ := uploadPixel_keeps (sentPixel data p) g
  have hstore := @storePixel_paints b p g (sentPixel data) vram₀ h.standing (by rw [h.vram, h.draw])
  rw [h.draw] at hdraw hstore
  rw [hstore] at hvram
  refine ⟨hdraw, hvram, ?_⟩
  rcases uploadPixel_at b.w_le b.h_le (sentPixel data p) h.standing.at_pixel with hend | ⟨hgo, hat⟩
  · exact .inl hend
  · exact .inr ⟨hgo, ⟨hat, by rw [hx, h.standing.x], by rw [hy, h.standing.y]⟩, hdraw, hvram⟩

/-- Between two data words. -/
structure Painting (b : Block) (data : List Word) (vram₀ : Vram) (d₀ : DrawRegs) (j : ℕ) (g : State) : Prop where
  uploading : Uploading b.w b.h j g
  painted : Painted b data vram₀ d₀ (2 * j) g

/-- All of the block is stored, and the parser waits for a command. -/
structure Uploaded (b : Block) (data : List Word) (vram₀ : Vram) (d₀ : DrawRegs) (g : State) : Prop where
  idle : g.Idle
  draw : g.draw = d₀
  vram : g.vram = b.paint d₀ (sentPixel data) vram₀ (b.w * b.h)

theorem Painting.word (h : Painting b data vram₀ d₀ j g) :
    (j + 1 = (b.w * b.h + 1) / 2 ∧ Uploaded b data vram₀ d₀ (g.writeGp0 R (data.getD j 0)).1) ∨
      (j + 1 < (b.w * b.h + 1) / 2 ∧ Painting b data vram₀ d₀ (j + 1) (g.writeGp0 R (data.getD j 0)).1) := by
  have hword := upload_word (R := R) b.w_le b.h_le (data.getD j 0) h.uploading
  have hlow := h.painted.pixel sentPixel_low.symm
  simp only [State.writeGp0, h.uploading.state, State.writeData] at hword ⊢
  revert hlow hword
  generalize g.uploadPixel ((data.getD j 0).setWidth 16) = a
  intro hlow hword
  obtain ⟨hdraw, hvram, ⟨hlast, hend⟩ | ⟨hgo, hpainted⟩⟩ := hlow
  · clear hword
    have hj : j + 1 = (b.w * b.h + 1) / 2 := by omega
    rw [if_pos hlast]
    exact .inl ⟨hj, { idle := rfl, draw := hdraw, vram := by rw [← hend]; exact hvram }⟩
  · rw [if_neg (by simp [hgo])] at hword ⊢
    have hhigh := hpainted.pixel sentPixel_high.symm
    revert hword hhigh
    generalize a.1.uploadPixel ((data.getD j 0 >>> (16 : ℕ)).setWidth 16) = c
    intro hword hhigh
    obtain ⟨hdraw', hvram', ⟨hlast, hend⟩ | ⟨hgo', hpainted'⟩⟩ := hhigh
    · clear hword
      have hj : j + 1 = (b.w * b.h + 1) / 2 := by omega
      rw [if_pos hlast]
      exact .inl ⟨hj, { idle := rfl, draw := hdraw', vram := by rw [← hend]; exact hvram' }⟩
    · rw [if_neg (by simp [hgo'])] at hword ⊢
      have hlt := hpainted'.standing.at_pixel.lt
      by_cases hzero : c.1.upload.remaining - 1 = 0
      · rw [if_pos hzero] at hword
        rcases hword with ⟨g', heq, hj, -⟩ | ⟨g', heq, -, -⟩
        · omega
        · simp at heq
      · rw [if_neg hzero] at hword ⊢
        rcases hword with ⟨g', heq, -, -⟩ | ⟨g', heq, hj, hup⟩
        · simp at heq
        · obtain rfl := (Prod.mk.inj heq).1
          exact .inr ⟨hj, hup, ⟨hup.place, hpainted'.standing.x, hpainted'.standing.y⟩,
            hdraw', hvram'⟩

/-- The induction is on the words still to come. -/
theorem Painting.words (h : Painting b data vram₀ d₀ j g) (hlen : data.length = (b.w * b.h + 1) / 2) :
    Uploaded b data vram₀ d₀ (g.writeWords R (data.drop j)) := by
  induction hleft : data.length - j generalizing j g with
  | zero =>
    have := h.painted.standing.at_pixel.lt
    omega
  | succ left ih =>
    have hj : j < data.length := by omega
    have hword := h.word (R := R)
    rw [List.getD_eq_getElem _ _ hj] at hword
    rw [List.drop_eq_getElem_cons hj, State.writeWords, List.foldl_cons]
    rcases hword with ⟨hlast, hdone⟩ | ⟨-, hgo⟩
    · rw [List.drop_eq_nil_of_le (by omega), List.foldl_nil]
      exact hdone
    · exact ih hgo (by omega)

/-- The three words of a header leave the state as it was but for the parser. -/
theorem header_words (hg : g.Idle) {head place dims : Word} (hcount : commandWordCount (opcodeOf head) = 3) :
    ∃ parser : Parser, parser.state = .idle ∧ Loaded [head, place, dims] { g with parser := parser } ∧
      g.writeWords R [head, place, dims] = ({ g with parser := parser }.execute R).1 := by
  have hstate : g.parser.state = .idle := hg
  refine ⟨⟨.idle, Function.update (Function.update (Function.update g.parser.cmdBuf 0 head) 1 place) 2 dims, 3, 3,
    g.parser.nextSourceAddr, g.parser.nextSourceAddr⟩, rfl, ⟨by simp, rfl, ?_⟩, ?_⟩
  · intro i hi
    have hi3 : i < 3 := hi
    interval_cases i <;> simp [Function.update]
  · simp only [State.writeWords, List.foldl_cons, List.foldl_nil, State.writeGp0, hstate, State.begin, hcount]
    simp [State.start, State.goTo, State.collect]

theorem placeX (place : Word) : ((place &&& 0x3FF).setWidth 16).toNat = place.toNat % 1024 := by
  have hand : (place &&& 0x3FF).toNat = place.toNat % 1024 := by
    rw [BitVec.toNat_and]
    exact Nat.and_two_pow_sub_one_eq_mod place.toNat 10
  rw [BitVec.toNat_setWidth, hand]
  omega

theorem placeY (place : Word) : (((place >>> (16 : ℕ)) &&& 0x1FF).setWidth 16).toNat = place.toNat / 65536 % 512 := by
  have hand : ((place >>> (16 : ℕ)) &&& 0x1FF).toNat = place.toNat / 65536 % 512 := by
    rw [BitVec.toNat_and, BitVec.toNat_ushiftRight, Nat.shiftRight_eq_div_pow]
    exact Nat.and_two_pow_sub_one_eq_mod (place.toNat / 65536) 9
  rw [BitVec.toNat_setWidth, hand]
  omega

/-- The header of an upload leaves its first pixel next. -/
theorem upload_header (hg : g.Idle) {head place dims : Word} (hhead : 0xA0 ≤ opcodeOf head ∧ opcodeOf head ≤ 0xBF)
    (data : List Word) :
    Painting (blockOf place dims) data g.vram g.draw 0 (g.writeWords R [head, place, dims]) := by
  obtain ⟨parser, hidle, hloaded, hwords⟩ :=
    @header_words R g hg head place dims (upload_count (opcodeOf_lt head) hhead)
  have hexec : ({ g with parser := parser }.execute R).1 = { g with parser := parser }.execCpuToVram := by
    have hup := (handler_upload (opcodeOf_lt head)).2 hhead
    rw [State.execute, State.dispatch, hloaded.head, hup]
  have hplace : { g with parser := parser }.buf 1 = place := hloaded.buf 1 (by simp)
  have hup := execCpuToVram_uploading hloaded
  rw [hwords, hexec]
  refine ⟨hup, ⟨hup.place, ?_, ?_⟩, rfl, rfl⟩
  · rw [State.execCpuToVram, hplace]
    exact placeX place
  · rw [State.execCpuToVram, hplace]
    exact placeY place

/-! ## A readback -/

/-- The readback stands at pixel `p` of the block. -/
structure Reading (b : Block) (p : ℕ) (r : Readback) : Prop where
  active : r.active ≠ 0
  x : r.x.toNat = b.x
  y : r.y.toNat = b.y
  width : r.w.toNat = b.w
  height : r.h.toNat = b.h
  col : r.col.toNat < b.w
  row : r.row.toNat < b.h
  place : r.row.toNat * b.w + r.col.toNat = p

theorem Reading.lt {r : Readback} (h : Reading b p r) : p < b.w * b.h := by
  have hrow : (r.row.toNat + 1) * b.w ≤ b.h * b.w := Nat.mul_le_mul_right b.w h.row
  have hcol := h.col
  have hplace := h.place
  rw [Nat.succ_mul] at hrow
  rw [Nat.mul_comm b.w b.h]
  omega

theorem readPixel_vram (g : State) : g.readPixel.2.1.vram = g.vram := by
  unfold State.readPixel
  dsimp only
  split
  · split <;> rfl
  · rfl

theorem readPixel_at (h : Reading b p g.readback) :
    g.readPixel.1 = g.vram (b.cell p) ∧
      ((g.readPixel.2.2 = true ∧ p + 1 = b.w * b.h ∧ g.readPixel.2.1.readback.active = 0) ∨
        (g.readPixel.2.2 = false ∧ Reading b (p + 1) g.readPixel.2.1.readback)) := by
  obtain ⟨hrow', hcol'⟩ := rowCol h.col h.place
  have hw := b.w_le
  have hh := b.h_le
  have hcol := half_succ h.col hw
  have hrow := half_succ h.row (by omega)
  have hplace := h.place
  have hcoleq : g.readback.col + 1 = g.readback.w ↔ g.readback.col.toNat + 1 = b.w := by
    rw [← BitVec.toNat_inj, hcol, h.width]
  have hroweq : g.readback.row + 1 = g.readback.h ↔ g.readback.row.toNat + 1 = b.h := by
    rw [← BitVec.toNat_inj, hrow, h.height]
  unfold State.readPixel
  simp only [hcoleq, hroweq]
  have hcell : g.vram ((g.readback.y.toNat + g.readback.row.toNat) % 512 * 1024 +
      (g.readback.x.toNat + g.readback.col.toNat) % 1024) = g.vram (b.cell p) := by
    rw [Block.cell, hrow', hcol', h.x, h.y]
  by_cases hend : g.readback.col.toNat + 1 = b.w
  · have hp : p + 1 = (g.readback.row.toNat + 1) * b.w := by
      rw [Nat.succ_mul]
      omega
    rw [if_pos hend]
    by_cases hlast : g.readback.row.toNat + 1 = b.h
    · rw [if_pos hlast]
      exact ⟨hcell, .inl ⟨rfl, by rw [hp, hlast, Nat.mul_comm], rfl⟩⟩
    · rw [if_neg hlast]
      have hpos := b.w_pos
      have hlt := h.row
      exact ⟨hcell, .inr ⟨rfl, h.active, h.x, h.y, h.width, h.height, by simpa using hpos, by
        simp only [hrow]
        omega, by
        simp only [hrow]
        rw [hp]
        rfl⟩⟩
  · rw [if_neg hend]
    have hlt := h.col
    exact ⟨hcell, .inr ⟨rfl, h.active, h.x, h.y, h.width, h.height, by
      simp only [hcol]
      omega, h.row, by
      simp only [hcol]
      omega⟩⟩

/-- The word number `j` of `n` pixels, low half first; the high half past the end is zero. -/
def packed (n : ℕ) (pixel : ℕ → Half) (j : ℕ) : Word :=
  if 2 * j + 1 < n then (pixel (2 * j)).setWidth 32 ||| ((pixel (2 * j + 1)).setWidth 32 <<< (16 : ℕ))
  else (pixel (2 * j)).setWidth 32

theorem packed_congr {n : ℕ} {a c : ℕ → Half} (h : ∀ p < n, a p = c p) (hj : j < (n + 1) / 2) :
    packed n a j = packed n c j := by
  have hlow : 2 * j < n := by omega
  unfold packed
  split
  next hhigh => rw [h _ hlow, h _ hhigh]
  next => rw [h _ hlow]

/-- One read: the word, and the place behind it. -/
theorem readGpuread_at (h : Reading b (2 * j) g.readback) :
    g.readGpuread.1 = packed (b.w * b.h) (fun p => g.vram (b.cell p)) j ∧ g.readGpuread.2.vram = g.vram ∧
      ((j + 1 = (b.w * b.h + 1) / 2 ∧ g.readGpuread.2.readback.active = 0) ∨
        (j + 1 < (b.w * b.h + 1) / 2 ∧ Reading b (2 * (j + 1)) g.readGpuread.2.readback)) := by
  have hlow := readPixel_at h
  have hvram := readPixel_vram g
  unfold State.readGpuread packed
  rw [if_neg h.active]
  revert hlow hvram
  generalize g.readPixel = a
  intro hlow hvram
  obtain ⟨hpixel, ⟨hlast, hend, hactive⟩ | ⟨hgo, hreading⟩⟩ := hlow
  · have hj : j + 1 = (b.w * b.h + 1) / 2 := by omega
    have hshort : ¬2 * j + 1 < b.w * b.h := by omega
    simp only [hlast, if_true, if_neg hshort, hpixel, hvram, hactive, and_true, true_and]
    exact .inl hj
  · have hlong := hreading.lt
    have hhigh := readPixel_at hreading
    have hvram' := readPixel_vram a.2.1
    simp only [hgo, Bool.false_eq_true, if_false, if_pos hlong]
    revert hhigh hvram'
    generalize a.2.1.readPixel = c
    intro hhigh hvram'
    rw [hvram] at hhigh hvram'
    obtain ⟨hpixel', ⟨-, hend, hactive⟩ | ⟨-, hreading'⟩⟩ := hhigh
    · refine ⟨by rw [hpixel, hpixel'], hvram', .inl ⟨by omega, hactive⟩⟩
    · have hlt := hreading'.lt
      exact ⟨by rw [hpixel, hpixel'], hvram', .inr ⟨by omega, hreading'⟩⟩

/-- The reads from word `j` to the end; the induction is on their number. -/
theorem readWords_at (h : Reading b (2 * j) g.readback) {left : ℕ} (hleft : j + left = (b.w * b.h + 1) / 2) :
    (g.readWords left).1 = (List.range' j left).map (packed (b.w * b.h) fun p => g.vram (b.cell p)) ∧
      (g.readWords left).2.vram = g.vram ∧ (g.readWords left).2.readback.active = 0 := by
  induction left generalizing j g with
  | zero =>
    have := h.lt
    omega
  | succ left ih =>
    obtain ⟨hword, hvram, ⟨hlast, hactive⟩ | ⟨hmore, hreading⟩⟩ := readGpuread_at h
    · obtain rfl : left = 0 := by omega
      exact ⟨by simp [State.readWords, hword], hvram, hactive⟩
    · obtain ⟨hwords, hvram', hactive⟩ := ih hreading (by omega)
      rw [hvram] at hwords hvram'
      exact ⟨by simp [State.readWords, hword, hwords, List.range'_succ], hvram', hactive⟩

set_option maxRecDepth 2000 in
theorem download_table {op : ℕ} (hop : op < 256) (h : 0xC0 ≤ op ∧ op ≤ 0xDF) :
    commandWordCount op = 3 ∧ handler op = .vramToCpu := by
  have table : ∀ op < 256, 0xC0 ≤ op ∧ op ≤ 0xDF → commandWordCount op = 3 ∧ handler op = .vramToCpu := by
    decide
  exact table op hop h

/-- The header of a readback stands at the first pixel. -/
theorem download_header (hg : g.Idle) {head place dims : Word} (hhead : 0xC0 ≤ opcodeOf head ∧ opcodeOf head ≤ 0xDF) :
    Reading (blockOf place dims) 0 (g.writeWords R [head, place, dims]).readback ∧
      (g.writeWords R [head, place, dims]).vram = g.vram := by
  obtain ⟨hcount, hdown⟩ := download_table (opcodeOf_lt head) hhead
  obtain ⟨parser, hidle, hloaded, hwords⟩ := @header_words R g hg head place dims hcount
  have hplace : { g with parser := parser }.buf 1 = place := hloaded.buf 1 (by simp)
  have hdims : { g with parser := parser }.buf 2 = dims := hloaded.buf 2 (by simp)
  rw [hwords, State.execute, State.dispatch, hloaded.head, hdown]
  simp only [State.execVramToCpu, hplace, hdims]
  refine ⟨⟨(by decide : (1 : Word) ≠ 0), placeX place, placeY place, transferW_toNat dims, transferH_toNat dims, ?_, ?_, ?_⟩, trivial⟩
  · exact (pixelColumns_range dims).1
  · exact (pixelRows_range dims).1
  · exact Nat.zero_mul _

/-! ## There and back -/

/-- A pixel as it is stored with the mask check off. -/
def forced (d : DrawRegs) (pixel : Half) : Half := if d.setMaskBit ≠ 0 then pixel ||| 0x8000 else pixel

theorem upload_stored (hg : g.Idle) {head place dims : Word} (hhead : 0xA0 ≤ opcodeOf head ∧ opcodeOf head ≤ 0xBF)
    (hdata : data.length = uploadWords dims) :
    Uploaded (blockOf place dims) data g.vram g.draw (g.writeWords R (head :: place :: dims :: data)) := by
  have hpainting := @upload_header R g hg head place dims hhead data
  have hdone := hpainting.words (R := R) hdata
  rw [List.drop_zero] at hdone
  have hsplit : head :: place :: dims :: data = [head, place, dims] ++ data := rfl
  rw [hsplit, State.writeWords, List.foldl_append]
  exact hdone

/-- An upload changes the pixels of its rectangle and no others, each once; a protected pixel keeps what it
was; and the readback of the rectangle returns the pixels two a word, and then is over. -/
theorem upload_download (R : Raster) (g : State) (hg : g.Idle) (head back place dims : Word) (data : List Word)
    (hhead : 0xA0 ≤ opcodeOf head ∧ opcodeOf head ≤ 0xBF) (hback : 0xC0 ≤ opcodeOf back ∧ opcodeOf back ≤ 0xDF)
    (hdata : data.length = uploadWords dims) :
    let b := blockOf place dims
    let n := pixelColumns dims * pixelRows dims
    let up := g.writeWords R (head :: place :: dims :: data)
    let down := (up.writeWords R [back, place, dims]).readWords ((n + 1) / 2)
    (∀ p < n, ∀ q < n, b.cell p = b.cell q → p = q) ∧
      (∀ k, (∀ p < n, b.cell p ≠ k) → up.vram k = g.vram k) ∧
      (g.draw.checkMaskBit = 0 → ∀ p < n, up.vram (b.cell p) = forced g.draw (sentPixel data p)) ∧
      (g.draw.checkMaskBit ≠ 0 → ∀ p < n, up.vram (b.cell p) =
        if (g.vram (b.cell p)).getLsbD 15 then g.vram (b.cell p) else forced g.draw (sentPixel data p)) ∧
      (g.draw.checkMaskBit = 0 →
        down.1 = (List.range ((n + 1) / 2)).map (packed n fun p => forced g.draw (sentPixel data p))) ∧
      down.2.vram = up.vram ∧ down.2.readback.active = 0 := by
  intro b n up down
  have hup : Uploaded b data g.vram g.draw up := upload_stored hg hhead hdata
  have hpixel : ∀ p < n, up.vram (b.cell p) = stored g.draw (sentPixel data p) (g.vram (b.cell p)) := by
    intro p hp
    rw [hup.vram]
    exact b.paint_cell le_rfl hp
  have hoff : g.draw.checkMaskBit = 0 → ∀ p < n, up.vram (b.cell p) = forced g.draw (sentPixel data p) := by
    intro hcheck p hp
    rw [hpixel p hp, stored, if_neg (fun h => h.1 hcheck), forced]
  obtain ⟨hreading, hvram⟩ := @download_header R up hup.idle _ place dims hback
  obtain ⟨hwords, hvram', hactive⟩ := @readWords_at b _ 0 hreading ((n + 1) / 2) (Nat.zero_add _)
  refine ⟨fun p hp q hq => b.cell_inj hp hq, ?_, hoff, ?_, ?_, ?_, hactive⟩
  · intro k hk
    rw [hup.vram]
    exact b.paint_outside hk
  · intro hcheck p hp
    rw [hpixel p hp, stored, forced]
    simp only [hcheck, ne_eq, not_false_eq_true, true_and]
  · intro hcheck
    rw [hwords, hvram, ← List.range_eq_range']
    refine List.map_congr_left fun j hj => ?_
    exact packed_congr (hoff hcheck) (List.mem_range.1 hj)
  · exact hvram'.trans hvram

/-- Three columns and one row at the corner, round the right edge: one word and a half. -/
theorem upload_download_corner :
    (((powerOn.writeWords stillRaster [0xA0000000, 0x01FF03FF, 0x00010003, 0x22221111, 0x44443333]).writeWords
      stillRaster [0xC0000000, 0x01FF03FF, 0x00010003]).readWords 2).1 = [0x22221111, 0x3333] := by
  have h := upload_download stillRaster powerOn rfl 0xA0000000 0xC0000000 0x01FF03FF 0x00010003
    [0x22221111, 0x44443333] (by decide) (by decide) (by decide)
  exact h.2.2.2.2.1 rfl

end PsxRecomp.Gpu
