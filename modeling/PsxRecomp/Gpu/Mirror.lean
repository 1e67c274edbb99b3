import Mathlib
import PsxRecomp.Gpu.Runs

/-! The renderer's copy of the draw registers: who pushes what across, when the two agree, and what a
savestate therefore brings back. -/
namespace PsxRecomp.Gpu
set_option autoImplicit false

/-! ## The two copies -/

/-- The draw state that belongs to the registers. -/
def DrawRegs.mirrored (r : DrawRegs) : DrawState :=
  (((Renderer.initial.draw.setDrawArea r).setDrawOffset r).setMaskBits r).setTextureWindow r

def DrawState.clip (d : DrawState) : ℤ × ℤ × ℤ × ℤ := (d.clipX1, d.clipY1, d.clipX2, d.clipY2)

/-- Offset, mask flags and texture window. -/
def DrawState.settings (d : DrawState) : (Word × Word) × (Word × Word) × Byte × Byte × Byte × Byte :=
  ((d.offsetX, d.offsetY), (d.maskSetBit, d.maskCheckBit), d.twMaskX, d.twMaskY, d.twOffX, d.twOffY)

namespace State

def ClipMirrored (g : State) : Prop := g.renderer.draw.clip = g.draw.mirrored.clip

def SettingsMirrored (g : State) : Prop := g.renderer.draw.settings = g.draw.mirrored.settings

def Mirrored (g : State) : Prop := g.renderer.draw = g.draw.mirrored

/-- As a reset leaves them: an empty draw area, and all of VRAM to draw in. -/
def Unpushed (g : State) : Prop :=
  g.renderer.draw.clip = (0, 0, 1023, 511) ∧ g.draw.mirrored.clip = (0, 0, 0, 0)

end State

theorem mirrored_iff (g : State) : g.Mirrored ↔ g.SettingsMirrored ∧ g.ClipMirrored := by
  refine ⟨fun h => ⟨congrArg DrawState.settings h, congrArg DrawState.clip h⟩, fun ⟨hs, hc⟩ => ?_⟩
  unfold State.SettingsMirrored DrawState.settings at hs
  unfold State.ClipMirrored DrawState.clip at hc
  simp only [Prod.mk.injEq] at hs hc
  obtain ⟨⟨s1, s2⟩, ⟨s3, s4⟩, s5, s6, s7, s8⟩ := hs
  obtain ⟨c1, c2, c3, c4⟩ := hc
  show g.renderer.draw = g.draw.mirrored
  revert s1 s2 s3 s4 s5 s6 s7 s8 c1 c2 c3 c4
  generalize g.draw.mirrored = m
  generalize g.renderer.draw = d
  intro s1 s2 s3 s4 s5 s6 s7 s8 c1 c2 c3 c4
  cases d
  cases m
  simp only [DrawState.mk.injEq]
  exact ⟨c1, c2, c3, c4, s1, s2, s3, s4, s5, s6, s7, s8⟩

theorem Unpushed.not_mirrored {g : State} (h : g.Unpushed) : ¬g.ClipMirrored := fun hc => by
  have := h.1.symm.trans (hc.trans h.2)
  simp at this

/-! ## Steps -/

/-- `GP0(E3h)` and `GP0(E4h)` -/
def Exec.setsArea : Exec → Bool
  | .command (w :: _) => opcodeOf w = 0xE3 ∨ opcodeOf w = 0xE4
  | _ => false

namespace Call

/-- The draw area goes across. -/
def pushesArea (R : Raster) : Call → State → Bool
  | .gp0 w, g => (g.writeGp0 R w).2.any Exec.setsArea
  | .gp1 _, _ => false
  | .snapshotRead bs, g => (g.snapshotRead bs).isSome
  | .passSave, _ => false
  | .passRestore, g => g.pass.isSome

/-- `GP1(00h)` -/
def resets : Call → Bool
  | .gp1 w => (w >>> (24 : ℕ)) &&& 0x3F = 0
  | _ => false

/-- A snapshot that is accepted has the offset, the mask flags and the texture window that the renderer
holds already. -/
def Agrees : Call → State → Prop
  | .snapshotRead bs, g =>
    bs.length = g.snapshotBytes → ∀ r, Registers.parse.run bs = some r →
      g.renderer.draw.settings = r.1.draw.mirrored.settings
  | _, _ => True

end Call

/-- States of a run whose snapshots agree, with whether the draw area went across since the last
reset. -/
inductive Tracked (R : Raster) : Bool → State → Prop
  | init (pal : Bool) (g : State) : Tracked R false (State.init pal g)
  | step (pushed : Bool) (c : Call) (g : State) (h : Tracked R pushed g) (hok : c.Agrees g)
      (hback : (c.step R g).2.any Exec.isFault = false) :
      Tracked R (!c.resets && (pushed || c.pushesArea R g)) (c.step R g).1

/-- What a run keeps. -/
structure Keeping (pushed : Bool) (g : State) : Prop where
  settings : g.SettingsMirrored
  clip : if pushed then g.ClipMirrored else g.Unpushed

variable {R : Raster} {pushed : Bool}

/-- Nothing crossed, and nothing needed to. -/
theorem Keeping.of_same {g g' : State} (h : Keeping pushed g)
    (hdraw : g'.renderer.draw = g.renderer.draw) (hregs : g'.draw.mirrored = g.draw.mirrored) :
    Keeping pushed g' := by
  obtain ⟨hs, hc⟩ := h
  refine ⟨?_, ?_⟩
  · unfold State.SettingsMirrored
    rw [hdraw, hregs]
    exact hs
  · unfold State.ClipMirrored State.Unpushed
    rw [hdraw, hregs]
    exact hc

/-- Settings crossed; the clip rectangle is as it was. -/
theorem Keeping.of_settings {g g' : State} (h : Keeping pushed g)
    (hclip : g'.renderer.draw.clip = g.renderer.draw.clip)
    (hregs : g'.draw.mirrored.clip = g.draw.mirrored.clip) (hs : g'.SettingsMirrored) :
    Keeping pushed g' := by
  refine ⟨hs, ?_⟩
  unfold State.ClipMirrored State.Unpushed
  rw [hclip, hregs]
  exact h.clip

/-- The draw area crossed. -/
theorem Keeping.of_area {g : State} (hs : g.SettingsMirrored) (hc : g.ClipMirrored) (p : Bool) :
    Keeping (p || true) g := by
  rw [Bool.or_true]
  exact ⟨hs, hc⟩

/-- The three pushes that make up the settings. -/
theorem settings_eq_iff (d m : DrawState) : d.settings = m.settings ↔
    (d.offsetX = m.offsetX ∧ d.offsetY = m.offsetY) ∧
      (d.maskSetBit = m.maskSetBit ∧ d.maskCheckBit = m.maskCheckBit) ∧
      d.twMaskX = m.twMaskX ∧ d.twMaskY = m.twMaskY ∧ d.twOffX = m.twOffX ∧ d.twOffY = m.twOffY := by
  simp only [DrawState.settings, Prod.mk.injEq]

set_option maxRecDepth 2000 in
theorem setsArea_iff (g : State) : Exec.setsArea (.command g.command) =
    (handler (opcodeOf (g.buf 0)) = .drawAreaTl ∨ handler (opcodeOf (g.buf 0)) = .drawAreaBr : Bool) := by
  have table : ∀ op < 256, (op = 0xE3 ∨ op = 0xE4) ↔
      (handler op = .drawAreaTl ∨ handler op = .drawAreaBr) := by
    decide
  simp only [State.command, Exec.setsArea, table _ (opcodeOf_lt (g.buf 0))]

theorem mirrored_settings (r : DrawRegs) : r.mirrored.settings =
    ((r.offsetX, r.offsetY), (r.setMaskBit, r.checkMaskBit),
      (r.textureWindowValue &&& 0x1F).setWidth 8,
      ((r.textureWindowValue >>> (5 : ℕ)) &&& 0x1F).setWidth 8,
      ((r.textureWindowValue >>> (10 : ℕ)) &&& 0x1F).setWidth 8,
      ((r.textureWindowValue >>> (15 : ℕ)) &&& 0x1F).setWidth 8) := rfl

theorem setDrawArea_clip (r : DrawRegs) (d : DrawState) :
    (d.setDrawArea r).clip = r.mirrored.clip := rfl

theorem setDrawArea_settings (r : DrawRegs) (d : DrawState) :
    (d.setDrawArea r).settings = d.settings := rfl

theorem pushArea_clip (g : State) : g.pushArea.ClipMirrored := setDrawArea_clip g.draw g.renderer.draw

theorem pushArea_settings {g : State} (h : g.SettingsMirrored) : g.pushArea.SettingsMirrored :=
  (setDrawArea_settings g.draw g.renderer.draw).trans h

theorem dispatch_keeping {g g' : State} (h : g.dispatch R = some g') (hk : Keeping pushed g) :
    Keeping (pushed || Exec.setsArea (.command g.command)) g' := by
  obtain ⟨hoffset, hmask, hwindow⟩ := (settings_eq_iff _ _).1 hk.settings
  rw [setsArea_iff]
  unfold State.dispatch at h
  generalize handler (opcodeOf (g.buf 0)) = hd at h ⊢
  cases hd with
  | unimplemented => cases h
  | drawAreaTl =>
    cases h
    refine .of_area (g := g.execDrawAreaTl) (pushArea_settings ?_) (pushArea_clip _) pushed
    exact hk.settings.trans (by simp only [mirrored_settings])
  | drawAreaBr =>
    cases h
    refine .of_area (g := g.execDrawAreaBr) (pushArea_settings ?_) (pushArea_clip _) pushed
    exact hk.settings.trans (by simp only [mirrored_settings])
  | textureWindow =>
    cases h
    rw [show decide _ = false from rfl, Bool.or_false]
    exact hk.of_settings rfl rfl ((settings_eq_iff _ _).2 ⟨hoffset, hmask, rfl, rfl, rfl, rfl⟩)
  | drawOffset =>
    cases h
    rw [show decide _ = false from rfl, Bool.or_false]
    exact hk.of_settings rfl rfl ((settings_eq_iff _ _).2 ⟨⟨rfl, rfl⟩, hmask, hwindow⟩)
  | maskBit =>
    cases h
    rw [show decide _ = false from rfl, Bool.or_false]
    exact hk.of_settings rfl rfl ((settings_eq_iff _ _).2 ⟨hoffset, ⟨rfl, rfl⟩, hwindow⟩)
  | _ =>
    cases h
    rw [show decide _ = false from rfl, Bool.or_false]
    exact hk.of_same rfl rfl

/-- Where no event sets the draw area. -/
theorem Keeping.quiet {g g' : State} {es : List Exec} (hk : Keeping pushed g)
    (hdraw : g'.renderer.draw = g.renderer.draw) (hregs : g'.draw.mirrored = g.draw.mirrored)
    (hes : es.any Exec.setsArea = false) : Keeping (pushed || es.any Exec.setsArea) g' := by
  rw [hes, Bool.or_false]
  exact hk.of_same hdraw hregs

theorem Keeping.unchanged {g g' : State} (hk : Keeping pushed g)
    (hdraw : g'.renderer.draw = g.renderer.draw) (hregs : g'.draw.mirrored = g.draw.mirrored) :
    Keeping (pushed || false) g' := by
  rw [Bool.or_false]
  exact hk.of_same hdraw hregs

theorem execute_keeping {g : State} (hk : Keeping pushed g) :
    Keeping (pushed || (g.execute R).2.any Exec.setsArea) (g.execute R).1 := by
  unfold State.execute
  cases hd : g.dispatch R with
  | none => exact hk.quiet rfl rfl rfl
  | some g' =>
    simp only [List.any_cons, List.any_nil, Bool.or_false]
    exact dispatch_keeping hd hk

theorem uploadPixel_draw (pixel : Half) (g : State) :
    (g.uploadPixel pixel).1.renderer = g.renderer ∧ (g.uploadPixel pixel).1.draw = g.draw := by
  have h : (g.storePixel pixel).renderer = g.renderer ∧ (g.storePixel pixel).draw = g.draw := by
    unfold State.storePixel
    dsimp only
    split <;> exact ⟨rfl, rfl⟩
  unfold State.uploadPixel
  dsimp only
  split <;> exact h

theorem writeData_keeping {g : State} (hk : Keeping pushed g) (val : Word) :
    Keeping (pushed || (g.writeData val).2.any Exec.setsArea) (g.writeData val).1 := by
  unfold State.writeData
  dsimp only
  obtain ⟨h₁, f₁⟩ := uploadPixel_draw (val.setWidth 16) g
  revert h₁ f₁
  generalize g.uploadPixel (val.setWidth 16) = a
  intro h₁ f₁
  obtain ⟨h₂, f₂⟩ := uploadPixel_draw ((val >>> (16 : ℕ)).setWidth 16) a.1
  revert h₂ f₂
  generalize a.1.uploadPixel ((val >>> (16 : ℕ)).setWidth 16) = b
  intro h₂ f₂
  have hdraw : b.1.renderer.draw = g.renderer.draw := congrArg Renderer.draw (h₂.trans h₁)
  have hregs : b.1.draw.mirrored = g.draw.mirrored := congrArg DrawRegs.mirrored (f₂.trans f₁)
  split
  · exact hk.quiet (congrArg Renderer.draw h₁) (congrArg DrawRegs.mirrored f₁) rfl
  · split
    · exact hk.quiet hdraw hregs rfl
    · split
      · exact hk.quiet hdraw hregs rfl
      · exact hk.quiet hdraw hregs rfl

theorem writeMono_keeping {g : State} (hk : Keeping pushed g) (val : Word) :
    Keeping (pushed || (g.writeMono R val).2.any Exec.setsArea) (g.writeMono R val).1 := by
  unfold State.writeMono
  dsimp only
  split
  · exact hk.quiet rfl rfl rfl
  · exact hk.quiet rfl rfl rfl

theorem writeShaded_keeping {g : State} (hk : Keeping pushed g) (val : Word) :
    Keeping (pushed || (g.writeShaded R val).2.any Exec.setsArea) (g.writeShaded R val).1 := by
  unfold State.writeShaded
  dsimp only
  split
  · exact hk.quiet rfl rfl rfl
  · split
    · split
      · exact hk.quiet rfl rfl rfl
      · exact hk.quiet rfl rfl rfl
    · exact hk.quiet rfl rfl rfl

theorem collect_keeping {g : State} (hk : Keeping pushed g) (val : Word) :
    Keeping (pushed || (g.collect R val).2.any Exec.setsArea) (g.collect R val).1 := by
  unfold State.collect
  dsimp only
  split
  · split
    · exact hk.quiet rfl rfl rfl
    · exact execute_keeping (hk.of_same rfl rfl)
  · exact hk.quiet rfl rfl rfl

theorem begin_keeping {g : State} (hk : Keeping pushed g) (val : Word) :
    Keeping (pushed || (g.begin R val).2.any Exec.setsArea) (g.begin R val).1 := by
  unfold State.begin
  dsimp only
  split
  · exact hk.quiet rfl rfl rfl
  · split
    · exact hk.quiet rfl rfl rfl
    · split
      · exact execute_keeping (hk.of_same rfl rfl)
      · exact hk.quiet rfl rfl rfl

theorem writeGp0_keeping {g : State} (hk : Keeping pushed g) (val : Word) :
    Keeping (pushed || (g.writeGp0 R val).2.any Exec.setsArea) (g.writeGp0 R val).1 := by
  unfold State.writeGp0
  split
  · exact writeData_keeping hk val
  · exact writeMono_keeping hk val
  · exact writeShaded_keeping hk val
  · exact collect_keeping hk val
  · exact begin_keeping hk val
  · exact begin_keeping hk val

theorem reset_keeping (clearVram : Bool) (g : State) : Keeping false (g.resetState clearVram) := by
  refine ⟨?_, rfl, rfl⟩
  rw [State.SettingsMirrored, mirrored_settings]
  simp [State.resetState, Renderer.initial, DrawState.settings]

theorem writeGp1_keeping {g : State} (hk : Keeping pushed g) (w : Word) :
    Keeping (!Call.resets (.gp1 w) && pushed) (g.writeGp1 w).1 := by
  apply State.writeGp1_elim (P := Keeping (!Call.resets (.gp1 w) && pushed))
  · intro h
    rw [show Call.resets (.gp1 w) = true from decide_eq_true h]
    exact reset_keeping false g
  · intro h
    rw [show Call.resets (.gp1 w) = false from decide_eq_false (by rw [h]; decide)]
    exact hk.of_same rfl rfl
  · intro h d
    rw [show Call.resets (.gp1 w) = false from decide_eq_false h]
    exact hk.of_same rfl rfl

/-- The restored registers all cross. -/
theorem pushed_mirrored (g : State) : g.pushWindow.pushArea.pushOffset.pushMask.Mirrored := by
  refine (mirrored_iff _).2 ⟨?_, rfl⟩
  exact (mirrored_settings _).symm

theorem Keeping.step {g : State} (hk : Keeping pushed g) {c : Call} (hc : c.Agrees g) :
    Keeping (!c.resets && (pushed || c.pushesArea R g)) (c.step R g).1 := by
  cases c with
  | gp0 w => exact writeGp0_keeping hk w
  | gp1 w =>
    rw [Call.pushesArea, Bool.or_false]
    exact writeGp1_keeping hk w
  | snapshotRead bs =>
    show Keeping (pushed || (g.snapshotRead bs).isSome) ((g.snapshotRead bs).getD g)
    cases h : g.snapshotRead bs with
    | none => exact hk.unchanged rfl rfl
    | some g' =>
      obtain ⟨hlen, r, hr, rfl⟩ := snapshotRead_eq h
      have hs : (g.setRegisters r.1).SettingsMirrored := hc hlen r hr
      exact .of_area (pushArea_settings hs) (pushArea_clip _) pushed
  | passSave =>
    show Keeping (pushed || false) g.passSave
    unfold State.passSave
    split
    · exact hk.unchanged rfl rfl
    · exact hk.unchanged rfl rfl
  | passRestore =>
    show Keeping (pushed || g.pass.isSome) g.passRestore
    unfold State.passRestore
    cases h : g.pass with
    | none => exact hk.unchanged rfl rfl
    | some bs =>
      dsimp only
      cases Registers.parse.run bs with
      | some r =>
        obtain ⟨hs, hc⟩ := (mirrored_iff _).1 (pushed_mirrored (g.setRegisters r.1))
        exact (Keeping.of_area hs hc pushed).of_same rfl rfl
      | none =>
        obtain ⟨hs, hc⟩ := (mirrored_iff _).1 (pushed_mirrored g)
        exact (Keeping.of_area hs hc pushed).of_same rfl rfl

theorem tracked_keeping {g : State} (h : Tracked R pushed g) : Keeping pushed g := by
  induction h with
  | init pal g => exact (reset_keeping true g).of_same rfl rfl
  | step pushed c g _ hok _ ih => exact ih.step hok

/-! ## Savestates -/

/-- Two GPUs that draw alike. -/
structure Alike (a b : State) : Prop where
  draw : b.draw = a.draw
  parser : b.parser = a.parser
  poly : b.poly = a.poly
  upload : b.upload = a.upload
  vram : b.vram = a.vram
  renderer : b.renderer.draw = a.renderer.draw

def State.inPolyline (g : State) : Prop :=
  g.parser.state = .polylineMono ∨ g.parser.state = .polylineShaded

/-- The blending that the head of a polyline has set. -/
def SameBlend (a b : State) : Prop :=
  b.renderer.brush.semiTransEnabled = a.renderer.brush.semiTransEnabled ∧
    b.renderer.brush.semiTransMode = a.renderer.brush.semiTransMode

/-- One word does the same to both. -/
structure Twins (a b : State × List Exec) : Prop where
  events : b.2 = a.2
  alike : Alike a.1 b.1
  blend : a.1.inPolyline → SameBlend a.1 b.1

theorem dispatch_alike {a b : State} (h : Alike a b) :
    (a.dispatch R = none ∧ b.dispatch R = none) ∨
      ∃ a' b', a.dispatch R = some a' ∧ b.dispatch R = some b' ∧ Alike a' b' := by
  obtain ⟨draw, _, parser, poly, upload, _, ⟨rd, _⟩, vram, _⟩ := a
  obtain ⟨draw', _, parser', poly', upload', _, ⟨rd', _⟩, vram', _⟩ := b
  obtain ⟨hd, hp, hl, hu, hv, hr⟩ := h
  dsimp only at hd hp hl hu hv hr
  subst hd hp hl hu hv hr
  unfold State.dispatch
  dsimp only [State.buf]
  generalize handler (opcodeOf (parser'.cmdBuf 0)) = hd
  cases hd with
  | unimplemented => exact .inl ⟨rfl, rfl⟩
  | _ => exact .inr ⟨_, _, rfl, rfl, rfl, rfl, rfl, rfl, rfl, rfl⟩

theorem dispatch_state {g g' : State} (h : g.dispatch R = some g') (hg : ¬g.inPolyline) :
    ¬g'.inPolyline := by
  by_cases hup : handler (opcodeOf (g.buf 0)) = .cpuToVram
  · rw [dispatch_upload hup, Option.some.injEq] at h
    subst h
    unfold State.execCpuToVram State.inPolyline
    dsimp only
    split
    · rintro (h | h) <;> cases h
    · exact hg
  · unfold State.inPolyline
    rw [dispatch_parsed h hup]
    exact hg

theorem execute_twins {a b : State} (h : Alike a b) (ha : ¬a.inPolyline) :
    Twins (a.execute R) (b.execute R) := by
  have hcommand : b.command = a.command := by
    unfold State.command State.buf
    rw [h.parser]
  have hbuf : b.buf 0 = a.buf 0 := by
    unfold State.buf
    rw [h.parser]
  unfold State.execute
  rcases dispatch_alike (R := R) h with ⟨ha', hb'⟩ | ⟨a', b', ha', hb', hs⟩
  · rw [ha', hb', hbuf]
    exact ⟨rfl, h, fun hp => absurd hp ha⟩
  · rw [ha', hb', hcommand]
    exact ⟨rfl, hs, fun hp => absurd hp (dispatch_state ha' ha)⟩

theorem uploadPixel_alike {a b : State} (h : Alike a b) (pixel : Half) :
    (b.uploadPixel pixel).2 = (a.uploadPixel pixel).2 ∧
      Alike (a.uploadPixel pixel).1 (b.uploadPixel pixel).1 := by
  have hstore : Alike (a.storePixel pixel) (b.storePixel pixel) := by
    unfold State.storePixel
    rw [h.upload, h.draw, h.vram]
    dsimp only
    split
    · exact h
    · exact ⟨rfl, h.parser, h.poly, rfl, rfl, h.renderer⟩
  unfold State.uploadPixel
  dsimp only
  rw [hstore.upload]
  split
  · exact ⟨rfl, hstore.draw, hstore.parser, hstore.poly, rfl, hstore.vram, hstore.renderer⟩
  · exact ⟨rfl, hstore.draw, hstore.parser, hstore.poly, rfl, hstore.vram, hstore.renderer⟩

theorem Alike.commitUpload {a b : State} (h : Alike a b) : Alike a.commitUpload b.commitUpload := by
  refine ⟨h.draw, ?_, h.poly, ?_, h.vram, h.renderer⟩
  · unfold State.commitUpload
    rw [h.parser]
  · unfold State.commitUpload
    rw [h.upload]

theorem writeData_alike {a b : State} (h : Alike a b) (val : Word) :
    (b.writeData val).2 = (a.writeData val).2 ∧ Alike (a.writeData val).1 (b.writeData val).1 := by
  unfold State.writeData
  dsimp only
  obtain ⟨e₁, h₁⟩ := uploadPixel_alike h (val.setWidth 16)
  revert e₁ h₁
  generalize a.uploadPixel (val.setWidth 16) = a₁
  generalize b.uploadPixel (val.setWidth 16) = b₁
  intro e₁ h₁
  obtain ⟨e₂, h₂⟩ := uploadPixel_alike h₁ ((val >>> (16 : ℕ)).setWidth 16)
  revert e₂ h₂
  generalize a₁.1.uploadPixel ((val >>> (16 : ℕ)).setWidth 16) = a₂
  generalize b₁.1.uploadPixel ((val >>> (16 : ℕ)).setWidth 16) = b₂
  intro e₂ h₂
  rw [e₁, e₂, h₂.upload]
  split
  · exact ⟨rfl, h₁.commitUpload⟩
  · split
    · exact ⟨rfl, h₂.commitUpload⟩
    · have hleft : Alike
          { a₂.1 with upload := { a₂.1.upload with remaining := a₂.1.upload.remaining - 1 } }
          { b₂.1 with upload := { a₂.1.upload with remaining := a₂.1.upload.remaining - 1 } } :=
        ⟨h₂.draw, h₂.parser, h₂.poly, rfl, h₂.vram, h₂.renderer⟩
      split
      · exact ⟨rfl, hleft.commitUpload⟩
      · exact ⟨rfl, hleft⟩

theorem Alike.goTo {a b : State} (h : Alike a b) (s : Gp0State) : Alike (a.goTo s) (b.goTo s) := by
  refine ⟨h.draw, ?_, h.poly, h.upload, h.vram, h.renderer⟩
  unfold State.goTo
  rw [h.parser]

theorem writeMono_twins {a b : State} (h : Alike a b) (hblend : SameBlend a b) (val : Word) :
    Twins (a.writeMono R val) (b.writeMono R val) := by
  unfold State.writeMono
  rw [h.poly, h.draw, h.vram, h.renderer, hblend.1, hblend.2]
  dsimp only
  split
  · exact ⟨rfl, h.goTo .idle, fun _ => hblend⟩
  · exact ⟨rfl, ⟨rfl, h.parser, rfl, h.upload, rfl, h.renderer⟩, fun _ => hblend⟩

theorem writeShaded_twins {a b : State} (h : Alike a b) (hblend : SameBlend a b) (val : Word) :
    Twins (a.writeShaded R val) (b.writeShaded R val) := by
  unfold State.writeShaded
  rw [h.poly, h.draw, h.vram, h.renderer, hblend.1, hblend.2]
  dsimp only
  split
  · exact ⟨rfl, ⟨rfl, h.parser, rfl, h.upload, rfl, h.renderer⟩, fun _ => hblend⟩
  · split
    · split
      · exact ⟨rfl, h.goTo .idle, fun _ => hblend⟩
      · exact ⟨rfl, ⟨rfl, h.parser, rfl, h.upload, rfl, h.renderer⟩, fun _ => hblend⟩
    · exact ⟨rfl, ⟨rfl, h.parser, rfl, h.upload, rfl, h.renderer⟩, fun _ => hblend⟩

theorem collect_twins {a b : State} (h : Alike a b) (ha : ¬a.inPolyline) (val : Word) :
    Twins (a.collect R val) (b.collect R val) := by
  unfold State.collect
  rw [h.parser]
  dsimp only
  split
  · split
    · exact ⟨rfl, ⟨h.draw, rfl, h.poly, h.upload, h.vram, h.renderer⟩, fun hp => absurd hp ha⟩
    · refine execute_twins (Alike.goTo ?_ .idle) (by rintro (h | h) <;> cases h)
      exact ⟨h.draw, rfl, h.poly, h.upload, h.vram, h.renderer⟩
  · exact ⟨rfl, h, fun hp => absurd hp ha⟩

theorem begin_twins {a b : State} (h : Alike a b) (ha : ¬a.inPolyline) (val : Word) :
    Twins (a.begin R val) (b.begin R val) := by
  have hstart : Alike (a.start val (commandWordCount (opcodeOf val)))
      (b.start val (commandWordCount (opcodeOf val))) := by
    refine ⟨h.draw, ?_, h.poly, h.upload, h.vram, h.renderer⟩
    unfold State.start
    rw [h.parser]
  unfold State.begin
  rw [h.poly, h.draw]
  dsimp only
  split
  · exact ⟨rfl, h, fun hp => absurd hp ha⟩
  · split
    · refine ⟨rfl, ⟨rfl, ?_, rfl, h.upload, h.vram, h.renderer⟩, fun _ => ⟨rfl, rfl⟩⟩
      unfold State.goTo State.setSemiTransparency
      rw [h.parser]
    · split
      · exact execute_twins hstart ha
      · exact ⟨rfl, hstart.goTo .collecting, by rintro (h | h) <;> cases h⟩

theorem not_inPolyline {g : State} {s : Gp0State} (h : g.parser.state = s) (h₁ : s ≠ .polylineMono)
    (h₂ : s ≠ .polylineShaded) : ¬g.inPolyline := by
  rintro (hp | hp)
  · exact h₁ (h.symm.trans hp)
  · exact h₂ (h.symm.trans hp)

theorem writeGp0_twins {a b : State} (h : Alike a b) (hblend : a.inPolyline → SameBlend a b)
    (w : Word) : Twins (a.writeGp0 R w) (b.writeGp0 R w) := by
  unfold State.writeGp0
  rw [h.parser]
  split
  case h_1 hs =>
    obtain ⟨he, hd⟩ := writeData_alike h w
    refine ⟨he, hd, fun hp => absurd hp ?_⟩
    rcases (writeData_frame a w).1 with hf | hf
    · exact not_inPolyline (hf.trans hs) Gp0State.noConfusion Gp0State.noConfusion
    · exact not_inPolyline hf Gp0State.noConfusion Gp0State.noConfusion
  case h_2 hs => exact writeMono_twins h (hblend (.inl hs)) w
  case h_3 hs => exact writeShaded_twins h (hblend (.inr hs)) w
  case h_4 hs =>
    exact collect_twins h (not_inPolyline hs Gp0State.noConfusion Gp0State.noConfusion) w
  case h_5 hs =>
    exact begin_twins h (not_inPolyline hs Gp0State.noConfusion Gp0State.noConfusion) w
  case h_6 hs =>
    exact begin_twins h (not_inPolyline hs Gp0State.noConfusion Gp0State.noConfusion) w

/-- Some words, one after another. -/
def State.feed (R : Raster) (ws : List Word) (g : State) : State :=
  ws.foldl (fun g w => (g.writeGp0 R w).1) g

theorem feed_alike (ws : List Word) {a b : State} (h : Alike a b)
    (hblend : a.inPolyline → SameBlend a b) : Alike (a.feed R ws) (b.feed R ws) := by
  induction ws generalizing a b with
  | nil => exact h
  | cons w ws ih =>
    have ht := writeGp0_twins (R := R) h hblend w
    exact ih ht.alike ht.blend

/-- What a load does not bring: the renderer's settings, and the blending of a polyline under way. -/
structure Loadable (s t : State) : Prop where
  settings : t.renderer.draw.settings = s.renderer.draw.settings
  blend : s.inPolyline → SameBlend s t

theorem snapshotRead_written (s t : State) :
    t.snapshotRead s.snapshotWrite = some (t.setRegisters s.registers.settled).pushArea := by
  rw [State.snapshotRead, State.snapshotBytes, State.snapshotWrite, State.snapshotWrite,
    Registers.emit_length, Registers.emit_length, if_neg (by simp), ← State.snapshotWrite,
    parse_snapshotWrite]
  rfl

theorem load_alike {s t : State} (hs : s.Mirrored) (h : Loadable s t) :
    Alike s { (t.setRegisters s.registers.settled).pushArea with vram := s.vram } := by
  have hm : (t.setRegisters s.registers.settled).pushArea.Mirrored :=
    (mirrored_iff _).2 ⟨pushArea_settings (h.settings.trans (congrArg DrawState.settings hs)),
      pushArea_clip _⟩
  exact ⟨rfl, rfl, rfl, rfl, rfl, hm.trans hs.symm⟩

/-- Draw state and registers agree as far as the condition goes, and a load then draws like the
original. -/
theorem renderer_mirrors (R : Raster) :
    (∀ (pushed : Bool) (g : State), Tracked R pushed g →
      g.SettingsMirrored ∧ (g.ClipMirrored ↔ pushed = true)) ∧
    (∀ (g : State) (bs : Wire.Bytes) (g' : State), g.snapshotRead bs = some g' →
      (g'.Mirrored ↔ Call.Agrees (.snapshotRead bs) g)) ∧
    ∀ s t : State, Tracked R true s → Loadable s t →
      ∃ t', t.snapshotRead s.snapshotWrite = some t' ∧
        ∀ ws, (State.feed R ws { t' with vram := s.vram }).vram = (State.feed R ws s).vram := by
  refine ⟨fun pushed g hg => ?_, fun g bs g' h => ?_, fun s t hs h => ?_⟩
  · obtain ⟨hsettings, hclip⟩ := tracked_keeping hg
    refine ⟨hsettings, ?_⟩
    cases pushed with
    | true => exact iff_of_true hclip rfl
    | false => exact iff_of_false (Unpushed.not_mirrored hclip) (by simp)
  · obtain ⟨hlen, r, hr, rfl⟩ := snapshotRead_eq h
    rw [mirrored_iff]
    refine ⟨fun hm _ r' hr' => ?_, fun ha => ⟨pushArea_settings (ha hlen r hr), pushArea_clip _⟩⟩
    obtain rfl := Option.some.inj (hr.symm.trans hr')
    exact hm.1
  · obtain ⟨hsettings, hclip⟩ := tracked_keeping hs
    have hm : s.Mirrored := (mirrored_iff s).2 ⟨hsettings, hclip⟩
    refine ⟨_, snapshotRead_written s t, fun ws => ?_⟩
    exact (feed_alike ws (load_alike hm h) h.blend).vram

/-- A texture coordinate in the renderer's window. -/
def windowCoord (mask off c : Byte) : ℕ := ((c &&& ~~~(mask * 8)) ||| ((off &&& mask) * 8)).toNat

/-- Textured rectangles of one pixel, over a texture page of direct colours. -/
def pixelRaster : Raster :=
  { stillRaster with
    primitive := fun d draw ws vram =>
      let uv := ws.getD 2 0
      let u := windowCoord draw.twMaskX draw.twOffX (uv.setWidth 8)
      let v := windowCoord draw.twMaskY draw.twOffY ((uv >>> (8 : ℕ)).setWidth 8)
      let texel := vram ((d.texpage.y.toNat + v) % 512 * 1024 + (d.texpage.x.toNat + u) % 1024)
      let xy := (ws.getD 1 0).toNat
      (d.texpage,
        if texel = 0 then vram else Function.update vram (xy / 65536 % 512 * 1024 + xy % 65536 % 1024) texel) }

/-- A white pixel at (8, 0), a page of direct colours, a texture window of eight columns, and a draw area. -/
def windowedWords : List Word :=
  [0xA0000000, 0x00000008, 0x00010001, 0x00007FFF, 0xE1000100, 0xE200001F, 0xE3000000, 0xE407FFFF]

def windowed : State := powerOn.feed pixelRaster windowedWords

/-- The pixel at (8, 0) of the page, drawn at (16, 16). -/
def pixelWords : List Word := [0x6D000000, 0x00100010, 0x00000008]

theorem windowed_tracked : Tracked pixelRaster true windowed := by
  have hupload := Tracked.step (R := pixelRaster) false (.gp0 0xA0000000) powerOn (.init false default) trivial rfl
  have hplace := Tracked.step _ (.gp0 0x00000008) _ hupload trivial rfl
  have hsize := Tracked.step _ (.gp0 0x00010001) _ hplace trivial rfl
  have hpixel := Tracked.step _ (.gp0 0x00007FFF) _ hsize trivial rfl
  have hpage := Tracked.step _ (.gp0 0xE1000100) _ hpixel trivial rfl
  have hwindow := Tracked.step _ (.gp0 0xE200001F) _ hpage trivial rfl
  have hcorner := Tracked.step _ (.gp0 0xE3000000) _ hwindow trivial rfl
  exact Tracked.step _ (.gp0 0xE407FFFF) _ hcorner trivial rfl

theorem windowed_mirrored : windowed.SettingsMirrored ∧ windowed.ClipMirrored ∧
    ∃ t', windowed.snapshotRead windowed.snapshotWrite = some t' ∧
      (State.feed pixelRaster pixelWords { t' with vram := windowed.vram }).vram =
        (State.feed pixelRaster pixelWords windowed).vram := by
  obtain ⟨h₁, -, h₃⟩ := renderer_mirrors pixelRaster
  obtain ⟨hs, hc⟩ := h₁ true windowed windowed_tracked
  obtain ⟨t', ht, hfeed⟩ := h₃ windowed windowed windowed_tracked ⟨rfl, fun _ => ⟨rfl, rfl⟩⟩
  exact ⟨hs, hc.2 rfl, t', ht, hfeed _⟩

/-- After power-on the clip rectangle is not the empty draw area; a load keeps the texture window of
the scene before, and what is drawn then is seen through it. -/
theorem renderer_mirrors_fails : ¬powerOn.ClipMirrored ∧
    ∃ t', powerOn.snapshotRead windowed.snapshotWrite = some t' ∧ ¬t'.SettingsMirrored ∧
      (State.feed pixelRaster pixelWords { t' with vram := windowed.vram }).vram (16 * 1024 + 16) = 0x7FFF ∧
      (State.feed pixelRaster pixelWords windowed).vram (16 * 1024 + 16) = 0 := by
  refine ⟨Unpushed.not_mirrored ⟨rfl, rfl⟩, _, snapshotRead_written windowed powerOn, ?_, ?_, ?_⟩
  · intro h
    have := congrArg (fun s => s.2.2.1) h
    exact absurd this (by decide)
  · decide
  · decide

end PsxRecomp.Gpu
