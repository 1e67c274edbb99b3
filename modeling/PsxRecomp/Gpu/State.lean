import PsxRecomp.Library.Wire

/-! The GPU: its registers, the command parser behind GP0, and the software renderer with the draw state
that is pushed across to it. -/
namespace PsxRecomp.Gpu
set_option autoImplicit false

abbrev Byte := BitVec 8
abbrev Half := BitVec 16
abbrev Word := BitVec 32

/-! ## Registers -/

/-- What a textured polygon carries beside `GP0(E1h)`. -/
structure Texpage where
  x : Word
  y : Word
  semiTransparency : Word
  colors : Word
  deriving Inhabited

structure DrawRegs where
  texpage : Texpage
  ditherEnabled : Word
  drawToDisplay : Word
  textureDisable : Word
  textureWindowValue : Word
  setMaskBit : Word
  checkMaskBit : Word
  areaLeft : Word
  areaTop : Word
  areaRight : Word
  areaBottom : Word
  offsetX : Word
  offsetY : Word
  deriving Inhabited

structure DisplayRegs where
  interlaceField : Word
  reverseFlag : Word
  hres1 : Word
  hres2 : Word
  vres : Word
  videoMode : Word
  displayDepth : Word
  verticalInterlace : Word
  displayDisabled : Word
  irq1Flag : Word
  dmaDirection : Word
  lcf : Word
  areaX : Word
  areaY : Word
  hDisplayX1 : Word
  hDisplayX2 : Word
  vDisplayY1 : Word
  vDisplayY2 : Word
  gpureadLatch : Word
  d24UploadX1 : Word
  d24PresentHold : Word
  d24PresentSkip : Bool
  d24PrevDispH : Word
  deriving Inhabited

/-! ## Command parser -/

inductive Gp0State where
  | idle
  | collecting
  | vramWrite
  | polylineMono
  | polylineShaded
  | unknown (code : Word) (h : 4 < code)
  deriving DecidableEq, Inhabited

structure Parser where
  state : Gp0State
  cmdBuf : Fin 16 → Word
  wordsCollected : Word
  wordsNeeded : Word
  nextSourceAddr : Word
  cmdSourceAddr : Word
  deriving Inhabited

structure Polyline where
  color : Half
  prevX : Word
  prevY : Word
  prevC : Half
  semiTrans : Word
  hasPrev : Word
  deriving Inhabited

/-- `vram_write_*` -/
structure Upload where
  x : Half
  y : Half
  w : Half
  h : Half
  col : Half
  row : Half
  remaining : Word
  deriving Inhabited

/-- `vram_read_*` -/
structure Readback where
  active : Word
  x : Half
  y : Half
  w : Half
  h : Half
  col : Half
  row : Half
  deriving Inhabited

/-! ## Software renderer -/

/-- The draw state that has its masters among the registers. -/
structure DrawState where
  clipX1 : ℤ
  clipY1 : ℤ
  clipX2 : ℤ
  clipY2 : ℤ
  offsetX : Word
  offsetY : Word
  maskSetBit : Word
  maskCheckBit : Word
  twMaskX : Byte
  twMaskY : Byte
  twOffX : Byte
  twOffY : Byte
  deriving DecidableEq, Inhabited

/-- What each primitive sets for itself. -/
structure Brush where
  semiTransEnabled : Word
  semiTransMode : Word
  modR : Byte
  modG : Byte
  modB : Byte
  rawTexture : Word
  deriving Inhabited

/-- Pixels by `y * 1024 + x`. -/
abbrev Vram := ℕ → Half

structure Renderer where
  draw : DrawState
  brush : Brush
  deriving Inhabited

structure State where
  draw : DrawRegs
  display : DisplayRegs
  parser : Parser
  poly : Polyline
  upload : Upload
  readback : Readback
  renderer : Renderer
  vram : Vram
  pass : Option Wire.Bytes
  deriving Inhabited

namespace DrawState

def clamp (v lo hi : ℤ) : ℤ := if v < lo then lo else if hi < v then hi else v

/-- `sw_set_draw_area` -/
def setDrawArea (r : DrawRegs) (d : DrawState) : DrawState :=
  { d with
    clipX1 := clamp r.areaLeft.toInt 0 1023
    clipY1 := clamp r.areaTop.toInt 0 511
    clipX2 := clamp r.areaRight.toInt 0 1023
    clipY2 := clamp r.areaBottom.toInt 0 511 }

def setDrawOffset (r : DrawRegs) (d : DrawState) : DrawState :=
  { d with offsetX := r.offsetX, offsetY := r.offsetY }

def setMaskBits (r : DrawRegs) (d : DrawState) : DrawState :=
  { d with maskSetBit := r.setMaskBit, maskCheckBit := r.checkMaskBit }

/-- `sw_set_texture_window` -/
def setTextureWindow (r : DrawRegs) (d : DrawState) : DrawState :=
  let raw := r.textureWindowValue
  { d with
    twMaskX := (raw &&& 0x1F).setWidth 8
    twMaskY := ((raw >>> (5 : ℕ)) &&& 0x1F).setWidth 8
    twOffX := ((raw >>> (10 : ℕ)) &&& 0x1F).setWidth 8
    twOffY := ((raw >>> (15 : ℕ)) &&& 0x1F).setWidth 8 }

end DrawState

/-- `sw_renderer_init` -/
def Renderer.initial : Renderer where
  draw :=
    { clipX1 := 0
      clipY1 := 0
      clipX2 := 1023
      clipY2 := 511
      offsetX := 0
      offsetY := 0
      maskSetBit := 0
      maskCheckBit := 0
      twMaskX := 0
      twMaskY := 0
      twOffX := 0
      twOffY := 0 }
  brush :=
    { semiTransEnabled := 0
      semiTransMode := 0
      modR := 16
      modG := 16
      modB := 16
      rawTexture := 0 }

namespace State

/-- The setters of the renderer; the software backend has none for dithering. -/
def pushArea (g : State) : State :=
  { g with renderer := { g.renderer with draw := g.renderer.draw.setDrawArea g.draw } }

def pushOffset (g : State) : State :=
  { g with renderer := { g.renderer with draw := g.renderer.draw.setDrawOffset g.draw } }

def pushMask (g : State) : State :=
  { g with renderer := { g.renderer with draw := g.renderer.draw.setMaskBits g.draw } }

def pushWindow (g : State) : State :=
  { g with renderer := { g.renderer with draw := g.renderer.draw.setTextureWindow g.draw } }

/-- `gr_set_semi_transparency` -/
def setSemiTransparency (enabled mode : Word) (g : State) : State :=
  { g with renderer := { g.renderer with brush :=
      { g.renderer.brush with semiTransEnabled := enabled, semiTransMode := mode &&& 3 } } }

/-! ## Reset -/

/-- `gpu_reset_state`: the pixels stay but at power-on. -/
def resetState (clearVram : Bool) (g : State) : State where
  draw :=
    { texpage := ⟨0, 0, 0, 0⟩
      ditherEnabled := 0
      drawToDisplay := 0
      textureDisable := 0
      textureWindowValue := 0
      setMaskBit := 0
      checkMaskBit := 0
      areaLeft := 0
      areaTop := 0
      areaRight := 0
      areaBottom := 0
      offsetX := 0
      offsetY := 0 }
  display :=
    { interlaceField := 0
      reverseFlag := 0
      hres1 := 0
      hres2 := 0
      vres := 0
      videoMode := 0
      displayDepth := 0
      verticalInterlace := 0
      displayDisabled := 1
      irq1Flag := 0
      dmaDirection := 0
      lcf := 0
      areaX := 0
      areaY := 0
      hDisplayX1 := 0x200
      hDisplayX2 := 0xC00
      vDisplayY1 := 0x010
      vDisplayY2 := 0x100
      gpureadLatch := 0
      d24UploadX1 := 0
      d24PresentHold := 0
      d24PresentSkip := false
      d24PrevDispH := 0 }
  parser := ⟨.idle, fun _ => 0, 0, 0, 0xFFFFFFFF, 0xFFFFFFFF⟩
  poly := ⟨0, 0, 0, 0, 0, 0⟩
  upload := ⟨0, 0, 0, 0, 0, 0, 0⟩
  readback := ⟨0, 0, 0, 0, 0, 0, 0⟩
  renderer := .initial
  vram := if clearVram then fun _ => 0 else g.vram
  pass := g.pass

/-- `gpu_init`, with the video mode of the console. -/
def init (pal : Bool) (g : State) : State :=
  let g := g.resetState true
  { g with display := { g.display with videoMode := if pal then 1 else 0 } }

end State

end PsxRecomp.Gpu
