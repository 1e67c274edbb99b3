import PsxRecomp.Gpu.State

/-! The commands behind GP0 and the parser that collects them: one word written to GP0 or to GP1. -/
namespace PsxRecomp.Gpu
set_option autoImplicit false

/-- The rasterizer. A primitive may leave its texture page behind; it sets every part of the brush that
its pixels depend on, and never touches the draw state. A polyline's lines are drawn with the blending
its head has set. -/
structure Raster where
  primitive : DrawRegs → DrawState → List Word → Vram → Texpage × Vram
  brushAfter : DrawRegs → DrawState → List Word → Brush → Brush
  fillRect : List Word → Vram → Vram
  copyRect : DrawState → List Word → Vram → Vram
  line : DrawState → (semi mode : Word) → (x0 y0 x1 y1 : Word) → Half → Vram → Vram
  shadedLine : DrawState → (semi mode : Word) → (x0 y0 : Word) → Half → (x1 y1 : Word) → Half →
    Vram → Vram

/-! ## Tables -/

def opcodeOf (w : Word) : ℕ := (w >>> (24 : ℕ)).toNat

/-- `gp0_command_word_count`: `-1` for a polyline, `0` for an unknown command. -/
def commandWordCount (op : ℕ) : ℤ :=
  if op = 0x00 ∨ op = 0x01 then 1
  else if op = 0x02 then 3
  else if op = 0x1F then 1
  else if 0x20 ≤ op ∧ op ≤ 0x23 then 4
  else if 0x24 ≤ op ∧ op ≤ 0x27 then 7
  else if 0x28 ≤ op ∧ op ≤ 0x2B then 5
  else if 0x2C ≤ op ∧ op ≤ 0x2F then 9
  else if 0x30 ≤ op ∧ op ≤ 0x33 then 6
  else if 0x34 ≤ op ∧ op ≤ 0x37 then 9
  else if 0x38 ≤ op ∧ op ≤ 0x3B then 8
  else if 0x3C ≤ op ∧ op ≤ 0x3F then 12
  else if 0x40 ≤ op ∧ op ≤ 0x47 then 3
  else if 0x48 ≤ op ∧ op ≤ 0x4F then -1
  else if 0x50 ≤ op ∧ op ≤ 0x57 then 4
  else if 0x58 ≤ op ∧ op ≤ 0x5F then -1
  else if 0x60 ≤ op ∧ op ≤ 0x63 then 3
  else if 0x64 ≤ op ∧ op ≤ 0x67 then 4
  else if 0x68 ≤ op ∧ op ≤ 0x6B then 2
  else if 0x6C ≤ op ∧ op ≤ 0x6F then 3
  else if 0x70 ≤ op ∧ op ≤ 0x73 then 2
  else if 0x74 ≤ op ∧ op ≤ 0x77 then 3
  else if 0x78 ≤ op ∧ op ≤ 0x7B then 2
  else if 0x7C ≤ op ∧ op ≤ 0x7F then 3
  else if 0x80 ≤ op ∧ op ≤ 0x9F then 4
  else if 0xA0 ≤ op ∧ op ≤ 0xBF then 3
  else if 0xC0 ≤ op ∧ op ≤ 0xDF then 3
  else if 0xE0 ≤ op ∧ op ≤ 0xE6 then 1
  else if 0x03 ≤ op ∧ op ≤ 0x1E ∨ 0xE7 ≤ op ∧ op ≤ 0xEF ∨ op = 0xFF then 1
  else 0

/-- What `gp0_dispatch_command` does with an opcode. -/
inductive Handler where
  | nop
  | fillRect
  | drawMode
  | textureWindow
  | drawAreaTl
  | drawAreaBr
  | drawOffset
  | maskBit
  | primitive
  | copyRect
  | cpuToVram
  | vramToCpu
  | unimplemented
  deriving DecidableEq

/-- The switch of `gp0_dispatch_command`. -/
def handler (op : ℕ) : Handler :=
  if op = 0x00 ∨ op = 0x01 then .nop
  else if op = 0x02 then .fillRect
  else if op = 0xE1 then .drawMode
  else if op = 0xE2 then .textureWindow
  else if op = 0xE3 then .drawAreaTl
  else if op = 0xE4 then .drawAreaBr
  else if op = 0xE5 then .drawOffset
  else if op = 0xE6 then .maskBit
  else if 0x20 ≤ op ∧ op ≤ 0x3F ∨ 0x40 ≤ op ∧ op ≤ 0x47 ∨ 0x50 ≤ op ∧ op ≤ 0x57 ∨
      0x60 ≤ op ∧ op ≤ 0x7F then .primitive
  else if 0x80 ≤ op ∧ op ≤ 0x9F then .copyRect
  else if 0xA0 ≤ op ∧ op ≤ 0xBF then .cpuToVram
  else if 0xC0 ≤ op ∧ op ≤ 0xDF then .vramToCpu
  else if 0x03 ≤ op ∧ op ≤ 0x1E ∨ op = 0xE0 ∨ 0xE7 ≤ op ∧ op ≤ 0xEF ∨ op = 0xFF then .nop
  else .unimplemented

/-! ## Values in command words -/

def signExtend11 (v : Word) : Word := (v ^^^ 0x400) - 0x400

def vertexX (w : Word) : Word := signExtend11 (w &&& 0x7FF)

def vertexY (w : Word) : Word := signExtend11 ((w >>> (16 : ℕ)) &&& 0x7FF)

def rgb888ToRgb555 (c : Word) : Half :=
  let r := (c &&& 0xFF) >>> (3 : ℕ)
  let g := ((c >>> (8 : ℕ)) &&& 0xFF) >>> (3 : ℕ)
  let b := ((c >>> (16 : ℕ)) &&& 0xFF) >>> (3 : ℕ)
  (r ||| g <<< (5 : ℕ) ||| b <<< (10 : ℕ)).setWidth 16

/-- `psx_gpu_line_oversize` -/
def lineOversize (x0 y0 x1 y1 : Word) : Bool :=
  let dx := if x1.slt x0 then x0 - x1 else x1 - x0
  let dy := if y1.slt y0 then y0 - y1 else y1 - y0
  (0x3FF : Word).slt dx || (0x1FF : Word).slt dy

/-- A zero dimension stands for the largest. -/
def transferW (dims : Word) : Half :=
  let w := dims &&& 0x3FF
  if w = 0 then 0x400 else w.setWidth 16

def transferH (dims : Word) : Half :=
  let h := (dims >>> (16 : ℕ)) &&& 0x1FF
  if h = 0 then 0x200 else h.setWidth 16

namespace State

/-- `gp0_cmd_buf[i]` -/
def buf (g : State) (i : Fin 16) : Word := g.parser.cmdBuf i

/-- The words of the command in the buffer. -/
def command (g : State) : List Word :=
  g.buf 0 :: ((List.ofFn g.parser.cmdBuf).take g.parser.wordsNeeded.toNat).tail

def param (g : State) : Word := g.buf 0 &&& 0x00FFFFFF

/-! ## Execution -/

def execDrawMode (g : State) : State :=
  let p := g.param
  { g with draw := { g.draw with
      texpage :=
        ⟨p &&& 0xF, (p >>> (4 : ℕ)) &&& 1, (p >>> (5 : ℕ)) &&& 3, (p >>> (7 : ℕ)) &&& 3⟩
      ditherEnabled := (p >>> (9 : ℕ)) &&& 1
      drawToDisplay := (p >>> (10 : ℕ)) &&& 1
      textureDisable := (p >>> (11 : ℕ)) &&& 1 } }

def execTextureWindow (g : State) : State :=
  pushWindow { g with draw := { g.draw with textureWindowValue := g.buf 0 &&& 0x000FFFFF } }

def execDrawAreaTl (g : State) : State :=
  pushArea { g with draw := { g.draw with
      areaLeft := g.param &&& 0x3FF
      areaTop := (g.param >>> (10 : ℕ)) &&& 0x3FF } }

def execDrawAreaBr (g : State) : State :=
  pushArea { g with draw := { g.draw with
      areaRight := g.param &&& 0x3FF
      areaBottom := (g.param >>> (10 : ℕ)) &&& 0x3FF } }

def execDrawOffset (g : State) : State :=
  pushOffset { g with draw := { g.draw with
      offsetX := signExtend11 (g.param &&& 0x7FF)
      offsetY := signExtend11 ((g.param >>> (11 : ℕ)) &&& 0x7FF) } }

def execMaskBit (g : State) : State :=
  pushMask { g with draw := { g.draw with
      setMaskBit := g.param &&& 1
      checkMaskBit := (g.param >>> (1 : ℕ)) &&& 1 } }

def execPrimitive (R : Raster) (g : State) : State :=
  let r := R.primitive g.draw g.renderer.draw g.command g.vram
  { g with
    draw := { g.draw with texpage := r.1 }
    renderer := { g.renderer with
      brush := R.brushAfter g.draw g.renderer.draw g.command g.renderer.brush }
    vram := r.2 }

def execCpuToVram (g : State) : State :=
  let w := transferW (g.buf 2)
  let h := transferH (g.buf 2)
  let remaining : Word := (w.setWidth 32 * h.setWidth 32 + 1) / 2
  { g with
    upload :=
      { x := (g.buf 1 &&& 0x3FF).setWidth 16
        y := ((g.buf 1 >>> (16 : ℕ)) &&& 0x1FF).setWidth 16
        w := w
        h := h
        col := 0
        row := 0
        remaining := remaining }
    parser := if 0 < remaining then { g.parser with state := .vramWrite } else g.parser }

def execVramToCpu (g : State) : State :=
  { g with readback :=
      { active := 1
        x := (g.buf 1 &&& 0x3FF).setWidth 16
        y := ((g.buf 1 >>> (16 : ℕ)) &&& 0x1FF).setWidth 16
        w := transferW (g.buf 2)
        h := transferH (g.buf 2)
        col := 0
        row := 0 } }

/-- `gp0_dispatch_command`; nothing when the command is not implemented. -/
def dispatch (R : Raster) (g : State) : Option State :=
  match handler (opcodeOf (g.buf 0)) with
  | .nop => some g
  | .fillRect => some { g with vram := R.fillRect g.command g.vram }
  | .drawMode => some g.execDrawMode
  | .textureWindow => some g.execTextureWindow
  | .drawAreaTl => some g.execDrawAreaTl
  | .drawAreaBr => some g.execDrawAreaBr
  | .drawOffset => some g.execDrawOffset
  | .maskBit => some g.execMaskBit
  | .primitive => some (g.execPrimitive R)
  | .copyRect => some { g with vram := R.copyRect g.renderer.draw g.command g.vram }
  | .cpuToVram => some g.execCpuToVram
  | .vramToCpu => some g.execVramToCpu
  | .unimplemented => none

end State

/-- What a word makes the GPU do. The last three do not come back: two halts and a store behind
the end of `gp0_cmd_buf`. -/
inductive Exec where
  | command (words : List Word)
  | polyline (head : Word)
  | vertex (w : Word)
  | colour (w : Word)
  | data (w : Word)
  | uploaded
  | unknown (w : Word)
  | unimplemented (w : Word)
  | outside
  deriving DecidableEq

def Exec.isFault : Exec → Bool
  | .unknown _ => true
  | .unimplemented _ => true
  | .outside => true
  | _ => false

namespace State

def goTo (s : Gp0State) (g : State) : State := { g with parser := { g.parser with state := s } }

/-! ## Pixels of an upload -/

/-- `depth24_note_upload`: uploads as wide as a frame, while no hold is on -/
def depth24NoteUpload (x w : Half) (d : DisplayRegs) : DisplayRegs :=
  if d.displayDepth &&& 1 = 0 ∨ w < 256 then d
  else if 0 < d.d24PresentHold.toInt then d
  else
    let x1 : Word := x.setWidth 32 + w.setWidth 32
    let x1 := if 1024 < x1 then 1024 else x1
    if d.d24UploadX1 < x1 then { d with d24UploadX1 := x1 } else d

/-- `gp0_commit_cpu_to_vram`; the renderer draws into the same pixels. -/
def commitUpload (g : State) : State :=
  { g with
    display := depth24NoteUpload g.upload.x g.upload.w g.display
    parser := { g.parser with state := .idle }
    upload := { g.upload with remaining := 0 } }

def storePixel (pixel : Half) (g : State) : State :=
  let place := (g.upload.y.toNat + g.upload.row.toNat) % 512 * 1024 +
    (g.upload.x.toNat + g.upload.col.toNat) % 1024
  let stored := if g.draw.setMaskBit ≠ 0 then pixel ||| 0x8000 else pixel
  if g.draw.checkMaskBit ≠ 0 ∧ (g.vram place).getLsbD 15 then g
  else { g with vram := Function.update g.vram place stored }

/-- One pixel, and whether it was the last. -/
def uploadPixel (pixel : Half) (g : State) : State × Bool :=
  let g := g.storePixel pixel
  let u := g.upload
  if u.col + 1 = u.w then
    ({ g with upload := { u with col := 0, row := u.row + 1 } }, u.row + 1 = u.h)
  else ({ g with upload := { u with col := u.col + 1 } }, false)

/-- `GP0_VRAM_WRITE`: two pixels a word, low half first. -/
def writeData (val : Word) (g : State) : State × List Exec :=
  let a := g.uploadPixel (val.setWidth 16)
  if a.2 then (a.1.commitUpload, [.data val, .uploaded])
  else
    let b := a.1.uploadPixel ((val >>> (16 : ℕ)).setWidth 16)
    if b.2 then (b.1.commitUpload, [.data val, .uploaded])
    else
      let left := b.1.upload.remaining - 1
      let c := { b.1 with upload := { b.1.upload with remaining := left } }
      if left = 0 then (c.commitUpload, [.data val, .uploaded]) else (c, [.data val])

/-! ## Polylines -/

def isTerminator (w : Word) : Bool := w &&& 0xF000F000 = 0x50005000

def writeMono (R : Raster) (val : Word) (g : State) : State × List Exec :=
  if (1 : Word).slt g.poly.hasPrev ∧ isTerminator val then (g.goTo .idle, [])
  else
    let x := vertexX val + g.draw.offsetX
    let y := vertexY val + g.draw.offsetY
    let p := g.poly
    let vram := if p.hasPrev ≠ 0 ∧ lineOversize p.prevX p.prevY x y = false then
        R.line g.renderer.draw g.renderer.brush.semiTransEnabled g.renderer.brush.semiTransMode
          p.prevX p.prevY x y p.color g.vram
      else g.vram
    ({ g with
        vram := vram
        poly := { p with
          prevX := x
          prevY := y
          hasPrev := if p.hasPrev.slt 2 then p.hasPrev + 1 else p.hasPrev } }, [.vertex val])

def writeShaded (R : Raster) (val : Word) (g : State) : State × List Exec :=
  let p := g.poly
  let x := vertexX val + g.draw.offsetX
  let y := vertexY val + g.draw.offsetY
  if p.hasPrev = 0 then
    ({ g with poly := { p with prevX := x, prevY := y, prevC := p.color, hasPrev := 1 } },
      [.vertex val])
  else if p.hasPrev = 1 ∨ p.hasPrev = 3 then
    if p.hasPrev = 3 ∧ isTerminator val then (g.goTo .idle, [])
    else
      ({ g with poly := { p with color := rgb888ToRgb555 (val &&& 0xFFFFFF), hasPrev := 2 } },
        [.colour val])
  else
    let vram := if lineOversize p.prevX p.prevY x y = false then
        R.shadedLine g.renderer.draw g.renderer.brush.semiTransEnabled
          g.renderer.brush.semiTransMode p.prevX p.prevY p.prevC x y p.color g.vram
      else g.vram
    ({ g with
        vram := vram
        poly := { p with prevX := x, prevY := y, prevC := p.color, hasPrev := 3 } }, [.vertex val])

/-! ## Commands -/

/-- `gp0_execute_command` -/
def execute (R : Raster) (g : State) : State × List Exec :=
  match g.dispatch R with
  | some g' => (g', [.command g.command])
  | none => (g, [.unimplemented (g.buf 0)])

def collect (R : Raster) (val : Word) (g : State) : State × List Exec :=
  let n := g.parser.wordsCollected
  if h : n.toNat < 16 then
    let g := { g with parser := { g.parser with
      cmdBuf := Function.update g.parser.cmdBuf ⟨n.toNat, h⟩ val
      wordsCollected := n + 1 } }
    if (n + 1).slt g.parser.wordsNeeded then (g, []) else (g.goTo .idle).execute R
  else (g, [.outside])

/-- The head of a command in the buffer. -/
def start (val : Word) (count : ℤ) (g : State) : State :=
  { g with parser := { g.parser with
      cmdBuf := Function.update g.parser.cmdBuf 0 val
      cmdSourceAddr := g.parser.nextSourceAddr
      wordsCollected := 1
      wordsNeeded := BitVec.ofInt 32 count } }

/-- The first word of a command. -/
def begin (R : Raster) (val : Word) (g : State) : State × List Exec :=
  let count := commandWordCount (opcodeOf val)
  if count = 0 then (g, [.unknown val])
  else if count < 0 then
    let color := rgb888ToRgb555 (val &&& 0xFFFFFF)
    let semi := (val >>> (25 : ℕ)) &&& 1
    let g := { g with poly := { g.poly with
      semiTrans := semi
      color := color
      prevC := color
      hasPrev := 0 } }
    let g := g.setSemiTransparency semi g.draw.texpage.semiTransparency
    (g.goTo (if (opcodeOf val).testBit 4 then .polylineShaded else .polylineMono), [.polyline val])
  else
    let g := g.start val count
    if count = 1 then g.execute R else (g.goTo .collecting, [])

/-- `gpu_write_gp0` -/
def writeGp0 (R : Raster) (val : Word) (g : State) : State × List Exec :=
  match g.parser.state with
  | .vramWrite => g.writeData val
  | .polylineMono => g.writeMono R val
  | .polylineShaded => g.writeShaded R val
  | .collecting => g.collect R val
  | .idle => g.begin R val
  | .unknown _ _ => g.begin R val

/-! ## GP1 -/

def resetCommandBuffer (g : State) : State :=
  { g with
    parser := { g.parser with state := .idle, wordsCollected := 0, wordsNeeded := 0 }
    upload := { g.upload with remaining := 0 } }

def vDisplayRange (val : Word) (d : DisplayRegs) : DisplayRegs :=
  let y1 := val &&& 0x3FF
  let y2 := (val >>> (10 : ℕ)) &&& 0x3FF
  let h := if y1 < y2 then y2 - y1 else 0
  let d := if d.displayDepth &&& 1 ≠ 0 ∧ d.d24PrevDispH ≠ 0 ∧ h ≠ d.d24PrevDispH then
      { d with d24UploadX1 := 0, d24PresentHold := 3 }
    else d
  { d with vDisplayY1 := y1, vDisplayY2 := y2, d24PrevDispH := if h ≠ 0 then h else d.d24PrevDispH }

def displayMode (val : Word) (d : DisplayRegs) : DisplayRegs :=
  let depth := (val >>> (4 : ℕ)) &&& 1
  let interlace := (val >>> (5 : ℕ)) &&& 1
  { d with
    hres1 := val &&& 3
    vres := (val >>> (2 : ℕ)) &&& 1
    videoMode := (val >>> (3 : ℕ)) &&& 1
    d24UploadX1 := if depth ≠ d.displayDepth then 0 else d.d24UploadX1
    displayDepth := depth
    verticalInterlace := interlace
    interlaceField := if interlace = 0 then 0 else d.interlaceField
    hres2 := (val >>> (6 : ℕ)) &&& 1
    reverseFlag := (val >>> (7 : ℕ)) &&& 1 }

def getInfo (val : Word) (g : State) : State :=
  let which := val &&& 0x0F
  let latch := g.display.gpureadLatch
  let value : Word :=
    if which = 2 then g.draw.textureWindowValue
    else if which = 3 then g.draw.areaLeft ||| g.draw.areaTop <<< (10 : ℕ)
    else if which = 4 then g.draw.areaRight ||| g.draw.areaBottom <<< (10 : ℕ)
    else if which = 5 then g.draw.offsetX &&& 0x7FF ||| (g.draw.offsetY &&& 0x7FF) <<< (11 : ℕ)
    else if which = 7 then 2
    else if which = 8 then 0
    else latch
  { g with display := { g.display with gpureadLatch := value } }

/-- `gpu_write_gp1` -/
def writeGp1 (val : Word) (g : State) : State × List Exec :=
  let cmd := (val >>> (24 : ℕ)) &&& 0x3F
  let d := g.display
  if cmd = 0x00 then (g.resetState false, [])
  else if cmd = 0x01 then (g.resetCommandBuffer, [])
  else if cmd = 0x02 then ({ g with display := { d with irq1Flag := 0 } }, [])
  else if cmd = 0x03 then ({ g with display := { d with displayDisabled := val &&& 1 } }, [])
  else if cmd = 0x04 then ({ g with display := { d with dmaDirection := val &&& 3 } }, [])
  else if cmd = 0x05 then
    ({ g with display := { d with
        areaX := val &&& 0x3FF
        areaY := (val >>> (10 : ℕ)) &&& 0x1FF } }, [])
  else if cmd = 0x06 then
    ({ g with display := { d with
        hDisplayX1 := val &&& 0xFFF
        hDisplayX2 := (val >>> (12 : ℕ)) &&& 0xFFF } }, [])
  else if cmd = 0x07 then ({ g with display := vDisplayRange val d }, [])
  else if cmd = 0x08 then ({ g with display := displayMode val d }, [])
  else if 0x10 ≤ cmd ∧ cmd ≤ 0x1F then (g.getInfo val, [])
  else (g, [.unknown val])

/-- But for the two resets a write changes the display registers alone. -/
theorem writeGp1_elim {P : State → Prop} {val : Word} {g : State}
    (hreset : (val >>> (24 : ℕ)) &&& 0x3F = 0 → P (g.resetState false))
    (hbuffer : (val >>> (24 : ℕ)) &&& 0x3F = 1 → P g.resetCommandBuffer)
    (hdisplay : (val >>> (24 : ℕ)) &&& 0x3F ≠ 0 → ∀ d, P { g with display := d }) :
    P (g.writeGp1 val).1 := by
  refine iteInduction (motive := fun r : State × List Exec => P r.1) hreset fun h => ?_
  refine iteInduction (motive := fun r : State × List Exec => P r.1) hbuffer fun _ => ?_
  iterate 8
    refine iteInduction (motive := fun r : State × List Exec => P r.1) (fun _ => hdisplay h _) fun _ => ?_
  exact hdisplay h g.display

end State

end PsxRecomp.Gpu
