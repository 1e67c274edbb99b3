import PsxRecomp.Gpu.Gp0

/-! The register snapshot: savestates and the checkpoint of a render pass. -/
namespace PsxRecomp.Gpu
open Wire
set_option autoImplicit false

def Gp0State.code : Gp0State → Word
  | .idle => 0
  | .collecting => 1
  | .vramWrite => 2
  | .polylineMono => 3
  | .polylineShaded => 4
  | .unknown code _ => code

def Gp0State.ofCode (code : Word) : Gp0State :=
  if code = 0 then .idle
  else if code = 1 then .collecting
  else if code = 2 then .vramWrite
  else if code = 3 then .polylineMono
  else if h : code ≤ 4 then .polylineShaded
  else .unknown code (BitVec.not_le.1 h)

theorem Gp0State.ofCode_unknown {code : Word} (h : 4 < code) : ofCode code = .unknown code h := by
  have hne : ∀ c : Word, c ≤ 4 → code ≠ c := fun c hc he => BitVec.not_le.2 h (he ▸ hc)
  rw [ofCode, if_neg (hne 0 (by decide)), if_neg (hne 1 (by decide)), if_neg (hne 2 (by decide)),
    if_neg (hne 3 (by decide)), dif_neg (BitVec.not_le.2 h)]

theorem Gp0State.ofCode_code (s : Gp0State) : ofCode s.code = s := by
  cases s with
  | unknown code h => exact ofCode_unknown h
  | _ => rfl

/-- Everything on the wire. -/
structure Registers where
  draw : DrawRegs
  display : DisplayRegs
  parser : Parser
  poly : Polyline
  upload : Upload
  readback : Readback

def State.registers (g : State) : Registers :=
  ⟨g.draw, g.display, g.parser, g.poly, g.upload, g.readback⟩

def State.setRegisters (r : Registers) (g : State) : State :=
  { g with
    draw := r.draw
    display := r.display
    parser := r.parser
    poly := r.poly
    upload := r.upload
    readback := r.readback }

namespace Registers

def presentWord (d : DisplayRegs) : Word :=
  d.d24PresentHold ||| 0x200 ||| if d.d24PresentSkip then 0x100 else 0

/-- `gpu_snap_emit` -/
def emit (r : Registers) : Bytes :=
  let d := r.draw
  let s := r.display
  let p := r.parser
  (u32.array 18).emit [d.texpage.x, d.texpage.y, d.texpage.semiTransparency, d.texpage.colors,
      d.ditherEnabled, d.drawToDisplay, d.textureDisable, d.textureWindowValue, d.setMaskBit,
      d.checkMaskBit, s.interlaceField, s.reverseFlag, d.areaLeft, d.areaTop, d.areaRight,
      d.areaBottom, d.offsetX, d.offsetY] ++
    ((u32.array 18).emit [s.hres1, s.hres2, s.vres, s.videoMode, s.displayDepth,
      s.verticalInterlace, s.displayDisabled, s.irq1Flag, s.dmaDirection, s.lcf, s.areaX, s.areaY,
      s.hDisplayX1, s.hDisplayX2, s.vDisplayY1, s.vDisplayY2, s.gpureadLatch, p.state.code] ++
    ((u32.array 16).emit (List.ofFn p.cmdBuf) ++
    ((u32.array 4).emit [p.wordsCollected, p.wordsNeeded, p.nextSourceAddr, p.cmdSourceAddr] ++
    (u16.emit r.poly.color ++
    ((u32.array 2).emit [r.poly.prevX, r.poly.prevY] ++
    (u16.emit r.poly.prevC ++
    ((u32.array 2).emit [r.poly.semiTrans, r.poly.hasPrev] ++
    ((u16.array 6).emit [r.upload.x, r.upload.y, r.upload.w, r.upload.h, r.upload.col,
      r.upload.row] ++
    ((u32.array 2).emit [r.upload.remaining, r.readback.active] ++
    ((u16.array 6).emit [r.readback.x, r.readback.y, r.readback.w, r.readback.h, r.readback.col,
      r.readback.row] ++
    (u32.array 3).emit [s.d24UploadX1, presentWord s, s.d24PrevDispH]))))))))))

def skipOf (hold : Word) : Bool :=
  if hold &&& 0x200 ≠ 0 then decide (hold &&& 0x100 ≠ 0)
  else decide (hold &&& 0x100 ≠ 0) || decide ((0 : Word).slt (hold &&& 0xFF))

/-- The registers of what was read, one list for each group of equal widths. -/
def ofGroups (a b buf c : List Word) (color : Half) (prev : List Word) (prevC : Half)
    (poly : List Word) (up : List Half) (mid : List Word) (back : List Half) (d24 : List Word) :
    Registers where
  draw :=
    { texpage := ⟨a.getD 0 0, a.getD 1 0, a.getD 2 0, a.getD 3 0⟩
      ditherEnabled := a.getD 4 0
      drawToDisplay := a.getD 5 0
      textureDisable := a.getD 6 0
      textureWindowValue := a.getD 7 0
      setMaskBit := a.getD 8 0
      checkMaskBit := a.getD 9 0
      areaLeft := a.getD 12 0
      areaTop := a.getD 13 0
      areaRight := a.getD 14 0
      areaBottom := a.getD 15 0
      offsetX := a.getD 16 0
      offsetY := a.getD 17 0 }
  display :=
    { interlaceField := a.getD 10 0
      reverseFlag := a.getD 11 0
      hres1 := b.getD 0 0
      hres2 := b.getD 1 0
      vres := b.getD 2 0
      videoMode := b.getD 3 0
      displayDepth := b.getD 4 0
      verticalInterlace := b.getD 5 0
      displayDisabled := b.getD 6 0
      irq1Flag := b.getD 7 0
      dmaDirection := b.getD 8 0
      lcf := b.getD 9 0
      areaX := b.getD 10 0
      areaY := b.getD 11 0
      hDisplayX1 := b.getD 12 0
      hDisplayX2 := b.getD 13 0
      vDisplayY1 := b.getD 14 0
      vDisplayY2 := b.getD 15 0
      gpureadLatch := b.getD 16 0
      d24UploadX1 := d24.getD 0 0
      d24PresentHold := d24.getD 1 0 &&& 0xFF
      d24PresentSkip := skipOf (d24.getD 1 0)
      d24PrevDispH := d24.getD 2 0 }
  parser := ⟨.ofCode (b.getD 17 0), fun i => buf.getD i 0, c.getD 0 0, c.getD 1 0, c.getD 2 0,
    c.getD 3 0⟩
  poly := ⟨color, prev.getD 0 0, prev.getD 1 0, prevC, poly.getD 0 0, poly.getD 1 0⟩
  upload := ⟨up.getD 0 0, up.getD 1 0, up.getD 2 0, up.getD 3 0, up.getD 4 0, up.getD 5 0,
    mid.getD 0 0⟩
  readback := ⟨mid.getD 1 0, back.getD 0 0, back.getD 1 0, back.getD 2 0, back.getD 3 0,
    back.getD 4 0, back.getD 5 0⟩

/-- `gpu_snap_parse` -/
def parse : Reader Registers := do
  let a ← (u32.array 18).parse
  let b ← (u32.array 18).parse
  let buf ← (u32.array 16).parse
  let c ← (u32.array 4).parse
  let color ← u16.parse
  let prev ← (u32.array 2).parse
  let prevC ← u16.parse
  let poly ← (u32.array 2).parse
  let up ← (u16.array 6).parse
  let mid ← (u32.array 2).parse
  let back ← (u16.array 6).parse
  let d24 ← (u32.array 3).parse
  pure (ofGroups a b buf c color prev prevC poly up mid back d24)

/-- What a parser makes of what an emitter wrote: the hold count comes back in eight bits. -/
def settled (r : Registers) : Registers :=
  { r with display := { r.display with
      d24PresentHold := r.display.d24PresentHold &&& 0xFF
      d24PresentSkip := r.display.d24PresentSkip || r.display.d24PresentHold &&& 0x100 ≠ 0 } }

theorem or_and_mask (a b c : Word) : (a ||| b) &&& c = a &&& c ||| b &&& c := by
  ext i
  simp [Bool.and_or_distrib_right]

theorem presentWord_hold (d : DisplayRegs) :
    presentWord d &&& 0xFF = d.d24PresentHold &&& 0xFF := by
  unfold presentWord
  cases d.d24PresentSkip <;> simp [or_and_mask]

theorem presentWord_skip (d : DisplayRegs) :
    skipOf (presentWord d) = (d.d24PresentSkip || d.d24PresentHold &&& 0x100 ≠ 0) := by
  have hmark : presentWord d &&& 0x200 ≠ 0 := by
    unfold presentWord
    cases d.d24PresentSkip <;> simp [or_and_mask]
  rw [skipOf, if_pos hmark, presentWord]
  cases d.d24PresentSkip <;> simp [or_and_mask]

theorem run_group {w n : ℕ} {β : Type} (l : List (BitVec w)) (h : l.length = n)
    (k : List (BitVec w) → Reader β) (rest : Bytes) :
    (((word w).array n).parse >>= k).run (((word w).array n).emit l ++ rest) = (k l).run rest :=
  ((word w).array n).bind ⟨h, fun _ _ => trivial⟩ k rest

theorem run_half {β : Type} (x : Half) (k : Half → Reader β) (rest : Bytes) :
    (u16.parse >>= k).run (u16.emit x ++ rest) = (k x).run rest := u16.bind trivial k rest

theorem getD_ofFn {α : Type} {n : ℕ} (f : Fin n → α) (d : α) (i : Fin n) :
    (List.ofFn f).getD i d = f i := by simp

theorem parse_emit (r : Registers) (rest : Bytes) :
    parse.run (r.emit ++ rest) = some (r.settled, rest) := by
  unfold emit parse
  simp only [List.append_assoc]
  rw [run_group (n := 18) _ rfl, run_group (n := 18) _ rfl, run_group _ List.length_ofFn,
    run_group (n := 4) _ rfl, run_half, run_group (n := 2) _ rfl, run_half,
    run_group (n := 2) _ rfl, run_group (n := 6) _ rfl, run_group (n := 2) _ rfl,
    run_group (n := 6) _ rfl, run_group (n := 3) _ rfl]
  have hbuf : (fun i : Fin 16 => (List.ofFn r.parser.cmdBuf).getD i 0) = r.parser.cmdBuf :=
    funext fun i => getD_ofFn r.parser.cmdBuf 0 i
  refine congrArg some (Prod.ext ?_ rfl)
  simp only [ofGroups, List.getD_cons_zero, List.getD_cons_succ, presentWord_hold,
    presentWord_skip, hbuf, Gp0State.ofCode_code, settled]

theorem emit_length (r : Registers) : r.emit.length = 288 := by
  simp only [emit, List.length_append, array_length, word_length, List.length_ofFn,
    List.length_cons, List.length_nil]

end Registers

namespace State

/-- `gpu_snapshot_write` -/
def snapshotWrite (g : State) : Bytes := g.registers.emit

/-- `gpu_snapshot_bytes` -/
def snapshotBytes (g : State) : ℕ := g.snapshotWrite.length

/-- `gpu_snapshot_read` -/
def snapshotRead (bs : Bytes) (g : State) : Option State :=
  if bs.length ≠ g.snapshotBytes then none
  else (Registers.parse.run bs).map fun r => (g.setRegisters r.1).pushArea

/-- `gpu_pass_checkpoint_save` -/
def passSave (g : State) : State :=
  if 512 < g.snapshotBytes then g else { g with pass := some g.snapshotWrite }

/-- `gpu_pass_checkpoint_restore` -/
def passRestore (g : State) : State :=
  match g.pass with
  | none => g
  | some bs =>
    let g := match Registers.parse.run bs with
      | some r => g.setRegisters r.1
      | none => g
    { g.pushWindow.pushArea.pushOffset.pushMask with pass := none }

end State

end PsxRecomp.Gpu
