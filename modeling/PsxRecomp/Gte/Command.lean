import Mathlib
import PsxRecomp.Gte.State

/-! The GTE commands, with every view, widescreen and precision hook off. A command word carries its
function in bits 5:0, `lm` in bit 10 and `sf` in bit 19. -/
namespace PsxRecomp.Gte
open R3000
set_option autoImplicit false

/-! ## Division -/

/-- `s_gte_div_table`: seeds of the reciprocal. -/
def divTable (i : ℕ) : BitVec 8 :=
  let d : Word := BitVec.ofNat 32 (0x100 + min i 0xFF)
  let step := fun xa : Word => (xa * (1024 * 512 - d * xa)) >>> 18
  let xa := step (step (step (step 512)))
  (((xa + 1) >>> 1) - 0x101).setWidth 8

def calcRecip (divisor : ℕ) : Int :=
  let x : Int := 0x101 + ((divTable ((divisor % 0x8000 + 0x40) / 128)).toNat : Int)
  let tmp := ((divisor : Int) * -x + 0x80) >>> (8 : ℕ)
  (x * (131072 + tmp) + 0x80) >>> (8 : ℕ)

/-- Leading zeros of a half word, with `fuel` bits left. -/
def clz16From : ℕ → ℕ → ℕ
  | 0, _ => 0
  | fuel + 1, v => if v.testBit fuel then 0 else clz16From fuel v + 1

def clz16 (v : ℕ) : ℕ := clz16From 16 v

def divide (h sz3 : Half) : GteM Int := do
  if sz3.toNat * 2 ≤ h.toNat then
    raise flagDivOvf
    pure 0x1FFFF
  else
    let shiftBias := clz16 sz3.toNat
    let dividend := h.toNat <<< shiftBias
    let divisor := sz3.toNat <<< shiftBias
    let recip := (BitVec.ofInt 32 (calcRecip (divisor ||| 0x8000))).toNat
    let result := (dividend * recip + 32768) >>> 16 % 2 ^ 32
    pure (min result 0x1FFFF : ℕ)

/-! ## Accumulators -/

def instrLm (instr : Word) : Bool := instr.getLsbD 10

def instrSf (instr : Word) : ℕ := if instr.getLsbD 19 then 12 else 0

/-- A term enters the 44-bit accumulator. -/
def mac44Stage (value : Int) (macNum : ℕ) : GteM Int := do
  checkMacOverflow value macNum
  pure (BitVec.ofInt 44 value).toInt

/-- `MACn = mac; IRn = saturate_ir(mac, n, lm)` -/
def setMacIr (macNum : ℕ) (mac : Word) (lm : Bool) : GteM Unit := do
  match macNum with
  | 1 =>
    modify fun g => { g with mac1 := mac }
    let ir ← saturateIr mac.toInt 1 lm
    modify fun g => { g with ir1 := ir }
  | 2 =>
    modify fun g => { g with mac2 := mac }
    let ir ← saturateIr mac.toInt 2 lm
    modify fun g => { g with ir2 := ir }
  | 3 =>
    modify fun g => { g with mac3 := mac }
    let ir ← saturateIr mac.toInt 3 lm
    modify fun g => { g with ir3 := ir }
  | _ => pure ()

def storeMacIr (macNum : ℕ) (value : Int) (shift : ℕ) (lm : Bool) : GteM Unit := do
  let value ← mac44Stage value macNum
  setMacIr macNum (BitVec.ofInt 32 (value >>> shift)) lm

/-! ## Lighting -/

def lightTransformRow (v : Vector) (instr : Word) (row : Fin 3) : GteM Unit := do
  let g ← get
  let acc ← mac44Stage ((g.l row 0).toInt * (v 0).toInt + (g.l row 1).toInt * (v 1).toInt)
    (row + 1)
  storeMacIr (row + 1) (acc + (g.l row 2).toInt * (v 2).toInt) (instrSf instr) (instrLm instr)

def lightTransform (v : Vector) (instr : Word) : GteM Unit := do
  lightTransformRow v instr 0
  lightTransformRow v instr 1
  lightTransformRow v instr 2

def lightColorRow (input : Vector) (instr : Word) (row : Fin 3) : GteM Unit := do
  let g ← get
  let acc ← mac44Stage ((g.bk row).toInt * 4096 + (g.lc row 0).toInt * (input 0).toInt) (row + 1)
  let acc ← mac44Stage (acc + (g.lc row 1).toInt * (input 1).toInt) (row + 1)
  storeMacIr (row + 1) (acc + (g.lc row 2).toInt * (input 2).toInt) (instrSf instr) (instrLm instr)

def lightColor (instr : Word) : GteM Unit := do
  let g ← get
  let input : Vector := ![g.ir1, g.ir2, g.ir3]
  lightColorRow input instr 0
  lightColorRow input instr 1
  lightColorRow input instr 2

def pushRgbFromMac : GteM Unit := do
  let g ← get
  let red ← saturateColor (g.mac1.toInt >>> (4 : ℕ)) 0
  let green ← saturateColor (g.mac2.toInt >>> (4 : ℕ)) 1
  let blue ← saturateColor (g.mac3.toInt >>> (4 : ℕ)) 2
  pushRgb red green blue

/-- A colour byte of a packed colour. -/
def colorByte (rgb : Word) (shift : ℕ) : Int := ((rgb >>> shift) &&& 0xFF).toNat

def colorMultiply (instr : Word) : GteM Unit := do
  let g ← get
  storeMacIr 1 (colorByte g.rgbc 0 * g.ir1.toInt * 16) (instrSf instr) (instrLm instr)
  storeMacIr 2 (colorByte g.rgbc 8 * g.ir2.toInt * 16) (instrSf instr) (instrLm instr)
  storeMacIr 3 (colorByte g.rgbc 16 * g.ir3.toInt * 16) (instrSf instr) (instrLm instr)

def colorOutput (instr : Word) : GteM Unit := do
  colorMultiply instr
  pushRgbFromMac

/-- From an unshifted input toward the far colour by IR0. -/
def depthCueFromMac (base1 base2 base3 : Int) (instr : Word) : GteM Unit := do
  let shift := instrSf instr
  let lm := instrLm instr
  let g ← get
  storeMacIr 1 ((g.fc 0).toInt * 4096 - base1) shift false
  storeMacIr 2 ((g.fc 1).toInt * 4096 - base2) shift false
  storeMacIr 3 ((g.fc 2).toInt * 4096 - base3) shift false
  let g ← get
  storeMacIr 1 (base1 + g.ir0.toInt * g.ir1.toInt) shift lm
  storeMacIr 2 (base2 + g.ir0.toInt * g.ir2.toInt) shift lm
  storeMacIr 3 (base3 + g.ir0.toInt * g.ir3.toInt) shift lm

def depthCueFromIr (instr : Word) : GteM Unit := do
  let g ← get
  depthCueFromMac (g.ir1.toInt * 4096) (g.ir2.toInt * 4096) (g.ir3.toInt * 4096) instr

/-- Depth cueing of the lit colour, RGBC times IR. -/
def depthCueFromColor (instr : Word) : GteM Unit := do
  let g ← get
  depthCueFromMac (colorByte g.rgbc 0 * g.ir1.toInt * 16) (colorByte g.rgbc 8 * g.ir2.toInt * 16)
    (colorByte g.rgbc 16 * g.ir3.toInt * 16) instr
  pushRgbFromMac

/-! ## Projection -/

def rtpsDot (v : Vector) (row : Fin 3) : GteM Int := do
  let g ← get
  let acc ← mac44Stage ((g.tr row).toInt * 4096 + (g.rt row 0).toInt * (v 0).toInt) (row + 1)
  let acc ← mac44Stage (acc + (g.rt row 1).toInt * (v 1).toInt) (row + 1)
  pure (acc + (g.rt row 2).toInt * (v 2).toInt)

/-- IR3 is clamped with the real `lm` and raises nothing. -/
def clampIr3 (mac3 : Word) (lm : Bool) : Half :=
  BitVec.ofInt 16 (min (max mac3.toInt (if lm then 0 else -0x8000)) 0x7FFF)

def depthCueMac0 (hDivSz : Int) : GteM Unit := do
  let g ← get
  let mac0 := g.dqa.toInt * hDivSz + g.dqb.toInt
  checkMac0Overflow mac0
  modify fun g => { g with mac0 := BitVec.ofInt 32 mac0 }
  let ir0 ← saturateIr0 (BitVec.ofInt 32 (mac0 >>> (12 : ℕ))).toInt
  modify fun g => { g with ir0 := ir0 }

def rtpsInternal (v : Vector) (setMac0 : Bool) (instr : Word) : GteM Unit := do
  let shift := instrSf instr
  let lm := instrLm instr
  let mac1 ← rtpsDot v 0
  let mac2 ← rtpsDot v 1
  let mac3 ← rtpsDot v 2
  checkMacOverflow mac1 1
  checkMacOverflow mac2 2
  checkMacOverflow mac3 3
  modify fun g => { g with
    mac1 := BitVec.ofInt 32 (mac1 >>> shift)
    mac2 := BitVec.ofInt 32 (mac2 >>> shift)
    mac3 := BitVec.ofInt 32 (mac3 >>> shift) }
  let g ← get
  let ir1 ← saturateIr g.mac1.toInt 1 lm
  let ir2 ← saturateIr g.mac2.toInt 2 lm
  -- FLAG.22 comes from the unshifted accumulator
  let _ ← saturateIr (BitVec.ofInt 32 (mac3 >>> (12 : ℕ))).toInt 3 false
  modify fun g => { g with ir1 := ir1, ir2 := ir2, ir3 := clampIr3 g.mac3 lm }
  pushSz (BitVec.ofInt 32 (mac3 >>> (12 : ℕ))).toInt
  let g ← get
  let hDivSz ← divide g.h (g.sz 3)
  let sx16 := g.ofx.toInt + g.ir1.toInt * hDivSz
  let sy16 := g.ofy.toInt + g.ir2.toInt * hDivSz
  checkMac0Overflow sx16
  checkMac0Overflow sy16
  pushSxy (sx16 >>> (16 : ℕ)) (sy16 >>> (16 : ℕ))
  if setMac0 then depthCueMac0 hDivSz

/-! ## Commands -/

/-- Every command clears FLAG first and sums up its errors last. -/
def command (body : GteM Unit) : GteM Unit := do
  modify fun g => { g with flag := 0 }
  body
  setErrorFlag

/-- The three vertices in turn. -/
def triple (body : Vector → GteM Unit) : GteM Unit := do
  let g ← get
  body g.v0
  body g.v1
  body g.v2

def rtps (instr : Word) : GteM Unit := command do
  let g ← get
  rtpsInternal g.v0 true instr

def rtpt (instr : Word) : GteM Unit := command do
  let g ← get
  rtpsInternal g.v0 false instr
  rtpsInternal g.v1 false instr
  rtpsInternal g.v2 true instr

/-- The two coordinates of a screen word. -/
def screenX (p : Word) : Int := (p.setWidth 16).toInt
def screenY (p : Word) : Int := ((p >>> 16).setWidth 16).toInt

def nclip : GteM Unit := command do
  let g ← get
  let mac0 := screenX (g.sxy 0) * (screenY (g.sxy 1) - screenY (g.sxy 2)) +
    screenX (g.sxy 1) * (screenY (g.sxy 2) - screenY (g.sxy 0)) +
    screenX (g.sxy 2) * (screenY (g.sxy 0) - screenY (g.sxy 1))
  checkMac0Overflow mac0
  modify fun g => { g with mac0 := BitVec.ofInt 32 mac0 }

def averageZ (factor : Half) (sum : Int) : GteM Unit := do
  let mac0 := factor.toInt * sum
  checkMac0Overflow mac0
  modify fun g => { g with mac0 := BitVec.ofInt 32 mac0 }
  let otz ← saturateSz (BitVec.ofInt 32 (mac0 >>> (12 : ℕ))).toInt
  modify fun g => { g with otz := otz }

def avsz3 : GteM Unit := command do
  let g ← get
  averageZ g.zsf3 ((g.sz 1).toNat + (g.sz 2).toNat + (g.sz 3).toNat : ℕ)

def avsz4 : GteM Unit := command do
  let g ← get
  averageZ g.zsf4 ((g.sz 0).toNat + (g.sz 1).toNat + (g.sz 2).toNat + (g.sz 3).toNat : ℕ)

def nccsInternal (instr : Word) (v : Vector) : GteM Unit := do
  lightTransform v instr
  lightColor instr
  colorOutput instr

def nccs (instr : Word) : GteM Unit := command do
  let g ← get
  nccsInternal instr g.v0

def ncct (instr : Word) : GteM Unit := command (triple (nccsInternal instr))

def ncdsInternal (instr : Word) (v : Vector) : GteM Unit := do
  lightTransform v instr
  lightColor instr
  depthCueFromColor instr

def ncds (instr : Word) : GteM Unit := command do
  let g ← get
  ncdsInternal instr g.v0

def ncdt (instr : Word) : GteM Unit := command (triple (ncdsInternal instr))

def ncsInternal (instr : Word) (v : Vector) : GteM Unit := do
  lightTransform v instr
  lightColor instr
  pushRgbFromMac

def ncs (instr : Word) : GteM Unit := command do
  let g ← get
  ncsInternal instr g.v0

def nct (instr : Word) : GteM Unit := command (triple (ncsInternal instr))

/-- Depth cueing of a packed colour. -/
def depthCueFromRgb (rgb : Word) (instr : Word) : GteM Unit := do
  depthCueFromMac (colorByte rgb 0 * 65536) (colorByte rgb 8 * 65536) (colorByte rgb 16 * 65536) instr
  pushRgbFromMac

def dpcs (instr : Word) : GteM Unit := command do
  let g ← get
  depthCueFromRgb g.rgbc instr

/-- The oldest colour of the FIFO. -/
def dpctStep (instr : Word) : GteM Unit := do
  let g ← get
  depthCueFromRgb (g.rgb 0) instr

def dpct (instr : Word) : GteM Unit := command do
  dpctStep instr
  dpctStep instr
  dpctStep instr

def dpcl (instr : Word) : GteM Unit := command (depthCueFromColor instr)

def intpl (instr : Word) : GteM Unit := command do
  depthCueFromIr instr
  pushRgbFromMac

def cdp (instr : Word) : GteM Unit := command do
  lightColor instr
  depthCueFromColor instr

def cc (instr : Word) : GteM Unit := command do
  lightColor instr
  colorOutput instr

/-! ### MVMVA -/

def mvmvaMatrix (g : GteState) (mx : BitVec 2) : Matrix :=
  match mx with
  | 0#2 => g.rt
  | 1#2 => g.l
  | 2#2 => g.lc
  | _ =>
    -- selector 3 reads registers that are no matrix
    let color : Half := (g.rgbc &&& 0xFF).setWidth 16 <<< 4
    ![![-color, color, g.ir0], fun _ => g.rt 0 2, fun _ => g.rt 1 1]

def mvmvaVector (g : GteState) (vv : BitVec 2) : Vector :=
  match vv with
  | 0#2 => g.v0
  | 1#2 => g.v1
  | 2#2 => g.v2
  | _ => ![g.ir1, g.ir2, g.ir3]

def mvmvaTranslation (g : GteState) (tv : BitVec 2) (row : Fin 3) : Int :=
  match tv with
  | 0#2 => (g.tr row).toInt * 4096
  | 1#2 => (g.bk row).toInt * 4096
  | 2#2 => (g.fc row).toInt * 4096
  | _ => 0

def setIr (irNum : ℕ) (ir : Half) : GteM Unit :=
  modify fun g =>
    match irNum with
    | 1 => { g with ir1 := ir }
    | 2 => { g with ir2 := ir }
    | 3 => { g with ir3 := ir }
    | _ => g

def mvmvaRow (m : Matrix) (v : Vector) (t : Fin 3 → Int) (bugged : Bool) (instr : Word)
    (row : Fin 3) : GteM Unit := do
  let shift := instrSf instr
  if bugged then
    -- the far-colour selector saturates a temporary that the Y/Z products replace
    let first ← mac44Stage (t row + (m row 0).toInt * (v 0).toInt) (row + 1)
    let temporary ← saturateIr (BitVec.ofInt 32 (first >>> shift)).toInt (row + 1) false
    setIr (row + 1) temporary
    let tail ← mac44Stage ((m row 1).toInt * (v 1).toInt) (row + 1)
    storeMacIr (row + 1) (tail + (m row 2).toInt * (v 2).toInt) shift (instrLm instr)
  else
    let acc ← mac44Stage (t row + (m row 0).toInt * (v 0).toInt) (row + 1)
    let acc ← mac44Stage (acc + (m row 1).toInt * (v 1).toInt) (row + 1)
    storeMacIr (row + 1) (acc + (m row 2).toInt * (v 2).toInt) shift (instrLm instr)

def mvmva (instr : Word) : GteM Unit := command do
  let g ← get
  let m := mvmvaMatrix g (instr.extractLsb' 17 2)
  let v := mvmvaVector g (instr.extractLsb' 15 2)
  let tv := instr.extractLsb' 13 2
  let t := mvmvaTranslation g tv
  mvmvaRow m v t (tv = 2) instr 0
  mvmvaRow m v t (tv = 2) instr 1
  mvmvaRow m v t (tv = 2) instr 2

/-! ### Products of IR -/

/-- The accumulators of the general-purpose commands, which skip the 44-bit stage. -/
def storeMacs (mac1 mac2 mac3 : Int) (instr : Word) : GteM Unit := do
  let lm := instrLm instr
  let shift := instrSf instr
  modify fun g => { g with
    mac1 := BitVec.ofInt 32 (mac1 >>> shift)
    mac2 := BitVec.ofInt 32 (mac2 >>> shift)
    mac3 := BitVec.ofInt 32 (mac3 >>> shift) }
  let g ← get
  let ir1 ← saturateIr g.mac1.toInt 1 lm
  let ir2 ← saturateIr g.mac2.toInt 2 lm
  let ir3 ← saturateIr g.mac3.toInt 3 lm
  modify fun g => { g with ir1 := ir1, ir2 := ir2, ir3 := ir3 }

def op (instr : Word) : GteM Unit := command do
  let g ← get
  let d1 := (g.rt 0 0).toInt
  let d2 := (g.rt 1 1).toInt
  let d3 := (g.rt 2 2).toInt
  storeMacs (d2 * g.ir3.toInt - d3 * g.ir2.toInt) (d3 * g.ir1.toInt - d1 * g.ir3.toInt)
    (d1 * g.ir2.toInt - d2 * g.ir1.toInt) instr

def sqr (instr : Word) : GteM Unit := command do
  let g ← get
  storeMacs (g.ir1.toInt * g.ir1.toInt) (g.ir2.toInt * g.ir2.toInt) (g.ir3.toInt * g.ir3.toInt) instr

def gpf (instr : Word) : GteM Unit := command do
  let g ← get
  storeMacs (g.ir0.toInt * g.ir1.toInt) (g.ir0.toInt * g.ir2.toInt) (g.ir0.toInt * g.ir3.toInt) instr
  pushRgbFromMac

def gpl (instr : Word) : GteM Unit := command do
  let g ← get
  let scale : Int := if instr.getLsbD 19 then 4096 else 1
  storeMacs (g.mac1.toInt * scale + g.ir0.toInt * g.ir1.toInt)
    (g.mac2.toInt * scale + g.ir0.toInt * g.ir2.toInt)
    (g.mac3.toInt * scale + g.ir0.toInt * g.ir3.toInt) instr
  pushRgbFromMac

/-- `gte_run_command`: a command by its function, `none` for the codes at which the program
exits. -/
def runCommand (instr : Word) : Option (GteM Unit) :=
  match instr.setWidth 6 with
  | 0x01#6 => some (rtps instr)
  | 0x06#6 => some nclip
  | 0x0C#6 => some (op instr)
  | 0x10#6 => some (dpcs instr)
  | 0x11#6 => some (intpl instr)
  | 0x12#6 => some (mvmva instr)
  | 0x13#6 => some (ncds instr)
  | 0x14#6 => some (cdp instr)
  | 0x16#6 => some (ncdt instr)
  | 0x1B#6 => some (nccs instr)
  | 0x1C#6 => some (cc instr)
  | 0x1E#6 => some (ncs instr)
  | 0x20#6 => some (nct instr)
  | 0x28#6 => some (sqr instr)
  | 0x29#6 => some (dpcl instr)
  | 0x2A#6 => some (dpct instr)
  | 0x2D#6 => some avsz3
  | 0x2E#6 => some avsz4
  | 0x30#6 => some (rtpt instr)
  | 0x3D#6 => some (gpf instr)
  | 0x3E#6 => some (gpl instr)
  | 0x3F#6 => some (ncct instr)
  | _ => none

end PsxRecomp.Gte
