import Mathlib
import PsxRecomp.R3000.Gte

/-! The state a GTE command works on, and the saturating helpers that raise FLAG bits. -/
namespace PsxRecomp.Gte
open R3000 R3000.Cop2
set_option autoImplicit false

-- Literals of the index types find these by name, so that a definition holds no proof of its own.
scoped instance neZero_three : NeZero 3 := ⟨by decide⟩
scoped instance neZero_four : NeZero 4 := ⟨by decide⟩

abbrev Half := BitVec 16
abbrev Vector := Fin 3 → Half
abbrev Matrix := Fin 3 → Vector

/-- `GTEState` -/
@[ext]
structure GteState where
  v0 : Vector
  v1 : Vector
  v2 : Vector
  /-- the screen FIFO; the last entry mirrors SXY2 -/
  sxy : Fin 4 → Word
  sz : Fin 4 → Half
  rgbc : Word
  rgb : Fin 3 → Word
  res1 : Word
  rt : Matrix
  tr : Fin 3 → Word
  l : Matrix
  bk : Fin 3 → Word
  lc : Matrix
  fc : Fin 3 → Word
  ofx : Word
  ofy : Word
  h : Half
  dqa : Half
  dqb : Word
  zsf3 : Half
  zsf4 : Half
  ir0 : Half
  ir1 : Half
  ir2 : Half
  ir3 : Half
  mac0 : Word
  mac1 : Word
  mac2 : Word
  mac3 : Word
  otz : Half
  lzcs : Word
  lzcr : Word
  flag : Word

/-- A fresh `GTEState` is cleared. -/
def GteState.zero : GteState where
  v0 _ := 0
  v1 _ := 0
  v2 _ := 0
  sxy _ := 0
  sz _ := 0
  rgbc := 0
  rgb _ := 0
  res1 := 0
  rt _ _ := 0
  tr _ := 0
  l _ _ := 0
  bk _ := 0
  lc _ _ := 0
  fc _ := 0
  ofx := 0
  ofy := 0
  h := 0
  dqa := 0
  dqb := 0
  zsf3 := 0
  zsf4 := 0
  ir0 := 0
  ir1 := 0
  ir2 := 0
  ir3 := 0
  mac0 := 0
  mac1 := 0
  mac2 := 0
  mac3 := 0
  otz := 0
  lzcs := 0
  lzcr := 0
  flag := 0

abbrev GteM := StateM GteState

/-! ## FLAG -/

/-- `FLAG |= bits` -/
def raise (bits : Word) : GteM Unit := modify fun g => { g with flag := g.flag ||| bits }

def raiseIf (c : Prop) [Decidable c] (bits : Word) : GteM Unit :=
  if c then raise bits else pure ()

def flagSz3Otz : Word := 1 <<< 18
def flagDivOvf : Word := 1 <<< 17
def flagMac0Pos : Word := 1 <<< 16
def flagMac0Neg : Word := 1 <<< 15
def flagSx2Sat : Word := 1 <<< 14
def flagSy2Sat : Word := 1 <<< 13
def flagIr0Sat : Word := 1 <<< 12

/-- `set_error_flag` of a FLAG word -/
def withErrorFlag (flag : Word) : Word :=
  if flag &&& flagErrorMask ≠ 0 then flag ||| flagErrorBit else flag

def setErrorFlag : GteM Unit := modify fun g => { g with flag := withErrorFlag g.flag }

/-! ## Saturation -/

def saturateIr (value : Int) (irNum : ℕ) (lm : Bool) : GteM Half := do
  let minVal : Int := if lm then 0 else -0x8000
  if value < minVal then
    raise (1 <<< (25 - irNum))
    pure (BitVec.ofInt 16 minVal)
  else if 0x7FFF < value then
    raise (1 <<< (25 - irNum))
    pure 0x7FFF
  else pure (BitVec.ofInt 16 value)

def saturateIr0 (value : Int) : GteM Half := do
  if value < 0 then
    raise flagIr0Sat
    pure 0
  else if 0x1000 < value then
    raise flagIr0Sat
    pure 0x1000
  else pure (BitVec.ofInt 16 value)

def saturateColor (value : Int) (component : ℕ) : GteM (BitVec 8) := do
  if value < 0 then
    raise (1 <<< (21 - component))
    pure 0
  else if 255 < value then
    raise (1 <<< (21 - component))
    pure 255
  else pure (BitVec.ofInt 8 value)

def saturateSz (value : Int) : GteM Half := do
  if value < 0 then
    raise flagSz3Otz
    pure 0
  else if 0xFFFF < value then
    raise flagSz3Otz
    pure 0xFFFF
  else pure (BitVec.ofInt 16 value)

def checkMacOverflow (value : Int) (macNum : ℕ) : GteM Unit := do
  raiseIf (0x7FFFFFFFFFF < value) (1 <<< (31 - macNum))
  raiseIf (value < -0x80000000000) (1 <<< (28 - macNum))

def checkMac0Overflow (value : Int) : GteM Unit := do
  raiseIf (0x7FFFFFFF < value) flagMac0Pos
  raiseIf (value < -0x80000000) flagMac0Neg

/-! ## FIFOs -/

/-- One screen coordinate, clamped to eleven bits. -/
def saturateScreen (value : Int) (bit : Word) : GteM Half := do
  if value < -0x400 then
    raise bit
    pure (-0x400)
  else if 0x3FF < value then
    raise bit
    pure 0x3FF
  else pure (BitVec.ofInt 16 value)

def pushSxy (sx sy : Int) : GteM Unit := do
  let sxSat ← saturateScreen sx flagSx2Sat
  let sySat ← saturateScreen sy flagSy2Sat
  let packed : Word := (sySat.setWidth 32 <<< 16) ||| sxSat.setWidth 32
  modify fun g => { g with sxy := ![g.sxy 1, g.sxy 2, packed, packed] }

def pushSz (value : Int) : GteM Unit := do
  let g ← get
  let shifted := ![g.sz 1, g.sz 2, g.sz 3, g.sz 3]
  modify fun g => { g with sz := shifted }
  let sz3 ← saturateSz value
  modify fun g => { g with sz := Function.update g.sz 3 sz3 }

def pushRgb (r g b : BitVec 8) : GteM Unit :=
  modify fun s : GteState =>
    let cd : Word := (s.rgbc >>> 24) &&& 0xFF
    { s with rgb := ![s.rgb 1, s.rgb 2,
        (cd <<< 24) ||| (b.setWidth 32 <<< 16) ||| (g.setWidth 32 <<< 8) ||| r.setWidth 32] }

end PsxRecomp.Gte
