import PsxRecomp.Library.MachineWord

/-! The COP2 register bridge: the backing arrays of `CPUState`, the helpers that read and write
them with the guest's masks and aliases, and the registers the emitters may access raw. -/
namespace PsxRecomp.R3000
set_option autoImplicit false

abbrev Word := BitVec 32
abbrev Reg := BitVec 5

/-- `cpu->gte_data` and `cpu->gte_ctrl`. -/
structure Cop2 where
  data : Reg → Word
  ctrl : Reg → Word

namespace Cop2

/-! ## Register values -/

def signExtend16 (value : Word) : Word := (value.setWidth 16).signExtend 32

/-- The shift loop of `gte_cpu_lzcr`, which stops within a word's width. -/
def lzcrLoop : ℕ → Word → Word → Word
  | 0, _, count => count
  | fuel + 1, bits, count =>
    if bits &&& 0x80000000 = 0 then lzcrLoop fuel (bits <<< 1) (count + 1) else count

def lzcr (value : Word) : Word :=
  let bits := if value &&& 0x80000000 ≠ 0 then ~~~value else value
  if bits = 0 then 32 else lzcrLoop 32 bits 0

def irgbComponent (value : Word) : Word :=
  let ir := signExtend16 value
  if ir.toInt ≤ 0 then 0
  else
    let scaled := ir >>> 7
    if 0x1F < scaled then 0x1F else scaled

def packIrgb (data : Reg → Word) : Word :=
  irgbComponent (data 11) <<< 10 ||| irgbComponent (data 10) <<< 5 ||| irgbComponent (data 9)

/-! ## Reads -/

/-- `gte_read_data` -/
def readData (c : Cop2) (reg : Reg) : Word :=
  match reg with
  | 7#5 | 16#5 | 17#5 | 18#5 | 19#5 => c.data reg &&& 0xFFFF
  | 1#5 | 3#5 | 5#5 | 8#5 | 9#5 | 10#5 | 11#5 => signExtend16 (c.data reg)
  | 15#5 => c.data 14
  | 28#5 | 29#5 => packIrgb c.data
  | 31#5 => lzcr (c.data 30)
  | _ => c.data reg

/-- `gte_read_ctrl` -/
def readCtrl (c : Cop2) (reg : Reg) : Word :=
  match reg with
  | 4#5 | 12#5 | 20#5 | 26#5 | 27#5 | 29#5 | 30#5 => signExtend16 (c.ctrl reg)
  | _ => c.ctrl reg

/-! ## Writes -/

/-- `gte_cpu_canonicalize_backing`: every register is left holding what a read of it returns. -/
def canonicalizeBacking (c : Cop2) : Cop2 :=
  let data := fun reg : Reg => match reg with
    | 7#5 | 16#5 | 17#5 | 18#5 | 19#5 => c.data reg &&& 0xFFFF
    | 1#5 | 3#5 | 5#5 | 8#5 | 9#5 | 10#5 | 11#5 => signExtend16 (c.data reg)
    | _ => c.data reg
  let data := Function.update data 15 (data 14)
  let data := Function.update data 29 (packIrgb data)
  let data := Function.update data 28 (data 29)
  let data := Function.update data 31 (lzcr (data 30))
  let ctrl := fun reg : Reg => match reg with
    | 4#5 | 12#5 | 20#5 | 26#5 | 27#5 | 29#5 | 30#5 => signExtend16 (c.ctrl reg)
    | _ => c.ctrl reg
  { data := data, ctrl := ctrl }

/-- The colour registers 28 and 29 hold the packed IR1..IR3. -/
def repackIrgb (data : Reg → Word) : Reg → Word :=
  Function.update (Function.update data 28 (packIrgb data)) 29 (packIrgb data)

/-- `gte_write_data` -/
def writeData (c : Cop2) (reg : Reg) (val : Word) : Cop2 :=
  let c := c.canonicalizeBacking
  let data := match reg with
    | 7#5 | 16#5 | 17#5 | 18#5 | 19#5 => Function.update c.data reg (val &&& 0xFFFF)
    | 1#5 | 3#5 | 5#5 | 8#5 => Function.update c.data reg (signExtend16 val)
    | 9#5 | 10#5 | 11#5 => repackIrgb (Function.update c.data reg (signExtend16 val))
    | 14#5 => Function.update (Function.update c.data 14 val) 15 val
    | 15#5 =>
      let data := Function.update c.data 12 (c.data 13)
      let data := Function.update data 13 (data 14)
      Function.update (Function.update data 14 val) 15 val
    | 28#5 =>
      let data := Function.update c.data 9 ((val &&& 0x1F) <<< 7)
      let data := Function.update data 10 (((val >>> 5) &&& 0x1F) <<< 7)
      let data := Function.update data 11 (((val >>> 10) &&& 0x1F) <<< 7)
      Function.update (Function.update data 28 (val &&& 0x7FFF)) 29 (val &&& 0x7FFF)
    | 29#5 => repackIrgb c.data
    | 30#5 => Function.update (Function.update c.data 30 val) 31 (lzcr val)
    | 31#5 => Function.update c.data 31 (lzcr (c.data 30))
    | _ => Function.update c.data reg val
  { c with data := data }

def flagErrorMask : Word := 0x7F87E000
def flagErrorBit : Word := 0x80000000

/-- `gte_write_ctrl` -/
def writeCtrl (c : Cop2) (reg : Reg) (val : Word) : Cop2 :=
  let c := c.canonicalizeBacking
  let value := match reg with
    | 4#5 | 12#5 | 20#5 | 26#5 | 27#5 | 29#5 | 30#5 => signExtend16 val
    | 31#5 =>
      let flag := val &&& 0x7FFFF000
      if flag &&& flagErrorMask ≠ 0 then flag ||| flagErrorBit else flag
    | _ => val
  { c with ctrl := Function.update c.ctrl reg value }

/-! ## Raw accesses -/

/-- `data_read_needs_helper` -/
def dataReadNeedsHelper (reg : Reg) : Bool :=
  reg = 1 ∨ reg = 3 ∨ reg = 5 ∨ reg = 7 ∨ (8 ≤ reg ∧ reg ≤ 11) ∨ reg = 15 ∨
    (16 ≤ reg ∧ reg ≤ 19) ∨ reg = 23 ∨ reg = 28 ∨ reg = 29 ∨ reg = 31

/-- `data_write_needs_helper` -/
def dataWriteNeedsHelper (reg : Reg) : Bool :=
  reg = 1 ∨ reg = 3 ∨ reg = 5 ∨ (7 ≤ reg ∧ reg ≤ 19) ∨ reg = 23 ∨
    reg = 28 ∨ reg = 29 ∨ reg = 30 ∨ reg = 31

/-- `ctrl_read_needs_helper`, and `ctrl_write_needs_helper` with the same registers. -/
def ctrlNeedsHelper (reg : Reg) : Bool :=
  reg = 4 ∨ reg = 12 ∨ reg = 20 ∨ reg = 26 ∨ reg = 27 ∨ reg = 29 ∨ reg = 30 ∨ reg = 31

/-- A data register outside the helper set reads as its backing word. -/
theorem readData_raw (c : Cop2) (reg : Reg) (h : dataReadNeedsHelper reg = false) :
    c.readData reg = c.data reg := by
  unfold readData
  split <;> first | rfl | exact absurd h (by decide)

theorem readCtrl_raw (c : Cop2) (reg : Reg) (h : ctrlNeedsHelper reg = false) :
    c.readCtrl reg = c.ctrl reg := by
  unfold readCtrl
  split <;> first | rfl | exact absurd h (by decide)

end Cop2

end PsxRecomp.R3000
