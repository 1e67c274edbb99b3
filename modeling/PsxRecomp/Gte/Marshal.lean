import Mathlib
import PsxRecomp.Gte.Command

/-! Register transfers of a `GTEState`, and the marshaling between it and the backing arrays of
`CPUState`. -/
namespace PsxRecomp.Gte
open R3000 R3000.Cop2
set_option autoImplicit false

/-! ## Packing -/

/-- `gte_unpack_s16` -/
def unpackS16 (value : Word) : Half := value.setWidth 16

/-- `gte_pack_s16_pair` -/
def packS16Pair (lo hi : Half) : Word := lo.setWidth 32 ||| (hi.setWidth 32 <<< 16)

/-- A signed half word in a register. -/
def widenS16 (value : Half) : Word := value.signExtend 32

def widenU16 (value : Half) : Word := value.setWidth 32

/-- `std::clamp(ir >> 7, 0, 0x1F)` -/
def clampIrgb (ir : Half) : Word := BitVec.ofInt 32 (max 0 (min (ir.toInt >>> (7 : ℕ)) 0x1F))

/-- `gte_state_pack_irgb` -/
def statePackIrgb (g : GteState) : Word :=
  clampIrgb g.ir3 <<< 10 ||| clampIrgb g.ir2 <<< 5 ||| clampIrgb g.ir1

/-! ## Data registers -/

/-- `gte_mtc2` -/
def mtc2 (g : GteState) (reg : Reg) (value : Word) : GteState :=
  match reg with
  | 0#5 => { g with v0 := ![unpackS16 value, unpackS16 (value >>> 16), g.v0 2] }
  | 1#5 => { g with v0 := ![g.v0 0, g.v0 1, unpackS16 value] }
  | 2#5 => { g with v1 := ![unpackS16 value, unpackS16 (value >>> 16), g.v1 2] }
  | 3#5 => { g with v1 := ![g.v1 0, g.v1 1, unpackS16 value] }
  | 4#5 => { g with v2 := ![unpackS16 value, unpackS16 (value >>> 16), g.v2 2] }
  | 5#5 => { g with v2 := ![g.v2 0, g.v2 1, unpackS16 value] }
  | 6#5 => { g with rgbc := value }
  | 7#5 => { g with otz := unpackS16 value }
  | 8#5 => { g with ir0 := unpackS16 value }
  | 9#5 => { g with ir1 := unpackS16 value }
  | 10#5 => { g with ir2 := unpackS16 value }
  | 11#5 => { g with ir3 := unpackS16 value }
  | 12#5 => { g with sxy := ![value, g.sxy 1, g.sxy 2, g.sxy 3] }
  | 13#5 => { g with sxy := ![g.sxy 0, value, g.sxy 2, g.sxy 3] }
  | 14#5 => { g with sxy := ![g.sxy 0, g.sxy 1, value, value] }
  -- SXYP pushes the FIFO
  | 15#5 => { g with sxy := ![g.sxy 1, g.sxy 2, value, value] }
  | 16#5 => { g with sz := ![unpackS16 value, g.sz 1, g.sz 2, g.sz 3] }
  | 17#5 => { g with sz := ![g.sz 0, unpackS16 value, g.sz 2, g.sz 3] }
  | 18#5 => { g with sz := ![g.sz 0, g.sz 1, unpackS16 value, g.sz 3] }
  | 19#5 => { g with sz := ![g.sz 0, g.sz 1, g.sz 2, unpackS16 value] }
  | 20#5 => { g with rgb := ![value, g.rgb 1, g.rgb 2] }
  | 21#5 => { g with rgb := ![g.rgb 0, value, g.rgb 2] }
  | 22#5 => { g with rgb := ![g.rgb 0, g.rgb 1, value] }
  | 23#5 => { g with res1 := value }
  | 24#5 => { g with mac0 := value }
  | 25#5 => { g with mac1 := value }
  | 26#5 => { g with mac2 := value }
  | 27#5 => { g with mac3 := value }
  | 28#5 => { g with
      ir1 := unpackS16 ((value &&& 0x1F) <<< 7)
      ir2 := unpackS16 (((value >>> 5) &&& 0x1F) <<< 7)
      ir3 := unpackS16 (((value >>> 10) &&& 0x1F) <<< 7) }
  | 30#5 => { g with lzcs := value, lzcr := lzcr value }
  -- ORGB and LZCR are read-only
  | _ => g

/-- `gte_mfc2` -/
def mfc2 (g : GteState) (reg : Reg) : Word :=
  match reg with
  | 0#5 => packS16Pair (g.v0 0) (g.v0 1)
  | 1#5 => widenS16 (g.v0 2)
  | 2#5 => packS16Pair (g.v1 0) (g.v1 1)
  | 3#5 => widenS16 (g.v1 2)
  | 4#5 => packS16Pair (g.v2 0) (g.v2 1)
  | 5#5 => widenS16 (g.v2 2)
  | 6#5 => g.rgbc
  | 7#5 => widenU16 g.otz
  | 8#5 => widenS16 g.ir0
  | 9#5 => widenS16 g.ir1
  | 10#5 => widenS16 g.ir2
  | 11#5 => widenS16 g.ir3
  | 12#5 => g.sxy 0
  | 13#5 => g.sxy 1
  | 14#5 => g.sxy 2
  | 15#5 => g.sxy 3
  | 16#5 => widenU16 (g.sz 0)
  | 17#5 => widenU16 (g.sz 1)
  | 18#5 => widenU16 (g.sz 2)
  | 19#5 => widenU16 (g.sz 3)
  | 20#5 => g.rgb 0
  | 21#5 => g.rgb 1
  | 22#5 => g.rgb 2
  | 23#5 => g.res1
  | 24#5 => g.mac0
  | 25#5 => g.mac1
  | 26#5 => g.mac2
  | 27#5 => g.mac3
  | 28#5 | 29#5 => statePackIrgb g
  | 30#5 => g.lzcs
  | _ => g.lzcr

/-! ## Control registers -/

/-- `gte_ctc2` -/
def ctc2 (g : GteState) (reg : Reg) (value : Word) : GteState :=
  match reg with
  | 0#5 => { g with
      rt := ![![unpackS16 value, unpackS16 (value >>> 16), g.rt 0 2], g.rt 1, g.rt 2] }
  | 1#5 => { g with
      rt := ![![g.rt 0 0, g.rt 0 1, unpackS16 value],
        ![unpackS16 (value >>> 16), g.rt 1 1, g.rt 1 2], g.rt 2] }
  | 2#5 => { g with
      rt := ![g.rt 0, ![g.rt 1 0, unpackS16 value, unpackS16 (value >>> 16)], g.rt 2] }
  | 3#5 => { g with
      rt := ![g.rt 0, g.rt 1, ![unpackS16 value, unpackS16 (value >>> 16), g.rt 2 2]] }
  | 4#5 => { g with rt := ![g.rt 0, g.rt 1, ![g.rt 2 0, g.rt 2 1, unpackS16 value]] }
  | 5#5 => { g with tr := ![value, g.tr 1, g.tr 2] }
  | 6#5 => { g with tr := ![g.tr 0, value, g.tr 2] }
  | 7#5 => { g with tr := ![g.tr 0, g.tr 1, value] }
  | 8#5 => { g with
      l := ![![unpackS16 value, unpackS16 (value >>> 16), g.l 0 2], g.l 1, g.l 2] }
  | 9#5 => { g with
      l := ![![g.l 0 0, g.l 0 1, unpackS16 value],
        ![unpackS16 (value >>> 16), g.l 1 1, g.l 1 2], g.l 2] }
  | 10#5 => { g with
      l := ![g.l 0, ![g.l 1 0, unpackS16 value, unpackS16 (value >>> 16)], g.l 2] }
  | 11#5 => { g with
      l := ![g.l 0, g.l 1, ![unpackS16 value, unpackS16 (value >>> 16), g.l 2 2]] }
  | 12#5 => { g with l := ![g.l 0, g.l 1, ![g.l 2 0, g.l 2 1, unpackS16 value]] }
  | 13#5 => { g with bk := ![value, g.bk 1, g.bk 2] }
  | 14#5 => { g with bk := ![g.bk 0, value, g.bk 2] }
  | 15#5 => { g with bk := ![g.bk 0, g.bk 1, value] }
  | 16#5 => { g with
      lc := ![![unpackS16 value, unpackS16 (value >>> 16), g.lc 0 2], g.lc 1, g.lc 2] }
  | 17#5 => { g with
      lc := ![![g.lc 0 0, g.lc 0 1, unpackS16 value],
        ![unpackS16 (value >>> 16), g.lc 1 1, g.lc 1 2], g.lc 2] }
  | 18#5 => { g with
      lc := ![g.lc 0, ![g.lc 1 0, unpackS16 value, unpackS16 (value >>> 16)], g.lc 2] }
  | 19#5 => { g with
      lc := ![g.lc 0, g.lc 1, ![unpackS16 value, unpackS16 (value >>> 16), g.lc 2 2]] }
  | 20#5 => { g with lc := ![g.lc 0, g.lc 1, ![g.lc 2 0, g.lc 2 1, unpackS16 value]] }
  | 21#5 => { g with fc := ![value, g.fc 1, g.fc 2] }
  | 22#5 => { g with fc := ![g.fc 0, value, g.fc 2] }
  | 23#5 => { g with fc := ![g.fc 0, g.fc 1, value] }
  | 24#5 => { g with ofx := value }
  | 25#5 => { g with ofy := value }
  | 26#5 => { g with h := unpackS16 value }
  | 27#5 => { g with dqa := unpackS16 value }
  | 28#5 => { g with dqb := value }
  | 29#5 => { g with zsf3 := unpackS16 value }
  | 30#5 => { g with zsf4 := unpackS16 value }
  | _ => { g with flag := withErrorFlag (value &&& 0x7FFFF000) }

/-- `gte_cfc2` -/
def cfc2 (g : GteState) (reg : Reg) : Word :=
  match reg with
  | 0#5 => packS16Pair (g.rt 0 0) (g.rt 0 1)
  | 1#5 => packS16Pair (g.rt 0 2) (g.rt 1 0)
  | 2#5 => packS16Pair (g.rt 1 1) (g.rt 1 2)
  | 3#5 => packS16Pair (g.rt 2 0) (g.rt 2 1)
  | 4#5 => widenS16 (g.rt 2 2)
  | 5#5 => g.tr 0
  | 6#5 => g.tr 1
  | 7#5 => g.tr 2
  | 8#5 => packS16Pair (g.l 0 0) (g.l 0 1)
  | 9#5 => packS16Pair (g.l 0 2) (g.l 1 0)
  | 10#5 => packS16Pair (g.l 1 1) (g.l 1 2)
  | 11#5 => packS16Pair (g.l 2 0) (g.l 2 1)
  | 12#5 => widenS16 (g.l 2 2)
  | 13#5 => g.bk 0
  | 14#5 => g.bk 1
  | 15#5 => g.bk 2
  | 16#5 => packS16Pair (g.lc 0 0) (g.lc 0 1)
  | 17#5 => packS16Pair (g.lc 0 2) (g.lc 1 0)
  | 18#5 => packS16Pair (g.lc 1 1) (g.lc 1 2)
  | 19#5 => packS16Pair (g.lc 2 0) (g.lc 2 1)
  | 20#5 => widenS16 (g.lc 2 2)
  | 21#5 => g.fc 0
  | 22#5 => g.fc 1
  | 23#5 => g.fc 2
  | 24#5 => g.ofx
  | 25#5 => g.ofy
  | 26#5 => widenS16 g.h
  | 27#5 => widenS16 g.dqa
  | 28#5 => g.dqb
  | 29#5 => widenS16 g.zsf3
  | 30#5 => widenS16 g.zsf4
  | _ => g.flag

/-! ## Marshaling -/

/-- The words of both arrays as a `GTEState`; `flag` is what becomes of the FLAG word. -/
def importWords (d c : Reg → Word) (flag : Word) : GteState where
  v0 := ![unpackS16 (d 0), unpackS16 (d 0 >>> 16), unpackS16 (d 1)]
  v1 := ![unpackS16 (d 2), unpackS16 (d 2 >>> 16), unpackS16 (d 3)]
  v2 := ![unpackS16 (d 4), unpackS16 (d 4 >>> 16), unpackS16 (d 5)]
  sxy := ![d 12, d 13, d 14, d 14]
  sz := ![unpackS16 (d 16), unpackS16 (d 17), unpackS16 (d 18), unpackS16 (d 19)]
  rgbc := d 6
  rgb := ![d 20, d 21, d 22]
  res1 := d 23
  rt := ![![unpackS16 (c 0), unpackS16 (c 0 >>> 16), unpackS16 (c 1)],
    ![unpackS16 (c 1 >>> 16), unpackS16 (c 2), unpackS16 (c 2 >>> 16)],
    ![unpackS16 (c 3), unpackS16 (c 3 >>> 16), unpackS16 (c 4)]]
  tr := ![c 5, c 6, c 7]
  l := ![![unpackS16 (c 8), unpackS16 (c 8 >>> 16), unpackS16 (c 9)],
    ![unpackS16 (c 9 >>> 16), unpackS16 (c 10), unpackS16 (c 10 >>> 16)],
    ![unpackS16 (c 11), unpackS16 (c 11 >>> 16), unpackS16 (c 12)]]
  bk := ![c 13, c 14, c 15]
  lc := ![![unpackS16 (c 16), unpackS16 (c 16 >>> 16), unpackS16 (c 17)],
    ![unpackS16 (c 17 >>> 16), unpackS16 (c 18), unpackS16 (c 18 >>> 16)],
    ![unpackS16 (c 19), unpackS16 (c 19 >>> 16), unpackS16 (c 20)]]
  fc := ![c 21, c 22, c 23]
  ofx := c 24
  ofy := c 25
  h := unpackS16 (c 26)
  dqa := unpackS16 (c 27)
  dqb := c 28
  zsf3 := unpackS16 (c 29)
  zsf4 := unpackS16 (c 30)
  ir0 := unpackS16 (d 8)
  ir1 := unpackS16 (d 9)
  ir2 := unpackS16 (d 10)
  ir3 := unpackS16 (d 11)
  mac0 := d 24
  mac1 := d 25
  mac2 := d 26
  mac3 := d 27
  otz := unpackS16 (d 7)
  -- IRGB is skipped: it would quantize IR1..IR3
  lzcs := d 30
  lzcr := lzcr (d 30)
  flag := flag

/-- `gte_import_cpu_state` -/
def importCpuState (cpu : Cop2) : GteState :=
  importWords cpu.data cpu.ctrl (cpu.ctrl 31 &&& 0x7FFFF000)

/-- `gte_export_cpu_state` -/
def exportCpuState (g : GteState) : Cop2 where
  data reg := match reg with
    | 0#5 => packS16Pair (g.v0 0) (g.v0 1)
    | 1#5 => widenS16 (g.v0 2)
    | 2#5 => packS16Pair (g.v1 0) (g.v1 1)
    | 3#5 => widenS16 (g.v1 2)
    | 4#5 => packS16Pair (g.v2 0) (g.v2 1)
    | 5#5 => widenS16 (g.v2 2)
    | 6#5 => g.rgbc
    | 7#5 => widenU16 g.otz
    | 8#5 => widenS16 g.ir0
    | 9#5 => widenS16 g.ir1
    | 10#5 => widenS16 g.ir2
    | 11#5 => widenS16 g.ir3
    | 12#5 => g.sxy 0
    | 13#5 => g.sxy 1
    | 14#5 => g.sxy 2
    | 15#5 => g.sxy 3
    | 16#5 => widenU16 (g.sz 0)
    | 17#5 => widenU16 (g.sz 1)
    | 18#5 => widenU16 (g.sz 2)
    | 19#5 => widenU16 (g.sz 3)
    | 20#5 => g.rgb 0
    | 21#5 => g.rgb 1
    | 22#5 => g.rgb 2
    | 23#5 => g.res1
    | 24#5 => g.mac0
    | 25#5 => g.mac1
    | 26#5 => g.mac2
    | 27#5 => g.mac3
    | 28#5 | 29#5 => statePackIrgb g
    | 30#5 => g.lzcs
    | _ => g.lzcr
  ctrl reg := match reg with
    | 0#5 => packS16Pair (g.rt 0 0) (g.rt 0 1)
    | 1#5 => packS16Pair (g.rt 0 2) (g.rt 1 0)
    | 2#5 => packS16Pair (g.rt 1 1) (g.rt 1 2)
    | 3#5 => packS16Pair (g.rt 2 0) (g.rt 2 1)
    | 4#5 => widenS16 (g.rt 2 2)
    | 5#5 => g.tr 0
    | 6#5 => g.tr 1
    | 7#5 => g.tr 2
    | 8#5 => packS16Pair (g.l 0 0) (g.l 0 1)
    | 9#5 => packS16Pair (g.l 0 2) (g.l 1 0)
    | 10#5 => packS16Pair (g.l 1 1) (g.l 1 2)
    | 11#5 => packS16Pair (g.l 2 0) (g.l 2 1)
    | 12#5 => widenS16 (g.l 2 2)
    | 13#5 => g.bk 0
    | 14#5 => g.bk 1
    | 15#5 => g.bk 2
    | 16#5 => packS16Pair (g.lc 0 0) (g.lc 0 1)
    | 17#5 => packS16Pair (g.lc 0 2) (g.lc 1 0)
    | 18#5 => packS16Pair (g.lc 1 1) (g.lc 1 2)
    | 19#5 => packS16Pair (g.lc 2 0) (g.lc 2 1)
    | 20#5 => widenS16 (g.lc 2 2)
    | 21#5 => g.fc 0
    | 22#5 => g.fc 1
    | 23#5 => g.fc 2
    | 24#5 => g.ofx
    | 25#5 => g.ofy
    | 26#5 => widenS16 g.h
    | 27#5 => widenS16 g.dqa
    | 28#5 => g.dqb
    | 29#5 => widenS16 g.zsf3
    | 30#5 => widenS16 g.zsf4
    | _ => g.flag

/-! ## Bridges -/

/-- `gte_execute`, up to the timing of the command; `none` where the program exits. -/
def execute (cpu : Cop2) (instr : Word) : Option Cop2 :=
  (runCommand instr).map fun run => exportCpuState (run (importCpuState cpu)).2

/-- The registers `gte_test_execute_reference` loads: SXYP would push and IRGB overwrite. -/
def referenceRegs : List Reg := (List.range 32).map (BitVec.ofNat 5)

/-- The loading loops of `gte_test_execute_reference`. -/
def loadReference (cpu : Cop2) : GteState :=
  let g := (referenceRegs.filter fun reg => reg ≠ 15 ∧ reg ≠ 28).foldl
    (fun g reg => mtc2 g reg (cpu.data reg)) GteState.zero
  referenceRegs.foldl (fun g reg => ctc2 g reg (cpu.ctrl reg)) g

/-- `gte_test_execute_reference` -/
def testExecuteReference (cpu : Cop2) (instr : Word) : Option Cop2 :=
  (runCommand instr).map fun run =>
    let g := (run (loadReference cpu)).2
    { data := mfc2 g, ctrl := cfc2 g }

end PsxRecomp.Gte
