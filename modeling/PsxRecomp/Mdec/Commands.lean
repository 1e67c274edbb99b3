import PsxRecomp.Mdec.Idct

/-! The decoder as the bus sees it: the input of a command, the command, the output. Memory for
both is there when it is asked for; the trace, the decode counters of the front end and the words
that are only reported are left out. -/
namespace PsxRecomp.Mdec
set_option autoImplicit false

abbrev Byte := BitVec 8
abbrev Halfword := BitVec 16
abbrev Word := BitVec 32
abbrev Quant := Fin 64 → Byte

/-- `MDEC_STOP_*` -/
inductive Stop
  | none
  | inputEnd
  | cr
  | cb
  | y0
  | y1
  | y2
  | y3
deriving DecidableEq, Repr

/-- `MDECState`: `input` holds the `input_count` halfwords collected, `output` the `output_size`
bytes decoded. -/
structure MDECState where
  command : Word
  expectedHalfwords : ℕ
  input : List Halfword
  output : List Byte
  outputPos : ℕ
  yQuant : Quant
  uvQuant : Quant
  scale : Block
  outputBit15 : Bool
  outputSigned : Bool
  outputDepth : ℕ
  currentBlock : ℕ
  busy : Bool
  enableDmaIn : Bool
  enableDmaOut : Bool
  decodeMacroblocks : ℕ
  decodeBlocks : ℕ
  decodeStopReason : Stop
  decodeInputPos : ℕ
  decodeInputEnd : ℕ

/-- `mdec_init` -/
def mdecInit : MDECState where
  command := 0
  expectedHalfwords := 0
  input := []
  output := []
  outputPos := 0
  yQuant _ := 1
  uvQuant _ := 1
  scale _ := 0
  outputBit15 := false
  outputSigned := false
  outputDepth := 3
  currentBlock := 4
  busy := false
  enableDmaIn := false
  enableDmaOut := false
  decodeMacroblocks := 0
  decodeBlocks := 0
  decodeStopReason := .none
  decodeInputPos := 0
  decodeInputEnd := 0

/-- `soft_reset` -/
def softReset (s : MDECState) : MDECState :=
  { mdecInit with yQuant := s.yQuant, uvQuant := s.uvQuant, scale := s.scale }

/-- `clear_output` -/
def clearOutput (s : MDECState) : MDECState := { s with output := [], outputPos := 0 }

/-- `finish_command` -/
def finishCommand (s : MDECState) : MDECState :=
  { s with expectedHalfwords := 0, input := [], busy := false }

/-! ## Samples -/

/-- `to_output_u8` -/
def toOutputU8 (signed : Bool) (value : ℤ) : Byte :=
  let value := clampInt value (-128) 127
  if signed then BitVec.ofInt 8 value else BitVec.ofInt 8 (value + 128)

/-- `append_luma_block` -/
def lumaBlock (s : MDECState) (yblk : Block) : List Byte :=
  List.ofFn fun i => toOutputU8 s.outputSigned (yblk i).toInt

/-- `rgb_to_555_chan` -/
def rgbTo555Chan (c : Byte) : ℕ := min ((c.toNat + 4) / 8) 0x1F

/-- `v & ~(2^bits - 1)` -/
def maskLow (bits : ℕ) (v : ℤ) : ℤ := v - v % 2 ^ bits

/-- `emit_rgb_pixel` -/
def emitRgbPixel (s : MDECState) (y cr cb : ℤ) : List Byte :=
  let unsigned := fun v : ℤ => BitVec.ofInt 8 (m9 v) ^^^ 0x80#8
  let ru := unsigned (y + (359 * cr + 0x80) / 256)
  let gu := unsigned (y + (maskLow 5 (-88 * cb) + maskLow 3 (-183 * cr) + 0x80) / 256)
  let bu := unsigned (y + (454 * cb + 0x80) / 256)
  if s.outputDepth = 3 then
    let packed := BitVec.ofNat 16 (rgbTo555Chan ru) ||| BitVec.ofNat 16 (rgbTo555Chan gu) <<< 5 |||
      BitVec.ofNat 16 (rgbTo555Chan bu) <<< 10
    let packed := packed ^^^ ((if s.outputBit15 then 0x8000#16 else 0) |||
      (if s.outputSigned then 0x4210#16 else 0))
    [packed.setWidth 8, (packed >>> 8).setWidth 8]
  else
    let rgbXor : Byte := if s.outputSigned then 0x80#8 else 0
    [ru ^^^ rgbXor, gu ^^^ rgbXor, bu ^^^ rgbXor]

/-- `append_color_macroblock` -/
def colorMacroblock (s : MDECState) (cr cb : Block) (yblk : Fin 4 → Block) : List Byte :=
  (List.finRange 16).flatMap fun py : Fin 16 => (List.finRange 16).flatMap fun px : Fin 16 =>
    let y := yblk ⟨(if 8 ≤ py.val then 2 else 0) + (if 8 ≤ px.val then 1 else 0),
      by split <;> split <;> decide⟩
    let chroma : Fin 64 := ⟨px / 2 + py / 2 * 8, by omega⟩
    emitRgbPixel s (y ⟨px % 8 + py % 8 * 8, by omega⟩).toInt (cr chroma).toInt (cb chroma).toInt

/-! ## Decoding -/

/-- What `execute_decode` keeps while it runs, the halfwords from `pos` on in `rest`. -/
structure Decoding where
  rest : List Halfword
  output : List Byte
  macroblocks : ℕ
  blocks : ℕ
  stop : Stop

/-- One `decode_rle_block`; without input it stops for the reason given. -/
def nextBlock (s : MDECState) (quant : Quant) (stop : Stop) (d : Decoding) :
    Except Decoding (Block × Decoding) :=
  match decodeRleBlock quant (idctBlockScalar s.scale) d.rest with
  | none => .error { d with stop := stop }
  | some (block, rest) => .ok (block, { d with rest := rest, blocks := d.blocks + 1 })

/-- A luma block, appended. -/
def lumaMacroblock (s : MDECState) (d : Decoding) : Except Decoding Decoding := do
  let (yblk, d) ← nextBlock s s.yQuant .y0 d
  return { d with output := d.output ++ lumaBlock s yblk, macroblocks := d.macroblocks + 1 }

/-- The six blocks of a colour macroblock, appended. -/
def colourMacroblock (s : MDECState) (d : Decoding) : Except Decoding Decoding := do
  let (cr, d) ← nextBlock s s.uvQuant .cr d
  let (cb, d) ← nextBlock s s.uvQuant .cb d
  let (y0, d) ← nextBlock s s.yQuant .y0 d
  let (y1, d) ← nextBlock s s.yQuant .y1 d
  let (y2, d) ← nextBlock s s.yQuant .y2 d
  let (y3, d) ← nextBlock s s.yQuant .y3 d
  return { d with
    output := d.output ++ colorMacroblock s cr cb ![y0, y1, y2, y3]
    macroblocks := d.macroblocks + 1 }

/-- `while (pos < end)`: each round takes at least one halfword. -/
def decodeLoop (macroblock : Decoding → Except Decoding Decoding) : ℕ → Decoding → Decoding
  | 0, d => d
  | n + 1, d =>
    if d.rest = [] then d
    else match macroblock d with
      | .error d => d
      | .ok d => decodeLoop macroblock n d

/-- The stop reason of a run that no block ended. -/
def stopReason (d : Decoding) : Stop :=
  if d.rest = [] ∧ d.stop = .none then .inputEnd else d.stop

/-- `execute_decode` -/
def executeDecode (s : MDECState) : MDECState :=
  let macroblock := if s.outputDepth < 2 then lumaMacroblock s else colourMacroblock s
  let d := decodeLoop macroblock s.input.length ⟨s.input, [], 0, 0, .none⟩
  { clearOutput s with
    output := d.output
    decodeMacroblocks := d.macroblocks
    decodeBlocks := d.blocks
    decodeStopReason := stopReason d
    decodeInputPos := s.input.length - d.rest.length
    decodeInputEnd := s.input.length }

/-! ## Commands -/

def opDecode : Word := 1
def opSetQuant : Word := 2
def opSetScale : Word := 3

/-- `input_byte` -/
def inputByte (s : MDECState) (i : ℕ) : Byte :=
  let hw := s.input.getD (i / 2) 0
  if i % 2 = 1 then (hw >>> 8).setWidth 8 else hw.setWidth 8

/-- `MDEC_CMD_SET_QUANT` -/
def setQuant (s : MDECState) : MDECState :=
  let yQuant : Quant := fun i => inputByte s i
  { s with
    yQuant := yQuant
    uvQuant := if s.command &&& 1 ≠ 0 then fun i => inputByte s (64 + i) else yQuant }

/-- `execute_command` -/
def executeCommand (s : MDECState) : MDECState :=
  let op := s.command >>> 29
  finishCommand <|
    if op = opSetQuant then setQuant s
    else if op = opSetScale then { s with scale := setScale (fun i => s.input.getD i 0) s.scale }
    else if op = opDecode then executeDecode s
    else s

/-- The halfwords a command asks for. -/
def commandHalfwords (value : Word) : ℕ :=
  let op := value >>> 29
  if op = opDecode then (value &&& 0xFFFF).toNat * 2
  else if op = opSetQuant then if value &&& 1 ≠ 0 then 64 else 32
  else if op = opSetScale then 64
  else 0

/-- `begin_command` -/
def beginCommand (value : Word) (s : MDECState) : MDECState :=
  let s := { s with
    command := value
    outputBit15 := value.getLsbD 25
    outputSigned := value.getLsbD 26
    outputDepth := (value >>> 27 &&& 3).toNat
    currentBlock := 4
    input := []
    busy := true
    expectedHalfwords := commandHalfwords value }
  if s.expectedHalfwords = 0 then finishCommand s else s

/-- A command that collects its input. -/
def collecting (s : MDECState) : Bool := s.busy && s.input.length < s.expectedHalfwords

/-- The halfwords of a word, the second one where it is asked for. -/
def fillWord (value : Word) (s : MDECState) : MDECState :=
  let s := { s with input := s.input ++ [value.setWidth 16] }
  if s.input.length < s.expectedHalfwords then
    { s with input := s.input ++ [(value >>> 16).setWidth 16] }
  else s

/-- A command whose input is complete is executed. -/
def completeCommand (s : MDECState) : MDECState :=
  if s.expectedHalfwords ≤ s.input.length then executeCommand s else s

/-- `write_data` -/
def writeData (value : Word) (s : MDECState) : MDECState :=
  if collecting s then completeCommand (fillWord value s) else beginCommand value s

end PsxRecomp.Mdec
