import Mathlib
import PsxRecomp.Spu.Envelope

/-! A hardware voice: its blocks, the sample it gives, KEYON and KEYOFF. The interrupt compare, the
event ring, the shadow tap and the private voices of the host are left out. -/
namespace PsxRecomp.Spu
set_option autoImplicit false

-- Literals of the index type find this by name, so that a definition holds no proof of its own.
scoped instance neZero_eight : NeZero 8 := ⟨by decide⟩

/-! ## Interpolation -/

def spuGaussTable : Array ℤ :=
  #[-1, -1, -1, -1, -1, -1, -1, -1, -1, -1, -1, -1, -1, -1, -1, -1, 0, 0, 0, 0, 0, 0, 0, 1, 1, 1, 1,
    2, 2, 2, 3, 3, 3, 4, 4, 5, 5, 6, 7, 7, 8, 9, 9, 10, 11, 12, 13, 14, 15, 16, 17, 18, 19, 21, 22,
    24, 25, 27, 28, 30, 32, 33, 35, 37, 39, 41, 44, 46, 48, 51, 53, 56, 58, 61, 64, 67, 70, 73, 77,
    80, 84, 87, 91, 95, 99, 103, 107, 111, 116, 120, 125, 130, 135, 140, 145, 150, 156, 161, 167,
    173, 179, 186, 192, 199, 205, 212, 219, 227, 234, 242, 250, 257, 266, 274, 283, 291, 300, 309,
    319, 328, 338, 348, 358, 369, 379, 390, 401, 412, 424, 436, 448, 460, 473, 485, 498, 512, 525,
    539, 553, 567, 582, 597, 612, 627, 643, 659, 675, 692, 708, 726, 743, 761, 779, 797, 816, 835,
    854, 874, 894, 914, 935, 956, 977, 999, 1020, 1043, 1066, 1089, 1112, 1136, 1160, 1184, 1209,
    1234, 1260, 1286, 1312, 1339, 1366, 1394, 1422, 1450, 1479, 1508, 1537, 1567, 1598, 1628, 1660,
    1691, 1723, 1756, 1789, 1822, 1856, 1890, 1924, 1959, 1995, 2031, 2067, 2104, 2141, 2179, 2217,
    2256, 2295, 2334, 2374, 2415, 2456, 2497, 2539, 2582, 2624, 2668, 2712, 2756, 2801, 2846, 2892,
    2938, 2985, 3032, 3079, 3128, 3176, 3225, 3275, 3325, 3376, 3427, 3479, 3531, 3584, 3637, 3691,
    3745, 3799, 3855, 3910, 3967, 4023, 4081, 4138, 4197, 4255, 4315, 4374, 4435, 4495, 4557, 4619,
    4681, 4744, 4807, 4871, 4935, 5000, 5065, 5131, 5197, 5264, 5332, 5399, 5468, 5536, 5606, 5676,
    5746, 5817, 5888, 5959, 6032, 6104, 6177, 6251, 6325, 6400, 6475, 6550, 6626, 6702, 6779, 6856,
    6934, 7012, 7091, 7170, 7249, 7329, 7409, 7490, 7571, 7653, 7735, 7817, 7900, 7983, 8066, 8150,
    8234, 8319, 8404, 8489, 8575, 8661, 8748, 8834, 8922, 9009, 9097, 9185, 9273, 9362, 9451, 9541,
    9630, 9720, 9811, 9901, 9992, 10083, 10174, 10266, 10358, 10450, 10542, 10635, 10727, 10820,
    10913, 11007, 11100, 11194, 11288, 11382, 11476, 11571, 11665, 11760, 11855, 11950, 12045,
    12140, 12236, 12331, 12427, 12522, 12618, 12714, 12809, 12905, 13001, 13097, 13193, 13289,
    13385, 13481, 13577, 13673, 13769, 13865, 13961, 14056, 14152, 14248, 14343, 14439, 14534,
    14630, 14725, 14820, 14915, 15010, 15104, 15199, 15293, 15387, 15481, 15575, 15669, 15762,
    15855, 15948, 16041, 16133, 16226, 16317, 16409, 16500, 16592, 16682, 16773, 16863, 16953,
    17042, 17131, 17220, 17308, 17396, 17484, 17571, 17658, 17744, 17830, 17916, 18001, 18086,
    18170, 18254, 18337, 18420, 18502, 18584, 18665, 18746, 18826, 18905, 18985, 19063, 19141,
    19219, 19295, 19372, 19447, 19522, 19597, 19671, 19744, 19816, 19888, 19959, 20030, 20100,
    20169, 20238, 20306, 20373, 20439, 20505, 20570, 20634, 20698, 20760, 20822, 20884, 20944,
    21004, 21063, 21121, 21178, 21235, 21290, 21345, 21399, 21452, 21505, 21556, 21607, 21657,
    21706, 21754, 21801, 21848, 21893, 21938, 21982, 22025, 22066, 22107, 22148, 22187, 22225,
    22262, 22299, 22334, 22369, 22402, 22435, 22467, 22498, 22527, 22556, 22584, 22611, 22637,
    22662, 22686, 22709, 22731, 22752, 22772, 22791, 22809, 22826, 22842, 22857, 22872, 22885,
    22897, 22908, 22918, 22927, 22935, 22942, 22948, 22953, 22957, 22960, 22962, 22963]

/-- The weights of a fraction, the oldest sample first. -/
def gaussCoefficient (gaussianIndex : ℕ) : ℕ → ℤ
  | 3 => spuGaussTable.getD (0x0FF - gaussianIndex) 0
  | 2 => spuGaussTable.getD (0x1FF - gaussianIndex) 0
  | 1 => spuGaussTable.getD (0x100 + gaussianIndex) 0
  | _ => spuGaussTable.getD gaussianIndex 0

/-- The four taps weighed: `tap n` is the sample `n` places back. -/
def gaussSum (tap : ℕ → ℤ) (phase : ℕ) : ℤ :=
  let gaussianIndex := phase / 16 % 256
  let accumulator := gaussCoefficient gaussianIndex 3 * tap 3 + gaussCoefficient gaussianIndex 2 * tap 2 +
    gaussCoefficient gaussianIndex 1 * tap 1 + gaussCoefficient gaussianIndex 0 * tap 0
  (accumulator / 2 ^ 15).bmod (2 ^ 16)

/-- `spu_gaussian_interpolate` -/
def spuGaussianInterpolate (previous samples : ℕ → ℤ) (sampleIndex phase : ℕ) : ℤ :=
  gaussSum (fun offset => if offset ≤ sampleIndex then samples (sampleIndex - offset)
    else previous (3 + sampleIndex - offset)) phase

/-! ## Blocks -/

def spuRamSize : ℕ := 512 * 1024
def spuBlockSamples : ℕ := 28

/-- A bank as `spu_register_sample_bank` accepts it. -/
structure SampleBank where
  bytes : ℕ
  data : ℕ → BitVec 8
  nonempty : 0 < bytes
  fits : bytes ≤ spuRamSize
  blocks : 16 ∣ bytes

structure SampleMemory where
  ram : ℕ → BitVec 8
  banks : ℕ → Option SampleBank

def silentEnd (i : ℕ) : BitVec 8 := if i = 1 then 1 else 0

/-- The block a fetch sees. -/
def fetchBlock (m : SampleMemory) (bank addr : ℕ) (i : ℕ) : BitVec 8 :=
  if bank = 0 then m.ram (addr + i)
  else match if bank < 32 then m.banks bank else none with
    | some b => if addr ≤ b.bytes - 16 then b.data (addr + i) else silentEnd i
    | none => silentEnd i

/-- The fields of `SpuVoice` that `decode_block` works on. -/
structure Decoder where
  curAddr : ℕ
  repeatAddr : ℕ
  sampleBank : ℕ
  samples : ℕ → ℤ
  previousSamples : ℕ → ℤ
  hist1 : ℤ
  hist2 : ℤ
  flags : BitVec 8

def clamp16 (v : ℤ) : ℤ := if v > 32767 then 32767 else if v < -32768 then -32768 else v

def filterF0 : ℕ → ℤ
  | 1 => 60
  | 2 => 115
  | 3 => 98
  | 4 => 122
  | _ => 0

def filterF1 : ℕ → ℤ
  | 2 => -52
  | 3 => -55
  | 4 => -60
  | _ => 0

/-- The nibble of sample `out`, sign extended. -/
def sample4 (block : ℕ → BitVec 8) (out : ℕ) : ℤ :=
  let packed := (block (2 + out / 2)).toNat
  let nibble := if out % 2 = 0 then packed % 16 else packed / 16
  if 8 ≤ nibble then (nibble : ℤ) - 0x10 else nibble

/-- `hist1` and `hist2` after `n` samples of a block. -/
def history (block : ℕ → BitVec 8) (hist1 hist2 : ℤ) : ℕ → ℤ × ℤ
  | 0 => (hist1, hist2)
  | n + 1 =>
    let h := history block hist1 hist2 n
    let header := (block 0).toNat
    let shift := min (header % 16) 12
    let filter := if header / 16 > 4 then 0 else header / 16
    let s := sample4 block n * 4096 / 2 ^ shift +
      (h.1 * filterF0 filter + h.2 * filterF1 filter + 32) / 64
    (clamp16 s, h.1)

/-- Where `decode_block` fetches. -/
def fetchAddr (d : Decoder) : ℕ :=
  let addr := d.curAddr % spuRamSize
  if addr + 16 > spuRamSize then 0 else addr

/-- `decode_block` on the fields of the decoder. -/
def decodeBlock (m : SampleMemory) (d : Decoder) : Decoder :=
  let addr := fetchAddr d
  let block := fetchBlock m d.sampleBank addr
  let flags := block 1
  { d with
    previousSamples := fun i => d.samples (spuBlockSamples - 3 + i)
    samples := fun out => (history block d.hist1 d.hist2 (out + 1)).1
    hist1 := (history block d.hist1 d.hist2 spuBlockSamples).1
    hist2 := (history block d.hist1 d.hist2 spuBlockSamples).2
    repeatAddr := if flags.getLsbD 2 then addr else d.repeatAddr
    flags := flags
    curAddr := (addr + 16) % spuRamSize }

/-- The jump of an END block. -/
def followEnd (d : Decoder) : Decoder :=
  if d.flags.getLsbD 0 then { d with curAddr := d.repeatAddr % spuRamSize } else d

def nextBlock (m : SampleMemory) (d : Decoder) : Decoder := decodeBlock m (followEnd d)

/-! ## The voice -/

/-- A hardware slot: its `SpuVoice`, its eight registers and its bit of `endx_latch`. -/
structure Voice extends Decoder, Envelope where
  active : Bool
  pendingBank : ℕ
  sampleIdx : ℕ
  phase : ℕ
  regs : Fin 8 → Half
  endx : Bool

def Voice.pitch (v : Voice) : ℕ := (v.regs 2).toNat % 0x4000

/-- `voice_needs_clock` -/
def Voice.needsClock (v : Voice) : Bool :=
  v.active || (v.pitch != 0 || decide (spuBlockSamples ≤ v.sampleIdx))

/-- `while (v->phase >= 0x1000u)`: the samples the phase has run over, up to the end of the
block. -/
def stepSamples : ℕ → ℕ → ℕ → ℕ × ℕ
  | 0, sampleIdx, phase => (sampleIdx, phase)
  | fuel + 1, sampleIdx, phase =>
    if phase < 0x1000 then (sampleIdx, phase)
    else if spuBlockSamples ≤ sampleIdx + 1 then (sampleIdx + 1, phase - 0x1000)
    else stepSamples fuel (sampleIdx + 1) (phase - 0x1000)

/-- END without REPEAT: the sample is over and the envelope is forced to zero. -/
def Voice.sampleEnds (v : Voice) : Bool :=
  decide (spuBlockSamples ≤ v.sampleIdx) && (v.flags.getLsbD 0 && !v.flags.getLsbD 1)

/-- The next block, with the loop register and the END bit it latches. -/
def Voice.refill (m : SampleMemory) (v : Voice) : Voice :=
  let env : Envelope := if v.sampleEnds then ⟨0, 0, .release⟩ else v.toEnvelope
  let d := nextBlock m v.toDecoder
  { v with
    toDecoder := d
    toEnvelope := env
    sampleIdx := 0
    regs := if d.flags.getLsbD 2 then
      Function.update v.regs 7 (BitVec.ofNat 16 (fetchAddr (followEnd v.toDecoder) / 8)) else v.regs
    endx := v.endx || d.flags.getLsbD 0 }

/-- The voice as its sample is read: a block that has run out is replaced. -/
def Voice.atReading (m : SampleMemory) (v : Voice) : Voice :=
  if v.needsClock && decide (spuBlockSamples ≤ v.sampleIdx) then v.refill m else v

/-- The sample before the envelope: `noise` is the generator while the NON bit of the voice is
set. -/
def Voice.rawSample (noise : Option ℤ) (audible : Bool) (v : Voice) : ℤ :=
  if !audible then 0
  else match noise with
    | some lfsr => lfsr
    | none => spuGaussianInterpolate v.previousSamples v.samples v.sampleIdx v.phase

/-- What follows the sample: the envelope, the end of a release, the pitch. -/
def Voice.afterReading (audible : Bool) (v : Voice) : Voice :=
  let env := if audible then adsrRun (adsrWord (v.regs 4) (v.regs 5)) v.toEnvelope else v.toEnvelope
  let phase := v.phase + v.pitch
  let stepped := stepSamples (phase / 0x1000) v.sampleIdx phase
  { v with
    toEnvelope := env
    active := v.active && !(env.adsrPhase = .release && env.envLevel = 0)
    sampleIdx := stepped.1
    phase := stepped.2 }

/-- `voice_next_sample` -/
def voiceNextSample (m : SampleMemory) (noise : Option ℤ) (v : Voice) : Voice × ℤ :=
  if !v.needsClock then (v, 0)
  else
    let reading := v.atReading m
    (reading.afterReading v.active,
      clamp16 (reading.rawSample noise v.active * reading.envLevel / 2 ^ 15))

/-- `key_on` for the voice. -/
def keyOn (v : Voice) : Voice where
  curAddr := ((v.regs 3).toNat / 2 * 2) * 8 % spuRamSize
  repeatAddr := ((v.regs 7).toNat / 2 * 2) * 8 % spuRamSize
  sampleBank := v.pendingBank
  samples _ := 0
  previousSamples _ := 0
  hist1 := 0
  hist2 := 0
  flags := 0
  envLevel := 0
  adsrDivider := 0
  adsrPhase := .attack
  active := true
  pendingBank := 0
  sampleIdx := spuBlockSamples
  phase := 0
  regs := v.regs
  endx := false

/-- `key_off` for the voice. -/
def keyOff (v : Voice) : Voice :=
  if !v.active then v else { v with adsrPhase := .release, adsrDivider := 0 }

/-- `spu_write` on a register of the voice; the loop register is live. -/
def writeVoiceReg (reg : Fin 8) (value : Half) (v : Voice) : Voice :=
  { v with
    regs := Function.update v.regs reg value
    repeatAddr := if reg = 7 then (value.toNat / 2 * 2) * 8 % spuRamSize else v.repeatAddr }

end PsxRecomp.Spu
