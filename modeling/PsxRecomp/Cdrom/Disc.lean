import PsxRecomp.Cdrom.Resample

/-! The disc under the drive and the audio the controller makes of its sectors: disc addresses,
the mounted image, the classification of a raw sector, XA-ADPCM decoding, resampling and the
CD volume matrix. -/
namespace PsxRecomp.Cdrom
set_option autoImplicit false

abbrev Byte := BitVec 8

/-! ## Addresses -/

/-- `bcd_to_bin` -/
def bcdToBin (bcd : Byte) : ℤ := (bcd >>> 4).toNat * 10 + (bcd &&& 0x0F#8).toNat

/-- `bin_to_bcd` -/
def binToBcd (val : ℤ) : Byte :=
  BitVec.ofInt 8 (val.tdiv 10) <<< 4 ||| BitVec.ofInt 8 (val.tmod 10)

/-- `msf_to_lba` -/
def msfToLba (m s f : ℤ) : ℤ := (m * 60 + s) * 75 + f - 150

/-- Minutes, seconds and frames. -/
structure Msf where
  m : ℤ
  s : ℤ
  f : ℤ
deriving DecidableEq, Repr

def Msf.lba (p : Msf) : ℤ := msfToLba p.m p.s p.f

/-- `lba_to_msf` -/
def lbaToMsf (lba pregap : ℤ) : Msf :=
  let frames := max (lba + pregap) 0
  ⟨frames / 4500, frames % 4500 / 75, frames % 4500 % 75⟩

/-- `advance_msf` -/
def advanceMsf (p : Msf) : Msf :=
  let p : Msf := if p.f + 1 ≥ 75 then ⟨p.m, p.s + 1, 0⟩ else ⟨p.m, p.s, p.f + 1⟩
  if p.s ≥ 60 then ⟨p.m + 1, 0, p.f⟩ else p

/-! ## The image -/

/-- The mounted image, as the reader behind `iso_handle` answers for it. -/
structure Disc where
  readRawSector : BitVec 32 → Option (Fin 2352 → Byte)
  readSector : BitVec 32 → Option (Fin 2048 → Byte)
  readSubq : BitVec 32 → Option (Fin 12 → Byte)
  hasSubqReplacements : Bool
  cddaSectorCount : BitVec 32
  readCddaSector : BitVec 32 → Option (Fin 2352 → Byte)
  cddaTrackCount : ℤ
  cddaTrackStartLba : ℤ → BitVec 32
  cddaTrackPregapLba : ℤ → BitVec 32
  cddaTrackIsAudio : ℤ → Bool

/-- What the reader answers without an image. -/
def Disc.absent : Disc where
  readRawSector _ := none
  readSector _ := none
  readSubq _ := none
  hasSubqReplacements := false
  cddaSectorCount := 0
  readCddaSector _ := none
  cddaTrackCount := 1
  cddaTrackStartLba _ := 0
  cddaTrackPregapLba _ := 0
  cddaTrackIsAudio _ := false

/-! ## Classification -/

/-- `CDROMSectorDelivery`, as `classify_raw_sector` fills it. -/
structure Delivery where
  rawMode : Byte
  xaFile : Byte
  xaChannel : Byte
  xaSubmode : Byte
  xaCoding : Byte
deriving DecidableEq, Repr

/-- `classify_raw_sector` -/
def classifyRawSector : Option (Fin 2352 → Byte) → Delivery
  | none => ⟨0#8, 0#8, 0#8, 0#8, 0#8⟩
  | some raw =>
    if raw 15 = 2#8 then ⟨raw 15, raw 16, raw 17, raw 18, raw 19⟩
    else ⟨raw 15, 0#8, 0#8, 0#8, 0#8⟩

/-- `xa_is_audio_realtime` -/
def xaIsAudioRealtime (d : Delivery) : Bool :=
  d.rawMode = 2#8 ∧ d.xaSubmode &&& 0x44#8 = 0x44#8

/-! ## XA decoding -/

/-- A stereo frame of 16-bit samples. -/
abbrev Frame := ℤ × ℤ

/-- `clamp16_cd` -/
def clamp16 (v : ℤ) : ℤ := if v > 32767 then 32767 else if v < -32768 then -32768 else v

/-- The conversion to `int16_t`. -/
def int16 (v : ℤ) : ℤ := Int.bmod v (2 ^ 16)

/-- One channel of `xa_hist_l`, `xa_hist_r`: the last sample and the one before it. -/
structure Hist where
  last : ℤ
  prior : ℤ
deriving DecidableEq, Repr

def k0 : List ℤ := [0, 60, 115, 98, 122]
def k1 : List ℤ := [0, 0, -52, -55, -60]

/-- A nibble of a sound group as a signed number. -/
def signedNibble (nibble : Byte) : ℤ :=
  let n : ℤ := nibble.toNat
  if n ≥ 8 then n - 16 else n

/-- One sample from its nibble under the header byte of its block. -/
def xaSample (header nibble : Byte) (h : Hist) : Hist :=
  let shift := 12 - (header &&& 0x0F#8).toNat
  let filter := (header >>> 4 &&& 0x03#8).toNat
  let sample := signedNibble nibble * 2 ^ shift +
    (k0.getD filter 0 * h.last + k1.getD filter 0 * h.prior + 32) / 64
  ⟨clamp16 sample, h.last⟩

/-- `xa_hist_l` and `xa_hist_r` -/
structure XaHist where
  l : Hist
  r : Hist
deriving DecidableEq, Repr

/-- A decoder at work: the history, and the frames so far. -/
structure XaOut where
  hist : XaHist
  frames : List Frame

/-- The groups, the blocks of each and the words of each block, in the order they are decoded. -/
def xaWords : List (ℕ × ℕ × ℕ) :=
  (List.range 18).flatMap fun g => (List.range 4).flatMap fun blk =>
    (List.range 28).map fun i => (g, blk, i)

/-- The body of the loops of `xa_decode_sector_4bit_stereo`. -/
def xaStereoStep (data : ℕ → Byte) (out : XaOut) (w : ℕ × ℕ × ℕ) : XaOut :=
  let grp := w.1 * 128
  let b := data (grp + 16 + w.2.1 + w.2.2 * 4)
  let l := xaSample (data (grp + 4 + w.2.1 * 2)) (b &&& 0x0F#8) out.hist.l
  let r := xaSample (data (grp + 4 + w.2.1 * 2 + 1)) (b >>> 4 &&& 0x0F#8) out.hist.r
  ⟨⟨l, r⟩, out.frames ++ [(int16 l.last, int16 r.last)]⟩

/-- `xa_decode_sector_4bit_stereo` -/
def xaDecodeStereo (data : ℕ → Byte) (h : XaHist) : XaOut :=
  xaWords.foldl (xaStereoStep data) ⟨h, []⟩

/-- The words of a mono sector: each block is decoded twice, low nibbles first. -/
def xaMonoWords : List (ℕ × ℕ × ℕ × ℕ) :=
  (List.range 18).flatMap fun g => (List.range 4).flatMap fun blk =>
    (List.range 2).flatMap fun nibble => (List.range 28).map fun i => (g, blk, nibble, i)

/-- The body of the loops of `xa_decode_sector_4bit_mono`. -/
def xaMonoStep (data : ℕ → Byte) (out : XaOut) (w : ℕ × ℕ × ℕ × ℕ) : XaOut :=
  let grp := w.1 * 128
  let b := data (grp + 16 + w.2.1 + w.2.2.2 * 4)
  let nibble := if w.2.2.1 = 0 then b &&& 0x0F#8 else b >>> 4 &&& 0x0F#8
  let l := xaSample (data (grp + 4 + w.2.1 * 2 + w.2.2.1)) nibble out.hist.l
  ⟨{ out.hist with l := l }, out.frames ++ [(int16 l.last, int16 l.last)]⟩

/-- `xa_decode_sector_4bit_mono`: the right history becomes the left one at the end. -/
def xaDecodeMono (data : ℕ → Byte) (h : XaHist) : XaOut :=
  let out := xaMonoWords.foldl (xaMonoStep data) ⟨h, []⟩
  { out with hist := ⟨out.hist.l, out.hist.l⟩ }

/-! ## Resampling -/

/-- `xa_resample_to_44100`, on the decoder's frames. -/
def xaResample (input : List Frame) (rate maxFrames : ℕ) : List Frame :=
  (xaResampleTo44100 (input.map fun f => (BitVec.ofInt 16 f.1, BitVec.ofInt 16 f.2)) rate maxFrames).map
    fun f => (f.1.toInt, f.2.toInt)

/-! ## Volume -/

/-- `cd_decode_vol` and `cd_pending_vol`: source first, output second. -/
structure Volume where
  leftToLeft : Byte
  leftToRight : Byte
  rightToLeft : Byte
  rightToRight : Byte
deriving DecidableEq, Repr

def unityVolume : Volume := ⟨0x80#8, 0x00#8, 0x00#8, 0x80#8⟩

/-- One source at one volume. -/
def scaled (sample : ℤ) (volume : Byte) : ℤ := sample * volume.toNat / 128

/-- `cd_apply_decode_volume` -/
def applyDecodeVolume (v : Volume) (frames : List Frame) : List Frame :=
  if v = unityVolume then frames
  else frames.map fun p =>
    (clamp16 (scaled p.1 v.leftToLeft + scaled p.2 v.rightToLeft),
      clamp16 (scaled p.1 v.leftToRight + scaled p.2 v.rightToRight))

end PsxRecomp.Cdrom
