import Mathlib
import PsxRecomp.Cdrom.State

/-! Sectors on their way from the disc: the read stream, XA audio, the ring, and the notification
of a sector; and CD-DA playback. -/
namespace PsxRecomp.Cdrom
set_option autoImplicit false

-- Literals of the index type find this by name, so that a definition holds no proof of its own.
scoped instance neZero_eight : NeZero 8 := ⟨by decide⟩

/-! ## XA audio -/

/-- `xa_reset_decode` -/
def xaResetDecode (s : Controller) : Controller :=
  { s with xa := { s.xa with
      hist := ⟨⟨0, 0⟩, ⟨0, 0⟩⟩
      file := 0xFF#8
      channel := 0xFF#8
      coding := 0xFF#8
      active := false } }

/-- `spu_cd_audio_reset` -/
def audioReset (s : Controller) : Controller := s.emit .audioReset

/-- The rate of an XA sector, none where its coding is not played. -/
def xaRate (coding : Byte) : Option ℕ :=
  if coding >>> 4 &&& 0x03#8 ≠ 0#8 then none
  else if coding >>> 2 &&& 0x03#8 = 0#8 then some 37800
  else if coding >>> 2 &&& 0x03#8 = 1#8 then some 18900
  else none

/-- A sector of another stream starts the decoder anew. -/
def followXaStream (d : Delivery) (s : Controller) : Controller :=
  if s.xa.active = false ∨ s.xa.file ≠ d.xaFile ∨ s.xa.channel ≠ d.xaChannel ∨
      s.xa.coding ≠ d.xaCoding then
    { s with xa := { (xaResetDecode s).xa with
        file := d.xaFile, channel := d.xaChannel, coding := d.xaCoding, active := true } }
  else s

/-- The sector decoded, resampled and pushed. -/
def playXaSector (raw : Fin 2352 → Byte) (d : Delivery) (rate : ℕ) (s : Controller) : Controller :=
  let data := fun i : ℕ => readAt raw (24 + i)
  let out :=
    if d.xaCoding &&& 0x01#8 ≠ 0#8 then xaDecodeStereo data s.xa.hist
    else xaDecodeMono data s.xa.hist
  let pcm := applyDecodeVolume s.decodeVolume (xaResample out.frames rate 9408)
  { s with xa := { s.xa with hist := out.hist }, log := .audioPush pcm :: s.log }

/-- `maybe_deliver_xa_audio` -/
def maybeDeliverXaAudio (raw : Option (Fin 2352 → Byte)) (d : Delivery) (s : Controller) :
    Controller × Bool :=
  if s.mode &&& 0x40#8 = 0#8 ∨ s.muted ∨ xaIsAudioRealtime d = false then (s, false)
  else if s.mode &&& 0x08#8 ≠ 0#8 ∧ (d.xaFile ≠ s.filterFile ∨ d.xaChannel ≠ s.filterChannel) then
    (s, false)
  else match raw, xaRate d.xaCoding with
    | some raw, some rate => (playXaSector raw d rate (followXaStream d s), true)
    | _, _ => (s, false)

/-! ## The stream -/

/-- `stop_read_stream` -/
def stopReadStream (s : Controller) : Controller :=
  (clearWaiting { s with read := { s.read with reading := false, cmd := 0#8, delay := 0 } }).emit
    .streamStopped

/-- `stop_cdda_playback` -/
def stopCddaPlayback (s : Controller) : Controller :=
  { s with
    cdda := { s.cdda with playing := false, track := 0, delay := 0, dataEndPending := false }
    stat := s.stat &&& ~~~statPlay }

/-- XA decoding starts anew where the mode plays it. -/
def resetAudioForMode (s : Controller) : Controller :=
  if s.mode &&& 0x40#8 ≠ 0#8 then audioReset (xaResetDecode s) else s

/-- `read_*` at the seek target. -/
def moveToSeek (s : Controller) : Controller :=
  { s with read := { s.read with
      pos := ⟨s.seek.min.toNat, s.seek.sec.toNat, s.seek.sect.toNat⟩ } }

/-- A Setloc not consumed names the destination; without one the read resumes where it was. -/
def takeSetloc (s : Controller) : Controller :=
  if s.seek.setlocPending then
    { moveToSeek s with lastSector := { s.lastSector with headerStale := true } }
  else s

def clearSetloc (s : Controller) : Controller :=
  { s with seek := { s.seek with setlocPending := false } }

def armStream (cmd : Byte) (s : Controller) : Controller :=
  { s with
    read := { s.read with reading := true, cmd := cmd, delay := initialReadDelayCycles s }
    stat := s.stat ||| statRead
    log := .streamStarted :: s.log }

/-- `start_read_stream` -/
def startReadStream (cmd : Byte) (s : Controller) : Controller :=
  let s := clearWaiting (clearSectorBuffer (stopCddaPlayback s))
  armStream cmd (clearSetloc (takeSetloc (resetAudioForMode s)))

/-- `update_last_valid_subq`, where replacements are active. -/
def updateLastValidSubq (env : Env) (lba : ℤ) (s : Controller) : Controller :=
  if env.image.hasSubqReplacements then
    match env.image.readSubq (BitVec.ofInt 32 lba) with
    | some subq => { s with subq := ⟨subq, true⟩ }
    | none => s
  else s

/-! ## One sector -/

/-- What `read_sector_at_with_raw` reads: the raw sector where there is one, and the user data. -/
def sectorBytes (env : Env) (supplied : Option (Fin 2352 → Byte)) (lba : ℤ) :
    Option (Fin 2352 → Byte) × (Fin 2048 → Byte) :=
  match supplied with
  | some raw => (some raw, fun i => readAt raw (24 + i))
  | none => match env.image.readRawSector (BitVec.ofInt 32 lba) with
    | some raw => (some raw, fun i => readAt raw (24 + i))
    | none => (none, (env.image.readSector (BitVec.ofInt 32 lba)).getD fun _ => 0#8)

/-- A ring slot filled under the mode. -/
def filledSlot (mode : Byte) (at' : Msf) (raw : Option (Fin 2352 → Byte)) (user : Fin 2048 → Byte) :
    SectorBuf :=
  if mode &&& 0x20#8 = 0#8 then
    { data := fun i => readAt user i, size := 2048, pos := 0 }
  else match raw with
    | some raw => { data := fun i => readAt raw (12 + i), size := 2340, pos := 0 }
    | none =>
      { data := fun i =>
          if i = 0 then binToBcd at'.m
          else if i = 1 then binToBcd at'.s
          else if i = 2 then binToBcd at'.f
          else if i = 3 then 0x02#8
          else readAt user ((i : ℤ) - 12)
        size := 2060
        pos := 0 }

/-- The data of a sector goes to the next slot of the ring. -/
def fillRing (lba : ℤ) (buf : SectorBuf) (s : Controller) : Controller :=
  let slot := s.buffers.ringWrite + 1
  { s with
    buffers := { s.buffers with ring := Function.update s.buffers.ring slot buf, ringWrite := slot }
    log := .filled slot lba :: s.log }

/-- The end of an XA file is remembered. -/
def markXaEnd (s : Controller) : Controller := { s with xa := { s.xa with dataEndPending := true } }

/-- The end of an XA file; with auto-pause the stream stops. -/
def noteXaEnd (d : Delivery) (s : Controller) : Controller :=
  if d.xaSubmode &&& 0x84#8 = 0x84#8 ∧
      (s.mode &&& 0x08#8 = 0#8 ∨ d.xaFile = s.filterFile ∧ d.xaChannel = s.filterChannel) then
    if s.mode &&& 0x02#8 ≠ 0#8 then stopReadStream (markXaEnd s) else markXaEnd s
  else s

/-- What was read of a sector, and what becomes of it. -/
structure SectorRead where
  lba : ℤ
  raw : Option (Fin 2352 → Byte)
  user : Fin 2048 → Byte
  delivery : Delivery
  delivered : Bool

/-- The ring takes the sector if its data is delivered. -/
def storeSector (r : SectorRead) (buf : SectorBuf) (s : Controller) : Controller :=
  if r.delivered then fillRing r.lba buf s else s

/-- `last_sector_*` -/
def recordSector (r : SectorRead) (buf : SectorBuf) (s : Controller) : Controller :=
  { s with lastSector := {
      buffer := fun i =>
        if r.delivered then if (i : ℤ) < buf.size then buf.data i else s.lastSector.buffer i
        else readAt r.user i
      lba := r.lba
      headerStale := false
      size := if r.delivered then buf.size else 2048
      mode := s.mode
      haveRaw := r.raw.isSome
      rawMode := r.delivery.rawMode
      xaFile := r.delivery.xaFile
      xaChannel := r.delivery.xaChannel
      xaSubmode := r.delivery.xaSubmode
      xaCoding := r.delivery.xaCoding } }

/-- Realtime audio is no data where it was played, or where the filter is on. -/
def dataDelivered (mode : Byte) (d : Delivery) (played : Bool) : Bool :=
  !(played || (mode &&& 0x08#8 ≠ 0#8 && xaIsAudioRealtime d))

/-- `read_sector_at_with_raw` at the read position; the result says whether data was delivered. -/
def readSectorAt (env : Env) (supplied : Option (Fin 2352 → Byte)) (s : Controller) :
    Controller × Bool :=
  let lba := s.read.pos.lba
  let bytes := sectorBytes env supplied lba
  let d := classifyRawSector bytes.1
  let played := maybeDeliverXaAudio bytes.1 d (updateLastValidSubq env lba s)
  let r : SectorRead := ⟨lba, bytes.1, bytes.2, d, dataDelivered s.mode d played.2⟩
  let buf := filledSlot s.mode s.read.pos r.raw r.user
  (recordSector r buf (storeSector r buf (noteXaEnd d played.1)), r.delivered)

/-- `advance_msf` on the read position. -/
def advanceRead (s : Controller) : Controller :=
  { s with read := { s.read with pos := advanceMsf s.read.pos } }

/-- `s_ring_read = slot` and the automatic refill. -/
def selectSlot (slot : Fin 8) (s : Controller) : Controller :=
  loadDataFifo false { s with buffers := { s.buffers with ringRead := slot } }

def clearXaEnd (s : Controller) : Controller :=
  { s with xa := { s.xa with dataEndPending := false } }

/-- The data-ready response of a sector: the slot is selected, then the interrupt set. -/
def announce (env : Env) (source : Source) (slot : Fin 8) (stat : Byte) (s : Controller) :
    Controller :=
  presentIrq env <| setIrq env source irqDataReady <|
    selectSlot slot (responsePushAll [stat] (responseClear s))

/-- The response to a sector read with the slot free: the end of an XA file comes before data. -/
def respondSector (env : Env) (delivered : Bool) (s : Controller) : Controller :=
  if s.xa.dataEndPending then respond env .xaEnd irqDataEnd [s.stat] (clearXaEnd s)
  else if delivered then announce env (.sector s.buffers.ringWrite) s.buffers.ringWrite s.stat s
  else s

/-- `deliver_read_sector_with_raw` -/
def deliverReadSector (env : Env) (supplied : Option (Fin 2352 → Byte)) (s : Controller) :
    Controller :=
  let result := readSectorAt env supplied s
  respondSector env result.2 (advanceRead result.1)

/-- A running transfer takes the sector just filled without a notification. -/
def continueDma (taken : Bool) (s : Controller) : Controller :=
  if taken then (selectSlot s.buffers.ringWrite s).emit .continued else s

/-- `deliver_read_sector_without_irq` -/
def deliverReadSectorWithoutIrq (env : Env) (continuation : Bool) (s : Controller) :
    Controller × Bool :=
  let result := readSectorAt env none s
  (continueDma (result.2 && continuation) (advanceRead result.1), result.2)

/-- `present_pending_dataready` -/
def presentWaiting (env : Env) (s : Controller) : Controller :=
  if s.waiting.dataready = false ∨ s.line.flag ≠ 0#8 then s
  else
    announce env (.waitingSector s.waiting.slot) s.waiting.slot s.waiting.stat
      { s with waiting := { s.waiting with presentDue := 0, dataready := false } }

/-! ## Ends of data -/

/-- `deliver_cdda_data_end` -/
def deliverCddaDataEnd (env : Env) (s : Controller) : Controller :=
  if s.cdda.dataEndPending = false ∨ s.line.flag ≠ 0#8 then s
  else
    respond env .cddaEnd irqDataEnd [s.stat]
      { s with cdda := { s.cdda with dataEndPending := false } }

/-- `deliver_xa_data_end` -/
def deliverXaDataEnd (env : Env) (s : Controller) : Controller :=
  if s.xa.dataEndPending = false ∨ s.line.flag ≠ 0#8 then s
  else respond env .xaEnd irqDataEnd [s.stat] (clearXaEnd s)

/-! ## CD-DA -/

/-- `CDDA_SECTOR_FRAMES` frames of a raw audio sector, silence where it cannot be read. -/
def cddaFrames (raw : Option (Fin 2352 → Byte)) : List Frame :=
  match raw with
  | none => List.replicate 588 (0, 0)
  | some raw => (List.range 588).map fun i =>
    let sample := fun k : ℕ => int16 ((readAt raw k).toNat + 256 * (readAt raw (k + 1)).toNat)
    (sample (4 * i), sample (4 * i + 2))

/-- The loop over the left samples of a report. -/
def cddaPeak (pcm : List Frame) : ℕ := min 0x7FFF (pcm.foldl (fun peak p => max peak p.1.natAbs) 0)

/-- The bytes of a report at the play position. -/
def cddaReportBytes (image : Disc) (pcm : List Frame) (s : Controller) : List Byte :=
  let lba := s.cdda.lba.toInt
  let trackLba := (image.cddaTrackStartLba s.cdda.track).toInt
  let a := lbaToMsf lba 150
  let index : ℤ := if lba ≥ trackLba then 1 else 0
  let rel := lbaToMsf (lba - trackLba).natAbs 0
  let time :=
    if a.f / 10 % 2 = 0 then [binToBcd a.m, binToBcd a.s, binToBcd a.f]
    else [binToBcd rel.m, binToBcd rel.s ||| 0x80#8, binToBcd rel.f]
  let peak := cddaPeak pcm
  [s.stat, binToBcd s.cdda.track, binToBcd index] ++ time ++
    [BitVec.ofNat 8 peak, BitVec.ofNat 8 (peak / 256) &&& 0x7F#8]

/-- `deliver_cdda_report` -/
def deliverCddaReport (env : Env) (pcm : List Frame) (s : Controller) : Controller :=
  if (lbaToMsf s.cdda.lba.toInt 150).f % 10 ≠ 0 ∨ s.line.flag ≠ 0#8 then s
  else respond env .cddaReport irqDataReady (cddaReportBytes env.image pcm s) s

/-- `cdda_track_for_lba`: the last track before the first whose pregap is behind the address. -/
def cddaTrackForLba (image : Disc) (lba : BitVec 32) : ℤ :=
  ((List.range image.cddaTrackCount.toNat).takeWhile fun i =>
    (image.cddaTrackPregapLba (i + 1)).toNat ≤ lba.toNat).length

/-- `cdda_track_end_lba` -/
def cddaTrackEndLba (image : Disc) (track : ℤ) : BitVec 32 :=
  if 0 < track ∧ track < image.cddaTrackCount then image.cddaTrackPregapLba (track + 1)
  else image.cddaSectorCount

/-- Where playback of a track, or from the Setloc position, begins. -/
def cddaStart (image : Disc) (requested : ℤ) (s : Controller) : ℤ × BitVec 32 :=
  if requested > 0 then (requested, image.cddaTrackStartLba requested)
  else
    let pos :=
      if s.seek.setlocLba ≥ 0 then s.seek.setlocLba
      else msfToLba s.seek.min.toNat s.seek.sec.toNat s.seek.sect.toNat
    let lba := BitVec.ofInt 32 (max 0 pos)
    (cddaTrackForLba image lba, lba)

/-- The drive plays from an address of a track. -/
def playFrom (start : ℤ × BitVec 32) (s : Controller) : Controller :=
  { s with
    cdda := { s.cdda with
      dataEndPending := false, playing := true, track := start.1, lba := start.2
      delay := singleSpeedSectorCycles }
    stat := s.stat &&& ~~~(statSeek ||| statRead) ||| statMotor ||| statPlay }

/-- `start_cdda_playback`, none where it answers 0. -/
def startCddaPlayback (env : Env) (requested : ℤ) (s : Controller) : Option Controller :=
  let start := cddaStart env.image requested s
  if start.1 ≤ 0 ∨ start.1 > env.image.cddaTrackCount ∨
      env.image.cddaTrackIsAudio start.1 = false then none
  else some (playFrom start (audioReset (stopReadStream s)))

def markCddaEnd (s : Controller) : Controller :=
  { s with cdda := { s.cdda with dataEndPending := true } }

/-- Behind the last sector of a track: the next audio track, or the end of data. -/
def cddaTrackEnd (env : Env) (s : Controller) : Controller :=
  let trackEnd := cddaTrackEndLba env.image s.cdda.track
  let next := s.cdda.track + 1
  if trackEnd ≠ 0 ∧ s.cdda.lba.toNat < trackEnd.toNat then s
  else if s.mode &&& 0x02#8 ≠ 0#8 ∨ next > env.image.cddaTrackCount ∨
      env.image.cddaTrackIsAudio next = false then
    deliverCddaDataEnd env (markCddaEnd (stopCddaPlayback s))
  else { s with cdda := { s.cdda with track := next } }

/-- The report of a sector, where the mode asks for reports. -/
def reportSector (env : Env) (pcm : List Frame) (s : Controller) : Controller :=
  if s.mode &&& 0x04#8 ≠ 0#8 then deliverCddaReport env pcm s else s

/-- A sector's samples go out and the play position moves on. -/
def pushCdda (pcm : List Frame) (s : Controller) : Controller :=
  let pcm := if s.muted then List.replicate 588 (0, 0) else pcm
  { s with
    log := .audioPush (applyDecodeVolume s.decodeVolume pcm) :: s.log
    cdda := { s.cdda with
      sectorsPlayed := s.cdda.sectorsPlayed + 1
      lba := s.cdda.lba + 1
      delay := s.cdda.delay + singleSpeedSectorCycles } }

/-- The body of the loop of `process_cdda_stream`. -/
def cddaSector (env : Env) (s : Controller) : Controller :=
  let pcm := cddaFrames (env.image.readCddaSector s.cdda.lba)
  cddaTrackEnd env (pushCdda pcm (reportSector env pcm s))

/-- The loop of `process_cdda_stream`, with so many sectors left. -/
def cddaLoop (env : Env) : ℕ → Controller → Controller
  | 0, s => s
  | n + 1, s => if s.cdda.playing ∧ s.cdda.delay ≤ 0 then cddaLoop env n (cddaSector env s) else s

def passCdda (cycles : BitVec 32) (s : Controller) : Controller :=
  { s with cdda := { s.cdda with delay := s.cdda.delay - cycles.toInt } }

/-- A debt the loop leaves is dropped. -/
def dropCddaDebt (s : Controller) : Controller :=
  if s.cdda.playing ∧ s.cdda.delay ≤ 0 then
    { s with cdda := { s.cdda with delay := singleSpeedSectorCycles } }
  else s

/-- `process_cdda_stream` -/
def processCddaStream (env : Env) (cycles : BitVec 32) (s : Controller) : Controller :=
  deliverCddaDataEnd env <|
    if s.cdda.playing then dropCddaDebt (cddaLoop env 16 (passCdda cycles s)) else s

end PsxRecomp.Cdrom
