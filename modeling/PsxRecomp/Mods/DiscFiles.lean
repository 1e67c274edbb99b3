import PsxRecomp.Mods.Directory
import PsxRecomp.Mods.DiscPatched

/-! What plugins may add to the disc while they are activated: extents behind its last sector, audio
tracks with a timeline of their own, and replaced files, which are an extent and a patch of the
file's directory record. -/
namespace PsxRecomp.Mods
open Cells MemoryEdit
set_option autoImplicit false

/-! ## The mounted image -/

structure Track where
  number : ℕ
  isAudio : Bool
  startLba : ℕ
  pregapLba : ℕ

/-- The opened image: what it holds, and that it has no sectors beyond its spans. -/
structure ISOReader where
  sectorCount : ℕ
  tracks : List Track
  readRawSector : ℕ → Option Buffer
  readSector : ℕ → Option Buffer
  raw_inside : ∀ lba sector, readRawSector lba = some sector → lba < sectorCount
  user_inside : ∀ lba sector, readSector lba = some sector → lba < sectorCount

def ISOReader.trackAt (reader : ISOReader) (number : ℕ) : Option Track :=
  reader.tracks.find? fun t => t.number = number

def ISOReader.trackIsAudio (reader : ISOReader) (number : ℕ) : Bool :=
  ((reader.trackAt number).map Track.isAudio).getD false

def ISOReader.trackStartLBA (reader : ISOReader) (number : ℕ) : ℕ :=
  ((reader.trackAt number).map Track.startLba).getD 0

def ISOReader.trackPregapLBA (reader : ISOReader) (number : ℕ) : ℕ :=
  ((reader.trackAt number).map Track.pregapLba).getD 0

/-- A track ends where the next one's pregap begins, the last one with the disc. -/
def ISOReader.trackEnd (reader : ISOReader) (number : ℕ) : ℕ :=
  if number < reader.tracks.length then reader.trackPregapLBA (number + 1) else reader.sectorCount

/-! ## The state of an activation -/

/-- Sectors of 2336 bytes, from the XA subheader on. -/
structure DiscExtent where
  lba : ℕ
  count : ℕ
  data : List Byte

def DiscExtent.covers (e : DiscExtent) (lba : ℕ) : Bool := e.lba ≤ lba ∧ lba - e.lba < e.count

/-- The user data of a sector. -/
def DiscExtent.userData (e : DiscExtent) (lba : ℕ) : Buffer := fun q =>
  e.data.getD ((lba - e.lba) * 2336 + 8 + q) 0

/-- With no data the track is `count` sectors of the disc from `source` on. -/
structure AudioTrack where
  lba : ℕ
  count : ℕ
  source : ℕ
  data : Option (List Byte)

structure Activation where
  disc : DiscState
  reader : Option ISOReader
  extents : List DiscExtent
  extentStart : ℕ
  audioTracks : List AudioTrack

/-- The plugin whose callback makes a call, `psx_mod_current_resource_bytes` for it. -/
structure Caller where
  activating : Bool
  currentPlugin : Bool
  resourceBytes : List Byte → Option (List Byte)

def Activation.nextLba (s : Activation) (start : ℕ) : ℕ :=
  match s.extents.getLast? with
  | none => start
  | some e => e.lba + e.count

/-- `start`: the extents begin where they began, the first one at `first`. -/
def Activation.startLba (s : Activation) (first : ℕ) : ℕ :=
  if s.extents = [] then first else s.extentStart

/-! ## Effective sectors -/

/-- A user sector with its patches, unless a guard has failed. -/
def Activation.patchedUser (s : Activation) (lba : ℕ) (sector : Buffer) : Except Refusal Buffer :=
  let r := patchUserSector s.disc lba sector
  if r.2 then .error .guardFailed else .ok r.1

/-- `read_effective_user_sector` -/
def Activation.readUserSector (s : Activation) (lba : ℕ) : Except Refusal Buffer :=
  match s.extents.find? fun e => e.covers lba with
  | some e => s.patchedUser lba (e.userData lba)
  | none =>
    match s.reader with
    | none => .error .noDisc
    | some reader =>
      match reader.readRawSector lba with
      | some raw =>
        if raw 15 ≠ 1 ∧ (raw 15 ≠ 2 ∨ raw 18 &&& 0x20 ≠ 0) then .error .malformed
        else
          let r := patchRawSector s.disc lba raw
          if r.2 then .error .guardFailed
          else if r.1 15 = 1 then s.patchedUser lba (shift r.1 16)
          else .ok (shift r.1 24)
      | none =>
        match reader.readSector lba with
        | some sector => s.patchedUser lba sector
        | none => .error (.unreadable lba)

def Activation.find (s : Activation) (path : List Byte) : Except Refusal Entry :=
  match s.reader with
  | none => .error .noDisc
  | some _ => findEffectiveFile s.readUserSector path

/-! ## Extents -/

/-- The last LBA of a disc is 99:59:74. -/
def lastLba : ℕ := 450000

/-- The end of a mounted disc with room for another track, 0 without one. -/
def Activation.mountEnd (s : Activation) : ℕ :=
  match s.reader with
  | none => 0
  | some reader => if 99 ≤ reader.tracks.length then 0 else reader.sectorCount

/-- `psx_mod_append_disc_extent` -/
def appendDiscExtent (s : Activation) (caller : Caller) (resource : List Byte)
    (byteOffset sectorCount : ℕ) : Activation × Option ℕ :=
  match caller.resourceBytes resource with
  | none => (s, none)
  | some data =>
    if !caller.activating ∨ sectorCount = 0 ∨ data.length < byteOffset ∨
        data.length - byteOffset < sectorCount * 2336 then (s, none)
    else
      let start := s.startLba s.mountEnd
      let lba := s.nextLba start
      let bytes := data.drop byteOffset
      if (s.extents = [] ∧ start = 0) ∨ lastLba < lba + sectorCount + 150 then (s, none)
      -- the subheader is there twice
      else if (List.range sectorCount).any fun i =>
          (bytes.drop (i * 2336)).take 4 ≠ (bytes.drop (i * 2336 + 4)).take 4 then (s, none)
      else ({ s with
        extents := s.extents ++ [⟨lba, sectorCount, bytes⟩]
        extentStart := start }, some lba)

/-! ## Audio tracks -/

/-- Audio has a timeline of its own, behind two seconds of lead-in. -/
def Activation.nextTrackLba (s : Activation) : ℕ :=
  match s.audioTracks.getLast? with
  | none => 150
  | some t => t.lba + t.count

/-- `append_audio_track` -/
def appendAudioTrack (s : Activation) (caller : Caller) (count source : ℕ)
    (data : Option (List Byte)) : Option (Activation × ℕ) :=
  if !caller.activating ∨ count = 0 ∨ 98 ≤ s.audioTracks.length then none
  else
    let start := s.nextTrackLba
    if lastLba ≤ start + count + 150 then none
    else some ({ s with audioTracks := s.audioTracks ++ [⟨start, count, source, data⟩] }, start)

/-- `PSXModCDDATrack` -/
structure CDDATrack where
  resource : Option (List Byte)
  byteOffset : ℕ
  sectorCount : ℕ
  discTrack : ℕ

/-- `append_resource_audio_track` -/
def appendResourceAudioTrack (s : Activation) (caller : Caller) (resource : List Byte)
    (offset count : ℕ) : Option (Activation × ℕ) :=
  match caller.resourceBytes resource with
  | none => none
  | some data =>
    if !caller.activating ∨ count = 0 ∨ data.length < offset ∨ data.length - offset < count * 2352 then
      none
    else appendAudioTrack s caller count 0 (some (data.drop offset))

/-- `append_disc_audio_track`: the first LBA and the sectors of the track. -/
def appendDiscAudioTrack (s : Activation) (caller : Caller) (track : ℕ) :
    Option (Activation × ℕ × ℕ) :=
  match s.reader with
  | none => none
  | some reader =>
    if !caller.activating ∨ track < 1 ∨ reader.tracks.length < track ∨ !reader.trackIsAudio track then
      none
    else
      let start := reader.trackStartLBA track
      let stop := reader.trackEnd track
      if stop ≤ start then none
      else (appendAudioTrack s caller (stop - start) start none).map fun r => (r.1, r.2, stop - start)

/-- One track of a group, with its first LBA and its sectors. -/
def appendCDDATrack (s : Activation) (caller : Caller) (t : CDDATrack) :
    Option (Activation × ℕ × ℕ) :=
  match t.resource with
  | some resource =>
    if t.discTrack ≠ 0 then none
    else (appendResourceAudioTrack s caller resource t.byteOffset t.sectorCount).map
      fun r => (r.1, r.2, t.sectorCount)
  | none =>
    if t.byteOffset ≠ 0 ∨ t.sectorCount ≠ 0 then none
    else appendDiscAudioTrack s caller t.discTrack

/-- The loop over the tracks: where it stops, and the places of the tracks it has appended. -/
def appendTracks (caller : Caller) : Activation → List CDDATrack →
    Activation × Bool × List (ℕ × ℕ)
  | s, [] => (s, true, [])
  | s, t :: tracks =>
    match appendCDDATrack s caller t with
    | none => (s, false, [])
    | some (s', place) =>
      let r := appendTracks caller s' tracks
      (r.1, r.2.1, place :: r.2.2)

/-- `psx_mod_append_cdda_tracks` -/
def appendCDDATracks (s : Activation) (caller : Caller) (tracks : List CDDATrack) :
    Activation × Option (List (ℕ × ℕ)) :=
  if tracks.length = 0 ∨ 98 < tracks.length then (s, none)
  else if !caller.activating ∨ 98 < s.audioTracks.length + tracks.length then (s, none)
  else
    let previous := s.audioTracks.length
    let r := appendTracks caller s tracks
    if r.2.1 then (r.1, some r.2.2)
    else ({ r.1 with audioTracks := r.1.audioTracks.take previous }, none)

/-! ## Replaced files -/

/-- The largest file a CD can hold. -/
def kMaxDiscFileBytes : ℕ := 360000 * 2048

/-- One bit of the sector checksum. -/
def edcShift (edc : BitVec 32) : BitVec 32 :=
  (edc >>> 1) ^^^ if edc &&& 1 ≠ 0 then 0xD8018001 else 0

def sectorEdc (bytes : List Byte) : BitVec 32 :=
  bytes.foldl (fun edc b => edcShift^[8] (edc ^^^ b.setWidth 32)) 0

def littleEndian (v : BitVec 32) : List Byte :=
  [v.extractLsb' 0 8, v.extractLsb' 8 8, v.extractLsb' 16 8, v.extractLsb' 24 8]

/-- A Mode-2 Form-1 sector from its subheader on, around at most 2048 bytes of a file. -/
def form1Sector (chunk : List Byte) : List Byte :=
  let checked := [0, 0, 8, 0, 0, 0, 8, 0] ++ chunk ++ List.replicate (2048 - chunk.length) 0
  checked ++ littleEndian (sectorEdc checked) ++ List.replicate 276 0

def fileSectors (bytes : List Byte) : ℕ := (bytes.length + 2047) / 2048

def sectorsOf (bytes : List Byte) : List Byte :=
  (List.range (fileSectors bytes)).flatMap fun i => form1Sector ((bytes.drop (i * 2048)).take 2048)

/-- Location and size of a directory record, both in both byte orders. -/
def recordFields (lba size : ℕ) : List Byte :=
  littleEndian (BitVec.ofNat 32 lba) ++ (littleEndian (BitVec.ofNat 32 lba)).reverse ++
    littleEndian (BitVec.ofNat 32 size) ++ (littleEndian (BitVec.ofNat 32 size)).reverse

/-- A derived patch that shares bytes with the fields of a record. -/
def onFields (record : ℕ) (p : DerivedPatch) : Bool :=
  record + 2 < p.offset + p.bytes.length ∧ p.offset < record + 18

/-- The patch takes the place of the last one on its fields. -/
def putPatch (record : ℕ) (patch : DerivedPatch) (derived : List DerivedPatch) : List DerivedPatch :=
  match derived.reverse.findIdx? (onFields record) with
  | none => derived ++ [patch]
  | some i => (derived.reverse.set i patch).reverse

/-- What a replacement has put where; the call itself returns the first LBA. -/
structure Replacement where
  path : List Byte
  record : ℕ
  lba : ℕ
  bytes : List Byte
deriving DecidableEq, Repr

/-- `psx_mod_replace_disc_file` -/
def replaceDiscFile (s : Activation) (caller : Caller) (path bytes : List Byte) :
    Activation × Option Replacement :=
  if !caller.activating ∨ !caller.currentPlugin ∨ path = [] ∨ bytes = [] ∨
      kMaxDiscFileBytes < bytes.length then (s, none)
  else
    match s.find path with
    | .error .guardFailed => ({ s with disc.discGuardFailed := true }, none)
    | .error _ => (s, none)
    | .ok entry =>
      match entry.record, entry.directory, s.reader with
      | some record, false, some reader =>
        let start := s.startLba reader.sectorCount
        let lba := s.nextLba start
        let count := fileSectors bytes
        if start = 0 ∨ lastLba < lba + count + 150 then (s, none)
        else if s.disc.derived.any fun p =>
            onFields record p && !(decide (p.offset = record + 2 ∧ p.bytes.length = 16)) then (s, none)
        else ({ s with
          disc.derived := putPatch record ⟨record + 2, recordFields lba bytes.length⟩ s.disc.derived
          extents := s.extents ++ [⟨lba, count, sectorsOf bytes⟩]
          extentStart := start }, some ⟨path, record, lba, bytes⟩)
      | _, _, _ => (s, none)

/-- The copy loop: `n` sectors from the `i`-th on. -/
def readFileSectors (s : Activation) (lba size : ℕ) : ℕ → ℕ → Option (List Byte)
  | 0, _ => some []
  | n + 1, i =>
    match s.readUserSector ((lba + i) % 2 ^ 32) with
    | .error _ => none
    | .ok sector => (readFileSectors s lba size n (i + 1)).map fun rest =>
        (List.range (min 2048 (size - i * 2048))).map sector ++ rest

/-- `psx_mod_read_disc_file` with a buffer that is large enough. -/
def readDiscFile (s : Activation) (path : List Byte) : Option (List Byte) :=
  if path = [] then none
  else match s.find path with
    | .error _ => none
    | .ok entry =>
      if entry.directory ∨ entry.bytes = 0 ∨ kMaxDiscFileBytes < entry.bytes then none
      else readFileSectors s entry.lba entry.bytes ((entry.bytes + 2047) / 2048) 0

end PsxRecomp.Mods
