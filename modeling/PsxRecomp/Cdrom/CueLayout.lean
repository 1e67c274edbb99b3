import Mathlib

/-! A disc image behind a cue sheet: the lines of the sheet, the spans that its files and gaps make, and the sectors
that are read through them. -/
namespace PsxRecomp.CueLayout
set_option autoImplicit false

abbrev Byte := BitVec 8

def u32 (n : ℕ) : ℕ := n % 2 ^ 32

/-! ## Cue sheets -/

/-- A line, as the scans of `parse_cue_sheet` take it. -/
inductive CueLine where
  /-- Whether the type is `BINARY`; `none` when `parse_file_line` fails. -/
  | file (binary : Option Bool)
  | track (number : ℤ) (audio : Bool) (sectorSize : ℕ)
  | pregap (mm ss ff : ℤ)
  | postgap (mm ss ff : ℤ)
  | index (idx mm ss ff : ℤ)
  | other

structure CueTrackRef where
  number : ℤ
  isAudio : Bool
  fileIndex : ℕ
  index01 : ℕ
  index00 : ℕ
  hasIndex00 : Bool
  pregap : ℕ
  postgap : ℕ
  sectorSize : ℕ

structure CueState where
  /-- The files by whether they are binary. -/
  files : List Bool
  tracks : List CueTrackRef
  curTrackNum : ℤ
  curTrackAudio : Bool
  curSectorSize : ℕ
  curIndex00 : ℕ
  curHasIndex00 : Bool
  curPregap : ℕ
  lastPushedTrack : ℤ

def CueState.init : CueState := ⟨[], [], -1, false, 0, 0, false, 0, -1⟩

/-- `(uint32_t)(((mm * 60 + ss) * 75) + ff)` -/
def msf (mm ss ff : ℤ) : ℕ := (((mm * 60 + ss) * 75 + ff) % 2 ^ 32).toNat

def setPostgap (gap : ℕ) (number : ℤ) (tracks : List CueTrackRef) : List CueTrackRef :=
  match tracks.getLast? with
  | some t => if t.number = number then tracks.dropLast ++ [{ t with postgap := gap }] else tracks
  | none => tracks

/-- One turn of the loop of `parse_cue_sheet`. -/
def CueState.line (s : CueState) : CueLine → CueState
  | .file binary =>
    { s with files := s.files ++ binary.toList, curTrackNum := -1, curHasIndex00 := false, curIndex00 := 0,
             curPregap := 0, lastPushedTrack := -1 }
  | .track number audio sectorSize =>
    { s with curTrackNum := number, curTrackAudio := audio, curSectorSize := sectorSize, curIndex00 := 0,
             curHasIndex00 := false, curPregap := 0, lastPushedTrack := -1 }
  | .pregap mm ss ff => if s.curTrackNum ≥ 1 then { s with curPregap := msf mm ss ff } else s
  | .postgap mm ss ff =>
    if s.lastPushedTrack ≥ 0 then { s with tracks := setPostgap (msf mm ss ff) s.lastPushedTrack s.tracks } else s
  | .index idx mm ss ff =>
    if s.curTrackNum ≥ 1 ∧ s.files ≠ [] then
      if idx = 0 then { s with curIndex00 := msf mm ss ff, curHasIndex00 := true }
      else if idx ≠ 1 then s
      else
        { s with
          tracks := s.tracks ++ [⟨s.curTrackNum, s.curTrackAudio, s.files.length - 1, msf mm ss ff, s.curIndex00,
            s.curHasIndex00, s.curPregap, 0, s.curSectorSize⟩]
          lastPushedTrack := s.curTrackNum
          curTrackNum := -1 }
    else s
  | .other => s

/-- `parse_cue_sheet` -/
def parseCueSheet (lines : List CueLine) : CueState := lines.foldl CueState.line .init

/-! ## Files -/

def rawSectorSize : ℕ := 2352
def sectorSize : ℕ := 2048

/-- `cue_declared_sector_size`; `none` for contradicting tracks -/
def cueDeclaredSectorSize (fileIndex : ℕ) : List CueTrackRef → ℕ → Option ℕ
  | [], declared => some declared
  | t :: ts, declared =>
    if t.fileIndex ≠ fileIndex ∨ t.sectorSize = 0 then cueDeclaredSectorSize fileIndex ts declared
    else if declared ≠ 0 ∧ declared ≠ t.sectorSize then none
    else cueDeclaredSectorSize fileIndex ts t.sectorSize

def sync : List Byte := [0x00, 0xFF, 0xFF, 0xFF, 0xFF, 0xFF, 0xFF, 0xFF, 0xFF, 0xFF, 0xFF, 0x00]

/-- `stored_file_is_raw` -/
def storedFileIsRaw (contents : List Byte) (declared : Option ℕ) : Option Bool :=
  match declared with
  | none => none
  | some d =>
    if d = 2336 then none
    else if d ≠ 0 then some (d = rawSectorSize)
    else if (contents.take 12).length = 12 then some (contents.take 12 = sync)
    else some (contents.length % rawSectorSize = 0)

/-- `BinSegment` -/
structure BinSegment where
  contents : List Byte
  raw : Bool
  sectorCount : ℕ

/-- The files of a sheet, opened one by one. -/
def openFiles (tracks : List CueTrackRef) (file : ℕ → Option (List Byte)) : ℕ → ℕ → Option (List BinSegment)
  | 0, _ => some []
  | n + 1, si => do
    let contents ← file si
    if contents = [] then none
    else
      let raw ← storedFileIsRaw contents (cueDeclaredSectorSize si tracks 0)
      let rest ← openFiles tracks file n (si + 1)
      pure (⟨contents, raw, u32 (contents.length / if raw then rawSectorSize else sectorSize)⟩ :: rest)

/-! ## Layout -/

/-- `BinSpan`; a gap has no segment. -/
structure BinSpan where
  discStart : ℕ
  sectorCount : ℕ
  segment : Option ℕ
  fileSector : ℕ

structure CDTrack where
  number : ℤ
  isAudio : Bool
  startLba : ℕ
  pregapLba : ℕ

structure Layout where
  disc : ℕ
  spans : List BinSpan
  tracks : List CDTrack

def Layout.pushStored (L : Layout) (si lo hi : ℕ) : Layout :=
  if hi ≤ lo then L
  else { L with disc := u32 (L.disc + (hi - lo)), spans := L.spans ++ [⟨L.disc, hi - lo, some si, lo⟩] }

def Layout.pushVirtual (L : Layout) (count : ℕ) : Layout :=
  if count = 0 then L else { L with disc := u32 (L.disc + count), spans := L.spans ++ [⟨L.disc, count, none, 0⟩] }

/-- Where a track's part of its file starts, by its indexes. -/
def CueTrackRef.first (p : CueTrackRef) : ℕ := if p.hasIndex00 then p.index00 else p.index01

def regionOf (p : CueTrackRef) (cursor n : ℕ) : ℕ := min (max p.first cursor) n

/-- The tracks of one file of `n` sectors. -/
def layoutTracks (si n : ℕ) : List CueTrackRef → ℕ → Layout → Layout
  | [], cursor, L => L.pushStored si cursor n
  | p :: ps, cursor, L =>
    let region := regionOf p cursor n
    let L := L.pushStored si cursor region
    let pregapLba := L.disc
    let L := L.pushVirtual p.pregap
    let L := { L with
      tracks := L.tracks ++ [⟨p.number, p.isAudio, u32 (L.disc + (p.index01 - region)), pregapLba⟩] }
    if p.postgap ≠ 0 then
      let stop := match ps with
        | [] => n
        | q :: _ => regionOf q region n
      layoutTracks si n ps stop ((L.pushStored si region stop).pushVirtual p.postgap)
    else layoutTracks si n ps region L

def layoutFiles (tracks : List CueTrackRef) : List BinSegment → ℕ → Layout → Layout
  | [], _, L => L
  | seg :: segs, si, L =>
    layoutFiles tracks segs (si + 1) (layoutTracks si seg.sectorCount (tracks.filter (·.fileIndex = si)) 0 L)

structure Disc where
  segments : List BinSegment
  spans : List BinSpan
  tracks : List CDTrack
  /-- `GetSectorCount` -/
  sectorCount : ℕ

/-- `ISOReader::Open` of a cue sheet, up to the layout. -/
def openCue (lines : List CueLine) (file : ℕ → Option (List Byte)) : Option Disc := do
  let sheet := parseCueSheet lines
  if sheet.files = [] ∨ false ∈ sheet.files then none
  else
    let segments ← openFiles sheet.tracks file sheet.files.length 0
    let L := layoutFiles sheet.tracks segments 0 ⟨0, [], []⟩
    pure ⟨segments, L.spans, if L.tracks = [] then [⟨1, false, 0, 0⟩] else L.tracks, L.disc⟩

/-! ## Reading -/

/-- `SpanForLBA` -/
def Disc.spanForLba (d : Disc) (lba : ℕ) : Option BinSpan :=
  d.spans.find? fun s => s.discStart ≤ lba && lba - s.discStart < s.sectorCount

def readAt (contents : List Byte) (offset size : ℕ) : Option (List Byte) :=
  let bytes := (contents.drop offset).take size
  if bytes.length = size then some bytes else none

/-- The user data of a stored sector. -/
def BinSegment.userData (seg : BinSegment) (sector : ℕ) : Option (List Byte) :=
  if seg.raw then readAt seg.contents (sector * rawSectorSize + 24) sectorSize
  else readAt seg.contents (sector * sectorSize) sectorSize

/-- `ReadSector` -/
def Disc.readSector (d : Disc) (lba : ℕ) : Option (List Byte) :=
  match d.spanForLba lba with
  | none => none
  | some s => match s.segment with
    | none => some (List.replicate sectorSize 0)
    | some si => d.segments[si]?.bind fun seg => seg.userData (s.fileSector + (lba - s.discStart))

/-- `ReadRawSector` -/
def Disc.readRawSector (d : Disc) (lba : ℕ) : Option (List Byte) :=
  match d.spanForLba lba with
  | none => none
  | some s => match s.segment with
    | none => some (List.replicate rawSectorSize 0)
    | some si => d.segments[si]?.bind fun seg =>
      if seg.raw then readAt seg.contents ((s.fileSector + (lba - s.discStart)) * rawSectorSize) rawSectorSize else none

/-- `TrackStartLBA` -/
def Disc.trackStartLba (d : Disc) (track : ℤ) : ℕ := ((d.tracks.find? (·.number = track)).map (·.startLba)).getD 0

/-- `TrackPregapLBA` -/
def Disc.trackPregapLba (d : Disc) (track : ℤ) : ℕ := ((d.tracks.find? (·.number = track)).map (·.pregapLba)).getD 0

/-! ## Tiles -/

/-- Spans that follow each other from `lo` to `hi`. -/
def Tiles : ℕ → List BinSpan → ℕ → Prop
  | lo, [], hi => lo = hi
  | lo, s :: ss, hi => s.discStart = lo ∧ Tiles (lo + s.sectorCount) ss hi

def extent (spans : List BinSpan) : ℕ := (spans.map (·.sectorCount)).sum

@[simp] theorem extent_append (a b : List BinSpan) : extent (a ++ b) = extent a + extent b := by
  simp [extent]

@[simp] theorem extent_singleton (s : BinSpan) : extent [s] = s.sectorCount := by
  simp [extent]

theorem Tiles.concat {lo hi : ℕ} {spans : List BinSpan} (h : Tiles lo spans hi) {s : BinSpan} (hs : s.discStart = hi) :
    Tiles lo (spans ++ [s]) (hi + s.sectorCount) := by
  induction spans generalizing lo with
  | nil =>
    obtain rfl : lo = hi := h
    exact ⟨hs, rfl⟩
  | cons t ts ih => exact ⟨h.1, ih h.2⟩

theorem Tiles.end_eq {lo hi : ℕ} {spans : List BinSpan} (h : Tiles lo spans hi) : hi = lo + extent spans := by
  induction spans generalizing lo with
  | nil => exact h.symm
  | cons t ts ih =>
    rw [ih h.2]
    simp [extent, Nat.add_assoc]

theorem Tiles.bounds {lo hi : ℕ} {spans : List BinSpan} (h : Tiles lo spans hi) {s : BinSpan} (hs : s ∈ spans) :
    lo ≤ s.discStart ∧ s.discStart + s.sectorCount ≤ hi := by
  induction spans generalizing lo with
  | nil => cases hs
  | cons t ts ih =>
    have hend := h.2.end_eq
    rcases List.mem_cons.1 hs with rfl | hs
    · have := h.1
      omega
    · have := ih h.2 hs
      omega

/-- The span of a sector is the one that holds it. -/
theorem Tiles.find {lo hi : ℕ} {spans : List BinSpan} (h : Tiles lo spans hi) {s : BinSpan} (hs : s ∈ spans) {lba : ℕ}
    (hlo : s.discStart ≤ lba) (hhi : lba - s.discStart < s.sectorCount) :
    spans.find? (fun s => s.discStart ≤ lba && lba - s.discStart < s.sectorCount) = some s := by
  induction spans generalizing lo with
  | nil => cases hs
  | cons t ts ih =>
    rcases List.mem_cons.1 hs with rfl | hs
    · exact List.find?_cons_of_pos (by simp [hlo, hhi])
    · have hb := h.2.bounds hs
      have ht := h.1
      rw [List.find?_cons_of_neg (by simp; omega)]
      exact ih h.2 hs

/-! ## What the pushes keep -/

/-- The stored sectors of a span, by file. -/
def BinSpan.sectors (s : BinSpan) : List (ℕ × ℕ) :=
  match s.segment with
  | none => []
  | some si => (List.range' s.fileSector s.sectorCount).map fun x => (si, x)

def gaps (spans : List BinSpan) : ℕ := (spans.map fun s => if s.segment = none then s.sectorCount else 0).sum

structure Laid (L : Layout) : Prop where
  pos : ∀ s ∈ L.spans, 0 < s.sectorCount
  tiles : extent L.spans < 2 ^ 32 → Tiles 0 L.spans L.disc

theorem Laid.disc_eq {L : Layout} (h : Laid L) (hext : extent L.spans < 2 ^ 32) : L.disc = extent L.spans := by
  rw [(h.tiles hext).end_eq, Nat.zero_add]

theorem Laid.concat {L : Layout} (h : Laid L) {s : BinSpan} (hpos : 0 < s.sectorCount) (hs : s.discStart = L.disc)
    (tracks : List CDTrack) : Laid ⟨u32 (L.disc + s.sectorCount), L.spans ++ [s], tracks⟩ := by
  refine ⟨fun t ht => ?_, fun hext => ?_⟩
  · rcases List.mem_append.1 ht with ht | ht
    · exact h.pos t ht
    · rw [List.mem_singleton.1 ht]
      exact hpos
  · rw [extent_append, extent_singleton] at hext
    have hd := h.disc_eq (by omega)
    have hmod : u32 (L.disc + s.sectorCount) = L.disc + s.sectorCount := Nat.mod_eq_of_lt (by omega)
    show Tiles 0 (L.spans ++ [s]) (u32 (L.disc + s.sectorCount))
    rw [hmod]
    exact (h.tiles (by omega)).concat hs

theorem pushStored_laid {L : Layout} (h : Laid L) (si lo hi : ℕ) : Laid (L.pushStored si lo hi) := by
  unfold Layout.pushStored
  split_ifs with hle
  · exact h
  · exact h.concat (s := ⟨L.disc, hi - lo, some si, lo⟩) (by simp; omega) rfl L.tracks

theorem pushVirtual_laid {L : Layout} (h : Laid L) (count : ℕ) : Laid (L.pushVirtual count) := by
  unfold Layout.pushVirtual
  split_ifs with hz
  · exact h
  · exact h.concat (s := ⟨L.disc, count, none, 0⟩) (Nat.pos_of_ne_zero hz) rfl L.tracks

theorem pushStored_spans (L : Layout) (si lo hi : ℕ) :
    (L.pushStored si lo hi).spans = L.spans ++ if hi ≤ lo then [] else [⟨L.disc, hi - lo, some si, lo⟩] := by
  unfold Layout.pushStored
  split_ifs <;> simp

theorem pushVirtual_spans (L : Layout) (count : ℕ) :
    (L.pushVirtual count).spans = L.spans ++ if count = 0 then [] else [⟨L.disc, count, none, 0⟩] := by
  unfold Layout.pushVirtual
  split_ifs <;> simp

@[simp] theorem pushStored_tracks (L : Layout) (si lo hi : ℕ) : (L.pushStored si lo hi).tracks = L.tracks := by
  unfold Layout.pushStored
  split_ifs <;> rfl

@[simp] theorem pushVirtual_tracks (L : Layout) (count : ℕ) : (L.pushVirtual count).tracks = L.tracks := by
  unfold Layout.pushVirtual
  split_ifs <;> rfl

@[simp] theorem pushStored_sectors (L : Layout) (si lo hi : ℕ) :
    (L.pushStored si lo hi).spans.flatMap BinSpan.sectors =
      L.spans.flatMap BinSpan.sectors ++ (List.range' lo (hi - lo)).map fun x => (si, x) := by
  rw [pushStored_spans]
  split_ifs with h
  · simp [Nat.sub_eq_zero_of_le h]
  · simp [BinSpan.sectors]

@[simp] theorem pushVirtual_sectors (L : Layout) (count : ℕ) :
    (L.pushVirtual count).spans.flatMap BinSpan.sectors = L.spans.flatMap BinSpan.sectors := by
  rw [pushVirtual_spans]
  split_ifs <;> simp [BinSpan.sectors]

@[simp] theorem pushStored_gaps (L : Layout) (si lo hi : ℕ) : gaps (L.pushStored si lo hi).spans = gaps L.spans := by
  rw [pushStored_spans]
  split_ifs <;> simp [gaps]

@[simp] theorem pushVirtual_gaps (L : Layout) (count : ℕ) :
    gaps (L.pushVirtual count).spans = gaps L.spans + count := by
  rw [pushVirtual_spans]
  split_ifs with h <;> simp [gaps, h]

theorem pushStored_extent (L : Layout) (si lo hi : ℕ) :
    extent (L.pushStored si lo hi).spans = extent L.spans + (hi - lo) := by
  rw [pushStored_spans]
  split_ifs with h
  · simp [Nat.sub_eq_zero_of_le h]
  · simp

theorem pushVirtual_extent (L : Layout) (count : ℕ) : extent (L.pushVirtual count).spans = extent L.spans + count := by
  rw [pushVirtual_spans]
  split_ifs with h <;> simp [h]

/-! ## The tracks of one file -/

section Tracks
variable {si n : ℕ}

theorem regionOf_le (p : CueTrackRef) (cursor n : ℕ) : regionOf p cursor n ≤ n := min_le_right _ _

theorem le_regionOf (p : CueTrackRef) {cursor n : ℕ} (h : cursor ≤ n) : cursor ≤ regionOf p cursor n :=
  le_min (le_max_right _ _) h

theorem regionOf_eq {p : CueTrackRef} {cursor n : ℕ} (h1 : cursor ≤ p.first) (h2 : p.first ≤ n) :
    regionOf p cursor n = p.first := by
  rw [regionOf, max_eq_left h1, min_eq_left h2]

/-- The end of a track's data when a gap is put behind it. -/
def stopOf (n region : ℕ) : List CueTrackRef → ℕ
  | [] => n
  | q :: _ => regionOf q region n

theorem stopOf_bounds {region : ℕ} (h : region ≤ n) (ps : List CueTrackRef) : region ≤ stopOf n region ps ∧ stopOf n region ps ≤ n := by
  cases ps with
  | nil => exact ⟨h, le_refl n⟩
  | cons q qs => exact ⟨le_regionOf q h, regionOf_le q region n⟩

/-- The layout at the start of a track. -/
def opened (si : ℕ) (p : CueTrackRef) (cursor region : ℕ) (L : Layout) : Layout :=
  let L := L.pushStored si cursor region
  let pregapLba := L.disc
  let L := L.pushVirtual p.pregap
  { L with tracks := L.tracks ++ [⟨p.number, p.isAudio, u32 (L.disc + (p.index01 - region)), pregapLba⟩] }

theorem layoutTracks_cons (p : CueTrackRef) (ps : List CueTrackRef) (cursor : ℕ) (L : Layout) :
    layoutTracks si n (p :: ps) cursor L =
      if p.postgap ≠ 0 then
        layoutTracks si n ps (stopOf n (regionOf p cursor n) ps)
          (((opened si p cursor (regionOf p cursor n) L).pushStored si (regionOf p cursor n)
            (stopOf n (regionOf p cursor n) ps)).pushVirtual p.postgap)
      else layoutTracks si n ps (regionOf p cursor n) (opened si p cursor (regionOf p cursor n) L) := by
  cases ps <;> rfl

theorem opened_spans (p : CueTrackRef) (cursor region : ℕ) (L : Layout) :
    (opened si p cursor region L).spans = ((L.pushStored si cursor region).pushVirtual p.pregap).spans := rfl

theorem opened_laid {p : CueTrackRef} {cursor region : ℕ} {L : Layout} (h : Laid L) :
    Laid (opened si p cursor region L) := by
  have := pushVirtual_laid (pushStored_laid h si cursor region) p.pregap
  exact ⟨this.pos, this.tiles⟩

/-- A fact that the pushes keep is kept by the tracks of a file. -/
theorem layoutTracks_laid (ps : List CueTrackRef) (cursor : ℕ) (L : Layout) (h : Laid L) :
    Laid (layoutTracks si n ps cursor L) := by
  induction ps generalizing cursor L with
  | nil => exact pushStored_laid h si cursor n
  | cons p ps ih =>
    rw [layoutTracks_cons]
    split_ifs
    · exact ih _ _ (pushVirtual_laid (pushStored_laid (opened_laid h) _ _ _) _)
    · exact ih _ _ (opened_laid h)

theorem layoutTracks_append (si n : ℕ) (ps : List CueTrackRef) (cursor : ℕ) (L : Layout) :
    ∃ more, (layoutTracks si n ps cursor L).spans = L.spans ++ more := by
  induction ps generalizing cursor L with
  | nil => exact ⟨_, pushStored_spans L si cursor n⟩
  | cons p ps ih =>
    rw [layoutTracks_cons]
    split_ifs
    · obtain ⟨more, hmore⟩ := ih (stopOf n (regionOf p cursor n) ps)
        (((opened si p cursor (regionOf p cursor n) L).pushStored si (regionOf p cursor n)
          (stopOf n (regionOf p cursor n) ps)).pushVirtual p.postgap)
      rw [hmore, pushVirtual_spans, pushStored_spans, opened_spans, pushVirtual_spans, pushStored_spans]
      exact ⟨_, by simp only [List.append_assoc]; rfl⟩
    · obtain ⟨more, hmore⟩ := ih (regionOf p cursor n) (opened si p cursor (regionOf p cursor n) L)
      rw [hmore, opened_spans, pushVirtual_spans, pushStored_spans]
      exact ⟨_, by simp only [List.append_assoc]; rfl⟩

/-- Each sector from the cursor on is stored once, in order. -/
theorem layoutTracks_sectors (ps : List CueTrackRef) (cursor : ℕ) (L : Layout) (hc : cursor ≤ n) :
    (layoutTracks si n ps cursor L).spans.flatMap BinSpan.sectors =
      L.spans.flatMap BinSpan.sectors ++ (List.range' cursor (n - cursor)).map fun x => (si, x) := by
  induction ps generalizing cursor L with
  | nil => exact pushStored_sectors L si cursor n
  | cons p ps ih =>
    have hjoin : ∀ a b c : ℕ, a ≤ b → b ≤ c →
        ((List.range' a (b - a)).map fun x => (si, x)) ++ ((List.range' b (c - b)).map fun x => (si, x)) =
          (List.range' a (c - a)).map fun x => (si, x) := by
      intro a b c hab hbc
      have e := @List.range'_append_1 a (b - a) (c - b)
      rw [show a + (b - a) = b by omega, show b - a + (c - b) = c - a by omega] at e
      rw [← List.map_append, e]
    have h1 := le_regionOf p hc
    have h2 := regionOf_le p cursor n
    rw [layoutTracks_cons]
    split_ifs
    · obtain ⟨h3, h4⟩ := stopOf_bounds h2 ps
      rw [ih _ _ h4, pushVirtual_sectors, pushStored_sectors, opened_spans, pushVirtual_sectors, pushStored_sectors]
      simp only [List.append_assoc]
      rw [hjoin _ _ _ h3 h4, hjoin _ _ _ h1 h2]
    · rw [ih _ _ h2, opened_spans, pushVirtual_sectors, pushStored_sectors, List.append_assoc, hjoin _ _ _ h1 h2]

theorem layoutTracks_gaps (ps : List CueTrackRef) (cursor : ℕ) (L : Layout) :
    gaps (layoutTracks si n ps cursor L).spans = gaps L.spans + (ps.map fun p => p.pregap + p.postgap).sum := by
  induction ps generalizing cursor L with
  | nil => simp [layoutTracks]
  | cons p ps ih =>
    rw [layoutTracks_cons]
    split_ifs with hz
    · rw [ih]
      simp only [pushVirtual_gaps, pushStored_gaps, opened_spans, List.map_cons, List.sum_cons]
      omega
    · rw [ih]
      simp only [pushVirtual_gaps, pushStored_gaps, opened_spans, List.map_cons, List.sum_cons]
      omega

/-! ### Where a track starts -/

/-- The file sector `x` is the disc's sector `lba`. -/
def Stored (spans : List BinSpan) (si x lba : ℕ) : Prop :=
  ∃ s ∈ spans, s.segment = some si ∧ s.discStart ≤ lba ∧ lba - s.discStart < s.sectorCount ∧
    s.fileSector + (lba - s.discStart) = x

theorem Stored.append {spans : List BinSpan} {x lba : ℕ} (h : Stored spans si x lba) (more : List BinSpan) :
    Stored (spans ++ more) si x lba := by
  obtain ⟨s, hs, h⟩ := h
  exact ⟨s, List.mem_append_left _ hs, h⟩

theorem Stored.lt {L : Layout} {x lba : ℕ} (h : Stored L.spans si x lba) (hL : Laid L)
    (hext : extent L.spans < 2 ^ 32) : lba < L.disc := by
  obtain ⟨s, hs, -, h1, h2, -⟩ := h
  have := (hL.tiles hext).bounds hs
  omega

theorem pushStored_stored {L : Layout} {lo hi x : ℕ} (h1 : lo ≤ x) (h2 : x < hi) :
    Stored (L.pushStored si lo hi).spans si x (L.disc + (x - lo)) := by
  rw [pushStored_spans, if_neg (by omega)]
  refine ⟨⟨L.disc, hi - lo, some si, lo⟩, by simp, rfl, ?_, ?_, ?_⟩ <;> dsimp only <;> omega

/-- Indexes that do not fall, from `x` on. -/
def Rising (n : ℕ) : ℕ → List CueTrackRef → Prop
  | _, [] => True
  | x, p :: ps => x ≤ p.first ∧ p.first ≤ p.index01 ∧ p.index01 < n ∧ Rising n p.index01 ps

theorem Rising.le {x y : ℕ} {ps : List CueTrackRef} (h : Rising n x ps) (hy : y ≤ x) : Rising n y ps := by
  cases ps with
  | nil => trivial
  | cons p ps => exact ⟨hy.trans h.1, h.2⟩

/-- Where a track begins at the one before it, no gap is put between the two. -/
def GapsApart : List CueTrackRef → Prop :=
  List.IsChain fun p q => p.index01 = q.first → p.postgap = 0 ∧ q.pregap = 0

theorem extent_layoutTracks (si n : ℕ) (ps : List CueTrackRef) (cursor : ℕ) (L : Layout) :
    extent L.spans ≤ extent (layoutTracks si n ps cursor L).spans := by
  obtain ⟨more, hmore⟩ := layoutTracks_append si n ps cursor L
  rw [hmore, extent_append]
  exact Nat.le_add_right _ _

theorem opened_disc {p : CueTrackRef} {cursor region : ℕ} {L : Layout} (hL : Laid L)
    (hext : extent (opened si p cursor region L).spans < 2 ^ 32) :
    (opened si p cursor region L).disc = L.disc + (region - cursor) + p.pregap := by
  have hl : Laid (opened si p cursor region L) := opened_laid hL
  have hd := hl.disc_eq hext
  rw [opened_spans, pushVirtual_extent, pushStored_extent] at hd hext
  rw [hd, hL.disc_eq (by omega)]

/-- A sector that no gap stands before, from the cursor on. -/
theorem layoutTracks_stored {ps : List CueTrackRef} {cursor x : ℕ} {L : Layout} (hL : Laid L)
    (hext : extent (layoutTracks si n ps cursor L).spans < 2 ^ 32) (hr : Rising n cursor ps) (hg : GapsApart ps)
    (h1 : cursor ≤ x) (h2 : x < n) (hq : ∀ q ∈ ps.head?, x ≤ q.first ∧ (x = q.first → q.pregap = 0)) :
    Stored (layoutTracks si n ps cursor L).spans si x (L.disc + (x - cursor)) := by
  induction ps generalizing cursor L with
  | nil => exact pushStored_stored h1 h2
  | cons q qs ih =>
    obtain ⟨hx, hpre⟩ := hq q rfl
    obtain ⟨r1, r2, r3, r4⟩ := hr
    have hregion : regionOf q cursor n = q.first := regionOf_eq r1 (by omega)
    have hopened : ∀ more, x < q.first →
        Stored ((opened si q cursor q.first L).spans ++ more) si x (L.disc + (x - cursor)) := by
      intro more hlt
      rw [opened_spans, pushVirtual_spans]
      exact ((pushStored_stored h1 hlt).append _).append _
    rw [layoutTracks_cons, hregion] at hext ⊢
    split_ifs at hext ⊢ with hpost
    · obtain ⟨more, hmore⟩ := layoutTracks_append si n qs (stopOf n q.first qs)
        (((opened si q cursor q.first L).pushStored si q.first (stopOf n q.first qs)).pushVirtual q.postgap)
      have hle := extent_layoutTracks si n qs (stopOf n q.first qs)
        (((opened si q cursor q.first L).pushStored si q.first (stopOf n q.first qs)).pushVirtual q.postgap)
      rw [pushVirtual_extent, pushStored_extent] at hle
      rw [hmore, pushVirtual_spans]
      rcases hx.lt_or_eq with hlt | heq
      · rw [pushStored_spans]
        simp only [List.append_assoc]
        exact hopened _ hlt
      · -- the gap behind the track is past its first sector
        have hstop : x < stopOf n q.first qs := by
          cases qs with
          | nil => exact h2
          | cons r rs =>
            have hr1 := r4.1
            have hgap := (List.isChain_cons_cons.1 hg).1
            have hne : q.index01 ≠ r.first := fun e => hpost (hgap e).1
            have hr2 := r4.2
            rw [stopOf, regionOf_eq (by omega) (by omega)]
            omega
        have hd : (opened si q cursor q.first L).disc = _ := opened_disc hL (by omega)
        have : Stored ((opened si q cursor q.first L).pushStored si q.first (stopOf n q.first qs)).spans si x _ :=
          pushStored_stored heq.ge hstop
        rw [hd, hpre heq] at this
        convert (this.append _).append _ using 1
        omega
    · have hle := extent_layoutTracks si n qs q.first (opened si q cursor q.first L)
      rcases hx.lt_or_eq with hlt | heq
      · obtain ⟨more, hmore⟩ := layoutTracks_append si n qs q.first (opened si q cursor q.first L)
        rw [hmore]
        exact hopened more hlt
      · have hd : (opened si q cursor q.first L).disc = _ := opened_disc hL (by omega)
        have := ih (opened_laid hL) hext (r4.le r2) hg.tail heq.ge (fun r hr => by
          cases qs with
          | nil => cases hr
          | cons r' rs =>
            obtain rfl : r' = r := by simpa using hr
            have hr1 := r4.1
            exact ⟨by omega, fun e => ((List.isChain_cons_cons.1 hg).1 (by omega)).2⟩)
        rw [hd, hpre heq] at this
        convert this using 1
        omega

/-- The entry `t` is where the track `p` of the sheet was laid. -/
structure Placed (spans : List BinSpan) (p : CueTrackRef) (t : CDTrack) : Prop where
  number : t.number = p.number
  pregap : t.pregapLba ≤ t.startLba
  start : Stored spans p.fileIndex p.index01 t.startLba

theorem Placed.append {spans : List BinSpan} {p : CueTrackRef} {t : CDTrack} (h : Placed spans p t)
    (more : List BinSpan) : Placed (spans ++ more) p t :=
  ⟨h.number, h.pregap, h.start.append more⟩

/-- The layout behind a track, up to the next one or to its gap. -/
def closed (si n : ℕ) (p : CueTrackRef) (ps : List CueTrackRef) (cursor : ℕ) (L : Layout) : Layout :=
  if p.postgap ≠ 0 then
    ((opened si p cursor p.first L).pushStored si p.first (stopOf n p.first ps)).pushVirtual p.postgap
  else opened si p cursor p.first L

def closedAt (n : ℕ) (p : CueTrackRef) (ps : List CueTrackRef) : ℕ :=
  if p.postgap ≠ 0 then stopOf n p.first ps else p.first

theorem layoutTracks_closed {p : CueTrackRef} {ps : List CueTrackRef} {cursor : ℕ} {L : Layout}
    (h1 : cursor ≤ p.first) (h2 : p.first ≤ n) :
    layoutTracks si n (p :: ps) cursor L = layoutTracks si n ps (closedAt n p ps) (closed si n p ps cursor L) := by
  rw [layoutTracks_cons, regionOf_eq h1 h2, closed, closedAt]
  split_ifs <;> rfl

theorem closed_laid {p : CueTrackRef} {ps : List CueTrackRef} {cursor : ℕ} {L : Layout} (hL : Laid L) :
    Laid (closed si n p ps cursor L) := by
  unfold closed
  split_ifs
  · exact pushVirtual_laid (pushStored_laid (opened_laid hL) _ _ _) _
  · exact opened_laid hL

theorem closed_disc {p : CueTrackRef} {ps : List CueTrackRef} {cursor : ℕ} {L : Layout} (hL : Laid L)
    (hext : extent (closed si n p ps cursor L).spans < 2 ^ 32) :
    (closed si n p ps cursor L).disc =
      L.disc + (p.first - cursor) + p.pregap + (closedAt n p ps - p.first) + p.postgap := by
  have hl : Laid (closed si n p ps cursor L) := closed_laid hL
  have hd := hl.disc_eq hext
  unfold closed closedAt at *
  split_ifs at * with hpost
  · rw [pushVirtual_extent, pushStored_extent, opened_spans, pushVirtual_extent, pushStored_extent] at hd hext
    rw [hd, hL.disc_eq (by omega)]
  · rw [opened_spans, pushVirtual_extent, pushStored_extent] at hd hext
    rw [hd, hL.disc_eq (by omega)]
    omega

theorem closed_tracks (p : CueTrackRef) (ps : List CueTrackRef) (cursor : ℕ) (L : Layout) :
    (closed si n p ps cursor L).tracks = L.tracks ++ [⟨p.number, p.isAudio,
      u32 (((L.pushStored si cursor p.first).pushVirtual p.pregap).disc + (p.index01 - p.first)),
      (L.pushStored si cursor p.first).disc⟩] := by
  unfold closed
  split_ifs <;> simp [opened]

theorem extent_opened (p : CueTrackRef) (ps : List CueTrackRef) (cursor : ℕ) (L : Layout) :
    extent (opened si p cursor p.first L).spans ≤ extent (closed si n p ps cursor L).spans := by
  unfold closed
  split_ifs
  · rw [pushVirtual_extent, pushStored_extent]
    omega
  · exact le_refl _

/-- What the entries of one file's tracks come to. -/
structure FilePlaced (n : ℕ) (before after : Layout) (ps : List CueTrackRef) (cursor : ℕ) (ts : List CDTrack) :
    Prop where
  tracks : after.tracks = before.tracks ++ ts
  placed : List.Forall₂ (Placed after.spans) ps ts
  ordered : ts.Pairwise fun a b => a.startLba ≤ b.pregapLba
  bound : ∀ t ∈ ts, ∀ x, cursor ≤ x → (∀ q ∈ ps.head?, x ≤ q.first) → before.disc + (x - cursor) ≤ t.pregapLba

theorem layoutTracks_placed {ps : List CueTrackRef} {cursor : ℕ} {L : Layout} (hL : Laid L)
    (hext : extent (layoutTracks si n ps cursor L).spans < 2 ^ 32) (hr : Rising n cursor ps) (hg : GapsApart ps)
    (hsi : ∀ p ∈ ps, p.fileIndex = si) :
    ∃ ts, FilePlaced n L (layoutTracks si n ps cursor L) ps cursor ts := by
  induction ps generalizing cursor L with
  | nil => exact ⟨[], by simp [layoutTracks], .nil, .nil, by simp⟩
  | cons p ps ih =>
    obtain ⟨r1, r2, r3, r4⟩ := hr
    rw [layoutTracks_closed r1 (by omega)] at hext ⊢
    have hmono := extent_layoutTracks si n ps (closedAt n p ps) (closed si n p ps cursor L)
    have hd : (closed si n p ps cursor L).disc = _ := closed_disc hL (by omega)
    have hat : p.first ≤ closedAt n p ps ∧ ∀ q ∈ ps.head?, closedAt n p ps ≤ q.first := by
      unfold closedAt
      cases ps with
      | nil =>
        simp only [stopOf]
        split_ifs <;> (simp; try omega)
      | cons q qs =>
        have hq1 := r4.1
        have hq2 := r4.2
        simp only [stopOf, List.head?_cons, Option.mem_def, Option.some.injEq, forall_eq']
        rw [regionOf_eq (by omega) (by omega)]
        split_ifs <;> omega
    have hrise : Rising n (closedAt n p ps) ps := by
      cases ps with
      | nil => trivial
      | cons q qs => exact ⟨hat.2 q rfl, r4.2⟩
    obtain ⟨ts, hts⟩ := ih (closed_laid hL) hext hrise hg.tail fun q hq => hsi q (List.mem_cons_of_mem _ hq)
    -- the entry of the track itself
    have hstart : Stored (layoutTracks si n ps (closedAt n p ps) (closed si n p ps cursor L)).spans si p.index01
        (L.disc + (p.first - cursor) + p.pregap + (p.index01 - p.first)) := by
      have hod : extent (opened si p cursor p.first L).spans < 2 ^ 32 →
          (opened si p cursor p.first L).disc = L.disc + (p.first - cursor) + p.pregap := opened_disc hL
      unfold closed closedAt at *
      split_ifs at * with hpost
      · rw [pushVirtual_extent, pushStored_extent] at hmono
        rw [← hod (by omega)]
        obtain ⟨more, hmore⟩ := layoutTracks_append si n ps (stopOf n p.first ps)
          (((opened si p cursor p.first L).pushStored si p.first (stopOf n p.first ps)).pushVirtual p.postgap)
        rw [hmore, pushVirtual_spans]
        refine ((pushStored_stored r2 ?_).append _).append _
        cases ps with
        | nil => exact r3
        | cons q qs =>
          have hq1 := r4.1
          have hq2 := r4.2
          have hne : p.index01 ≠ q.first := fun e => hpost ((List.isChain_cons_cons.1 hg).1 e).1
          rw [stopOf, regionOf_eq (by omega) (by omega)]
          omega
      · rw [← hod (by omega)]
        refine layoutTracks_stored (opened_laid hL) hext hrise hg.tail r2 r3 fun q hq => ?_
        cases ps with
        | nil => cases hq
        | cons q' qs =>
          obtain rfl : q' = q := by simpa using hq
          exact ⟨r4.1, fun e => ((List.isChain_cons_cons.1 hg).1 e).2⟩
    have hfit := hstart.lt (layoutTracks_laid _ _ _ (closed_laid hL)) hext
    rw [(layoutTracks_laid _ _ _ (closed_laid hL)).disc_eq hext] at hfit
    have hbefore : (L.pushStored si cursor p.first).disc = L.disc + (p.first - cursor) ∧
        ((L.pushStored si cursor p.first).pushVirtual p.pregap).disc = L.disc + (p.first - cursor) + p.pregap := by
      have hle := @extent_opened si n p ps cursor L
      rw [opened_spans, pushVirtual_extent, pushStored_extent] at hle
      have h1 := pushStored_laid hL si cursor p.first
      have hd1 := h1.disc_eq (by rw [pushStored_extent]; omega)
      have hd2 := (pushVirtual_laid h1 p.pregap).disc_eq (by rw [pushVirtual_extent, pushStored_extent]; omega)
      rw [pushVirtual_extent] at hd2
      rw [pushStored_extent] at hd1 hd2
      have := hL.disc_eq (by omega)
      omega
    refine ⟨⟨p.number, p.isAudio, L.disc + (p.first - cursor) + p.pregap + (p.index01 - p.first),
      L.disc + (p.first - cursor)⟩ :: ts, ?_, ?_, ?_, ?_⟩
    · have hmod : u32 (L.disc + (p.first - cursor) + p.pregap + (p.index01 - p.first)) =
          L.disc + (p.first - cursor) + p.pregap + (p.index01 - p.first) := Nat.mod_eq_of_lt (by omega)
      rw [hts.tracks, closed_tracks, hbefore.1, hbefore.2, hmod, List.append_assoc, List.singleton_append]
    · refine .cons ⟨rfl, by dsimp only; omega, ?_⟩ hts.placed
      rw [hsi p (List.mem_cons_self ..)]
      exact hstart
    · refine List.pairwise_cons.2 ⟨fun t ht => ?_, hts.ordered⟩
      have := hts.bound t ht (max (closedAt n p ps) p.index01) (le_max_left _ _) fun q hq =>
        max_le (hat.2 q hq) (by
          cases ps with
          | nil => cases hq
          | cons q' qs =>
            obtain rfl : q' = q := by simpa using hq
            exact r4.1)
      have h1 := le_max_left (closedAt n p ps) p.index01
      have h2 := le_max_right (closedAt n p ps) p.index01
      have h3 := hat.1
      dsimp only
      omega
    · intro t ht x hx hq
      have hxp := hq p rfl
      rcases List.mem_cons.1 ht with rfl | ht
      · dsimp only
        omega
      · have := hts.bound t ht (closedAt n p ps) (le_refl _) hat.2
        omega

end Tracks

/-! ## The files of a sheet -/

section Files
variable {tracks : List CueTrackRef}

/-- The tracks of `n` files from `si` on, file by file. -/
def byFile (tracks : List CueTrackRef) (si n : ℕ) : List CueTrackRef :=
  (List.range' si n).flatMap fun j => tracks.filter (·.fileIndex = j)

theorem byFile_succ (tracks : List CueTrackRef) (si n : ℕ) :
    byFile tracks si (n + 1) = tracks.filter (·.fileIndex = si) ++ byFile tracks (si + 1) n := by
  simp [byFile, List.range'_succ]

/-- Tracks in the order of their files. -/
theorem byFile_eq {n si : ℕ} (hs : tracks.Pairwise (·.fileIndex ≤ ·.fileIndex))
    (hb : ∀ t ∈ tracks, si ≤ t.fileIndex ∧ t.fileIndex < si + n) : byFile tracks si n = tracks := by
  induction tracks with
  | nil => simp [byFile]
  | cons t ts ih =>
    obtain ⟨h1, h2⟩ := hb t (List.mem_cons_self ..)
    have hts := ih hs.tail fun u hu => hb u (List.mem_cons_of_mem _ hu)
    -- the files before the first track's have none of the tracks
    have hsplit : List.range' si n = List.range' si (t.fileIndex - si) ++
        t.fileIndex :: List.range' (t.fileIndex + 1) (si + n - (t.fileIndex + 1)) := by
      rw [← List.range'_succ]
      have e := @List.range'_append_1 si (t.fileIndex - si) (si + n - (t.fileIndex + 1) + 1)
      rw [show si + (t.fileIndex - si) = t.fileIndex by omega] at e
      rw [e]
      congr 1
      omega
    have hnone : ∀ us : List CueTrackRef, (∀ u ∈ us, t.fileIndex ≤ u.fileIndex) →
        ((List.range' si (t.fileIndex - si)).flatMap fun j => us.filter (·.fileIndex = j)) = [] := by
      intro us hus
      refine List.flatMap_eq_nil_iff.2 fun j hj => List.filter_eq_nil_iff.2 fun u hu => ?_
      have := hus u hu
      rw [List.mem_range'_1] at hj
      simp
      omega
    have hhead := (List.pairwise_cons.1 hs).1
    rw [byFile, hsplit, List.flatMap_append, List.flatMap_cons, hnone ts hhead] at hts
    rw [byFile, hsplit, List.flatMap_append, List.flatMap_cons, hnone (t :: ts) (by simpa using hhead)]
    have hrest : ((List.range' (t.fileIndex + 1) (si + n - (t.fileIndex + 1))).flatMap fun j =>
          (t :: ts).filter (·.fileIndex = j)) =
        (List.range' (t.fileIndex + 1) (si + n - (t.fileIndex + 1))).flatMap fun j => ts.filter (·.fileIndex = j) := by
      refine List.flatMap_congr fun j hj => ?_
      rw [List.mem_range'_1] at hj
      rw [List.filter_cons_of_neg (by simp; omega)]
    rw [hrest, List.filter_cons_of_pos (by simp)]
    simpa using hts

theorem layoutFiles_laid (segs : List BinSegment) (si : ℕ) (L : Layout) (h : Laid L) :
    Laid (layoutFiles tracks segs si L) := by
  induction segs generalizing si L with
  | nil => exact h
  | cons seg segs ih => exact ih _ _ (layoutTracks_laid _ _ _ h)

theorem layoutFiles_append (tracks : List CueTrackRef) (segs : List BinSegment) (si : ℕ) (L : Layout) :
    ∃ more, (layoutFiles tracks segs si L).spans = L.spans ++ more := by
  induction segs generalizing si L with
  | nil => exact ⟨[], (List.append_nil _).symm⟩
  | cons seg segs ih =>
    obtain ⟨more, hmore⟩ := ih (si + 1)
      (layoutTracks si seg.sectorCount (tracks.filter (·.fileIndex = si)) 0 L)
    obtain ⟨first, hfirst⟩ := layoutTracks_append si seg.sectorCount (tracks.filter (·.fileIndex = si)) 0 L
    exact ⟨first ++ more, by rw [layoutFiles, hmore, hfirst, List.append_assoc]⟩

theorem layoutFiles_sectors (segs : List BinSegment) (si : ℕ) (L : Layout) :
    (layoutFiles tracks segs si L).spans.flatMap BinSpan.sectors = L.spans.flatMap BinSpan.sectors ++
      (segs.zipIdx si).flatMap fun s => (List.range s.1.sectorCount).map fun x => (s.2, x) := by
  induction segs generalizing si L with
  | nil => simp [layoutFiles]
  | cons seg segs ih =>
    rw [layoutFiles, ih, layoutTracks_sectors _ _ _ (Nat.zero_le _)]
    simp [List.range_eq_range']

theorem layoutFiles_gaps (segs : List BinSegment) (si : ℕ) (L : Layout) :
    gaps (layoutFiles tracks segs si L).spans =
      gaps L.spans + ((byFile tracks si segs.length).map fun p => p.pregap + p.postgap).sum := by
  induction segs generalizing si L with
  | nil => simp [layoutFiles, byFile]
  | cons seg segs ih =>
    rw [layoutFiles, ih, layoutTracks_gaps, List.length_cons, byFile_succ, List.map_append, List.sum_append]
    omega

/-- The indexes of each file do not fall and stay in it. -/
def Orderly (tracks : List CueTrackRef) (segs : List BinSegment) (si : ℕ) : Prop :=
  ∀ s ∈ segs.zipIdx si, Rising s.1.sectorCount 0 (tracks.filter (·.fileIndex = s.2)) ∧
    GapsApart (tracks.filter (·.fileIndex = s.2))

theorem forall₂_right {α β : Type} {R : α → β → Prop} {l : List α} {r : List β} (h : List.Forall₂ R l r) {b : β}
    (hb : b ∈ r) : ∃ a ∈ l, R a b := by
  induction h with
  | nil => cases hb
  | cons hab _ ih =>
    rcases List.mem_cons.1 hb with rfl | hb
    · exact ⟨_, List.mem_cons_self .., hab⟩
    · obtain ⟨a, ha, h⟩ := ih hb
      exact ⟨a, List.mem_cons_of_mem _ ha, h⟩

structure FilesPlaced (before after : Layout) (ps : List CueTrackRef) (ts : List CDTrack) : Prop where
  tracks : after.tracks = before.tracks ++ ts
  placed : List.Forall₂ (Placed after.spans) ps ts
  ordered : ts.Pairwise fun a b => a.startLba ≤ b.pregapLba
  bound : ∀ t ∈ ts, before.disc ≤ t.pregapLba

theorem layoutFiles_placed {segs : List BinSegment} {si : ℕ} {L : Layout} (hL : Laid L)
    (hext : extent (layoutFiles tracks segs si L).spans < 2 ^ 32) (ho : Orderly tracks segs si) :
    ∃ ts, FilesPlaced L (layoutFiles tracks segs si L) (byFile tracks si segs.length) ts := by
  induction segs generalizing si L with
  | nil => exact ⟨[], by simp [layoutFiles], .nil, .nil, by simp⟩
  | cons seg segs ih =>
    rw [layoutFiles] at hext ⊢
    rw [List.length_cons, byFile_succ]
    obtain ⟨hrise, hgap⟩ := ho (seg, si) (by simp)
    have hmid : Laid (layoutTracks si seg.sectorCount (tracks.filter (·.fileIndex = si)) 0 L) :=
      layoutTracks_laid _ _ _ hL
    obtain ⟨more, hmore⟩ := layoutFiles_append tracks segs (si + 1)
      (layoutTracks si seg.sectorCount (tracks.filter (·.fileIndex = si)) 0 L)
    have hext' : extent (layoutTracks si seg.sectorCount (tracks.filter (·.fileIndex = si)) 0 L).spans < 2 ^ 32 := by
      rw [hmore, extent_append] at hext
      omega
    have hle := extent_layoutTracks si seg.sectorCount (tracks.filter (·.fileIndex = si)) 0 L
    have hd0 := hL.disc_eq (by omega)
    have hd1 := hmid.disc_eq hext'
    obtain ⟨ts, hts⟩ := layoutTracks_placed hL hext' hrise hgap (by simp)
    obtain ⟨us, hus⟩ := ih hmid hext fun s hs => ho s (by simp [hs])
    refine ⟨ts ++ us, ?_, ?_, ?_, ?_⟩
    · rw [hus.tracks, hts.tracks, List.append_assoc]
    · refine List.rel_append (hts.placed.imp fun p t h => ?_) hus.placed
      rw [hmore]
      exact h.append more
    · refine List.pairwise_append.2 ⟨hts.ordered, hus.ordered, fun t ht u hu => ?_⟩
      obtain ⟨p, -, hp⟩ := forall₂_right hts.placed ht
      have := hp.start.lt hmid hext'
      have := hus.bound u hu
      omega
    · intro t ht
      rcases List.mem_append.1 ht with ht | ht
      · have := hts.bound t ht 0 (le_refl 0) fun q _ => Nat.zero_le _
        omega
      · have := hus.bound t ht
        omega

end Files

/-! ## Sheets -/

theorem setPostgap_files (gap : ℕ) (number : ℤ) (tracks : List CueTrackRef) :
    (setPostgap gap number tracks).map (·.fileIndex) = tracks.map (·.fileIndex) := by
  unfold setPostgap
  split
  · next t ht =>
    split_ifs
    · have hne : tracks ≠ [] := by
        rintro rfl
        simp at ht
      have hlast : tracks.getLast hne = t := by
        rwa [List.getLast?_eq_some_getLast hne, Option.some.injEq] at ht
      conv_rhs => rw [← List.dropLast_append_getLast hne, hlast]
      simp
    · rfl
  · rfl

/-- The tracks stand in the order of their files. -/
structure CueState.Sorted (s : CueState) : Prop where
  sorted : (s.tracks.map (·.fileIndex)).Pairwise (· ≤ ·)
  bound : ∀ i ∈ s.tracks.map (·.fileIndex), i < s.files.length

theorem CueState.Sorted.line {s : CueState} (h : s.Sorted) (l : CueLine) : (s.line l).Sorted := by
  cases l with
  | file binary =>
    refine ⟨h.sorted, fun i hi => (h.bound i hi).trans_le ?_⟩
    simp [CueState.line]
  | track number audio sectorSize => exact ⟨h.sorted, h.bound⟩
  | pregap mm ss ff =>
    simp only [CueState.line]
    split_ifs <;> exact ⟨h.sorted, h.bound⟩
  | postgap mm ss ff =>
    simp only [CueState.line]
    split_ifs
    · exact ⟨by simpa only [setPostgap_files] using h.sorted, by simpa only [setPostgap_files] using h.bound⟩
    · exact h
  | index idx mm ss ff =>
    simp only [CueState.line]
    split_ifs with hopen
    · exact ⟨h.sorted, h.bound⟩
    · exact h
    · have hpos := List.length_pos_of_ne_nil hopen.2
      refine ⟨?_, fun i hi => ?_⟩
      · simp only [List.map_append, List.map_cons, List.map_nil]
        refine List.pairwise_append.2 ⟨h.sorted, List.pairwise_singleton .., fun i hi j hj => ?_⟩
        have := h.bound i hi
        rw [List.mem_singleton.1 hj]
        omega
      · simp only [List.map_append, List.map_cons, List.map_nil, List.mem_append, List.mem_singleton] at hi
        rcases hi with hi | rfl
        · exact h.bound i hi
        · dsimp only
          omega
    · exact h
  | other => exact h

theorem parseCueSheet_sorted (lines : List CueLine) : (parseCueSheet lines).Sorted := by
  have step : ∀ (ls : List CueLine) (s : CueState), s.Sorted → (ls.foldl CueState.line s).Sorted := by
    intro ls
    induction ls with
    | nil => exact fun s h => h
    | cons l ls ih => exact fun s h => ih _ (h.line l)
  exact step lines .init ⟨.nil, by simp [CueState.init]⟩

/-- The whole sectors of a file. -/
def BinSegment.wholeSectors (seg : BinSegment) : ℕ :=
  seg.contents.length / if seg.raw then rawSectorSize else sectorSize

theorem openFiles_spec {tracks : List CueTrackRef} {file : ℕ → Option (List Byte)} {n si : ℕ}
    {segs : List BinSegment} (h : openFiles tracks file n si = some segs) :
    segs.length = n ∧ ∀ s ∈ segs.zipIdx si, file s.2 = some s.1.contents ∧
      storedFileIsRaw s.1.contents (cueDeclaredSectorSize s.2 tracks 0) = some s.1.raw ∧
      s.1.sectorCount = u32 s.1.wholeSectors := by
  induction n generalizing si segs with
  | zero =>
    obtain rfl : [] = segs := by simpa [openFiles] using h
    simp
  | succ n ih =>
    simp only [openFiles, Option.bind_eq_bind, Option.bind_eq_some_iff] at h
    obtain ⟨contents, hfile, h⟩ := h
    split_ifs at h with hempty
    simp only [Option.bind_eq_some_iff, Option.pure_def, Option.some.injEq] at h
    obtain ⟨raw, hraw, rest, hrest, rfl⟩ := h
    obtain ⟨hlen, hall⟩ := ih hrest
    refine ⟨by simp [hlen], fun s hs => ?_⟩
    rw [List.zipIdx_cons, List.mem_cons] at hs
    rcases hs with rfl | hs
    · exact ⟨hfile, hraw, rfl⟩
    · exact hall s hs

theorem extent_eq (spans : List BinSpan) : extent spans = (spans.flatMap BinSpan.sectors).length + gaps spans := by
  induction spans with
  | nil => rfl
  | cons s ss ih =>
    have hs : s.sectorCount = s.sectors.length + if s.segment = none then s.sectorCount else 0 := by
      unfold BinSpan.sectors
      cases s.segment <;> simp
    have h1 : extent (s :: ss) = s.sectorCount + extent ss := rfl
    have h2 : gaps (s :: ss) = (if s.segment = none then s.sectorCount else 0) + gaps ss := rfl
    rw [h1, h2, List.flatMap_cons, List.length_append, ih]
    omega

/-- The gaps of a sheet, before and behind its tracks. -/
def gapSectors (tracks : List CueTrackRef) : ℕ := (tracks.map fun p => p.pregap + p.postgap).sum

/-- Each stored sector is on the disc once, in the order of the files, and nothing else but the gaps. -/
structure Disc.Lossless (d : Disc) (tracks : List CueTrackRef) : Prop where
  nonempty : ∀ s ∈ d.spans, 0 < s.sectorCount
  tiles : Tiles 0 d.spans d.sectorCount
  stored : d.spans.flatMap BinSpan.sectors =
    d.segments.zipIdx.flatMap fun s => (List.range s.1.wholeSectors).map fun x => (s.2, x)
  gaps : gaps d.spans = gapSectors tracks

/-- The tracks start where their files say. -/
structure Disc.Starts (d : Disc) (tracks : List CueTrackRef) : Prop where
  read : ∀ p ∈ tracks, d.readSector (d.trackStartLba p.number) =
    d.segments[p.fileIndex]?.bind fun seg => seg.userData p.index01
  readRaw : ∀ p ∈ tracks, d.readRawSector (d.trackStartLba p.number) =
    d.segments[p.fileIndex]?.bind fun seg =>
      if seg.raw then readAt seg.contents (p.index01 * rawSectorSize) rawSectorSize else none
  pregap : ∀ p ∈ tracks, d.trackPregapLba p.number ≤ d.trackStartLba p.number

/-- And they do so in order. -/
structure Disc.InOrder (d : Disc) (tracks : List CueTrackRef) : Prop extends d.Starts tracks where
  ordered : ∀ p ∈ tracks, ∀ q ∈ tracks, p.number ≤ q.number →
    d.trackStartLba p.number ≤ d.trackStartLba q.number ∧ d.trackPregapLba p.number ≤ d.trackPregapLba q.number

section Entries
variable {spans : List BinSpan} {ps : List CueTrackRef} {ts : List CDTrack}

theorem find_placed (h : List.Forall₂ (Placed spans) ps ts) (hn : ps.Pairwise (·.number ≠ ·.number))
    {p : CueTrackRef} (hp : p ∈ ps) : ∃ t ∈ ts, ts.find? (·.number = p.number) = some t ∧ Placed spans p t := by
  induction h with
  | nil => cases hp
  | @cons p' t' ps ts h _ ih =>
    rcases List.mem_cons.1 hp with rfl | hp
    · exact ⟨t', List.mem_cons_self .., List.find?_cons_of_pos (by simp [h.number]), h⟩
    · obtain ⟨t, ht, hfind, hpt⟩ := ih hn.tail hp
      have hne := (List.pairwise_cons.1 hn).1 p hp
      refine ⟨t, List.mem_cons_of_mem _ ht, ?_, hpt⟩
      rw [List.find?_cons_of_neg (by simp [h.number, hne])]
      exact hfind

theorem find_ordered (h : List.Forall₂ (Placed spans) ps ts) (hn : ps.Pairwise (·.number < ·.number))
    (ho : ts.Pairwise fun a b => a.startLba ≤ b.pregapLba) {p q : CueTrackRef} (hp : p ∈ ps) (hq : q ∈ ps)
    (hlt : p.number < q.number) {t u : CDTrack} (ht : ts.find? (·.number = p.number) = some t)
    (hu : ts.find? (·.number = q.number) = some u) : t.startLba ≤ u.pregapLba := by
  induction h with
  | nil => cases hp
  | @cons p' t' ps ts h hrest ih =>
    have hhead := (List.pairwise_cons.1 hn).1
    rcases List.mem_cons.1 hq with rfl | hq
    · rcases List.mem_cons.1 hp with rfl | hp
      · omega
      · have := hhead p hp
        omega
    · have hqn := hhead q hq
      rw [List.find?_cons_of_neg (by simp [h.number]; omega)] at hu
      rcases List.mem_cons.1 hp with rfl | hp
      · rw [List.find?_cons_of_pos (by simp [h.number]), Option.some.injEq] at ht
        rw [← ht]
        exact (List.pairwise_cons.1 ho).1 u (List.mem_of_find?_eq_some hu)
      · have hpn := hhead p hp
        rw [List.find?_cons_of_neg (by simp [h.number]; omega)] at ht
        exact ih hn.tail ho.tail hp hq ht hu

end Entries

/-- A stored sector is read through its span. -/
theorem Disc.spanForLba_stored {d : Disc} {hi si x lba : ℕ} (ht : Tiles 0 d.spans hi) (h : Stored d.spans si x lba) :
    ∃ s, d.spanForLba lba = some s ∧ s.segment = some si ∧ s.fileSector + (lba - s.discStart) = x := by
  obtain ⟨s, hs, hseg, h1, h2, h3⟩ := h
  exact ⟨s, ht.find hs h1 h2, hseg, h3⟩

section Starts
variable {d : Disc} {ps : List CueTrackRef} {hi : ℕ}

/-- The entry that a number finds. -/
theorem Disc.entry_placed (h : List.Forall₂ (Placed d.spans) ps d.tracks) (hn : ps.Pairwise (·.number ≠ ·.number))
    {p : CueTrackRef} (hp : p ∈ ps) : ∃ t, d.tracks.find? (·.number = p.number) = some t ∧ Placed d.spans p t ∧
      d.trackStartLba p.number = t.startLba ∧ d.trackPregapLba p.number = t.pregapLba := by
  obtain ⟨t, -, hf, hpt⟩ := find_placed h hn hp
  exact ⟨t, hf, hpt, by simp [Disc.trackStartLba, hf], by simp [Disc.trackPregapLba, hf]⟩

theorem Disc.starts (htiles : Tiles 0 d.spans hi) (h : List.Forall₂ (Placed d.spans) ps d.tracks)
    (hn : ps.Pairwise (·.number ≠ ·.number)) : d.Starts ps := by
  refine ⟨fun p hp => ?_, fun p hp => ?_, fun p hp => ?_⟩
  all_goals obtain ⟨t, -, hpt, hs, hg⟩ := entry_placed h hn hp
  · obtain ⟨s, hfound, hseg, hx⟩ := Disc.spanForLba_stored htiles hpt.start
    rw [hs, Disc.readSector, hfound]
    simp only [hseg, hx]
  · obtain ⟨s, hfound, hseg, hx⟩ := Disc.spanForLba_stored htiles hpt.start
    rw [hs, Disc.readRawSector, hfound]
    simp only [hseg, hx]
  · rw [hs, hg]
    exact hpt.pregap

theorem Disc.inOrder (htiles : Tiles 0 d.spans hi) (h : List.Forall₂ (Placed d.spans) ps d.tracks)
    (hn : ps.Pairwise (·.number < ·.number)) (ho : d.tracks.Pairwise fun a b => a.startLba ≤ b.pregapLba) :
    d.InOrder ps := by
  have hne : ps.Pairwise (·.number ≠ ·.number) := hn.imp ne_of_lt
  refine ⟨Disc.starts htiles h hne, fun p hp q hq hpq => ?_⟩
  obtain ⟨t, ht, hpt, hs, hg⟩ := entry_placed h hne hp
  obtain ⟨u, hu, hqu, hs', hg'⟩ := entry_placed h hne hq
  rw [hs, hg, hs', hg']
  rcases hpq.lt_or_eq with hlt | heq
  · have := find_ordered h hn ho hp hq hlt ht hu
    have := hpt.pregap
    have := hqu.pregap
    omega
  · obtain rfl : t = u := by
      rw [heq, hu, Option.some.injEq] at ht
      exact ht.symm
    exact ⟨le_refl _, le_refl _⟩

end Starts

theorem sum_zipIdx (segs : List BinSegment) (si : ℕ) :
    ((segs.zipIdx si).flatMap fun s => (List.range s.1.wholeSectors).map fun x => (s.2, x)).length =
      (segs.map BinSegment.wholeSectors).sum := by
  induction segs generalizing si with
  | nil => rfl
  | cons seg segs ih => simp [ih]

theorem cue_layout_lossless (lines : List CueLine) (file : ℕ → Option (List Byte)) (d : Disc)
    (hopen : openCue lines file = some d)
    (htotal : (d.segments.map BinSegment.wholeSectors).sum + gapSectors (parseCueSheet lines).tracks < 2 ^ 32) :
    d.Lossless (parseCueSheet lines).tracks ∧
    (Orderly (parseCueSheet lines).tracks d.segments 0 →
      ((parseCueSheet lines).tracks.Pairwise (·.number ≠ ·.number) → d.Starts (parseCueSheet lines).tracks) ∧
      ((parseCueSheet lines).tracks.Pairwise (·.number < ·.number) → d.InOrder (parseCueSheet lines).tracks)) := by
  have hsorted := parseCueSheet_sorted lines
  simp only [openCue, Option.bind_eq_bind] at hopen
  split_ifs at hopen with hfiles
  rw [Option.bind_eq_some_iff] at hopen
  obtain ⟨segs, hsegs, hd⟩ := hopen
  obtain ⟨hlen, hspec⟩ := openFiles_spec hsegs
  revert hsegs hspec hlen hd hsorted htotal
  generalize parseCueSheet lines = sheet
  intro htotal hsorted hsegs hd hlen hspec
  have hby : byFile sheet.tracks 0 segs.length = sheet.tracks := by
    refine byFile_eq (List.pairwise_map.1 hsorted.sorted) fun t ht => ⟨Nat.zero_le _, ?_⟩
    rw [hlen, Nat.zero_add]
    exact hsorted.bound _ (List.mem_map_of_mem ht)
  have hL0 : Laid ⟨0, [], []⟩ := ⟨by simp, fun _ => rfl⟩
  have hL := @layoutFiles_laid sheet.tracks segs 0 _ hL0
  have hgaps : gaps (layoutFiles sheet.tracks segs 0 ⟨0, [], []⟩).spans = gapSectors sheet.tracks := by
    rw [layoutFiles_gaps, hby]
    simp [gaps, gapSectors]
  obtain rfl := Option.some.inj hd
  dsimp only at htotal
  have hcount : ∀ s ∈ segs.zipIdx, s.1.sectorCount = s.1.wholeSectors := by
    intro s hs
    have hle := List.single_le_sum (fun _ _ => Nat.zero_le _) _
      (List.mem_map_of_mem (f := BinSegment.wholeSectors) (List.fst_mem_of_mem_zipIdx hs))
    rw [(hspec s hs).2.2]
    exact Nat.mod_eq_of_lt (by omega)
  have hstored : (layoutFiles sheet.tracks segs 0 ⟨0, [], []⟩).spans.flatMap BinSpan.sectors =
      segs.zipIdx.flatMap fun s => (List.range s.1.wholeSectors).map fun x => (s.2, x) := by
    rw [layoutFiles_sectors]
    refine List.flatMap_congr fun s hs => ?_
    rw [hcount s hs]
  have hext : extent (layoutFiles sheet.tracks segs 0 ⟨0, [], []⟩).spans < 2 ^ 32 := by
    rw [extent_eq, hstored, hgaps, sum_zipIdx]
    exact htotal
  have htiles := hL.tiles hext
  refine ⟨⟨hL.pos, htiles, hstored, hgaps⟩, fun ho => ?_⟩
  obtain ⟨ts, hts⟩ := layoutFiles_placed hL0 hext ho
  have htracks : (layoutFiles sheet.tracks segs 0 ⟨0, [], []⟩).tracks = ts := hts.tracks
  rw [hby] at hts
  rw [htracks]
  by_cases hnil : ts = []
  · have hplaced := hts.placed
    rw [hnil, List.forall₂_nil_right_iff] at hplaced
    rw [hplaced]
    have hstarts (d : Disc) : d.Starts [] := by constructor <;> simp
    exact ⟨fun _ => hstarts _, fun _ => ⟨hstarts _, by simp⟩⟩
  · rw [if_neg hnil]
    exact ⟨Disc.starts htiles hts.placed, fun hn => Disc.inOrder htiles hts.placed hn hts.ordered⟩

/-! ### Two tracks that start together -/

def filled (n : ℕ) : List Byte := List.replicate (n * sectorSize) 1

def oneFile (n : ℕ) : ℕ → Option (List Byte) := fun si => if si = 0 then some (filled n) else none

/-- A track, and one that starts with it behind a pregap. -/
def touchingSheet : List CueLine :=
  [.file (some true), .track 1 false 2048, .index 1 0 0 0, .track 2 false 2048, .pregap 0 0 1, .index 1 0 0 0]

/-- The second track before the first. -/
def swappedSheet : List CueLine :=
  [.file (some true), .track 2 false 2048, .index 1 0 0 0, .track 1 false 2048, .index 1 0 0 1]

/-- Two tracks with pregaps, one in the file as well, and a postgap. -/
def plainSheet : List CueLine :=
  [.file (some true), .track 1 false 2048, .pregap 0 2 0, .index 1 0 0 0, .postgap 0 0 3, .track 2 false 2048,
    .pregap 0 0 2, .index 0 0 0 1, .index 1 0 0 2]

theorem oneFile_opened {tracks : List CueTrackRef} {n : ℕ} (h : cueDeclaredSectorSize 0 tracks 0 = some 2048)
    (hpos : 0 < n) (hn : n < 2 ^ 32) : openFiles tracks (oneFile n) 1 0 = some [⟨filled n, false, n⟩] := by
  have hlen : (filled n).length = n * sectorSize := List.length_replicate
  have hne : filled n ≠ [] := List.ne_nil_of_length_pos (by rw [hlen]; exact Nat.mul_pos hpos (by decide))
  have hraw : storedFileIsRaw (filled n) (some 2048) = some false := rfl
  have hwhole : u32 (n * sectorSize / sectorSize) = n := by
    rw [Nat.mul_div_cancel n (by decide)]
    exact Nat.mod_eq_of_lt hn
  simp only [openFiles, oneFile, if_true, Option.bind_eq_bind, Option.bind_some, if_neg hne, h, hraw, hlen,
    Option.pure_def, Bool.false_eq_true, if_false, hwhole]

theorem openCue_oneFile {lines : List CueLine} {n : ℕ} (hf : (parseCueSheet lines).files = [true])
    (h : cueDeclaredSectorSize 0 (parseCueSheet lines).tracks 0 = some 2048) (hpos : 0 < n) (hn : n < 2 ^ 32) :
    openCue lines (oneFile n) =
      let L := layoutFiles (parseCueSheet lines).tracks [⟨filled n, false, n⟩] 0 ⟨0, [], []⟩
      some ⟨[⟨filled n, false, n⟩], L.spans, if L.tracks = [] then [⟨1, false, 0, 0⟩] else L.tracks, L.disc⟩ := by
  simp only [openCue, hf]
  rw [if_neg (by simp)]
  simp only [List.length_singleton, oneFile_opened h hpos hn]
  rfl

theorem touching_tracks_misplaced :
    (∃ d, openCue touchingSheet (oneFile 1) = some d ∧
      (∀ s ∈ d.segments.zipIdx,
        Rising s.1.sectorCount 0 ((parseCueSheet touchingSheet).tracks.filter (·.fileIndex = s.2))) ∧
      d.readSector (d.trackStartLba 1) = some (List.replicate sectorSize 0) ∧
      (d.segments[0]?.bind fun seg => seg.userData 0) = some (filled 1)) ∧
    (∃ d, openCue swappedSheet (oneFile 2) = some d ∧
      (∀ s ∈ d.segments.zipIdx,
        Rising s.1.sectorCount 0 ((parseCueSheet swappedSheet).tracks.filter (·.fileIndex = s.2))) ∧
      d.trackStartLba 2 < d.trackStartLba 1) := by
  refine ⟨⟨_, openCue_oneFile rfl rfl (by decide) (by decide), ?_, rfl, ?_⟩,
    ⟨_, openCue_oneFile rfl rfl (by decide) (by decide), ?_, by decide⟩⟩
  · intro s hs
    obtain rfl : s = (⟨filled 1, false, 1⟩, 0) := by simpa using hs
    exact ⟨by decide, by decide, by decide, by decide, by decide, by decide, trivial⟩
  · simp only [List.getElem?_cons_zero, Option.bind_some, BinSegment.userData, Bool.false_eq_true, if_false, readAt,
      Nat.zero_mul, List.drop_zero]
    rw [List.take_of_length_le (by simp [filled]), if_pos (by simp [filled])]
  · intro s hs
    obtain rfl : s = (⟨filled 2, false, 2⟩, 0) := by simpa using hs
    exact ⟨by decide, by decide, by decide, by decide, by decide, by decide, trivial⟩

theorem cue_layout_lossless_plain :
    ∃ d, openCue plainSheet (oneFile 3) = some d ∧ d.Lossless (parseCueSheet plainSheet).tracks ∧
      d.InOrder (parseCueSheet plainSheet).tracks := by
  refine ⟨_, openCue_oneFile rfl rfl (by decide) (by decide), ?_⟩
  obtain ⟨h1, h2⟩ := cue_layout_lossless plainSheet (oneFile 3) _
    (openCue_oneFile rfl rfl (by decide) (by decide)) (by
      have hlen : (filled 3).length = 3 * sectorSize := by simp [filled]
      have hgaps : gapSectors (parseCueSheet plainSheet).tracks = 155 := rfl
      simp only [List.map_cons, List.map_nil, List.sum_cons, List.sum_nil, BinSegment.wholeSectors, hlen, hgaps,
        Bool.false_eq_true, if_false]
      decide)
  refine ⟨h1, (h2 fun s hs => ?_).2 (by decide)⟩
  obtain rfl : s = (⟨filled 3, false, 3⟩, 0) := by simpa using hs
  constructor
  · exact ⟨by decide, by decide, by decide, by decide, by decide, by decide, trivial⟩
  · exact List.isChain_pair.2 (by decide)

end PsxRecomp.CueLayout
