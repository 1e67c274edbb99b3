import Mathlib

/-! The memory cards of the two slots and the files they are bound to. What the operating system answers to each
call on a file is part of the step. -/
namespace PsxRecomp.CardFiles
set_option autoImplicit false

-- Literals of the index type find this by name, so that a definition holds no proof of its own.
scoped instance neZero_two : NeZero 2 := ⟨by decide⟩

abbrev Byte := BitVec 8

/-- A C string, without its end. -/
abbrev Path := List Char

abbrev Files := Path → Option (List Byte)

/-- `MEMCARD_SIZE` -/
def memcardSize : ℕ := 131072

/-- `MEMCARD_EXTENSION_MAX` -/
def extensionMax : ℕ := 131072

def sectorSize : ℕ := 128

def memcardSectors : ℕ := 1024

/-- The bytes of a card. -/
structure Image where
  bytes : List Byte
  size : bytes.length = memcardSize

/-- Bytes from a position on replaced by others. -/
def Image.put (data : Image) (at_ : ℕ) (bytes : List Byte) (h : at_ + bytes.length ≤ memcardSize) : Image where
  bytes := data.bytes.take at_ ++ bytes ++ data.bytes.drop (at_ + bytes.length)
  size := by
    simp only [List.length_append, List.length_take, List.length_drop, data.size]
    omega

def zeroImage : Image := ⟨List.replicate memcardSize 0, List.length_replicate ..⟩

/-! ## A formatted card -/

/-- `frame_checksum` -/
def frameChecksum (frame : List Byte) : Byte := (frame.take 127).foldl (· ^^^ ·) 0

/-- A frame that begins with some bytes and ends with its checksum. -/
def sealedFrame (head : List Byte) : List Byte :=
  let body := (head ++ List.replicate 127 0).take 127
  body ++ [frameChecksum body]

def headerFrame : List Byte := sealedFrame [0x4D, 0x43]

def directoryFrame : List Byte := sealedFrame [0xA0, 0, 0, 0, 0, 0, 0, 0, 0xFF, 0xFF]

def brokenFrame : List Byte := sealedFrame [0xFF, 0xFF, 0xFF, 0xFF, 0, 0, 0, 0, 0xFF, 0xFF]

theorem sealedFrame_length (head : List Byte) : (sealedFrame head).length = 128 := by
  simp only [sealedFrame, List.length_append, List.length_take, List.length_replicate, List.length_singleton]
  omega

/-- `memcard_format` -/
def memcardFormat : Image where
  bytes := headerFrame ++ (List.replicate 15 directoryFrame).flatten ++ (List.replicate 20 brokenFrame).flatten ++
    List.replicate (27 * 128) 0 ++ headerFrame ++ List.replicate (960 * 128) 0xFF
  size := by
    simp only [List.length_append, List.length_replicate, List.length_flatten, List.map_replicate,
      List.sum_replicate_nat, headerFrame, directoryFrame, brokenFrame, sealedFrame_length, memcardSize]

/-! ## Cards -/

structure MemCard where
  data : Image := zeroImage
  filepath : Path := []
  present : Bool := false
  dirty : Bool := false
  extension : List Byte := []
  extensionReadFailed : Bool := false
  extensionCodecFailed : Bool := false
  flushResult : ℤ := 0

structure State where
  cards : Fin 2 → MemCard
  /-- `extension_load && extension_save` -/
  codec : Bool
  files : Files

def discardExtension (c : MemCard) : MemCard :=
  { c with extension := [], extensionReadFailed := false, extensionCodecFailed := false }

/-- `notify_extension_load` -/
def notifyExtensionLoad (codec accepts : Bool) (c : MemCard) : MemCard :=
  { c with extensionCodecFailed := codec && !accepts }

/-! ## Reading a card -/

/-- What the calls of a load answer. -/
structure Reading where
  /-- `fopen` gives a file, where there is one. -/
  opens : Bool
  /-- `some k` if reading the image fails after k bytes. -/
  imageFails : Option ℕ
  firstFails : Bool
  allocates : Bool
  tailFails : Bool
  /-- `extension_load` takes the tail. -/
  accepts : Bool

/-- `snprintf` into `filepath` -/
def clipped (path : Path) : Path := path.take 511

/-- The bytes of the image that are read. -/
def readImage (r : Reading) (contents : List Byte) : List Byte :=
  (contents.take memcardSize).take (r.imageFails.getD memcardSize)

theorem readImage_length (r : Reading) (contents : List Byte) : (readImage r contents).length ≤ memcardSize := by
  simp only [readImage, List.length_take]
  omega

/-- `load_card_image`; whether it returns 0 -/
def loadCardImage (codec : Bool) (r : Reading) (contents : List Byte) (c : MemCard) : MemCard × Bool :=
  let c := discardExtension c
  let bytes := readImage r contents
  let c := { c with data := c.data.put 0 bytes (by rw [Nat.zero_add]; exact readImage_length r contents) }
  if bytes.length ≠ memcardSize then (c, false)
  else if r.firstFails then ({ c with extensionReadFailed := true }, true)
  else match contents.drop memcardSize with
    | [] => (notifyExtensionLoad codec r.accepts c, true)
    | first :: more =>
      if r.allocates = false then ({ c with extensionReadFailed := true }, true)
      else
        let tail := first :: more.take extensionMax
        if extensionMax < tail.length ∨ r.tailFails = true then
          ({ discardExtension c with extensionReadFailed := true }, true)
        else (notifyExtensionLoad codec r.accepts { c with extension := tail }, true)

/-! ## Writing a card -/

/-- What the calls of a publication answer. -/
structure Publishing where
  created : Bool
  opened : Bool
  imageWritten : Bool
  tailWritten : Bool
  flushed : Bool
  synced : Bool
  closed : Bool
  renamed : Bool

/-- `publish_card`: the temporary file takes the card's place, or goes -/
def publishCard (o : Publishing) (path : Path) (image : Image) (tail : List Byte) (files : Files) : Files × Bool :=
  if o.created = false then (files, false)
  else if o.opened = false then (files, false)
  else
    let ok := o.imageWritten && (tail.isEmpty || o.tailWritten) && o.flushed && o.synced && o.closed && o.renamed
    if ok then (Function.update files path (some (image.bytes ++ tail)), true) else (files, false)

/-- What the calls of a flush answer. -/
structure Flushing where
  allocates : Bool
  /-- The tail that `extension_save` gives, if it returns its length. -/
  saves : Option (List Byte)
  publishing : Publishing

/-- What becomes known of a card. -/
inductive Event where
  /-- Image and tail are read, and the codec takes them. -/
  | loaded (card : Fin 2) (tail : List Byte)
  /-- The codec refuses the tail that is read. -/
  | undecoded (card : Fin 2) (tail : List Byte)
  /-- The image is read but not the tail. -/
  | unread (card : Fin 2)
  /-- The image is not read. -/
  | failed (card : Fin 2)
  /-- The card is replaced by another, without a tail. -/
  | replaced (card : Fin 2)
  /-- The slot is emptied. -/
  | emptied (card : Fin 2)
  | published (card : Fin 2) (path : Path) (image : Image) (tail : List Byte) (encoded : Bool)

/-- `memcard_flush` for a card in its slot -/
def memcardFlush (codec : Bool) (o : Flushing) (card : Fin 2) (c : MemCard) (files : Files) :
    MemCard × Files × List Event :=
  if c.dirty = false ∨ c.filepath = [] then (c, files, [])
  else if c.extensionReadFailed ∨ c.extensionCodecFailed then ({ c with flushResult := -2 }, files, [])
  else
    let publish (tail : List Byte) (encoded : Bool) :=
      match publishCard o.publishing c.filepath c.data tail files with
      | (files, true) =>
        ({ c with flushResult := 0, dirty := false, extension := tail }, files,
          [Event.published card c.filepath c.data tail encoded])
      | (files, false) => ({ c with flushResult := -1 }, files, [])
    if codec then
      if o.allocates = false then ({ c with flushResult := -1 }, files, [])
      else match o.saves with
        | none => ({ c with flushResult := -2 }, files, [])
        | some tail =>
          if extensionMax < tail.length then ({ c with flushResult := -2 }, files, []) else publish tail true
    else publish c.extension false

/-! ## Steps -/

/-- What the calls that create a card's file answer: `none` if `fopen` fails, else how many bytes of the image come to
be in the file, unless everything succeeds. -/
structure Creating where
  stored : Option ℕ
  written : Bool
  flushed : Bool
  closed : Bool
  accepts : Bool

/-- What each of the source's functions does to one slot. -/
inductive Op where
  | initSlot (card : Fin 2) (enabled : Bool) (path dir : Option Path) (r : Reading) (n : Creating)
  | writeSector (card : Fin 2) (sector : ℤ) (buf : List Byte)
  | flush (card : Fin 2) (o : Flushing)
  | importRaw (card : Fin 2) (src : Image) (accepts : Bool) (o : Flushing)
  | rebindDir (card : Fin 2) (dir : Path) (o : Flushing)
  | rebindPaths (card : Fin 2) (path : Path)
  | rebindPath (card : Fin 2) (path : Path)
  | reloadBound (card : Fin 2) (r : Reading)
  | setExtensionCodec (active : Bool)

/-- `%s/card%d.mcd` -/
def cardPath (dir : Path) (card : Fin 2) : Path :=
  clipped (dir ++ "/card".toList ++ (toString (card.val + 1)).toList ++ ".mcd".toList)

/-- What a load has told. -/
def loadEvent (card : Fin 2) (c : MemCard) : Event :=
  if c.extensionReadFailed then .unread card
  else if c.extensionCodecFailed then .undecoded card c.extension
  else .loaded card c.extension

/-- The file of a slot: the path that is asked for, else the one in the directory. -/
def slotPath (card : Fin 2) (enabled : Bool) (path dir : Option Path) : Path :=
  if enabled = false then []
  else if path.getD [] ≠ [] then clipped (path.getD [])
  else match dir with
    | some dir => cardPath dir card
    | none => []

/-- `memcard_init_slots`, for one slot; all of them are cleared first -/
def initSlot (codec : Bool) (card : Fin 2) (filepath : Path) (r : Reading) (n : Creating) (files : Files) :
    MemCard × Files × List Event :=
  if filepath = [] then ({}, files, [])
  else
    let c : MemCard := { filepath := filepath }
    match (files filepath).filter fun _ => r.opens with
    | some contents => match loadCardImage codec r contents c with
      | (c, true) => ({ c with present := true }, files, [loadEvent card c])
      | (c, false) => (c, files, [.failed card])
    | none =>
      let c := { c with data := memcardFormat }
      match n.stored with
      | none => (c, files, [.failed card])
      | some stored =>
        if n.written && n.flushed && n.closed then
          let c := notifyExtensionLoad codec n.accepts { c with present := true }
          (c, Function.update files filepath (some memcardFormat.bytes),
            [.published card filepath memcardFormat [] false, loadEvent card c])
        else (c, Function.update files filepath (some (memcardFormat.bytes.take stored)), [.failed card])

/-- `memcard_reload_bound`, for one slot -/
def reloadSlot (codec : Bool) (card : Fin 2) (r : Reading) (c : MemCard) (files : Files) : MemCard × List Event :=
  if c.filepath = [] then ({ discardExtension c with present := false, dirty := false }, [.emptied card])
  else match (files c.filepath).filter fun _ => r.opens with
    | none => ({ discardExtension c with present := false, dirty := false }, [.failed card])
    | some contents => match loadCardImage codec r contents c with
      | (c, true) => ({ c with present := true, dirty := false }, [loadEvent card c])
      | (c, false) => ({ c with present := false, dirty := false }, [.failed card])

theorem sector_fits {sector : ℤ} {buf : List Byte} (h : 0 ≤ sector ∧ sector < memcardSectors ∧ buf.length = sectorSize) :
    sector.toNat * sectorSize + buf.length ≤ memcardSize := by
  obtain ⟨h0, hlt, hlen⟩ := h
  unfold memcardSectors at hlt
  unfold sectorSize at hlen ⊢
  unfold memcardSize
  omega

namespace State

def setCard (s : State) (card : Fin 2) (c : MemCard) : State := { s with cards := Function.update s.cards card c }

/-- A slot and the files after a step on it. -/
def after (s : State) (card : Fin 2) (x : MemCard × Files × List Event) : State × List Event :=
  ({ s.setCard card x.1 with files := x.2.1 }, x.2.2)

def step (s : State) : Op → State × List Event
  | .initSlot card enabled path dir r n =>
    let (s, es) := s.after card (initSlot s.codec card (slotPath card enabled path dir) r n s.files)
    (s, .emptied card :: es)
  | .writeSector card sector buf =>
    let c := s.cards card
    if c.present = false then (s, [])
    else if h : 0 ≤ sector ∧ sector < memcardSectors ∧ buf.length = sectorSize then
      (s.setCard card { c with data := c.data.put (sector.toNat * sectorSize) buf (sector_fits h), dirty := true }, [])
    else (s, [])
  | .flush card o => s.after card (memcardFlush s.codec o card (s.cards card) s.files)
  | .importRaw card src accepts o =>
    let c := s.cards card
    if c.filepath = [] then (s, [])
    else
      let c := notifyExtensionLoad s.codec accepts (discardExtension { c with data := src })
      let x := memcardFlush s.codec o card { c with present := true, dirty := true } s.files
      let (s, es) := s.after card x
      (s, .replaced card :: loadEvent card c :: es)
  | .rebindDir card dir o =>
    let c := s.cards card
    if dir = [] ∨ (c.present = false ∧ c.filepath = []) then (s, [])
    else s.after card (memcardFlush s.codec o card { c with filepath := cardPath dir card, dirty := true } s.files)
  | .rebindPaths card path =>
    if path = [] then (s, []) else (s.setCard card { s.cards card with filepath := clipped path }, [])
  | .rebindPath card path =>
    let c := s.cards card
    if path = [] then (s.setCard card { c with filepath := [], present := false, dirty := false }, [])
    else (s.setCard card { c with filepath := clipped path }, [])
  | .reloadBound card r =>
    let x := reloadSlot s.codec card r (s.cards card) s.files
    (s.setCard card x.1, x.2)
  | .setExtensionCodec active =>
    ({ s with codec := active,
              cards := fun i => { s.cards i with extensionCodecFailed := active && (s.cards i).present } }, [])

/-- Any number of steps, and what they have told. -/
def run (s : State) : List Op → State × List Event
  | [] => (s, [])
  | op :: ops =>
    let (s', es) := s.step op
    let (s'', fs) := s'.run ops
    (s'', es ++ fs)

end State

/-- Before anything is called. -/
def start (files : Files) : State := ⟨fun _ => {}, false, files⟩

/-! ## The source's functions -/

/-- `memcard_init_slots` -/
def memcardInitSlots (dir : Option Path) (enabled : Fin 2 → Bool) (paths : Fin 2 → Option Path) (rs : Fin 2 → Reading)
    (ns : Fin 2 → Creating) : List Op :=
  [.initSlot 0 (enabled 0) (paths 0) dir (rs 0) (ns 0),
    .initSlot 1 (enabled 1) (paths 1) dir (rs 1) (ns 1)]

/-- `memcard_flush_all` -/
def memcardFlushAll (os : Fin 2 → Flushing) : List Op := [.flush 0 (os 0), .flush 1 (os 1)]

/-- `memcard_rebind_dir` -/
def memcardRebindDir (dir : Path) (os : Fin 2 → Flushing) : List Op := [.rebindDir 0 dir (os 0), .rebindDir 1 dir (os 1)]

/-- `memcard_rebind_paths` -/
def memcardRebindPaths (path0 path1 : Path) : List Op := [.rebindPaths 0 path0, .rebindPaths 1 path1]

/-- `memcard_reload_bound` -/
def memcardReloadBound (rs : Fin 2 → Reading) : List Op := [.reloadBound 0 (rs 0), .reloadBound 1 (rs 1)]

end PsxRecomp.CardFiles
