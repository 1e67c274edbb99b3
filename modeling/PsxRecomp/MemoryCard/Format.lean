import Mathlib
import PsxRecomp.Library.MemoryEdit

/-! The raw memory card: 128 KiB in sixteen blocks of 8 KiB, a directory of 128-byte frames in the
first block, and one checksum byte a frame. Reading a card follows every head frame through its next
pointers; the pointers and states may hold any bytes. -/
namespace PsxRecomp.MemoryCard
open MemoryEdit
set_option autoImplicit false

/-! ## Bytes -/

def cardSize : ℕ := 131072
def blockSize : ℕ := 8192
def frameSize : ℕ := 128

abbrev Bytes := List UInt8

/-- What a `const uint8_t*` sees. -/
abbrev Pointer := Memory UInt8

def dataOf (b : Bytes) : Pointer := fun n => b.getD n 0

/-- The first `n` bytes behind a pointer. -/
def bytesOf (n : ℕ) (p : Pointer) : Bytes := (List.range n).map p

theorem dataOf_bytesOf_lt {n i : ℕ} (p : Pointer) (h : i < n) : dataOf (bytesOf n p) i = p i := by
  simp [dataOf, bytesOf, List.getD_eq_getElem?_getD, h]

theorem dataOf_bytesOf {n : ℕ} {p : Pointer} (h : ∀ i, n ≤ i → p i = 0) :
    dataOf (bytesOf n p) = p := by
  funext i
  by_cases hi : i < n
  · exact dataOf_bytesOf_lt p hi
  · simp [dataOf, bytesOf, List.getD_eq_getElem?_getD, hi, h i (by omega)]

theorem dataOf_beyond {b : Bytes} {i : ℕ} (h : b.length ≤ i) : dataOf b i = 0 := by
  unfold dataOf
  rw [List.getD_eq_getElem?_getD, List.getElem?_eq_none h]
  rfl

def u16 (p : Pointer) : ℕ := (p 0).toNat + 256 * (p 1).toNat

def u32 (p : Pointer) : ℕ :=
  (p 0).toNat + 256 * (p 1).toNat + 65536 * (p 2).toNat + 16777216 * (p 3).toNat

def put16 (v : ℕ) (p : Pointer) : Pointer := fun n =>
  if n = 0 then UInt8.ofNat v else if n = 1 then UInt8.ofNat (v / 256) else p n

def put32 (v : ℕ) (p : Pointer) : Pointer := fun n =>
  if n < 4 then UInt8.ofNat (v / 256 ^ n) else p n

def checksum (p : Pointer) : UInt8 := (List.range 127).foldl (fun v n => v ^^^ p n) 0

def sealFrame (p : Pointer) : Pointer := fun n => if n = 127 then checksum p else p n

def fill (len : ℕ) (p : Pointer) : Pointer := fun n => if n < len then 0 else p n

def copyFrom (b : Bytes) (p : Pointer) : Pointer := fun n => if n < b.length then dataOf b n else p n

def frame (p : Pointer) (b : ℕ) : Pointer := shift p (b * frameSize)

/-- The bytes of one block, `blockSize` of them. -/
def blockData (p : Pointer) (b : ℕ) : Bytes :=
  bytesOf blockSize (shift p (b * blockSize))

theorem dataOf_blockData (p : Pointer) (b i : ℕ) (hi : i < blockSize) :
    dataOf (blockData p b) i = p (b * blockSize + i) := by
  rw [blockData, dataOf_bytesOf_lt _ hi, shift]

def freeState (n : ℕ) : Bool := 0xa0 ≤ n && n ≤ 0xa3

def activeState (n : ℕ) : Bool := 0x51 ≤ n && n ≤ 0x53

/-! ## Saves -/

/-- Sixteen by sixteen pixels, RGBA with red in the least significant byte. -/
abbrev Icon := Fin 256 → UInt32

structure Save where
  name : Bytes
  region : String
  titleSjis : Bytes
  data : Bytes
  directory : Fin 128 → UInt8
  blocks : List ℕ
  icons : List Icon

structure Card where
  image : Bytes := List.replicate cardSize 0
  saves : List Save := []
  errors : List String := []
  warnings : List String := []
  occupied : Fin 15 → Bool := fun _ => false
  freeBlocks : ℕ := 0

def Card.valid (c : Card) : Bool := c.errors.isEmpty

def Card.editable (c : Card) : Bool := c.valid && c.warnings.isEmpty

def directoryData (s : Save) : Pointer := fun n => if h : n < 128 then s.directory ⟨n, h⟩ else 0

/-- The bytes of the name field before its first zero, at most 21 of them. -/
def nameField (p : Pointer) : Bytes :=
  ((List.range 21).map (shift p 10)).takeWhile (· ≠ 0)

def filename (p : Pointer) : Except String Bytes :=
  let name := nameField p
  if name.length = 0 ∨ name.length > 20 then .error "Invalid PS1 file name length"
  else if name.any fun c => c < 32 || c > 126 then .error "Non-ASCII PS1 file name"
  else .ok name

def regionOf (name : Bytes) : String :=
  if [0x42, 0x41].isPrefixOf name then "America (file prefix)"
  else if [0x42, 0x45].isPrefixOf name then "Europe (file prefix)"
  else if [0x42, 0x49].isPrefixOf name then "Japan (file prefix)"
  else "Unknown"

/-- A colour of five bits scaled to eight. -/
def scale (v : ℕ) : UInt32 := UInt32.ofNat ((v * 255 + 15) / 31)

def pixel (c : ℕ) : UInt32 :=
  scale (c % 32) ||| (scale (c / 32 % 32) <<< 8) ||| (scale (c / 1024 % 32) <<< 16) |||
    (if c ≠ 0 then 0xff000000 else 0)

def iconFrame (p : Pointer) (f : ℕ) : Icon := fun i =>
  let pair := (p (128 * (f + 1) + i / 2)).toNat
  let idx := pair / 16 ^ (i.val % 2) % 16
  pixel (u16 (shift p (96 + idx * 2)))

/-- The title and icon header a save must start with. -/
def presentable (data : Bytes) : Bool :=
  512 ≤ data.length && dataOf data 0 = 0x53 && dataOf data 1 = 0x43 &&
    0x11 ≤ dataOf data 2 && dataOf data 2 ≤ 0x13

/-- The save with its region, its title, and its icons appended to those it has. -/
def presented (s : Save) : Save :=
  let p := dataOf s.data
  { s with
    region := regionOf s.name
    titleSjis := ((List.range 64).map (shift p 4)).takeWhile (· ≠ 0)
    icons := s.icons ++ (List.range ((p 2).toNat - 0x10)).map (iconFrame p) }

def presentation (s : Save) : Except String Save :=
  if presentable s.data = false then .error "Unsupported or damaged save title/icon header"
  else .ok (presented s)

/-! ## One chain of blocks -/

def state (p : Pointer) (b : ℕ) : ℕ := u32 (frame p b)

def nextPointer (p : Pointer) (b : ℕ) : ℕ := u16 (shift (frame p b) 8)

/-- The state of the walk: the block to visit, the blocks claimed on the whole card, and what the
save has so far. -/
structure Chain where
  block : ℕ
  owned : Finset ℕ
  blocks : List ℕ
  data : Bytes

/-- One pass of the loop throws, breaks or goes on. -/
inductive Pass where
  | thrown (owned : Finset ℕ) (what : String)
  | done (c : Chain)
  | more (c : Chain)

def Chain.claim (p : Pointer) (c : Chain) : Chain :=
  { c with
    owned := insert c.block c.owned
    blocks := c.blocks ++ [c.block]
    data := c.data ++ blockData p c.block }

def continuationState (next : ℕ) : ℕ := if next = 0xffff then 0x53 else 0x52

def chainPass (p : Pointer) (c : Chain) : Pass :=
  if c.block < 1 ∨ 15 < c.block ∨ c.block ∈ c.owned then
    .thrown c.owned "Cyclic or shared block chain"
  else if c.blocks = [] ∧ state p c.block ≠ 0x51 then
    .thrown (c.claim p).owned "Invalid chain head"
  else if c.blocks ≠ [] ∧ state p c.block ≠ continuationState (nextPointer p c.block) then
    .thrown (c.claim p).owned "Invalid chain continuation"
  else if nextPointer p c.block = 0xffff then .done (c.claim p)
  else if nextPointer p c.block > 14 then
    .thrown (c.claim p).owned "Block pointer outside card"
  else .more { c.claim p with block := nextPointer p c.block + 1 }

def unclaimed (c : Chain) : Finset ℕ := Finset.Icc 1 15 \ c.owned

theorem chainPass_more {p : Pointer} {c c' : Chain} (h : chainPass p c = .more c') :
    (unclaimed c').card < (unclaimed c).card := by
  unfold chainPass at h
  split_ifs at h with hbad
  rw [Pass.more.injEq] at h
  subst h
  push Not at hbad
  obtain ⟨hlow, hhigh, hfresh⟩ := hbad
  apply Finset.card_lt_card
  rw [Finset.ssubset_iff_of_subset]
  · refine ⟨c.block, ?_, ?_⟩
    · rw [unclaimed, Finset.mem_sdiff, Finset.mem_Icc]
      exact ⟨⟨hlow, hhigh⟩, hfresh⟩
    · simp [unclaimed, Chain.claim]
  · apply Finset.sdiff_subset_sdiff le_rfl
    exact Finset.subset_insert _ _

/-- The loop; every pass that goes on has claimed one more of the fifteen blocks. -/
def walk (p : Pointer) (c : Chain) : Finset ℕ × Except String Chain :=
  match _h : chainPass p c with
  | .thrown owned what => (owned, .error what)
  | .done c' => (c'.owned, .ok c')
  | .more c' => walk p c'
termination_by (unclaimed c).card
decreasing_by exact chainPass_more _h

/-! ## The directory -/

/-- What survives an exception: the blocks and the names that were seen. -/
structure Seen where
  owned : Finset ℕ
  names : Finset Bytes

def startChain (owned : Finset ℕ) (head : ℕ) : Chain :=
  { block := head, owned := owned, blocks := [], data := [] }

def freshSave (p : Pointer) (head : ℕ) (name : Bytes) (blocks : List ℕ) (data : Bytes) : Save :=
  { name := name, region := "", titleSjis := [], data := data
    directory := fun n => frame p head n, blocks := blocks, icons := [] }

def readSave (p : Pointer) (seen : Seen) (head : ℕ) : Seen × Except String Save :=
  match filename (frame p head) with
  | .error what => (seen, .error what)
  | .ok name =>
    if name ∈ seen.names then (seen, .error "Duplicate PS1 file name")
    else
      let names := insert name seen.names
      let size := u32 (shift (frame p head) 4)
      if size = 0 ∨ size > 15 * blockSize ∨ size % blockSize ≠ 0 then
        ({ seen with names := names }, .error "Invalid save allocation size")
      else
        match walk p (startChain seen.owned head) with
        | (owned, .error what) => (⟨owned, names⟩, .error what)
        | (owned, .ok c) =>
          if c.data.length ≠ size then
            (⟨owned, names⟩, .error "Save size does not match block chain")
          else (⟨owned, names⟩, presentation (freshSave p head name c.blocks c.data))

structure Scan where
  seen : Seen
  saves : List Save
  errors : List String

def scanHead (p : Pointer) (s : Scan) (head : ℕ) : Scan :=
  match readSave p s.seen head with
  | (seen, .ok save) => { s with seen := seen, saves := s.saves ++ [save] }
  | (seen, .error what) =>
    { s with seen := seen, errors := s.errors ++ ["Block " ++ toString head ++ ": " ++ what] }

def scan (p : Pointer) (heads : List ℕ) (s : Scan) : Scan := heads.foldl (scanHead p) s

def slots : List ℕ := List.range' 1 15

def heads (p : Pointer) : List ℕ := slots.filter fun b => state p b = 0x51

def headerErrors (p : Pointer) : List String :=
  if p 0 ≠ 0x4d ∨ p 1 ≠ 0x43 ∨ p 127 ≠ checksum p then
    ["Invalid card header or header checksum"]
  else []

def frameErrors (p : Pointer) (b : ℕ) : List String :=
  (if frame p b 127 ≠ checksum (frame p b) then
    ["Directory checksum error at block " ++ toString b] else []) ++
  (if freeState (state p b) = false ∧ activeState (state p b) = false then
    ["Unknown allocation state at block " ++ toString b] else [])

def remapped (p : Pointer) : Bool := (List.range' 16 20).any fun f => u32 (frame p f) ≠ 0xffffffff

def remapWarnings (p : Pointer) : List String :=
  if remapped p then ["Bad-sector remapping present: read-only in this editor"] else []

def orphanErrors (p : Pointer) (owned : Finset ℕ) : List String :=
  (slots.filter fun b => activeState (state p b) ∧ b ∉ owned).map fun b =>
    "Orphan allocated block " ++ toString b

/-- `parse` behind the size check; `p` is `input.data()`. -/
def parseData (image : Bytes) (p : Pointer) : Card :=
  let scanned := scan p (heads p)
    { seen := ⟨∅, ∅⟩, saves := [], errors := headerErrors p ++ slots.flatMap (frameErrors p) }
  { image := image
    saves := scanned.saves
    errors := scanned.errors ++ orphanErrors p scanned.seen.owned
    warnings := remapWarnings p
    occupied := fun i => !freeState (state p (i + 1))
    freeBlocks := slots.countP fun b => freeState (state p b) }

def parse (input : Bytes) : Card :=
  if input.length ≠ cardSize then
    { errors := ["Only raw 128 KiB cards are supported; no automatic conversion or repair."] }
  else parseData input (dataOf input)

end PsxRecomp.MemoryCard
