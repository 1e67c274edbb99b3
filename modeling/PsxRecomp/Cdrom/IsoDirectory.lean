import Mathlib

/-! The directories of an ISO 9660 disc: the records of an extent, as `iso_reader.cpp` lists them, with every byte it
looks at. -/
namespace PsxRecomp.IsoDirectory
set_option autoImplicit false

abbrev Byte := BitVec 8
abbrev Word := BitVec 32

abbrev Sector := Fin 2048 → Byte

/-- `ReadSector` of an open reader. -/
abbrev Disc := Word → Option Sector

def u32 (n : ℕ) : ℕ := n % 2 ^ 32

/-- `ISOFileEntry` -/
structure Entry where
  name : List Byte
  lba : Word
  size : Word
  isDirectory : Bool
  deriving DecidableEq

/-- A byte of the directory that is looked at; of a name, with the end of its record. -/
inductive Look where
  | byte (i : ℕ)
  | name (i recordEnd : ℕ)

/-! ## Records -/

section Records
variable (f : ℕ → Byte)

/-- `Read733` -/
def read733 (i : ℕ) : Word := f (i + 3) ++ f (i + 2) ++ f (i + 1) ++ f i

def recordLen (o : ℕ) : ℕ := (f o).toNat

def nameLen (o : ℕ) : ℕ := (f (o + 32)).toNat

/-- The name from `i` on, up to the version separator, and the offsets it is read at. -/
def cutName (i : ℕ) : ℕ → List Byte × List ℕ
  | 0 => ([], [])
  | n + 1 => if f i = 0x3B then ([], [i]) else (f i :: (cutName (i + 1) n).1, i :: (cutName (i + 1) n).2)

def entryAt (o : ℕ) (name : List Byte) : Entry :=
  ⟨name, read733 f (o + 2), read733 f (o + 10), f (o + 25) &&& 0x02 ≠ 0⟩

/-- The offsets of a record's fixed fields that are read. -/
def fixedLooks (o : ℕ) : List Look :=
  ([0, 2, 3, 4, 5, 10, 11, 12, 13, 25, 32].map (o + ·)).map .byte

/-- `ParseDirectoryRecord` -/
def parseDirectoryRecord (o : ℕ) : Option Entry × List Look :=
  if recordLen f o < 33 then (none, [.byte o])
  else if nameLen f o = 0 then (none, fixedLooks o)
  else if nameLen f o = 1 ∧ f (o + 33) = 0 then
    (some (entryAt f o [0x2E]), fixedLooks o ++ [.name (o + 33) (o + recordLen f o)])
  else if nameLen f o = 1 ∧ f (o + 33) = 1 then
    (some (entryAt f o [0x2E, 0x2E]), fixedLooks o ++ [.name (o + 33) (o + recordLen f o)])
  else
    (some (entryAt f o (cutName f (o + 33) (nameLen f o)).1),
      fixedLooks o ++ (cutName f (o + 33) (nameLen f o)).2.map fun i => .name i (o + recordLen f o))

def Entry.isDot (e : Entry) : Bool := e.name = [0x2E] ∨ e.name = [0x2E, 0x2E]

/-- The loop over the records of `size` bytes read, `dirSize` of them the directory's. -/
def walk (size dirSize : ℕ) : ℕ → ℕ → Option (List Entry × List Look)
  | 0, _ => none
  | fuel + 1, offset =>
    if offset < dirSize then
      if recordLen f offset = 0 then
        if offset % 2048 ≠ 0 then
          (walk size dirSize fuel (u32 (offset + (2048 - offset % 2048)))).map fun r => (r.1, .byte offset :: r.2)
        else some ([], [.byte offset])
      else if size < u32 (offset + recordLen f offset) then some ([], [.byte offset])
      else
        (walk size dirSize fuel (u32 (offset + recordLen f offset))).map fun r =>
          ((parseDirectoryRecord f offset).1.toList.filter (!·.isDot) ++ r.1,
            .byte offset :: ((parseDirectoryRecord f offset).2 ++ r.2))
    else some ([], [])

end Records

def readSectors (disc : Disc) : ℕ → Word → Option (List Byte)
  | 0, _ => some []
  | n + 1, lba => do
    let s ← disc lba
    let rest ← readSectors disc n (lba + 1)
    pure (List.ofFn s ++ rest)

/-- The directory data, followed by whatever the heap holds behind it. -/
def dataAt (dir : List Byte) (heap : ℕ → Byte) (i : ℕ) : Byte := dir.getD i (heap i)

/-- What `ListFilesByLBA` reads, if it gets that far. -/
def directoryData (disc : Disc) (lba dirSize : Word) : Option (List Byte) :=
  if lba = 0 ∨ dirSize = 0 then none else readSectors disc ((dirSize + 2047).toNat / 2048) lba

/-- `ListFilesByLBA`; `none` where its loop has not ended. -/
def listFilesByLba (disc : Disc) (heap : ℕ → Byte) (lba dirSize : Word) : Option (List Entry × List Look) :=
  match directoryData disc lba dirSize with
  | none => some ([], [])
  | some dir => walk (dataAt dir heap) dir.length dirSize.toNat (dirSize.toNat + 1) 0

theorem readSectors_length {disc : Disc} {n : ℕ} {lba : Word} {dir : List Byte}
    (h : readSectors disc n lba = some dir) : dir.length = 2048 * n := by
  induction n generalizing lba dir with
  | zero =>
    obtain rfl : [] = dir := by simpa [readSectors] using h
    rfl
  | succ n ih =>
    simp only [readSectors, Option.bind_eq_bind, Option.bind_eq_some_iff, Option.pure_def, Option.some.injEq] at h
    obtain ⟨s, -, rest, hrest, rfl⟩ := h
    rw [List.length_append, List.length_ofFn, ih hrest]
    omega

/-! ## Where the loop goes -/

section Walk
variable {f : ℕ → Byte} {size dirSize : ℕ}

/-- One turn of the loop. -/
def Next (f : ℕ → Byte) (size dirSize : ℕ) (o o' : ℕ) : Prop :=
  o < dirSize ∧
    (recordLen f o = 0 ∧ o % 2048 ≠ 0 ∧ o' = o + (2048 - o % 2048) ∨
      recordLen f o ≠ 0 ∧ o + recordLen f o ≤ size ∧ o' = o + recordLen f o)

/-- A record that is parsed. -/
def Record (f : ℕ → Byte) (size dirSize : ℕ) (o : ℕ) : Prop :=
  o < dirSize ∧ recordLen f o ≠ 0 ∧ o + recordLen f o ≤ size

/-- The name of a record ends in it, or its version separator stands in it. -/
def NameInside (f : ℕ → Byte) (o : ℕ) : Prop :=
  33 ≤ recordLen f o →
    33 + nameLen f o ≤ recordLen f o ∨ nameLen f o = 0 ∨
      ∃ j, j < nameLen f o ∧ 33 + j < recordLen f o ∧ f (o + 33 + j) = 0x3B

def Look.Safe (size : ℕ) : Look → Prop
  | .byte i => i < size
  | .name i recordEnd => i < recordEnd ∧ recordEnd ≤ size

theorem cutName_looks (i n e : ℕ) :
    (∀ k ∈ (cutName f i n).2, k < e) ↔ i + n ≤ e ∨ n = 0 ∨ ∃ j, j < n ∧ i + j < e ∧ f (i + j) = 0x3B := by
  induction n generalizing i with
  | zero => simp [cutName]
  | succ n ih =>
    rw [cutName]
    split_ifs with hsep
    · simp only [List.mem_singleton, forall_eq]
      refine ⟨fun h => .inr (.inr ⟨0, by omega, h, hsep⟩), ?_⟩
      rintro (h | h | ⟨j, hj, hlt, -⟩)
      · omega
      · exact h.elim
      · omega
    · simp only [List.mem_cons, forall_eq_or_imp, ih]
      constructor
      · rintro ⟨hi, h | h | ⟨j, hj, hlt, hs⟩⟩
        · exact .inl (by omega)
        · exact .inl (by omega)
        · exact .inr (.inr ⟨j + 1, by omega, by omega, by rwa [show i + (j + 1) = i + 1 + j by omega]⟩)
      · rintro (h | h | ⟨j, hj, hlt, hs⟩)
        · exact ⟨by omega, .inl (by omega)⟩
        · exact h.elim
        · cases j with
          | zero => exact absurd hs hsep
          | succ j =>
            exact ⟨by omega, .inr (.inr ⟨j, by omega, by omega, by rwa [show i + 1 + j = i + (j + 1) by omega]⟩)⟩

theorem fixedLooks_safe {o : ℕ} (h : o + 33 ≤ size) : ∀ l ∈ fixedLooks o, l.Safe size := by
  intro l hl
  simp only [fixedLooks, List.map_cons, List.map_nil, List.mem_cons, List.not_mem_nil, or_false] at hl
  obtain rfl | rfl | rfl | rfl | rfl | rfl | rfl | rfl | rfl | rfl | rfl := hl <;> (simp only [Look.Safe]; omega)

theorem parseDirectoryRecord_safe {o : ℕ} (h : o + recordLen f o ≤ size) (hpos : recordLen f o ≠ 0) :
    (∀ l ∈ (parseDirectoryRecord f o).2, l.Safe size) ↔ NameInside f o := by
  have hfixed : 33 ≤ recordLen f o → ∀ l ∈ fixedLooks o, l.Safe size := fun h33 => fixedLooks_safe (by omega)
  unfold parseDirectoryRecord NameInside
  split_ifs with h1 h2 h3 h4
  · simp [Look.Safe]
    omega
  · exact ⟨fun _ _ => .inr (.inl h2), fun _ => hfixed (by omega)⟩
  · simp only [List.forall_mem_append, List.mem_singleton, forall_eq, Look.Safe]
    refine ⟨fun hl _ => .inl (by omega), fun hn => ⟨hfixed (by omega), ?_, h⟩⟩
    rcases hn (by omega) with hn | hn | ⟨j, hj, hlt, -⟩ <;> omega
  · simp only [List.forall_mem_append, List.mem_singleton, forall_eq, Look.Safe]
    refine ⟨fun hl _ => .inl (by omega), fun hn => ⟨hfixed (by omega), ?_, h⟩⟩
    rcases hn (by omega) with hn | hn | ⟨j, hj, hlt, -⟩ <;> omega
  · have hcut := @cutName_looks f (o + 33) (nameLen f o) (o + recordLen f o)
    simp only [List.forall_mem_append, List.forall_mem_map, Look.Safe]
    constructor
    · rintro ⟨-, hl⟩ -
      rcases hcut.1 fun k hk => (hl k hk).1 with hn | hn | ⟨j, hj, hlt, hs⟩
      · exact .inl (by omega)
      · exact .inr (.inl hn)
      · exact .inr (.inr ⟨j, hj, by omega, hs⟩)
    · intro hn
      refine ⟨hfixed (by omega), fun k hk => ⟨hcut.2 ?_ k hk, h⟩⟩
      rcases hn (by omega) with hn | hn | ⟨j, hj, hlt, hs⟩
      · exact .inl (by omega)
      · exact .inr (.inl hn)
      · exact .inr (.inr ⟨j, hj, by omega, hs⟩)

theorem forall_reaches {o o' : ℕ} (h : Next f size dirSize o o') {P : ℕ → Prop} :
    (∀ p, Relation.ReflTransGen (Next f size dirSize) o p → P p) ↔
      P o ∧ ∀ p, Relation.ReflTransGen (Next f size dirSize) o' p → P p := by
  constructor
  · exact fun hp => ⟨hp o .refl, fun p hr => hp p (.head h hr)⟩
  · rintro ⟨ho, hp⟩ p hr
    rcases Relation.ReflTransGen.cases_head hr with rfl | ⟨q, hq, hr⟩
    · exact ho
    · have hqo : q = o' := by
        obtain ⟨-, ⟨h1, h2, rfl⟩ | ⟨h1, h2, rfl⟩⟩ := h <;> obtain ⟨-, ⟨h3, h4, rfl⟩ | ⟨h3, h4, rfl⟩⟩ := hq
        · rfl
        · exact absurd h1 h3
        · exact absurd h3 h1
        · rfl
      exact hp p (hqo ▸ hr)

theorem forall_reaches_last {o : ℕ} (h : ∀ o', ¬ Next f size dirSize o o') {P : ℕ → Prop} :
    (∀ p, Relation.ReflTransGen (Next f size dirSize) o p → P p) ↔ P o := by
  refine ⟨fun hp => hp o .refl, fun ho p hr => ?_⟩
  rcases Relation.ReflTransGen.cases_head hr with rfl | ⟨q, hq, -⟩
  · exact ho
  · exact absurd hq (h q)

/-- From `o` on, the loop ends; it looks inside the data if every name it comes to is inside its record. -/
theorem walk_spec (hsize : size ≤ 0xFFFFF800) (hdir : dirSize ≤ size) (fuel o : ℕ) (hpos : 0 < fuel)
    (hfuel : dirSize < fuel + o) :
    ∃ r, walk f size dirSize fuel o = some r ∧
      ((∀ l ∈ r.2, l.Safe size) ↔
        ∀ p, Relation.ReflTransGen (Next f size dirSize) o p → Record f size dirSize p → NameInside f p) := by
  induction fuel generalizing o with
  | zero => omega
  | succ fuel ih =>
    rw [walk]
    have hbyte : (recordLen f o) < 256 := (f o).isLt
    have hlook : o < dirSize → (Look.byte o).Safe size := fun h => h.trans_le hdir
    split_ifs with hin hzero hmid hlong
    · have hno : ¬ Record f size dirSize o := fun h => h.2.1 hzero
      have hu : u32 (o + (2048 - o % 2048)) = o + (2048 - o % 2048) := Nat.mod_eq_of_lt (by omega)
      have hnext : Next f size dirSize o (o + (2048 - o % 2048)) := ⟨hin, .inl ⟨hzero, hmid, rfl⟩⟩
      obtain ⟨r, hr, hsafe⟩ := ih (o + (2048 - o % 2048)) (by omega) (by omega)
      refine ⟨_, by rw [hu, hr, Option.map_some], ?_⟩
      rw [forall_reaches hnext, List.forall_mem_cons, hsafe]
      exact and_congr_left' ⟨fun _ h => absurd h hno, fun _ => hlook hin⟩
    · have hno : ¬ Record f size dirSize o := fun h => h.2.1 hzero
      refine ⟨_, rfl, ?_⟩
      rw [forall_reaches_last (by
        rintro o' ⟨-, ⟨-, h, -⟩ | ⟨h, -⟩⟩
        · exact hmid h
        · exact h hzero)]
      rw [List.forall_mem_singleton]
      exact ⟨fun _ h => absurd h hno, fun _ => hlook hin⟩
    · have hu : u32 (o + recordLen f o) = o + recordLen f o := Nat.mod_eq_of_lt (by omega)
      rw [hu] at hlong
      have hno : ¬ Record f size dirSize o := fun h => absurd h.2.2 (by omega)
      refine ⟨_, rfl, ?_⟩
      rw [forall_reaches_last (by
        rintro o' ⟨-, ⟨h, -⟩ | ⟨-, h, -⟩⟩
        · exact hzero h
        · omega)]
      rw [List.forall_mem_singleton]
      exact ⟨fun _ h => absurd h hno, fun _ => hlook hin⟩
    · have hu : u32 (o + recordLen f o) = o + recordLen f o := Nat.mod_eq_of_lt (by omega)
      rw [hu] at hlong
      have hfit : o + recordLen f o ≤ size := by omega
      have hnext : Next f size dirSize o (o + recordLen f o) := ⟨hin, .inr ⟨hzero, hfit, rfl⟩⟩
      obtain ⟨r, hr, hsafe⟩ := ih (o + recordLen f o) (by omega) (by omega)
      refine ⟨_, by rw [hu, hr, Option.map_some], ?_⟩
      rw [forall_reaches hnext, List.forall_mem_cons, List.forall_mem_append, hsafe,
        parseDirectoryRecord_safe hfit hzero]
      refine ⟨fun h => ⟨fun _ => h.2.1, h.2.2⟩, fun h => ⟨hlook hin, h.1 ⟨hin, hzero, hfit⟩, h.2⟩⟩
    · refine ⟨_, rfl, ?_⟩
      rw [forall_reaches_last fun o' h => hin h.1]
      exact ⟨fun _ h => absurd h.1 hin, fun _ l hl => nomatch hl⟩

end Walk

/-! ## Directories as they are laid out -/

/-- A record with a name that ends in it. -/
structure DirRecord where
  bytes : List Byte
  length_eq : bytes.length = (bytes.getD 0 0).toNat
  named : 0 < (bytes.getD 32 0).toNat
  inside : 33 + (bytes.getD 32 0).toNat ≤ bytes.length

namespace DirRecord

def byte (r : DirRecord) (i : ℕ) : Byte := r.bytes.getD i 0

def identifier (r : DirRecord) : List Byte := (List.range (nameLen r.byte 0)).map fun j => r.byte (33 + j)

/-- The entries of the directory itself and of its parent. -/
def isDot (r : DirRecord) : Bool := r.identifier = [0x00] ∨ r.identifier = [0x01]

def entry (r : DirRecord) : Entry :=
  ⟨r.identifier.takeWhile (· ≠ 0x3B), read733 r.byte 2, read733 r.byte 10, r.byte 25 &&& 0x02 ≠ 0⟩

end DirRecord

def recordBytes (rs : List DirRecord) : List Byte := rs.flatMap (·.bytes)

/-- Records that fit the sector, and zeros. -/
structure DirSector where
  records : List DirRecord
  fits : (recordBytes records).length ≤ 2048

def DirSector.bytes (s : DirSector) : List Byte :=
  recordBytes s.records ++ List.replicate (2048 - (recordBytes s.records).length) 0

structure Directory where
  sectors : List DirSector
  size : Word
  above : 2048 * sectors.length < size.toNat + 2048
  below : size.toNat ≤ 2048 * sectors.length
  last : ∀ s ∈ sectors.getLast?, 2048 * sectors.length + (recordBytes s.records).length ≤ size.toNat + 2048

namespace Directory

def OnDisc (d : Directory) (disc : Disc) (lba : Word) : Prop :=
  ∀ i (hi : i < d.sectors.length), ∃ s, disc (lba + BitVec.ofNat 32 i) = some s ∧
    List.ofFn s = (d.sectors.get ⟨i, hi⟩).bytes

/-- The entries to be listed. -/
def entries (d : Directory) : List Entry :=
  ((d.sectors.flatMap (·.records)).filter (!·.isDot)).map (·.entry)

end Directory

section Laid
variable {f : ℕ → Byte}

theorem cutName_eq (i n : ℕ) : (cutName f i n).1 = ((List.range n).map fun j => f (i + j)).takeWhile (· ≠ 0x3B) := by
  induction n generalizing i with
  | zero => rfl
  | succ n ih =>
    rw [cutName, List.range_succ_eq_map, List.map_cons, List.map_map]
    split_ifs with hsep
    · rw [List.takeWhile_cons_of_neg (by simpa using hsep)]
    · rw [List.takeWhile_cons_of_pos (by simpa using hsep)]
      have hshift : (fun j => f (i + j)) ∘ Nat.succ = fun j => f (i + 1 + j) := by
        funext j
        exact congrArg f (by rw [Nat.succ_eq_add_one]; omega)
      rw [ih, hshift]
      rfl

/-- A record is parsed as its entry; those of the directory and its parent are dropped. -/
theorem parse_laid {o : ℕ} {r : DirRecord} (h : ∀ k < r.bytes.length, f (o + k) = r.byte k) :
    (parseDirectoryRecord f o).1.toList.filter (!·.isDot) =
      (([r].filter (!·.isDot)).map (·.entry)).filter (!·.isDot) := by
  have hlen : recordLen f o = r.bytes.length := by
    rw [recordLen, ← Nat.add_zero o, h 0 (by have := r.inside; omega), r.length_eq]
    rfl
  have hin := r.inside
  have hnamed := r.named
  have hname : nameLen f o = nameLen r.byte 0 := by
    rw [nameLen, nameLen, h 32 (by omega), Nat.zero_add]
  have hnl : nameLen r.byte 0 = (r.bytes.getD 32 0).toNat := by rw [nameLen, Nat.zero_add]; rfl
  have hread : ∀ i, i + 3 < r.bytes.length → read733 f (o + i) = read733 r.byte i := by
    intro i hi
    have h3 : f (o + i + 3) = r.byte (i + 3) := by rw [Nat.add_assoc, h _ hi]
    have h2 : f (o + i + 2) = r.byte (i + 2) := by rw [Nat.add_assoc, h _ (by omega)]
    have h1 : f (o + i + 1) = r.byte (i + 1) := by rw [Nat.add_assoc, h _ (by omega)]
    rw [read733, read733, h3, h2, h1, h i (by omega)]
  have hident : ((List.range (nameLen f o)).map fun j => f (o + 33 + j)) = r.identifier := by
    rw [hname, DirRecord.identifier]
    refine List.map_congr_left fun j hj => ?_
    rw [List.mem_range] at hj
    rw [Nat.add_assoc, h _ (by omega)]
  have hentry : ∀ name, entryAt f o name = ⟨name, r.entry.lba, r.entry.size, r.entry.isDirectory⟩ := by
    intro name
    rw [entryAt, hread 2 (by omega), hread 10 (by omega), h 25 (by omega)]
    rfl
  have hone : ∀ b : Byte, r.identifier = [b] ↔ nameLen f o = 1 ∧ f (o + 33) = b := by
    intro b
    rw [← hident]
    constructor
    · intro e
      have h1 : nameLen f o = 1 := by simpa using congrArg List.length e
      rw [h1] at e
      exact ⟨h1, by simpa using e⟩
    · rintro ⟨h1, rfl⟩
      simp [h1]
  have hcut := @cutName_eq f (o + 33) (nameLen f o)
  rw [hident] at hcut
  unfold parseDirectoryRecord
  rw [if_neg (by omega), if_neg (by omega)]
  split_ifs with h0 h1
  · have hd : r.isDot = true := by
      rw [DirRecord.isDot, decide_eq_true_eq]
      exact .inl ((hone _).2 h0)
    simp [hd, Entry.isDot, entryAt]
  · have hd : r.isDot = true := by
      rw [DirRecord.isDot, decide_eq_true_eq]
      exact .inr ((hone _).2 h1)
    simp [hd, Entry.isDot, entryAt]
  · have hd : r.isDot = false := by
      rw [DirRecord.isDot, decide_eq_false_iff_not, hone, hone]
      exact fun e => e.elim h0 h1
    rw [hcut, hentry]
    simp only [Option.toList_some, List.filter_cons, hd, Bool.not_false, if_true, List.filter_nil, List.map_cons,
      List.map_nil]
    rfl

/-! ### The loop over a directory -/

variable {size dirSize : ℕ}

/-- From `o` on, the loop lists `es`. -/
def Walks (f : ℕ → Byte) (size dirSize o : ℕ) (es : List Entry) : Prop :=
  ∀ fuel, 0 < fuel → dirSize < fuel + o → ∃ looks, walk f size dirSize fuel o = some (es, looks)

theorem walks_end {o : ℕ} (h : dirSize ≤ o) : Walks f size dirSize o [] := by
  intro fuel hpos _
  cases fuel with
  | zero => omega
  | succ fuel => exact ⟨[], by rw [walk, if_neg (by omega)]⟩

theorem walks_stop {o : ℕ} (h : recordLen f o = 0) (hmid : o % 2048 = 0) : Walks f size dirSize o [] := by
  intro fuel hpos hfuel
  by_cases hin : o < dirSize
  · cases fuel with
    | zero => omega
    | succ fuel => exact ⟨_, by rw [walk, if_pos hin, if_pos h, if_neg (by omega)]⟩
  · exact walks_end (by omega) fuel hpos hfuel

theorem walks_skip {o : ℕ} {es : List Entry} (hsize : size ≤ 0xFFFFF800) (hdir : dirSize ≤ size) (hin : o < dirSize)
    (h : recordLen f o = 0) (hmid : o % 2048 ≠ 0) (hw : Walks f size dirSize (o + (2048 - o % 2048)) es) :
    Walks f size dirSize o es := by
  intro fuel hpos hfuel
  cases fuel with
  | zero => omega
  | succ fuel =>
    obtain ⟨looks, hl⟩ := hw fuel (by omega) (by omega)
    have hu : u32 (o + (2048 - o % 2048)) = o + (2048 - o % 2048) := Nat.mod_eq_of_lt (by omega)
    exact ⟨_, by rw [walk, if_pos hin, if_pos h, if_pos hmid, hu, hl, Option.map_some]⟩

theorem walks_record {o : ℕ} {es : List Entry} (hsize : size ≤ 0xFFFFF800) (hin : o < dirSize)
    (h : recordLen f o ≠ 0) (hfit : o + recordLen f o ≤ size) (hw : Walks f size dirSize (o + recordLen f o) es) :
    Walks f size dirSize o ((parseDirectoryRecord f o).1.toList.filter (!·.isDot) ++ es) := by
  intro fuel hpos hfuel
  cases fuel with
  | zero => omega
  | succ fuel =>
    obtain ⟨looks, hl⟩ := hw fuel (by omega) (by omega)
    have hu : u32 (o + recordLen f o) = o + recordLen f o := Nat.mod_eq_of_lt (by omega)
    exact ⟨_, by rw [walk, if_pos hin, if_neg h, hu, if_neg (by omega), hl, Option.map_some]⟩

/-- What the loop makes of records. -/
def listed (rs : List DirRecord) : List Entry := ((rs.filter (!·.isDot)).map (·.entry)).filter (!·.isDot)

theorem listed_cons (r : DirRecord) (rs : List DirRecord) :
    listed (r :: rs) = (([r].filter (!·.isDot)).map (·.entry)).filter (!·.isDot) ++ listed rs := by
  simp only [listed, ← List.filter_append, ← List.map_append, List.singleton_append]

theorem walks_records {rs : List DirRecord} {o : ℕ} {es : List Entry} (hsize : size ≤ 0xFFFFF800)
    (hdir : dirSize ≤ size) (hbytes : ∀ k < (recordBytes rs).length, f (o + k) = (recordBytes rs).getD k 0)
    (hin : o + (recordBytes rs).length ≤ dirSize) (hw : Walks f size dirSize (o + (recordBytes rs).length) es) :
    Walks f size dirSize o (listed rs ++ es) := by
  induction rs generalizing o with
  | nil => exact hw
  | cons r rs ih =>
    have hcons : recordBytes (r :: rs) = r.bytes ++ recordBytes rs := rfl
    rw [hcons, List.length_append] at hbytes hin hw
    have hr := r.inside
    have hrec : ∀ k < r.bytes.length, f (o + k) = r.byte k := by
      intro k hk
      rw [hbytes k (by omega), DirRecord.byte, List.getD_append _ _ _ _ hk]
    have hlen : recordLen f o = r.bytes.length := by
      rw [recordLen, ← Nat.add_zero o, hrec 0 (by omega), r.length_eq]
      rfl
    rw [listed_cons, List.append_assoc, ← parse_laid hrec]
    refine walks_record hsize (by omega) (by omega) (by omega) ?_
    rw [hlen]
    refine ih (fun k hk => ?_) (by omega) (by rwa [Nat.add_assoc])
    rw [Nat.add_assoc, hbytes _ (by omega), List.getD_append_right _ _ _ _ (by omega), Nat.add_sub_cancel_left]

theorem DirSector.bytes_length (s : DirSector) : s.bytes.length = 2048 := by
  have := s.fits
  rw [DirSector.bytes, List.length_append, List.length_replicate]
  omega

theorem sectorBytes_length (ss : List DirSector) : (ss.flatMap DirSector.bytes).length = 2048 * ss.length := by
  induction ss with
  | nil => rfl
  | cons s ss ih =>
    rw [List.flatMap_cons, List.length_append, ih, s.bytes_length, List.length_cons]
    omega

/-- The loop takes a sector without records for the end of the directory. -/
def listedSectors : List DirSector → List Entry
  | [] => []
  | s :: ss => if s.records = [] then [] else listed s.records ++ listedSectors ss

theorem walks_sectors {ss : List DirSector} {o : ℕ} (hsize : size ≤ 0xFFFFF800) (hdir : dirSize ≤ size)
    (hstart : o % 2048 = 0) (hend : o + 2048 * ss.length = size)
    (hbytes : ∀ k < 2048 * ss.length, f (o + k) = (ss.flatMap DirSector.bytes).getD k 0)
    (habove : size < dirSize + 2048)
    (hlast : ∀ s ∈ ss.getLast?, size + (recordBytes s.records).length ≤ dirSize + 2048) :
    Walks f size dirSize o (listedSectors ss) := by
  induction ss generalizing o with
  | nil => exact walks_end (by simp at hend; omega)
  | cons s ss ih =>
    rw [List.length_cons] at hend hbytes
    have hfits := s.fits
    have hhead : ∀ k < 2048, f (o + k) = s.bytes.getD k 0 := by
      intro k hk
      rw [hbytes k (by omega), List.flatMap_cons, List.getD_append _ _ _ _ (by rwa [s.bytes_length])]
    have hpad : ∀ k, (recordBytes s.records).length ≤ k → k < 2048 → recordLen f (o + k) = 0 := by
      intro k h1 h2
      rw [recordLen, hhead k h2, DirSector.bytes, List.getD_append_right _ _ _ _ h1,
        List.getD_eq_getElem _ _ (by simp; omega), List.getElem_replicate]
      rfl
    rw [listedSectors]
    split_ifs with hnil
    · refine walks_stop ?_ hstart
      have := hpad 0 (by simp [hnil, recordBytes]) (by omega)
      rwa [Nat.add_zero] at this
    · have hrest : Walks f size dirSize (o + 2048) (listedSectors ss) := by
        refine ih (by omega) (by omega) (fun k hk => ?_) fun t ht => hlast t ?_
        · rw [Nat.add_assoc, hbytes _ (by omega), List.flatMap_cons,
            List.getD_append_right _ _ _ _ (by rw [s.bytes_length]; omega), s.bytes_length, Nat.add_sub_cancel_left]
        · cases ss with
          | nil => cases ht
          | cons u us => rwa [List.getLast?_cons_cons]
      have hroom : o + (recordBytes s.records).length ≤ dirSize := by
        cases ss with
        | nil =>
          have := hlast s rfl
          simp at hend
          omega
        | cons u us =>
          rw [List.length_cons] at hend
          omega
      refine walks_records hsize hdir (fun k hk => ?_) hroom ?_
      · rw [hhead k (by omega), DirSector.bytes, List.getD_append _ _ _ _ hk]
      · -- the rest of the sector is zeros
        have hpos : 0 < (recordBytes s.records).length := by
          obtain ⟨r, rs, hr⟩ := List.exists_cons_of_ne_nil hnil
          have := r.inside
          rw [hr, recordBytes, List.flatMap_cons, List.length_append]
          omega
        by_cases hfull : (recordBytes s.records).length = 2048
        · rwa [hfull]
        · by_cases hin : o + (recordBytes s.records).length < dirSize
          · refine walks_skip hsize hdir hin (hpad _ (le_refl _) (by omega)) (by omega) ?_
            rwa [show o + (recordBytes s.records).length + (2048 - (o + (recordBytes s.records).length) % 2048) =
              o + 2048 by omega]
          · obtain rfl : ss = [] := by
              refine List.eq_nil_of_length_eq_zero ?_
              omega
            exact walks_end (by omega)

end Laid

/-! ## Listings -/

/-- The listing looks only at the directory data it read, and at each name only in its record. -/
def LooksInside (disc : Disc) (lba dirSize : Word) (looks : List Look) : Prop :=
  ∀ l ∈ looks, ∃ dir, directoryData disc lba dirSize = some dir ∧ l.Safe dir.length

/-- The size does not wrap, and each name that the records lead to ends in its record. -/
def Bounded (disc : Disc) (heap : ℕ → Byte) (lba dirSize : Word) : Prop :=
  ∀ dir, directoryData disc lba dirSize = some dir → dirSize ≤ 0xFFFFF800 ∧
    ∀ p, Relation.ReflTransGen (Next (dataAt dir heap) dir.length dirSize.toNat) 0 p →
      Record (dataAt dir heap) dir.length dirSize.toNat p → NameInside (dataAt dir heap) p

/-- What the loop finds of a directory: no entry stands behind a sector without records, none but those of the
directory and its parent is named as they are, and the extent is neither at sector zero nor too large. -/
structure Directory.Plain (d : Directory) (lba : Word) : Prop where
  behind : ∀ s ∈ d.sectors.dropWhile (·.records ≠ []), ∀ r ∈ s.records, r.isDot = true
  named : ∀ s ∈ d.sectors, ∀ r ∈ s.records, r.isDot = false → r.entry.isDot = false
  reached : ∀ s ∈ d.sectors, ∀ r ∈ s.records, r.isDot = false → lba ≠ 0 ∧ d.size ≤ 0xFFFFF800

theorem numSectors_small {dirSize : Word} (h : dirSize ≤ 0xFFFFF800) :
    (dirSize + 2047).toNat = dirSize.toNat + 2047 := by
  bv_omega

theorem numSectors_wrapped {dirSize : Word} (h : ¬ dirSize ≤ 0xFFFFF800) : (dirSize + 2047).toNat / 2048 = 0 := by
  bv_omega

/-- Past the largest size the loop looks at one byte, of no data. -/
theorem listFilesByLba_wrapped {disc : Disc} {heap : ℕ → Byte} {lba dirSize : Word} (hlba : lba ≠ 0)
    (h : ¬ dirSize ≤ 0xFFFFF800) :
    directoryData disc lba dirSize = some [] ∧ listFilesByLba disc heap lba dirSize = some ([], [.byte 0]) := by
  have hz : dirSize ≠ 0 := by bv_omega
  have hdata : directoryData disc lba dirSize = some [] := by
    rw [directoryData, if_neg (not_or.2 ⟨hlba, hz⟩), numSectors_wrapped h]
    rfl
  refine ⟨hdata, ?_⟩
  have hpos : 0 < dirSize.toNat := by bv_omega
  have hbyte : recordLen (dataAt [] heap) 0 < 256 := (dataAt [] heap 0).isLt
  simp only [listFilesByLba, hdata]
  rw [walk, if_pos hpos]
  split_ifs with h1 h2 h3
  · exact absurd rfl h2
  · rfl
  · rfl
  · exact absurd (by rw [u32, Nat.zero_add, Nat.mod_eq_of_lt (by omega)]; exact Nat.pos_of_ne_zero h1) h3

theorem directoryData_length {disc : Disc} {lba dirSize : Word} {dir : List Byte}
    (h : directoryData disc lba dirSize = some dir) (hsmall : dirSize ≤ 0xFFFFF800) :
    dir.length ≤ 0xFFFFF800 ∧ dirSize.toNat ≤ dir.length := by
  unfold directoryData at h
  split_ifs at h
  rw [readSectors_length h, numSectors_small hsmall]
  have : dirSize.toNat ≤ 0xFFFFF800 := BitVec.le_def.1 hsmall
  omega

/-- The listing ends, and is safe exactly on bounded directories. -/
theorem listFilesByLba_safe (disc : Disc) (heap : ℕ → Byte) (lba dirSize : Word) :
    ∃ r, listFilesByLba disc heap lba dirSize = some r ∧
      (LooksInside disc lba dirSize r.2 ↔ Bounded disc heap lba dirSize) := by
  cases hdata : directoryData disc lba dirSize with
  | none =>
    refine ⟨([], []), by simp only [listFilesByLba, hdata], ?_⟩
    simp [LooksInside, Bounded, hdata]
  | some dir =>
    by_cases hsmall : dirSize ≤ 0xFFFFF800
    · obtain ⟨hlen, hle⟩ := directoryData_length hdata hsmall
      obtain ⟨r, hr, hsafe⟩ := @walk_spec (dataAt dir heap) _ _ hlen hle (dirSize.toNat + 1) 0 (by omega) (by omega)
      refine ⟨r, by simp only [listFilesByLba, hdata, hr], ?_⟩
      simp only [LooksInside, Bounded, hdata, Option.some.injEq, exists_eq_left', hsafe, forall_eq', hsmall, true_and]
    · have hlba : lba ≠ 0 := by
        rintro rfl
        simp [directoryData] at hdata
      obtain ⟨hnone, hr⟩ := @listFilesByLba_wrapped disc heap _ _ hlba hsmall
      refine ⟨_, hr, fun h => ?_, fun h => absurd (h dir hdata).1 hsmall⟩
      obtain ⟨dir', hd, hl⟩ := h (.byte 0) (List.mem_singleton.2 rfl)
      rw [hnone, Option.some.injEq] at hd
      subst hd
      exact absurd hl (Nat.not_lt_zero 0)

namespace Directory

theorem data_onDisc {disc : Disc} {ss : List DirSector} {lba : Word}
    (h : ∀ i (hi : i < ss.length), ∃ s, disc (lba + BitVec.ofNat 32 i) = some s ∧
      List.ofFn s = (ss.get ⟨i, hi⟩).bytes) :
    readSectors disc ss.length lba = some (ss.flatMap DirSector.bytes) := by
  induction ss generalizing lba with
  | nil => rfl
  | cons t ts ih =>
    obtain ⟨s, hs, hbytes⟩ := h 0 (Nat.succ_pos _)
    have hrest : readSectors disc ts.length (lba + 1) = some (ts.flatMap DirSector.bytes) := by
      refine ih fun i hi => ?_
      obtain ⟨u, hu, hub⟩ := h (i + 1) (Nat.succ_lt_succ hi)
      refine ⟨u, ?_, hub⟩
      have hshift : lba + 1 + BitVec.ofNat 32 i = lba + BitVec.ofNat 32 (i + 1) := by
        apply BitVec.eq_of_toNat_eq
        simp [BitVec.toNat_add]
        omega
      rw [hshift]
      exact hu
    rw [show lba + BitVec.ofNat 32 0 = lba from BitVec.add_zero lba] at hs
    simp only [List.length_cons, readSectors, hs, hrest, Option.bind_eq_bind, Option.bind_some, Option.pure_def,
      hbytes, List.flatMap_cons]
    rfl

/-- What is listed of a directory on the disc. -/
theorem listed_onDisc {d : Directory} {disc : Disc} {heap : ℕ → Byte} {lba : Word} (h : d.OnDisc disc lba)
    (hlba : lba ≠ 0) (hsmall : d.size ≤ 0xFFFFF800) :
    ∃ looks, listFilesByLba disc heap lba d.size = some (listedSectors d.sectors, looks) := by
  have habove := d.above
  have hbelow := d.below
  by_cases hzero : d.size = 0
  · have hnil : d.sectors = [] := by
      refine List.eq_nil_of_length_eq_zero ?_
      have hz : d.size.toNat = 0 := congrArg BitVec.toNat hzero
      omega
    exact ⟨[], by simp [listFilesByLba, directoryData, hzero, hnil, listedSectors]⟩
  · have hcount : (d.size + 2047).toNat / 2048 = d.sectors.length := by
      rw [numSectors_small hsmall]
      omega
    have hdata : directoryData disc lba d.size = some (d.sectors.flatMap DirSector.bytes) := by
      rw [directoryData, if_neg (not_or.2 ⟨hlba, hzero⟩), hcount, data_onDisc h]
    obtain ⟨hlen, hle⟩ := directoryData_length hdata hsmall
    have hsize := sectorBytes_length d.sectors
    have hw := @walks_sectors (dataAt (d.sectors.flatMap DirSector.bytes) heap) _ _ d.sectors 0 hlen hle rfl
      (by omega) (fun k hk => by
        rw [Nat.zero_add, dataAt, List.getD_eq_getElem _ _ (by omega), List.getD_eq_getElem _ _ (by omega)])
      (by omega) (fun s hs => by have := d.last s hs; omega)
    obtain ⟨looks, hl⟩ := hw (d.size.toNat + 1) (by omega) (by omega)
    exact ⟨looks, by simp only [listFilesByLba, hdata, hl]⟩

theorem listedSectors_eq (ss : List DirSector) :
    listedSectors ss = listed ((ss.takeWhile (·.records ≠ [])).flatMap (·.records)) := by
  induction ss with
  | nil => rfl
  | cons s ss ih =>
    rw [listedSectors]
    split_ifs with h
    · rw [List.takeWhile_cons_of_neg (by simpa using h)]
      rfl
    · rw [List.takeWhile_cons_of_pos (by simpa using h), List.flatMap_cons, ih]
      simp only [listed, List.filter_append, List.map_append]

/-- The listing is the whole directory where the loop drops none of its entries. -/
theorem listedSectors_iff (ss : List DirSector) :
    listedSectors ss = ((ss.flatMap (·.records)).filter (!·.isDot)).map (·.entry) ↔
      (∀ s ∈ ss.dropWhile (·.records ≠ []), ∀ r ∈ s.records, r.isDot = true) ∧
      ∀ s ∈ ss, ∀ r ∈ s.records, r.isDot = false → r.entry.isDot = false := by
  have hsplit : ss.flatMap (·.records) = (ss.takeWhile (·.records ≠ [])).flatMap (·.records) ++
      (ss.dropWhile (·.records ≠ [])).flatMap (·.records) := by
    rw [← List.flatMap_append, List.takeWhile_append_dropWhile]
  have hmem : (∀ s ∈ ss, ∀ r ∈ s.records, r.isDot = false → r.entry.isDot = false) ↔
      ∀ e ∈ ((ss.flatMap (·.records)).filter (!·.isDot)).map (·.entry), e.isDot = false := by
    simp only [List.mem_map, List.mem_filter, List.mem_flatMap, Bool.not_eq_true', forall_exists_index, and_imp]
    exact ⟨fun h e r s hs hr hd he => he ▸ h s hs r hr hd, fun h s hs r hr hd => h _ r s hs hr hd rfl⟩
  have hbehind : (∀ s ∈ ss.dropWhile (·.records ≠ []), ∀ r ∈ s.records, r.isDot = true) ↔
      (((ss.dropWhile (·.records ≠ [])).flatMap (·.records)).filter (!·.isDot)).map (·.entry) = [] := by
    rw [List.map_eq_nil_iff, List.filter_eq_nil_iff]
    simp only [List.mem_flatMap, Bool.not_eq_true', Bool.not_eq_false, forall_exists_index, and_imp]
    exact ⟨fun h r s hs hr => h s hs r hr, fun h s hs r hr => h r s hs hr⟩
  rw [hmem, hbehind, listedSectors_eq, listed, hsplit, List.filter_append, List.map_append]
  generalize (((ss.takeWhile (·.records ≠ [])).flatMap (·.records)).filter (!·.isDot)).map (·.entry) = front
  generalize (((ss.dropWhile (·.records ≠ [])).flatMap (·.records)).filter (!·.isDot)).map (·.entry) = back
  constructor
  · intro e
    have hle := List.length_filter_le (fun e : Entry => !e.isDot) front
    have hlen := congrArg List.length e
    rw [List.length_append] at hlen
    have hback : back = [] := List.eq_nil_of_length_eq_zero (by omega)
    rw [hback, List.append_nil] at e ⊢
    exact ⟨rfl, fun x hx => by simpa using List.filter_eq_self.1 e x hx⟩
  · rintro ⟨rfl, h⟩
    rw [List.append_nil] at h ⊢
    exact List.filter_eq_self.2 fun x hx => by simpa using h x hx

theorem entries_nil_iff (d : Directory) :
    d.entries = [] ↔ ∀ s ∈ d.sectors, ∀ r ∈ s.records, r.isDot = true := by
  rw [entries, List.map_eq_nil_iff, List.filter_eq_nil_iff]
  simp only [List.mem_flatMap, Bool.not_eq_true', Bool.not_eq_false, forall_exists_index, and_imp]
  exact ⟨fun h s hs r hr => h r s hs hr, fun h r s hs hr => h s hs r hr⟩

theorem plain_of_dots {d : Directory} (lba : Word) (h : ∀ s ∈ d.sectors, ∀ r ∈ s.records, r.isDot = true) :
    d.Plain lba :=
  ⟨fun s hs => h s (List.dropWhile_sublist _ |>.mem hs),
    fun s hs r hr hd => absurd (h s hs r hr) (by simp [hd]),
    fun s hs r hr hd => absurd (h s hs r hr) (by simp [hd])⟩

theorem dots_of_plain {d : Directory} {lba : Word} (h : d.Plain lba) (hno : ¬ (lba ≠ 0 ∧ d.size ≤ 0xFFFFF800)) :
    ∀ s ∈ d.sectors, ∀ r ∈ s.records, r.isDot = true := by
  intro s hs r hr
  by_contra hd
  exact hno (h.reached s hs r hr (by simpa using hd))

end Directory

/-- The listing ends. It looks at nothing but the directory data exactly where the directory is bounded, and a directory
on the disc is listed in full exactly where it is plain. -/
theorem directory_listing_iff (disc : Disc) (heap : ℕ → Byte) (lba dirSize : Word) :
    ∃ r, listFilesByLba disc heap lba dirSize = some r ∧
      (LooksInside disc lba dirSize r.2 ↔ Bounded disc heap lba dirSize) ∧
      ∀ d : Directory, d.size = dirSize → d.OnDisc disc lba → (r.1 = d.entries ↔ d.Plain lba) := by
  obtain ⟨r, hr, hsafe⟩ := listFilesByLba_safe disc heap lba dirSize
  refine ⟨r, hr, hsafe, ?_⟩
  rintro d rfl hd
  by_cases hreach : lba ≠ 0 ∧ d.size ≤ 0xFFFFF800
  · obtain ⟨looks, hl⟩ := @Directory.listed_onDisc d disc heap lba hd hreach.1 hreach.2
    obtain rfl : (listedSectors d.sectors, looks) = r := Option.some.inj (hl.symm.trans hr)
    exact (Directory.listedSectors_iff d.sectors).trans
      ⟨fun h => ⟨h.1, h.2, fun _ _ _ _ _ => hreach⟩, fun h => ⟨h.behind, h.named⟩⟩
  · have hnil : r.1 = [] := by
      by_cases hlba : lba = 0
      · obtain rfl : ([], []) = r := by simpa [listFilesByLba, directoryData, hlba] using hr
        rfl
      · obtain ⟨-, hw⟩ := @listFilesByLba_wrapped disc heap lba d.size hlba fun h => hreach ⟨hlba, h⟩
        obtain rfl : _ = r := Option.some.inj (hw.symm.trans hr)
        rfl
    rw [hnil, eq_comm, Directory.entries_nil_iff]
    exact ⟨Directory.plain_of_dots lba, fun h => Directory.dots_of_plain h hreach⟩

/-- One record of 34 bytes that gives its name two. -/
def overlongSector : Sector := fun i => if i = 0 then 34 else if i = 32 then 2 else 0

def overlongDisc : Disc := fun lba => if lba = 1 then some overlongSector else none

theorem overlong_name_read_outside :
    ∃ r, listFilesByLba overlongDisc (fun _ => 0) 1 2048 = some r ∧ ¬ LooksInside overlongDisc 1 2048 r.2 := by
  obtain ⟨r, hr, hsafe⟩ := listFilesByLba_safe overlongDisc (fun _ => 0) 1 2048
  refine ⟨r, hr, fun h => ?_⟩
  have hdata : directoryData overlongDisc 1 2048 = some (List.ofFn overlongSector) := by
    rw [directoryData, if_neg (by decide), show ((2048 : Word) + 2047).toNat / 2048 = 1 from rfl]
    exact congrArg some (List.append_nil _)
  obtain ⟨-, hnames⟩ := hsafe.1 h _ hdata
  have hbyte : ∀ i (hi : i < 2048), dataAt (List.ofFn overlongSector) (fun _ => 0) i = overlongSector ⟨i, hi⟩ := by
    intro i hi
    rw [dataAt, List.getD_eq_getElem _ _ (by rw [List.length_ofFn]; exact hi), List.getElem_ofFn]
  have hlen : recordLen (dataAt (List.ofFn overlongSector) fun _ => 0) 0 = 34 := by
    rw [recordLen, hbyte 0 (by decide)]
    rfl
  have hname : nameLen (dataAt (List.ofFn overlongSector) fun _ => 0) 0 = 2 := by
    rw [nameLen, hbyte 32 (by decide)]
    rfl
  have hrecord : Record (dataAt (List.ofFn overlongSector) fun _ => 0) (List.ofFn overlongSector).length
      (2048 : Word).toNat 0 := ⟨by decide, by omega, by rw [hlen, List.length_ofFn]; decide⟩
  rcases hnames 0 .refl hrecord (by omega) with h | h | ⟨j, -, hj, hsep⟩
  · omega
  · omega
  · obtain rfl : j = 0 := by omega
    rw [hbyte 33 (by decide)] at hsep
    exact absurd hsep (by decide)

end PsxRecomp.IsoDirectory
