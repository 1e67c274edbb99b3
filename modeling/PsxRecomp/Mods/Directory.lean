import PsxRecomp.Mods.DiscSector

/-! Paths of the effective disc, looked up through its directory records. A lookup reads sectors
through `read`; overwriting the location and size of one file's record changes nothing else that a
lookup finds. -/
namespace PsxRecomp.Mods
open MemoryEdit
set_option autoImplicit false

/-! ## Sectors -/

/-- Why a read or a lookup gives nothing; the source returns only that it does. -/
inductive Refusal
  | noDisc
  | unreadable (lba : ℕ)
  | guardFailed
  | malformed
  | notDirectory
  | notFound
deriving DecidableEq, Repr

abbrev SectorRead := ℕ → Except Refusal Buffer

def le32 (sector : Buffer) (p : ℕ) : ℕ :=
  (sector p).toNat + (sector (p + 1)).toNat * 2 ^ 8 + (sector (p + 2)).toNat * 2 ^ 16 +
    (sector (p + 3)).toNat * 2 ^ 24

/-- `std::toupper` -/
def toUpper (c : Byte) : Byte := if 0x61 ≤ c ∧ c ≤ 0x7A then c - 0x20 else c

/-! ## Records -/

def recordLength (sector : Buffer) (p : ℕ) : ℕ := (sector p).toNat

def recordValid (sector : Buffer) (p : ℕ) : Bool :=
  34 ≤ recordLength sector p ∧ p + recordLength sector p ≤ 2048 ∧
    33 + (sector (p + 32)).toNat ≤ recordLength sector p

/-- The name without its version suffix; the records of a directory itself and of its parent have
none. -/
def recordName (sector : Buffer) (p : ℕ) : List Byte :=
  if (sector (p + 32)).toNat = 1 ∧ (sector (p + 33) = 0 ∨ sector (p + 33) = 1) then []
  else (((List.range (sector (p + 32)).toNat).map fun i => sector (p + 33 + i)).takeWhile
    fun c => c ≠ 0x3B).map toUpper

inductive Scan
  | absent
  | malformed
  | found (p : ℕ)
deriving DecidableEq, Repr

/-- The records of one sector. -/
def scanSector (want : List Byte) (sector : Buffer) : ℕ → ℕ → Scan
  | 0, _ => .absent
  | fuel + 1, p =>
    if p < 2048 ∧ sector p ≠ 0 then
      if !recordValid sector p then .malformed
      else if recordName sector p ≠ [] ∧ recordName sector p = want then .found p
      else scanSector want sector fuel (p + recordLength sector p)
    else .absent

theorem scanSector_succ (want : List Byte) (sector : Buffer) (fuel p : ℕ) :
    scanSector want sector (fuel + 1) p =
      if p < 2048 ∧ sector p ≠ 0 then
        if !recordValid sector p then .malformed
        else if recordName sector p ≠ [] ∧ recordName sector p = want then .found p
        else scanSector want sector fuel (p + recordLength sector p)
      else .absent := rfl

theorem recordValid_length {sector : Buffer} {p : ℕ} (h : recordValid sector p = true) :
    34 ≤ recordLength sector p ∧ p + recordLength sector p ≤ 2048 ∧
      33 + (sector (p + 32)).toNat ≤ recordLength sector p := by
  rwa [recordValid, decide_eq_true_eq] at h

structure Entry where
  record : Option ℕ
  lba : ℕ
  bytes : ℕ
  directory : Bool
deriving DecidableEq, Repr

def entryAt (lba : ℕ) (sector : Buffer) (p : ℕ) : Entry where
  record := some (lba * 2048 + p)
  lba := le32 sector (p + 2)
  bytes := le32 sector (p + 10)
  directory := sector (p + 25) &&& 2 ≠ 0

/-! ## Lookups -/

/-- The sectors of one directory, from the `i`-th on. -/
def searchDirectory (read : SectorRead) (want : List Byte) (lba : ℕ) : ℕ → ℕ → Except Refusal Entry
  | 0, _ => .error .notFound
  | n + 1, i =>
    match read ((lba + i) % 2 ^ 32) with
    | .error e => .error e
    | .ok sector =>
      match scanSector want sector 2048 0 with
      | .malformed => .error .malformed
      | .found p => .ok (entryAt ((lba + i) % 2 ^ 32) sector p)
      | .absent => searchDirectory read want lba n (i + 1)

def walkPath (read : SectorRead) : List (List Byte) → Entry → Except Refusal Entry
  | [], entry => .ok entry
  | want :: rest, entry =>
    if !entry.directory then .error .notDirectory
    else match searchDirectory read (want.map toUpper) entry.lba
        ((entry.bytes + 2047) % 2 ^ 32 / 2048) 0 with
      | .error e => .error e
      | .ok entry => walkPath read rest entry

/-- The components of a path, between slashes and backslashes. -/
def components (path : List Byte) : List (List Byte) :=
  (path.splitOnP fun c => c = 0x2F ∨ c = 0x5C).filter fun want => want ≠ []

/-- "CD001" -/
def isoMagic : List Byte := [0x43, 0x44, 0x30, 0x30, 0x31]

/-- `find_effective_file` -/
def findEffectiveFile (read : SectorRead) (path : List Byte) : Except Refusal Entry :=
  match read 16 with
  | .error e => .error e
  | .ok sector =>
    if sector 0 ≠ 1 ∨ (List.range 5).map (fun i => sector (1 + i)) ≠ isoMagic then .error .malformed
    else walkPath read (components path)
      ⟨none, le32 sector (156 + 2), le32 sector (156 + 10), true⟩

/-! ## Where the records of a sector are -/

/-- Where the scan of a sector can come by. -/
inductive Boundary (sector : Buffer) : ℕ → Prop
  | start : Boundary sector 0
  | next {p : ℕ} : Boundary sector p → p < 2048 → sector p ≠ 0 → recordValid sector p = true →
      Boundary sector (p + recordLength sector p)

structure IsRecord (sector : Buffer) (p : ℕ) : Prop where
  boundary : Boundary sector p
  inside : p < 2048
  present : sector p ≠ 0
  valid : recordValid sector p = true

theorem IsRecord.next {sector : Buffer} {p : ℕ} (h : IsRecord sector p) :
    Boundary sector (p + recordLength sector p) :=
  h.boundary.next h.inside h.present h.valid

theorem IsRecord.length {sector : Buffer} {p : ℕ} (h : IsRecord sector p) :
    34 ≤ recordLength sector p ∧ p + recordLength sector p ≤ 2048 :=
  ⟨(recordValid_length h.valid).1, (recordValid_length h.valid).2.1⟩

/-- Before a boundary there are whole records only. -/
theorem Boundary.before {sector : Buffer} {p q : ℕ} (hq : Boundary sector q)
    (hp : Boundary sector p) (hle : p ≤ q) :
    p = q ∨ (IsRecord sector p ∧ p + recordLength sector p ≤ q) := by
  induction hq generalizing p with
  | start => exact Or.inl (by omega)
  | @next q hq hinside hpresent hvalid ih =>
    have hrecord : IsRecord sector q := ⟨hq, hinside, hpresent, hvalid⟩
    -- no boundary lies inside the record at `q`
    have hapart : ∀ r, Boundary sector r → r ≤ q ∨ q + recordLength sector q ≤ r := by
      intro r hr
      induction hr with
      | start => exact Or.inl (Nat.zero_le q)
      | @next r hr hinside' hpresent' hvalid' ihr =>
        rcases ihr with h | h
        · rcases ih hr h with rfl | ⟨-, h⟩
          · exact Or.inr (le_refl _)
          · exact Or.inl h
        · exact Or.inr (by omega)
    rcases hapart p hp with h | h
    · rcases ih hp h with rfl | ⟨hp', h⟩
      · exact Or.inr ⟨hrecord, le_refl _⟩
      · exact Or.inr ⟨hp', by omega⟩
    · exact Or.inl (by omega)

/-- What a scan reads of a boundary lies outside the fields of a record. -/
theorem IsRecord.apart {sector : Buffer} {p q i : ℕ} (hq : IsRecord sector q)
    (hp : Boundary sector p) (hi : i = 0 ∨ 18 ≤ i ∧ i < recordLength sector p) :
    p + i < q + 2 ∨ q + 18 ≤ p + i := by
  have hlength := hq.length
  rcases Nat.lt_trichotomy p q with h | h | h
  · rcases hq.boundary.before hp (le_of_lt h) with rfl | ⟨hp', h⟩
    · exact absurd h (lt_irrefl _)
    · have := hp'.length
      omega
  · subst h
    omega
  · rcases hp.before hq.boundary (le_of_lt h) with rfl | ⟨-, h⟩
    · exact absurd h (lt_irrefl _)
    · omega

theorem scanSector_found {want : List Byte} {sector : Buffer} {fuel p q : ℕ}
    (hp : Boundary sector p) (h : scanSector want sector fuel p = .found q) : IsRecord sector q := by
  induction fuel generalizing p with
  | zero => exact absurd h (by simp [scanSector])
  | succ fuel ih =>
    rw [scanSector_succ] at h
    by_cases hin : p < 2048 ∧ sector p ≠ 0
    · rw [if_pos hin] at h
      cases hvalid : recordValid sector p with
      | false => simp [hvalid] at h
      | true =>
        have hrecord : IsRecord sector p := ⟨hp, hin.1, hin.2, hvalid⟩
        rw [hvalid] at h
        by_cases hname : recordName sector p ≠ [] ∧ recordName sector p = want
        · rw [if_pos hname] at h
          simp only [Bool.not_true, Bool.false_eq_true, if_false, Scan.found.injEq] at h
          exact h ▸ hrecord
        · rw [if_neg hname] at h
          simp only [Bool.not_true, Bool.false_eq_true, if_false] at h
          exact ih hrecord.next h
    · rw [if_neg hin] at h
      cases h

/-! ## Overwriting the fields of a record -/

section Overwritten

variable {record : ℕ} {field : ℕ → Byte}

/-- The bytes of sector `lba` after 16 bytes behind the second one of the record were overwritten. -/
def overwritten (record : ℕ) (field : ℕ → Byte) (lba : ℕ) (sector : Buffer) : Buffer := fun q =>
  if record + 2 ≤ lba * 2048 + q ∧ lba * 2048 + q < record + 18 then
    field (lba * 2048 + q - (record + 2))
  else sector q

def SameSector (a b : Buffer) : Prop := ∀ q < 2048, a q = b q

/-- The overwritten fields lie in a record of their sector. -/
def RecordsAt (record lba : ℕ) (sector : Buffer) : Prop :=
  record % 2048 + 18 ≤ 2048 ∧ (record / 2048 = lba → IsRecord sector (record % 2048))

variable {lba : ℕ} {sector sector' : Buffer}
  (hsame : SameSector sector' (overwritten record field lba sector))
  (hrecord : RecordsAt record lba sector)
include hsame hrecord

theorem overwritten_apart {p i : ℕ} (hp : Boundary sector p) (hin : p + i < 2048)
    (hi : i = 0 ∨ 18 ≤ i ∧ i < recordLength sector p) : sector' (p + i) = sector (p + i) := by
  rw [hsame _ hin, overwritten, if_neg]
  have hfits := hrecord.1
  by_cases hlba : record / 2048 = lba
  · have := (hrecord.2 hlba).apart hp hi
    omega
  · omega

theorem overwritten_valid {p : ℕ} (hp : Boundary sector p) (hin : p < 2048) :
    recordLength sector' p = recordLength sector p ∧ recordValid sector' p = recordValid sector p := by
  have hlength : recordLength sector' p = recordLength sector p :=
    congrArg BitVec.toNat (overwritten_apart hsame hrecord hp (i := 0) hin (Or.inl rfl))
  refine ⟨hlength, ?_⟩
  unfold recordValid
  rw [hlength]
  by_cases h : 34 ≤ recordLength sector p ∧ p + recordLength sector p ≤ 2048
  · rw [overwritten_apart hsame hrecord hp (i := 32) (by omega) (Or.inr (by omega))]
  · rw [decide_eq_decide]
    constructor
    · exact fun h' => absurd ⟨h'.1, h'.2.1⟩ h
    · exact fun h' => absurd ⟨h'.1, h'.2.1⟩ h

theorem overwritten_name {p : ℕ} (hp : IsRecord sector p) : recordName sector' p = recordName sector p := by
  obtain ⟨h34, hin, hname⟩ := recordValid_length hp.valid
  have hat : ∀ i, 18 ≤ i → i < recordLength sector p → sector' (p + i) = sector (p + i) :=
    fun i h18 hi => overwritten_apart hsame hrecord hp.boundary (by omega) (Or.inr ⟨h18, hi⟩)
  have hcount : sector' (p + 32) = sector (p + 32) := hat 32 (by omega) (by omega)
  have hchars : ((List.range (sector (p + 32)).toNat).map fun i => sector' (p + 33 + i)) =
      (List.range (sector (p + 32)).toNat).map fun i => sector (p + 33 + i) := by
    refine List.map_congr_left fun i hi => ?_
    have hi := List.mem_range.1 hi
    rw [Nat.add_assoc]
    exact hat (33 + i) (by omega) (by omega)
  unfold recordName
  rw [hcount, hchars]
  by_cases hone : (sector (p + 32)).toNat = 1
  · rw [hat 33 (by omega) (by omega)]
  · rw [if_neg (fun h => hone h.1), if_neg (fun h => hone h.1)]

theorem overwritten_scan (want : List Byte) {fuel p : ℕ} (hp : Boundary sector p) :
    scanSector want sector' fuel p = scanSector want sector fuel p := by
  induction fuel generalizing p with
  | zero => rfl
  | succ fuel ih =>
    rw [scanSector_succ, scanSector_succ]
    by_cases hin : p < 2048
    · have hfirst : sector' p = sector p :=
        overwritten_apart hsame hrecord hp (i := 0) hin (Or.inl rfl)
      obtain ⟨hlength, hvalid⟩ := overwritten_valid hsame hrecord hp hin
      rw [hfirst, hlength, hvalid]
      by_cases hpresent : sector p ≠ 0
      · cases hv : recordValid sector p with
        | false => rfl
        | true =>
          have hrec : IsRecord sector p := ⟨hp, hin, hpresent, hv⟩
          rw [overwritten_name hsame hrecord hrec, ih hrec.next]
      · rw [if_neg (fun h => hpresent h.2), if_neg (fun h => hpresent h.2)]
    · rw [if_neg (fun h => hin h.1), if_neg (fun h => hin h.1)]

/-- The entry with the location and size that were put into the record. -/
def relocate (record : ℕ) (field : ℕ → Byte) (entry : Entry) : Entry :=
  if entry.record = some record then { entry with lba := le32 field 0, bytes := le32 field 8 }
  else entry

theorem overwritten_entry {p : ℕ} (hp : IsRecord sector p) :
    entryAt lba sector' p = relocate record field (entryAt lba sector p) := by
  have hlength := hp.length
  have hflag : sector' (p + 25) = sector (p + 25) :=
    overwritten_apart hsame hrecord hp.boundary (by omega) (Or.inr (by omega))
  by_cases hhere : lba * 2048 + p = record
  · have hfield : ∀ i < 16, sector' (p + 2 + i) = field i := fun i hi => by
      rw [hsame _ (by omega), overwritten, if_pos (by omega)]
      exact congrArg field (by omega)
    have hle : ∀ i, i + 3 < 16 → le32 sector' (p + 2 + i) = le32 field i := fun i hi => by
      have h0 := hfield i (by omega)
      have h1 := hfield (i + 1) (by omega)
      have h2 := hfield (i + 2) (by omega)
      have h3 := hfield (i + 3) (by omega)
      unfold le32
      rw [h0, show p + 2 + i + 1 = p + 2 + (i + 1) by omega, h1,
        show p + 2 + i + 2 = p + 2 + (i + 2) by omega, h2,
        show p + 2 + i + 3 = p + 2 + (i + 3) by omega, h3]
    have hrec : (entryAt lba sector p).record = some record := congrArg some hhere
    rw [relocate, if_pos hrec]
    unfold entryAt
    rw [hflag, hle 0 (by omega), show p + 10 = p + 2 + 8 by omega, hle 8 (by omega)]
  · -- another record of the sector, or another sector
    have hat : ∀ i, 2 ≤ i → i < 18 → sector' (p + i) = sector (p + i) := fun i h2 h18 => by
      rw [hsame _ (by omega), overwritten, if_neg]
      have hfits := hrecord.1
      by_cases hlba : record / 2048 = lba
      · have hq := hrecord.2 hlba
        have hqlength := hq.length
        rcases Nat.lt_trichotomy p (record % 2048) with h | h | h
        · rcases hq.boundary.before hp.boundary (le_of_lt h) with h' | ⟨-, h'⟩
          · omega
          · omega
        · omega
        · rcases hp.boundary.before hq.boundary (le_of_lt h) with h' | ⟨-, h'⟩
          · omega
          · omega
      · omega
    have hle : ∀ i, 2 ≤ i → i + 3 < 18 → le32 sector' (p + i) = le32 sector (p + i) :=
      fun i h2 h18 => by
        have h0 := hat i h2 (by omega)
        have h1 := hat (i + 1) (by omega) (by omega)
        have h2 := hat (i + 2) (by omega) (by omega)
        have h3 := hat (i + 3) (by omega) (by omega)
        unfold le32
        simp only [← Nat.add_assoc] at h1 h2 h3
        rw [h0, h1, h2, h3]
    have hrec : (entryAt lba sector p).record ≠ some record := fun h => hhere (Option.some.inj h)
    rw [relocate, if_neg hrec]
    unfold entryAt
    rw [hflag, hle 2 (by omega) (by omega), hle 10 (by omega) (by omega)]

end Overwritten

/-! ## Lookups after a record was overwritten -/

/-- A record that a lookup can find, in a sector that can be read. -/
structure RecordFile (read : SectorRead) (record : ℕ) (sector : Buffer) : Prop where
  readable : read (record / 2048) = .ok sector
  isRecord : IsRecord sector (record % 2048)
  lba : record / 2048 < 2 ^ 32

theorem RecordFile.recordsAt {read : SectorRead} {record : ℕ} {sector b : Buffer} {lba : ℕ}
    (h : RecordFile read record sector) (hread : read lba = .ok b) : RecordsAt record lba b := by
  refine ⟨by have := h.isRecord.length; omega, fun hlba => ?_⟩
  subst hlba
  have hsame := h.readable.symm.trans hread
  obtain rfl : sector = b := by simpa using hsame
  exact h.isRecord

theorem searchDirectory_found {read : SectorRead} {want : List Byte} {lba n i : ℕ} {entry : Entry}
    (h : searchDirectory read want lba n i = .ok entry) :
    ∃ record sector, entry.record = some record ∧ RecordFile read record sector ∧
      entry = entryAt (record / 2048) sector (record % 2048) := by
  induction n generalizing i with
  | zero => cases h
  | succ n ih =>
    rw [searchDirectory] at h
    cases hread : read ((lba + i) % 2 ^ 32) with
    | error e =>
      rw [hread] at h
      cases h
    | ok sector =>
      rw [hread] at h
      dsimp only at h
      cases hscan : scanSector want sector 2048 0 with
      | absent =>
        rw [hscan] at h
        exact ih h
      | malformed =>
        rw [hscan] at h
        cases h
      | found p =>
        rw [hscan] at h
        obtain rfl : entryAt ((lba + i) % 2 ^ 32) sector p = entry := by simpa using h
        have hrecord := scanSector_found Boundary.start hscan
        have hp := hrecord.inside
        have hdiv : ((lba + i) % 2 ^ 32 * 2048 + p) / 2048 = (lba + i) % 2 ^ 32 := by omega
        have hmod : ((lba + i) % 2 ^ 32 * 2048 + p) % 2048 = p := by omega
        refine ⟨_, sector, rfl, ⟨by rw [hdiv]; exact hread, by rw [hmod]; exact hrecord, ?_⟩, ?_⟩
        · rw [hdiv]
          exact Nat.mod_lt _ (by norm_num)
        · rw [hdiv, hmod]

theorem walkPath_found {read : SectorRead} {wants : List (List Byte)} {start entry : Entry}
    (h : walkPath read wants start = .ok entry) : entry = start ∨
      ∃ record sector, entry.record = some record ∧ RecordFile read record sector ∧
        entry = entryAt (record / 2048) sector (record % 2048) := by
  induction wants generalizing start with
  | nil => exact Or.inl (by simpa [walkPath] using h.symm)
  | cons want rest ih =>
    rw [walkPath] at h
    by_cases hdir : start.directory
    · rw [if_neg (by simp [hdir])] at h
      cases hsearch : searchDirectory read (want.map toUpper) start.lba
          ((start.bytes + 2047) % 2 ^ 32 / 2048) 0 with
      | error e =>
        rw [hsearch] at h
        cases h
      | ok found =>
        rw [hsearch] at h
        rcases ih h with rfl | hfound
        · exact Or.inr (searchDirectory_found hsearch)
        · exact Or.inr hfound
    · rw [if_pos (by simp [hdir])] at h
      cases h

/-- What a lookup finds is the root or lies in a directory record. -/
theorem findEffectiveFile_found {read : SectorRead} {path : List Byte} {entry : Entry}
    (h : findEffectiveFile read path = .ok entry) : (entry.record = none ∧ entry.directory = true) ∨
      ∃ record sector, entry.record = some record ∧ RecordFile read record sector ∧
        entry = entryAt (record / 2048) sector (record % 2048) := by
  rw [findEffectiveFile] at h
  cases hread : read 16 with
  | error e =>
    rw [hread] at h
    cases h
  | ok sector =>
    rw [hread] at h
    dsimp only at h
    split at h
    case isTrue => cases h
    case isFalse =>
      rcases walkPath_found h with rfl | hfound
      · exact Or.inl ⟨rfl, rfl⟩
      · exact Or.inr hfound

/-- The volume descriptor begins with a 1 and so has no record. -/
theorem descriptor_apart {record : ℕ} {read : SectorRead} {file sector : Buffer}
    (hfile : RecordFile read record file) (hread : read 16 = .ok sector) (hone : sector 0 = 1) :
    record / 2048 ≠ 16 := by
  intro h16
  have hrecord := (hfile.recordsAt hread).2 h16
  have hfirst : ¬IsRecord sector 0 := fun h0 => by
    have := h0.length.1
    rw [recordLength, hone] at this
    exact absurd this (by decide)
  rcases hrecord.boundary.before Boundary.start (Nat.zero_le _) with h0 | ⟨h0, -⟩
  · exact hfirst (h0 ▸ hrecord)
  · exact hfirst h0

/-- `read'` sees the records of `read`, with their entries changed by `E`, and may see sectors from
`beyond` on that `read` does not have. -/
structure Follows (E : Entry → Entry) (beyond : ℕ) (read read' : SectorRead) : Prop where
  kept : ∀ lba < 2 ^ 32, ∀ sector, read lba = .ok sector → ∃ sector', read' lba = .ok sector' ∧
    (∀ want, scanSector want sector' 2048 0 = scanSector want sector 2048 0) ∧
    (∀ p, IsRecord sector p → entryAt lba sector' p = E (entryAt lba sector p)) ∧
    sector' 0 = sector 0 ∧ (lba = 16 → sector 0 = 1 → SameSector sector' sector)
  refused : ∀ lba < 2 ^ 32, ∀ e, read lba = .error e →
    read' lba = .error e ∨ e = .unreadable lba ∧ beyond ≤ lba
  directories : ∀ record sector, RecordFile read record sector →
    (entryAt (record / 2048) sector (record % 2048)).directory = true →
      E (entryAt (record / 2048) sector (record % 2048)) =
        entryAt (record / 2048) sector (record % 2048)
  flags : ∀ entry, (E entry).directory = entry.directory
  root : ∀ entry, entry.record = none → E entry = entry

/-- A lookup finds what it found, changed by `E`, unless it had stopped at a sector that did not
exist. -/
def FoundAs (E : Entry → Entry) (beyond : ℕ) (r r' : Except Refusal Entry) : Prop :=
  r' = r.map E ∨ ∃ lba, beyond ≤ lba ∧ r = .error (.unreadable lba)

section Lookups

variable {E : Entry → Entry} {beyond : ℕ} {read read' : SectorRead} (h : Follows E beyond read read')
include h

theorem searchDirectory_follows (want : List Byte) (lba n i : ℕ) :
    FoundAs E beyond (searchDirectory read want lba n i) (searchDirectory read' want lba n i) := by
  induction n generalizing i with
  | zero => exact Or.inl rfl
  | succ n ih =>
    rw [searchDirectory, searchDirectory]
    have hlba : (lba + i) % 2 ^ 32 < 2 ^ 32 := Nat.mod_lt _ (by norm_num)
    cases hread : read ((lba + i) % 2 ^ 32) with
    | error e =>
      rcases h.refused _ hlba e hread with hread' | ⟨rfl, hbeyond⟩
      · rw [hread']
        exact Or.inl rfl
      · exact Or.inr ⟨_, hbeyond, rfl⟩
    | ok sector =>
      obtain ⟨sector', hread', hscans, hentries, -, -⟩ := h.kept _ hlba sector hread
      rw [hread']
      dsimp only
      rw [hscans]
      cases hscan : scanSector want sector 2048 0 with
      | absent => exact ih (i + 1)
      | malformed => exact Or.inl rfl
      | found p =>
        exact Or.inl (congrArg Except.ok (hentries p (scanSector_found Boundary.start hscan)))

theorem walkPath_follows (wants : List (List Byte)) (start : Entry)
    (hstart : start.directory = true → E start = start) :
    FoundAs E beyond (walkPath read wants start) (walkPath read' wants (E start)) := by
  induction wants generalizing start with
  | nil => exact Or.inl rfl
  | cons want rest ih =>
    rw [walkPath, walkPath]
    by_cases hdir : start.directory = true
    · rw [hstart hdir, if_neg (by simp [hdir]), if_neg (by simp [hdir])]
      have hsearch := searchDirectory_follows h (want.map toUpper) start.lba
        ((start.bytes + 2047) % 2 ^ 32 / 2048) 0
      cases hfound : searchDirectory read (want.map toUpper) start.lba
          ((start.bytes + 2047) % 2 ^ 32 / 2048) 0 with
      | error e =>
        rw [hfound] at hsearch
        rcases hsearch with hsearch | ⟨lba, hbeyond, he⟩
        · rw [hsearch]
          exact Or.inl rfl
        · exact Or.inr ⟨lba, hbeyond, he⟩
      | ok entry =>
        rw [hfound] at hsearch
        rcases hsearch with hsearch | ⟨lba, -, he⟩
        · rw [hsearch]
          refine ih entry fun hentry => ?_
          obtain ⟨record, sector, -, hfile, rfl⟩ := searchDirectory_found hfound
          exact h.directories record sector hfile hentry
        · cases he
    · rw [if_pos (by simp [hdir]), if_pos (by simp [h.flags, hdir])]
      exact Or.inl rfl

theorem findEffectiveFile_follows (path : List Byte) :
    FoundAs E beyond (findEffectiveFile read path) (findEffectiveFile read' path) := by
  rw [findEffectiveFile, findEffectiveFile]
  cases hread : read 16 with
  | error e =>
    rcases h.refused 16 (by norm_num) e hread with hread' | ⟨rfl, hbeyond⟩
    · rw [hread']
      exact Or.inl rfl
    · exact Or.inr ⟨16, hbeyond, rfl⟩
  | ok sector =>
    obtain ⟨sector', hread', -, -, hfirst, hdescriptor⟩ := h.kept 16 (by norm_num) sector hread
    rw [hread']
    dsimp only
    by_cases hone : sector 0 = 1
    · have hall := hdescriptor rfl hone
      have hmagic : (List.range 5).map (fun i => sector' (1 + i)) =
          (List.range 5).map fun i => sector (1 + i) :=
        List.map_congr_left fun i hi => hall _ (by have := List.mem_range.1 hi; omega)
      have hle : ∀ p, p + 3 < 2048 → le32 sector' p = le32 sector p := fun p hp => by
        unfold le32
        rw [hall _ (by omega), hall _ (by omega), hall _ (by omega), hall _ hp]
      rw [hfirst, hmagic, hle _ (by norm_num), hle _ (by norm_num)]
      split
      case isTrue => exact Or.inl rfl
      case isFalse =>
        have hroot := h.root ⟨none, le32 sector (156 + 2), le32 sector (156 + 10), true⟩ rfl
        have hwalk := walkPath_follows h (components path)
          ⟨none, le32 sector (156 + 2), le32 sector (156 + 10), true⟩ fun _ => hroot
        rwa [hroot] at hwalk
    · rw [hfirst, if_pos (Or.inl hone), if_pos (Or.inl hone)]
      exact Or.inl rfl

end Lookups

/-- Overwriting the fields of a file's record. -/
theorem follows_overwritten {record beyond : ℕ} {field : ℕ → Byte} {read read' : SectorRead}
    {file : Buffer} (hfile : RecordFile read record file)
    (hflag : (entryAt (record / 2048) file (record % 2048)).directory = false)
    (hkept : ∀ lba < 2 ^ 32, ∀ sector, read lba = .ok sector →
      ∃ sector', read' lba = .ok sector' ∧ SameSector sector' (overwritten record field lba sector))
    (hrefused : ∀ lba < 2 ^ 32, ∀ e, read lba = .error e →
      read' lba = .error e ∨ e = .unreadable lba ∧ beyond ≤ lba) :
    Follows (relocate record field) beyond read read' where
  kept := by
    intro lba hlba sector hread
    obtain ⟨sector', hread', hsame⟩ := hkept lba hlba sector hread
    have hat := hfile.recordsAt hread
    refine ⟨sector', hread', fun want => overwritten_scan hsame hat want Boundary.start,
      fun p hp => overwritten_entry hsame hat hp,
      overwritten_apart hsame hat Boundary.start (i := 0) (by norm_num) (Or.inl rfl), ?_⟩
    rintro rfl hone q hq
    have hapart := descriptor_apart hfile hread hone
    have hfits := hat.1
    rw [hsame q hq, overwritten, if_neg (by omega)]
  refused := hrefused
  directories := by
    intro record' sector hfile' hdir
    refine if_neg fun hsame => ?_
    have hrecord : record' / 2048 * 2048 + record' % 2048 = record := Option.some.inj hsame
    obtain rfl : record' = record := by omega
    have hread := hfile'.readable.symm.trans hfile.readable
    obtain rfl : sector = file := by simpa using hread
    rw [hflag] at hdir
    cases hdir
  flags := by
    intro entry
    unfold relocate
    split
    case isTrue => rfl
    case isFalse => rfl
  root := fun entry hnone => if_neg (by rw [hnone]; simp)

/-- Sectors that are only added. -/
theorem follows_extended {beyond : ℕ} {read read' : SectorRead}
    (hkept : ∀ lba < 2 ^ 32, ∀ sector, read lba = .ok sector → read' lba = .ok sector)
    (hrefused : ∀ lba < 2 ^ 32, ∀ e, read lba = .error e →
      read' lba = .error e ∨ e = .unreadable lba ∧ beyond ≤ lba) :
    Follows id beyond read read' where
  kept := fun lba hlba sector hread => ⟨sector, hkept lba hlba sector hread, fun _ => rfl,
    fun _ _ => rfl, rfl, fun _ _ _ _ => rfl⟩
  refused := hrefused
  directories := fun _ _ _ _ => rfl
  flags := fun _ => rfl
  root := fun _ _ => rfl

end PsxRecomp.Mods
