import Mathlib
import PsxRecomp.Mods.PatchedRecords

/-! Replaced files read back. A replacement overwrites the fields of one directory record and adds
sectors behind the disc, so lookups find what they found, and the record's file at its new place. -/
namespace PsxRecomp.Mods
open Cells MemoryEdit
set_option autoImplicit false

/-! ## Replacements -/

def Replacement.fields (r : Replacement) : List Byte := recordFields r.lba r.bytes.length

/-- The entry of the replaced record has the new place and size. -/
def Replacement.entry (r : Replacement) (entry : Entry) : Entry :=
  if entry.record = some r.record then { entry with lba := r.lba, bytes := r.bytes.length } else entry

theorem littleEndian_toNat (v : BitVec 32) :
    (v.extractLsb' 0 8).toNat + (v.extractLsb' 8 8).toNat * 2 ^ 8 +
      (v.extractLsb' 16 8).toNat * 2 ^ 16 + (v.extractLsb' 24 8).toNat * 2 ^ 24 = v.toNat := by
  simp only [BitVec.extractLsb'_toNat, Nat.shiftRight_eq_div_pow]
  have := v.isLt
  omega

theorem le32_fields {lba size : ℕ} (hlba : lba < 2 ^ 32) (hsize : size < 2 ^ 32) :
    le32 (fun i => (recordFields lba size).getD i 0) 0 = lba ∧
      le32 (fun i => (recordFields lba size).getD i 0) 8 = size := by
  have hl := littleEndian_toNat (BitVec.ofNat 32 lba)
  have hs := littleEndian_toNat (BitVec.ofNat 32 size)
  rw [BitVec.toNat_ofNat, Nat.mod_eq_of_lt hlba] at hl
  rw [BitVec.toNat_ofNat, Nat.mod_eq_of_lt hsize] at hs
  exact ⟨hl, hs⟩

/-- What a replacement that succeeds has done. -/
structure Replaces (s : Activation) (reader : ISOReader) (s' : Activation) (r : Replacement) :
    Prop where
  nonempty : r.path ≠ [] ∧ r.bytes ≠ []
  size : r.bytes.length ≤ kMaxDiscFileBytes
  found : ∃ entry, s.find r.path = .ok entry ∧ entry.record = some r.record ∧
    entry.directory = false
  lba : r.lba = endOf reader.sectorCount s.extents
  inside : r.lba + fileSectors r.bytes + 150 ≤ lastLba
  free : s.disc.derived.any (fun p =>
    onFields r.record p && !(decide (p.offset = r.record + 2 ∧ p.bytes.length = 16))) = false
  state : s' = { s with
    disc.derived := putPatch r.record ⟨r.record + 2, r.fields⟩ s.disc.derived
    extents := s.extents ++ [⟨r.lba, fileSectors r.bytes, sectorsOf r.bytes⟩]
    extentStart := reader.sectorCount }

theorem replaceDiscFile_replaces {s s' : Activation} {reader : ISOReader} (h : s.Mounted reader)
    {caller : Caller} {path bytes : List Byte} {r : Replacement}
    (hcall : replaceDiscFile s caller path bytes = (s', some r)) :
    Replaces s reader s' r := by
  unfold replaceDiscFile at hcall
  split at hcall
  case isTrue => cases hcall
  case isFalse hargs =>
    push Not at hargs
    cases hfind : s.find path with
    | error e =>
      rw [hfind] at hcall
      cases e with
      | guardFailed => cases hcall
      | noDisc => cases hcall
      | unreadable lba => cases hcall
      | malformed => cases hcall
      | notDirectory => cases hcall
      | notFound => cases hcall
    | ok entry =>
      rw [hfind] at hcall
      dsimp only at hcall
      rw [h.mounted] at hcall
      split at hcall
      case h_2 => cases hcall
      case h_1 record reader' hrecord hdir hreader =>
        obtain rfl := Option.some.inj hreader
        rw [h.start_eq, nextLba_eq h.contiguous] at hcall
        split at hcall
        case isTrue => cases hcall
        case isFalse hroom =>
          split at hcall
          case isTrue => cases hcall
          case isFalse hfree =>
            obtain ⟨rfl, hr⟩ := Prod.mk.inj hcall
            obtain rfl := Option.some.inj hr
            exact {
              nonempty := ⟨hargs.2.2.1, hargs.2.2.2.1⟩
              size := hargs.2.2.2.2
              found := ⟨entry, hfind, hrecord, hdir⟩
              lba := rfl
              inside := by
                dsimp only
                omega
              free := Bool.eq_false_iff.2 hfree
              state := by
                rw [h.mounted]
                rfl }

theorem fileSectors_pos {bytes : List Byte} (h : bytes ≠ []) : 0 < fileSectors bytes := by
  have := List.length_pos_iff.2 h
  unfold fileSectors
  omega

theorem Replaces.lbaBound {s s' : Activation} {reader : ISOReader} {r : Replacement}
    (h : Replaces s reader s' r) :
    r.lba + fileSectors r.bytes < 2 ^ 32 ∧ r.bytes.length < 2 ^ 32 := by
  have hinside := h.inside
  have hsize := h.size
  norm_num [lastLba, kMaxDiscFileBytes] at hinside hsize ⊢
  omega

theorem Replaces.entry_eq {s s' : Activation} {reader : ISOReader} {r : Replacement}
    (h : Replaces s reader s' r) :
    (relocate r.record fun i => r.fields.getD i 0) = r.entry := by
  obtain ⟨hlba, hsize⟩ := h.lbaBound
  have hlow : r.lba < 2 ^ 32 := by omega
  obtain ⟨hl, hs⟩ := le32_fields hlow hsize
  funext entry
  unfold relocate Replacement.entry Replacement.fields
  rw [hl, hs]

/-- The record that a replacement found. -/
theorem Replaces.recordFile {s s' : Activation} {reader : ISOReader} {r : Replacement}
    (hs : s.Mounted reader) (h : Replaces s reader s' r) :
    ∃ file, RecordFile s.readUserSector r.record file ∧
      (entryAt (r.record / 2048) file (r.record % 2048)).directory = false := by
  obtain ⟨entry, hfind, hrecord, hdir⟩ := h.found
  rw [hs.find_eq] at hfind
  rcases findEffectiveFile_found hfind with ⟨hnone, -⟩ | ⟨record, file, hsome, hfile, rfl⟩
  · rw [hnone] at hrecord
    cases hrecord
  · rw [hrecord] at hsome
    obtain rfl := Option.some.inj hsome
    exact ⟨file, hfile, hdir⟩

/-- It lies in a sector of the disc or of an extent. -/
theorem Replaces.recordBound {s s' : Activation} {reader : ISOReader} {r : Replacement}
    (hs : s.Mounted reader) (hopen : s.disc.Open)
    (hmodes : s.disc.plan.KeepsModes) (h : Replaces s reader s' r) :
    r.record + 18 ≤ r.lba * 2048 := by
  obtain ⟨file, hfile, -⟩ := h.recordFile hs
  have hlength := hfile.isRecord.length
  have hbelow : r.record / 2048 < r.lba := by
    by_contra hnot
    have hread := readUserSector_eq hopen hmodes (BitVec.ofNat 32 (r.record / 2048))
    rw [BitVec.toNat_ofNat, Nat.mod_eq_of_lt hfile.lba, hfile.readable,
      base_beyond hs (by rw [← h.lba]; omega)] at hread
    cases hread
  omega

/-! ## Calls -/

inductive Call
  | replaceDiscFile (path bytes : List Byte)
  | appendDiscExtent (resource : List Byte) (byteOffset sectorCount : ℕ)
  | appendCDDATracks (tracks : List CDDATrack)

/-- A call, whether it succeeds, and the replacement it has made. -/
def Activation.call (s : Activation) (caller : Caller) : Call → Activation × Bool × List Replacement
  | .replaceDiscFile path bytes =>
    let r := replaceDiscFile s caller path bytes
    (r.1, r.2.isSome, r.2.toList)
  | .appendDiscExtent resource byteOffset sectorCount =>
    let r := appendDiscExtent s caller resource byteOffset sectorCount
    (r.1, r.2.isSome, [])
  | .appendCDDATracks tracks =>
    let r := appendCDDATracks s caller tracks
    (r.1, r.2.isSome, [])

theorem replaceDiscFile_fails {s : Activation} {caller : Caller} {path bytes : List Byte}
    (h : (replaceDiscFile s caller path bytes).2 = none) :
    (replaceDiscFile s caller path bytes).1 = s ∨ s.find path = .error .guardFailed ∧
      (replaceDiscFile s caller path bytes).1 = { s with disc.discGuardFailed := true } := by
  revert h
  unfold replaceDiscFile
  split
  case isTrue => exact fun _ => Or.inl rfl
  case isFalse =>
    split
    case h_1 hfind => exact fun _ => Or.inr ⟨hfind, rfl⟩
    case h_2 => exact fun _ => Or.inl rfl
    case h_3 =>
      split
      case h_2 => exact fun _ => Or.inl rfl
      case h_1 =>
        dsimp only
        split
        case isTrue => exact fun _ => Or.inl rfl
        case isFalse =>
          split
          case isTrue => exact fun _ => Or.inl rfl
          case isFalse => exact fun h => absurd h (by simp)

theorem appendDiscExtent_fails {s : Activation} {caller : Caller} {resource : List Byte}
    {byteOffset sectorCount : ℕ}
    (h : (appendDiscExtent s caller resource byteOffset sectorCount).2 = none) :
    (appendDiscExtent s caller resource byteOffset sectorCount).1 = s := by
  revert h
  unfold appendDiscExtent
  split
  case h_1 => exact fun _ => rfl
  case h_2 =>
    split
    case isTrue => exact fun _ => rfl
    case isFalse =>
      dsimp only
      split
      case isTrue => exact fun _ => rfl
      case isFalse =>
        split
        case isTrue => exact fun _ => rfl
        case isFalse => exact fun h => absurd h (by simp)

/-- A state with audio tracks behind those of another. -/
def MoreTracks (s s' : Activation) : Prop :=
  ∃ tracks, s' = { s with audioTracks := s.audioTracks ++ tracks }

theorem MoreTracks.refl (s : Activation) : MoreTracks s s := ⟨[], by simp⟩

theorem MoreTracks.trans {s t u : Activation} (h : MoreTracks s t) (h' : MoreTracks t u) :
    MoreTracks s u := by
  obtain ⟨a, rfl⟩ := h
  obtain ⟨b, rfl⟩ := h'
  exact ⟨a ++ b, by simp⟩

theorem appendAudioTrack_more {s s' : Activation} {caller : Caller} {count source lba : ℕ}
    {data : Option (List Byte)} (h : appendAudioTrack s caller count source data = some (s', lba)) :
    MoreTracks s s' := by
  unfold appendAudioTrack at h
  split at h
  case isTrue => cases h
  case isFalse =>
    dsimp only at h
    split at h
    case isTrue => cases h
    case isFalse =>
      obtain ⟨rfl, -⟩ := Prod.mk.inj (Option.some.inj h)
      exact ⟨_, rfl⟩

theorem appendCDDATrack_more {s s' : Activation} {caller : Caller} {t : CDDATrack} {place : ℕ × ℕ}
    (h : appendCDDATrack s caller t = some (s', place)) : MoreTracks s s' := by
  unfold appendCDDATrack at h
  split at h
  case h_1 resource hresource =>
    split at h
    case isTrue => cases h
    case isFalse =>
      obtain ⟨r, hr, he⟩ := Option.map_eq_some_iff.1 h
      obtain rfl : r.1 = s' := congrArg Prod.fst he
      unfold appendResourceAudioTrack at hr
      split at hr
      case h_1 => cases hr
      case h_2 =>
        split at hr
        case isTrue => cases hr
        case isFalse => exact appendAudioTrack_more hr
  case h_2 =>
    split at h
    case isTrue => cases h
    case isFalse =>
      unfold appendDiscAudioTrack at h
      split at h
      case h_1 => cases h
      case h_2 =>
        split at h
        case isTrue => cases h
        case isFalse =>
          dsimp only at h
          split at h
          case isTrue => cases h
          case isFalse =>
            obtain ⟨r, hr, he⟩ := Option.map_eq_some_iff.1 h
            obtain rfl : r.1 = s' := congrArg Prod.fst he
            exact appendAudioTrack_more hr

theorem appendTracks_more (caller : Caller) (s : Activation) (tracks : List CDDATrack) :
    MoreTracks s (appendTracks caller s tracks).1 := by
  induction tracks generalizing s with
  | nil => exact MoreTracks.refl s
  | cons t tracks ih =>
    rw [appendTracks]
    cases htrack : appendCDDATrack s caller t with
    | none => exact MoreTracks.refl s
    | some r => exact (appendCDDATrack_more htrack).trans (ih r.1)

/-- A group of tracks is appended, or none of them. -/
theorem appendCDDATracks_spec (s : Activation) (caller : Caller) (tracks : List CDDATrack) :
    MoreTracks s (appendCDDATracks s caller tracks).1 ∧
      ((appendCDDATracks s caller tracks).2 = none → (appendCDDATracks s caller tracks).1 = s) := by
  unfold appendCDDATracks
  split
  case isTrue => exact ⟨MoreTracks.refl s, fun _ => rfl⟩
  case isFalse =>
    split
    case isTrue => exact ⟨MoreTracks.refl s, fun _ => rfl⟩
    case isFalse =>
      dsimp only
      have hmore := appendTracks_more caller s tracks
      split
      case isTrue => exact ⟨hmore, fun h => absurd h (by simp)⟩
      case isFalse =>
        obtain ⟨more, hmore⟩ := hmore
        have hsame : { (appendTracks caller s tracks).1 with
            audioTracks := (appendTracks caller s tracks).1.audioTracks.take s.audioTracks.length } =
            s := by
          rw [hmore]
          simp
        rw [hsame]
        exact ⟨MoreTracks.refl s, fun _ => rfl⟩

/-- A call that fails changes nothing; one whose lookup meets a failing guard marks it. -/
theorem call_fails {s : Activation} {caller : Caller} {c : Call} (h : (s.call caller c).2.1 = false) :
    (s.call caller c).1 = s ∨ ∃ path bytes, c = .replaceDiscFile path bytes ∧
      s.find path = .error .guardFailed ∧
        (s.call caller c).1 = { s with disc.discGuardFailed := true } := by
  cases c with
  | replaceDiscFile path bytes =>
    have hnone : (replaceDiscFile s caller path bytes).2 = none := by
      simpa [Activation.call] using h
    rcases replaceDiscFile_fails hnone with hsame | ⟨hfind, hstate⟩
    · exact Or.inl hsame
    · exact Or.inr ⟨path, bytes, rfl, hfind, hstate⟩
  | appendDiscExtent resource byteOffset sectorCount =>
    have hnone : (appendDiscExtent s caller resource byteOffset sectorCount).2 = none := by
      simpa [Activation.call] using h
    exact Or.inl (appendDiscExtent_fails hnone)
  | appendCDDATracks tracks =>
    have hnone : (appendCDDATracks s caller tracks).2 = none := by
      simpa [Activation.call] using h
    exact Or.inl ((appendCDDATracks_spec s caller tracks).2 hnone)

/-! ## Runs -/

/-- What a call that leaves the guards whole can do. -/
inductive Effect (s : Activation) (reader : ISOReader) (s' : Activation) : List Replacement → Prop
  | tracks : MoreTracks s s' → Effect s reader s' []
  | extended (e : DiscExtent) : e.lba = endOf reader.sectorCount s.extents → 0 < e.count →
      s' = { s with extents := s.extents ++ [e], extentStart := reader.sectorCount } →
        Effect s reader s' []
  | replaced (r : Replacement) : Replaces s reader s' r → Effect s reader s' [r]

theorem appendDiscExtent_extends {s s' : Activation} {reader : ISOReader} (h : s.Mounted reader)
    {caller : Caller} {resource : List Byte} {byteOffset sectorCount lba : ℕ}
    (hcall : appendDiscExtent s caller resource byteOffset sectorCount = (s', some lba)) :
    Effect s reader s' [] := by
  unfold appendDiscExtent at hcall
  split at hcall
  case h_1 => cases hcall
  case h_2 =>
    split at hcall
    case isTrue => cases hcall
    case isFalse hargs =>
      dsimp only at hcall
      split at hcall
      case isTrue => cases hcall
      case isFalse hroom =>
        split at hcall
        case isTrue => cases hcall
        case isFalse =>
          obtain ⟨rfl, -⟩ := Prod.mk.inj hcall
          have hstart : s.startLba s.mountEnd = reader.sectorCount := by
            by_cases hnone : s.extents = []
            · have hmount : s.mountEnd ≠ 0 := fun h0 => hroom (Or.inl ⟨hnone, by
                rw [Activation.startLba, if_pos hnone, h0]⟩)
              rw [Activation.startLba, if_pos hnone]
              unfold Activation.mountEnd at hmount ⊢
              rw [h.mounted] at hmount ⊢
              dsimp only at hmount ⊢
              split at hmount
              case isTrue => exact absurd rfl hmount
              case isFalse hfull => rw [if_neg hfull]
            · rw [Activation.startLba, if_neg hnone, h.start hnone]
          rw [hstart, nextLba_eq h.contiguous]
          push Not at hargs
          exact Effect.extended _ rfl (Nat.pos_of_ne_zero hargs.2.1) rfl

theorem call_effect {s : Activation} {reader : ISOReader} (h : s.Mounted reader) {caller : Caller}
    {c : Call} (hguard : (s.call caller c).1.disc.discGuardFailed = false) :
    Effect s reader (s.call caller c).1 (s.call caller c).2.2 := by
  cases c with
  | replaceDiscFile path bytes =>
    cases hcall : (replaceDiscFile s caller path bytes).2 with
    | some r =>
      have hpair : replaceDiscFile s caller path bytes =
          ((replaceDiscFile s caller path bytes).1, some r) := Prod.ext rfl hcall
      have hnew : (s.call caller (.replaceDiscFile path bytes)).2.2 = [r] := by
        simp [Activation.call, hcall]
      rw [hnew]
      exact Effect.replaced r (replaceDiscFile_replaces h hpair)
    | none =>
      have hnew : (s.call caller (.replaceDiscFile path bytes)).2.2 = [] := by
        simp [Activation.call, hcall]
      rw [hnew]
      rcases replaceDiscFile_fails hcall with hsame | ⟨-, hstate⟩
      · refine Effect.tracks ?_
        have hsame' : (s.call caller (.replaceDiscFile path bytes)).1 = s := hsame
        rw [hsame']
        exact MoreTracks.refl s
      · have hstate' : (s.call caller (.replaceDiscFile path bytes)).1 = _ := hstate
        rw [hstate'] at hguard
        cases hguard
  | appendDiscExtent resource byteOffset sectorCount =>
    show Effect s reader (appendDiscExtent s caller resource byteOffset sectorCount).1 []
    cases hcall : (appendDiscExtent s caller resource byteOffset sectorCount).2 with
    | some lba =>
      have hpair : appendDiscExtent s caller resource byteOffset sectorCount =
          ((appendDiscExtent s caller resource byteOffset sectorCount).1, some lba) :=
        Prod.ext rfl hcall
      exact appendDiscExtent_extends h hpair
    | none =>
      rw [appendDiscExtent_fails hcall]
      exact Effect.tracks (MoreTracks.refl s)
  | appendCDDATracks tracks => exact Effect.tracks (appendCDDATracks_spec s caller tracks).1

/-- A failed guard stays failed. -/
theorem call_guard {s : Activation} {caller : Caller} {c : Call}
    (hguard : (s.call caller c).1.disc.discGuardFailed = false) : s.disc.discGuardFailed = false := by
  cases c with
  | replaceDiscFile path bytes =>
    have hcall : (replaceDiscFile s caller path bytes).1.disc.discGuardFailed = false := hguard
    revert hcall
    unfold replaceDiscFile
    split
    case isTrue => exact id
    case isFalse =>
      split
      case h_1 => exact fun h => absurd h (by simp)
      case h_2 => exact id
      case h_3 =>
        split
        case h_2 => exact id
        case h_1 =>
          dsimp only
          split
          case isTrue => exact id
          case isFalse =>
            split
            case isTrue => exact id
            case isFalse => exact id
  | appendDiscExtent resource byteOffset sectorCount =>
    have hcall : (appendDiscExtent s caller resource byteOffset sectorCount).1.disc.discGuardFailed =
      false := hguard
    revert hcall
    unfold appendDiscExtent
    split
    case h_1 => exact id
    case h_2 =>
      split
      case isTrue => exact id
      case isFalse =>
        dsimp only
        split
        case isTrue => exact id
        case isFalse =>
          split
          case isTrue => exact id
          case isFalse => exact id
  | appendCDDATracks tracks =>
    have hcall : (appendCDDATracks s caller tracks).1.disc.discGuardFailed = false := hguard
    obtain ⟨more, hmore⟩ := (appendCDDATracks_spec s caller tracks).1
    rwa [hmore] at hcall

/-- The entry after some replacements. -/
def entryAfter (ledger : List Replacement) (entry : Entry) : Entry :=
  ledger.foldl (fun entry r => r.entry entry) entry

theorem Replacement.entry_record (r : Replacement) (entry : Entry) :
    (r.entry entry).record = entry.record := by
  unfold Replacement.entry
  split
  case isTrue => rfl
  case isFalse => rfl

/-- Without a replacement of its record an entry stays. -/
theorem entryAfter_same {ledger : List Replacement} {entry : Entry}
    (h : ∀ r ∈ ledger, entry.record ≠ some r.record) : entryAfter ledger entry = entry := by
  induction ledger with
  | nil => rfl
  | cons r ledger ih =>
    have hr : r.entry entry = entry := if_neg (h r List.mem_cons_self)
    rw [entryAfter, List.foldl_cons, hr]
    exact ih fun r' hr' => h r' (List.mem_cons_of_mem _ hr')

section Effect

variable {s s' : Activation} {reader : ISOReader} {new : List Replacement}

theorem Effect.frame (h : Effect s reader s' new) : s'.reader = s.reader ∧
    s'.disc.initialized = s.disc.initialized ∧
    s'.disc.discGuardFailed = s.disc.discGuardFailed ∧ s'.disc.plan = s.disc.plan := by
  cases h with
  | tracks hmore =>
    obtain ⟨more, rfl⟩ := hmore
    exact ⟨rfl, rfl, rfl, rfl⟩
  | extended e hlba hcount hstate =>
    subst hstate
    exact ⟨rfl, rfl, rfl, rfl⟩
  | replaced r hr =>
    rw [hr.state]
    exact ⟨rfl, rfl, rfl, rfl⟩

theorem Effect.extents (h : Effect s reader s' new) : ∃ more, s'.extents = s.extents ++ more ∧
    Contiguous (endOf reader.sectorCount s.extents) more := by
  cases h with
  | tracks hmore =>
    obtain ⟨more, rfl⟩ := hmore
    exact ⟨[], by simp, trivial⟩
  | extended e hlba hcount hstate =>
    subst hstate
    exact ⟨[e], rfl, hlba, hcount, trivial⟩
  | replaced r hr =>
    refine ⟨[⟨r.lba, fileSectors r.bytes, sectorsOf r.bytes⟩], by rw [hr.state], hr.lba,
      fileSectors_pos hr.nonempty.2, trivial⟩

theorem Effect.derived (h : Effect s reader s' new) : ∀ d ∈ s'.disc.derived,
    d ∈ s.disc.derived ∨ ∃ r ∈ new, d = ⟨r.record + 2, r.fields⟩ := by
  cases h with
  | tracks hmore =>
    obtain ⟨more, rfl⟩ := hmore
    exact fun d hd => Or.inl hd
  | extended e hlba hcount hstate =>
    subst hstate
    exact fun d hd => Or.inl hd
  | replaced r hr =>
    intro d hd
    obtain ⟨before, old, after, hderived, hput, -, -⟩ :=
      putPatch_split ⟨r.record + 2, r.fields⟩ hr.free
    rw [hr.state] at hd
    dsimp only at hd
    rw [hput] at hd
    rw [hderived]
    simp only [List.mem_append, List.mem_singleton] at hd ⊢
    rcases hd with (hd | hd) | hd
    · exact Or.inl (Or.inl (Or.inl hd))
    · exact Or.inr ⟨r, rfl, hd⟩
    · exact Or.inl (Or.inr hd)

theorem recordFields_length (lba size : ℕ) : (recordFields lba size).length = 16 := rfl

theorem Effect.mounted (h : Effect s reader s' new) (hs : s.Mounted reader)
    (hguard : s.disc.discGuardFailed = false) (hmodes : s.disc.plan.KeepsModes) :
    s'.Mounted reader := by
  obtain ⟨hreader, hinit, -, -⟩ := h.frame
  obtain ⟨more, hextents, hcontiguous⟩ := h.extents
  have hend : endOf reader.sectorCount s.extents ≤ endOf reader.sectorCount s'.extents := by
    rw [hextents, endOf_append]
    exact Nat.le_add_right _ _
  constructor
  case mounted => rw [hreader, hs.mounted]
  case initialized => rw [hinit, hs.initialized]
  case contiguous =>
    rw [hextents]
    exact contiguous_append.2 ⟨hs.contiguous, hcontiguous⟩
  case start =>
    intro hne
    cases h with
    | tracks hmore =>
      obtain ⟨tracks, rfl⟩ := hmore
      exact hs.start hne
    | extended e hlba hcount hstate =>
      subst hstate
      rfl
    | replaced r hr => rw [hr.state]
  case derived =>
    intro d hd
    rcases h.derived d hd with hold | ⟨r, hr, rfl⟩
    · exact le_trans (hs.derived d hold) (Nat.mul_le_mul_right 2048 hend)
    · cases h with
      | tracks => cases hr
      | extended => cases hr
      | replaced r' hr' =>
        obtain rfl := List.mem_singleton.1 hr
        have hbound := hr'.recordBound hs ⟨hs.initialized, hguard⟩ hmodes
        rw [hr'.lba] at hbound
        dsimp only
        rw [Replacement.fields, recordFields_length, Nat.add_assoc]
        exact le_trans hbound (Nat.mul_le_mul_right 2048 hend)

theorem Effect.follows (h : Effect s reader s' new) (hs : s.Mounted reader)
    (hguard : s.disc.discGuardFailed = false) (hmodes : s.disc.plan.KeepsModes)
    (hleaves : ∀ r ∈ new, s.disc.plan.Leaves (r.record + 2) 16) (path : List Byte) :
    FoundAs (entryAfter new) (endOf reader.sectorCount s.extents) (s.find path) (s'.find path) := by
  have hs' := h.mounted hs hguard hmodes
  obtain ⟨-, -, hguard', -⟩ := h.frame
  rw [hs.find_eq, hs'.find_eq]
  have hopen : s.disc.Open := ⟨hs.initialized, hguard⟩
  cases h with
  | tracks hmore =>
    obtain ⟨tracks, hstate⟩ := hmore
    have hsame : s'.readUserSector = s.readUserSector := by
      rw [hstate]
      rfl
    left
    rw [hsame]
    cases findEffectiveFile s.readUserSector path with
    | error e => rfl
    | ok entry => rfl
  | extended e hlba hcount hstate =>
    have hfollows : Follows id (endOf reader.sectorCount s.extents) s.readUserSector
        s'.readUserSector := read_extended hs hopen hmodes (by rw [hstate]) (by rw [hstate])
      (by rw [hstate]) hlba
    exact findEffectiveFile_follows hfollows path
  | replaced r hr =>
    obtain ⟨file, hfile, hflag⟩ := hr.recordFile hs
    have hopen' : s'.disc.Open := ⟨hs'.initialized, by rw [hguard', hguard]⟩
    have hrepatched : Repatched r.record r.fields s.disc s'.disc := {
      plan := by rw [hr.state]
      derived := by rw [hr.state]
      length := recordFields_length _ _
      free := hr.free
      leaves := hleaves r List.mem_cons_self }
    have hfollows := read_replaced hs hopen hopen' hmodes (by rw [hr.state]) hrepatched
      (e := ⟨r.lba, fileSectors r.bytes, sectorsOf r.bytes⟩) (by rw [hr.state]) hr.lba hfile hflag
    have hentry := hr.entry_eq
    rw [hentry] at hfollows
    exact findEffectiveFile_follows hfollows path

end Effect

/-- Calls of any plugins, one after the other, with the replacements they make. -/
inductive Run : Activation → Activation → List Replacement → Prop
  | refl (s : Activation) : Run s s []
  | call {s t : Activation} {ledger : List Replacement} (caller : Caller) (c : Call) :
      Run (s.call caller c).1 t ledger → Run s t ((s.call caller c).2.2 ++ ledger)

theorem Run.guard {s t : Activation} {ledger : List Replacement} (h : Run s t ledger)
    (hguard : t.disc.discGuardFailed = false) : s.disc.discGuardFailed = false := by
  induction h with
  | refl s => exact hguard
  | call caller c _ ih => exact call_guard (ih hguard)

/-- What a run keeps: the plan, the mounted disc, and what was added before. -/
structure Kept (s t : Activation) (reader : ISOReader) (ledger : List Replacement) : Prop where
  plan : t.disc.plan = s.disc.plan
  mounted : t.Mounted reader
  extents : ∃ more, t.extents = s.extents ++ more
  derived : ∀ d ∈ t.disc.derived, d ∈ s.disc.derived ∨ ∃ r ∈ ledger, d = ⟨r.record + 2, r.fields⟩

theorem Run.kept {s t : Activation} {ledger : List Replacement} {reader : ISOReader}
    (h : Run s t ledger) (hs : s.Mounted reader) (hmodes : s.disc.plan.KeepsModes)
    (hguard : t.disc.discGuardFailed = false) : Kept s t reader ledger := by
  induction h with
  | refl s => exact ⟨rfl, hs, ⟨[], by simp⟩, fun d hd => Or.inl hd⟩
  | @call s t ledger caller c hrest ih =>
    have hguard' := hrest.guard hguard
    have heffect := call_effect hs hguard'
    obtain ⟨-, -, -, hplan⟩ := heffect.frame
    have hmounted := heffect.mounted hs (call_guard hguard') hmodes
    have hkept := ih hmounted (by rwa [hplan]) hguard
    obtain ⟨more, hmore, -⟩ := heffect.extents
    obtain ⟨rest, hrest'⟩ := hkept.extents
    refine ⟨hkept.plan.trans hplan, hkept.mounted, ⟨more ++ rest, ?_⟩, fun d hd => ?_⟩
    · rw [hrest', hmore, List.append_assoc]
    · rcases hkept.derived d hd with hd | ⟨r, hr, hd⟩
      · rcases heffect.derived d hd with hd | ⟨r, hr, hd⟩
        · exact Or.inl hd
        · exact Or.inr ⟨r, List.mem_append_left _ hr, hd⟩
      · exact Or.inr ⟨r, List.mem_append_right _ hr, hd⟩

/-- A run up to one of its replacements, that replacement, and the rest. -/
theorem Run.split {s t : Activation} {ledger : List Replacement} {reader : ISOReader}
    (h : Run s t ledger) (hs : s.Mounted reader) (hmodes : s.disc.plan.KeepsModes)
    (hguard : t.disc.discGuardFailed = false) {pre post : List Replacement} {r : Replacement}
    (hledger : ledger = pre ++ r :: post) : ∃ s₁ s₂, s₁.Mounted reader ∧
      s₁.disc.discGuardFailed = false ∧ s₁.disc.plan = s.disc.plan ∧ Replaces s₁ reader s₂ r ∧
      Run s₂ t post ∧ Run s₁ t (r :: post) := by
  induction h generalizing pre with
  | refl s => exact absurd hledger (by simp)
  | @call s t ledger caller c hrest ih =>
    have hguard' := hrest.guard hguard
    have heffect := call_effect hs hguard'
    obtain ⟨-, -, -, hplan⟩ := heffect.frame
    have hmounted := heffect.mounted hs (call_guard hguard') hmodes
    have hrest' : ∀ pre', ledger = pre' ++ r :: post → ∃ s₁ s₂, s₁.Mounted reader ∧
        s₁.disc.discGuardFailed = false ∧ s₁.disc.plan = s.disc.plan ∧ Replaces s₁ reader s₂ r ∧
        Run s₂ t post ∧ Run s₁ t (r :: post) := fun pre' hpre' => by
      obtain ⟨s₁, s₂, h₁, h₂, h₃, h₄⟩ := ih hmounted (by rwa [hplan]) hguard hpre'
      exact ⟨s₁, s₂, h₁, h₂, h₃.trans hplan, h₄⟩
    have hwhole := Run.call caller c hrest
    generalize (s.call caller c).2.2 = new at heffect hledger hwhole
    generalize (s.call caller c).1 = next at heffect hrest
    cases heffect with
    | tracks => exact hrest' pre hledger
    | extended => exact hrest' pre hledger
    | replaced r' hr' =>
      cases pre with
      | nil =>
        obtain ⟨rfl, rfl⟩ := List.cons.inj hledger
        exact ⟨s, next, hs, call_guard hguard', rfl, hr', hrest, hwhole⟩
      | cons first pre => exact hrest' pre (List.cons.inj hledger).2

/-- A path resolves as it did, through the replacements of its record. -/
theorem Run.follows {s t : Activation} {ledger : List Replacement} {reader : ISOReader}
    (h : Run s t ledger) (hs : s.Mounted reader) (hmodes : s.disc.plan.KeepsModes)
    (hguard : t.disc.discGuardFailed = false)
    (hleaves : ∀ r ∈ ledger, s.disc.plan.Leaves (r.record + 2) 16) (path : List Byte) :
    FoundAs (entryAfter ledger) (endOf reader.sectorCount s.extents) (s.find path)
      (t.find path) := by
  induction h with
  | refl s =>
    left
    cases s.find path with
    | error e => rfl
    | ok entry => rfl
  | @call s t ledger caller c hrest ih =>
    have hguard' := hrest.guard hguard
    have heffect := call_effect hs hguard'
    obtain ⟨-, -, -, hplan⟩ := heffect.frame
    have hmounted := heffect.mounted hs (call_guard hguard') hmodes
    obtain ⟨more, hmore, -⟩ := heffect.extents
    have hfirst := heffect.follows hs (call_guard hguard') hmodes
      (fun r hr => hleaves r (List.mem_append_left _ hr)) path
    have hthen := ih hmounted (by rwa [hplan]) hguard
      fun r hr => by rw [hplan]; exact hleaves r (List.mem_append_right _ hr)
    rcases hfirst with hfirst | hgone
    · rw [hfirst] at hthen
      cases hfind : s.find path with
      | error e =>
        rw [hfind] at hthen
        rcases hthen with hthen | ⟨lba, hbeyond, he⟩
        · exact Or.inl hthen
        · refine Or.inr ⟨lba, ?_, he⟩
          rw [hmore, endOf_append] at hbeyond
          exact le_trans (Nat.le_add_right _ _) hbeyond
      | ok entry =>
        rw [hfind] at hthen
        rcases hthen with hthen | ⟨lba, -, he⟩
        · left
          rw [hthen]
          simp [entryAfter, Except.map]
        · cases he
    · exact Or.inr hgone

/-! ## The bytes of a replaced file -/

theorem form1Sector_length {chunk : List Byte} (h : chunk.length ≤ 2048) :
    (form1Sector chunk).length = 2336 := by
  unfold form1Sector
  dsimp only
  simp only [List.length_append, List.length_replicate, littleEndian, List.length_cons,
    List.length_nil]
  omega

theorem form1Sector_data {chunk : List Byte} {q : ℕ} (hq : q < 2048) :
    (form1Sector chunk).getD (8 + q) 0 = chunk.getD q 0 := by
  unfold form1Sector
  dsimp only
  generalize littleEndian (sectorEdc _) = checksum
  generalize List.replicate 276 (0 : Byte) = tail
  have hhead : ([0, 0, 8, 0, 0, 0, 8, 0] : List Byte).length = 8 := rfl
  rw [List.append_assoc, List.append_assoc, List.append_assoc,
    List.getD_append_right _ _ _ _ (by rw [hhead]; omega), hhead, Nat.add_sub_cancel_left]
  by_cases hin : q < chunk.length
  · rw [List.getD_append _ _ _ _ hin]
  · have hzeros : q - chunk.length < (List.replicate (2048 - chunk.length) (0 : Byte)).length := by
      rw [List.length_replicate]
      omega
    rw [List.getD_append_right _ _ _ _ (by omega), List.getD_append _ _ _ _ hzeros,
      List.getD_eq_getElem _ _ hzeros, List.getElem_replicate,
      List.getD_eq_default _ _ (Nat.le_of_not_lt hin)]

/-- Blocks of one length, one behind the other. -/
theorem getD_blocks {f : ℕ → List Byte} {len : ℕ} (hlen : ∀ i, (f i).length = len) {n i j : ℕ}
    (hi : i < n) (hj : j < len) : ((List.range n).flatMap f).getD (i * len + j) 0 = (f i).getD j 0 := by
  have htotal : ∀ n, ((List.range n).flatMap f).length = n * len := fun n => by
    simp [List.length_flatMap, hlen]
  induction n with
  | zero => exact absurd hi (Nat.not_lt_zero i)
  | succ n ih =>
    rw [List.range_succ, List.flatMap_append]
    by_cases hlast : i < n
    · have hbelow : i * len + j < n * len := by
        calc i * len + j < i * len + len := by omega
          _ = (i + 1) * len := by ring
          _ ≤ n * len := Nat.mul_le_mul_right len hlast
      rw [List.getD_append _ _ _ _ (by rw [htotal]; exact hbelow), ih hlast]
    · obtain rfl : i = n := by omega
      rw [List.getD_append_right _ _ _ _ (by rw [htotal]; exact Nat.le_add_right _ _), htotal,
        Nat.add_sub_cancel_left]
      simp

theorem sectorsOf_data {bytes : List Byte} {i q : ℕ} (hi : i < fileSectors bytes) (hq : q < 2048) :
    (sectorsOf bytes).getD (i * 2336 + 8 + q) 0 = bytes.getD (i * 2048 + q) 0 := by
  unfold sectorsOf
  rw [Nat.add_assoc, getD_blocks (fun i => form1Sector_length (List.length_take_le _ _)) hi (by omega),
    form1Sector_data hq]
  simp only [List.getD_eq_getElem?_getD]
  rw [List.getElem?_take_of_lt hq, List.getElem?_drop]

/-- Sectors that lie in the extent of a replacement hold its bytes, as long as no record in them is
itself replaced. -/
theorem Replaces.reads_back {s₁ s₂ t : Activation} {reader : ISOReader} {r : Replacement}
    {post : List Replacement} (h : Replaces s₁ reader s₂ r) (hs₁ : s₁.Mounted reader)
    (hguard₁ : s₁.disc.discGuardFailed = false) (hmodes : s₁.disc.plan.KeepsModes)
    (hrun : Run s₂ t post) (hguard : t.disc.discGuardFailed = false)
    (hleaves : s₁.disc.plan.Leaves (r.lba * 2048) (fileSectors r.bytes * 2048))
    (hapart : ∀ r' ∈ post, r'.record + 18 ≤ r.lba * 2048 ∨
      (r.lba + fileSectors r.bytes) * 2048 ≤ r'.record + 2) {i : ℕ} (hi : i < fileSectors r.bytes) :
    ∃ sector, t.readUserSector (r.lba + i) = .ok sector ∧
      ∀ q < 2048, sector q = r.bytes.getD (i * 2048 + q) 0 := by
  have heffect := Effect.replaced r h
  obtain ⟨-, -, -, hplan₂⟩ := heffect.frame
  have hs₂ := heffect.mounted hs₁ hguard₁ hmodes
  have hkept := hrun.kept hs₂ (by rwa [hplan₂]) hguard
  have hplan : t.disc.plan = s₁.disc.plan := hkept.plan.trans hplan₂
  have hbound := h.lbaBound
  -- the extent is the first one that covers the sector
  obtain ⟨more, hmore⟩ := hkept.extents
  have hextents : t.extents = s₁.extents ++
      ⟨r.lba, fileSectors r.bytes, sectorsOf r.bytes⟩ :: more := by
    rw [hmore, h.state, List.append_assoc]
    rfl
  have hfind : (t.extents.find? fun e => e.covers (r.lba + i)) =
      some ⟨r.lba, fileSectors r.bytes, sectorsOf r.bytes⟩ := by
    rw [hextents, List.find?_append]
    have hbefore : (s₁.extents.find? fun e => e.covers (r.lba + i)) = none := by
      rw [List.find?_eq_none]
      intro e he
      have hend := (contiguous_mem hs₁.contiguous he).2
      rw [← h.lba] at hend
      simp only [DiscExtent.covers, decide_eq_true_eq]
      omega
    have hhere : (⟨r.lba, fileSectors r.bytes, sectorsOf r.bytes⟩ : DiscExtent).covers (r.lba + i) =
        true := by
      rw [DiscExtent.covers, decide_eq_true_eq]
      dsimp only
      omega
    rw [hbefore, Option.none_or]
    exact List.find?_cons_of_pos hhere
  have hread := readUserSector_eq (s := t) ⟨hkept.mounted.initialized, hguard⟩ (by rwa [hplan])
    (BitVec.ofNat 32 (r.lba + i))
  rw [BitVec.toNat_ofNat, Nat.mod_eq_of_lt (by omega), Activation.base, hfind] at hread
  dsimp only at hread
  have hpatched := patchedUser_eq (s := t) ⟨hkept.mounted.initialized, hguard⟩
    (BitVec.ofNat 32 (r.lba + i))
    (DiscExtent.userData ⟨r.lba, fileSectors r.bytes, sectorsOf r.bytes⟩ (r.lba + i))
  rw [BitVec.toNat_ofNat, Nat.mod_eq_of_lt (by omega), hplan] at hpatched
  -- neither the plan nor a derived patch reaches it
  have hinside : ∀ q < 2048, r.lba * 2048 ≤ (r.lba + i) * 2048 + q ∧
      (r.lba + i) * 2048 + q < r.lba * 2048 + fileSectors r.bytes * 2048 := fun q hq => by omega
  have hholds : Holds (sectorCells .discUser (r.lba + i) s₁.disc.plan.guardCells)
      (paint (DiscExtent.userData ⟨r.lba, fileSectors r.bytes, sectorsOf r.bytes⟩ (r.lba + i))
        (derivedCellsOf t.disc.derived (r.lba + i))) := by
    intro c hc
    have hq : c.1 < 2048 := (mem_sectorCells.1 hc).1
    exact absurd hc (hleaves.not_mem (hinside c.1 hq) c.2).1
  rw [if_pos hholds] at hpatched
  refine ⟨_, hread.trans hpatched, fun q hq => ?_⟩
  rw [paint_outside _ _ _ fun v => (hleaves.not_mem (hinside q hq) v).2, paint_outside]
  · rw [DiscExtent.userData, Nat.add_sub_cancel_left, sectorsOf_data hi hq]
  · intro v hmem
    obtain ⟨d, hd, hcell⟩ := List.mem_flatMap.1 hmem
    obtain ⟨-, hlow, hget⟩ := mem_rangeCells.1 hcell
    obtain ⟨hhigh, -⟩ := List.getElem?_eq_some_iff.1 hget
    rcases hkept.derived d hd with hd | ⟨r', hr', rfl⟩
    · rcases heffect.derived d hd with hd | ⟨r', hr', rfl⟩
      · have hold := hs₁.derived d hd
        rw [← h.lba] at hold
        omega
      · obtain rfl := List.mem_singleton.1 hr'
        have hrecord := h.recordBound hs₁ ⟨hs₁.initialized, hguard₁⟩ hmodes
        rw [Replacement.fields, recordFields_length] at hhigh
        dsimp only at hlow hhigh
        omega
    · have hoff := hapart r' hr'
      rw [Replacement.fields, recordFields_length] at hhigh
      dsimp only at hlow hhigh
      omega

/-- The copy loop over sectors that hold the bytes of a file. -/
theorem readFileSectors_eq {t : Activation} {lba : ℕ} {bytes : List Byte}
    (hlba : lba + fileSectors bytes < 2 ^ 32)
    (h : ∀ i < fileSectors bytes, ∃ sector, t.readUserSector (lba + i) = .ok sector ∧
      ∀ q < 2048, sector q = bytes.getD (i * 2048 + q) 0) {n i : ℕ} (hn : n + i = fileSectors bytes) :
    readFileSectors t lba bytes.length n i = some (bytes.drop (i * 2048)) := by
  induction n generalizing i with
  | zero =>
    rw [readFileSectors, List.drop_eq_nil_of_le]
    unfold fileSectors at hn
    omega
  | succ n ih =>
    obtain ⟨sector, hread, hsector⟩ := h i (by omega)
    rw [readFileSectors, Nat.mod_eq_of_lt (by omega), hread]
    dsimp only
    rw [ih (by omega), Option.map_some]
    congr 1
    have hchunk : (List.range (min 2048 (bytes.length - i * 2048))).map sector =
        (bytes.drop (i * 2048)).take 2048 := by
      refine List.ext_getElem (by simp) fun q h₁ h₂ => ?_
      simp only [List.length_map, List.length_range] at h₁
      rw [List.getElem_map, List.getElem_range, hsector q (by omega), List.getElem_take,
        List.getElem_drop, List.getD_eq_getElem]
    rw [hchunk, show (i + 1) * 2048 = i * 2048 + 2048 by ring, ← List.drop_drop,
      List.take_append_drop]

/-! ## Replaced files -/

/-- At the start of an activation nothing has been added to the disc. -/
structure Activation.Fresh (s : Activation) (reader : ISOReader) : Prop where
  mounted : s.reader = some reader
  initialized : s.disc.initialized = true
  extents : s.extents = []
  derived : s.disc.derived = []

theorem Activation.Fresh.begins {s : Activation} {reader : ISOReader} (h : s.Fresh reader) :
    s.Mounted reader where
  mounted := h.mounted
  initialized := h.initialized
  contiguous := by
    rw [h.extents]
    trivial
  start := fun hne => absurd h.extents hne
  derived := by
    rw [h.derived]
    exact fun d hd => absurd hd List.not_mem_nil

/-- The last replacement of a record decides. -/
theorem entryAfter_latest {mid post : List Replacement} {r : Replacement} {entry : Entry}
    (hentry : entry.record = some r.record) (hpost : ∀ r' ∈ post, r'.record ≠ r.record) :
    entryAfter (mid ++ r :: post) entry =
      ⟨entry.record, r.lba, r.bytes.length, entry.directory⟩ := by
  induction mid generalizing entry with
  | nil =>
    have hr : r.entry entry = ⟨entry.record, r.lba, r.bytes.length, entry.directory⟩ :=
      if_pos hentry
    rw [List.nil_append, entryAfter, List.foldl_cons, hr]
    refine entryAfter_same fun r' hr' hsame => hpost r' hr' ?_
    exact (Option.some.inj (hsame.symm.trans hentry))
  | cons first mid ih =>
    have hdir : (first.entry entry).directory = entry.directory := by
      unfold Replacement.entry
      split
      case isTrue => rfl
      case isFalse => rfl
    have hrecord := first.entry_record entry
    rw [List.cons_append, entryAfter, List.foldl_cons]
    refine (ih (by rw [hrecord, hentry])).trans ?_
    rw [hrecord, hdir]

/-- A replaced path resolves to the latest replacement of its record. -/
theorem replaced_found {s t : Activation} {reader : ISOReader} {ledger : List Replacement}
    (hs : s.Mounted reader) (hrun : Run s t ledger) (hmodes : s.disc.plan.KeepsModes)
    (hguard : t.disc.discGuardFailed = false)
    (hleaves : ∀ r ∈ ledger, s.disc.plan.Leaves (r.record + 2) 16)
    {pre rest mid post : List Replacement} {r₀ r : Replacement}
    (hledger : ledger = pre ++ r₀ :: rest) (hlatest : r₀ :: rest = mid ++ r :: post)
    (hrecord : r₀.record = r.record) (hpost : ∀ r' ∈ post, r'.record ≠ r.record) :
    t.find r₀.path = .ok ⟨some r.record, r.lba, r.bytes.length, false⟩ := by
  obtain ⟨s₁, s₂, hs₁, hguard₁, hplan, hreplaces, -, hrun₁⟩ := hrun.split hs hmodes hguard hledger
  obtain ⟨entry, hfind, hentry, hdir⟩ := hreplaces.found
  have hfollows := hrun₁.follows hs₁ (by rwa [hplan]) hguard
    (fun r' hr' => by
      rw [hplan]
      exact hleaves r' (by rw [hledger]; exact List.mem_append_right _ hr')) r₀.path
  rw [hfind] at hfollows
  rcases hfollows with hfollows | ⟨lba, -, he⟩
  · rw [hfollows, hlatest, Except.map,
      entryAfter_latest (hentry.trans (congrArg some hrecord)) hpost, hentry, hdir, hrecord]
  · cases he

/-- No record in the sectors of a replacement is replaced. -/
def KeepsSectors (r : Replacement) (later : List Replacement) : Prop :=
  ∀ r' ∈ later, r'.record + 18 ≤ r.lba * 2048 ∨
    (r.lba + fileSectors r.bytes) * 2048 ≤ r'.record + 2

/-- After any calls that leave the guards whole, under a plan that leaves the replaced records and
the added sectors alone: replaced paths resolve to the latest replacement of their record and read
back, other paths resolve as before, and the extents lie behind the disc one after the other; a
call that fails changes nothing but the mark of a failed guard. -/
theorem replaced_disc_files {s t : Activation} {reader : ISOReader} {ledger : List Replacement}
    (hfresh : s.Fresh reader) (hrun : Run s t ledger) (hguard : t.disc.discGuardFailed = false)
    (hmodes : s.disc.plan.KeepsModes)
    (hleaves : ∀ r ∈ ledger, s.disc.plan.Leaves (r.record + 2) 16 ∧
      s.disc.plan.Leaves (r.lba * 2048) (fileSectors r.bytes * 2048)) :
    (∀ pre r post, ledger = pre ++ r :: post → (∀ r' ∈ post, r'.record ≠ r.record) →
        ∀ r₀ ∈ pre ++ [r], r₀.record = r.record →
          t.find r₀.path = .ok ⟨some r.record, r.lba, r.bytes.length, false⟩) ∧
      (∀ pre r post, ledger = pre ++ r :: post → KeepsSectors r post →
        (∀ i < fileSectors r.bytes, ∃ sector, t.readUserSector (r.lba + i) = .ok sector ∧
            ∀ q < 2048, sector q = r.bytes.getD (i * 2048 + q) 0) ∧
          ((∀ r' ∈ post, r'.record ≠ r.record) → readDiscFile t r.path = some r.bytes)) ∧
      (∀ path entry, s.find path = .ok entry → (∀ r ∈ ledger, entry.record ≠ some r.record) →
        t.find path = .ok entry) ∧
      (∀ path e, s.find path = .error e → t.find path = .error e ∨
        ∃ lba, reader.sectorCount ≤ lba ∧ e = .unreadable lba) ∧
      Contiguous reader.sectorCount t.extents ∧
      t.extents.Pairwise (fun a b => a.lba + a.count ≤ b.lba) ∧
      ∀ caller c, (t.call caller c).2.1 = false → (t.call caller c).1 = t ∨
        ∃ path bytes, c = .replaceDiscFile path bytes ∧ t.find path = .error .guardFailed ∧
          (t.call caller c).1 = { t with disc.discGuardFailed := true } := by
  have hs := hfresh.begins
  have hfields : ∀ r ∈ ledger, s.disc.plan.Leaves (r.record + 2) 16 := fun r hr => (hleaves r hr).1
  have hcontiguous := (hrun.kept hs hmodes hguard).mounted.contiguous
  have hfollows := hrun.follows hs hmodes hguard hfields
  have hend : endOf reader.sectorCount s.extents = reader.sectorCount := by
    rw [hfresh.extents]
    rfl
  have hfound : ∀ pre r post, ledger = pre ++ r :: post → (∀ r' ∈ post, r'.record ≠ r.record) →
      ∀ r₀ ∈ pre ++ [r], r₀.record = r.record →
        t.find r₀.path = .ok ⟨some r.record, r.lba, r.bytes.length, false⟩ := by
    intro pre r post hledger hpost r₀ hr₀ hrecord
    rcases List.mem_append.1 hr₀ with hr₀ | hr₀
    · obtain ⟨a, b, rfl⟩ := List.append_of_mem hr₀
      have hfirst : ledger = a ++ r₀ :: (b ++ r :: post) := by
        rw [hledger, List.append_assoc, List.cons_append]
      have hlatest : r₀ :: (b ++ r :: post) = (r₀ :: b) ++ r :: post := rfl
      exact replaced_found hs hrun hmodes hguard hfields hfirst hlatest hrecord hpost
    · obtain rfl := List.mem_singleton.1 hr₀
      have hlatest : r₀ :: post = [] ++ r₀ :: post := rfl
      exact replaced_found hs hrun hmodes hguard hfields hledger hlatest rfl hpost
  refine ⟨hfound, fun pre r post hledger hkeeps => ?_, fun path entry hfind hother => ?_,
    fun path e hfind => ?_, hcontiguous, contiguous_pairwise hcontiguous, fun caller c => call_fails⟩
  · obtain ⟨s₁, s₂, hs₁, hguard₁, hplan, hreplaces, hrest, -⟩ := hrun.split hs hmodes hguard hledger
    have hr : r ∈ ledger := by
      rw [hledger]
      exact List.mem_append_right _ List.mem_cons_self
    have hread := fun i => hreplaces.reads_back hs₁ hguard₁ (by rwa [hplan]) hrest hguard
      (by rw [hplan]; exact (hleaves r hr).2) hkeeps (i := i)
    refine ⟨fun i hi => hread i hi, fun hpost => ?_⟩
    have hpath := hfound pre r post hledger hpost r (List.mem_append_right _ List.mem_cons_self) rfl
    have hlength := List.length_pos_iff.2 hreplaces.nonempty.2
    have hsize := hreplaces.size
    rw [readDiscFile, if_neg hreplaces.nonempty.1, hpath]
    dsimp only
    rw [if_neg (by simp only [Bool.false_eq_true, false_or, not_or]; omega)]
    exact readFileSectors_eq hreplaces.lbaBound.1 (fun i hi => hread i hi) rfl
  · rcases hfollows path with hsame | ⟨lba, -, he⟩
    · rw [hsame, hfind, Except.map, entryAfter_same hother]
    · rw [hfind] at he
      cases he
  · rcases hfollows path with hsame | ⟨lba, hbeyond, he⟩
    · exact Or.inl (by rw [hsame, hfind]; rfl)
    · rw [hfind] at he
      exact Or.inr ⟨lba, by rwa [hend] at hbeyond, Except.error.inj he⟩

/-! ## A small disc -/

def directoryRecord (lba size : ℕ) (flags name : Byte) : List Byte :=
  [34, 0] ++ recordFields lba size ++ List.replicate 7 0 ++ [flags] ++ List.replicate 6 0 ++ [1, name]

/-- A disc with a root, two directories with one sector, one directory behind the last sector, and a
file in the root. -/
def smallSector : ℕ → List Byte
  | 16 => 1 :: isoMagic ++ List.replicate 152 0 ++ recordFields 18 2048
  | 18 => directoryRecord 19 2048 2 0x41 ++ directoryRecord 19 2048 2 0x42 ++
      directoryRecord 20 2048 2 0x44 ++ directoryRecord 17 10 0 0x46
  | 19 => directoryRecord 17 10 0 0x47
  | _ => []

def smallDisc : ISOReader where
  sectorCount := 20
  tracks := [⟨1, false, 0, 0⟩]
  readRawSector := fun _ => none
  readSector lba := if lba < 20 then some fun q => (smallSector lba).getD q 0 else none
  raw_inside := fun lba sector h => absurd h (by simp)
  user_inside := fun lba sector h => by
    by_contra hlba
    rw [if_neg hlba] at h
    cases h

def activationOf (plan : DiscPlan) : Activation :=
  ⟨⟨true, false, plan, []⟩, some smallDisc, [], 0, []⟩

def pluginCaller : Caller := ⟨true, true, fun _ => none⟩

theorem no_overlays : ∀ o ∈ ([] : List Overlay), o.target ≠ .mainExe ∧ o.payload ≠ [] :=
  fun _ ho => absurd ho List.not_mem_nil

def emptyPlan : DiscPlan := DiscPlan.ofCoalesced [] [] (by decide) (by decide) no_overlays

def replaced (plan : DiscPlan) (path bytes : List Byte) : Activation × Bool × List Replacement :=
  (activationOf plan).call pluginCaller (.replaceDiscFile path bytes)

/-- A claim on the sector of the file in the root. -/
def patchedPlan : DiscPlan :=
  DiscPlan.ofCoalesced [discWrite .discUser (17 * 2048) 0 0x22 "a"] [] (by decide) (by decide)
    no_overlays

def twoSectors : List Byte := List.replicate 2049 9

/-- The file in the root replaced by a byte, and then by two sectors. -/
def replacedAgain : Activation × Bool × List Replacement :=
  (replaced patchedPlan [0x46] [7]).1.call pluginCaller (.replaceDiscFile [0x46] twoSectors)

set_option maxRecDepth 16000 in
/-- A file replaced in two calls reads back as the second one has put it. -/
theorem replaced_disc_files_again :
    replacedAgain.1.find [0x46] = .ok ⟨some (18 * 2048 + 102), 21, 2049, false⟩ ∧
      readDiscFile replacedAgain.1 [0x46] = some twoSectors := by
  have hfirst : (replaced patchedPlan [0x46] [7]).2.2 = [⟨[0x46], 18 * 2048 + 102, 20, [7]⟩] := by
    decide
  have hsecond : replacedAgain.2.2 = [⟨[0x46], 18 * 2048 + 102, 21, twoSectors⟩] := by
    decide
  have hrun : Run (activationOf patchedPlan) replacedAgain.1
      [⟨[0x46], 18 * 2048 + 102, 20, [7]⟩, ⟨[0x46], 18 * 2048 + 102, 21, twoSectors⟩] := by
    have hcalls := Run.call pluginCaller (.replaceDiscFile [0x46] [7])
      (Run.call pluginCaller (.replaceDiscFile [0x46] twoSectors) (Run.refl replacedAgain.1))
    rw [← replaced, ← replacedAgain, hfirst, hsecond] at hcalls
    exact hcalls
  have hfresh : (activationOf patchedPlan).Fresh smallDisc := ⟨rfl, rfl, rfl, rfl⟩
  have hmodes : patchedPlan.KeepsModes := by
    unfold DiscPlan.KeepsModes
    decide
  have hleaves : patchedPlan.Leaves (18 * 2048 + 104) 16 ∧ patchedPlan.Leaves (20 * 2048) 2048 ∧
      patchedPlan.Leaves (21 * 2048) 4096 := by
    unfold DiscPlan.Leaves
    decide
  have hsectors : fileSectors twoSectors = 2 := by
    rw [fileSectors, twoSectors, List.length_replicate]
  have hnone : ∀ r ∈ ([] : List Replacement), r.record ≠ 18 * 2048 + 102 :=
    fun r hr => absurd hr List.not_mem_nil
  obtain ⟨hfound, hread, -⟩ := replaced_disc_files hfresh hrun (by decide) hmodes (by
    intro r hr
    rcases List.mem_cons.1 hr with rfl | hr
    · exact ⟨hleaves.1, hleaves.2.1⟩
    · obtain rfl := List.mem_singleton.1 hr
      exact ⟨hleaves.1, by rw [hsectors]; exact hleaves.2.2⟩)
  have hfile := hfound [_] _ [] rfl hnone _ (List.mem_append_right _ List.mem_cons_self) rfl
  have hlength : twoSectors.length = 2049 := List.length_replicate
  rw [hlength] at hfile
  exact ⟨hfile, (hread [_] _ [] rfl fun r hr => absurd hr List.not_mem_nil).2 hnone⟩

/-- A guard on the volume descriptor that the disc does not meet. -/
def guardedPlan : DiscPlan :=
  DiscPlan.ofCoalesced [discWrite .discUser (16 * 2048) 0xFF 0x22 "a"] [] (by decide) (by decide)
    no_overlays

/-- An overlay on the fields of the file in the root. -/
def relocatingPlan : DiscPlan :=
  DiscPlan.ofCoalesced [] [⟨.discUser, 18 * 2048 + 104, recordFields 17 9, "", "", "a", "f"⟩]
    (by decide) (by decide) (by decide)

/-- A claim on the first sector that a replacement adds. -/
def reachingPlan : DiscPlan :=
  DiscPlan.ofCoalesced [discWrite .discUser (20 * 2048) 7 8 "a"] [] (by decide) (by decide) no_overlays

/-- The small disc in raw sectors, the root's of mode 1. -/
def rawDisc : ISOReader where
  sectorCount := 20
  tracks := [⟨1, false, 0, 0⟩]
  readRawSector lba :=
    if lba < 20 then
      some fun q => if q = 15 then if lba = 18 then 1 else 2 else (smallSector lba).getD (q - 24) 0
    else none
  readSector := fun _ => none
  raw_inside := fun lba sector h => by
    by_contra hlba
    rw [if_neg hlba] at h
    cases h
  user_inside := fun lba sector h => absurd h (by simp)

/-- A claim that makes mode 2 of it, so that nothing derived is put on the root. -/
def modePlan : DiscPlan :=
  DiscPlan.ofCoalesced [discWrite .discRaw (18 * 2352 + 15) 1 2 "a"] [] (by decide) (by decide)
    no_overlays

def rawReplaced : Activation × Bool × List Replacement :=
  { activationOf modePlan with reader := some rawDisc }.call pluginCaller (.replaceDiscFile [0x46] [7])

/-- A directory sector with one file. -/
def directoryFile : List Byte := directoryRecord 17 10 0 0x58

/-- The directory sector in the place of the file, and then its own file replaced. -/
def replacedTwice : Activation × Bool × List Replacement :=
  (replaced emptyPlan [0x46] directoryFile).1.call pluginCaller
    (.replaceDiscFile [0x44, 0x2F, 0x58] [1])

/-- What calls do beyond what they are for: a call fails and marks the guard; a file with two names
is replaced under both; the fields of a record stay those of the plan, and those of the disc where
it changes the mode of their sector; a claim of it changes the bytes of a replacement; and where a
directory lies behind the disc, a replaced file becomes its sector, with a path that did not resolve,
and changes with the record that is replaced in it. -/
theorem replacement_side_effects :
    ((replaced guardedPlan [0x46] [7]).2.1 = false ∧
        (activationOf guardedPlan).disc.discGuardFailed = false ∧
        (replaced guardedPlan [0x46] [7]).1.disc.discGuardFailed = true) ∧
      ((replaced emptyPlan [0x41, 0x2F, 0x47] [7]).2.1 = true ∧
        (activationOf emptyPlan).find [0x42, 0x2F, 0x47] =
          .ok ⟨some (19 * 2048), 17, 10, false⟩ ∧
        (replaced emptyPlan [0x41, 0x2F, 0x47] [7]).1.find [0x42, 0x2F, 0x47] =
          .ok ⟨some (19 * 2048), 20, 1, false⟩) ∧
      ((replaced relocatingPlan [0x46] [7]).2.1 = true ∧
        (replaced relocatingPlan [0x46] [7]).1.find [0x46] =
          .ok ⟨some (18 * 2048 + 102), 17, 9, false⟩) ∧
      (rawReplaced.2.1 = true ∧
        rawReplaced.1.find [0x46] = .ok ⟨some (18 * 2048 + 102), 17, 10, false⟩) ∧
      ((replaced reachingPlan [0x46] [7]).2.1 = true ∧
        readDiscFile (replaced reachingPlan [0x46] [7]).1 [0x46] = some [8]) ∧
      (replaced emptyPlan [0x46] directoryFile).2.1 = true ∧ replacedTwice.2.1 = true ∧
      (activationOf emptyPlan).find [0x44, 0x2F, 0x58] = .error (.unreadable 20) ∧
      (replaced emptyPlan [0x46] directoryFile).1.find [0x44, 0x2F, 0x58] =
        .ok ⟨some (20 * 2048), 17, 10, false⟩ ∧
      readDiscFile replacedTwice.1 [0x46] ≠ some directoryFile := by
  refine ⟨⟨?_, ?_, ?_⟩, ⟨?_, ?_, ?_⟩, ⟨?_, ?_⟩, ⟨?_, ?_⟩, ⟨?_, ?_⟩, ?_, ?_, ?_, ?_, ?_⟩
  all_goals decide

end PsxRecomp.Mods
