import PsxRecomp.Discovery.AddressModel

/-! What `from_config` accepts of a BIOS profile, the generated C of the address model, and how the maps over its copies
fit together. -/
namespace PsxRecomp.Discovery
open R3000
set_option autoImplicit false

/-! ## Profiles -/

structure CopyConfig where
  copy : AddrCopy
  kernelBless : Bool

/-- `BiosInstallSlot` -/
structure InstallSlot where
  ramAddr : Word
  len : Word

def InstallSlot.hi (s : InstallSlot) : Word := s.ramAddr + s.len

/-- What the address model takes from a `BiosConfig`. -/
structure BiosConfig where
  copies : List CopyConfig
  installSlots : List InstallSlot
  loadAddress : Word
  textSize : Word

inductive ConfigError where
  | emptyRom | unaligned | outsideImage | runtimeBase | romOverlap | ramOverlap | doubleFold
  | secondBless | blessKey
  | slotUnaligned | slotLength | slotWraps | slotOverlap | slotOutside
  deriving DecidableEq

/-- Half-open ranges that meet. -/
def overlap (lo hi lo' hi' : Word) : Prop := lo < hi' ∧ lo' < hi

instance (lo hi lo' hi' : Word) : Decidable (overlap lo hi lo' hi') := inferInstanceAs (Decidable (_ ∧ _))

theorem overlap_of_mem {lo hi lo' hi' p : Word} (h : lo ≤ p ∧ p < hi) (h' : lo' ≤ p ∧ p < hi') :
    overlap lo hi lo' hi' :=
  ⟨by bv_omega, by bv_omega⟩

namespace AddrCopy

def inLo (c : AddrCopy) : Word := if c.keyIsRam then c.romLo else c.ramLo
def inHi (c : AddrCopy) : Word := if c.keyIsRam then c.romHi else c.ramHi
def outLo (c : AddrCopy) : Word := if c.keyIsRam then c.ramLo else c.romLo
def outHi (c : AddrCopy) : Word := if c.keyIsRam then c.ramHi else c.romHi

end AddrCopy

def copyError (base size : Word) (earlier : List CopyConfig) (c : AddrCopy) : Option ConfigError :=
  if c.romHi ≤ c.romLo then some .emptyRom
  else if (c.romLo ||| c.romHi ||| c.ramLo ||| c.runtimeBase) &&& 3 ≠ 0 then some .unaligned
  else if c.romLo < base ∨ base + size < c.romHi then some .outsideImage
  else if c.runtimeBase &&& 0x1FFFFFFF ≠ c.ramLo then some .runtimeBase
  else earlier.findSome? fun p =>
    if overlap c.romLo c.romHi p.copy.romLo p.copy.romHi then some .romOverlap
    else if overlap c.ramLo c.ramHi p.copy.ramLo p.copy.ramHi then some .ramOverlap
    else none

/-- No fold's output is another's input. -/
def foldError (copies : List CopyConfig) : Option ConfigError :=
  copies.zipIdx.findSome? fun a => copies.zipIdx.findSome? fun b =>
    if a.2 ≠ b.2 ∧ overlap a.1.copy.outLo a.1.copy.outHi b.1.copy.inLo b.1.copy.inHi then some .doubleFold else none

def blessError (copies : List CopyConfig) : Option ConfigError :=
  copies.zipIdx.findSome? fun c =>
    if c.1.kernelBless then
      if (copies.take c.2).any (·.kernelBless) then some .secondBless
      else if c.1.copy.keyIsRam then none else some .blessKey
    else none

def slotError (bless : Option AddrCopy) (earlier : List InstallSlot) (s : InstallSlot) : Option ConfigError :=
  if s.ramAddr &&& 3 ≠ 0 then some .slotUnaligned
  else if s.len = 0 ∨ s.len &&& 3 ≠ 0 then some .slotLength
  else if s.hi < s.ramAddr then some .slotWraps
  else if earlier.any fun p => overlap s.ramAddr s.hi p.ramAddr p.hi then some .slotOverlap
  else match bless with
    | some c => if s.ramAddr < c.ramLo ∨ c.ramHi < s.hi then some .slotOutside else none
    | none => none

def blessed (copies : List CopyConfig) : Option AddrCopy := (copies.find? (·.kernelBless)).map (·.copy)

def configError (cfg : BiosConfig) : Option ConfigError :=
  (cfg.copies.zipIdx.findSome? fun c =>
    copyError (cfg.loadAddress &&& 0x1FFFFFFF) cfg.textSize (cfg.copies.take c.2) c.1.copy) <|>
  foldError cfg.copies <|> blessError cfg.copies <|>
  cfg.installSlots.zipIdx.findSome? fun s => slotError (blessed cfg.copies) (cfg.installSlots.take s.2) s.1

/-- The model with the window the kernel blesses and its install slots in order. -/
structure BiosProfile where
  model : BiosAddressModel
  bless : Option AddrCopy
  slots : List InstallSlot

/-- `BiosAddressModel::from_config` -/
def fromConfig (cfg : BiosConfig) : Except ConfigError BiosProfile :=
  match configError cfg with
  | some e => .error e
  | none => .ok ⟨⟨cfg.copies.map (·.copy), cfg.loadAddress &&& 0x1FFFFFFF, cfg.textSize⟩, blessed cfg.copies,
      cfg.installSlots.mergeSort fun a b => a.ramAddr ≤ b.ramAddr⟩

/-! ## The other maps -/

namespace BiosAddressModel
variable (m : BiosAddressModel)

/-- The copy whose ROM window holds a physical address. -/
def romCopy (phys : Word) : Option AddrCopy := m.copies.find? fun c => c.romLo ≤ phys ∧ phys < c.romHi

def runtimePc (romPc : Word) : Word :=
  match m.romCopy (romPc &&& 0x1FFFFFFF) with
  | some c => c.runtimeBase + ((romPc &&& 0x1FFFFFFF) - c.romLo)
  | none => romPc

def relocateJTarget (romAddr target : Word) : Word :=
  match m.romCopy (romAddr &&& 0x1FFFFFFF) with
  | some c =>
    ((c.runtimeBase + ((romAddr &&& 0x1FFFFFFF) - c.romLo)) &&& 0xF0000000) ||| (target &&& 0x0FFFFFFF)
  | none => target

/-- The generated `normalize`, with its inclusive bounds, under `g_psx_ram_mask`. -/
def emittedNormalize (ramMask addr : Word) : Word :=
  let phys := addr &&& 0x1FFFFFFF
  m.copies.foldl (fun phys c => if c.inLo ≤ phys ∧ phys ≤ c.inHi - 1 then phys - c.inLo + c.outLo else phys)
    (if phys < 0x00800000 then phys &&& ramMask else phys)

/-- The generated `psx_bios_key_home_pc` of a ROM at `romVa`. -/
def keyHomePc (romVa key : Word) : Word :=
  match m.copies.find? fun c => c.outLo ≤ key ∧ key ≤ c.outLo + (c.romHi - c.romLo) - 1 with
  | some c => key - c.outLo + c.runtimeBase
  | none =>
    if m.romBasePhys ≤ key ∧ key ≤ m.romBasePhys + m.romSize - 1 then (romVa &&& 0xE0000000) ||| key else 0

end BiosAddressModel

/-! ## What the checks give -/

/-- Two copies apart from each other: their windows, and the output of either fold from the input of the other. -/
def Apart (a b : AddrCopy) : Prop :=
  ¬ overlap b.romLo b.romHi a.romLo a.romHi ∧ ¬ overlap b.ramLo b.ramHi a.ramLo a.ramHi ∧
    ¬ overlap a.outLo a.outHi b.inLo b.inHi ∧ ¬ overlap b.outLo b.outHi a.inLo a.inHi

structure BiosAddressModel.Checked (m : BiosAddressModel) : Prop where
  copy : ∀ c ∈ m.copies, c.romLo < c.romHi ∧ m.romBasePhys ≤ c.romLo ∧ c.romHi ≤ m.romBasePhys + m.romSize ∧
    c.runtimeBase &&& 0x1FFFFFFF = c.ramLo
  apart : m.copies.Pairwise Apart

theorem copyError_none {base size : Word} {earlier : List CopyConfig} {c : AddrCopy}
    (h : copyError base size earlier c = none) :
    (c.romLo < c.romHi ∧ base ≤ c.romLo ∧ c.romHi ≤ base + size ∧ c.runtimeBase &&& 0x1FFFFFFF = c.ramLo) ∧
      ∀ p ∈ earlier, ¬ overlap c.romLo c.romHi p.copy.romLo p.copy.romHi ∧
        ¬ overlap c.ramLo c.ramHi p.copy.ramLo p.copy.ramHi := by
  unfold copyError at h
  split_ifs at h with h1 h2 h3 h4
  simp only [not_or, BitVec.not_le, BitVec.not_lt, not_not] at h1 h3 h4
  refine ⟨⟨h1, h3.1, h3.2, h4⟩, fun p hp => ?_⟩
  have := List.findSome?_eq_none_iff.1 h p hp
  split_ifs at this with h5 h6
  exact ⟨h5, h6⟩

theorem either_none {α : Type} {a b : Option α} : (a <|> b) = none ↔ a = none ∧ b = none := by
  cases a <;> simp

theorem fromConfig_checked {cfg : BiosConfig} {p : BiosProfile} (h : fromConfig cfg = .ok p) :
    p.model.Checked ∧ p.model.romBasePhys = cfg.loadAddress &&& 0x1FFFFFFF := by
  unfold fromConfig at h
  split at h
  · cases h
  · next hnone =>
    cases h
    simp only [configError, either_none, List.findSome?_eq_none_iff, Prod.forall, foldError] at hnone
    obtain ⟨hcopy, hfold, -, -⟩ := hnone
    refine ⟨⟨fun c hc => ?_, ?_⟩, rfl⟩
    · obtain ⟨k, hk, rfl⟩ := List.mem_map.1 hc
      obtain ⟨i, hi, rfl⟩ := List.mem_iff_getElem.1 hk
      exact (copyError_none (hcopy _ i (List.mk_mem_zipIdx_iff_getElem?.2 (List.getElem?_eq_getElem hi)))).1
    · refine List.pairwise_iff_getElem.2 fun i j hi hj hij => ?_
      rw [List.length_map] at hi hj
      simp only [List.getElem_map]
      have hmi := List.mk_mem_zipIdx_iff_getElem?.2 (List.getElem?_eq_getElem hi)
      have hmj := List.mk_mem_zipIdx_iff_getElem?.2 (List.getElem?_eq_getElem hj)
      have htake : cfg.copies[i] ∈ cfg.copies.take j := by
        rw [List.mem_iff_getElem]
        exact ⟨i, by rw [List.length_take]; omega, List.getElem_take⟩
      obtain ⟨hrom, hram⟩ := (copyError_none (hcopy _ j hmj)).2 _ htake
      have h1 := hfold _ i hmi _ j hmj
      have h2 := hfold _ j hmj _ i hmi
      simp only [ite_eq_right_iff, reduceCtorEq, imp_false, not_and] at h1 h2
      exact ⟨hrom, hram, h1 (by omega), h2 (by omega)⟩

/-! ## Keys -/

/-- RAM windows in the first 2 MiB, the ROM outside them, outside the mirrors of the RAM and in physical space. -/
structure BiosAddressModel.Placed (m : BiosAddressModel) : Prop where
  ram : ∀ c ∈ m.copies, c.ramLo.toNat + (c.romHi - c.romLo).toNat ≤ 0x200000
  outside : ∀ c ∈ m.copies, ∀ p : Word, c.ramLo ≤ p → p < c.ramHi → p < m.romBasePhys ∨ m.romBasePhys + m.romSize ≤ p
  rom : m.romBasePhys.toNat + m.romSize.toNat ≤ 0x20000000
  mirrors : m.romBasePhys.toNat + m.romSize.toNat ≤ 0x200000 ∨ 0x800000 ≤ m.romBasePhys.toNat

theorem phys_toNat (a : Word) : (a &&& 0x1FFFFFFF).toNat = a.toNat % 0x20000000 := by
  rw [BitVec.toNat_and]
  exact Nat.and_two_pow_sub_one_eq_mod _ 29

theorem kseg1_toNat {w : Word} (h : w.toNat < 0x20000000) : (0xA0000000 ||| w).toNat = 0xA0000000 + w.toNat := by
  rw [BitVec.toNat_or]
  exact (@Nat.two_pow_add_eq_or_of_lt 29 w.toNat h 5).symm

/-- The RAM address behind the mirrors. -/
def mirrored (phys : Word) : Word := if phys < 0x00800000 then phys &&& 0x001FFFFF else phys

theorem mirrored_toNat (p : Word) :
    (mirrored p).toNat = if p.toNat < 0x800000 then p.toNat % 0x200000 else p.toNat := by
  unfold mirrored
  simp only [BitVec.lt_def]
  split_ifs with h1 h2 h2
  · rw [BitVec.toNat_and]
    exact Nat.and_two_pow_sub_one_eq_mod _ 21
  · exact absurd h1 h2
  · exact absurd h2 h1
  · rfl

namespace AddrCopy
variable {c : AddrCopy}

def In (c : AddrCopy) (p : Word) : Prop := c.inLo ≤ p ∧ p < c.inHi
def Out (c : AddrCopy) (p : Word) : Prop := c.outLo ≤ p ∧ p < c.outHi

instance (c : AddrCopy) (p : Word) : Decidable (c.In p) := inferInstanceAs (Decidable (_ ∧ _))
instance (c : AddrCopy) (p : Word) : Decidable (c.Out p) := inferInstanceAs (Decidable (_ ∧ _))

/-- What a copy's fold makes of an address in its input. -/
def fold (c : AddrCopy) (p : Word) : Word := p - c.inLo + c.outLo

theorem In.window {p : Word} (h : c.In p) : (c.romLo ≤ p ∧ p < c.romHi) ∨ (c.ramLo ≤ p ∧ p < c.ramHi) := by
  unfold In inLo inHi at h
  split_ifs at h
  · exact .inl h
  · exact .inr h

theorem Out.window {p : Word} (h : c.Out p) : (c.romLo ≤ p ∧ p < c.romHi) ∨ (c.ramLo ≤ p ∧ p < c.ramHi) := by
  unfold Out outLo outHi at h
  split_ifs at h
  · exact .inr h
  · exact .inl h

/-- Each window is folded, or is where a fold leads. -/
theorem sides (c : AddrCopy) : ((c.inLo = c.romLo ∧ c.inHi = c.romHi) ∨ (c.outLo = c.romLo ∧ c.outHi = c.romHi)) ∧
    ((c.inLo = c.ramLo ∧ c.inHi = c.ramHi) ∨ (c.outLo = c.ramLo ∧ c.outHi = c.ramHi)) := by
  unfold inLo inHi outLo outHi
  split_ifs <;> simp

end AddrCopy

theorem foldKey_eq (p : Word) (c : AddrCopy) : BiosAddressModel.foldKey p c = if c.In p then c.fold p else p := by
  unfold BiosAddressModel.foldKey AddrCopy.In AddrCopy.fold AddrCopy.inLo AddrCopy.inHi AddrCopy.outLo
  by_cases h : c.keyIsRam <;> simp [h]

theorem BiosAddressModel.Checked.of_ne {m : BiosAddressModel} (hc : m.Checked) {a b : AddrCopy} (ha : a ∈ m.copies)
    (hb : b ∈ m.copies) (hne : a ≠ b) : Apart a b := by
  have : Std.Symm Apart := ⟨fun x y h => ⟨fun ho => h.1 ⟨ho.2, ho.1⟩, fun ho => h.2.1 ⟨ho.2, ho.1⟩, h.2.2.2, h.2.2.1⟩⟩
  exact hc.apart.forall ha hb hne

section Copies
variable {m : BiosAddressModel} (hc : m.Checked) (hp : m.Placed)
include hc hp

/-- The windows of a copy in numbers. -/
theorem window_bounds {c : AddrCopy} (h : c ∈ m.copies) :
    c.romLo.toNat < c.romHi.toNat ∧ m.romBasePhys.toNat ≤ c.romLo.toNat ∧
      c.romHi.toNat ≤ m.romBasePhys.toNat + m.romSize.toNat ∧
      c.ramHi.toNat = c.ramLo.toNat + (c.romHi.toNat - c.romLo.toNat) ∧ c.ramHi.toNat ≤ 0x200000 := by
  obtain ⟨h1, h2, h3, -⟩ := hc.copy c h
  have h4 := hp.ram c h
  have h5 := hp.rom
  unfold AddrCopy.ramHi
  bv_omega

/-- A window is as long as the other. -/
theorem fold_out {c : AddrCopy} {p : Word} (h : c ∈ m.copies) (hin : c.In p) : c.Out (c.fold p) := by
  have := window_bounds hc hp h
  unfold AddrCopy.In AddrCopy.inLo AddrCopy.inHi at hin
  unfold AddrCopy.Out AddrCopy.fold AddrCopy.inLo AddrCopy.outLo AddrCopy.outHi
  split_ifs at hin ⊢ <;> bv_omega

/-- No fold's output is folded again. -/
theorem not_in_of_out {a b : AddrCopy} {p : Word} (ha : a ∈ m.copies) (hb : b ∈ m.copies) (ho : a.Out p) :
    ¬ b.In p := by
  intro hin
  by_cases hab : a = b
  · subst hab
    have hw := window_bounds hc hp ha
    have hrom := hp.rom
    unfold AddrCopy.Out AddrCopy.outLo AddrCopy.outHi at ho
    unfold AddrCopy.In AddrCopy.inLo AddrCopy.inHi at hin
    split_ifs at ho hin
    · have := hp.outside a ha p ho.1 ho.2
      bv_omega
    · have := hp.outside a ha p hin.1 hin.2
      bv_omega
  · exact (hc.of_ne ha hb hab).2.2.1 (overlap_of_mem ho hin)

/-- An address lies in the windows of one copy only. -/
theorem window_unique {a b : AddrCopy} {p : Word} (ha : a ∈ m.copies) (hb : b ∈ m.copies)
    (h : (a.romLo ≤ p ∧ p < a.romHi) ∨ (a.ramLo ≤ p ∧ p < a.ramHi))
    (h' : (b.romLo ≤ p ∧ p < b.romHi) ∨ (b.ramLo ≤ p ∧ p < b.ramHi)) : a = b := by
  by_contra hab
  obtain ⟨hrom, hram, -⟩ := hc.of_ne ha hb hab
  have hwa := window_bounds hc hp ha
  have hwb := window_bounds hc hp hb
  have hr := hp.rom
  rcases h with h | h <;> rcases h' with h' | h'
  · exact hrom (overlap_of_mem h' h)
  · have := hp.outside b hb p h'.1 h'.2
    bv_omega
  · have := hp.outside a ha p h.1 h.2
    bv_omega
  · exact hram (overlap_of_mem h' h)

end Copies

theorem foldl_foldKey_none {l : List AddrCopy} {p : Word} (h : ∀ c ∈ l, ¬ c.In p) :
    l.foldl BiosAddressModel.foldKey p = p := by
  induction l with
  | nil => rfl
  | cons c cs ih =>
    rw [List.foldl_cons, foldKey_eq, if_neg (h c (List.mem_cons_self ..))]
    exact ih fun d hd => h d (List.mem_cons_of_mem _ hd)

theorem foldl_foldKey_some {l : List AddrCopy} {p : Word} {c : AddrCopy} (hc : c ∈ l) (hin : c.In p)
    (hone : ∀ d ∈ l, d.In p → d = c) (hout : ∀ d ∈ l, ¬ d.In (c.fold p)) :
    l.foldl BiosAddressModel.foldKey p = c.fold p := by
  induction l with
  | nil => cases hc
  | cons d ds ih =>
    rw [List.foldl_cons, foldKey_eq]
    split_ifs with hd
    · rw [hone d (List.mem_cons_self ..) hd]
      exact foldl_foldKey_none fun e he => hout e (List.mem_cons_of_mem _ he)
    · have hcd : c ∈ ds := (List.mem_cons.1 hc).resolve_left fun e => hd (e ▸ hin)
      exact ih hcd (fun e he => hone e (List.mem_cons_of_mem _ he)) fun e he => hout e (List.mem_cons_of_mem _ he)

/-- The first fold that an address is the input of. -/
def BiosAddressModel.firstMatch (m : BiosAddressModel) (addr : Word) : Word :=
  match m.copies.find? fun c => c.In (mirrored (addr &&& 0x1FFFFFFF)) with
  | some c => c.fold (mirrored (addr &&& 0x1FFFFFFF))
  | none => mirrored (addr &&& 0x1FFFFFFF)

/-- An address that no fold takes is its own key. -/
theorem normalize_key {m : BiosAddressModel} {q : Word} (h1 : q.toNat < 0x20000000)
    (h2 : q.toNat < 0x200000 ∨ 0x800000 ≤ q.toNat) (hno : ∀ c ∈ m.copies, ¬ c.In q) : m.normalize q = q := by
  have hphys : q &&& 0x1FFFFFFF = q := by
    apply BitVec.eq_of_toNat_eq
    rw [phys_toNat]
    omega
  have hmir : mirrored q = q := by
    apply BitVec.eq_of_toNat_eq
    rw [mirrored_toNat]
    split_ifs <;> omega
  have hn : m.normalize q = m.copies.foldl BiosAddressModel.foldKey (mirrored (q &&& 0x1FFFFFFF)) := rfl
  rw [hn, hphys, hmir]
  exact foldl_foldKey_none hno

theorem romCopy_some {m : BiosAddressModel} {p : Word} {c : AddrCopy} (h : m.romCopy p = some c) :
    c ∈ m.copies ∧ c.romLo ≤ p ∧ p < c.romHi :=
  ⟨List.mem_of_find?_eq_some h, by simpa using List.find?_some h⟩

section Maps
variable {m : BiosAddressModel} (hc : m.Checked) (hp : m.Placed)
include hc hp

theorem normalize_in {a : Word} {c : AddrCopy} (h : c ∈ m.copies) (hin : c.In (mirrored (a &&& 0x1FFFFFFF))) :
    m.normalize a = c.fold (mirrored (a &&& 0x1FFFFFFF)) :=
  foldl_foldKey_some h hin (fun _ hd hdin => window_unique hc hp hd h hdin.window hin.window)
    fun _ hd => not_in_of_out hc hp h hd (fold_out hc hp h hin)

theorem normalize_firstMatch (a : Word) : m.normalize a = m.firstMatch a := by
  unfold BiosAddressModel.firstMatch
  split
  · next c hf =>
    exact normalize_in hc hp (List.mem_of_find?_eq_some hf) (by simpa using List.find?_some hf)
  · next hf =>
    have hno : ∀ c ∈ m.copies, ¬ c.In (mirrored (a &&& 0x1FFFFFFF)) := fun c h => by
      simpa using List.find?_eq_none.1 hf c h
    exact foldl_foldKey_none hno

theorem out_bounds {c : AddrCopy} {q : Word} (h : c ∈ m.copies) (ho : c.Out q) :
    q.toNat < 0x20000000 ∧ (q.toNat < 0x200000 ∨ 0x800000 ≤ q.toNat) := by
  have hw := window_bounds hc hp h
  have hrom := hp.rom
  have hmir := hp.mirrors
  unfold AddrCopy.Out AddrCopy.outLo AddrCopy.outHi at ho
  split_ifs at ho <;> bv_omega

theorem normalize_idem (a : Word) : m.normalize (m.normalize a) = m.normalize a := by
  by_cases hin : ∃ c ∈ m.copies, c.In (mirrored (a &&& 0x1FFFFFFF))
  · obtain ⟨c, h, hin⟩ := hin
    have ho := fold_out hc hp h hin
    obtain ⟨h1, h2⟩ := out_bounds hc hp h ho
    rw [normalize_in hc hp h hin]
    exact normalize_key h1 h2 fun d hd => not_in_of_out hc hp h hd ho
  · have hno : ∀ c ∈ m.copies, ¬ c.In (mirrored (a &&& 0x1FFFFFFF)) := fun c h hi => hin ⟨c, h, hi⟩
    have hn : m.normalize a = mirrored (a &&& 0x1FFFFFFF) := foldl_foldKey_none hno
    rw [hn]
    have hm := mirrored_toNat (a &&& 0x1FFFFFFF)
    have hph := phys_toNat a
    refine normalize_key ?_ ?_ hno <;> split_ifs at hm <;> omega

/-- The key of an address of either window. -/
theorem normalize_window {a lo hi : Word} {c : AddrCopy} (h : c ∈ m.copies)
    (hsame : mirrored (a &&& 0x1FFFFFFF) = a &&& 0x1FFFFFFF)
    (hside : (c.inLo = lo ∧ c.inHi = hi) ∨ (c.outLo = lo ∧ c.outHi = hi)) (h1 : lo ≤ a &&& 0x1FFFFFFF)
    (h2 : (a &&& 0x1FFFFFFF) < hi) : m.normalize a = c.outLo + ((a &&& 0x1FFFFFFF) - lo) := by
  rcases hside with ⟨rfl, rfl⟩ | ⟨rfl, rfl⟩
  · have hin : c.In (mirrored (a &&& 0x1FFFFFFF)) := by
      rw [hsame]
      exact ⟨h1, h2⟩
    rw [normalize_in hc hp h hin, hsame]
    exact BitVec.add_comm _ _
  · have hn : m.normalize a = m.copies.foldl BiosAddressModel.foldKey (mirrored (a &&& 0x1FFFFFFF)) := rfl
    rw [hn, hsame, foldl_foldKey_none fun d hd => not_in_of_out hc hp h hd ⟨h1, h2⟩]
    bv_omega

theorem normalize_rom {a : Word} {c : AddrCopy} (h : c ∈ m.copies) (h1 : c.romLo ≤ a &&& 0x1FFFFFFF)
    (h2 : (a &&& 0x1FFFFFFF) < c.romHi) : m.normalize a = c.outLo + ((a &&& 0x1FFFFFFF) - c.romLo) := by
  have hw := window_bounds hc hp h
  have hrom := hp.rom
  have hmir := hp.mirrors
  refine normalize_window hc hp h (BitVec.eq_of_toNat_eq ?_) c.sides.1 h1 h2
  generalize a &&& 0x1FFFFFFF = q at h1 h2 ⊢
  rw [mirrored_toNat]
  split_ifs <;> bv_omega

theorem normalize_ram {a : Word} {c : AddrCopy} (h : c ∈ m.copies) (h1 : c.ramLo ≤ a &&& 0x1FFFFFFF)
    (h2 : (a &&& 0x1FFFFFFF) < c.ramHi) : m.normalize a = c.outLo + ((a &&& 0x1FFFFFFF) - c.ramLo) := by
  have hw := window_bounds hc hp h
  refine normalize_window hc hp h (BitVec.eq_of_toNat_eq ?_) c.sides.2 h1 h2
  generalize a &&& 0x1FFFFFFF = q at h1 h2 ⊢
  rw [mirrored_toNat]
  split_ifs <;> bv_omega

/-- A relocated address runs in its copy's RAM window. -/
theorem runtime_phys {r : Word} {c : AddrCopy} (h : m.romCopy (r &&& 0x1FFFFFFF) = some c) :
    (m.runtimePc r &&& 0x1FFFFFFF) = c.ramLo + ((r &&& 0x1FFFFFFF) - c.romLo) ∧
      c.ramLo ≤ (m.runtimePc r &&& 0x1FFFFFFF) ∧ (m.runtimePc r &&& 0x1FFFFFFF) < c.ramHi := by
  obtain ⟨hmem, h1, h2⟩ := romCopy_some h
  have hw := window_bounds hc hp hmem
  have hbase := congrArg BitVec.toNat (hc.copy c hmem).2.2.2
  rw [phys_toNat] at hbase
  have hpc : m.runtimePc r = c.runtimeBase + ((r &&& 0x1FFFFFFF) - c.romLo) := by rw [BiosAddressModel.runtimePc, h]
  generalize r &&& 0x1FFFFFFF = q at *
  have heq : (m.runtimePc r &&& 0x1FFFFFFF) = c.ramLo + (q - c.romLo) := by
    apply BitVec.eq_of_toNat_eq
    rw [phys_toNat, hpc]
    bv_omega
  rw [heq]
  refine ⟨rfl, ?_, ?_⟩ <;> bv_omega

theorem normalize_runtimePc (r : Word) : m.normalize (m.runtimePc r) = m.normalize r := by
  cases h : m.romCopy (r &&& 0x1FFFFFFF) with
  | none => rw [BiosAddressModel.runtimePc, h]
  | some c =>
    obtain ⟨hmem, h1, h2⟩ := romCopy_some h
    obtain ⟨heq, h3, h4⟩ := runtime_phys hc hp h
    rw [normalize_rom hc hp hmem h1 h2, normalize_ram hc hp hmem h3 h4, heq]
    bv_omega

/-- The inclusive bounds of the generated C. -/
theorem out_iff {c : AddrCopy} {k : Word} (h : c ∈ m.copies) :
    (c.outLo ≤ k ∧ k ≤ c.outLo + (c.romHi - c.romLo) - 1) ↔ c.Out k := by
  have hw := window_bounds hc hp h
  have hrom := hp.rom
  have hram := hp.ram c h
  have hhi : c.outHi = c.outLo + (c.romHi - c.romLo) := by
    unfold AddrCopy.outHi AddrCopy.outLo AddrCopy.ramHi
    split_ifs <;> bv_omega
  have hlo : c.outLo.toNat + (c.romHi - c.romLo).toNat < 2 ^ 32 := by
    unfold AddrCopy.outLo
    split_ifs <;> bv_omega
  have hlen : 0 < (c.romHi - c.romLo).toNat := by bv_omega
  unfold AddrCopy.Out
  rw [hhi]
  generalize c.romHi - c.romLo = len at *
  constructor <;> intro h' <;> bv_omega

/-- The windows of the generated key homes are the outputs of the folds. -/
theorem keyHomePc_eq (romVa key : Word) :
    m.keyHomePc romVa key =
      match m.copies.find? fun c => c.Out key with
      | some c => key - c.outLo + c.runtimeBase
      | none =>
        if m.romBasePhys ≤ key ∧ key ≤ m.romBasePhys + m.romSize - 1 then (romVa &&& 0xE0000000) ||| key else 0 := by
  have hfind : (m.copies.find? fun c => c.outLo ≤ key ∧ key ≤ c.outLo + (c.romHi - c.romLo) - 1) =
      m.copies.find? fun c => c.Out key :=
    List.find?_congr fun c h => by simp only [out_iff hc hp h]
  unfold BiosAddressModel.keyHomePc
  rw [hfind]

theorem keyHomePc_relocated {r romVa : Word} {c : AddrCopy} (h : m.romCopy (r &&& 0x1FFFFFFF) = some c) :
    m.keyHomePc romVa (m.normalize r) = m.runtimePc r := by
  obtain ⟨hmem, h1, h2⟩ := romCopy_some h
  have hpc : m.runtimePc r = c.runtimeBase + ((r &&& 0x1FFFFFFF) - c.romLo) := by rw [BiosAddressModel.runtimePc, h]
  rw [normalize_rom hc hp hmem h1 h2, hpc, keyHomePc_eq hc hp]
  generalize r &&& 0x1FFFFFFF = q at *
  have hself : c.Out (c.outLo + (q - c.romLo)) := by
    have hw := window_bounds hc hp hmem
    have hrom := hp.rom
    have hram := hp.ram c hmem
    unfold AddrCopy.Out AddrCopy.outLo AddrCopy.outHi
    split_ifs <;> bv_omega
  have hsome : (m.copies.find? fun d => d.Out (c.outLo + (q - c.romLo))).isSome :=
    List.find?_isSome.2 ⟨c, hmem, by simpa using hself⟩
  obtain ⟨d, hd⟩ := Option.isSome_iff_exists.1 hsome
  have hout : d.Out (c.outLo + (q - c.romLo)) := by simpa using List.find?_some hd
  have hdc : d = c := window_unique hc hp (List.mem_of_find?_eq_some hd) hmem hout.window hself.window
  rw [hd, hdc]
  dsimp only
  bv_omega

omit hc in
/-- A ROM address that is copied nowhere is its own key, up to the segment. -/
theorem normalize_in_place {r : Word} (hr : m.romBasePhys ≤ r &&& 0x1FFFFFFF)
    (hr' : (r &&& 0x1FFFFFFF) < m.romBasePhys + m.romSize) (h : m.romCopy (r &&& 0x1FFFFFFF) = none) :
    m.normalize r = r &&& 0x1FFFFFFF ∧ ∀ c ∈ m.copies, ¬ c.Out (r &&& 0x1FFFFFFF) := by
  have hno := List.find?_eq_none.1 h
  have hrom := hp.rom
  have hmir := hp.mirrors
  generalize hq : r &&& 0x1FFFFFFF = q at *
  have hmirror : mirrored q = q := by
    apply BitVec.eq_of_toNat_eq
    rw [mirrored_toNat]
    split_ifs <;> bv_omega
  have hram : ∀ c ∈ m.copies, ¬ (c.ramLo ≤ q ∧ q < c.ramHi) := fun c hcm hin => by
    have := hp.outside c hcm q hin.1 hin.2
    bv_omega
  have hwin : ∀ c ∈ m.copies, ¬ (c.romLo ≤ q ∧ q < c.romHi) := fun c hcm => by simpa using hno c hcm
  refine ⟨?_, fun c hcm ho => ?_⟩
  · have hn : m.normalize r = m.copies.foldl BiosAddressModel.foldKey (mirrored (r &&& 0x1FFFFFFF)) := rfl
    rw [hn, hq, hmirror]
    refine foldl_foldKey_none fun c hcm hin => ?_
    unfold AddrCopy.In AddrCopy.inLo AddrCopy.inHi at hin
    split_ifs at hin
    · exact hwin c hcm hin
    · exact hram c hcm hin
  · unfold AddrCopy.Out AddrCopy.outLo AddrCopy.outHi at ho
    split_ifs at ho
    · exact hram c hcm ho
    · exact hwin c hcm ho

theorem keyHomePc_in_place {r romVa : Word} (hr : m.romBasePhys ≤ r &&& 0x1FFFFFFF)
    (hr' : (r &&& 0x1FFFFFFF) < m.romBasePhys + m.romSize) (hseg : r &&& 0xE0000000 = romVa &&& 0xE0000000)
    (h : m.romCopy (r &&& 0x1FFFFFFF) = none) : m.keyHomePc romVa (m.normalize r) = m.runtimePc r := by
  obtain ⟨hkey, hno⟩ := normalize_in_place hp hr hr' h
  have hpc : m.runtimePc r = r := by rw [BiosAddressModel.runtimePc, h]
  have hfind : (m.copies.find? fun c => c.Out (r &&& 0x1FFFFFFF)) = none :=
    List.find?_eq_none.2 fun c hcm => by simpa using hno c hcm
  have hrom := hp.rom
  rw [hkey, hpc, keyHomePc_eq hc hp, hfind]
  dsimp only
  rw [if_pos ⟨hr, by bv_omega⟩, ← hseg, ← BitVec.and_or_distrib_left]
  exact BitVec.and_allOnes

theorem emittedNormalize_retail (a : Word) : m.emittedNormalize 0x1FFFFF a = m.normalize a := by
  have hstep : ∀ c ∈ m.copies, ∀ p : Word,
      (if c.inLo ≤ p ∧ p ≤ c.inHi - 1 then p - c.inLo + c.outLo else p) = BiosAddressModel.foldKey p c := by
    intro c h p
    have hw := window_bounds hc hp h
    have hin : (c.inLo ≤ p ∧ p ≤ c.inHi - 1) ↔ c.In p := by
      have hpos : c.inLo.toNat < c.inHi.toNat := by
        unfold AddrCopy.inLo AddrCopy.inHi
        split_ifs <;> omega
      unfold AddrCopy.In
      constructor <;> intro h' <;> bv_omega
    rw [foldKey_eq]
    simp only [hin, AddrCopy.fold]
  exact List.foldl_ext _ _ _ fun p c h => hstep c h p

omit hp in
theorem ram_unique {a b : AddrCopy} {p : Word} (ha : a ∈ m.copies) (hb : b ∈ m.copies)
    (h : a.ramLo ≤ p ∧ p < a.ramHi) (h' : b.ramLo ≤ p ∧ p < b.ramHi) : a = b := by
  by_contra hab
  exact (hc.of_ne ha hb hab).2.1 (overlap_of_mem h' h)

/-- Back through a RAM window. -/
theorem alias_phys {c : AddrCopy} {p : Word} (h : c ∈ m.copies) (h1 : c.ramLo ≤ p) (h2 : p < c.ramHi) :
    (((0xA0000000 ||| c.romLo) + (p - c.ramLo)) &&& 0x1FFFFFFF) = c.romLo + (p - c.ramLo) := by
  have hw := window_bounds hc hp h
  have hrom := hp.rom
  have hor := kseg1_toNat (w := c.romLo) (by omega)
  apply BitVec.eq_of_toNat_eq
  rw [phys_toNat]
  bv_omega

omit hp in
theorem ramCopy_eq {c : AddrCopy} {p : Word} (h : c ∈ m.copies) (h1 : c.ramLo ≤ p) (h2 : p < c.ramHi) :
    m.ramCopy p = some c := by
  have hsome : (m.ramCopy p).isSome := List.find?_isSome.2 ⟨c, h, by simpa using ⟨h1, h2⟩⟩
  obtain ⟨d, hd⟩ := Option.isSome_iff_exists.1 hsome
  rw [hd, ram_unique hc (List.mem_of_find?_eq_some hd) h (by simpa using List.find?_some hd) ⟨h1, h2⟩]

/-- The other way through the copies, up to the segment. -/
theorem ramAliasToRom_runtimePc {r : Word} {c : AddrCopy} (h : m.romCopy (r &&& 0x1FFFFFFF) = some c) :
    (m.ramAliasToRom (m.runtimePc r) &&& 0x1FFFFFFF) = r &&& 0x1FFFFFFF := by
  obtain ⟨hmem, -⟩ := romCopy_some h
  obtain ⟨heq, h3, h4⟩ := runtime_phys hc hp h
  unfold BiosAddressModel.ramAliasToRom
  rw [ramCopy_eq hc hmem h3 h4]
  dsimp only
  rw [alias_phys hc hp hmem h3 h4, heq]
  bv_omega

omit hc hp in
theorem normalize_congr {a b : Word} (h : a &&& 0x1FFFFFFF = b &&& 0x1FFFFFFF) : m.normalize a = m.normalize b := by
  unfold BiosAddressModel.normalize
  rw [h]

/-- A RAM address and what it is an alias of have one key. -/
theorem normalize_alias {a : Word} {c : AddrCopy} (h : c ∈ m.copies) (h1 : c.ramLo ≤ a &&& 0x1FFFFFFF)
    (h2 : (a &&& 0x1FFFFFFF) < c.ramHi) :
    m.normalize ((0xA0000000 ||| c.romLo) + ((a &&& 0x1FFFFFFF) - c.ramLo)) = m.normalize a := by
  have hw := window_bounds hc hp h
  have hphys := alias_phys hc hp h h1 h2
  rw [normalize_ram hc hp h h1 h2, normalize_rom hc hp h (by rw [hphys]; bv_omega) (by rw [hphys]; bv_omega), hphys]
  bv_omega

/-- The jump that discovery follows and the one that the emitter publishes. -/
theorem normalize_remap {r target : Word} {c : AddrCopy} (h : m.romCopy (r &&& 0x1FFFFFFF) = some c)
    (hin : (∃ d ∈ m.copies, d.ramLo ≤ m.relocateJTarget r target &&& 0x1FFFFFFF ∧
        (m.relocateJTarget r target &&& 0x1FFFFFFF) < d.ramHi) ∨
      m.romBasePhys ≤ m.relocateJTarget r target &&& 0x1FFFFFFF ∧
        (m.relocateJTarget r target &&& 0x1FFFFFFF) < m.romBasePhys + m.romSize) :
    m.normalize (m.remapRelocatedJTarget target r) = m.normalize (m.relocateJTarget r target) := by
  have hfind : (m.copies.find? fun c => c.romLo ≤ r &&& 0x1FFFFFFF ∧ (r &&& 0x1FFFFFFF) < c.romHi) = some c := h
  have hj : m.relocateJTarget r target =
      ((c.runtimeBase + ((r &&& 0x1FFFFFFF) - c.romLo)) &&& 0xF0000000) ||| (target &&& 0x0FFFFFFF) := by
    rw [BiosAddressModel.relocateJTarget, h]
  unfold BiosAddressModel.remapRelocatedJTarget
  dsimp only
  rw [hfind]
  dsimp only
  rw [← hj]
  generalize m.relocateJTarget r target = t at *
  cases hcopy : m.ramCopy (t &&& 0x1FFFFFFF) with
  | some d =>
    have hd : d.ramLo ≤ t &&& 0x1FFFFFFF ∧ (t &&& 0x1FFFFFFF) < d.ramHi := by
      simpa using List.find?_some hcopy
    exact normalize_alias hc hp (List.mem_of_find?_eq_some hcopy) hd.1 hd.2
  | none =>
    have hrom : m.romBasePhys ≤ t &&& 0x1FFFFFFF ∧ (t &&& 0x1FFFFFFF) < m.romBasePhys + m.romSize := by
      refine hin.resolve_left fun ⟨d, hd, h1, h2⟩ => ?_
      rw [ramCopy_eq hc hd h1 h2] at hcopy
      cases hcopy
    dsimp only
    rw [if_pos hrom]
    apply normalize_congr
    apply BitVec.eq_of_toNat_eq
    have hor := kseg1_toNat (w := t &&& 0x1FFFFFFF) (by rw [phys_toNat]; omega)
    rw [phys_toNat, hor, phys_toNat]
    omega

end Maps

/-! ## Coherence -/

/-- `romVa` is the load address that the key homes are emitted for. -/
structure BiosAddressModel.Coherent (m : BiosAddressModel) (romVa : Word) : Prop where
  idem : ∀ a, m.normalize (m.normalize a) = m.normalize a
  emitted : ∀ a, m.emittedNormalize 0x1FFFFF a = m.normalize a
  first : ∀ a, m.normalize a = m.firstMatch a
  runtime : ∀ r, m.normalize (m.runtimePc r) = m.normalize r
  keyHome : ∀ r : Word, m.romBasePhys ≤ r &&& 0x1FFFFFFF → (r &&& 0x1FFFFFFF) < m.romBasePhys + m.romSize →
    ((m.romCopy (r &&& 0x1FFFFFFF)).isSome ∨ r &&& 0xE0000000 = romVa &&& 0xE0000000) →
    m.keyHomePc romVa (m.normalize r) = m.runtimePc r
  ramAlias : ∀ r : Word, (m.romCopy (r &&& 0x1FFFFFFF)).isSome →
    (m.ramAliasToRom (m.runtimePc r) &&& 0x1FFFFFFF) = r &&& 0x1FFFFFFF
  jumps : ∀ r target : Word, (m.romCopy (r &&& 0x1FFFFFFF)).isSome →
    ((∃ d ∈ m.copies, d.ramLo ≤ m.relocateJTarget r target &&& 0x1FFFFFFF ∧
        (m.relocateJTarget r target &&& 0x1FFFFFFF) < d.ramHi) ∨
      m.romBasePhys ≤ m.relocateJTarget r target &&& 0x1FFFFFFF ∧
        (m.relocateJTarget r target &&& 0x1FFFFFFF) < m.romBasePhys + m.romSize) →
    m.normalize (m.remapRelocatedJTarget target r) = m.normalize (m.relocateJTarget r target)

theorem address_model_coherent (cfg : BiosConfig) (p : BiosProfile) (hok : fromConfig cfg = .ok p)
    (hp : p.model.Placed) : p.model.Coherent cfg.loadAddress := by
  obtain ⟨hc, -⟩ := fromConfig_checked hok
  refine ⟨normalize_idem hc hp, emittedNormalize_retail hc hp, normalize_firstMatch hc hp,
    normalize_runtimePc hc hp, fun r h1 h2 hseg => ?_, fun r hr => ?_, fun r target hr hin => ?_⟩
  · cases hcopy : p.model.romCopy (r &&& 0x1FFFFFFF) with
    | some c => exact keyHomePc_relocated hc hp hcopy
    | none =>
      rw [hcopy] at hseg
      exact keyHomePc_in_place hc hp h1 h2 (hseg.resolve_left (by simp)) hcopy
  · obtain ⟨c, hcopy⟩ := Option.isSome_iff_exists.1 hr
    exact ramAliasToRom_runtimePc hc hp hcopy
  · obtain ⟨c, hcopy⟩ := Option.isSome_iff_exists.1 hr
    exact normalize_remap hc hp hcopy hin

/-- A profile with a RAM-keyed and a ROM-keyed copy. -/
def retailConfig : BiosConfig :=
  ⟨[⟨⟨0x1FC10000, 0x1FC18000, 0x500, 0xA0000500, true⟩, true⟩,
    ⟨⟨0x1FC18000, 0x1FC40000, 0x30000, 0x80030000, false⟩, false⟩], [], 0xBFC00000, 0x80000⟩

def retailModel : BiosAddressModel :=
  ⟨[⟨0x1FC10000, 0x1FC18000, 0x500, 0xA0000500, true⟩, ⟨0x1FC18000, 0x1FC40000, 0x30000, 0x80030000, false⟩],
    0x1FC00000, 0x80000⟩

theorem fromConfig_retail :
    fromConfig retailConfig = .ok ⟨retailModel, some ⟨0x1FC10000, 0x1FC18000, 0x500, 0xA0000500, true⟩, []⟩ := by
  have hnone : configError retailConfig = none := by decide
  unfold fromConfig
  rw [hnone]
  simp [retailConfig, retailModel, blessed]

theorem retail_placed : retailModel.Placed := by
  refine ⟨by decide, fun c hc a h1 h2 => Or.inl ?_, by decide, by decide⟩
  have hend : c.ramHi ≤ retailModel.romBasePhys := by
    have : ∀ c ∈ retailModel.copies, c.ramHi ≤ retailModel.romBasePhys := by decide
    exact this c hc
  exact BitVec.lt_def.2 (Nat.lt_of_lt_of_le h2 hend)

theorem address_model_coherent_retail : retailModel.Coherent 0xBFC00000 :=
  address_model_coherent retailConfig _ fromConfig_retail retail_placed

/-- A ROM among the mirrors of the RAM. -/
def mirroredConfig : BiosConfig :=
  ⟨[⟨⟨0x210000, 0x220000, 0x500, 0x80000500, true⟩, false⟩], [], 0x80200000, 0x80000⟩

theorem fromConfig_mirrored : fromConfig mirroredConfig =
    .ok ⟨⟨[⟨0x210000, 0x220000, 0x500, 0x80000500, true⟩], 0x200000, 0x80000⟩, none, []⟩ := by
  have hnone : configError mirroredConfig = none := by decide
  unfold fromConfig
  rw [hnone]
  simp [mirroredConfig, blessed]

/-- A ROM that reaches beyond physical space. -/
def hugeConfig : BiosConfig :=
  ⟨[⟨⟨0x20000000, 0x20001000, 0x1000, 0x80001000, false⟩, false⟩], [], 0xBFC00000, 0x20000000⟩

theorem fromConfig_huge : fromConfig hugeConfig =
    .ok ⟨⟨[⟨0x20000000, 0x20001000, 0x1000, 0x80001000, false⟩], 0x1FC00000, 0x20000000⟩, none, []⟩ := by
  have hnone : configError hugeConfig = none := by decide
  unfold fromConfig
  rw [hnone]
  simp [hugeConfig, blessed]

/-- RAM windows in the first 2 MiB and outside the ROM. -/
def BiosAddressModel.LowWindows (m : BiosAddressModel) : Prop :=
  ∀ c ∈ m.copies, c.ramLo.toNat + (c.romHi - c.romLo).toNat ≤ 0x200000 ∧
    ∀ a : Word, c.ramLo ≤ a → a < c.ramHi → a < m.romBasePhys ∨ m.romBasePhys + m.romSize ≤ a

theorem lowWindows_of_below {m : BiosAddressModel}
    (h : ∀ c ∈ m.copies, c.ramLo.toNat + (c.romHi - c.romLo).toNat ≤ 0x200000 ∧ c.ramHi ≤ m.romBasePhys) :
    m.LowWindows := fun c hc =>
  ⟨(h c hc).1, fun _ _ h2 => Or.inl (BitVec.lt_def.2 (Nat.lt_of_lt_of_le h2 (h c hc).2))⟩

/-- A ROM among the mirrors has keys that it does not run under, one beyond physical space has keys that are no keys,
and an address in another segment than the image has its home in the image's. -/
theorem low_windows_incoherent :
    (∃ cfg p, fromConfig cfg = .ok p ∧ p.model.LowWindows ∧
      ∃ r, p.model.normalize (p.model.runtimePc r) ≠ p.model.normalize r) ∧
    (∃ cfg p, fromConfig cfg = .ok p ∧ p.model.LowWindows ∧
      ∃ a, p.model.normalize (p.model.normalize a) ≠ p.model.normalize a) ∧
    ∃ cfg p, fromConfig cfg = .ok p ∧ p.model.LowWindows ∧
      ∃ r : Word, p.model.romBasePhys ≤ r &&& 0x1FFFFFFF ∧ (r &&& 0x1FFFFFFF) < p.model.romBasePhys + p.model.romSize ∧
        p.model.keyHomePc cfg.loadAddress (p.model.normalize r) ≠ p.model.runtimePc r :=
  ⟨⟨mirroredConfig, _, fromConfig_mirrored, lowWindows_of_below (by decide), 0x80210000, by decide⟩,
    ⟨hugeConfig, _, fromConfig_huge, lowWindows_of_below (by decide), 0x80001000, by decide⟩,
    retailConfig, _, fromConfig_retail, lowWindows_of_below (by decide), 0x9FC00000, by decide, by decide, by decide⟩

end PsxRecomp.Discovery
