import Mathlib
import PsxRecomp.Memory.KernelBless
import PsxRecomp.Memory.PassStores

/-! A clean verdict stands for bytes that are still the ROM's, through every run. -/
namespace PsxRecomp.Memory
open DataShards (Byte Word Cells Geometry Width)
set_option autoImplicit false

/-! ## The comparison -/

section Comparison

variable {ram rom : Cells} {ramLo romOff pos hi : ℕ}

theorem sameBytes_iff (hlo : ramLo ≤ pos) : sameBytes ram rom ramLo romOff pos hi = true ↔
    ∀ i, pos ≤ i → i < hi → ram i = rom (romOff + (i - ramLo)) := by
  simp only [sameBytes, List.all_eq_true, List.mem_range, decide_eq_true_eq]
  constructor
  · intro h i hpos hhi
    have hi' := h (i - pos) (by omega)
    rwa [show pos + (i - pos) = i by omega,
      show romOff + (pos - ramLo) + (i - pos) = romOff + (i - ramLo) by omega] at hi'
  · intro h i hi'
    rw [h (pos + i) (by omega) (by omega)]
    congr 1
    omega

/-- The segments compared are what lies outside the ranges. -/
theorem patchCmpFrom_iff {ranges : List PatchRange} (hlo : ramLo ≤ pos)
    (hordered : ∀ p ∈ ranges, p.lo ≤ p.hi) (hapart : ranges.Pairwise fun p q => p.hi ≤ q.lo) :
    patchCmpFrom ram rom ramLo romOff hi ranges pos = true ↔ ∀ i, pos ≤ i → i < hi →
      (∀ p ∈ ranges, ¬(p.lo.toNat ≤ i ∧ i < p.hi.toNat)) → ram i = rom (romOff + (i - ramLo)) := by
  induction ranges generalizing pos with
  | nil =>
    unfold patchCmpFrom
    split
    · rw [sameBytes_iff hlo]
      exact ⟨fun h i hp hh _ => h i hp hh, fun h i hp hh => h i hp hh fun p hm => nomatch hm⟩
    · exact ⟨fun _ i hp hh => absurd hh (by omega), fun _ => rfl⟩
  | cons r rs ih =>
    obtain ⟨hr, hordered⟩ := List.forall_mem_cons.1 hordered
    obtain ⟨hafter, hapart⟩ := List.pairwise_cons.1 hapart
    have hr : r.lo.toNat ≤ r.hi.toNat := hr
    have hafter : ∀ q ∈ rs, r.hi.toNat ≤ q.lo.toNat := hafter
    -- Behind `r` only the later ranges count, and before `r.hi` none of them does.
    have hlater : ∀ i, i < r.hi.toNat → ∀ p ∈ rs, ¬(p.lo.toNat ≤ i ∧ i < p.hi.toNat) := by
      intro i hi' p hp
      have := hafter p hp
      omega
    unfold patchCmpFrom
    split
    · exact ⟨fun _ i hp hh => absurd hh (by omega), fun _ => rfl⟩
    · split
      · rw [ih hlo hordered hapart]
        refine forall₃_congr fun i hp _ => imp_congr_left ?_
        rw [List.forall_mem_cons]
        exact ⟨fun h => ⟨by omega, h⟩, fun h => h.2⟩
      · split
        · rw [sameBytes_iff hlo]
          constructor
          · exact fun h i hp hh _ => h i hp hh
          · exact fun h i hp hh => h i hp hh (List.forall_mem_cons.2 ⟨by omega, hlater i (by omega)⟩)
        · split
          · rename_i hdiff
            refine ⟨fun h => Bool.noConfusion h, fun h => ?_⟩
            have hsame : sameBytes ram rom ramLo romOff pos r.lo.toNat = true :=
              (sameBytes_iff hlo).2 fun i hp hl =>
                h i hp (by omega) (List.forall_mem_cons.2 ⟨by omega, hlater i (by omega)⟩)
            exact absurd (hdiff.2.symm.trans hsame) (by decide)
          · rename_i hsegment
            have hbefore : ∀ i, pos ≤ i → i < r.lo.toNat → ram i = rom (romOff + (i - ramLo)) := by
              intro i hp hl
              have hsame : sameBytes ram rom ramLo romOff pos r.lo.toNat = true := by
                refine Bool.of_not_eq_false fun hf => hsegment ⟨by omega, hf⟩
              exact (sameBytes_iff hlo).1 hsame i hp hl
            rw [ih (by split <;> omega) hordered hapart]
            constructor
            · intro h i hp hh hout
              obtain ⟨hnot, hout⟩ := List.forall_mem_cons.1 hout
              by_cases hl : i < r.lo.toNat
              · exact hbefore i hp hl
              · exact h i (by split <;> omega) hh hout
            · intro h i hp hh hout
              refine h i ?_ hh (List.forall_mem_cons.2 ⟨?_, hout⟩)
              · split at hp <;> omega
              · split at hp <;> omega

end Comparison

/-! ## The search -/

section Search

variable {bodies : List Body} {phys : Word}

theorem find_key {n lo hi i : ℕ} (h : kblessFindFrom bodies phys n lo hi = some i) :
    ∃ b, bodies[i]? = some b ∧ b.key = phys := by
  induction n generalizing lo hi with
  | zero => cases h
  | succ n ih =>
    unfold kblessFindFrom at h
    split at h
    · dsimp only at h
      split at h
      · cases h
      · rename_i b hb
        split at h
        · rename_i hkey
          obtain rfl := Option.some.inj h
          exact ⟨b, hb, hkey⟩
        · split at h
          · exact ih h
          · exact ih h
    · cases h

theorem key_lt (hsorted : bodies.Pairwise fun b c => b.key < c.key) {i j : ℕ} {b c : Body}
    (hi : bodies[i]? = some b) (hj : bodies[j]? = some c) (hij : i < j) : b.key < c.key := by
  obtain ⟨hilt, rfl⟩ := List.getElem?_eq_some_iff.1 hi
  obtain ⟨hjlt, rfl⟩ := List.getElem?_eq_some_iff.1 hj
  exact List.pairwise_iff_getElem.1 hsorted i j hilt hjlt hij

theorem index_unique (hsorted : bodies.Pairwise fun b c => b.key < c.key) {i j : ℕ} {b c : Body}
    (hi : bodies[i]? = some b) (hj : bodies[j]? = some c) (hkey : b.key = c.key) : i = j := by
  rcases Nat.lt_trichotomy i j with h | h | h
  · exact absurd (key_lt hsorted hi hj h) (by rw [hkey]; exact BitVec.lt_irrefl _)
  · exact h
  · exact absurd (key_lt hsorted hj hi h) (by rw [hkey]; exact BitVec.lt_irrefl _)

/-- In a table sorted by key the search finds every key. -/
theorem find_body (hsorted : bodies.Pairwise fun b c => b.key < c.key) {i : ℕ} {b : Body}
    (hb : bodies[i]? = some b) {n lo hi : ℕ} (hn : hi < n + lo) (hlo : lo ≤ i) (hhi : i < hi)
    (hlen : hi ≤ bodies.length) : kblessFindFrom bodies b.key n lo hi = some i := by
  induction n generalizing lo hi with
  | zero => omega
  | succ n ih =>
    unfold kblessFindFrom
    rw [if_pos (by omega)]
    dsimp only
    have hmid : (lo + hi) / 2 < bodies.length := by omega
    rw [List.getElem?_eq_getElem hmid]
    dsimp only
    have hc := List.getElem?_eq_getElem hmid
    split
    · rename_i hkey
      rw [index_unique hsorted hc hb hkey]
    · rename_i hkey
      split
      · rename_i hlt
        have hne : ¬i ≤ (lo + hi) / 2 := fun hle => by
          rcases Nat.lt_or_eq_of_le hle with hl | he
          · exact BitVec.lt_asymm (key_lt hsorted hb hc hl) hlt
          · rw [he, hc] at hb
            exact hkey (by rw [Option.some.inj hb])
        exact ih (by omega) (by omega) hhi hlen
      · rename_i hge
        have hlt : i < (lo + hi) / 2 := by
          by_contra hle
          rcases Nat.lt_or_eq_of_le (Nat.le_of_not_lt hle) with hl | he
          · exact hge (key_lt hsorted hc hb hl)
          · rw [← he, hc] at hb
            exact hkey (by rw [Option.some.inj hb])
        exact ih (by omega) hlo hlt (by omega)

theorem kblessFind_body (hsorted : bodies.Pairwise fun b c => b.key < c.key) {i : ℕ} {b : Body}
    (hb : bodies[i]? = some b) : kblessFind bodies b.key = some i :=
  find_body hsorted hb (by omega) (Nat.zero_le i) (List.getElem?_eq_some_iff.1 hb).1 le_rfl

end Search

/-! ## The invariant -/

/-- The latched constants are those of the BIOS, and every clean verdict stands for an intact body. -/
structure Sound (s : System) : Prop where
  latched : s.bless.enabled = some true →
    s.bless.lo = s.image.kblessRamLo ∧ s.bless.span = s.image.kblessRamHi - s.image.kblessRamLo ∧
      s.bless.romOff = s.image.kblessRomOff ∧ s.bless.patches = s.patchesInForce ∧
      s.image.bodies.length ≤ 4096
  quiet : s.bless.enabled ≠ some true → ∀ i, s.bless.verdict i = .unknown
  clean : ∀ i b, s.image.bodies[i]? = some b → s.bless.verdict i = .clean →
    s.Intact s.patchesInForce b
  kept : ∀ c, s.checkpoint = some c → ∀ b ∈ s.image.bodies, ∀ i, b.lo.toNat ≤ i → i < b.hi.toNat →
    s.ram i = c i

variable {s s' : System} {b : Body} {i : ℕ}

theorem patchesInForce_spec (s : System) : (∀ p ∈ s.patchesInForce, p.lo ≤ p.hi) ∧
    s.patchesInForce.Pairwise (fun p q => p.hi ≤ q.lo) ∧ s.patchesInForce ⊆ s.image.patches := by
  unfold System.patchesInForce
  split
  · exact ⟨s.image.patchesOrdered, s.image.patchesApart, List.Subset.refl _⟩
  · exact ⟨fun p hp => absurd hp List.not_mem_nil, List.Pairwise.nil, List.nil_subset _⟩

/-- What is intact outside fewer ranges is intact outside more. -/
theorem Intact.mono {patches patches' : List PatchRange} (h : s.Intact patches b)
    (hsub : patches ⊆ patches') : s.Intact patches' b :=
  fun i hlo hhi hout => h i hlo hhi fun p hp => hout p (hsub hp)

theorem Intact.congr {patches : List PatchRange} (h : s.Intact patches b)
    (himage : s'.image = s.image) (hrom : s'.rom = s.rom)
    (hram : ∀ i, b.lo.toNat ≤ i → i < b.hi.toNat → s'.ram i = s.ram i) : s'.Intact patches b := by
  intro i hlo hhi hout
  rw [hram i hlo hhi, himage, hrom]
  exact h i hlo hhi hout

/-- The comparison under the latched constants says whether the body is intact. -/
theorem verify_iff (hb : b ∈ s.image.bodies) {k : Bless} (hlo : k.lo = s.image.kblessRamLo)
    (hrom : k.romOff = s.image.kblessRomOff) (hpatches : k.patches = s.patchesInForce) :
    s.verify k b = true ↔ s.Intact s.patchesInForce b := by
  obtain ⟨hwindow, hext, -⟩ := s.image.inWindow b hb
  obtain ⟨hordered, hapart, -⟩ := patchesInForce_spec s
  have hext : b.lo.toNat < b.hi.toNat := hext
  unfold System.verify kernelPatchCmp
  rw [if_neg (by omega), hlo, hrom, hpatches,
    patchCmpFrom_iff (by exact hwindow) hordered hapart]
  rfl

/-! ## Verdicts dropped -/

/-- The same latch, and no verdict but what was there. -/
structure Weaker (k k' : Bless) : Prop where
  enabled : k'.enabled = k.enabled
  lo : k'.lo = k.lo
  span : k'.span = k.span
  romOff : k'.romOff = k.romOff
  patches : k'.patches = k.patches
  kept : ∀ i, k'.verdict i ≠ .unknown → k'.verdict i = k.verdict i

theorem Weaker.refl (k : Bless) : Weaker k k := ⟨rfl, rfl, rfl, rfl, rfl, fun _ _ => rfl⟩

theorem Weaker.trans {k k' k'' : Bless} (h : Weaker k k') (h' : Weaker k' k'') : Weaker k k'' := by
  refine ⟨h'.enabled.trans h.enabled, h'.lo.trans h.lo, h'.span.trans h.span,
    h'.romOff.trans h.romOff, h'.patches.trans h.patches, fun i hi => ?_⟩
  have hk := h'.kept i hi
  exact hk.trans (h.kept i (hk ▸ hi))

/-- The verdicts on the bodies that hold `pos` are gone. -/
def DroppedAt (bodies : List Body) (pos : ℕ) (k : Bless) : Prop :=
  ∀ i b, bodies[i]? = some b → b.lo.toNat ≤ pos → pos < b.hi.toNat → k.verdict i = .unknown

theorem drop_weaker (bodies : List Body) (hit : Body → Bool) (k : Bless) :
    Weaker k (k.drop bodies hit) := by
  refine ⟨rfl, rfl, rfl, rfl, rfl, fun i h => ?_⟩
  unfold Bless.drop at h ⊢
  dsimp only at h ⊢
  split
  · rename_i hany
    rw [if_pos hany] at h
    exact absurd rfl h
  · rfl

theorem drop_hit {bodies : List Body} {hit : Body → Bool} (k : Bless) (hb : bodies[i]? = some b)
    (hhit : hit b = true) : (k.drop bodies hit).verdict i = .unknown := by
  have hany : (bodies[i]?).any hit = true := by
    rw [hb]
    exact hhit
  exact if_pos hany

theorem noteRange_weaker (bodies : List Body) (phys len : Word) (k : Bless) :
    Weaker k (k.noteRange bodies phys len) := by
  unfold Bless.noteRange
  dsimp only
  repeat' split
  all_goals
    first
    | exact .refl k
    | exact drop_weaker _ _ k

theorem resync_weaker (k : Bless) : Weaker k k.resyncAfterRestore :=
  ⟨rfl, rfl, rfl, rfl, rfl, fun _ h => absurd rfl h⟩

theorem markKernelWrite_drops (h : Sound s) (pos : ℕ) :
    Weaker s.bless (s.markKernelWrite pos) ∧ DroppedAt s.image.bodies pos (s.markKernelWrite pos) := by
  have hbelow : ∀ c ∈ s.image.bodies, s.image.kblessRamLo.toNat ≤ c.lo.toNat ∧
      c.hi.toNat ≤ s.image.kblessRamHi.toNat ∧ s.image.kblessRamHi.toNat ≤ 0x10000 :=
    fun c hc => ⟨(s.image.inWindow c hc).1, (s.image.inWindow c hc).2.2, s.image.below⟩
  unfold System.markKernelWrite
  split
  · refine ⟨.refl _, fun i c hc hlo hhi => ?_⟩
    have := hbelow c (List.mem_of_getElem? hc)
    omega
  · unfold Bless.noteWrite
    split
    · rename_i hoff
      exact ⟨.refl _, fun i _ _ _ _ => h.quiet hoff i⟩
    · rename_i hon
      obtain ⟨hklo, hkspan, -, -, hlen⟩ := h.latched (not_not.1 hon)
      have hpos : (BitVec.ofNat 32 pos).toNat = pos := by
        rw [BitVec.toNat_ofNat]
        omega
      split
      · rename_i hwindow
        refine ⟨.refl _, fun i c hc hlo hhi => ?_⟩
        obtain ⟨hcl, hch, -⟩ := hbelow c (List.mem_of_getElem? hc)
        rw [hklo, hkspan, BitVec.le_def, BitVec.toNat_sub_of_le (by rw [BitVec.le_def]; omega),
          BitVec.toNat_sub_of_le (by rw [BitVec.le_def, hpos]; omega), hpos] at hwindow
        omega
      · rw [if_neg (by omega)]
        refine ⟨drop_weaker _ _ _, fun i c hc hlo hhi => drop_hit _ hc ?_⟩
        simp only [Bool.and_eq_true, decide_eq_true_eq]
        exact ⟨BitVec.le_def.2 (by rw [hpos]; exact hlo), BitVec.lt_def.2 (by rw [hpos]; exact hhi)⟩

/-! ## Stores -/

/-- A word-aligned extent that does not hold the first byte of an aligned store holds none of it. -/
theorem aligned_outside {w : Width} {pos lo hi j : ℕ} (hpos : pos % w.bytes = 0) (hlo : lo % 4 = 0)
    (hmiss : ¬(lo ≤ pos ∧ pos < hi)) (hj : lo ≤ j) (hj' : j < hi) :
    ¬(pos ≤ j ∧ j < pos + w.bytes) := by
  have hw : w.bytes = 1 ∨ w.bytes = 2 ∨ w.bytes = 4 := by cases w <;> decide
  rcases hw with hw | hw | hw <;> rw [hw] at hpos ⊢ <;> omega

theorem modStore_bus {p p' : Pass} {w : Width} {addr val : Word}
    (h : p.modStore w addr val = some p') : p'.bus.ram = p.bus.ram ∧ p'.bus.rom = p.bus.rom := by
  unfold Pass.modStore at h
  cases ht : p.bus.arenaTarget w addr with
  | none => rw [ht] at h; cases h
  | some t =>
    rw [ht] at h
    dsimp only at h
    generalize rpModJournal p.bus.arenas t.1 t.2 w.bytes p.journal = r at h
    obtain ⟨j, ok⟩ := r
    cases ok <;> cases h <;> exact ⟨rfl, rfl⟩

theorem passStoreTo_rom (bus : Bus) (isolated : Bool) (w : Width) (addr val : Word) :
    (bus.passStoreTo isolated w addr val).1.rom = bus.rom := by
  unfold Bus.passStoreTo
  dsimp only
  repeat' split
  all_goals rfl

theorem pass_store_rom (p : Pass) (w : Width) (addr val : Word) :
    (p.store w addr val).1.bus.rom = p.bus.rom := by
  unfold Pass.store
  dsimp only
  cases hs : p.modStore w addr (clip w val) with
  | some p' => exact (modStore_bus hs).2
  | none =>
    dsimp only
    rw [passStoreTo_rom]
    split <;> rfl

theorem store_image (s : System) (w : Width) (addr val : Word) :
    (s.store w addr val).image = s.image ∧ (s.store w addr val).env = s.env ∧
      (s.store w addr val).checkpoint = s.checkpoint ∧ (s.store w addr val).rom = s.rom := by
  unfold System.store
  cases hc : s.checkpoint with
  | none => exact ⟨rfl, rfl, rfl, writeRaw_rom _ _ _ _⟩
  | some c => exact ⟨rfl, rfl, rfl, pass_store_rom _ _ _ _⟩

/-! ## Steps -/

/-- Where the BIOS stays, no verdict is new and every body with a clean one keeps its bytes. -/
theorem Sound.weaken (h : Sound s) (hweaker : Weaker s.bless s'.bless)
    (himage : s'.image = s.image) (henv : s'.env = s.env) (hrom : s'.rom = s.rom)
    (hram : ∀ i b, s.image.bodies[i]? = some b → s'.bless.verdict i = .clean →
      ∀ j, b.lo.toNat ≤ j → j < b.hi.toNat → s'.ram j = s.ram j)
    (hkept : ∀ c, s'.checkpoint = some c → ∀ b ∈ s.image.bodies, ∀ i, b.lo.toNat ≤ i →
      i < b.hi.toNat → s'.ram i = c i) : Sound s' := by
  have hforce : s'.patchesInForce = s.patchesInForce := by
    unfold System.patchesInForce
    rw [himage, henv]
  refine ⟨fun hon => ?_, fun hoff i => ?_, fun i b hb hclean => ?_, ?_⟩
  · rw [hweaker.lo, hweaker.span, hweaker.romOff, hweaker.patches, himage, hforce]
    exact h.latched (hweaker.enabled ▸ hon)
  · by_contra hne
    exact hne ((hweaker.kept i hne).trans (h.quiet (hweaker.enabled ▸ hoff) i))
  · rw [himage] at hb
    have hold : s.bless.verdict i = .clean := by
      rw [← hweaker.kept i (by rw [hclean]; decide), hclean]
    rw [hforce]
    exact Intact.congr (h.clean i b hb hold) himage hrom (hram i b hb hclean)
  · rw [himage]
    exact hkept

theorem store_sound (h : Sound s) {w : Width} {addr val : Word} (ha : addr.toNat % w.bytes = 0)
    (hs : Spares s w addr val) : Sound (s.store w addr val) := by
  obtain ⟨himage, henv, hcheck, hrom⟩ := store_image s w addr val
  cases hc : s.checkpoint with
  | some c =>
    have hspare := hs (by rw [hc]; exact Option.some_ne_none c)
    have hbless : (s.store w addr val).bless = s.bless := by
      unfold System.store
      rw [hc]
    refine h.weaken (hbless ▸ .refl _) himage henv hrom
      (fun i b hb _ => hspare b (List.mem_of_getElem? hb)) fun c' hc' b hb j hlo hhi => ?_
    rw [hspare b hb j hlo hhi]
    exact h.kept c' (hcheck ▸ hc') b hb j hlo hhi
  | none =>
    have hstored : (s.store w addr val).ram = (s.pass.bus.writeRaw w addr val).1.ram := by
      unfold System.store
      rw [hc]
    have hkept : ∀ c, (s.store w addr val).checkpoint = some c → ∀ b ∈ s.image.bodies, ∀ i,
        b.lo.toNat ≤ i → i < b.hi.toNat → (s.store w addr val).ram i = c i := by
      intro c' hc'
      rw [hcheck, hc] at hc'
      cases hc'
    rcases writeRaw_ram s.pass.bus w addr val with
      ⟨pos, hplace, hram⟩ | ⟨hplace, hram⟩
    · obtain ⟨hweaker, hdropped⟩ := markKernelWrite_drops h pos
      have hbless : (s.store w addr val).bless = s.markKernelWrite pos := by
        unfold System.store
        rw [hc]
        dsimp only
        rw [hplace]
      refine h.weaken (hbless ▸ hweaker) himage henv hrom (fun i b hb hclean j hlo hhi => ?_) hkept
      have hb' := List.mem_of_getElem? hb
      obtain ⟨hwindow, rfl⟩ := place_ram hplace
      have hmiss : ¬(b.lo.toNat ≤ (mapWrite s.pass.bus.geometry addr).toNat ∧
          (mapWrite s.pass.bus.geometry addr).toNat < b.hi.toNat) := fun hhit => by
        rw [hbless, hdropped i b hb hhit.1 hhit.2] at hclean
        cases hclean
      rw [hstored, hram]
      exact poke_outside (aligned_outside (mapWrite_aligned _ ha hwindow)
        (s.image.wordAligned b hb') hmiss hlo hhi)
    · have hbless : (s.store w addr val).bless = s.bless := by
        unfold System.store
        rw [hc]
        dsimp only
        split
        · rename_i pos hpos
          exact absurd hpos (hplace pos)
        · rfl
      refine h.weaken (hbless ▸ .refl _) himage henv hrom (fun i b _ _ j _ _ => ?_) hkept
      rw [hstored, hram]

/-- What a query does: it may latch, and it writes the verdict of one body whose bytes it has compared. -/
inductive Query (s : System) (phys : Word) : System → Bool → Prop
  | refused (k : Bless) (hk : s.bless.on s.env s.image = some k) :
      Query s phys { s with bless := k } false
  | known (k : Bless) (hk : s.bless.on s.env s.image = some k) (hon : k.enabled = some true) (i : ℕ)
      (hi : kblessFind s.image.bodies phys = some i) (hclean : k.verdict i = .clean) :
      Query s phys { s with bless := k } true
  | compared (k : Bless) (hk : s.bless.on s.env s.image = some k) (hon : k.enabled = some true) (i : ℕ)
      (b : Body) (hi : kblessFind s.image.bodies phys = some i) (hb : s.image.bodies[i]? = some b) :
      Query s phys
        { s with bless := { k with
          verdict := Function.update k.verdict i (if s.verify k b then .clean else .mismatch) } }
        (s.verify k b)

theorem dispatchable_query {phys : Word} {native : Bool}
    (h : s.dispatchable phys = some (s', native)) : Query s phys s' native := by
  unfold System.dispatchable at h
  split at h
  · cases h
  · rename_i k hk
    split at h
    · cases h
      exact .refused k hk
    · rename_i hon
      split at h
      · cases h
        exact .refused k hk
      · split at h
        · cases h
          exact .refused k hk
        · rename_i i hi
          split at h
          · rename_i hclean
            cases h
            exact .known k hk (not_not.1 hon) i hi hclean
          · cases h
            exact .refused k hk
          · cases h
            exact .refused k hk
          · rename_i b _ hb
            have hquery := Query.compared k hk (not_not.1 hon) i b hi hb
            split at h
            · rename_i hsame
              cases h
              rwa [hsame, if_pos rfl] at hquery
            · rename_i hdiff
              cases h
              rwa [Bool.eq_false_iff.2 hdiff, if_neg Bool.noConfusion] at hquery

/-- The latch keeps the invariant, and is the BIOS's once it is on. -/
theorem on_sound (h : Sound s) {k : Bless} (hk : s.bless.on s.env s.image = some k) :
    Sound { s with bless := k } := by
  unfold Bless.on at hk
  split at hk
  · obtain rfl := Option.some.inj hk
    exact h
  · rename_i hnone
    have hunknown := h.quiet (by rw [hnone]; exact Option.some_ne_none _ |>.symm)
    dsimp only at hk
    split at hk
    · cases hk
    · obtain rfl := Option.some.inj hk
      refine ⟨fun hon => ⟨rfl, rfl, rfl, rfl, ?_⟩, fun _ => hunknown, fun i b _ hclean => ?_, h.kept⟩
      · simp only [Option.some.injEq, Bool.and_eq_true, decide_eq_true_eq] at hon
        exact hon.1.2
      · exact absurd ((hunknown i).symm.trans hclean) (by decide)

theorem query_sound {phys : Word} {native : Bool} (h : Sound s) (hq : Query s phys s' native) :
    Sound s' := by
  cases hq with
  | refused k hk => exact on_sound h hk
  | known k hk => exact on_sound h hk
  | compared k hk hon i b hi hb =>
    have hs := on_sound h hk
    obtain ⟨hlo, -, hrom, hpatches, -⟩ := hs.latched hon
    refine ⟨hs.latched, fun hoff => absurd hon hoff, fun j c hc hclean => ?_, hs.kept⟩
    dsimp only at hclean
    by_cases hj : j = i
    · subst hj
      have hbc : b = c := Option.some.inj (hb.symm.trans hc)
      subst hbc
      rw [Function.update_self] at hclean
      have hsame : s.verify k b = true := by
        by_contra hdiff
        rw [if_neg hdiff] at hclean
        cases hclean
      exact (verify_iff (List.mem_of_getElem? hb) hlo hrom hpatches).1 hsame
    · rw [Function.update_of_ne hj] at hclean
      exact hs.clean j c hc hclean

theorem Step.sound {s s' : System} (hs : Step Spares s s') (h : Sound s) : Sound s' := by
  cases hs with
  | store w addr val ha hspare => exact store_sound h ha hspare
  | mark phys len =>
    unfold System.markExecutableRange
    split
    · exact h
    · exact h.weaken (noteRange_weaker _ _ _ _) rfl rfl rfl (fun _ _ _ _ _ _ _ => rfl) h.kept
  | restore ram hc =>
    refine h.weaken ((noteRange_weaker _ _ _ _).trans (resync_weaker _)) rfl rfl rfl
      (fun _ _ _ hclean => nomatch hclean) fun c hc' => ?_
    exact absurd (hc.symm.trans hc') (Option.some_ne_none c).symm
  | memoryInit img rom g hc =>
    refine ⟨fun hon => absurd hon (Option.some_ne_none true).symm, fun _ _ => rfl,
      fun _ _ _ hclean => Verdict.noConfusion hclean, fun c hc' => ?_⟩
    exact absurd (hc.symm.trans hc') (Option.some_ne_none c).symm
  | dispatch _ phys native hq => exact query_sound h (dispatchable_query hq)
  | passBegin hc =>
    refine h.weaken (.refl _) rfl rfl rfl (fun _ _ _ _ _ _ _ => rfl) fun c hc' => ?_
    obtain rfl := Option.some.inj hc'
    exact fun _ _ _ _ _ => rfl
  | passEnd ram hc =>
    refine h.weaken (.refl _) rfl rfl rfl (fun i b hb _ j hlo hhi => ?_)
      fun c hc' => absurd hc' (Option.some_ne_none c).symm
    show s.overLive ram j = s.ram j
    unfold System.overLive
    split
    · exact (h.kept ram hc b (List.mem_of_getElem? hb) j hlo hhi).symm
    · rfl
  | work p hram hrom _ =>
    refine h.weaken (.refl _) rfl rfl hrom (fun _ _ _ _ _ _ _ => congrFun hram _) fun c hc' => ?_
    intro b hb i hlo hhi
    exact (congrFun hram i).trans (h.kept c hc' b hb i hlo hhi)

theorem Boot.sound (h : s.Boot) : Sound s := by
  obtain ⟨hbless, hc⟩ := h
  refine ⟨fun hon => ?_, fun _ i => by rw [hbless]; rfl, fun i b _ hclean => ?_, fun c hc' => ?_⟩
  · rw [hbless] at hon
    cases hon
  · rw [hbless] at hclean
    cases hclean
  · rw [hc] at hc'
    cases hc'

theorem run_sound {s₀ s : System} (h₀ : s₀.Boot) (hrun : Relation.ReflTransGen (Step Spares) s₀ s) :
    Sound s := by
  induction hrun with
  | refl => exact Boot.sound h₀
  | tail _ hs ih => exact hs.sound ih

/-! ## Results -/

theorem dispatchable_unknown {k : Bless} {phys : Word} (hk : s.bless.on s.env s.image = some k)
    (hon : k.enabled = some true) (hwindow : ¬k.span ≤ phys - k.lo)
    (hi : kblessFind s.image.bodies phys = some i) (hb : s.image.bodies[i]? = some b)
    (hunknown : k.verdict i = .unknown) (hverify : s.verify k b = true) :
    ∃ s', s.dispatchable phys = some (s', true) := by
  unfold System.dispatchable
  rw [hk]
  dsimp only
  rw [if_neg (not_not.2 hon), if_neg hwindow, hi]
  dsimp only
  rw [hunknown, hb]
  dsimp only
  rw [if_pos hverify]
  exact ⟨_, rfl⟩

/-- A store into a body drops the verdict on it, and the next query compares the bytes again. -/
theorem redispatchable (h : Sound s) {w : Width} {addr val : Word} {pos j : ℕ}
    (hb : s.image.bodies[i]? = some b) (hmismatch : s.bless.verdict i = .mismatch)
    (hc : s.checkpoint = none) (ha : addr.toNat % w.bytes = 0)
    (hplace : s.pass.bus.place w addr (clip w val) = .ram pos)
    (hj : pos ≤ j ∧ j < pos + w.bytes) (hbody : b.lo.toNat ≤ j ∧ j < b.hi.toNat)
    (hintact : (s.store w addr val).Intact (s.store w addr val).patchesInForce b) :
    ∃ s', (s.store w addr val).dispatchable b.key = some (s', true) := by
  have hmem := List.mem_of_getElem? hb
  have hon : s.bless.enabled = some true := by
    by_contra hoff
    exact absurd ((h.quiet hoff i).symm.trans hmismatch) (by decide)
  have hbless : (s.store w addr val).bless = s.markKernelWrite pos := by
    unfold System.store
    rw [hc]
    dsimp only
    rw [hplace]
  obtain ⟨hweaker, hdropped⟩ := markKernelWrite_drops h pos
  have hstored : Sound (s.store w addr val) := store_sound h ha fun hpass => absurd hc hpass
  have hon' : (s.store w addr val).bless.enabled = some true := by
    rw [hbless, hweaker.enabled, hon]
  obtain ⟨himage, henv, -, -⟩ := store_image s w addr val
  obtain ⟨hlo, hspan, hrom, hpatches, -⟩ := hstored.latched hon'
  have hlatched : (s.store w addr val).bless.on (s.store w addr val).env (s.store w addr val).image =
      some (s.store w addr val).bless := by
    unfold Bless.on
    rw [hon']
  rw [← himage] at hb
  have hmem' := List.mem_of_getElem? hb
  refine dispatchable_unknown hlatched hon' ?_
    (kblessFind_body (s.store w addr val).image.keysSorted hb) hb ?_
    ((verify_iff hmem' hlo hrom hpatches).2 hintact)
  · obtain ⟨hkey, hkey'⟩ := (s.store w addr val).image.keyInWindow b hmem'
    rw [hlo, hspan, BitVec.not_le]
    rw [BitVec.le_def] at hkey
    rw [BitVec.lt_def] at hkey' ⊢
    rw [BitVec.toNat_sub_of_le (BitVec.le_def.2 hkey),
      BitVec.toNat_sub_of_le (by rw [BitVec.le_def]; omega)]
    omega
  · obtain ⟨hwindow, hpos⟩ := place_ram hplace
    have hfirst : b.lo.toNat ≤ pos ∧ pos < b.hi.toNat := by
      by_contra hmiss
      exact aligned_outside (hpos ▸ mapWrite_aligned _ ha hwindow) (s.image.wordAligned b hmem)
        hmiss hbody.1 hbody.2 hj
    rw [hbless]
    exact hdropped i b (himage ▸ hb) hfirst.1 hfirst.2

/-- Where a body may run natively its bytes are those it was compiled from, and a body that had
changed may run again once a store has brought it back, in every run whose render passes spare the
bodies. -/
theorem kernel_bless_sound {s₀ s : System} (h₀ : s₀.Boot)
    (hrun : Relation.ReflTransGen (Step Spares) s₀ s) :
    (∀ (phys : Word) (s' : System), s.dispatchable phys = some (s', true) →
      ∀ b ∈ s.image.bodies, b.key = phys → s.Intact s.image.patches b) ∧
    ∀ (i : ℕ) (b : Body) (w : Width) (addr val : Word) (pos j : ℕ),
      s.image.bodies[i]? = some b → s.bless.verdict i = .mismatch → s.checkpoint = none →
      addr.toNat % w.bytes = 0 → s.pass.bus.place w addr (clip w val) = .ram pos →
      pos ≤ j ∧ j < pos + w.bytes → b.lo.toNat ≤ j ∧ j < b.hi.toNat →
      (s.store w addr val).Intact (s.store w addr val).patchesInForce b →
        ∃ s', (s.store w addr val).dispatchable b.key = some (s', true) := by
  have h := run_sound h₀ hrun
  refine ⟨fun phys s' hquery b hb hkey => ?_, fun i b w addr val pos j hb hmismatch hc ha hplace hj
    hbody hintact => redispatchable h hb hmismatch hc ha hplace hj hbody hintact⟩
  have hsub := (patchesInForce_spec s).2.2
  obtain ⟨j, hj, rfl⟩ := List.getElem_of_mem hb
  have hbody := List.getElem?_eq_getElem hj
  generalize hnative : true = native at hquery
  cases dispatchable_query hquery with
  | refused => cases hnative
  | known k hk hon i hi hclean =>
    obtain ⟨c, hc, hckey⟩ := find_key hi
    obtain rfl := index_unique s.image.keysSorted hc hbody (hckey.trans hkey.symm)
    exact Intact.mono ((on_sound h hk).clean i _ hbody hclean) hsub
  | compared k hk hon i c hi hc =>
    obtain ⟨d, hd, hdkey⟩ := find_key hi
    obtain rfl := index_unique s.image.keysSorted hd hbody (hdkey.trans hkey.symm)
    obtain rfl := Option.some.inj (hc.symm.trans hbody)
    obtain ⟨hlo, -, hrom, hpatches, -⟩ := (on_sound h hk).latched hon
    exact Intact.mono ((verify_iff hb hlo hrom hpatches).1 hnative.symm) hsub

/-! ## A store of a pass into a body -/

/-- One body of one word. -/
def smallImage : BiosImage where
  kblessRamLo := 0x500
  kblessRamHi := 0x8500
  kblessRomOff := 0x10000
  bodies := [⟨0x500, 0x500, 0x504⟩]
  patches := []
  below := by decide
  inWindow := by decide
  keyInWindow := by decide
  wordAligned := by decide
  keysSorted := List.pairwise_singleton _ _
  patchesOrdered := by decide
  patchesApart := List.Pairwise.nil

def smallBoot : System where
  pass := ⟨modBus, freshJournal true⟩
  checkpoint := none
  image := smallImage
  env := ⟨true, true⟩
  bless := .resetForBoot

/-- The machine after a query. -/
def System.queried (s : System) (phys : Word) : System := ((s.dispatchable phys).map Prod.fst).getD s

theorem queried_eq {phys : Word} {native : Bool} (h : (s.dispatchable phys).map Prod.snd = some native) :
    s.dispatchable phys = some (s.queried phys, native) := by
  obtain ⟨⟨s', native⟩, hs, rfl⟩ := Option.map_eq_some_iff.1 h
  unfold System.queried
  rw [hs]
  rfl

/-- The body verified, changed by a store, and found changed. -/
def changedBoot : System := ((smallBoot.queried 0x500).store .word 0x80000500 1).queried 0x500

/-- A render pass over it stores outside the body. -/
def passingBoot : System := System.store { changedBoot with checkpoint := some changedBoot.ram } .byte 0x80001000 5

def passedBoot : System := { passingBoot.withRam (passingBoot.overLive changedBoot.ram) with checkpoint := none }

theorem smallBoot_run : Relation.ReflTransGen (Step Spares) smallBoot passedBoot := by
  have hclean : smallBoot.dispatchable 0x500 = some (smallBoot.queried 0x500, true) := queried_eq (by decide)
  have hchanged : ((smallBoot.queried 0x500).store .word 0x80000500 1).dispatchable 0x500 =
      some (changedBoot, false) := queried_eq (by decide)
  have hbefore : Relation.ReflTransGen (Step Spares) smallBoot changedBoot :=
    ((Relation.ReflTransGen.single (.dispatch _ _ 0x500 true hclean)).tail
      (.store _ .word 0x80000500 1 (by decide) fun hpass => absurd rfl hpass)).tail (.dispatch _ _ 0x500 false hchanged)
  have hspares : Spares { changedBoot with checkpoint := some changedBoot.ram } .byte 0x80001000 5 := by
    intro _ b hb i hlo hhi
    obtain rfl := List.mem_singleton.1 hb
    have hrange : 0x500 ≤ i ∧ i < 0x504 := ⟨hlo, hhi⟩
    obtain rfl | rfl | rfl | rfl : i = 0x500 ∨ i = 0x501 ∨ i = 0x502 ∨ i = 0x503 := by omega
    all_goals decide
  exact ((hbefore.tail (.passBegin _ (by decide))).tail (.store _ .byte 0x80001000 5 (by decide) hspares)).tail
    (.passEnd _ _ rfl)

/-- Behind the pass a store brings the body back; it may run natively again, on the bytes of the ROM. -/
theorem smallBoot_redispatched : ∃ s', (passedBoot.store .word 0x80000500 0).dispatchable 0x500 = some (s', true) ∧
    (passedBoot.store .word 0x80000500 0).Intact smallImage.patches ⟨0x500, 0x500, 0x504⟩ := by
  have hplace : passedBoot.pass.bus.place .word 0x80000500 (clip .word 0) = .ram 0x500 := rfl
  obtain ⟨s', hquery⟩ := (kernel_bless_sound ⟨rfl, rfl⟩ smallBoot_run).2 0 ⟨0x500, 0x500, 0x504⟩ .word 0x80000500 0
    0x500 0x500 rfl (by decide) (by decide) (by decide) hplace (by decide) (by decide) (fun i hlo hhi _ => by
      have hrange : 0x500 ≤ i ∧ i < 0x504 := ⟨hlo, hhi⟩
      obtain rfl | rfl | rfl | rfl : i = 0x500 ∨ i = 0x501 ∨ i = 0x502 ∨ i = 0x503 := by omega
      all_goals decide)
  have hrun := smallBoot_run.tail (.store passedBoot .word 0x80000500 0 (by decide) fun hpass => absurd rfl hpass)
  exact ⟨s', hquery, (kernel_bless_sound ⟨rfl, rfl⟩ hrun).1 0x500 s' hquery _ List.mem_cons_self rfl⟩

/-- The body verified, then changed by a store of a render pass. -/
def patchedInPass : System :=
  System.store { smallBoot.queried 0x500 with checkpoint := some (smallBoot.queried 0x500).ram }
    .byte 0x80000500 1

theorem kernel_bless_fails :
    ¬∀ s₀ s : System, s₀.Boot → Relation.ReflTransGen (Step fun _ _ _ _ => True) s₀ s →
      ∀ (phys : Word) (s' : System), s.dispatchable phys = some (s', true) →
        ∀ b ∈ s.image.bodies, b.key = phys → s.Intact s.image.patches b := by
  intro hall
  have hquery : smallBoot.dispatchable 0x500 = some (smallBoot.queried 0x500, true) :=
    queried_eq (by decide)
  have hrun : Relation.ReflTransGen (Step fun _ _ _ _ => True) smallBoot patchedInPass :=
    ((Relation.ReflTransGen.single (.dispatch _ _ 0x500 true hquery)).tail (.passBegin _ rfl)).tail
      (.store _ .byte 0x80000500 1 (by decide) trivial)
  have hstale := queried_eq
    (show (patchedInPass.dispatchable 0x500).map Prod.snd = some true by decide)
  have hsame := hall _ _ ⟨rfl, rfl⟩ hrun 0x500 _ hstale ⟨0x500, 0x500, 0x504⟩ List.mem_cons_self rfl
    0x500 (by decide) (by decide) fun p hp => absurd hp List.not_mem_nil
  exact absurd hsame (by decide)

end PsxRecomp.Memory
