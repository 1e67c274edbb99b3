import PsxRecomp.Overlays.Owners

/-! What the indexes of the candidate table keep through looks, registrations and the blacklist, and what a
store changes under the candidates. -/
namespace PsxRecomp.Overlays
set_option autoImplicit false

/-! ## Active code -/

/-- The stack of active native entries; what lies above the depth is stale. -/
structure Activity where
  stack : ℕ → ℕ
  depth : ℕ

/-- Whether a store meets a range, by the addresses the code was compiled for. -/
def rangesOverlapWrite (ranges : List CodeRange) (p size : Word) : Bool :=
  ranges.any fun r => p < r.lo + r.len && p + size > r.lo

/-- One turn of the loop over the stack. -/
def blacklistIf (p size : Word) (t : Table) (i : ℕ) : Table :=
  if rangesOverlapWrite (t.cand i).ranges p size then t.setCand i { t.cand i with state := .blacklist } else t

/-- `overlay_loader_active_write_check` -/
def activeWriteCheck (act : Activity) (phys size : Word) (t : Table) : Table :=
  ((List.range act.depth).map act.stack).foldl (blacklistIf (phys &&& 0x1FFFFFFF) size) t

/-! ## The blacklist -/

/-- A table with some candidates more on the blacklist. -/
structure Blacklisted (t t' : Table) : Prop where
  candN : t'.candN = t.candN
  chain : t'.chain = t.chain
  range : t'.range = t.range
  pcCache : t'.pcCache = t.pcCache
  generation : t'.generation = t.generation
  cand : ∀ i, t'.cand i = t.cand i ∨ t'.cand i = { t.cand i with state := .blacklist }

theorem Blacklisted.refl (t : Table) : Blacklisted t t := ⟨rfl, rfl, rfl, rfl, rfl, fun _ => Or.inl rfl⟩

theorem Blacklisted.trans {t t' t'' : Table} (h : Blacklisted t t') (h' : Blacklisted t' t'') : Blacklisted t t'' where
  candN := h'.candN.trans h.candN
  chain := h'.chain.trans h.chain
  range := h'.range.trans h.range
  pcCache := h'.pcCache.trans h.pcCache
  generation := h'.generation.trans h.generation
  cand i := by
    rcases h.cand i with e | e <;> rcases h'.cand i with e' | e' <;> rw [e'] <;> simp [e]

theorem blacklistIf_blacklisted (p size : Word) (t : Table) (i : ℕ) : Blacklisted t (blacklistIf p size t i) := by
  unfold blacklistIf
  split
  · refine ⟨rfl, rfl, rfl, rfl, rfl, fun j => ?_⟩
    by_cases h : j = i
    · subst h
      simp [Table.setCand]
    · simp [Table.setCand, h]
  · exact .refl t

theorem foldl_blacklisted (p size : Word) (l : List ℕ) (t : Table) :
    Blacklisted t (l.foldl (blacklistIf p size) t) := by
  induction l generalizing t with
  | nil => exact .refl t
  | cons i is ih => exact (blacklistIf_blacklisted p size t i).trans (ih _)

theorem activeWriteCheck_blacklisted (act : Activity) (phys size : Word) (t : Table) :
    Blacklisted t (activeWriteCheck act phys size t) :=
  foldl_blacklisted _ _ _ t

section Blacklist

variable {m : Memory} {t t' : Table} {seg phys : Word}

theorem Blacklisted.same (h : Blacklisted t t') {i : ℕ} (hi : (t'.cand i).state ≠ .blacklist) :
    t'.cand i = t.cand i := by
  rcases h.cand i with e | e
  · exact e
  · rw [e] at hi
    exact absurd rfl hi

theorem Blacklisted.ranges (h : Blacklisted t t') (i : ℕ) : (t'.cand i).ranges = (t.cand i).ranges := by
  rcases h.cand i with e | e <;> rw [e]

theorem Blacklisted.spans (h : Blacklisted t t') (i : ℕ) :
    (t'.cand i).spans seg phys = (t.cand i).spans seg phys := by
  rcases h.cand i with e | e
  · rw [e]
  · rw [e]
    rfl

end Blacklist

/-! ## A store and the bytes it leaves -/

section Store

variable {m : Memory} {phys : Word} {bytes : List Byte} {ranges : List CodeRange}

@[simp] theorem write_geometry (m : Memory) (phys : Word) (bytes : List Byte) :
    (m.write phys bytes).geometry = m.geometry := by
  unfold Memory.write Memory.put Memory.bump
  split <;> rfl

@[simp] theorem write_watch (m : Memory) (phys : Word) (bytes : List Byte) : (m.write phys bytes).watch = m.watch := by
  unfold Memory.write Memory.put Memory.bump
  split <;> rfl

theorem write_ram (m : Memory) (phys : Word) (bytes : List Byte) (a : Word) :
    (m.write phys bytes).ram a = (bytes[(a - phys).toNat]?).getD (m.ram a) := by
  unfold Memory.write Memory.put Memory.bump
  split <;> rfl

theorem write_pageGen (m : Memory) (phys : Word) (bytes : List Byte) {p : ℕ} (h : p ≠ pageOf phys) :
    (m.write phys bytes).pageGen p = m.pageGen p := by
  unfold Memory.write Memory.put Memory.bump
  split <;> simp [h]

/-- A store inside one page leaves the bytes under all others. -/
theorem write_elsewhere (hin : phys.toNat % 4096 + bytes.length ≤ 4096)
    (hpage : pageOf phys ∉ pagesUnder m.geometry ranges) :
    SameBytes m.geometry m.ram (m.write phys bytes).ram ranges := by
  intro r hr off hoff i hi
  have hother : pageOf (off + BitVec.ofNat 32 i) ≠ pageOf phys := fun he =>
    hpage (List.mem_flatMap.2 ⟨r, hr, he ▸ page_of_byte hoff hi⟩)
  generalize off + BitVec.ofNat 32 i = a at hother
  have hlen : bytes.length ≤ (a - phys).toNat := by
    by_contra hlt
    have ha := a.isLt
    have hp := phys.isLt
    simp only [pageOf] at hother
    have hsub : (a - phys).toNat = (4294967296 - phys.toNat + a.toNat) % 4294967296 := BitVec.toNat_sub a phys
    omega
  rw [write_ram, List.getElem?_eq_none hlen, Option.getD_none]

theorem write_gensum (hpage : pageOf phys ∉ pagesUnder m.geometry ranges) :
    ovRangesGensum (m.write phys bytes) ranges = ovRangesGensum m ranges := by
  rw [gensum_eq, gensum_eq, write_geometry]
  refine congrArg List.sum (List.map_congr_left fun p hp => ?_)
  exact write_pageGen m phys bytes fun he => hpage (he ▸ hp)

end Store

/-! ## Linking a candidate -/

theorem addLinks_known (cap ci : ℕ) (ps seen : List ℕ) (ix : RangeIndex) :
    ∀ p, ∀ i ∈ (addLinks cap ci ps seen ix).pages p, i ∈ ix.pages p ∨ i = ci := by
  induction ps generalizing seen ix with
  | nil => exact fun p i hi => Or.inl hi
  | cons q qs ih =>
    unfold addLinks
    split
    · exact ih seen ix
    · split
      · exact fun p i hi => Or.inl hi
      · intro p i hi
        rcases ih (q :: seen) _ p i hi with hmem | heq
        · by_cases hp : p = q
          · subst hp
            simpa using hmem
          · exact Or.inl (by simpa [hp] using hmem)
        · exact Or.inr heq

/-- Unless the links run out, every page of the candidate has its link. -/
theorem addLinks_linked (cap ci : ℕ) (ps seen : List ℕ) (ix : RangeIndex)
    (h : (addLinks cap ci ps seen ix).overflow = false) :
    ix.overflow = false ∧ (∀ p, ∀ i ∈ ix.pages p, i ∈ (addLinks cap ci ps seen ix).pages p) ∧
      ((∀ p ∈ seen, ci ∈ ix.pages p) → ∀ p ∈ ps, ci ∈ (addLinks cap ci ps seen ix).pages p) := by
  induction ps generalizing seen ix with
  | nil => exact ⟨h, fun p i hi => hi, fun _ p hp => absurd hp (List.not_mem_nil)⟩
  | cons q qs ih =>
    unfold addLinks at h ⊢
    split at h
    · next hseen =>
      rw [if_pos hseen]
      obtain ⟨hover, hkept, hlinked⟩ := ih seen ix h
      refine ⟨hover, hkept, fun hs p hp => ?_⟩
      rcases List.mem_cons.1 hp with rfl | hp
      · exact hkept p ci (hs p hseen)
      · exact hlinked hs p hp
    · next hseen =>
      rw [if_neg hseen]
      split at h
      · exact absurd h (by simp)
      · next hroom =>
        rw [if_neg hroom]
        obtain ⟨hover, hkept, hlinked⟩ := ih (q :: seen) _ h
        have hgrow : ∀ p, ∀ i ∈ ix.pages p, i ∈ Function.update ix.pages q (ix.pages q ++ [ci]) p := by
          intro p i hi
          by_cases hp : p = q
          · subst hp
            rw [Function.update_self]
            exact List.mem_append_left _ hi
          · rwa [Function.update_of_ne hp]
        have hnew : ci ∈ Function.update ix.pages q (ix.pages q ++ [ci]) q := by
          rw [Function.update_self]
          exact List.mem_append_right _ (List.mem_singleton.2 rfl)
        refine ⟨hover, fun p i hi => hkept p i (hgrow p i hi), fun hs p hp => ?_⟩
        rcases List.mem_cons.1 hp with rfl | hp
        · exact hkept p ci hnew
        · refine hlinked (fun p' hp' => ?_) p hp
          rcases List.mem_cons.1 hp' with rfl | hp'
          · exact hnew
          · exact hgrow p' ci (hs p' hp')

/-- A range inside the window, as registration admits it. -/
def Bounded (ranges : List CodeRange) : Prop :=
  ∀ r ∈ ranges, 0 < r.len.toNat ∧ r.lo.toNat + r.len.toNat ≤ 0x800000

theorem rangesValid_bounded (seen : List CodeRange) (l : List CodeRange) (h : rangesValid seen l = true) :
    Bounded (l.map stripSegment) := by
  induction l generalizing seen with
  | nil => exact fun r hr => absurd hr (List.not_mem_nil)
  | cons r rs ih =>
    unfold rangesValid at h
    simp only [Bool.and_eq_true, Bool.not_eq_true', Bool.or_eq_false_iff, decide_eq_false_iff_not] at h
    obtain ⟨⟨⟨⟨⟨-, hlen⟩, hlo⟩, hin⟩, -⟩, hrest⟩ := h
    intro q hq
    rcases List.mem_cons.1 hq with rfl | hq
    · simp only [stripSegment, ramWindow] at *
      generalize r.lo &&& 0x1FFFFFFF = lo at hlo hin
      constructor <;> bv_omega
    · exact ih _ hrest q hq

theorem valid_bounded {man : ManFn} (h : manStructurallyValid man = true) :
    Bounded ((man.ranges.take maxCodeRanges).map stripSegment) := by
  unfold manStructurallyValid at h
  simp only [Bool.and_eq_true] at h
  intro r hr
  refine rangesValid_bounded [] man.ranges h.1.2 r ?_
  exact List.mem_map.2 ((List.mem_map.1 hr).imp fun q hq => ⟨List.mem_of_mem_take hq.1, hq.2⟩)

/-- A bounded range that holds a PC is linked to its page. -/
theorem contains_page {ranges : List CodeRange} (hb : Bounded ranges) {phys : Word}
    (h : rangesContain ranges phys = true) :
    pageOf phys < rangePageCount ∧ pageOf phys ∈ ranges.flatMap indexPages := by
  unfold rangesContain at h
  obtain ⟨r, hr, hin⟩ := List.any_eq_true.1 h
  obtain ⟨hpos, hend⟩ := hb r hr
  simp only [Bool.and_eq_true, decide_eq_true_eq] at hin
  obtain ⟨hge, hlt⟩ := hin
  have hge' : r.lo.toNat ≤ phys.toNat := hge
  have hlt' : phys.toNat < (r.lo + r.len).toNat := hlt
  have hsum : (r.lo + r.len).toNat = r.lo.toNat + r.len.toNat := by
    bv_omega
  have hlast : (r.lo + r.len - 1).toNat = r.lo.toNat + r.len.toNat - 1 := by
    bv_omega
  refine ⟨?_, List.mem_flatMap.2 ⟨r, hr, ?_⟩⟩
  · simp only [pageOf, rangePageCount]
    omega
  · unfold indexPages
    simp only [pageOf, rangePageCount, hlast]
    rw [if_neg (by omega), if_neg (by omega), List.mem_range'_1]
    omega

/-! ## Formed tables -/

def segOf (addr : Word) : Word := addr &&& 0xE0000000
def physOf (addr : Word) : Word := addr &&& 0x1FFFFFFF

theorem addr_split (addr : Word) : segOf addr ||| physOf addr = addr := by
  unfold segOf physOf
  rw [← BitVec.and_or_distrib_left]
  have hall : (0xE0000000 : Word) ||| 0x1FFFFFFF = BitVec.allOnes 32 := by decide
  rw [hall, BitVec.and_allOnes]

/-- The indexes of a table fit its candidates. -/
structure Formed (t : Table) : Prop where
  indexed : Indexed t
  inside : ∀ i < t.candN, ∀ seg phys, (t.cand i).spans seg phys = true → pageOf phys < rangePageCount
  counted : t.generation.toNat = t.candN + 1 ∧ t.candN ≤ candCap
  slots : ∀ k, (t.pcCache k).generation.toNat ≤ t.generation.toNat
  slotKnown : ∀ k i, (t.pcCache k).cand = some i → i < t.candN

theorem formed_init : Formed Table.init where
  indexed := ⟨fun _ i hi => absurd hi (Nat.not_lt_zero i), fun p i hi => absurd hi (List.not_mem_nil)⟩
  inside i hi := absurd hi (Nat.not_lt_zero i)
  counted := ⟨rfl, Nat.zero_le _⟩
  slots k := Nat.zero_le _
  slotKnown k i h := absurd h (by simp [Table.init])

section Formed

variable {m : Memory} {t t' : Table}

theorem Formed.kin (h : Formed t) (hk : Kin t t') (hslot : t'.pcCache = t.pcCache) : Formed t' where
  indexed := by
    refine ⟨fun hover i hi seg phys hs => ?_, fun p i hi => ?_⟩
    · rw [hk.range] at hover ⊢
      rw [hk.candN] at hi
      rw [(hk.cand i).spans] at hs
      exact h.indexed.linked hover i hi seg phys hs
    · rw [hk.range] at hi
      rw [hk.candN]
      exact h.indexed.known p i hi
  inside i hi seg phys hs := by
    rw [hk.candN] at hi
    rw [(hk.cand i).spans] at hs
    exact h.inside i hi seg phys hs
  counted := by
    rw [hk.generation, hk.candN]
    exact h.counted
  slots k := by
    rw [hslot, hk.generation]
    exact h.slots k
  slotKnown k i hi := by
    rw [hslot] at hi
    rw [hk.candN]
    exact h.slotKnown k i hi

/-- A slot filled with a registered candidate or none. -/
theorem Formed.setSlot (h : Formed t) (k : ℕ) (key : Word) {r : Option ℕ} (hr : ∀ i, r = some i → i < t.candN) :
    Formed (t.setSlot k ⟨key, t.generation, r⟩) where
  indexed := ⟨h.indexed.linked, h.indexed.known⟩
  inside := h.inside
  counted := h.counted
  slots j := by
    by_cases hj : j = k
    · subst hj
      simp [Table.setSlot]
    · simpa [Table.setSlot, hj] using h.slots j
  slotKnown j i hi := by
    by_cases hj : j = k
    · subst hj
      exact hr i (by simpa [Table.setSlot] using hi)
    · exact h.slotKnown j i (by simpa [Table.setSlot, hj] using hi)

theorem Formed.blacklisted (h : Formed t) (hb : Blacklisted t t') : Formed t' where
  indexed := by
    refine ⟨fun hover i hi seg phys hs => ?_, fun p i hi => ?_⟩
    · rw [hb.range] at hover ⊢
      rw [hb.candN] at hi
      rw [hb.spans] at hs
      exact h.indexed.linked hover i hi seg phys hs
    · rw [hb.range] at hi
      rw [hb.candN]
      exact h.indexed.known p i hi
  inside i hi seg phys hs := by
    rw [hb.candN] at hi
    rw [hb.spans] at hs
    exact h.inside i hi seg phys hs
  counted := by
    rw [hb.generation, hb.candN]
    exact h.counted
  slots k := by
    rw [hb.pcCache, hb.generation]
    exact h.slots k
  slotKnown k i hi := by
    rw [hb.pcCache] at hi
    rw [hb.candN]
    exact h.slotKnown k i hi

theorem enter_cand (c : Candidate) (t : Table) (i : ℕ) :
    (t.enter c).cand i = if i = t.candN then c else t.cand i := by
  unfold Table.enter setChain Table.setCand
  split <;> simp [Function.update_apply]

theorem enter_old (c : Candidate) {i : ℕ} (hi : i < t.candN) : (t.enter c).cand i = t.cand i := by
  rw [enter_cand, if_neg hi.ne]

theorem enter_new (c : Candidate) (t : Table) : (t.enter c).cand t.candN = c := by
  rw [enter_cand, if_pos rfl]

theorem enter_pcCache (c : Candidate) (t : Table) : (t.enter c).pcCache = t.pcCache := by
  unfold Table.enter setChain Table.setCand
  split <;> rfl

theorem nextGeneration_toNat {g : Word} (h : g.toNat < 0xFFFFFFFF) : (nextGeneration g).toNat = g.toNat + 1 := by
  have hne : g + 1 ≠ 0 := by bv_omega
  rw [nextGeneration, if_neg hne]
  bv_omega

theorem Formed.enter_generation (h : Formed t) (hroom : ¬t.candN ≥ candCap) (c : Candidate) :
    (t.enter c).generation.toNat = t.generation.toNat + 1 := by
  refine nextGeneration_toNat ?_
  have hcap : candCap = 32768 := rfl
  have := h.counted
  omega

/-- A candidate entered with bounded ranges. -/
theorem Formed.enter (h : Formed t) (hroom : ¬t.candN ≥ candCap) {c : Candidate} (hc : Bounded c.ranges) :
    Formed (t.enter c) where
  indexed := by
    refine ⟨fun hover i hi seg phys hs => ?_, fun p i hi => ?_⟩
    · obtain ⟨hover', hkept, hlinked⟩ :=
        addLinks_linked rangeLinkCap t.candN (c.ranges.flatMap indexPages) [] t.range hover
      rcases Nat.lt_succ_iff_lt_or_eq.1 hi with hlt | heq
      · rw [enter_old c hlt] at hs
        exact hkept _ _ (h.indexed.linked hover' i hlt seg phys hs)
      · subst heq
        rw [enter_new] at hs
        simp only [Candidate.spans, Bool.and_eq_true] at hs
        exact hlinked (fun p hp => absurd hp (List.not_mem_nil)) _ (contains_page hc hs.1.2).2
    · rcases addLinks_known rangeLinkCap t.candN (c.ranges.flatMap indexPages) [] t.range p i hi with hmem | heq
      · exact Nat.lt_succ_of_lt (h.indexed.known p i hmem)
      · exact heq ▸ Nat.lt_succ_self _
  inside i hi seg phys hs := by
    rcases Nat.lt_succ_iff_lt_or_eq.1 hi with hlt | heq
    · rw [enter_old c hlt] at hs
      exact h.inside i hlt seg phys hs
    · subst heq
      rw [enter_new] at hs
      simp only [Candidate.spans, Bool.and_eq_true] at hs
      exact (contains_page hc hs.1.2).1
  counted := by
    rw [h.enter_generation hroom c, h.counted.1]
    exact ⟨rfl, Nat.lt_of_not_ge hroom⟩
  slots k := by
    rw [enter_pcCache, h.enter_generation hroom c]
    exact (h.slots k).trans (Nat.le_succ _)
  slotKnown k i hi := by
    rw [enter_pcCache] at hi
    exact Nat.lt_succ_of_lt (h.slotKnown k i hi)

end Formed

/-! ## Registration -/

/-- What a registration that goes through enters. -/
theorem candRegister_cases (phys : Word) (man : ManFn) (dll : ℕ) (tier : Byte) (m : Memory) (t : Table) :
    candRegister phys man dll tier m t = ((m, t), false) ∨
      (¬t.candN ≥ candCap ∧ ∃ c : Candidate,
        c = newCandidate (ovRangesWatch ((man.ranges.take maxCodeRanges).map stripSegment) m) phys man dll tier ∧
        Bounded c.ranges ∧
        candRegister phys man dll tier m t =
          ((ovRangesWatch ((man.ranges.take maxCodeRanges).map stripSegment) m, t.enter c), true)) := by
  unfold candRegister
  split
  · exact Or.inl rfl
  · next hroom =>
    split
    · exact Or.inl rfl
    · next hvalid => exact Or.inr ⟨hroom, _, rfl, valid_bounded (by simpa using hvalid), rfl⟩

theorem watch_same (m : Memory) (ranges ranges' : List CodeRange) :
    ovRangesGensum (ovRangesWatch ranges m) ranges' = ovRangesGensum m ranges' := by
  obtain ⟨hg, -, hgen, -⟩ := watch_eq m ranges
  rw [gensum_eq, gensum_eq, hg, hgen]

end PsxRecomp.Overlays
