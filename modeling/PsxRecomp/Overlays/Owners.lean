import PsxRecomp.Overlays.Candidates

/-! The owner of a continuation: the preferred candidate among those whose ranges hold the PC and whose bytes
are live, behind a page index and a cache of PCs. -/
namespace PsxRecomp.Overlays
set_option autoImplicit false

/-! ## The lookup -/

def rangesContain (ranges : List CodeRange) (phys : Word) : Bool :=
  ranges.any fun r => phys ≥ r.lo && phys < r.lo + r.len

def firstRangeLo (ranges : List CodeRange) : Word :=
  ranges.foldl (fun first r => if r.lo < first then r.lo else first) 0xFFFFFFFF

/-- Whether a candidate of the segment may own the PC, whatever its bytes. -/
def Candidate.spans (c : Candidate) (seg phys : Word) : Bool :=
  c.seg = seg && rangesContain c.ranges phys && c.addr = firstRangeLo c.ranges

/-- `range_candidate_matches` -/
def rangeCandidateMatches (m : Memory) (i : ℕ) (seg phys : Word) (t : Table) : Table × Bool :=
  let c := t.cand i
  if c.state = .blacklist then (t, false)
  else if c.spans seg phys then (t.setCand i (c.judge m).1, (c.judge m).2)
  else (t, false)

/-- `range_candidate_preferred` -/
def rangeCandidatePreferred (t : Table) (candidate : ℕ) : Option ℕ → Bool
  | none => true
  | some current =>
    if (t.cand candidate).tier ≠ (t.cand current).tier then (t.cand current).tier < (t.cand candidate).tier
    else current < candidate

def scanOwners (m : Memory) (seg phys : Word) : List ℕ → Table → Option ℕ → Table × Option ℕ
  | [], t, best => (t, best)
  | i :: is, t, best =>
    let r := rangeCandidateMatches m i seg phys t
    scanOwners m seg phys is r.1 (if r.2 && rangeCandidatePreferred r.1 i best then some i else best)

/-- Every candidate once the index has overflowed, else those linked to the page. -/
def Table.scanned (t : Table) (page : ℕ) : List ℕ :=
  if t.range.overflow then List.range t.candN else t.range.pages page

def pcSlot (key : Word) : ℕ := ((key * 2654435761) &&& 16383).toNat

def Table.setSlot (k : ℕ) (slot : RangePcSlot) (t : Table) : Table :=
  { t with pcCache := Function.update t.pcCache k slot }

/-- The scan behind the cache, and its result entered there. -/
def findUncached (m : Memory) (seg phys : Word) (t : Table) : Table × Option ℕ :=
  let r := scanOwners m seg phys (t.scanned (pageOf phys)) t none
  let key := seg ||| phys
  (r.1.setSlot (pcSlot key) ⟨key, t.generation, r.2⟩, r.2)

/-- `overlay_find_by_range` -/
def overlayFindByRange (m : Memory) (seg phys : Word) (t : Table) : Table × Option ℕ :=
  if pageOf phys ≥ rangePageCount then (t, none)
  else
    let slot := t.pcCache (pcSlot (seg ||| phys))
    match slot.cand with
    | none => findUncached m seg phys t
    | some i =>
      if slot.generation = t.generation ∧ slot.key = (seg ||| phys) then
        let r := rangeCandidateMatches m i seg phys t
        if r.2 then (r.1, some i) else findUncached m seg phys r.1
      else findUncached m seg phys t

/-! ## Verdicts -/

/-- A kept verdict is the one that the live bytes give. -/
def Judged (m : Memory) (c : Candidate) : Prop :=
  c.state ≠ .blacklist → ovRangesGensum m c.ranges = c.valGen →
    (c.state = .valid ↔ liveMatches m.geometry m.ram c.ranges c.crcCode = true)

/-- What a verdict never changes of a candidate. -/
structure Candidate.Same (c c' : Candidate) : Prop where
  addr : c'.addr = c.addr
  seg : c'.seg = c.seg
  ranges : c'.ranges = c.ranges
  crcCode : c'.crcCode = c.crcCode
  tier : c'.tier = c.tier
  deviceTouch : c'.deviceTouch = c.deviceTouch
  diffPasses : c'.diffPasses = c.diffPasses
  blacklist : c'.state = .blacklist ↔ c.state = .blacklist

theorem Candidate.Same.refl (c : Candidate) : c.Same c := ⟨rfl, rfl, rfl, rfl, rfl, rfl, rfl, Iff.rfl⟩

theorem Candidate.Same.trans {c c' c'' : Candidate} (h : c.Same c') (h' : c'.Same c'') : c.Same c'' where
  addr := h'.addr.trans h.addr
  seg := h'.seg.trans h.seg
  ranges := h'.ranges.trans h.ranges
  crcCode := h'.crcCode.trans h.crcCode
  tier := h'.tier.trans h.tier
  deviceTouch := h'.deviceTouch.trans h.deviceTouch
  diffPasses := h'.diffPasses.trans h.diffPasses
  blacklist := h'.blacklist.trans h.blacklist

theorem judge_same (m : Memory) {c : Candidate} (h : c.state ≠ .blacklist) : c.Same (c.judge m).1 := by
  have hfresh : ∀ (gen : Word) (b : Bool),
      c.Same { c with valGen := gen, state := if b then EntryState.valid else EntryState.invalid } := by
    intro gen b
    refine ⟨rfl, rfl, rfl, rfl, rfl, rfl, rfl, iff_of_false ?_ h⟩
    cases b <;> simp
  unfold Candidate.judge
  dsimp only
  split
  · exact .refl c
  · split
    · exact .refl c
    · exact hfresh _ _

theorem judge_spec {m : Memory} {c : Candidate} (hj : Judged m c) (h : c.state ≠ .blacklist) :
    (c.judge m).2 = liveMatches m.geometry m.ram c.ranges c.crcCode ∧ Judged m (c.judge m).1 := by
  unfold Candidate.judge
  dsimp only
  split
  · next hvalid => exact ⟨((hj h hvalid.2).1 hvalid.1).symm, hj⟩
  · split
    · next hinvalid =>
      refine ⟨?_, hj⟩
      have hno : ¬liveMatches m.geometry m.ram c.ranges c.crcCode = true := fun hlive => by
        have hvalid := (hj h hinvalid.2).2 hlive
        rw [hinvalid.1] at hvalid
        exact absurd hvalid (by decide)
      exact (Bool.eq_false_iff.2 hno).symm
    · refine ⟨rfl, fun _ _ => ?_⟩
      dsimp only
      split
      · next hlive => exact iff_of_true rfl hlive
      · next hno => exact iff_of_false (by decide) hno

/-! ## Tables that differ in verdicts only -/

structure Kin (t t' : Table) : Prop where
  candN : t'.candN = t.candN
  chain : t'.chain = t.chain
  range : t'.range = t.range
  generation : t'.generation = t.generation
  cand : ∀ i, (t.cand i).Same (t'.cand i)

theorem Kin.refl (t : Table) : Kin t t := ⟨rfl, rfl, rfl, rfl, fun _ => .refl _⟩

theorem Kin.trans {t t' t'' : Table} (h : Kin t t') (h' : Kin t' t'') : Kin t t'' where
  candN := h'.candN.trans h.candN
  chain := h'.chain.trans h.chain
  range := h'.range.trans h.range
  generation := h'.generation.trans h.generation
  cand i := (h.cand i).trans (h'.cand i)

theorem Kin.setCand {t : Table} {i : ℕ} {c : Candidate} (h : (t.cand i).Same c) : Kin t (t.setCand i c) := by
  refine ⟨rfl, rfl, rfl, rfl, fun j => ?_⟩
  by_cases hj : j = i
  · subst hj
    simpa [Table.setCand] using h
  · simpa [Table.setCand, hj] using Candidate.Same.refl (t.cand j)

/-! ## Owners -/

/-- A candidate that a scan without any cache takes for an owner of the PC. -/
structure Owner (m : Memory) (t : Table) (seg phys : Word) (i : ℕ) : Prop where
  known : i < t.candN
  listed : (t.cand i).state ≠ .blacklist
  spans : (t.cand i).spans seg phys = true
  live : liveMatches m.geometry m.ram (t.cand i).ranges (t.cand i).crcCode = true

/-- Higher tiers first, the newest within a tier. -/
def Beats (t : Table) (i j : ℕ) : Prop :=
  (t.cand j).tier < (t.cand i).tier ∨ (t.cand j).tier = (t.cand i).tier ∧ j < i

/-- The answer of a scan without any cache. -/
def Answer (m : Memory) (t : Table) (seg phys : Word) : Option ℕ → Prop
  | none => ∀ i, ¬Owner m t seg phys i
  | some i => Owner m t seg phys i ∧ ∀ j, Owner m t seg phys j → j ≠ i → Beats t i j

section Kin

variable {m : Memory} {t t' : Table} {seg phys : Word}

theorem Candidate.Same.spans {c c' : Candidate} (h : c.Same c') (seg phys : Word) :
    c'.spans seg phys = c.spans seg phys := by
  simp only [Candidate.spans, h.seg, h.ranges, h.addr]

theorem Kin.owner (h : Kin t t') (i : ℕ) : Owner m t' seg phys i ↔ Owner m t seg phys i := by
  have hsame := h.cand i
  constructor
  · rintro ⟨hknown, hlisted, hspans, hlive⟩
    rw [h.candN] at hknown
    rw [hsame.spans] at hspans
    rw [hsame.ranges, hsame.crcCode] at hlive
    exact ⟨hknown, fun hb => hlisted (hsame.blacklist.2 hb), hspans, hlive⟩
  · rintro ⟨hknown, hlisted, hspans, hlive⟩
    rw [← h.candN] at hknown
    rw [← hsame.spans] at hspans
    rw [← hsame.ranges, ← hsame.crcCode] at hlive
    exact ⟨hknown, fun hb => hlisted (hsame.blacklist.1 hb), hspans, hlive⟩

theorem Kin.beats (h : Kin t t') (i j : ℕ) : Beats t' i j ↔ Beats t i j := by
  rw [Beats, Beats, (h.cand i).tier, (h.cand j).tier]

theorem Kin.answer (h : Kin t t') {r : Option ℕ} : Answer m t' seg phys r ↔ Answer m t seg phys r := by
  cases r with
  | none => exact forall_congr' fun i => not_congr (h.owner i)
  | some i =>
    refine and_congr (h.owner i) (forall_congr' fun j => ?_)
    rw [h.owner j, h.beats i j]

end Kin

theorem beats_iff {t : Table} {i j : ℕ} : Beats t i j ↔
    (t.cand j).tier.toNat < (t.cand i).tier.toNat ∨ (t.cand j).tier.toNat = (t.cand i).tier.toNat ∧ j < i := by
  rw [Beats, BitVec.lt_def, BitVec.toNat_eq]

theorem Beats.trans {t : Table} {i j k : ℕ} (h : Beats t i j) (h' : Beats t j k) : Beats t i k := by
  rw [beats_iff] at *
  omega

theorem preferred_iff {t : Table} {i j : ℕ} : rangeCandidatePreferred t i (some j) = true ↔ Beats t i j := by
  unfold rangeCandidatePreferred Beats
  by_cases h : (t.cand i).tier = (t.cand j).tier
  · simp [h]
  · have h' : (t.cand j).tier ≠ (t.cand i).tier := fun he => h he.symm
    simp [h, h']

theorem beats_total {t : Table} {i j : ℕ} (h : ¬Beats t i j) : j = i ∨ Beats t j i := by
  rw [beats_iff] at *
  omega

theorem Beats.asymm {t : Table} {i j : ℕ} (h : Beats t i j) : ¬Beats t j i := by
  rw [beats_iff] at *
  omega

/-! ## The scan -/

/-- The verdicts of a table. -/
def AllJudged (m : Memory) (t : Table) : Prop := ∀ i < t.candN, Judged m (t.cand i)

/-- What a look at candidates leaves. -/
structure Looked (m : Memory) (t t' : Table) : Prop where
  kin : Kin t t'
  pcCache : t'.pcCache = t.pcCache
  judged : AllJudged m t'

theorem Looked.trans {m : Memory} {t t' t'' : Table} (h : Looked m t t') (h' : Looked m t' t'') : Looked m t t'' :=
  ⟨h.kin.trans h'.kin, h'.pcCache.trans h.pcCache, h'.judged⟩

section Scan

variable {m : Memory} {t : Table} (seg phys : Word)

theorem matches_spec (hj : AllJudged m t) {i : ℕ} (hi : i < t.candN) :
    ((rangeCandidateMatches m i seg phys t).2 = true ↔ Owner m t seg phys i) ∧
      Looked m t (rangeCandidateMatches m i seg phys t).1 := by
  unfold rangeCandidateMatches
  dsimp only
  split
  · next hblack => exact ⟨iff_of_false Bool.false_ne_true fun ho => ho.listed hblack, .refl t, rfl, hj⟩
  · next hlisted =>
    split
    · next hspans =>
      obtain ⟨hvalue, hjudged⟩ := judge_spec (hj i hi) hlisted
      refine ⟨?_, Kin.setCand (judge_same m hlisted), rfl, fun k hk => ?_⟩
      · dsimp only
        rw [hvalue]
        exact ⟨fun hlive => ⟨hi, hlisted, hspans, hlive⟩, fun ho => ho.live⟩
      · by_cases hki : k = i
        · subst hki
          simpa [Table.setCand] using hjudged
        · simpa [Table.setCand, hki] using hj k hk
    · next hno => exact ⟨iff_of_false Bool.false_ne_true fun ho => hno ho.spans, .refl t, rfl, hj⟩

/-- The best of the owners in a list and of a first one. -/
structure BestOf (m : Memory) (t : Table) (seg phys : Word) (l : List ℕ) (first best : Option ℕ) : Prop where
  none : best = none → first = none ∧ ∀ i ∈ l, ¬Owner m t seg phys i
  mem : ∀ i, best = some i → (i ∈ l ∧ Owner m t seg phys i) ∨ first = some i
  first : ∀ i j, best = some i → first = some j → j = i ∨ Beats t i j
  most : ∀ i, best = some i → ∀ j ∈ l, Owner m t seg phys j → j = i ∨ Beats t i j

theorem scan_spec (l : List ℕ) (first : Option ℕ) (hj : AllJudged m t) (hl : ∀ i ∈ l, i < t.candN) :
    BestOf m t seg phys l first (scanOwners m seg phys l t first).2 ∧
      Looked m t (scanOwners m seg phys l t first).1 := by
  induction l generalizing t first with
  | nil =>
    refine ⟨⟨fun h => ⟨h, fun i hi => absurd hi List.not_mem_nil⟩, fun i h => Or.inr h, ?_, ?_⟩, .refl t, rfl, hj⟩
    · intro i j hi hf
      exact Or.inl (Option.some.inj (hf.symm.trans hi))
    · exact fun i _ j hmem => absurd hmem (List.not_mem_nil)
  | cons c cs ih =>
    obtain ⟨hmatch, hlooked⟩ := matches_spec seg phys hj (hl c (List.mem_cons_self ..))
    unfold scanOwners
    dsimp only
    generalize hr : rangeCandidateMatches m c seg phys t = r at hmatch hlooked ⊢
    have hcs : ∀ i ∈ cs, i < r.1.candN := by
      intro i hi
      rw [hlooked.kin.candN]
      exact hl i (List.mem_cons_of_mem _ hi)
    -- the best of the first and of this candidate
    generalize hnext : (if r.2 && rangeCandidatePreferred r.1 c first then some c else first) = next
    obtain ⟨hbest, hlooked'⟩ := ih next hlooked.judged hcs
    refine ⟨?_, hlooked.trans hlooked'⟩
    have howner : ∀ i, Owner m r.1 seg phys i ↔ Owner m t seg phys i := hlooked.kin.owner
    have hbeats : ∀ i j, Beats r.1 i j ↔ Beats t i j := hlooked.kin.beats
    have hstep : (next = none → first = none ∧ ¬Owner m t seg phys c) ∧
        (∀ i, next = some i → (i = c ∧ Owner m t seg phys c) ∨ first = some i) ∧
        (∀ i j, next = some i → first = some j → j = i ∨ Beats t i j) ∧
        (∀ i, next = some i → Owner m t seg phys c → c = i ∨ Beats t i c) := by
      subst hnext
      by_cases hown : Owner m t seg phys c
      · have htrue := hmatch.2 hown
        cases first with
        | none => simp [htrue, rangeCandidatePreferred, hown]
        | some j =>
          by_cases hpref : Beats t c j
          · have hp : rangeCandidatePreferred r.1 c (some j) = true := preferred_iff.2 ((hbeats c j).2 hpref)
            simp [htrue, hp, hown, hpref]
          · have hp : rangeCandidatePreferred r.1 c (some j) = false :=
              Bool.eq_false_iff.2 fun h => hpref ((hbeats c j).1 (preferred_iff.1 h))
            have htotal := beats_total hpref
            simp only [htrue, hp, Bool.and_false, if_false, Bool.false_eq_true]
            refine ⟨fun h => absurd h (by simp), fun i h => Or.inr h, ?_, ?_⟩
            · intro i k hi hk
              exact Or.inl (Option.some.inj (hk.symm.trans hi))
            · intro i hi _
              have hij := Option.some.inj hi
              subst hij
              exact htotal.imp Eq.symm id
      · have hfalse : r.2 = false := Bool.eq_false_iff.2 fun h => hown (hmatch.1 h)
        simp only [hfalse, Bool.false_and, if_false, Bool.false_eq_true]
        refine ⟨fun h => ⟨h, hown⟩, fun i h => Or.inr h, ?_, fun i _ h => absurd h hown⟩
        intro i k hi hk
        exact Or.inl (Option.some.inj (hk.symm.trans hi))
    obtain ⟨hnone, hmem, hfirst, hmost⟩ := hstep
    have hcarry : ∀ i j, (scanOwners m seg phys cs r.1 next).2 = some i →
        (∀ n, next = some n → j = n ∨ Beats t n j) → next ≠ none → j = i ∨ Beats t i j := by
      intro i j hi hj' hne
      obtain ⟨n, hn⟩ := Option.ne_none_iff_exists'.1 hne
      have hni := hbest.first i n hi hn
      rw [hbeats] at hni
      rcases hj' n hn with rfl | hnj
      · exact hni
      · rcases hni with rfl | hin
        · exact Or.inr hnj
        · exact Or.inr (hin.trans hnj)
    refine ⟨fun h => ?_, fun i hi => ?_, fun i j hi hf => ?_, fun i hi j hj' hown => ?_⟩
    · obtain ⟨hnext0, hrest⟩ := hbest.none h
      obtain ⟨hf0, hc⟩ := hnone hnext0
      refine ⟨hf0, fun i hi => ?_⟩
      rcases List.mem_cons.1 hi with rfl | hi
      · exact hc
      · exact fun ho => hrest i hi ((howner i).2 ho)
    · rcases hbest.mem i hi with ⟨hics, hown⟩ | hn
      · exact Or.inl ⟨List.mem_cons_of_mem _ hics, (howner i).1 hown⟩
      · rcases hmem i hn with ⟨rfl, hown⟩ | hf
        · exact Or.inl ⟨List.mem_cons_self .., hown⟩
        · exact Or.inr hf
    · refine hcarry i j hi (fun n hn => hfirst n j hn hf) fun h0 => ?_
      exact absurd ((hnone h0).1.symm.trans hf) (by simp)
    · rcases List.mem_cons.1 hj' with rfl | hjcs
      · exact hcarry i j hi (fun n hn => hmost n hn hown) fun h0 => (hnone h0).2 hown
      · exact (hbest.most i hi j hjcs ((howner j).2 hown)).imp id (hbeats i j).1

end Scan

/-! ## The index and the cache -/

/-- The page index holds every candidate that may own a PC, and only registered ones. -/
structure Indexed (t : Table) : Prop where
  linked : t.range.overflow = false → ∀ i < t.candN, ∀ seg phys, (t.cand i).spans seg phys = true →
    i ∈ t.range.pages (pageOf phys)
  known : ∀ p, ∀ i ∈ t.range.pages p, i < t.candN

/-- A slot that a lookup of the PC would trust. -/
structure Trusted (t : Table) (seg phys : Word) (w : ℕ) : Prop where
  cand : (t.pcCache (pcSlot (seg ||| phys))).cand = some w
  generation : (t.pcCache (pcSlot (seg ||| phys))).generation = t.generation
  key : (t.pcCache (pcSlot (seg ||| phys))).key = (seg ||| phys)

/-- No candidate is preferred to the owner that is cached for the PC. -/
def Settled (m : Memory) (t : Table) (seg phys : Word) : Prop :=
  ∀ w, Trusted t seg phys w → Owner m t seg phys w → ∀ j, Owner m t seg phys j → ¬Beats t j w

section Lookup

variable {m : Memory} {t : Table} {seg phys : Word}

theorem scanned_known (h : Indexed t) (p : ℕ) : ∀ i ∈ t.scanned p, i < t.candN := by
  unfold Table.scanned
  split
  · exact fun i hi => List.mem_range.1 hi
  · exact h.known p

theorem owner_scanned (h : Indexed t) {i : ℕ} (ho : Owner m t seg phys i) : i ∈ t.scanned (pageOf phys) := by
  unfold Table.scanned
  split
  · exact List.mem_range.2 ho.known
  · next hover => exact h.linked (Bool.eq_false_iff.2 hover) i ho.known seg phys ho.spans

theorem findUncached_spec (seg phys : Word) (hj : AllJudged m t) (hix : Indexed t) :
    Answer m t seg phys (findUncached m seg phys t).2 ∧
      ∃ r, Looked m t r ∧ (findUncached m seg phys t).1 =
        r.setSlot (pcSlot (seg ||| phys)) ⟨seg ||| phys, t.generation, (findUncached m seg phys t).2⟩ := by
  obtain ⟨hbest, hlooked⟩ := scan_spec seg phys (t.scanned (pageOf phys)) none hj (scanned_known hix _)
  refine ⟨?_, (scanOwners m seg phys (t.scanned (pageOf phys)) t none).1, hlooked, rfl⟩
  unfold findUncached
  dsimp only
  generalize hr : (scanOwners m seg phys (t.scanned (pageOf phys)) t none).2 = r at hbest
  cases r with
  | none => exact fun i ho => (hbest.none rfl).2 i (owner_scanned hix ho) ho
  | some i =>
    refine ⟨?_, fun j ho hne => ?_⟩
    · rcases hbest.mem i rfl with hmem | hnone
      · exact hmem.2
      · exact absurd hnone (by simp)
    · exact (hbest.most i rfl j (owner_scanned hix ho) ho).resolve_left hne

/-- The answer of a cached owner that still matches. -/
theorem Settled.answer (h : Settled m t seg phys) {w : ℕ} (hw : Trusted t seg phys w) (ho : Owner m t seg phys w) :
    Answer m t seg phys (some w) :=
  ⟨ho, fun j hj hne => (beats_total (h w hw ho j hj)).resolve_left fun he => hne he.symm⟩

end Lookup

end PsxRecomp.Overlays
