import PsxRecomp.Overlays.Loads

/-! What a pass of the dispatch is made of: looks at candidates, looks at manifests and loads; and the owner that
a lookup confirms, or the mismatches that it leaves. -/
namespace PsxRecomp.Overlays
set_option autoImplicit false

/-! ## Verdicts while the generations stand -/

/-- A candidate that is not taken while the generations stand. -/
def Candidate.Rejects (m : Memory) (c : Candidate) : Prop :=
  c.state = .blacklist ∨ c.state = .invalid ∧ ovRangesGensum m c.ranges = c.valGen

/-- A candidate that is taken without a hash. -/
def Candidate.Confirmed (m : Memory) (c : Candidate) : Prop :=
  c.state = .valid ∧ ovRangesGensum m c.ranges = c.valGen

section Verdict

variable {m m' : Memory} {c : Candidate}

theorem Candidate.Confirmed.judge (h : c.Confirmed m) : c.judge m = (c, true) := by
  unfold Candidate.judge
  exact if_pos h

theorem Candidate.Confirmed.confirm (h : c.Confirmed m) : c.confirm m = (c, true) := by
  unfold Candidate.confirm
  exact if_pos h

theorem Candidate.Rejects.judge (h : c.Rejects m) (hlisted : c.state ≠ .blacklist) : c.judge m = (c, false) := by
  have hmiss := h.resolve_left hlisted
  unfold Candidate.judge
  dsimp only
  rw [if_neg fun hv => by simp [hmiss.1] at hv, if_pos hmiss]

theorem judge_true (h : (c.judge m).2 = true) : (c.judge m).1.Confirmed m := by
  unfold Candidate.judge at h ⊢
  dsimp only at h ⊢
  split at h
  · next hvalid =>
    rw [if_pos hvalid]
    exact hvalid
  · next hvalid =>
    rw [if_neg hvalid]
    split at h
    · exact absurd h Bool.noConfusion
    · next hmiss =>
      rw [if_neg hmiss]
      exact ⟨by simpa using h, rfl⟩

theorem judge_false (h : (c.judge m).2 = false) : (c.judge m).1.Rejects m := by
  unfold Candidate.judge at h ⊢
  dsimp only at h ⊢
  split at h
  · exact absurd h Bool.noConfusion
  · next hvalid =>
    rw [if_neg hvalid]
    split at h
    · next hmiss =>
      rw [if_pos hmiss]
      exact Or.inr hmiss
    · next hmiss =>
      rw [if_neg hmiss]
      exact Or.inr ⟨by simpa using h, rfl⟩

/-- Only live bytes make a candidate valid. -/
theorem judge_valid (h : (c.judge m).1.state = .valid) :
    c.state = .valid ∨ liveMatches m.geometry m.ram c.ranges c.crcCode = true := by
  unfold Candidate.judge at h
  dsimp only at h
  split at h
  · exact Or.inl h
  · split at h
    · exact Or.inl h
    · exact Or.inr (by simpa using h)

end Verdict

/-! ## Looks at candidates -/

/-- Looks at candidates: verdicts and slots of the PC cache move, and nothing else. -/
structure Table.Looks (m : Memory) (t t' : Table) : Prop where
  kin : Kin t t'
  rejects : ∀ i, (t.cand i).Rejects m → (t'.cand i).Rejects m
  confirmed : ∀ i, (t.cand i).Confirmed m → (t'.cand i).Confirmed m
  valid : ∀ i, (t'.cand i).state = .valid →
    (t.cand i).state = .valid ∨ liveMatches m.geometry m.ram (t.cand i).ranges (t.cand i).crcCode = true
  formed : Formed t → Formed t'

section Looks

variable {m : Memory} {t t' t'' : Table} {seg phys : Word}

theorem Table.Looks.refl (m : Memory) (t : Table) : t.Looks m t :=
  ⟨.refl t, fun _ => id, fun _ => id, fun _ => Or.inl, id⟩

theorem Table.Looks.trans (h : t.Looks m t') (h' : t'.Looks m t'') : t.Looks m t'' where
  kin := h.kin.trans h'.kin
  rejects i hr := h'.rejects i (h.rejects i hr)
  confirmed i hc := h'.confirmed i (h.confirmed i hc)
  valid i hv := by
    rcases h'.valid i hv with hv | hlive
    · exact h.valid i hv
    · rw [(h.kin.cand i).ranges, (h.kin.cand i).crcCode] at hlive
      exact Or.inr hlive
  formed hf := h'.formed (h.formed hf)

theorem looks_judge (m : Memory) (t : Table) {i : ℕ} (hlisted : (t.cand i).state ≠ .blacklist) :
    t.Looks m (t.setCand i ((t.cand i).judge m).1) := by
  have hkin : Kin t (t.setCand i ((t.cand i).judge m).1) := Kin.setCand (judge_same m hlisted)
  refine ⟨hkin, fun k hr => ?_, fun k hc => ?_, fun k hv => ?_, fun hf => hf.kin hkin rfl⟩ <;>
    by_cases hk : k = i
  · subst hk
    simpa [Table.setCand, hr.judge hlisted] using hr
  · simpa [Table.setCand, hk] using hr
  · subst hk
    simpa [Table.setCand, hc.judge] using hc
  · simpa [Table.setCand, hk] using hc
  · subst hk
    exact judge_valid (by simpa [Table.setCand] using hv)
  · exact Or.inl (by simpa [Table.setCand, hk] using hv)

theorem looks_setSlot (m : Memory) (t : Table) (k : ℕ) (key : Word) {r : Option ℕ}
    (hr : Formed t → ∀ i, r = some i → i < t.candN) : t.Looks m (t.setSlot k ⟨key, t.generation, r⟩) :=
  ⟨⟨rfl, rfl, rfl, rfl, fun _ => .refl _⟩, fun _ => id, fun _ => id, fun _ => Or.inl,
    fun hf => hf.setSlot k key (hr hf)⟩

/-- One candidate of a lookup. -/
structure Considers (m : Memory) (t : Table) (seg phys : Word) (i : ℕ) (r : Table × Bool) : Prop where
  looks : t.Looks m r.1
  no : r.2 = false → (t.cand i).spans seg phys = true → (r.1.cand i).Rejects m
  yes : r.2 = true → (r.1.cand i).Confirmed m ∧ (t.cand i).spans seg phys = true ∧ ¬(t.cand i).Rejects m

theorem matches_considers (m : Memory) (i : ℕ) (seg phys : Word) (t : Table) :
    Considers m t seg phys i (rangeCandidateMatches m i seg phys t) := by
  unfold rangeCandidateMatches
  dsimp only
  split
  · next hblack => exact ⟨.refl m t, fun _ _ => Or.inl hblack, fun h => absurd h Bool.noConfusion⟩
  · next hlisted =>
    split
    · next hspans =>
      refine ⟨looks_judge m t hlisted, fun hno _ => ?_, fun hyes => ⟨?_, hspans, fun hr => ?_⟩⟩
      · simpa [Table.setCand] using judge_false hno
      · simpa [Table.setCand] using judge_true hyes
      · rw [hr.judge hlisted] at hyes
        exact absurd hyes Bool.noConfusion
    · next hno => exact ⟨.refl m t, fun _ hs => absurd hs hno, fun h => absurd h Bool.noConfusion⟩

theorem Table.Looks.spans (h : t.Looks m t') (i : ℕ) : (t'.cand i).spans seg phys = (t.cand i).spans seg phys :=
  (h.kin.cand i).spans seg phys

/-- A scan: without an owner every candidate that spans the PC is out, and an owner is confirmed. -/
structure Scans (m : Memory) (t : Table) (seg phys : Word) (l : List ℕ) (first : Option ℕ) (r : Table × Option ℕ) :
    Prop where
  looks : t.Looks m r.1
  none : r.2 = none → first = none ∧ ∀ i ∈ l, (t.cand i).spans seg phys = true → (r.1.cand i).Rejects m
  some : ∀ i, r.2 = some i → first = some i ∨
    i ∈ l ∧ (r.1.cand i).Confirmed m ∧ (t.cand i).spans seg phys = true ∧ ¬(t.cand i).Rejects m

theorem scan_scans (m : Memory) (seg phys : Word) (l : List ℕ) (t : Table) (first : Option ℕ) :
    Scans m t seg phys l first (scanOwners m seg phys l t first) := by
  induction l generalizing t first with
  | nil =>
    exact ⟨.refl m t, fun h => ⟨h, fun i hi => absurd hi List.not_mem_nil⟩, fun i h => Or.inl h⟩
  | cons c cs ih =>
    unfold scanOwners
    dsimp only
    have hc := matches_considers m c seg phys t
    generalize rangeCandidateMatches m c seg phys t = r at hc
    obtain ⟨hlooks, hnone, hsome⟩ := ih r.1 (if r.2 && rangeCandidatePreferred r.1 c first then some c else first)
    refine ⟨hc.looks.trans hlooks, fun h => ?_, fun i h => ?_⟩
    · obtain ⟨hnext, hrest⟩ := hnone h
      have hfirst : first = none ∧ r.2 = false := by
        cases first with
        | none => simpa [rangeCandidatePreferred] using hnext
        | some j => split at hnext <;> exact absurd hnext (by simp)
      refine ⟨hfirst.1, fun i hi hs => ?_⟩
      rcases List.mem_cons.1 hi with rfl | hi
      · exact hlooks.rejects i (hc.no hfirst.2 hs)
      · exact hrest i hi (by rwa [hc.looks.spans])
    · rcases hsome i h with hnext | ⟨hi, hconf, hs, hfree⟩
      · split at hnext
        · next hyes =>
          have hci := Option.some.inj hnext
          subst hci
          simp only [Bool.and_eq_true] at hyes
          obtain ⟨hconf, hs, hfree⟩ := hc.yes hyes.1
          exact Or.inr ⟨List.mem_cons_self .., hlooks.confirmed c hconf, hs, hfree⟩
        · exact Or.inl hnext
      · rw [hc.looks.spans] at hs
        exact Or.inr ⟨List.mem_cons_of_mem _ hi, hconf, hs, fun hr => hfree (hc.looks.rejects i hr)⟩

/-- A lookup by range. -/
structure Finds (m : Memory) (t : Table) (seg phys : Word) (r : Table × Option ℕ) : Prop where
  looks : t.Looks m r.1
  none : r.2 = none → ∀ i < t.candN, (t.cand i).spans seg phys = true → (r.1.cand i).Rejects m
  some : ∀ i, r.2 = some i → i < t.candN ∧ (r.1.cand i).Confirmed m ∧ (t.cand i).spans seg phys = true ∧
    ¬(t.cand i).Rejects m

theorem findUncached_finds (hf : Formed t) (seg phys : Word) : Finds m t seg phys (findUncached m seg phys t) := by
  unfold findUncached
  dsimp only
  have hs := scan_scans m seg phys (t.scanned (pageOf phys)) t none
  generalize scanOwners m seg phys (t.scanned (pageOf phys)) t none = r at hs
  have hknown : ∀ i, r.2 = some i → i < t.candN := fun i hi =>
    scanned_known hf.indexed _ i ((hs.some i hi).resolve_left (by simp)).1
  have hgen : t.generation = r.1.generation := hs.looks.kin.generation.symm
  have hslot : r.1.Looks m (r.1.setSlot (pcSlot (seg ||| phys)) ⟨seg ||| phys, t.generation, r.2⟩) := by
    rw [hgen]
    exact looks_setSlot m r.1 _ _ fun _ i hi => hs.looks.kin.candN.symm ▸ hknown i hi
  refine ⟨hs.looks.trans hslot, fun hnone i hi hspan => ?_, fun i hi => ?_⟩
  · refine (hs.none hnone).2 i ?_ hspan
    unfold Table.scanned
    split
    · exact List.mem_range.2 hi
    · next hover => exact hf.indexed.linked (Bool.eq_false_iff.2 hover) i hi seg phys hspan
  · exact ⟨hknown i hi, ((hs.some i hi).resolve_left (by simp)).2⟩

theorem find_finds (hf : Formed t) (seg phys : Word) : Finds m t seg phys (overlayFindByRange m seg phys t) := by
  unfold overlayFindByRange
  split
  · next hpage =>
    refine ⟨.refl m t, fun _ i hi hs => ?_, fun i h => absurd h (by simp)⟩
    have hin := hf.inside i hi seg phys hs
    omega
  · dsimp only
    split
    · exact findUncached_finds hf seg phys
    · next w hw =>
      split
      · have hc := matches_considers m w seg phys t
        generalize rangeCandidateMatches m w seg phys t = r at hc
        split
        · next hyes =>
          refine ⟨hc.looks, fun h => absurd h (by simp), fun i hi => ?_⟩
          have hwi := Option.some.inj hi
          subst hwi
          exact ⟨hf.slotKnown _ w hw, hc.yes hyes⟩
        · have h := findUncached_finds (m := m) (hc.looks.formed hf) seg phys
          refine ⟨hc.looks.trans h.looks, fun hnone i hi hs => ?_, fun i hi => ?_⟩
          · exact h.none hnone i (hc.looks.kin.candN.symm ▸ hi) (by rwa [hc.looks.spans])
          · obtain ⟨hlt, hconf, hs, hfree⟩ := h.some i hi
            rw [hc.looks.spans] at hs
            exact ⟨hc.looks.kin.candN ▸ hlt, hconf, hs, fun hr => hfree (hc.looks.rejects i hr)⟩
      · exact findUncached_finds hf seg phys

end Looks

/-! ## Moves -/

/-- Looks and loads one after another. -/
inductive Moves (s : Runtime) : Runtime → Prop where
  | refl : Moves s s
  | tab {s' : Runtime} {t : Table} (h : Moves s s') (ht : s'.tab.Looks s'.mem t) : Moves s { s' with tab := t }
  | cache {s' : Runtime} {c : Cache} (h : Moves s s') (hc : s'.cache.Later s'.mem c) : Moves s { s' with cache := c }
  | load {s' : Runtime} {r : Runtime × ℤ} (h : Moves s s') (hr : Loads s' r) : Moves s r.1

section Moves

variable {s s' s'' : Runtime} {seg phys : Word}

theorem Moves.trans (h : Moves s s') (h' : Moves s' s'') : Moves s s'' := by
  induction h' with
  | refl => exact h
  | tab _ ht ih => exact ih.tab ht
  | cache _ hc ih => exact ih.cache hc
  | load _ hr ih => exact ih.load hr

theorem Moves.kept (h : Moves s s') : Kept s s' := by
  induction h with
  | refl => exact .refl s
  | tab _ _ ih => exact ih.trans ⟨rfl, rfl, rfl, rfl, rfl, rfl, rfl⟩
  | cache _ _ ih => exact ih.trans ⟨rfl, rfl, rfl, rfl, rfl, rfl, rfl⟩
  | load _ hr ih => exact ih.trans hr.kept

theorem Moves.counted (h : Moves s s') (hc : Counted s.cache) : Counted s'.cache := by
  induction h with
  | refl => exact hc
  | tab _ _ ih => exact ih
  | cache _ hl ih => exact ih.later hl
  | load _ hr ih => exact ih.later hr.cache

/-! ## Attempts at a region -/

/-- One attempt. -/
structure Attempts (s : Runtime) (seg phys : Word) (r : Runtime × Option Bool) : Prop where
  moves : Moves s r.1
  idle : r.2 ≠ some true → r.1.mem = s.mem ∧ r.1.tab = s.tab
  done : r.2 = none → r.1.Unselectable seg phys
  failed : r.2 = some false → unfailed r.1.cache ⊂ unfailed s.cache

theorem tryOnce_attempts (d : Disk) (seg phys : Word) (hc : Counted s.cache) :
    Attempts s seg phys (tryOnce d seg phys s) := by
  have hs := select_spec s.mem s.loadedPaths (regionStartOf s phys) seg phys s.cache
  unfold tryOnce
  dsimp only
  generalize selectArtifact s.mem s.loadedPaths (regionStartOf s phys) seg phys s.cache = r at hs
  have hstart : Moves s { s with cache := r.1 } := Moves.refl.cache hs.looked.later
  cases hsel : r.2 with
  | none =>
    dsimp only
    exact ⟨hstart, fun _ => ⟨rfl, rfl⟩, fun _ => hs.unselectable hsel, fun h => absurd h (by simp)⟩
  | some li =>
    dsimp only
    have hopen := hs.opened li hsel
    have hcount : Counted r.1 := hc.later hs.looked.later
    have hguard : ¬(li ≥ r.1.manN ∨ (r.1.man li).cacheIdx ≥ r.1.count ∨
        (r.1.entry (r.1.man li).cacheIdx).loadFailed = true ∨
        (r.1.entry (r.1.man li).cacheIdx).capacitySuppressed = true ∨
        (r.1.entry (r.1.man li).cacheIdx).path ∈ s.loadedPaths ∨
        (r.1.entry (r.1.man li).cacheIdx).funcCount = 0) := by
      obtain ⟨h1, h2, h3, h4, h5⟩ := hopen
      rintro (h | h | h | h | h | h)
      · exact absurd h1 (by omega)
      · exact absurd h2 (by omega)
      · simp [h3] at h
      · simp [h4] at h
      · exact h5 h
      · exact hcount li h1 h
    unfold lazyLoadSelected
    dsimp only
    rw [if_neg hguard]
    have hl := loadOneDll_loads d (r.1.entry (r.1.man li).cacheIdx).path none { s with cache := r.1 }
    generalize loadOneDll d (r.1.entry (r.1.man li).cacheIdx).path none { s with cache := r.1 } = q at hl
    split
    · exact ⟨hstart.load hl, fun h => absurd rfl h, fun h => absurd h (by simp), fun h => absurd h (by simp)⟩
    · next hno =>
      have hmark : q.1.cache.Later q.1.mem (q.1.cache.setEntry (r.1.man li).cacheIdx
          { q.1.cache.entry (r.1.man li).cacheIdx with loadFailed := true }) :=
        later_setEntry _ ⟨rfl, fun _ => rfl, id⟩
      refine ⟨(hstart.load hl).cache hmark, fun _ => hl.idle (not_lt.1 hno), fun h => absurd h (by simp), fun _ => ?_⟩
      have hsub : unfailed (q.1.cache.setEntry (r.1.man li).cacheIdx
          { q.1.cache.entry (r.1.man li).cacheIdx with loadFailed := true }) ⊆ unfailed s.cache :=
        (unfailed_later hmark).trans ((unfailed_later hl.cache).trans (unfailed_later hs.looked.later))
      refine Finset.ssubset_iff_of_subset hsub |>.2 ⟨(r.1.man li).cacheIdx, ?_, ?_⟩
      · have hcnt := hopen.entry
        have hflag := hopen.loadFailed
        rw [hs.looked.count] at hcnt
        rw [hs.looked.entry] at hflag
        simp only [unfailed, Finset.mem_filter, Finset.mem_range]
        exact ⟨hcnt, hflag⟩
      · exact failed_not_unfailed (by simp [Cache.setEntry])

/-- All attempts at a region. -/
structure Tries (s : Runtime) (seg phys : Word) (r : Runtime × Bool) : Prop where
  moves : Moves s r.1
  idle : r.2 = false → r.1.mem = s.mem ∧ r.1.tab = s.tab
  done : r.2 = false → r.1.settings.loadsAllowed = true → r.1.Unselectable seg phys

theorem attempts_tries (d : Disk) (n : ℕ) (hc : Counted s.cache) (hn : (unfailed s.cache).card ≤ n + 1) :
    Tries s seg phys (attempts d seg phys n s) := by
  induction n generalizing s with
  | zero =>
    have h := tryOnce_attempts d seg phys hc
    unfold attempts
    generalize tryOnce d seg phys s = r at h
    refine ⟨h.moves, fun hno => h.idle (by simpa using hno), fun hno _ => ?_⟩
    cases hr : r.2 with
    | none => exact h.done hr
    | some b =>
      cases b with
      | true => simp [hr] at hno
      | false =>
        have hlt := Finset.card_lt_card (h.failed hr)
        have hnone : unfailed r.1.cache = ∅ := Finset.card_eq_zero.1 (by omega)
        exact unselectable_of_unfailed hnone
  | succ n ih =>
    have h := tryOnce_attempts d seg phys hc
    unfold attempts
    dsimp only
    generalize tryOnce d seg phys s = r at h
    split
    · next hr =>
      have hlt := Finset.card_lt_card (h.failed hr)
      have hrest := ih (s := r.1) (h.moves.counted hc) (by omega)
      obtain ⟨hmem, htab⟩ := h.idle (by simp [hr])
      refine ⟨h.moves.trans hrest.moves, fun hno => ?_, hrest.done⟩
      obtain ⟨hmem', htab'⟩ := hrest.idle hno
      exact ⟨hmem'.trans hmem, htab'.trans htab⟩
    · next hr =>
      refine ⟨h.moves, fun hno => h.idle (by simpa using hno), fun hno _ => ?_⟩
      cases hr' : r.2 with
      | none => exact h.done hr'
      | some b =>
        cases b with
        | true => simp [hr'] at hno
        | false => exact absurd hr' hr

theorem tryLoadRegion_tries (d : Disk) (seg phys : Word) (hc : Counted s.cache) :
    Tries s seg phys (tryLoadRegion d seg phys s) := by
  unfold tryLoadRegion
  split
  · next hno =>
    exact ⟨.refl, fun _ => ⟨rfl, rfl⟩, fun _ hyes => absurd hyes (by simpa using hno)⟩
  · refine attempts_tries d _ hc ?_
    have hcard : (unfailed s.cache).card ≤ s.cache.count :=
      (Finset.card_filter_le _ _).trans (Finset.card_range _).le
    omega

end Moves

end PsxRecomp.Overlays
