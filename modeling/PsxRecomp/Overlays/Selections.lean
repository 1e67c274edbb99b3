import PsxRecomp.Overlays.Dispatch

/-! Selecting an artifact: what its looks at manifests leave, and when it selects nothing. -/
namespace PsxRecomp.Overlays
set_option autoImplicit false

/-! ## Known mismatches -/

/-- A manifested function that does not match while the generations stand. -/
def LazyMan.Rejects (m : Memory) (lm : LazyMan) : Prop :=
  manStructurallyValid lm.fn = false ∨ lm.state = .invalid ∧ lm.valGen = ovRangesGensum m lm.fn.ranges

section Man

variable {m : Memory} {lm : LazyMan}

theorem lazyManMatches_same (m : Memory) (lm : LazyMan) :
    (lazyManMatches m lm).1.cacheIdx = lm.cacheIdx ∧ (lazyManMatches m lm).1.fn = lm.fn := by
  unfold lazyManMatches
  dsimp only
  split_ifs <;> exact ⟨rfl, rfl⟩

theorem lazyManMatches_false (h : (lazyManMatches m lm).2 = false) : (lazyManMatches m lm).1.Rejects m := by
  unfold lazyManMatches at h ⊢
  unfold LazyMan.Rejects
  dsimp only at h ⊢
  split at h
  · next hvalid =>
    rw [if_pos hvalid]
    exact Or.inl (by simpa using hvalid)
  · next hvalid =>
    rw [if_neg hvalid]
    split at h
    · exact absurd h Bool.noConfusion
    · next hknown =>
      rw [if_neg hknown]
      split at h
      · next hmiss =>
        rw [if_pos hmiss]
        exact Or.inr hmiss
      · next hmiss =>
        rw [if_neg hmiss]
        exact Or.inr ⟨by simpa using h, rfl⟩

theorem LazyMan.Rejects.matches (h : lm.Rejects m) :
    (lazyManMatches m lm).2 = false ∧ (lazyManMatches m lm).1.Rejects m := by
  have hfalse : (lazyManMatches m lm).2 = false := by
    unfold lazyManMatches
    dsimp only
    split
    · rfl
    · next hvalid =>
      have hmiss := h.resolve_left (by simpa using hvalid)
      rw [if_neg fun hknown => by simp [hmiss.1] at hknown, if_pos hmiss]
  exact ⟨hfalse, lazyManMatches_false hfalse⟩

end Man

/-! ## Looks -/

/-- Looks at manifests: nothing but their verdicts moves, and none that rejects is revived. -/
structure Cache.Looked (m : Memory) (c c' : Cache) : Prop where
  entry : c'.entry = c.entry
  count : c'.count = c.count
  manN : c'.manN = c.manN
  entryHead : c'.entryHead = c.entryHead
  bundleHead : c'.bundleHead = c.bundleHead
  range : c'.range = c.range
  cacheIdx : ∀ li, (c'.man li).cacheIdx = (c.man li).cacheIdx
  fn : ∀ li, (c'.man li).fn = (c.man li).fn
  rejects : ∀ li, (c.man li).Rejects m → (c'.man li).Rejects m

section Looked

variable {m : Memory} {c c' c'' : Cache}

theorem Cache.Looked.refl (m : Memory) (c : Cache) : c.Looked m c :=
  ⟨rfl, rfl, rfl, rfl, rfl, rfl, fun _ => rfl, fun _ => rfl, fun _ h => h⟩

theorem Cache.Looked.trans (h : c.Looked m c') (h' : c'.Looked m c'') : c.Looked m c'' where
  entry := h'.entry.trans h.entry
  count := h'.count.trans h.count
  manN := h'.manN.trans h.manN
  entryHead := h'.entryHead.trans h.entryHead
  bundleHead := h'.bundleHead.trans h.bundleHead
  range := h'.range.trans h.range
  cacheIdx li := (h'.cacheIdx li).trans (h.cacheIdx li)
  fn li := (h'.fn li).trans (h.fn li)
  rejects li hr := h'.rejects li (h.rejects li hr)

theorem looked_matchMan (m : Memory) (li : ℕ) (c : Cache) : c.Looked m (c.matchMan m li).1 := by
  obtain ⟨hidx, hfn⟩ := lazyManMatches_same m (c.man li)
  refine ⟨rfl, rfl, rfl, rfl, rfl, rfl, fun k => ?_, fun k => ?_, fun k hr => ?_⟩ <;>
    by_cases hk : k = li
  · subst hk
    simpa [Cache.matchMan, Cache.setMan] using hidx
  · simp [Cache.matchMan, Cache.setMan, hk]
  · subst hk
    simpa [Cache.matchMan, Cache.setMan] using hfn
  · simp [Cache.matchMan, Cache.setMan, hk]
  · subst hk
    simpa [Cache.matchMan, Cache.setMan] using hr.matches.2
  · simpa [Cache.matchMan, Cache.setMan, hk] using hr

theorem matchMan_false {li : ℕ} (h : (c.matchMan m li).2 = false) : ((c.matchMan m li).1.man li).Rejects m := by
  simpa [Cache.matchMan, Cache.setMan] using lazyManMatches_false h

/-- An entry that keeps all but its flags, which are only ever set. -/
structure CacheEntry.Held (e e' : CacheEntry) : Prop where
  same : e' = { e with loadFailed := e'.loadFailed, capacitySuppressed := e'.capacitySuppressed }
  loadFailed : e.loadFailed = true → e'.loadFailed = true
  capacitySuppressed : e.capacitySuppressed = true → e'.capacitySuppressed = true

/-- Looks, and flags set. -/
structure Cache.Later (m : Memory) (c c' : Cache) : Prop where
  entry : ∀ ci, (c.entry ci).Held (c'.entry ci)
  count : c'.count = c.count
  manN : c'.manN = c.manN
  entryHead : c'.entryHead = c.entryHead
  bundleHead : c'.bundleHead = c.bundleHead
  range : c'.range = c.range
  cacheIdx : ∀ li, (c'.man li).cacheIdx = (c.man li).cacheIdx
  fn : ∀ li, (c'.man li).fn = (c.man li).fn
  rejects : ∀ li, (c.man li).Rejects m → (c'.man li).Rejects m

theorem CacheEntry.Held.refl (e : CacheEntry) : e.Held e := ⟨rfl, id, id⟩

theorem Cache.Looked.later (h : c.Looked m c') : c.Later m c' where
  entry _ := h.entry ▸ .refl _
  count := h.count
  manN := h.manN
  entryHead := h.entryHead
  bundleHead := h.bundleHead
  range := h.range
  cacheIdx := h.cacheIdx
  fn := h.fn
  rejects := h.rejects

theorem Cache.Later.refl (m : Memory) (c : Cache) : c.Later m c := (Cache.Looked.refl m c).later

/-- An entry whose flags are set. -/
theorem later_setEntry (m : Memory) {ci : ℕ} {e : CacheEntry} (he : (c.entry ci).Held e) : c.Later m (c.setEntry ci e) := by
  refine ⟨fun i => ?_, rfl, rfl, rfl, rfl, rfl, fun _ => rfl, fun _ => rfl, fun _ h => h⟩
  by_cases hi : i = ci
  · subst hi
    simpa [Cache.setEntry] using he
  · simpa [Cache.setEntry, hi] using CacheEntry.Held.refl (c.entry i)

theorem Cache.Later.regionStart (h : c.Later m c') (ci : ℕ) : (c'.entry ci).regionStart = (c.entry ci).regionStart := by
  rw [(h.entry ci).same]

theorem Cache.Later.funcCount (h : c.Later m c') (ci : ℕ) : (c'.entry ci).funcCount = (c.entry ci).funcCount := by
  rw [(h.entry ci).same]

theorem Cache.Later.indexedFuncCount (h : c.Later m c') (ci : ℕ) :
    (c'.entry ci).indexedFuncCount = (c.entry ci).indexedFuncCount := by
  rw [(h.entry ci).same]

theorem Cache.Later.path (h : c.Later m c') (ci : ℕ) : (c'.entry ci).path = (c.entry ci).path := by
  rw [(h.entry ci).same]

/-! ## Bundles -/

/-- A library with a function that does not match, or with functions that are not indexed. -/
structure Cache.BundleRejects (m : Memory) (c : Cache) (ci : ℕ) : Prop where
  rejects : (c.entry ci).funcCount = 0 ∨ (c.entry ci).indexedFuncCount ≠ (c.entry ci).funcCount ∨
    ci ≥ c.count ∨ ci ≥ cacheIdxCap ∨ (c.bundleHead ci).length ≠ (c.entry ci).funcCount ∨
    ∃ li ∈ c.bundleHead ci, (c.man li).Rejects m

theorem matchBundle_spec (lis : List ℕ) (seen : ℕ) (c : Cache) :
    c.Looked m (matchBundle m lis seen c).1 ∧
      ((matchBundle m lis seen c).2 = none ∧ (∃ li ∈ lis, ((matchBundle m lis seen c).1.man li).Rejects m) ∨
        (matchBundle m lis seen c).2 = some (seen + lis.length) ∧ ∀ li ∈ lis, ¬(c.man li).Rejects m) := by
  induction lis generalizing seen c with
  | nil => exact ⟨.refl m c, Or.inr ⟨rfl, fun li hli => absurd hli List.not_mem_nil⟩⟩
  | cons li lis ih =>
    unfold matchBundle
    dsimp only
    have hlook := looked_matchMan m li c
    cases hr : (c.matchMan m li).2 with
    | false =>
      refine ⟨hlook, Or.inl ⟨rfl, li, List.mem_cons_self .., matchMan_false hr⟩⟩
    | true =>
      obtain ⟨hrest, hcases⟩ := ih (seen + 1) (c.matchMan m li).1
      refine ⟨hlook.trans hrest, ?_⟩
      have hfirst : ¬(c.man li).Rejects m := by
        intro hrej
        have hfalse := hrej.matches.1
        rw [Cache.matchMan] at hr
        rw [hr] at hfalse
        exact absurd hfalse (by decide)
      rcases hcases with ⟨hnone, lj, hlj, hrej⟩ | ⟨hsome, hall⟩
      · exact Or.inl ⟨hnone, lj, List.mem_cons_of_mem _ hlj, hrej⟩
      · refine Or.inr ⟨?_, fun lj hlj hrej => ?_⟩
        · simpa [Nat.add_assoc, Nat.add_comm 1] using hsome
        · rcases List.mem_cons.1 hlj with rfl | hlj
          · exact hfirst hrej
          · exact hall lj hlj (hlook.rejects lj hrej)

theorem Cache.BundleRejects.later {ci : ℕ} (hb : c.BundleRejects m ci) (h : c.Later m c') :
    c'.BundleRejects m ci := by
  obtain ⟨hb⟩ := hb
  constructor
  rw [h.funcCount, h.indexedFuncCount, h.count, h.bundleHead]
  refine hb.imp_right (.imp_right (.imp_right (.imp_right (.imp_right ?_))))
  rintro ⟨li, hli, hrej⟩
  exact ⟨li, hli, h.rejects li hrej⟩

theorem bundle_spec (m : Memory) (ci : ℕ) (c : Cache) :
    c.Looked m (lazyBundleMatches m ci c).1 ∧
      ((lazyBundleMatches m ci c).2 = false → (lazyBundleMatches m ci c).1.BundleRejects m ci) ∧
      (c.BundleRejects m ci → (lazyBundleMatches m ci c).2 = false) := by
  unfold lazyBundleMatches
  dsimp only
  split_ifs with hout hcounts
  · exact ⟨.refl m c, fun _ => ⟨by tauto⟩, fun _ => rfl⟩
  · exact ⟨.refl m c, fun _ => ⟨by tauto⟩, fun _ => rfl⟩
  · obtain ⟨hlook, hcases⟩ := matchBundle_spec (m := m) (c.bundleHead ci) 0 c
    refine ⟨hlook, fun hfalse => ⟨?_⟩, fun ⟨hrej⟩ => ?_⟩
    · rw [hlook.entry, hlook.count, hlook.bundleHead]
      rcases hcases with ⟨-, hex⟩ | ⟨hsome, -⟩
      · tauto
      · rw [hsome] at hfalse
        have hlen : (c.bundleHead ci).length ≠ (c.entry ci).funcCount := by simpa using hfalse
        tauto
    · rcases hcases with ⟨hnone, -⟩ | ⟨hsome, hall⟩
      · simp [hnone]
      · rw [hsome]
        have hlen : (c.bundleHead ci).length ≠ (c.entry ci).funcCount := by
          push Not at hout hcounts
          rcases hrej with h | h | h | h | h | ⟨li, hli, h⟩
          · exact absurd h hcounts.1
          · exact absurd hcounts.2 h
          · omega
          · omega
          · exact h
          · exact absurd h (hall li hli)
        simpa using hlen

end Looked

/-! ## Loadable functions -/

/-- A function whose library may still be loaded. -/
structure Cache.Open (loaded : List Path) (c : Cache) (li : ℕ) : Prop where
  man : li < c.manN
  entry : (c.man li).cacheIdx < c.count
  loadFailed : (c.entry (c.man li).cacheIdx).loadFailed = false
  capacitySuppressed : (c.entry (c.man li).cacheIdx).capacitySuppressed = false
  path : (c.entry (c.man li).cacheIdx).path ∉ loaded

/-- A function that is not loadable for the PC, with or without regard to the region. -/
def Cache.Barred (m : Memory) (loaded : List Path) (regionStart seg phys : Word) (own : Bool) (c : Cache) (li : ℕ) :
    Prop :=
  ¬c.Open loaded li ∨ own = true ∧ (c.entry (c.man li).cacheIdx).regionStart ≠ regionStart ∨
    lazyManContains (c.man li).fn seg phys = false ∨ (c.man li).Rejects m

section Loadable

variable {m : Memory} {loaded loaded' : List Path} {regionStart seg phys : Word} {c c' : Cache} {li : ℕ}

theorem Cache.Looked.open_iff (h : c.Looked m c') : c'.Open loaded li ↔ c.Open loaded li := by
  constructor
  · rintro ⟨h1, h2, h3, h4, h5⟩
    rw [h.cacheIdx] at h2 h3 h4 h5
    rw [h.entry] at h3 h4 h5
    exact ⟨h.manN ▸ h1, h.count ▸ h2, h3, h4, h5⟩
  · rintro ⟨h1, h2, h3, h4, h5⟩
    rw [← h.cacheIdx] at h2 h3 h4 h5
    rw [← h.entry] at h3 h4 h5
    exact ⟨h.manN.symm ▸ h1, h.count.symm ▸ h2, h3, h4, h5⟩

/-- A library that may still be loaded after a while might have been before. -/
theorem Cache.Later.open_of (h : c.Later m c') (hsub : loaded ⊆ loaded') (ho : c'.Open loaded' li) :
    c.Open loaded li := by
  obtain ⟨h1, h2, h3, h4, h5⟩ := ho
  rw [h.cacheIdx] at h2 h3 h4 h5
  rw [h.path] at h5
  refine ⟨h.manN ▸ h1, h.count ▸ h2, ?_, ?_, fun hin => h5 (hsub hin)⟩
  · exact Bool.eq_false_iff.2 fun hf => Bool.eq_false_iff.1 h3 ((h.entry _).loadFailed hf)
  · exact Bool.eq_false_iff.2 fun hf => Bool.eq_false_iff.1 h4 ((h.entry _).capacitySuppressed hf)

theorem Cache.Barred.later {own : Bool} (hb : c.Barred m loaded regionStart seg phys own li) (h : c.Later m c')
    (hsub : loaded ⊆ loaded') : c'.Barred m loaded' regionStart seg phys own li := by
  unfold Cache.Barred at hb ⊢
  rw [h.cacheIdx, h.regionStart, h.fn]
  exact hb.imp (fun hno ho => hno (h.open_of hsub ho)) (.imp_right (.imp_right (h.rejects li)))

theorem loadable_spec (m : Memory) (loaded : List Path) (regionStart seg phys : Word) (own : Bool) (li : ℕ)
    (c : Cache) :
    c.Looked m (lazyIsLoadable m loaded regionStart seg phys own li c).1 ∧
      ((lazyIsLoadable m loaded regionStart seg phys own li c).2 = false →
        (lazyIsLoadable m loaded regionStart seg phys own li c).1.Barred m loaded regionStart seg phys own li) ∧
      ((lazyIsLoadable m loaded regionStart seg phys own li c).2 = true →
        c.Open loaded li ∧ ¬c.Barred m loaded regionStart seg phys own li) := by
  unfold lazyIsLoadable
  dsimp only
  split
  · next hout =>
    refine ⟨.refl m c, fun _ => Or.inl fun ho => ?_, fun h => absurd h Bool.noConfusion⟩
    have h1 : li < c.manN := ho.man
    have h2 : (c.man li).cacheIdx < c.count := ho.entry
    omega
  · next hin =>
    push Not at hin
    split
    · next hflags =>
      simp only [Bool.and_eq_true, Bool.or_eq_true, Bool.not_eq_true', decide_eq_true_eq] at hflags
      obtain ⟨⟨⟨⟨hregion, hfailed⟩, hsuppressed⟩, hpath⟩, hcontains⟩ := hflags
      refine ⟨looked_matchMan m li c, fun hfalse => ?_, fun htrue => ?_⟩
      · exact Or.inr (Or.inr (Or.inr (matchMan_false hfalse)))
      · have hopen : c.Open loaded li := ⟨hin.1, hin.2, hfailed, hsuppressed, hpath⟩
        refine ⟨hopen, ?_⟩
        rintro (hno | ⟨hown, hregion'⟩ | hno | hrej)
        · exact hno hopen
        · exact hregion' (hregion.resolve_left (by simp [hown]))
        · rw [hno] at hcontains
          exact absurd hcontains (by decide)
        · have hfalse := hrej.matches.1
          rw [Cache.matchMan, hfalse] at htrue
          exact absurd htrue (by decide)
    · next hflags =>
      refine ⟨.refl m c, fun _ => ?_, fun h => absurd h Bool.noConfusion⟩
      unfold Cache.Barred
      by_contra hno
      push Not at hno
      obtain ⟨⟨-, -, hfailed, hsuppressed, hpath⟩, hregion, hcontains, -⟩ := hno
      refine hflags ?_
      simp only [Bool.and_eq_true, Bool.or_eq_true, Bool.not_eq_true', decide_eq_true_eq]
      refine ⟨⟨⟨⟨?_, hfailed⟩, hsuppressed⟩, hpath⟩, by simpa using hcontains⟩
      cases own with
      | false => exact Or.inl rfl
      | true => exact Or.inr (hregion rfl)

/-! ## Weighing -/

/-- The choices are functions whose library may be loaded. -/
def Opened (loaded : List Path) (x : Cache × Choice) : Prop :=
  ∀ li, x.2.best = some li ∨ x.2.fallback = some li → x.1.Open loaded li

/-- One turn over the functions: a choice is made unless the function is out for the given reason. -/
structure Weighs (m : Memory) (loaded : List Path) (P : Cache → ℕ → Prop) (x x' : Cache × Choice) (li : ℕ) : Prop where
  looked : x.1.Looked m x'.1
  barred : x'.2 = ⟨none, none⟩ → x.2 = ⟨none, none⟩ ∧ P x'.1 li
  keeps : x.2 = ⟨none, none⟩ → P x.1 li → x'.2 = ⟨none, none⟩
  opened : Opened loaded x → Opened loaded x'

theorem weigh_spec (own : Bool) (hopen : c.Open loaded li) (ch : Choice) :
    Weighs m loaded (fun c li => own = false ∧ c.BundleRejects m (c.man li).cacheIdx) (c, ch)
      (weigh m li own (c, ch)) li := by
  obtain ⟨hlook, hno, hyes⟩ := bundle_spec m (c.man li).cacheIdx c
  unfold weigh
  dsimp only
  generalize lazyBundleMatches m (c.man li).cacheIdx c = r at hlook hno hyes
  refine ⟨hlook, fun hnone => ?_, fun hnone hout => ?_, fun ho => ?_⟩
  · obtain ⟨best, fallback⟩ := ch
    simp only [Choice.mk.injEq] at hnone ⊢
    obtain ⟨hbest, hfallback⟩ := hnone
    have hf : fallback = none := by
      by_contra hne
      split at hfallback <;> simp_all
    have hb : best = none := by
      by_contra hne
      split at hbest <;> simp_all
    subst hf hb
    rw [hlook.cacheIdx]
    refine ⟨⟨rfl, rfl⟩, ?_, hno ?_⟩
    · simpa [lazyCandidatePreferred] using hfallback
    · simpa [lazyCandidatePreferred] using hbest
  · subst hnone
    simp [hout.1, hyes hout.2]
  · intro lj hlj
    rw [hlook.open_iff]
    rcases hlj with hbest | hfallback
    · dsimp only at hbest
      split at hbest
      · exact Option.some.inj hbest ▸ hopen
      · exact ho lj (Or.inl hbest)
    · dsimp only at hfallback
      split at hfallback
      · exact Option.some.inj hfallback ▸ hopen
      · exact ho lj (Or.inr hfallback)

/-- Out for the entry chain: not loadable, or of another region with a library that does not match. -/
def Cache.ExactBarred (m : Memory) (loaded : List Path) (regionStart seg phys : Word) (c : Cache) (li : ℕ) : Prop :=
  (c.man li).fn.entry &&& 0x1FFFFFFF = phys → c.Barred m loaded regionStart seg phys false li ∨
    (c.entry (c.man li).cacheIdx).regionStart ≠ regionStart ∧ c.BundleRejects m (c.man li).cacheIdx

/-- Out for the links of a page. -/
def Cache.RangeBarred (m : Memory) (loaded : List Path) (regionStart seg phys : Word) (c : Cache) (li : ℕ) : Prop :=
  (c.man li).fn.entry &&& 0x1FFFFFFF ≠ phys → c.Barred m loaded regionStart seg phys true li

theorem Cache.ExactBarred.later (hb : c.ExactBarred m loaded regionStart seg phys li) (h : c.Later m c')
    (hsub : loaded ⊆ loaded') : c'.ExactBarred m loaded' regionStart seg phys li := by
  unfold Cache.ExactBarred at hb ⊢
  rw [h.fn, h.cacheIdx, h.regionStart]
  exact fun he => (hb he).imp (·.later h hsub) (.imp_right (·.later h))

theorem Cache.RangeBarred.later (hb : c.RangeBarred m loaded regionStart seg phys li) (h : c.Later m c')
    (hsub : loaded ⊆ loaded') : c'.RangeBarred m loaded' regionStart seg phys li := by
  unfold Cache.RangeBarred at hb ⊢
  rw [h.fn]
  exact fun he => (hb he).later h hsub

theorem weighExact_spec (x : Cache × Choice) (li : ℕ) :
    Weighs m loaded (Cache.ExactBarred m loaded regionStart seg phys) x
      (weighExact m loaded regionStart seg phys x li) li := by
  obtain ⟨c, ch⟩ := x
  obtain ⟨hlook, hno, hyes⟩ := loadable_spec m loaded regionStart seg phys false li c
  unfold weighExact
  dsimp only
  split
  · next hentry => exact ⟨.refl m c, fun h => ⟨h, fun he => absurd he hentry⟩, fun h _ => h, id⟩
  · next hentry =>
    generalize lazyIsLoadable m loaded regionStart seg phys false li c = r at hlook hno hyes
    have hentry' : (c.man li).fn.entry &&& 0x1FFFFFFF = phys := not_not.1 hentry
    split
    · next htrue =>
      obtain ⟨hopen, hfree⟩ := hyes htrue
      have h := weigh_spec (m := m) ((r.1.entry (r.1.man li).cacheIdx).regionStart = regionStart)
        (hlook.open_iff.2 hopen) ch
      refine ⟨hlook.trans h.looked, fun hnone => ?_, fun hnone hout => ?_, fun ho => h.opened fun lj hlj => ?_⟩
      · obtain ⟨hch, hregion, hbundle⟩ := h.barred hnone
        refine ⟨hch, fun _ => Or.inr ⟨?_, hbundle⟩⟩
        rw [h.looked.cacheIdx, h.looked.entry]
        simpa using hregion
      · obtain ⟨hregion, hbundle⟩ := (hout hentry').resolve_left hfree
        refine h.keeps hnone ⟨?_, ?_⟩
        · rw [hlook.cacheIdx, hlook.entry]
          simpa using hregion
        · rw [hlook.cacheIdx]
          exact hbundle.later hlook.later
      · exact hlook.open_iff.2 (ho lj hlj)
    · next hfalse =>
      refine ⟨hlook, fun hnone => ⟨hnone, fun _ => Or.inl (hno (by simpa using hfalse))⟩, fun hnone _ => hnone, ?_⟩
      exact fun ho lj hlj => hlook.open_iff.2 (ho lj hlj)

theorem weighRange_spec (x : Cache × Choice) (li : ℕ) :
    Weighs m loaded (Cache.RangeBarred m loaded regionStart seg phys) x
      (weighRange m loaded regionStart seg phys x li) li := by
  obtain ⟨c, ch⟩ := x
  obtain ⟨hlook, hno, hyes⟩ := loadable_spec m loaded regionStart seg phys true li c
  unfold weighRange
  dsimp only
  split
  · next hentry => exact ⟨.refl m c, fun h => ⟨h, fun he => absurd hentry he⟩, fun h _ => h, id⟩
  · next hentry =>
    generalize lazyIsLoadable m loaded regionStart seg phys true li c = r at hlook hno hyes
    split
    · next htrue =>
      obtain ⟨hopen, hfree⟩ := hyes htrue
      have h := weigh_spec (m := m) true (hlook.open_iff.2 hopen) ch
      refine ⟨hlook.trans h.looked, fun hnone => ?_, fun _ hout => absurd (hout hentry) hfree,
        fun ho => h.opened fun lj hlj => hlook.open_iff.2 (ho lj hlj)⟩
      exact absurd (h.barred hnone).2.1 (by decide)
    · next hfalse =>
      refine ⟨hlook, fun hnone => ⟨hnone, fun _ => hno (by simpa using hfalse)⟩, fun hnone _ => hnone, ?_⟩
      exact fun ho lj hlj => hlook.open_iff.2 (ho lj hlj)

/-! ## The selection -/

/-- All turns over a list of functions. -/
structure WeighsAll (m : Memory) (loaded : List Path) (P : Cache → ℕ → Prop) (l : List ℕ) (x x' : Cache × Choice) :
    Prop where
  looked : x.1.Looked m x'.1
  barred : x'.2 = ⟨none, none⟩ → x.2 = ⟨none, none⟩ ∧ ∀ li ∈ l, P x'.1 li
  keeps : x.2 = ⟨none, none⟩ → (∀ li ∈ l, P x.1 li) → x'.2 = ⟨none, none⟩
  opened : Opened loaded x → Opened loaded x'

theorem foldl_weighs {P : Cache → ℕ → Prop} (hP : ∀ c c' li, P c li → c.Looked m c' → P c' li)
    {f : Cache × Choice → ℕ → Cache × Choice} (hf : ∀ x li, Weighs m loaded P x (f x li) li) (l : List ℕ)
    (x : Cache × Choice) : WeighsAll m loaded P l x (l.foldl f x) := by
  induction l generalizing x with
  | nil => exact ⟨.refl m x.1, fun h => ⟨h, fun li hli => absurd hli List.not_mem_nil⟩, fun h _ => h, id⟩
  | cons li lis ih =>
    have h := hf x li
    have hrest := ih (f x li)
    refine ⟨h.looked.trans hrest.looked, fun hnone => ?_, fun hnone hall => ?_, fun ho => hrest.opened (h.opened ho)⟩
    · obtain ⟨hnone', hall⟩ := hrest.barred hnone
      obtain ⟨hnone'', hli⟩ := h.barred hnone'
      refine ⟨hnone'', fun lj hlj => ?_⟩
      rcases List.mem_cons.1 hlj with rfl | hlj
      · exact hP _ _ _ hli hrest.looked
      · exact hall lj hlj
    · refine hrest.keeps (h.keeps hnone (hall li (List.mem_cons_self ..))) fun lj hlj => ?_
      exact hP _ _ _ (hall lj (List.mem_cons_of_mem _ hlj)) h.looked

/-- No function of the index is selected for the PC. -/
structure Cache.Unselectable (m : Memory) (loaded : List Path) (regionStart seg phys : Word) (c : Cache) : Prop where
  entries : ∀ li ∈ c.entryHead (lazyBucket phys), c.ExactBarred m loaded regionStart seg phys li
  ranges : pageOf phys < rangePageCount →
    ∀ li ∈ c.range.pages (pageOf phys), c.RangeBarred m loaded regionStart seg phys li

theorem choose_none {best fallback : Option ℕ} :
    lazyChooseCompleteOrFallback c best fallback = none ↔ best = none ∧ fallback = none := by
  cases best with
  | none => simp [lazyChooseCompleteOrFallback]
  | some i =>
    cases fallback with
    | none => simp [lazyChooseCompleteOrFallback]
    | some j =>
      unfold lazyChooseCompleteOrFallback
      dsimp only
      split_ifs <;> simp

theorem choose_some {best fallback : Option ℕ} (h : lazyChooseCompleteOrFallback c best fallback = some li) :
    best = some li ∨ fallback = some li := by
  cases best with
  | none => exact Or.inr h
  | some i =>
    cases fallback with
    | none => exact Or.inl h
    | some j =>
      unfold lazyChooseCompleteOrFallback at h
      dsimp only at h
      split_ifs at h
      · exact Or.inl h
      · exact Or.inr h
      · exact Or.inl h

/-- What one selection does: looks at manifests, and nothing selected exactly where nothing can be. -/
structure Selects (m : Memory) (loaded : List Path) (regionStart seg phys : Word) (c : Cache)
    (r : Cache × Option ℕ) : Prop where
  looked : c.Looked m r.1
  unselectable : r.2 = none → r.1.Unselectable m loaded regionStart seg phys
  none : c.Unselectable m loaded regionStart seg phys → r.2 = none
  opened : ∀ li, r.2 = some li → r.1.Open loaded li

theorem select_spec (m : Memory) (loaded : List Path) (regionStart seg phys : Word) (c : Cache) :
    Selects m loaded regionStart seg phys c (selectArtifact m loaded regionStart seg phys c) := by
  have hstart : Opened loaded (c, (⟨none, none⟩ : Choice)) := by
    rintro li (h | h) <;> exact absurd h (by simp)
  have hexact := foldl_weighs (fun _ _ _ h hl => h.later hl.later (List.Subset.refl _))
    (@weighExact_spec m loaded regionStart seg phys)
    (c.entryHead (lazyBucket phys)) (c, ⟨none, none⟩)
  unfold selectArtifact weighAll
  dsimp only
  generalize (c.entryHead (lazyBucket phys)).foldl (weighExact m loaded regionStart seg phys) (c, ⟨none, none⟩) = x
    at hexact ⊢
  have hrange := foldl_weighs (fun _ _ _ h hl => h.later hl.later (List.Subset.refl _))
    (@weighRange_spec m loaded regionStart seg phys)
    (x.1.range.pages (pageOf phys)) x
  have hlook := hexact.looked
  split
  · next hpage =>
    generalize (x.1.range.pages (pageOf phys)).foldl (weighRange m loaded regionStart seg phys) x = y at hrange ⊢
    refine ⟨hlook.trans hrange.looked, fun hnone => ?_, fun hun => ?_, fun li hli => ?_⟩
    · obtain ⟨hbest, hfallback⟩ := choose_none.1 hnone
      have hy : y.2 = ⟨none, none⟩ := by
        cases hc : y.2
        simp_all
      obtain ⟨hx, hpages⟩ := hrange.barred hy
      obtain ⟨-, hentries⟩ := hexact.barred hx
      refine ⟨fun li hli => ?_, fun _ li hli => hpages li ?_⟩
      · rw [hrange.looked.entryHead, hlook.entryHead] at hli
        exact (hentries li hli).later hrange.looked.later (List.Subset.refl _)
      · rwa [hrange.looked.range] at hli
    · have hx := hexact.keeps rfl hun.entries
      have hy := hrange.keeps hx fun li hli => by
        rw [hlook.range] at hli
        exact (hun.ranges hpage.2 li hli).later hlook.later (List.Subset.refl _)
      rw [hy]
      rfl
    · exact hrange.opened (hexact.opened hstart) li (choose_some hli)
  · next hpage =>
    refine ⟨hlook, fun hnone => ?_, fun hun => ?_, fun li hli => hexact.opened hstart li (choose_some hli)⟩
    · obtain ⟨hbest, hfallback⟩ := choose_none.1 hnone
      have hx : x.2 = ⟨none, none⟩ := by
        cases hc : x.2
        simp_all
      refine ⟨fun li hli => ?_, fun hin => absurd ⟨hfallback, hin⟩ hpage⟩
      rw [hlook.entryHead] at hli
      exact (hexact.barred hx).2 li hli
    · rw [hexact.keeps rfl hun.entries]
      rfl

end Loadable

end PsxRecomp.Overlays
