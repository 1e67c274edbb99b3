import PsxRecomp.Overlays.Selections

/-! What a load leaves alone, and that the attempts at a region end with a library loaded or with nothing left
to select. -/
namespace PsxRecomp.Overlays
set_option autoImplicit false

/-! ## Registrations -/

inductive Registers : Memory × Table → Memory × Table → Prop where
  | refl (x : Memory × Table) : Registers x x
  | register {x y : Memory × Table} (phys : Word) (man : ManFn) (dll : ℕ) (tier : Byte) (h : Registers x y) :
    Registers x (candRegister phys man dll tier y.1 y.2).1

theorem Registers.trans {x y z : Memory × Table} (h : Registers x y) (h' : Registers y z) : Registers x z := by
  induction h' with
  | refl => exact h
  | register phys man dll tier _ ih => exact ih.register phys man dll tier

theorem registerAll_registers (image : Image) (dll : ℕ) (tier : Byte) (fns : List ManFn) (x : Memory × Table) :
    Registers x (registerAll image dll tier fns x).1 := by
  induction fns generalizing x with
  | nil => exact .refl x
  | cons fn fns ih =>
    unfold registerAll
    split
    · exact ih x
    · exact ((Registers.refl x).register _ fn dll tier).trans (ih _)

theorem candRegister_false {phys : Word} {man : ManFn} {dll : ℕ} {tier : Byte} {m : Memory} {t : Table}
    (h : (candRegister phys man dll tier m t).2 = false) : (candRegister phys man dll tier m t).1 = (m, t) := by
  rcases candRegister_cases phys man dll tier m t with hno | ⟨-, c, -, -, hyes⟩
  · rw [hno]
  · rw [hyes] at h
    exact absurd h (by simp)

/-- Without a registration nothing moves. -/
theorem registerAll_zero {image : Image} {dll : ℕ} {tier : Byte} (fns : List ManFn) (x : Memory × Table)
    (h : (registerAll image dll tier fns x).2 = 0) : (registerAll image dll tier fns x).1 = x := by
  induction fns generalizing x with
  | nil => rfl
  | cons fn fns ih =>
    unfold registerAll at h ⊢
    split at h
    · next hskip =>
      rw [if_pos hskip]
      exact ih x h
    · next hskip =>
      rw [if_neg hskip]
      obtain ⟨hrest, hone⟩ := Nat.add_eq_zero_iff.1 h
      have hfalse : (candRegister (fn.entry &&& 0x1FFFFFFF) fn dll tier x.1 x.2).2 = false := by
        simpa using hone
      have hsame := candRegister_false hfalse
      dsimp only
      rw [ih _ hrest, hsame]

theorem Registers.memory {x y : Memory × Table} (h : Registers x y) :
    y.1.geometry = x.1.geometry ∧ y.1.pageGen = x.1.pageGen := by
  induction h with
  | refl => exact ⟨rfl, rfl⟩
  | register phys man dll tier _ ih =>
    rename_i y _
    rcases candRegister_cases phys man dll tier y.1 y.2 with hno | ⟨-, c, -, -, hyes⟩
    · rw [hno]
      exact ih
    · rw [hyes]
      obtain ⟨hg, -, hgen, -⟩ := watch_eq y.1 ((man.ranges.take maxCodeRanges).map stripSegment)
      exact ⟨hg.trans ih.1, hgen.trans ih.2⟩

/-! ## One library -/

section Fields

variable (s : Runtime)

@[simp] theorem invalidateLoader_settings : s.invalidateLoader.settings = s.settings := by
  unfold Runtime.invalidateLoader
  split <;> rfl

@[simp] theorem invalidateLoader_mem : s.invalidateLoader.mem = s.mem := by
  unfold Runtime.invalidateLoader
  split <;> rfl

@[simp] theorem invalidateLoader_tab : s.invalidateLoader.tab = s.tab := by
  unfold Runtime.invalidateLoader
  split <;> rfl

@[simp] theorem invalidateLoader_act : s.invalidateLoader.act = s.act := by
  unfold Runtime.invalidateLoader
  split <;> rfl

@[simp] theorem invalidateLoader_cache : s.invalidateLoader.cache = s.cache := by
  unfold Runtime.invalidateLoader
  split <;> rfl

@[simp] theorem invalidateLoader_loadedPaths : s.invalidateLoader.loadedPaths = s.loadedPaths := by
  unfold Runtime.invalidateLoader
  split <;> rfl

@[simp] theorem invalidateLoader_watchedCodeGen : s.invalidateLoader.watchedCodeGen = s.watchedCodeGen := by
  unfold Runtime.invalidateLoader
  split <;> rfl

@[simp] theorem invalidateLoader_codeGen : s.invalidateLoader.codeGen = s.codeGen := by
  unfold Runtime.invalidateLoader
  split <;> rfl

@[simp] theorem invalidateLoader_dirty : s.invalidateLoader.dirty = s.dirty := by
  unfold Runtime.invalidateLoader
  split <;> rfl

end Fields

/-- What no load and no look changes. -/
structure Kept (s s' : Runtime) : Prop where
  settings : s'.settings = s.settings
  geometry : s'.mem.geometry = s.mem.geometry
  pageGen : s'.mem.pageGen = s.mem.pageGen
  act : s'.act = s.act
  watchedCodeGen : s'.watchedCodeGen = s.watchedCodeGen
  codeGen : s'.codeGen = s.codeGen
  dirty : s'.dirty = s.dirty

theorem Kept.refl (s : Runtime) : Kept s s := ⟨rfl, rfl, rfl, rfl, rfl, rfl, rfl⟩

theorem Kept.trans {s s' s'' : Runtime} (h : Kept s s') (h' : Kept s' s'') : Kept s s'' where
  settings := h'.settings.trans h.settings
  geometry := h'.geometry.trans h.geometry
  pageGen := h'.pageGen.trans h.pageGen
  act := h'.act.trans h.act
  watchedCodeGen := h'.watchedCodeGen.trans h.watchedCodeGen
  codeGen := h'.codeGen.trans h.codeGen
  dirty := h'.dirty.trans h.dirty

/-- What the load of one library does. -/
structure Loads (s : Runtime) (r : Runtime × ℤ) : Prop where
  kept : Kept s r.1
  registers : Registers (s.mem, s.tab) (r.1.mem, r.1.tab)
  cache : s.cache.Later s.mem r.1.cache
  loadedPaths : s.loadedPaths ⊆ r.1.loadedPaths
  idle : r.2 ≤ 0 → r.1.mem = s.mem ∧ r.1.tab = s.tab
  stamped : r.2 = 0 ∧ r.1.loaderGen = s.loaderGen ∧ r.1.miss = s.miss ∨
    r.1.loaderGen = s.invalidateLoader.loaderGen ∧ r.1.miss = s.invalidateLoader.miss

theorem suppressForShortfall_later (ci needed : ℕ) (s : Runtime) :
    ∃ c, s.cache.Later s.mem c ∧ (suppressForShortfall ci needed s).1 = { s with cache := c } := by
  unfold suppressForShortfall
  dsimp only
  split
  · exact ⟨s.cache, .refl _ _, rfl⟩
  · split
    · exact ⟨s.cache, .refl _ _, rfl⟩
    · split
      · exact ⟨s.cache, .refl _ _, rfl⟩
      · have he : (s.cache.entry ci).Held { s.cache.entry ci with capacitySuppressed := true } :=
          ⟨rfl, id, fun _ => rfl⟩
        exact ⟨_, later_setEntry _ he, rfl⟩

theorem suppressed_later (ci : Option ℕ) (knownAlias : Bool) (needed : ℕ) (s : Runtime) :
    ∃ c, s.cache.Later s.mem c ∧ (suppressed ci knownAlias needed s).1 = { s with cache := c } := by
  unfold suppressed suppressAtCapacity
  dsimp only
  split
  · exact ⟨s.cache, .refl _ _, rfl⟩
  · split
    · exact ⟨s.cache, .refl _ _, rfl⟩
    · split
      · split
        · exact ⟨s.cache, .refl _ _, rfl⟩
        · split
          · exact ⟨s.cache, .refl _ _, rfl⟩
          · split
            · exact ⟨s.cache, .refl _ _, rfl⟩
            · exact suppressForShortfall_later _ _ s
      · exact suppressForShortfall_later _ _ s

/-- The pair is refused, known already, or its functions are registered. -/
inductive PairOutcome (s : Runtime) : Runtime × ℤ → Prop where
  | refused : PairOutcome s (s, 0)
  | known : PairOutcome s (s, loadPairAlias)
  | registered (x : Memory × Table) (pairs : List LoadedPair) (n : ℕ) (h : Registers (s.mem, s.tab) x)
    (hzero : n = 0 → x = (s.mem, s.tab)) : PairOutcome s ({ s with mem := x.1, tab := x.2, pairs := pairs }, (n : ℤ))

theorem loadOverlayDll_outcome (d : Disk) (path : Path) (man : Manifest) (prepared : Option Image) (tier : Byte)
    (s : Runtime) : PairOutcome s (loadOverlayDll d path man prepared tier s) := by
  unfold loadOverlayDll
  cases prepared.or (d.image path) with
  | none => exact .refused
  | some image =>
    dsimp only
    refine iteInduction (fun _ => .refused) fun _ => iteInduction (fun _ => .refused) fun _ => ?_
    refine iteInduction (fun _ => .refused) fun _ => iteInduction (fun _ => .refused) fun _ => ?_
    refine iteInduction (fun _ => .refused) fun _ => iteInduction (fun _ => .known) fun _ => ?_
    refine iteInduction (fun _ => .refused) fun _ => iteInduction (fun _ => .refused) fun _ => ?_
    exact .registered (registerAll image s.ndlls tier man.fns (s.mem, s.tab)).1 _ _
      (registerAll_registers image s.ndlls tier man.fns (s.mem, s.tab)) (registerAll_zero _ _)

theorem Loads.refused {s : Runtime} {c : Cache} (h : s.cache.Later s.mem c) : Loads s ({ s with cache := c }, 0) where
  kept := ⟨rfl, rfl, rfl, rfl, rfl, rfl, rfl⟩
  registers := .refl _
  cache := h
  loadedPaths := List.Subset.refl _
  idle _ := ⟨rfl, rfl⟩
  stamped := Or.inl ⟨rfl, rfl, rfl⟩

theorem invalidateLoader_congr {s s' : Runtime} (hg : s'.loaderGen = s.loaderGen) (hm : s'.miss = s.miss) :
    s'.invalidateLoader.loaderGen = s.invalidateLoader.loaderGen ∧ s'.invalidateLoader.miss = s.invalidateLoader.miss := by
  unfold Runtime.invalidateLoader
  rw [hg]
  split
  · exact ⟨rfl, rfl⟩
  · exact ⟨rfl, hm⟩

theorem loadOneDll_loads (d : Disk) (path : Path) (prepared : Option Image) (s : Runtime) :
    Loads s (loadOneDll d path prepared s) := by
  have hnone : Loads s (s, 0) := Loads.refused (.refl _ _)
  unfold loadOneDll
  dsimp only
  refine iteInduction (fun _ => hnone) fun _ => ?_
  cases d.manifest path with
  | none => exact hnone
  | some man =>
    dsimp only
    refine iteInduction (fun _ => hnone) fun _ => ?_
    generalize (List.range s.cache.count).find? (fun i => (s.cache.entry i).path = path) = ci
    generalize (man.pairId.isSome && loadedPairFind _ man s.pairs) = knownAlias
    obtain ⟨c, hc, hs⟩ := suppressed_later ci knownAlias man.fns.length s
    generalize suppressed ci knownAlias man.fns.length s = r at hs
    obtain ⟨s₁, full⟩ := r
    dsimp only at hs ⊢
    subst hs
    refine iteInduction (fun _ => Loads.refused hc) fun _ => ?_
    generalize hq : loadOverlayDll _ _ _ _ _ _ = q
    have hout : PairOutcome { s with cache := c } q := hq ▸ loadOverlayDll_outcome _ _ _ _ _ _
    clear hq
    cases hout with
    | refused => exact iteInduction (fun _ => Loads.refused hc) fun h => absurd rfl h
    | known =>
      refine iteInduction (fun h => absurd (show loadPairAlias = 0 from h) (by decide)) fun _ => ?_
      obtain ⟨hgen, hmiss⟩ := @invalidateLoader_congr s { s with cache := c } rfl rfl
      refine ⟨⟨?_, ?_, ?_, ?_, ?_, ?_, ?_⟩, ?_, ?_, ?_, fun _ => ⟨?_, ?_⟩, Or.inr ⟨hgen, hmiss⟩⟩ <;> simp
      · exact .refl _
      · exact hc
    | registered x pairs n hx hzero =>
      refine iteInduction (fun h => ?_) fun h => ?_
      · have hn : n = 0 := Int.natCast_eq_zero.1 (show (n : ℤ) = 0 from h)
        subst hn
        have hsame := hzero rfl
        subst hsame
        exact ⟨⟨rfl, rfl, rfl, rfl, rfl, rfl, rfl⟩, .refl _, hc, List.Subset.refl _, fun _ => ⟨rfl, rfl⟩,
          Or.inl ⟨rfl, rfl, rfl⟩⟩
      · obtain ⟨hgen, hmiss⟩ := @invalidateLoader_congr s
          { s with cache := c, mem := x.1, tab := x.2, pairs := pairs } rfl rfl
        obtain ⟨hg, hp⟩ := hx.memory
        refine ⟨⟨?_, ?_, ?_, ?_, ?_, ?_, ?_⟩, ?_, ?_, ?_, fun hle => ?_, Or.inr ⟨hgen, hmiss⟩⟩
        · simp
        · simpa using hg
        · simpa using hp
        · simp
        · simp
        · simp
        · simp
        · simpa using hx
        · simpa using hc
        · simp
        · have hle' : (n : ℤ) ≤ 0 := hle
          exact absurd (show (n : ℤ) = 0 by omega) h

/-! ## Attempts -/

/-- Every indexed function belongs to a file with functions. -/
def Counted (c : Cache) : Prop := ∀ li < c.manN, (c.entry (c.man li).cacheIdx).funcCount ≠ 0

theorem Counted.later {m : Memory} {c c' : Cache} (h : Counted c) (hl : c.Later m c') : Counted c' := by
  intro li hli
  rw [hl.cacheIdx, hl.funcCount]
  exact h li (hl.manN ▸ hli)

/-- The files that have not failed yet. -/
def unfailed (c : Cache) : Finset ℕ := (Finset.range c.count).filter fun ci => (c.entry ci).loadFailed = false

theorem unfailed_later {m : Memory} {c c' : Cache} (h : c.Later m c') : unfailed c' ⊆ unfailed c := by
  intro ci hci
  simp only [unfailed, Finset.mem_filter, Finset.mem_range] at hci ⊢
  refine ⟨h.count ▸ hci.1, Bool.eq_false_iff.2 fun hf => ?_⟩
  exact Bool.eq_false_iff.1 hci.2 ((h.entry ci).loadFailed hf)

theorem failed_not_unfailed {c : Cache} {ci : ℕ} (h : (c.entry ci).loadFailed = true) : ci ∉ unfailed c := by
  intro hmem
  exact absurd ((Finset.mem_filter.1 hmem).2) (by simp [h])

theorem unselectable_of_unfailed {m : Memory} {loaded : List Path} {regionStart seg phys : Word} {c : Cache}
    (h : unfailed c = ∅) : c.Unselectable m loaded regionStart seg phys := by
  have hclosed : ∀ li, ¬c.Open loaded li := by
    intro li ho
    have hmem : (c.man li).cacheIdx ∈ unfailed c := by
      simp only [unfailed, Finset.mem_filter, Finset.mem_range]
      exact ⟨ho.entry, ho.loadFailed⟩
    rw [h] at hmem
    exact absurd hmem (Finset.notMem_empty _)
  exact ⟨fun li _ _ => Or.inl (Or.inl (hclosed li)), fun _ li _ _ => Or.inl (hclosed li)⟩

/-- Nothing is left to select for a PC. -/
def Runtime.Unselectable (s : Runtime) (seg phys : Word) : Prop :=
  s.cache.Unselectable s.mem s.loadedPaths (regionStartOf s phys) seg phys

end PsxRecomp.Overlays
