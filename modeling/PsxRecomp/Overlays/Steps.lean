import PsxRecomp.Overlays.Passes

/-! Whole dispatches, scans, and what every event keeps of the tables. -/
namespace PsxRecomp.Overlays
set_option autoImplicit false

/-! ## Scans -/

theorem linkRanges_geometry (li : ℕ) (rs : List CodeRange) (seen : List ℕ) (x : Memory × RangeIndex) :
    (linkRanges li rs seen x).1.geometry = x.1.geometry := by
  induction rs generalizing seen x with
  | nil => rfl
  | cons r rs ih =>
    obtain ⟨m, ix⟩ := x
    unfold linkRanges
    dsimp only
    split
    · exact (watch_eq m [r]).1
    · exact (ih _ _).trans (watch_eq m [r]).1

/-- The functions indexed so far belong to the first files, all with functions. -/
structure Indexes (n : ℕ) (g : Geometry) (x : Memory × Cache) : Prop where
  geometry : x.1.geometry = g
  counted : Counted x.2
  below : ∀ li < x.2.manN, (x.2.man li).cacheIdx < n

theorem indexFn_indexes {ci : ℕ} {g : Geometry} {x : Memory × Cache} (h : Indexes (ci + 1) g x)
    (hci : (x.2.entry ci).funcCount ≠ 0) (fn : ManFn) :
    Indexes (ci + 1) g (indexFn ci x fn) ∧ ((indexFn ci x fn).2.entry ci).funcCount ≠ 0 := by
  obtain ⟨m, c⟩ := x
  unfold indexFn
  dsimp only
  split
  · exact ⟨h, hci⟩
  · split
    · exact ⟨⟨h.geometry, h.counted, h.below⟩, hci⟩
    · refine ⟨⟨(linkRanges_geometry _ _ _ _).trans h.geometry, fun li hli => ?_, fun li hli => ?_⟩, ?_⟩
      · dsimp only at hli ⊢
        by_cases hnew : li = c.manN
        · subst hnew
          simpa [Function.update_self] using hci
        · rw [Function.update_of_ne hnew]
          have hold := h.counted li (show li < c.manN by omega)
          by_cases hidx : (c.man li).cacheIdx = ci
          · rw [hidx, Function.update_self]
            exact hci
          · rw [Function.update_of_ne hidx]
            exact hold
      · dsimp only at hli ⊢
        by_cases hnew : li = c.manN
        · subst hnew
          simp [Function.update_self]
        · rw [Function.update_of_ne hnew]
          exact h.below li (show li < c.manN by omega)
      · simpa [Function.update_self] using hci

theorem foldl_indexFn {ci : ℕ} {g : Geometry} (fns : List ManFn) {x : Memory × Cache} (h : Indexes (ci + 1) g x)
    (hci : (x.2.entry ci).funcCount ≠ 0) : Indexes (ci + 1) g (fns.foldl (indexFn ci) x) := by
  induction fns generalizing x with
  | nil => exact h
  | cons fn fns ih =>
    obtain ⟨h', hci'⟩ := indexFn_indexes h hci fn
    exact ih h' hci'

theorem Indexes.setEntry {ci : ℕ} {g : Geometry} {m : Memory} {c : Cache} (h : Indexes ci g (m, c)) (e : CacheEntry) :
    Indexes (ci + 1) g (m, c.setEntry ci e) where
  geometry := h.geometry
  counted li hli := by
    have hne : (c.man li).cacheIdx ≠ ci := (h.below li hli).ne
    show (Function.update c.entry ci e (c.man li).cacheIdx).funcCount ≠ 0
    rw [Function.update_of_ne hne]
    exact h.counted li hli
  below li hli := (h.below li hli).trans (Nat.lt_succ_self _)

theorem indexEntry_indexes (d : Disk) {ci : ℕ} {g : Geometry} {x : Memory × Cache} (h : Indexes ci g x) :
    Indexes (ci + 1) g (indexEntry d x ci) := by
  obtain ⟨m, c⟩ := x
  unfold indexEntry
  dsimp only
  split
  · exact ⟨h.geometry, h.counted, fun li hli => (h.below li hli).trans (Nat.lt_succ_self _)⟩
  · split
    · exact h.setEntry _
    · next man _ =>
      split
      · exact h.setEntry _
      · refine foldl_indexFn man.fns (h.setEntry _) ?_
        simpa [Cache.setEntry] using man.nonempty

theorem rebuild_indexes (d : Disk) (m : Memory) (c : Cache) :
    Indexes c.count m.geometry (rebuildLazyManifestIndex d m c) := by
  unfold rebuildLazyManifestIndex
  generalize c.count = n
  induction n with
  | zero => exact ⟨rfl, fun li hli => absurd hli (Nat.not_lt_zero li), fun li hli => absurd hli (Nat.not_lt_zero li)⟩
  | succ n ih =>
    rw [List.range_succ, List.foldl_append]
    exact indexEntry_indexes d ih

theorem scan_counted (d : Disk) (abiTag : Word) (m : Memory) (c : Cache) :
    (scanCacheDir d abiTag m c).1.geometry = m.geometry ∧ Counted (scanCacheDir d abiTag m c).2 := by
  have h := rebuild_indexes d m (refreshBiosResidentFlags d (d.dirs.foldl (scanOneCacheDir d abiTag) c))
  exact ⟨h.geometry, h.counted⟩

theorem residents_move (d : Disk) (l : List ℕ) (s : Runtime) : Moves s (l.foldl (loadResident d) s) := by
  induction l generalizing s with
  | nil => exact .refl
  | cons i is ih =>
    refine Moves.trans ?_ (ih _)
    unfold loadResident
    dsimp only
    split
    · exact .refl
    · exact Moves.refl.load (loadOneDll_loads d _ none s)

/-- A scan: the index is new, and the rest only moves. -/
theorem scanned_moves (d : Disk) (s : Runtime) : ∃ (m : Memory) (c : Cache), m.geometry = s.mem.geometry ∧ Counted c ∧
    Moves { s with mem := m, cache := c } (s.scanned d) := by
  obtain ⟨hg, hc⟩ := scan_counted d s.settings.abiTag s.mem s.cache
  exact ⟨_, _, hg, hc, residents_move d _ _⟩

/-! ## Dispatches -/

/-- A library was loaded, and the pass after it found no owner: nothing is left to select for the PC. -/
def Exhausted (d : Disk) (addr : Word) (s : Runtime) : Prop :=
  (dispatchPass false d addr s).2 = .again →
    (dispatchPass true d addr (dispatchPass false d addr s).1).2 = .missed →
      (dispatchPass true d addr (dispatchPass false d addr s).1).1.Unselectable (segOf addr) (physOf addr)

/-- What a dispatch without the shortcut comes to. -/
structure Dispatches (d : Disk) (addr : Word) (s : Runtime) (r : Runtime × Pass) : Prop where
  again : r.2 ≠ .again
  interp : r.2 = .interp → Moves s r.1
  native : ∀ i, r.2 = .native i → (∃ s₁, Moves s s₁ ∧ r.1 = { s₁ with act := s₁.act.push i } ∧ i < s₁.tab.candN ∧
    (s₁.tab.cand i).Confirmed s₁.mem) ∧ (i < s.tab.candN → (s.tab.cand i).state ≠ .blacklist)
  missed : r.2 = .missed → ∃ s₁, Moves s s₁ ∧ Unowned s₁ addr ∧
    (overlayCacheWindowContains (physOf addr) s₁ = false ∧ r.1 = s₁ ∨
      overlayCacheWindowContains (physOf addr) s₁ = true ∧ r.1 = lazyMissRecord addr s₁ ∧
        (Exhausted d addr s → s₁.settings.loadsAllowed = true → s₁.Unselectable (segOf addr) (physOf addr)))

theorem dispatchUncut_dispatches (d : Disk) (addr : Word) {s : Runtime} (hn : Native s.mem.geometry s.tab)
    (hc : Counted s.cache) : Dispatches d addr s (dispatchUncut d addr s) := by
  unfold dispatchUncut
  split
  · exact ⟨by simp, fun _ => .refl, fun i h => absurd h (by simp), fun h => absurd h (by simp)⟩
  · have hfirst := dispatchPass_passed false d addr hn hc
    dsimp only
    split
    · next hagain =>
      have hm := (hfirst.again hagain).2
      have hsecond := dispatchPass_passed true d addr (hm.native hn) (hm.counted hc)
      refine ⟨fun h => absurd (hsecond.again h).1 (by decide), fun h => hm.trans (hsecond.interp h), fun i h => ?_,
        fun h => ?_⟩
      · have hruns := hsecond.native i h
        refine ⟨hruns.moves hm, fun hi hblack => ?_⟩
        have hg := hm.grows
        exact hruns.listed (hi.trans_le hg.candN) (Or.inl ((hg.same i hi).blacklist.2 hblack))
      · obtain ⟨s₁, hs, hun, hcase⟩ := hsecond.missed h
        refine ⟨s₁, hm.trans hs.moves, hun, hcase.imp_right ?_⟩
        rintro ⟨hwin, hr, -⟩
        refine ⟨hwin, hr, fun hex _ => ?_⟩
        have hsel := hex hagain h
        rw [hr] at hsel
        exact hsel
    · next hno =>
      refine ⟨hno, hfirst.interp, fun i h => ?_, fun h => ?_⟩
      · have hruns := hfirst.native i h
        exact ⟨hruns.moved, fun hi hblack => hruns.listed hi (Or.inl hblack)⟩
      · obtain ⟨s₁, hs, hun, hcase⟩ := hfirst.missed h
        refine ⟨s₁, hs.moves, hun, hcase.imp_right ?_⟩
        rintro ⟨hwin, hr, hsel⟩
        exact ⟨hwin, hr, fun _ => hsel rfl⟩

/-! ## Events -/

/-- What the tables of every run satisfy. -/
structure Ordered (s : Runtime) : Prop where
  native : Native s.mem.geometry s.tab
  counted : Counted s.cache

section Events

variable {s s' : Runtime}

theorem Ordered.moves (h : Ordered s) (hm : Moves s s') : Ordered s' := ⟨hm.native h.native, hm.counted h.counted⟩

theorem Ordered.same (h : Ordered s) (hg : s'.mem.geometry = s.mem.geometry) (ht : s'.tab = s.tab)
    (hc : s'.cache = s.cache) : Ordered s' := by
  refine ⟨?_, ?_⟩
  · rw [hg, ht]
    exact h.native
  · rw [hc]
    exact h.counted

theorem Blacklisted.state {t t' : Table} (h : Blacklisted t t') {i : ℕ} (hv : (t'.cand i).state = .valid) :
    (t.cand i).state = .valid := by
  have hsame := h.same (i := i) (by simp [hv])
  rwa [hsame] at hv

theorem Native.blacklisted {g : Geometry} {t t' : Table} (h : Native g t) (hb : Blacklisted t t') : Native g t' where
  formed := h.formed.blacklisted hb
  chained phys i hi := by
    rw [hb.chain] at hi
    rw [hb.candN]
    exact h.chained phys i hi
  bounded i hi := by
    rw [hb.candN] at hi
    rw [hb.ranges]
    exact h.bounded i hi
  resolved i hi hv := by
    rw [hb.candN] at hi
    rw [hb.ranges]
    exact h.resolved i hi (hb.state hv)

theorem Native.resync {g : Geometry} {t : Table} (h : Native g t) : Native g t.resync where
  formed := by
    obtain ⟨⟨hlinked, hknown⟩, hinside, hcounted, hslots, hslotKnown⟩ := h.formed
    exact ⟨⟨hlinked, hknown⟩, hinside, hcounted, hslots, hslotKnown⟩
  chained := h.chained
  bounded := h.bounded
  resolved := h.resolved

section Fields

variable (s : Runtime)

@[simp] theorem noteCodeWrite_mem : s.noteCodeWrite.mem = s.mem := by
  unfold Runtime.noteCodeWrite
  split <;> rfl

@[simp] theorem noteCodeWrite_act : s.noteCodeWrite.act = s.act := by
  unfold Runtime.noteCodeWrite
  split <;> rfl

@[simp] theorem noteCodeWrite_cache : s.noteCodeWrite.cache = s.cache := by
  unfold Runtime.noteCodeWrite
  split <;> rfl

end Fields

/-- The state in which a store leaves everything but the bytes. -/
theorem store_fields (phys size : Word) :
    (watchNoteWrite phys size (markKernelWrite phys s)).mem = s.mem ∧
      (watchNoteWrite phys size (markKernelWrite phys s)).cache = s.cache ∧
      (watchNoteWrite phys size (markKernelWrite phys s)).act = s.act ∧
      (watchNoteWrite phys size (markKernelWrite phys s)).tab =
        if s.mem.noted phys then activeWriteCheck s.act phys size s.tab else s.tab := by
  have hmark : (markKernelWrite phys s).mem = s.mem ∧ (markKernelWrite phys s).cache = s.cache ∧
      (markKernelWrite phys s).act = s.act ∧ (markKernelWrite phys s).tab = s.tab := by
    unfold markKernelWrite
    split <;> exact ⟨rfl, rfl, rfl, rfl⟩
  generalize markKernelWrite phys s = k at hmark
  obtain ⟨hm, hc, ha, ht⟩ := hmark
  unfold watchNoteWrite
  rw [← hm, ← hc, ← ha, ← ht]
  split <;> simp

theorem store_tab {addr : Word} {bytes : List Byte} (hram : psxRamMapWrite s.mem.geometry addr < ramWindow) :
    (s.store addr bytes).tab = if s.mem.noted (psxRamMapWrite s.mem.geometry addr) then
      activeWriteCheck s.act (psxRamMapWrite s.mem.geometry addr) (BitVec.ofNat 32 bytes.length) s.tab else s.tab := by
  unfold Runtime.store
  dsimp only
  rw [if_pos hram]
  exact (store_fields _ _).2.2.2

/-- Candidates stay registered, and those on the blacklist stay there. -/
structure Keeps (t t' : Table) : Prop where
  candN : t.candN ≤ t'.candN
  ranges : ∀ i < t.candN, (t'.cand i).ranges = (t.cand i).ranges
  blacklist : ∀ i < t.candN, (t.cand i).state = .blacklist → (t'.cand i).state = .blacklist

theorem Keeps.refl (t : Table) : Keeps t t := ⟨le_refl _, fun _ _ => rfl, fun _ _ => id⟩

theorem Grows.keeps {t t' : Table} (h : Grows t t') : Keeps t t' :=
  ⟨h.candN, fun i hi => (h.same i hi).ranges, fun i hi => (h.same i hi).blacklist.2⟩

theorem Blacklisted.keeps {t t' : Table} (h : Blacklisted t t') : Keeps t t' := by
  refine ⟨h.candN.ge, fun i _ => h.ranges i, fun i _ hb => ?_⟩
  rcases h.cand i with e | e <;> rw [e]
  exact hb

/-- What an event leaves of the tables. -/
structure Stepped (s s' : Runtime) : Prop where
  ordered : Ordered s'
  keeps : Keeps s.tab s'.tab
  geometry : s'.mem.geometry = s.mem.geometry

/-- An event with which no activation begins or returns. -/
structure Undispatched (s s' : Runtime) : Prop extends Stepped s s' where
  act : s'.act = s.act

theorem Stepped.same (h : Ordered s) (hg : s'.mem.geometry = s.mem.geometry) (ht : s'.tab = s.tab)
    (hc : s'.cache = s.cache) : Stepped s s' :=
  ⟨h.same hg ht hc, ht ▸ .refl _, hg⟩

theorem Stepped.moves (h : Ordered s) (hm : Moves s s') : Stepped s s' := ⟨h.moves hm, hm.grows.keeps, hm.kept.geometry⟩

theorem Stepped.then (h : Stepped s s') {s'' : Runtime} (hg : s''.mem.geometry = s'.mem.geometry) (ht : s''.tab = s'.tab)
    (hc : s''.cache = s'.cache) : Stepped s s'' :=
  ⟨h.ordered.same hg ht hc, ht ▸ h.keeps, hg.trans h.geometry⟩

theorem Undispatched.refl (h : Ordered s) : Undispatched s s := ⟨.same h rfl rfl rfl, rfl⟩

theorem Undispatched.moves (h : Ordered s) (hm : Moves s s') : Undispatched s s' := ⟨.moves h hm, hm.kept.act⟩

theorem store_undispatched (h : Ordered s) (addr : Word) (bytes : List Byte) : Undispatched s (s.store addr bytes) := by
  unfold Runtime.store
  dsimp only
  split
  · obtain ⟨hm, hc, ha, ht⟩ := store_fields (s := s) (psxRamMapWrite s.mem.geometry addr) (BitVec.ofNat 32 bytes.length)
    have hblack : Native s.mem.geometry (watchNoteWrite (psxRamMapWrite s.mem.geometry addr)
        (BitVec.ofNat 32 bytes.length) (markKernelWrite (psxRamMapWrite s.mem.geometry addr) s)).tab ∧
        Keeps s.tab (watchNoteWrite (psxRamMapWrite s.mem.geometry addr) (BitVec.ofNat 32 bytes.length)
          (markKernelWrite (psxRamMapWrite s.mem.geometry addr) s)).tab := by
      rw [ht]
      split
      · have hb := activeWriteCheck_blacklisted s.act (psxRamMapWrite s.mem.geometry addr)
          (BitVec.ofNat 32 bytes.length) s.tab
        exact ⟨h.native.blacklisted hb, hb.keeps⟩
      · exact ⟨h.native, .refl _⟩
    refine ⟨⟨⟨?_, ?_⟩, hblack.2, ?_⟩, ha⟩
    · dsimp only
      rw [write_geometry, hm]
      exact hblack.1
    · dsimp only
      rw [hc]
      exact h.counted
    · dsimp only
      rw [write_geometry, hm]
  · exact .refl h

theorem dispatchUncut_stepped (d : Disk) (addr : Word) (h : Ordered s) : Stepped s (dispatchUncut d addr s).1 := by
  have hd := dispatchUncut_dispatches d addr h.native h.counted
  generalize dispatchUncut d addr s = r at hd
  cases hr : r.2 with
  | again => exact absurd hr hd.again
  | interp => exact .moves h (hd.interp hr)
  | native i =>
    obtain ⟨⟨s₁, hm, hs, -⟩, -⟩ := hd.native i hr
    rw [hs]
    exact (Stepped.moves h hm).then rfl rfl rfl
  | missed =>
    obtain ⟨s₁, hm, -, ⟨-, hs⟩ | ⟨-, hs, -⟩⟩ := hd.missed hr
    · exact hs ▸ .moves h hm
    · rw [hs]
      exact (Stepped.moves h hm).then rfl rfl rfl

theorem scanned_undispatched (h : Ordered s) (d : Disk) : Undispatched s (s.scanned d) := by
  obtain ⟨m, c, hg, hc, hm⟩ := scanned_moves d s
  refine ⟨⟨Ordered.moves ⟨?_, hc⟩ hm, hm.grows.keeps, hm.kept.geometry.trans hg⟩, hm.kept.act⟩
  dsimp only
  rw [hg]
  exact h.native

theorem invalidateLoader_undispatched (h : Undispatched s s') : Undispatched s s'.invalidateLoader :=
  ⟨h.toStepped.then (by simp) (by simp) (by simp), (invalidateLoader_act _).trans h.act⟩

/-- What is left of everything by an event with which no activation begins or returns. -/
theorem step_undispatched (h : Ordered s) (a : Action) (hd : ∀ d addr, a ≠ .dispatch d addr) (hl : a ≠ .leave)
    (hn : ∀ depth, a ≠ .setNesting depth) : Undispatched s (s.step a) := by
  have hsame {s' : Runtime} (hg : s'.mem.geometry = s.mem.geometry) (ht : s'.tab = s.tab) (hc : s'.cache = s.cache)
      (ha : s'.act = s.act) : Undispatched s s' := ⟨.same h hg ht hc, ha⟩
  cases a with
  | dispatch d addr => exact absurd rfl (hd d addr)
  | leave => exact absurd rfl hl
  | setNesting depth => exact absurd rfl (hn depth)
  | store addr bytes => exact store_undispatched h addr bytes
  | markExecutable phys len =>
    show Undispatched s (markExecutableRange phys len s)
    unfold markExecutableRange
    split
    · exact .refl h
    · exact hsame rfl rfl rfl rfl
  | setBitmap | clearBaseline | resetForBoot => exact hsame rfl rfl rfl rfl
  | publish d path image =>
    show Undispatched s (s.commitPublished d path image)
    unfold Runtime.commitPublished
    split
    · exact .refl h
    · split
      · exact .refl h
      · split
        · exact .refl h
        · exact .moves h (Moves.refl.load (loadOneDll_loads d _ _ s))
  | rescan d =>
    show Undispatched s (s.rescan d)
    unfold Runtime.rescan
    split
    · exact .refl h
    · exact invalidateLoader_undispatched (scanned_undispatched h d)
  | clearMisses => exact invalidateLoader_undispatched (.refl h)
  | copyRam ram => exact hsame rfl rfl rfl rfl
  | invalidate =>
    refine ⟨⟨⟨h.native.resync, ?_⟩, ⟨le_refl _, fun _ _ => rfl, fun _ _ hb => hb⟩, rfl⟩, noteCodeWrite_act s⟩
    show Counted s.noteCodeWrite.cache
    rw [noteCodeWrite_cache]
    exact h.counted

/-- Every event keeps the tables in order, and takes no candidate off the blacklist. -/
theorem step_stepped (h : Ordered s) (a : Action) : Stepped s (s.step a) := by
  cases a with
  | dispatch d addr =>
    show Stepped s (overlayLoaderDispatchSeg d addr s).1
    unfold overlayLoaderDispatchSeg
    split
    · exact .same h rfl rfl rfl
    · exact dispatchUncut_stepped d addr h
  | leave => exact .same h rfl rfl rfl
  | setNesting depth => exact .same h rfl rfl rfl
  | _ => exact (step_undispatched h _ (by simp) (by simp) (by simp)).toStepped

theorem ordered_start (st : Settings) (m : Memory) (dirty : ℕ → Bool) (d : Disk) :
    Ordered (Runtime.start st m dirty d) :=
  (scanned_undispatched ⟨native_init _, fun li hli => absurd hli (Nat.not_lt_zero li)⟩ d).ordered

/-! ## The blacklist -/

/-- A blacklisted candidate is run by no dispatch and owns no continuation. -/
theorem blacklisted_unselected (h : Ordered s) {i : ℕ} (hi : i < s.tab.candN) (hb : (s.tab.cand i).state = .blacklist) :
    (∀ d addr, (overlayLoaderDispatchSeg d addr s).2 ≠ .native i) ∧ ∀ addr, (s.findByRange addr).2 ≠ some i := by
  refine ⟨fun d addr => ?_, fun addr hsel => ?_⟩
  · unfold overlayLoaderDispatchSeg
    split
    · simp
    · exact fun hsel => ((dispatchUncut_dispatches d addr h.native h.counted).native i hsel).2 hi hb
  · exact (find_ready h.native.formed hsel).listed (Or.inl hb)

end Events

end PsxRecomp.Overlays
