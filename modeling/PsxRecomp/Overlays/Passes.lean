import PsxRecomp.Overlays.Moves

/-! One pass of the dispatch: the moves it makes, the candidate it runs, and what a miss has ruled out. -/
namespace PsxRecomp.Overlays
set_option autoImplicit false

/-! ## Native tables -/

/-- Candidates are known wherever they are listed, their ranges lie in the window, and those of a valid one have
live bytes. -/
structure Native (g : Geometry) (t : Table) : Prop where
  formed : Formed t
  chained : ∀ phys, ∀ i ∈ t.chain phys, i < t.candN
  bounded : ∀ i < t.candN, Bounded (t.cand i).ranges
  resolved : ∀ i < t.candN, (t.cand i).state = .valid →
    ∀ r ∈ (t.cand i).ranges, ∃ off, psxRamResolve g r.lo r.len = some off

theorem native_init (g : Geometry) : Native g .init where
  formed := formed_init
  chained _ _ hi := absurd hi List.not_mem_nil
  bounded _ hi := absurd hi (Nat.not_lt_zero _)
  resolved _ hi := absurd hi (Nat.not_lt_zero _)

section Tables

variable {m : Memory} {t t' : Table}

theorem Native.looks (h : Native m.geometry t) (hl : t.Looks m t') : Native m.geometry t' where
  formed := hl.formed h.formed
  chained phys i hi := by
    rw [hl.kin.chain] at hi
    rw [hl.kin.candN]
    exact h.chained phys i hi
  bounded i hi := by
    rw [hl.kin.candN] at hi
    rw [(hl.kin.cand i).ranges]
    exact h.bounded i hi
  resolved i hi hv := by
    rw [hl.kin.candN] at hi
    rw [(hl.kin.cand i).ranges]
    rcases hl.valid i hv with hv | hlive
    · exact h.resolved i hi hv
    · exact liveMatches_resolves hlive

theorem mem_chainInsert {tier : Byte} {idx i : ℕ} {l : List ℕ} (h : i ∈ chainInsert t tier idx l) : i = idx ∨ i ∈ l := by
  unfold chainInsert at h
  rcases List.mem_append.1 h with h | h
  · exact Or.inr ((List.takeWhile_sublist _).subset h)
  · rcases List.mem_cons.1 h with h | h
    · exact Or.inl h
    · exact Or.inr ((List.dropWhile_sublist _).subset h)

theorem enter_chain {c : Candidate} {phys : Word} {i : ℕ} (h : i ∈ (t.enter c).chain phys) :
    i = t.candN ∨ i ∈ t.chain phys := by
  unfold Table.enter setChain Table.setCand at h
  dsimp only at h
  split at h
  · exact Or.inr h
  · dsimp only at h
    by_cases hp : phys = c.addr
    · subst hp
      rw [Function.update_self] at h
      exact mem_chainInsert h
    · rw [Function.update_of_ne hp] at h
      exact Or.inr h

theorem Native.register (h : Native m.geometry t) (phys : Word) (man : ManFn) (dll : ℕ) (tier : Byte) :
    Native (candRegister phys man dll tier m t).1.1.geometry (candRegister phys man dll tier m t).1.2 := by
  rcases candRegister_cases phys man dll tier m t with hno | ⟨hroom, c, hc, hbounded, hyes⟩
  · rw [hno]
    exact h
  · rw [hyes]
    have hg := (watch_eq m ((man.ranges.take maxCodeRanges).map stripSegment)).1
    refine ⟨h.formed.enter hroom hbounded, fun p i hi => ?_, fun i hi => ?_, fun i hi hv => ?_⟩
    · rcases enter_chain hi with heq | hmem
      · exact heq ▸ Nat.lt_succ_self _
      · exact Nat.lt_succ_of_lt (h.chained p i hmem)
    · rcases Nat.lt_succ_iff_lt_or_eq.1 hi with hlt | heq
      · rw [enter_old c hlt]
        exact h.bounded i hlt
      · subst heq
        rw [enter_new]
        exact hbounded
    · rw [hg]
      rcases Nat.lt_succ_iff_lt_or_eq.1 hi with hlt | heq
      · rw [enter_old c hlt] at hv ⊢
        exact h.resolved i hlt hv
      · subst heq
        rw [enter_new] at hv ⊢
        subst hc
        have hlive : liveMatches m.geometry (ovRangesWatch ((man.ranges.take maxCodeRanges).map stripSegment) m).ram
            ((man.ranges.take maxCodeRanges).map stripSegment) man.crc = true := by
          have hstate : liveState _ _ _ = EntryState.valid := hv
          unfold liveState at hstate
          rw [hg] at hstate
          split at hstate
          · next hlive => exact hlive
          · exact absurd hstate (by decide)
        exact liveMatches_resolves hlive

theorem Native.registers {x y : Memory × Table} (h : Native x.1.geometry x.2) (hr : Registers x y) :
    Native y.1.geometry y.2 := by
  induction hr with
  | refl => exact h
  | register phys man dll tier _ ih => exact ih.register phys man dll tier

/-- Known candidates stay what they are. -/
structure Grows (t t' : Table) : Prop where
  candN : t.candN ≤ t'.candN
  same : ∀ i < t.candN, (t.cand i).Same (t'.cand i)

theorem Grows.refl (t : Table) : Grows t t := ⟨le_refl _, fun _ _ => .refl _⟩

theorem Grows.trans {t'' : Table} (h : Grows t t') (h' : Grows t' t'') : Grows t t'' :=
  ⟨h.candN.trans h'.candN, fun i hi => (h.same i hi).trans (h'.same i (hi.trans_le h.candN))⟩

theorem Registers.grows {x y : Memory × Table} (h : Registers x y) : Grows x.2 y.2 := by
  induction h with
  | refl => exact .refl _
  | register phys man dll tier _ ih =>
    rename_i y _
    refine ih.trans ?_
    rcases candRegister_cases phys man dll tier y.1 y.2 with hno | ⟨-, c, -, -, hyes⟩
    · rw [hno]
      exact .refl _
    · rw [hyes]
      exact ⟨Nat.le_succ _, fun i hi => by rw [enter_old c hi]; exact .refl _⟩

end Tables

section Moves

variable {s s' : Runtime}

theorem Moves.native (h : Moves s s') (hn : Native s.mem.geometry s.tab) : Native s'.mem.geometry s'.tab := by
  induction h with
  | refl => exact hn
  | tab _ ht ih => exact ih.looks ht
  | cache _ _ ih => exact ih
  | load _ hr ih => exact ih.registers hr.registers

theorem Moves.grows (h : Moves s s') : Grows s.tab s'.tab := by
  induction h with
  | refl => exact .refl _
  | tab _ ht ih => exact ih.trans ⟨ht.kin.candN.ge, fun i _ => ht.kin.cand i⟩
  | cache _ _ ih => exact ih
  | load _ hr ih => exact ih.trans hr.registers.grows

end Moves

/-! ## The chain of an entry -/

/-- No candidate serves the PC while the generations stand. -/
structure Unowned (s : Runtime) (addr : Word) : Prop where
  chain : ∀ i ∈ s.tab.chain (physOf addr), (s.tab.cand i).seg = segOf addr → (s.tab.cand i).Rejects s.mem
  range : s.settings.cpsMode = true → segChain addr s.tab = [] →
    ∀ i < s.tab.candN, (s.tab.cand i).spans (segOf addr) (physOf addr) = true → (s.tab.cand i).Rejects s.mem

/-- A candidate that is run, from a state that the pass has moved to. -/
structure Runs (s : Runtime) (i : ℕ) (r : Runtime) : Prop where
  moved : ∃ s₁, Moves s s₁ ∧ r = { s₁ with act := s₁.act.push i } ∧ i < s₁.tab.candN ∧
    (s₁.tab.cand i).Confirmed s₁.mem
  listed : i < s.tab.candN → ¬(s.tab.cand i).Rejects s.mem

/-- What a candidate leaves that is ready to run. -/
structure Serves (s : Runtime) (r : Runtime × Pass) : Prop where
  again : r.2 ≠ .again
  missed : r.2 ≠ .missed
  interp : r.2 = .interp → Moves s r.1
  native : ∀ i, r.2 = .native i → Runs s i r.1

theorem runCandidate_serves {s s₁ : Runtime} (h : Moves s s₁) {i : ℕ} (hi : i < s₁.tab.candN)
    (hc : (s₁.tab.cand i).Confirmed s₁.mem) (hlisted : i < s.tab.candN → ¬(s.tab.cand i).Rejects s.mem)
    (blocked : Bool) : Serves s (runCandidate i blocked s₁) := by
  unfold runCandidate
  split
  · exact ⟨by simp, by simp, fun _ => h, fun j hj => absurd hj (by simp)⟩
  · refine ⟨by simp, by simp, fun hj => absurd hj (by simp), fun j hj => ?_⟩
    have hij := Pass.native.inj hj
    subst hij
    exact ⟨⟨s₁, h, rfl, hi, hc⟩, hlisted⟩

/-- The turns over a chain. -/
structure Chains (s : Runtime) (seg : Word) (l : List ℕ) (r : Runtime × Option Pass) : Prop where
  none : r.2 = none → ∃ t, s.tab.Looks s.mem t ∧ r.1 = { s with tab := t } ∧
    ∀ i ∈ l, (s.tab.cand i).seg = seg → (t.cand i).Rejects s.mem
  some : ∀ p, r.2 = some p → Serves s (r.1, p)
  rejected : (∀ i ∈ l, (s.tab.cand i).seg = seg → (s.tab.cand i).Rejects s.mem) → r = (s, Option.none)

theorem setCand_self (t : Table) (i : ℕ) : t.setCand i (t.cand i) = t := by
  simp [Table.setCand]

theorem runChain_chains (seg : Word) (l : List ℕ) (s : Runtime) (hl : ∀ i ∈ l, i < s.tab.candN) :
    Chains s seg l (runChain seg l s) := by
  induction l generalizing s with
  | nil =>
    exact ⟨fun _ => ⟨s.tab, .refl _ _, rfl, fun i hi => absurd hi List.not_mem_nil⟩, fun p h => absurd h (by simp [runChain]),
      fun _ => rfl⟩
  | cons i is ih =>
    have hi := hl i (List.mem_cons_self ..)
    have his : ∀ j ∈ is, j < s.tab.candN := fun j hj => hl j (List.mem_cons_of_mem _ hj)
    unfold runChain
    dsimp only
    split
    · next hskip =>
      obtain ⟨hnone, hsome, hrej⟩ := ih s his
      refine ⟨fun h => ?_, hsome, fun h => hrej fun j hj => h j (List.mem_cons_of_mem _ hj)⟩
      obtain ⟨t, ht, hr, hall⟩ := hnone h
      refine ⟨t, ht, hr, fun j hj hseg => ?_⟩
      rcases List.mem_cons.1 hj with rfl | hj
      · exact ht.rejects j (Or.inl (hskip.resolve_left (not_not.2 hseg)))
      · exact hall j hj hseg
    · next hskip =>
      push Not at hskip
      obtain ⟨hseg, hlisted⟩ := hskip
      have hlook := looks_judge s.mem s.tab hlisted
      split
      · next hyes =>
        have hfree : ¬(s.tab.cand i).Rejects s.mem := fun hr => by
          rw [hr.judge hlisted] at hyes
          exact absurd hyes Bool.noConfusion
        refine ⟨fun h => absurd h (by simp), fun p hp => ?_, fun h => absurd (h i (List.mem_cons_self ..) hseg) hfree⟩
        have hp' := Option.some.inj hp
        subst hp'
        refine runCandidate_serves (Moves.refl.tab hlook) (hlook.kin.candN.symm ▸ hi) ?_ (fun _ => hfree) _
        simpa [Table.setCand] using judge_true hyes
      · next hno =>
        have hno' : ((s.tab.cand i).judge s.mem).2 = false := by simpa using hno
        obtain ⟨hnone, hsome, hrej⟩ := ih { s with tab := s.tab.setCand i ((s.tab.cand i).judge s.mem).1 }
          fun j hj => hlook.kin.candN.symm ▸ his j hj
        refine ⟨fun h => ?_, fun p hp => ?_, fun h => ?_⟩
        · obtain ⟨t, ht, hr, hall⟩ := hnone h
          refine ⟨t, hlook.trans ht, hr, fun j hj hseg' => ?_⟩
          rcases List.mem_cons.1 hj with rfl | hj
          · exact ht.rejects j (by simpa [Table.setCand] using judge_false hno')
          · exact hall j hj ((hlook.kin.cand j).seg.trans hseg')
        · have h := hsome p hp
          refine ⟨h.again, h.missed, fun hint => (Moves.refl.tab hlook).trans (h.interp hint), fun j hj => ?_⟩
          obtain ⟨⟨s₁, hm, hr⟩, hfree⟩ := h.native j hj
          refine ⟨⟨s₁, (Moves.refl.tab hlook).trans hm, hr⟩, fun hlt hrej' => ?_⟩
          exact hfree (hlook.kin.candN.symm ▸ hlt) (hlook.rejects j hrej')
        · have hrest : ∀ j ∈ is, (s.tab.cand j).seg = seg → (s.tab.cand j).Rejects s.mem :=
            fun j hj => h j (List.mem_cons_of_mem _ hj)
          have hsame : s.tab.setCand i ((s.tab.cand i).judge s.mem).1 = s.tab := by
            rw [(h i (List.mem_cons_self ..) hseg).judge hlisted]
            exact setCand_self s.tab i
          rw [hsame]
          exact (ih s his).rejected hrest

/-! ## The owner of a continuation -/

/-- Moves without a load that registers anything. -/
structure Still (s s' : Runtime) : Prop where
  moves : Moves s s'
  mem : s'.mem = s.mem
  tab : s.tab.Looks s.mem s'.tab

theorem Still.refl (s : Runtime) : Still s s := ⟨.refl, rfl, .refl _ _⟩

theorem Still.trans {s s' s'' : Runtime} (h : Still s s') (h' : Still s' s'') : Still s s'' := by
  refine ⟨h.moves.trans h'.moves, h'.mem.trans h.mem, h.tab.trans ?_⟩
  have ht := h'.tab
  rwa [h.mem] at ht

theorem Still.of_tries {s : Runtime} {seg phys : Word} {r : Runtime × Bool} (h : Tries s seg phys r)
    (hno : r.2 = false) : Still s r.1 := by
  obtain ⟨hmem, htab⟩ := h.idle hno
  exact ⟨h.moves, hmem, htab ▸ .refl _ _⟩

theorem findByRange_still {s : Runtime} (hf : Formed s.tab) (addr : Word) : Still s (s.findByRange addr).1 := by
  have h := find_finds (m := s.mem) hf (segOf addr) (physOf addr)
  exact ⟨Moves.refl.tab h.looks, rfl, h.looks⟩

/-- An owner that is ready to run, in a state reached from a first one. -/
structure Ready (s s' : Runtime) (i : ℕ) : Prop where
  known : i < s'.tab.candN
  confirmed : (s'.tab.cand i).Confirmed s'.mem
  listed : ¬(s.tab.cand i).Rejects s.mem

theorem Ready.still {s s' s'' : Runtime} {i : ℕ} (h : Ready s s' i) (hs : Still s' s'') : Ready s s'' i where
  known := hs.tab.kin.candN.symm ▸ h.known
  confirmed := by
    rw [hs.mem]
    exact hs.tab.confirmed i h.confirmed
  listed := h.listed

theorem find_ready {s : Runtime} (hf : Formed s.tab) {addr : Word} {i : ℕ} (h : (s.findByRange addr).2 = some i) :
    Ready s (s.findByRange addr).1 i := by
  have hfind := find_finds (m := s.mem) hf (segOf addr) (physOf addr)
  obtain ⟨hlt, hconf, -, hfree⟩ := hfind.some i h
  exact ⟨hfind.looks.kin.candN.symm ▸ hlt, hconf, hfree⟩

/-- What the continuation of a registered function comes to. -/
structure Resumes (s : Runtime) (addr : Word) (r : Runtime × Option Pass) : Prop where
  none : r.2 = none → Still s r.1 ∧ (s.settings.cpsMode = true →
    ∀ i < s.tab.candN, (s.tab.cand i).spans (segOf addr) (physOf addr) = true → (r.1.tab.cand i).Rejects r.1.mem)
  some : ∀ p, r.2 = some p → Serves s (r.1, p)

theorem resume_resumes {s s' : Runtime} (hf : Formed s.tab) (hs : Still s s') (addr : Word) {owner : Option ℕ}
    (ho : ∀ i, owner = some i → Ready s s' i) : Resumes s addr (resume addr owner s') := by
  have hserve : ∀ (s₁ : Runtime) (i : ℕ), Still s s₁ → Ready s s₁ i → ∀ blocked,
      Serves s (runCandidate i blocked { s₁ with tab := s₁.tab.setCand i (s₁.tab.cand i) }) := by
    intro s₁ i hs₁ hr blocked
    rw [setCand_self]
    exact runCandidate_serves hs₁.moves hr.known hr.confirmed (fun _ => hr.listed) blocked
  unfold resume
  split
  · next hno =>
    refine ⟨fun _ => ⟨hs, fun hcps => ?_⟩, fun p hp => absurd hp (by simp)⟩
    rw [hs.moves.kept.settings] at hno
    simp [hcps] at hno
  · cases owner with
    | some i =>
      have hr := ho i rfl
      dsimp only
      rw [hr.confirmed.confirm]
      refine ⟨fun h => absurd h (by simp), fun p hp => ?_⟩
      have hp' := Option.some.inj hp
      subst hp'
      exact hserve s' i hs hr _
    | none =>
      have hf' := hs.tab.formed hf
      have hfind := find_finds (m := s'.mem) hf' (segOf addr) (physOf addr)
      have hstill := hs.trans (findByRange_still hf' addr)
      dsimp only
      cases hown : (s'.findByRange addr).2 with
      | none =>
        refine ⟨fun _ => ⟨hstill, fun _ i hi hspan => ?_⟩, fun p hp => absurd hp (by simp)⟩
        exact hfind.none hown i (hs.tab.kin.candN.symm ▸ hi) (by rwa [hs.tab.spans])
      | some i =>
        have hr := find_ready hf' hown
        have hr' : Ready s (s'.findByRange addr).1 i :=
          ⟨hr.known, hr.confirmed, fun hrej => hr.listed (hs.mem.symm ▸ hs.tab.rejects i hrej)⟩
        dsimp only
        rw [hr.confirmed.confirm]
        refine ⟨fun h => absurd h (by simp), fun p hp => ?_⟩
        have hp' := Option.some.inj hp
        subst hp'
        exact hserve _ i hstill hr' _

/-- What the load in front of a continuation comes to. -/
structure EarlyLoads (lazyLoaded : Bool) (s : Runtime) (e : Early) : Prop where
  moves : Moves s e.rt
  loaded : e.loaded = true → lazyLoaded = false
  still : e.loaded = false → Still s e.rt
  owner : e.loaded = false → ∀ i, e.owner = some i → Ready s e.rt i

theorem earlyLoad_loads (lazyLoaded : Bool) (d : Disk) (addr : Word) {s : Runtime} (hf : Formed s.tab)
    (hc : Counted s.cache) : EarlyLoads lazyLoaded s (earlyLoad lazyLoaded d addr s) := by
  have hlook : Still s (if s.settings.cpsMode then s.findByRange addr else (s, none)).1 ∧
      ∀ i, (if s.settings.cpsMode then s.findByRange addr else (s, none)).2 = some i →
        Ready s (if s.settings.cpsMode then s.findByRange addr else (s, none)).1 i := by
    split
    · exact ⟨findByRange_still hf addr, fun i hi => find_ready hf hi⟩
    · exact ⟨.refl s, fun i hi => absurd hi (by simp)⟩
  unfold earlyLoad
  dsimp only
  generalize (if s.settings.cpsMode then s.findByRange addr else (s, none)) = r at hlook ⊢
  obtain ⟨hstill, hready⟩ := hlook
  refine iteInduction (fun hw => ?_) fun _ => ?_
  · have htry := tryLoadRegion_tries d (segOf addr) (physOf addr) (hstill.moves.counted hc)
    simp only [Bool.and_eq_true, Bool.not_eq_true'] at hw
    refine ⟨hstill.moves.trans htry.moves, fun _ => hw.2, fun hno => hstill.trans (.of_tries htry hno),
      fun hno i hi => ?_⟩
    exact (hready i hi).still (.of_tries htry hno)
  · exact ⟨hstill.moves, fun h => absurd h Bool.noConfusion, fun _ => hstill, fun _ => hready⟩

/-! ## A pass -/

theorem Kept.window {s s' : Runtime} (h : Kept s s') (phys : Word) :
    overlayCacheWindowContains phys s' = overlayCacheWindowContains phys s := by
  unfold overlayCacheWindowContains dirtyRamIsDirty
  rw [h.settings, h.geometry, h.dirty]

theorem segChain_looks {m : Memory} {t t' : Table} (h : t.Looks m t') (addr : Word) : segChain addr t' = segChain addr t := by
  unfold segChain
  rw [h.kin.chain]
  refine congrArg (List.dropWhile · _) (funext fun i => ?_)
  rw [(h.kin.cand i).seg]

/-- What a pass comes to; a miss without a load leaves nothing to select. -/
structure Passed (lazyLoaded : Bool) (addr : Word) (s : Runtime) (r : Runtime × Pass) : Prop where
  again : r.2 = .again → lazyLoaded = false ∧ Moves s r.1
  interp : r.2 = .interp → Moves s r.1
  native : ∀ i, r.2 = .native i → Runs s i r.1
  missed : r.2 = .missed → ∃ s₁, Still s s₁ ∧ Unowned s₁ addr ∧
    (overlayCacheWindowContains (physOf addr) s₁ = false ∧ r.1 = s₁ ∨
      overlayCacheWindowContains (physOf addr) s₁ = true ∧ r.1 = lazyMissRecord addr s₁ ∧
        (lazyLoaded = false → s₁.settings.loadsAllowed = true → s₁.Unselectable (segOf addr) (physOf addr)))

theorem Serves.passed {lazyLoaded : Bool} {addr : Word} {s : Runtime} {r : Runtime × Pass} (h : Serves s r) :
    Passed lazyLoaded addr s r :=
  ⟨fun hr => absurd hr h.again, h.interp, h.native, fun hr => absurd hr h.missed⟩

theorem Unowned.still {s s' : Runtime} {addr : Word} (h : Unowned s addr) (hs : Still s s') : Unowned s' addr where
  chain i hi hseg := by
    rw [hs.tab.kin.chain] at hi
    rw [(hs.tab.kin.cand i).seg] at hseg
    rw [hs.mem]
    exact hs.tab.rejects i (h.chain i hi hseg)
  range hcps hch i hi hspan := by
    rw [hs.moves.kept.settings] at hcps
    rw [segChain_looks hs.tab] at hch
    rw [hs.tab.kin.candN] at hi
    rw [hs.tab.spans] at hspan
    rw [hs.mem]
    exact hs.tab.rejects i (h.range hcps hch i hi hspan)

theorem lateLoad_passed (lazyLoaded : Bool) (d : Disk) {addr : Word} {s s' : Runtime} (hc : Counted s.cache)
    (hs : Still s s') (hun : Unowned s' addr) : Passed lazyLoaded addr s (lateLoad lazyLoaded d addr s') := by
  unfold lateLoad
  split
  · next hno =>
    refine ⟨fun h => absurd h (by simp), fun h => absurd h (by simp), fun i h => absurd h (by simp), fun _ => ?_⟩
    exact ⟨s', hs, hun, Or.inl ⟨by simpa using hno, rfl⟩⟩
  · next hwin =>
    have hwin' : overlayCacheWindowContains (physOf addr) s' = true := by simpa using hwin
    dsimp only
    cases lazyLoaded with
    | true =>
      refine ⟨fun h => absurd h (by simp), fun h => absurd h (by simp), fun i h => absurd h (by simp), fun _ => ?_⟩
      exact ⟨s', hs, hun, Or.inr ⟨hwin', rfl, fun h => absurd h (by decide)⟩⟩
    | false =>
      have htry := tryLoadRegion_tries d (segOf addr) (physOf addr) (hs.moves.counted hc)
      simp only [Bool.false_eq_true, if_false]
      generalize tryLoadRegion d (segOf addr) (physOf addr) s' = q at htry
      split
      · exact ⟨fun _ => ⟨rfl, hs.moves.trans htry.moves⟩, fun h => absurd h (by simp), fun i h => absurd h (by simp),
          fun h => absurd h (by simp)⟩
      · next hno =>
        have hno' : q.2 = false := by simpa using hno
        have hstill := Still.of_tries htry hno'
        refine ⟨fun h => absurd h (by simp), fun h => absurd h (by simp), fun i h => absurd h (by simp), fun _ => ?_⟩
        refine ⟨q.1, hs.trans hstill, hun.still hstill, Or.inr ⟨?_, rfl, fun _ hallow => htry.done hno' hallow⟩⟩
        rw [htry.moves.kept.window]
        exact hwin'

theorem mem_segChain {addr : Word} {t : Table} {i : ℕ} (hi : i ∈ t.chain (physOf addr))
    (hseg : (t.cand i).seg = segOf addr) : i ∈ segChain addr t := by
  unfold segChain
  generalize t.chain (physOf addr) = l at hi
  induction l with
  | nil => exact absurd hi List.not_mem_nil
  | cons j js ih =>
    rw [List.dropWhile_cons]
    split
    · next hj =>
      rcases List.mem_cons.1 hi with rfl | hi
      · simp [hseg] at hj
      · exact ih hi
    · exact hi

theorem segChain_known {g : Geometry} {addr : Word} {t : Table} (h : Native g t) : ∀ i ∈ segChain addr t, i < t.candN :=
  fun i hi => h.chained _ i ((List.dropWhile_sublist _).subset hi)

theorem dispatchPass_passed (lazyLoaded : Bool) (d : Disk) (addr : Word) {s : Runtime}
    (hn : Native s.mem.geometry s.tab) (hc : Counted s.cache) :
    Passed lazyLoaded addr s (dispatchPass lazyLoaded d addr s) := by
  unfold dispatchPass
  split
  · next hchain =>
    have hearly : EarlyLoads lazyLoaded s
        (if overlayCacheWindowContains (physOf addr) s then earlyLoad lazyLoaded d addr s else ⟨s, none, false⟩) := by
      split
      · exact earlyLoad_loads lazyLoaded d addr hn.formed hc
      · exact ⟨.refl, fun h => absurd h Bool.noConfusion, fun _ => .refl s, fun _ i hi => absurd hi (by simp)⟩
    dsimp only
    generalize (if overlayCacheWindowContains (physOf addr) s then earlyLoad lazyLoaded d addr s else ⟨s, none, false⟩)
      = e at hearly ⊢
    split
    · next hyes =>
      exact ⟨fun _ => ⟨hearly.loaded hyes, hearly.moves⟩, fun h => absurd h (by simp), fun i h => absurd h (by simp),
        fun h => absurd h (by simp)⟩
    · next hno =>
      have hno' : e.loaded = false := by simpa using hno
      have hstill := hearly.still hno'
      have hres := resume_resumes hn.formed hstill addr (hearly.owner hno')
      generalize resume addr e.owner e.rt = r at hres
      split
      · next p hp => exact (hres.some p hp).passed
      · next hp =>
        obtain ⟨hs, hrange⟩ := hres.none hp
        refine lateLoad_passed lazyLoaded d hc hs ⟨fun i hi hseg => ?_, fun hcps _ i hi hspan => ?_⟩
        · rw [hs.tab.kin.chain] at hi
          rw [(hs.tab.kin.cand i).seg] at hseg
          have hmem := mem_segChain hi hseg
          rw [hchain] at hmem
          exact absurd hmem List.not_mem_nil
        · rw [hs.moves.kept.settings] at hcps
          rw [hs.tab.kin.candN] at hi
          rw [hs.tab.spans] at hspan
          exact hrange hcps i hi hspan
  · next hchain =>
    have hch := runChain_chains (segOf addr) (segChain addr s.tab) s (segChain_known hn)
    dsimp only
    generalize runChain (segOf addr) (segChain addr s.tab) s = r at hch
    split
    · next p hp => exact (hch.some p hp).passed
    · next hp =>
      obtain ⟨t, ht, hr, hall⟩ := hch.none hp
      rw [hr]
      have hs : Still s { s with tab := t } := ⟨Moves.refl.tab ht, rfl, ht⟩
      refine lateLoad_passed lazyLoaded d hc hs ⟨fun i hi hseg => ?_, fun _ hnil => ?_⟩
      · rw [hs.tab.kin.chain] at hi
        rw [(hs.tab.kin.cand i).seg] at hseg
        exact hall i (mem_segChain hi hseg) hseg
      · rw [segChain_looks hs.tab] at hnil
        exact absurd hnil hchain

/-! ## A dispatch -/

theorem Runs.moves {s s' : Runtime} {i : ℕ} {r : Runtime} (hm : Moves s s') (h : Runs s' i r) :
    ∃ s₁, Moves s s₁ ∧ r = { s₁ with act := s₁.act.push i } ∧ i < s₁.tab.candN ∧
      (s₁.tab.cand i).Confirmed s₁.mem := by
  obtain ⟨s₁, hm', hr⟩ := h.moved
  exact ⟨s₁, hm.trans hm', hr⟩

end PsxRecomp.Overlays
