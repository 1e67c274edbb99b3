import Mathlib
import PsxRecomp.DataShards.Replay

/-! A replayed shard against a run of the body: the recorder's marks are those of the run, and a replay
is the run from the registers of the capture. -/
namespace PsxRecomp.DataShards
open Recording (Use Marks Covered)
set_option autoImplicit false

variable {g : Geometry} {b : Body}

/-! ## Captures -/

theorem hearLoad_marks {m : Cells} {a : Access} {q : Recorder}
    (h : (q.hearLoad g m a).poisoned = false) :
    (q.hearLoad g m a).marks = q.marks.note (Access.cells g) Heard (.load a) := by
  rcases (hearLoad_spec h).2 with ⟨hn, he⟩ | ⟨hh, hs⟩
  · rw [he]
    simp only [Recorder.marks, Marks.note, hn, false_and, or_false]
    rfl
  · simp only [Recorder.marks, Marks.note, hs.wrFlag, Marks.mk.injEq, and_true]
    ext i
    simp only [Set.mem_ofPred_eq, hs.rdFlag i, hh, true_and, mem_cells, Bool.not_eq_true]

theorem hearStore_marks {a : Access} {q : Recorder} (h : (q.hearStore g a).poisoned = false) :
    (q.hearStore g a).marks = q.marks.note (Access.cells g) Heard (.store a) := by
  rcases (hearStore_spec h).2 with ⟨hn, he⟩ | ⟨hh, hs⟩
  · rw [he]
    simp only [Recorder.marks, Marks.note, hn, false_and, or_false]
    rfl
  · simp only [Recorder.marks, Marks.note, hs.rdFlag, Marks.mk.injEq, true_and]
    ext i
    simp only [Set.mem_ofPred_eq, hs.wrFlag i, hh, true_and, mem_cells]

/-- The recorder only listens. -/
theorem Captures.runs {s : b.Local} {m : Cells} {q : Recorder} {tr : List (Use Access)} {r : Regs}
    {m' : Cells} {q' : Recorder} (h : Captures g b s m q tr r m' q') : b.Runs g s m tr r m' := by
  induction h with
  | done s m q r h => exact .done s m r (by rw [h]; rfl)
  | load s m q a k tr r m' q' h _ ih => exact .load s m a _ tr r m' (by rw [h]; rfl) ih
  | store s m q a val s' tr r m' q' h _ ih => exact .store s m a _ s' tr r m' (by rw [h]; rfl) ih

/-- A capture that is not poisoned at its end never was, and has marked what its accesses mark. -/
theorem Captures.marks {s : b.Local} {m : Cells} {q : Recorder} {tr : List (Use Access)} {r : Regs}
    {m' : Cells} {q' : Recorder} (h : Captures g b s m q tr r m' q') (hq : q'.poisoned = false) :
    q.poisoned = false ∧ q'.marks = q.marks.after (Access.cells g) Heard tr := by
  induction h with
  | done => exact ⟨hq, rfl⟩
  | load s m q a k tr r m' q' _ _ ih =>
    obtain ⟨hp, hm⟩ := ih hq
    exact ⟨(hearLoad_spec hp).1, by rw [hm, hearLoad_marks hp]; rfl⟩
  | store s m q a val s' tr r m' q' _ _ ih =>
    obtain ⟨hp, hm⟩ := ih hq
    exact ⟨(hearStore_spec hp).1, by rw [hm, hearStore_marks hp]; rfl⟩

/-- What was read keeps the value it had at the start, and what was not written has it still. -/
structure Faithful (m₀ m : Cells) (q : Recorder) : Prop where
  orig : ∀ i, q.rdFlag i = true → q.rdOrig i = m₀ i
  kept : ∀ i, q.wrFlag i = false → m i = m₀ i

theorem Faithful.load {m₀ m : Cells} {a : Access} {q : Recorder} (hf : Faithful m₀ m q)
    (h : (q.hearLoad g m a).poisoned = false) : Faithful m₀ m (q.hearLoad g m a) := by
  rcases (hearLoad_spec h).2 with ⟨-, he⟩ | ⟨-, hs⟩
  · rw [he]
    exact hf
  · refine ⟨fun i hi => ?_, fun i hi => hf.kept i (hs.wrFlag ▸ hi)⟩
    cases hold : q.rdFlag i with
    | true => rw [hs.kept i hold, hf.orig i hold]
    | false =>
      rw [hs.fresh i hold hi]
      rcases (hs.rdFlag i).1 hi with hi | hi
      · exact absurd (hold.symm.trans hi) (by decide)
      · exact hf.kept i hi.2

theorem Faithful.store {m₀ m : Cells} {a : Access} {q : Recorder} (v : Cells)
    (hf : Faithful m₀ m q) (h : (q.hearStore g a).poisoned = false)
    (hcov : Heard a ∨ ∀ i ∈ a.cells g, i ∈ q.marks.written) :
    Faithful m₀ (Recording.put (Access.cells g) a v m) (q.hearStore g a) := by
  have hmarks := hearStore_marks h
  have hrd : (q.hearStore g a).rdFlag = q.rdFlag ∧ (q.hearStore g a).rdOrig = q.rdOrig := by
    rcases (hearStore_spec h).2 with ⟨-, he⟩ | ⟨-, hs⟩
    · rw [he]
      exact ⟨rfl, rfl⟩
    · exact ⟨hs.rdFlag, hs.rdOrig⟩
  refine ⟨fun i hi => ?_, fun i hi => ?_⟩
  · rw [hrd.2]
    exact hf.orig i (hrd.1 ▸ hi)
  · have hnot : i ∉ (q.hearStore g a).marks.written := fun hw => by
      rw [show (q.hearStore g a).wrFlag i = true from hw] at hi
      cases hi
    rw [hmarks] at hnot
    have hcell : i ∉ a.cells g := fun hmem => hnot (by
      rcases hcov with hh | hk
      · exact Or.inr ⟨hh, hmem⟩
      · exact Or.inl (hk i hmem))
    rw [Recording.put, if_neg hcell]
    exact hf.kept i (Bool.eq_false_iff.2 fun hw => hnot (Or.inl hw))

theorem Captures.faithful {s : b.Local} {m : Cells} {q : Recorder} {tr : List (Use Access)}
    {r : Regs} {m' : Cells} {q' : Recorder} (h : Captures g b s m q tr r m' q')
    (hq : q'.poisoned = false) (hcov : Covered (Access.cells g) Heard q.marks tr) {m₀ : Cells}
    (hf : Faithful m₀ m q) : Faithful m₀ m' q' := by
  induction h with
  | done => exact hf
  | load s m q a k tr r m' q' _ hr ih =>
    have hp := (hr.marks hq).1
    exact ih hq (hearLoad_marks hp ▸ hcov.2) (hf.load hp)
  | store s m q a val s' tr r m' q' _ hr ih =>
    have hp := (hr.marks hq).1
    exact ih hq (hearStore_marks hp ▸ hcov.2) (hf.store _ hp hcov.1)

/-- Only cells of accesses are marked. -/
theorem after_valid {k : Marks ℕ} (tr : List (Use Access))
    (hk : ∀ i, i ∈ k.read ∨ i ∈ k.written → Valid g i) (i : ℕ)
    (hi : i ∈ (k.after (Access.cells g) Heard tr).read ∨
      i ∈ (k.after (Access.cells g) Heard tr).written) : Valid g i := by
  induction tr generalizing k with
  | nil => exact hk i hi
  | cons u tr ih =>
    refine ih (fun j hj => ?_) hi
    cases u with
    | load a =>
      rcases hj with (hj | ⟨-, hj, -⟩) | hj
      · exact hk j (Or.inl hj)
      · exact cells_valid hj
      · exact hk j (Or.inr hj)
    | store a =>
      rcases hj with hj | hj | ⟨-, hj⟩
      · exact hk j (Or.inl hj)
      · exact hk j (Or.inr hj)
      · exact cells_valid hj

/-! ## Registers -/

theorem restored (f : R3000.Reg → Word) (l : List R3000.Reg) (hl : ∀ x ∈ l, x ≠ 0) (q : R3000.RegFile)
    {x : R3000.Reg} (hx : x ∈ l ∨ q x = f x) :
    ((l.map fun x => (x, f x)).foldl (fun g p => g.set p.1 p.2) q) x = f x := by
  induction l generalizing q with
  | nil => exact hx.resolve_left List.not_mem_nil
  | cons y l ih =>
    obtain ⟨hy, hl⟩ := List.forall_mem_cons.1 hl
    rw [List.map_cons, List.foldl_cons]
    refine ih hl _ ?_
    by_cases hxy : x = y
    · subst hxy
      exact Or.inr (R3000.RegFile.set_self q hy (f x))
    · rcases hx with hx | hx
      · exact Or.inl ((List.mem_cons.1 hx).resolve_left hxy)
      · exact Or.inr ((R3000.RegFile.set_ne q hxy (f y)).trans hx)

/-- What the caller sees of two sets of registers is the same. -/
structure SameVisible (r r' : Regs) : Prop where
  gpr : ∀ x ∈ visible, r.gpr x = r'.gpr x
  hi : r.hi = r'.hi
  lo : r.lo = r'.lo

theorem SameVisible.symm {r r' : Regs} (h : SameVisible r r') : SameVisible r' r :=
  ⟨fun x hx => (h.gpr x hx).symm, h.hi.symm, h.lo.symm⟩

theorem SameVisible.trans {r r' r'' : Regs} (h : SameVisible r r') (h' : SameVisible r' r'') :
    SameVisible r r'' :=
  ⟨fun x hx => (h.gpr x hx).trans (h'.gpr x hx), h.hi.trans h'.hi, h.lo.trans h'.lo⟩

theorem restore_visible (key : Word) (arm r t : Regs) (m : Cells) (q : Recorder) :
    SameVisible (restore (finalize key arm r m q) t) r := by
  refine ⟨fun x hx => ?_, rfl, rfl⟩
  have hzip : visible.zip (visible.map r.gpr) = visible.map fun x => (x, r.gpr x) := rfl
  have hgpr : (restore (finalize key arm r m q) t).gpr =
      (visible.zip (visible.map r.gpr)).foldl (fun g p => g.set p.1 p.2) t.gpr := rfl
  rw [hgpr, hzip]
  exact restored r.gpr visible (by decide) t.gpr (Or.inl hx)

/-! ## Replay and run -/

/-- A finished capture. -/
structure Captured (g : Geometry) (b : Body) (key : Word) (arm : Regs) (m₀ : Cells)
    (tr : List (Use Access)) (r : Regs) (m : Cells) (q : Recorder) (s : Shard) : Prop where
  run : ∃ q₀ : Recorder, Captures g b (b.start arm) m₀ q₀.reset tr r m q
  ret : datashardRet key arm r m q = some s

/-- The accesses that the recorder does not hear stay within what it knows. -/
def BytesCovered (g : Geometry) (tr : List (Use Access)) : Prop :=
  Covered (Access.cells g) Heard ⟨∅, ∅⟩ tr

/-- The body comes to the same from two sets of registers. -/
def SameFrom (g : Geometry) (b : Body) (arm t : Regs) (n : Cells) : Prop :=
  ∀ tr r n', b.Runs g (b.start arm) n tr r n' →
    ∃ tr' r', b.Runs g (b.start t) n tr' r' n' ∧ SameVisible r r'

/-- A replay leaves what the body would. -/
def ReplayExact (g : Geometry) (b : Body) (s : Shard) (t : Regs) (n : Cells) : Prop :=
  ∃ t' n', apply g s t n = some (t', n') ∧
    ∃ tr r, b.Runs g (b.start t) n tr r n' ∧ SameVisible t' r

variable {key : Word} {arm : Regs} {m₀ : Cells} {tr : List (Use Access)} {r : Regs} {m : Cells}
  {q : Recorder} {s : Shard}

theorem Captured.shard (h : Captured g b key arm m₀ tr r m q s) :
    q.poisoned = false ∧ s = finalize key arm r m q := by
  have hret := h.ret
  unfold datashardRet at hret
  split at hret
  · cases hret
  · split at hret
    · cases hret
    · rename_i hp
      exact ⟨Bool.eq_false_iff.2 hp, (Option.some.inj hret).symm⟩

/-- A replay is the run from the registers of the capture. -/
theorem Captured.replay (h : Captured g b key arm m₀ tr r m q s) (hcov : BytesCovered g tr)
    (hwr : Unbroken q.wrFlag) {t : Regs} {n : Cells} (hv : verify n s.rd = some true) :
    ∃ n' t', apply g s t n = some (t', n') ∧ SameVisible t' r ∧
      b.Runs g (b.start arm) n tr r n' := by
  obtain ⟨hp, rfl⟩ := h.shard
  obtain ⟨q₀, hcap⟩ := h.run
  have hmarks := (hcap.marks hp).2
  have hreset : q₀.reset.marks = ⟨∅, ∅⟩ := by
    simp [Recorder.marks, Recorder.reset]
  rw [hreset] at hmarks
  have hstart : Faithful m₀ m₀ q₀.reset :=
    ⟨fun i hi => Bool.noConfusion hi, fun i _ => rfl⟩
  have hfaith := hcap.faithful hp (hreset ▸ hcov) hstart
  have hvalid : ∀ i, q.rdFlag i = true ∨ q.wrFlag i = true → Valid g i := by
    intro i hi
    refine after_valid (k := ⟨∅, ∅⟩) tr (fun j hj => absurd hj (by simp)) i ?_
    rw [← hmarks]
    exact hi
  -- What was read is in the replay's memory as it was at the start of the capture.
  have hread : ∀ i, q.rdFlag i = true → n i = m₀ i := by
    intro i hi
    obtain ⟨p, hmem, hcell⟩ := (mem_buildRanges q.rdFlag q.rdOrig (i, q.rdOrig i)).2
      ⟨(hvalid i (Or.inl hi)).lt, hi, rfl⟩
    exact (verify_true hv hmem hcell).trans (hfaith.orig i hi)
  obtain ⟨n', hrun, hin, hout⟩ := hcap.runs.repeated hcov n
    (fun i hi _ => hread i (by rw [← hmarks] at hi; exact hi)) (fun i hi => absurd hi (by simp))
  rw [← hmarks] at hin hout
  -- The written ranges, put down one by one.
  have hcells : ∀ c, c ∈ (buildRanges q.wrFlag m).flatMap Range.cells ↔
      c.1 < space ∧ q.wrFlag c.1 = true ∧ c.2 = m c.1 := by
    intro c
    rw [List.mem_flatMap]
    exact mem_buildRanges q.wrFlag m c
  have hcons : Cells.Consistent ((buildRanges q.wrFlag m).flatMap Range.cells) := by
    intro k v w hvk hwk
    exact ((hcells (k, v)).1 hvk).2.2.trans ((hcells (k, w)).1 hwk).2.2.symm
  have hpaint : Cells.paint n ((buildRanges q.wrFlag m).flatMap Range.cells) = n' := by
    funext i
    by_cases hi : q.wrFlag i = true
    · rw [hin i hi]
      exact Cells.paint_inside hcons ((hcells (i, m i)).2 ⟨(hvalid i (Or.inr hi)).lt, hi, rfl⟩) n
    · rw [hout i hi]
      exact Cells.paint_outside n _ i fun v hv => hi ((hcells (i, v)).1 hv).2.1
  have hwrite : writeRanges g (buildRanges q.wrFlag m) n = some n' := by
    rw [← hpaint]
    refine writeRanges_eq n (fun p hp' k hlo hhi => ?_) fun p hp' hidx => hwr.range hp' hidx
    obtain ⟨v, hcell⟩ := exists_cell hlo hhi
    exact hvalid k (Or.inr ((mem_buildRanges q.wrFlag m (k, v)).1 ⟨p, hp', hcell⟩).2.1)
  refine ⟨n', restore (finalize key arm r m q) t, ?_, restore_visible key arm r t m q, hrun⟩
  show (writeRanges g (buildRanges q.wrFlag m) n >>= fun m => pure (restore _ t, m)) = _
  rw [hwrite]
  rfl

/-- A replay leaves what the body would leave exactly when the body comes to that from the registers of
the capture as well. -/
theorem replay_exact_iff {t : Regs} {n : Cells} {shards : List Shard}
    (h : Captured g b key arm m₀ tr r m q s) (henter : enter key t n shards = .replay s)
    (hcov : BytesCovered g tr) (hwr : Unbroken q.wrFlag) :
    ReplayExact g b s t n ↔ SameFrom g b arm t n := by
  obtain ⟨-, -, -, hv⟩ := enter_replay henter
  obtain ⟨n', t', happly, hsame, hrun⟩ := h.replay hcov hwr (t := t) hv
  constructor
  · rintro ⟨t'', n'', happly', tr', r', hrun', hsame'⟩ tr₁ r₁ n₁ hrun₁
    obtain ⟨rfl, rfl⟩ := hrun.unique hrun₁
    obtain ⟨rfl, rfl⟩ := Prod.mk.inj (Option.some.inj (happly.symm.trans happly'))
    exact ⟨tr', r', hrun', hsame.symm.trans hsame'⟩
  · intro hfrom
    obtain ⟨tr', r', hrun', hsame'⟩ := hfrom tr r n' hrun
    exact ⟨t', n', happly, tr', r', hrun', hsame.trans hsame'⟩

/-! ## Two bodies -/

theorem scan_none (byte : Cells) (n i : ℕ) : scan (fun _ => false) byte n i none = [] := by
  induction n generalizing i with
  | zero => rfl
  | succ n ih =>
    simp only [scan, Bool.false_eq_true, if_false, Option.toList_none, List.nil_append]
    exact ih (i + 1)

theorem buildRanges_none (byte : Cells) : buildRanges (fun _ => false) byte = [] :=
  scan_none byte space 0

/-- A shard without a read-set is replayed wherever its key and arguments are found. -/
theorem enter_of_unread {key : Word} {t : Regs} {n : Cells} {s : Shard} (hkey : s.key = key)
    (hargs : s.args = argRegs.map t.gpr) (hrd : s.rd = []) : enter key t n [s] = .replay s := by
  unfold enter
  rw [if_neg fun h => h.elim (fun h => h hkey) fun h => h hargs, hrd]
  rfl

theorem SameFrom.refl (g : Geometry) (b : Body) (t : Regs) (n : Cells) : SameFrom g b t t n :=
  fun tr r _ h => ⟨tr, r, h, fun _ _ => rfl, rfl, rfl⟩

def retail : Geometry := ⟨0x1FFFFF, Or.inl rfl⟩

/-- `$a0` is 80000000h, `$a1` is 42. -/
theorem blank_zero : (0 : R3000.Word) = 0 := rfl

def callRegs : Regs where
  gpr := ((⟨fun _ => 0, blank_zero⟩ : R3000.RegFile).set 4 0x80000000).set 5 42
  hi := 0
  lo := 0

def idle : Recorder := ⟨fun _ => false, fun _ => false, fun _ => 0, 0, false⟩

def callAccess (w : Width) (h : (callRegs.gpr 4).toNat % w.bytes = 0) : Access :=
  ⟨w, callRegs.gpr 4, by decide, h⟩

def storeWordNext (s : Regs × Bool) : Step (Regs × Bool) :=
  if h : s.2 = false ∧ Mapped (s.1.gpr 4) ∧ (s.1.gpr 4).toNat % 4 = 0 then
    .store ⟨.word, s.1.gpr 4, h.2.1, h.2.2⟩ (s.1.gpr 5) (s.1, true)
  else .done s.1

/-- `sw $a1, 0($a0)` -/
def storeWord : Body := ⟨Regs × Bool, fun r => (r, false), storeWordNext⟩

def loadByteNext (s : Regs × Bool) : Step (Regs × Bool) :=
  if h : s.2 = false ∧ Mapped (s.1.gpr 4) then
    .load ⟨.byte, s.1.gpr 4, h.2, Nat.mod_one _⟩ fun v => ({ s.1 with gpr := s.1.gpr.set 2 v }, true)
  else .done s.1

/-- `lbu $v0, 0($a0)` -/
def loadByte : Body := ⟨Regs × Bool, fun r => (r, false), loadByteNext⟩

def wordAccess : Access := callAccess .word (by decide)
def byteAccess : Access := callAccess .byte (by decide)

def wordNoted : Recorder := idle.reset.hearStore retail wordAccess

def wordStored : Cells :=
  Recording.put (Access.cells retail) wordAccess (wordAccess.stored retail 42) fun _ => 0

theorem storeWord_captured :
    Captured retail storeWord 0 callRegs (fun _ => 0) [.store wordAccess] callRegs wordStored wordNoted
      (finalize 0 callRegs callRegs wordStored wordNoted) := by
  have hstore : storeWordNext (callRegs, false) = .store wordAccess 42 (callRegs, true) := by
    unfold storeWordNext
    rw [dif_pos ⟨rfl, by decide, by decide⟩]
    rfl
  have hdone : storeWordNext (callRegs, true) = .done callRegs := by
    unfold storeWordNext
    rw [dif_neg fun hc => Bool.noConfusion hc.1]
  have hp : wordNoted.poisoned = false := by decide
  refine ⟨⟨idle, .store _ _ _ _ _ _ _ _ _ _ hstore (.done _ _ _ _ hdone)⟩, ?_⟩
  unfold datashardRet
  rw [if_neg fun h => h.elim (fun h => h rfl) fun h => h rfl, if_neg (by rw [hp]; decide)]

theorem storeWord_replayed :
    ReplayExact retail storeWord (finalize 0 callRegs callRegs wordStored wordNoted) callRegs
      fun _ => 9 :=
  (replay_exact_iff storeWord_captured
    (enter_of_unread rfl rfl (buildRanges_none _))
    ⟨Or.inl Width.noConfusion, trivial⟩ (by unfold Unbroken; decide)).2
    (SameFrom.refl retail storeWord callRegs fun _ => 9)

/-- The registers after `lbu $v0, 0($a0)` from a memory of one byte throughout. -/
def loaded (v : Byte) : Regs := { callRegs with gpr := callRegs.gpr.set 2 (ofBytes [v]) }

theorem loadByte_runs (v : Byte) :
    loadByteNext (callRegs, false) =
        .load byteAccess (fun v => ({ callRegs with gpr := callRegs.gpr.set 2 v }, true)) ∧
      loadByteNext (loaded v, true) = .done (loaded v) := by
  unfold loadByteNext
  constructor
  · rw [dif_pos ⟨rfl, by decide⟩]
    rfl
  · rw [dif_neg fun hc => Bool.noConfusion hc.1]

theorem loadByte_captured (v : Byte) :
    Captured retail loadByte 0 callRegs (fun _ => v) [.load byteAccess] (loaded v) (fun _ => v) idle
      (finalize 0 callRegs (loaded v) (fun _ => v) idle) := by
  obtain ⟨hload, hdone⟩ := loadByte_runs v
  refine ⟨⟨idle, .load _ _ _ _ _ _ _ _ _ hload (.done _ _ _ _ hdone)⟩, ?_⟩
  unfold datashardRet
  rw [if_neg fun h => h.elim (fun h => h rfl) fun h => h rfl, if_neg Bool.noConfusion]

/-- Captured over fives and replayed over sevens, the load answers five. -/
theorem replay_exact_fails :
    ¬∀ (g : Geometry) (b : Body) (key : Word) (arm : Regs) (m₀ : Cells) (tr : List (Use Access))
      (r : Regs) (m : Cells) (q : Recorder) (s : Shard) (t : Regs) (n : Cells) (shards : List Shard),
      Captured g b key arm m₀ tr r m q s → enter key t n shards = .replay s →
        ReplayExact g b s t n := by
  intro hall
  obtain ⟨t', n', happly, tr, r, hrun, hsame⟩ := hall _ _ _ _ _ _ _ _ _ _ callRegs (fun _ => 7) _
    (loadByte_captured 5) (enter_of_unread rfl rfl (buildRanges_none _))
  have hwr : (finalize 0 callRegs (loaded 5) (fun _ => 5) idle).wr = [] := buildRanges_none _
  have ht : (restore (finalize 0 callRegs (loaded 5) (fun _ => 5) idle) callRegs, fun _ => 7) =
      (t', n') := by
    unfold apply at happly
    rw [hwr] at happly
    exact Option.some.inj happly
  obtain ⟨ru, -⟩ := ((loadByte_captured 7).run.choose_spec.runs).unique hrun
  have hv := hsame.gpr 2 (by decide)
  rw [← (Prod.mk.inj ht).1, ru] at hv
  exact absurd hv (by decide)

end PsxRecomp.DataShards
