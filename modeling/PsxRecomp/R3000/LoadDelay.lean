import Mathlib
import PsxRecomp.R3000.Interpret

/-! The load delay the shim stands for: a machine that holds every load back for exactly one
instruction. The shim keeps nothing back for a load whose value the register already held, and
has one place for what it does keep; the two machines part exactly there. -/
namespace PsxRecomp.R3000
set_option autoImplicit false

variable {M : Type} (rt : Runtime M)

/-! ## The delay machine -/

/-- A machine with the load still to land, if there is one. -/
abbrev Delayed (M : Type) := State M × Option (Reg × Word)

/-- A load into a register other than `$zero`. -/
def isLoad (insn : Word) : Bool :=
  0x20#6 ≤ opField insn ∧ opField insn ≤ 0x26#6 ∧ rtField insn ≠ 0#5

/-- LWL and LWR merge into a load of the same register that is still under way. -/
def mergesInto (insn : Word) (r : Reg) : Bool :=
  (opField insn = 0x22#6 ∨ opField insn = 0x26#6) ∧ rtField insn = r

def land (p : Option (Reg × Word)) (s : State M) : State M :=
  match p with
  | none => s
  | some (r, v) => s.setGpr r v

/-- The load that is still under way while `insn` executes. -/
def Delayed.inFlight (insn : Word) (d : Delayed M) : Option (Reg × Word) :=
  d.2.filter fun p => !mergesInto insn p.1

/-- The machine as `insn` finds it. -/
def Delayed.sees (insn : Word) (d : Delayed M) : State M :=
  land (d.2.filter fun p => mergesInto insn p.1) d.1

def Delayed.drained (d : Delayed M) : State M := land d.2 d.1

/-- A load leaves its register as it was and its value under way; the load before it lands. -/
def delayAfter (insn : Word) (before : Word) (p : Option (Reg × Word)) (s : State M) : Delayed M :=
  if isLoad insn then
    (land p (s.setGpr (rtField insn) before), some (rtField insn, s.gpr (rtField insn)))
  else (land p s, none)

def delayStep (pc insn : Word) (d : Delayed M) : Outcome (Delayed M) :=
  (execPlain rt pc insn (d.sees insn)).map
    (delayAfter insn ((d.sees insn).gpr (rtField insn)) (d.inFlight insn))

/-! ## The shim as such a machine -/

/-- A load that has outlived its slot has landed for every instruction to come. -/
def Shimmed.view (m : Shimmed M) : Delayed M :=
  if m.2.armed then
    if m.2.age ≠ 0 then (m.1.setGpr m.2.rt m.2.val, none) else (m.1, some (m.2.rt, m.2.val))
  else (m.1, none)

/-- A load that changed nothing is not kept; one that follows a load of its own register
overwrites it. -/
def shimAfter (insn : Word) (before : Word) (p : Option (Reg × Word)) (s : State M) : Delayed M :=
  if isLoad insn ∧ s.gpr (rtField insn) ≠ before then
    ((land (p.filter fun q => q.1 ≠ rtField insn) s).setGpr (rtField insn) before,
      some (rtField insn, s.gpr (rtField insn)))
  else (land p s, none)

def shimStep (pc insn : Word) (v : Delayed M) : Outcome (Delayed M) :=
  (execPlain rt pc insn (v.sees insn)).map
    (shimAfter insn ((v.sees insn).gpr (rtField insn)) (v.inFlight insn))

theorem setGpr_zero (s : State M) (v : Word) : s.setGpr 0#5 v = s := by
  simp only [State.setGpr, RegFile.set_zero]

theorem ldDelayFlush_view (m : Shimmed M) : (ldDelayFlush m).1 = m.view.drained := by
  rw [ldDelayFlush, Shimmed.view]
  split_ifs <;> rfl

/-- What the pending record holds back. -/
def LdPend.held (p : LdPend) : Option (Reg × Word) := if p.armed then some (p.rt, p.val) else none

theorem ldBefore_view (insn : Word) (m : Shimmed M) :
    (ldBefore insn m).1 = m.view.sees insn ∧ (ldBefore insn m).2.held = m.view.inFlight insn ∧
      ((ldBefore insn m).2.armed = true → (ldBefore insn m).2.age ≠ 0) := by
  obtain ⟨s, r, v, age, armed⟩ := m
  cases armed with
  | false => exact ⟨rfl, rfl, nofun⟩
  | true =>
    by_cases hage : age = 0
    · subst hage
      by_cases hmerge : (opField insn = 0x22#6 ∨ opField insn = 0x26#6) ∧ rtField insn = r
      · have hm : mergesInto insn r = true := by simpa [mergesInto] using hmerge
        simp [ldBefore, hmerge, Shimmed.view, Delayed.sees, Delayed.inFlight, LdPend.held, land,
          Option.filter, hm]
      · have hm : mergesInto insn r = false := by
          rw [mergesInto, decide_eq_false_iff_not]
          exact hmerge
        simp [ldBefore, hmerge, Shimmed.view, Delayed.sees, Delayed.inFlight, LdPend.held, land,
          Option.filter, hm]
    · simp [ldBefore, hage, Shimmed.view, Delayed.sees, Delayed.inFlight, LdPend.held, land]

/-- A record that has outlived its slot lands in every view. -/
theorem view_landed (s : State M) (p : LdPend) (hage : p.armed = true → p.age ≠ 0) :
    Shimmed.view (s, p) = (land p.held s, none) := by
  rw [Shimmed.view, LdPend.held]
  cases harmed : p.armed with
  | false => simp [land]
  | true => simp [hage harmed, land]

/-- What the shim does after the decoder is the machine's step. -/
theorem after_view (pc insn before : Word) (hwindow : inBiosWindow pc = true) (s : State M)
    (p : LdPend) (hage : p.armed = true → p.age ≠ 0) :
    Shimmed.view (if isLd pc insn then ldAfter (rtField insn) before (s, p) else (s, p)) =
      shimAfter insn before p.held s := by
  have hld : isLd pc insn = isLoad insn := by simp [isLd, isLoad, hwindow]
  rw [hld, shimAfter]
  cases hload : isLoad insn with
  | false =>
    simp only [Bool.false_eq_true, if_false, false_and]
    exact view_landed s p hage
  | true =>
    by_cases hchanged : s.gpr (rtField insn) ≠ before
    · simp only [if_true, ldAfter, if_pos hchanged, true_and]
      cases harmed : p.armed with
      | false => simp [Shimmed.view, LdPend.held, harmed, land]
      | true =>
        by_cases hsame : p.rt = rtField insn
        · simp [Shimmed.view, LdPend.held, harmed, hsame, land, Option.filter]
        · by_cases hzero : p.rt = 0#5
          · rw [hzero] at hsame
            simp [Shimmed.view, LdPend.held, harmed, hzero, hsame, land, Option.filter,
              setGpr_zero]
          · simp [Shimmed.view, LdPend.held, harmed, hsame, hzero, land, Option.filter]
    · simp only [if_true, ldAfter, if_neg hchanged, true_and]
      exact view_landed s p hage

theorem Outcome.map_map {σ τ υ : Type} (f : σ → τ) (g : τ → υ) (o : Outcome σ) :
    (o.map f).map g = o.map (g ∘ f) := by
  cases o <;> rfl

/-- The shim is the machine that keeps back only loads that changed their register. -/
theorem execOnePlain_view (pc insn : Word) (hwindow : inBiosWindow pc = true) (m : Shimmed M) :
    (execOnePlain rt pc insn m).map Shimmed.view = shimStep rt pc insn m.view := by
  obtain ⟨hsees, hheld, hage⟩ := ldBefore_view insn m
  have hafter := fun s : State M => after_view pc insn ((ldBefore insn m).1.gpr (rtField insn)) hwindow s
    (ldBefore insn m).2 hage
  rw [shimStep, ← hsees, ← hheld]
  rw [execOnePlain, execOneFetched]
  cases hld : isLd pc insn with
  | false =>
    simp only [hld, Bool.false_eq_true, if_false, plainInner, Outcome.map_map] at hafter ⊢
    congr 1
    exact funext hafter
  | true =>
    simp only [hld, if_true, plainInner, Outcome.map_map] at hafter ⊢
    congr 1
    exact funext hafter

/-! ## Loads write one register -/

theorem load_frame (pc insn : Word) (s t : State M) (hload : isLoad insn = true)
    (h : execPlain rt pc insn s = .next t) (r : Reg) (hr : r ≠ rtField insn) :
    t.gpr r = s.gpr r := by
  simp only [isLoad, decide_eq_true_eq] at hload
  obtain ⟨hlo, hhi, -⟩ := hload
  have hop : opField insn = 0x20#6 ∨ opField insn = 0x21#6 ∨ opField insn = 0x22#6 ∨
      opField insn = 0x23#6 ∨ opField insn = 0x24#6 ∨ opField insn = 0x25#6 ∨
      opField insn = 0x26#6 := by
    generalize opField insn = op at hlo hhi
    revert op
    decide
  rw [execPlain] at h
  obtain hop | hop | hop | hop | hop | hop | hop := hop <;> rw [hop] at h
  · cases h
    exact RegFile.set_ne _ hr _
  · simp only [interpLh] at h
    split_ifs at h
    · cases h
    · cases h
      exact RegFile.set_ne _ hr _
  · cases h
    exact RegFile.set_ne _ hr _
  · simp only [interpLw] at h
    split_ifs at h
    · cases h
    · cases h
      exact RegFile.set_ne _ hr _
  · cases h
    exact RegFile.set_ne _ hr _
  · simp only [interpLhu] at h
    split_ifs at h
    · cases h
    · cases h
      exact RegFile.set_ne _ hr _
  · cases h
    exact RegFile.set_ne _ hr _

/-! ## One instruction in both machines -/

theorem setGpr_same {s : State M} {r : Reg} {v : Word} (h : s.gpr r = v) : s.setGpr r v = s := by
  rw [← h, State.setGpr, RegFile.set_same]

theorem setGpr_eq_iff {s : State M} {r : Reg} {v : Word} (hr : r ≠ 0#5) :
    s = s.setGpr r v ↔ s.gpr r = v := by
  refine ⟨fun h => ?_, fun h => (setGpr_same h).symm⟩
  rw [h]
  exact RegFile.set_self _ hr v

theorem setGpr_setGpr (s : State M) (r : Reg) (v w : Word) :
    (s.setGpr r v).setGpr r w = s.setGpr r w := by
  simp only [State.setGpr, RegFile.set_set]

theorem setGpr_comm (s : State M) {r q : Reg} (h : r ≠ q) (v w : Word) :
    (s.setGpr r v).setGpr q w = (s.setGpr q w).setGpr r v := by
  simp only [State.setGpr, RegFile.set_comm _ h]

/-- The shim holds the same load, or none where the load brought nothing new. -/
def Tracks (v d : Delayed M) : Prop :=
  v.1 = d.1 ∧ (v.2 = d.2 ∨ v.2 = none ∧ ∃ r, d.2 = some (r, d.1.gpr r))

/-- A load the shim holds changes its register. -/
def Fresh (v : Delayed M) : Prop := ∀ r w, v.2 = some (r, w) → r ≠ 0#5 ∧ w ≠ v.1.gpr r

def Targeted (d : Delayed M) : Prop := ∀ r w, d.2 = some (r, w) → r ≠ 0#5

/-- The two machines hand the instruction the same state, and hold corresponding loads. -/
theorem Tracks.seen {v d : Delayed M} (h : Tracks v d) (insn : Word) :
    v.sees insn = d.sees insn ∧
      Tracks (d.sees insn, v.inFlight insn) (d.sees insn, d.inFlight insn) := by
  obtain ⟨s, p⟩ := v
  obtain ⟨t, q⟩ := d
  obtain ⟨hst, hpq | ⟨hnone, r, hq⟩⟩ := h
  · cases hst
    cases hpq
    exact ⟨rfl, rfl, Or.inl rfl⟩
  · cases hst
    cases hnone
    simp only at hq
    subst hq
    cases hm : mergesInto insn r with
    | true =>
      have hsame : s.setGpr r (s.gpr r) = s := setGpr_same rfl
      simp [Delayed.sees, Delayed.inFlight, land, Option.filter, hm, hsame, Tracks]
    | false =>
      simp [Delayed.sees, Delayed.inFlight, land, Option.filter, hm, Tracks]

theorem Fresh.inFlight {v : Delayed M} (h : Fresh v) (insn : Word) :
    Fresh (v.sees insn, v.inFlight insn) := by
  obtain ⟨s, p⟩ := v
  intro r w hp
  cases p with
  | none => cases hp
  | some q =>
    cases hm : mergesInto insn q.1 with
    | true => simp [Delayed.inFlight, Option.filter, hm] at hp
    | false =>
      simp only [Delayed.inFlight, Option.filter, hm, Bool.not_false, if_true] at hp
      have hfresh := h r w hp
      simpa [Delayed.sees, Option.filter, hm, land] using hfresh

/-- The condition on one instruction behind a load of `r` that brought `u`: a register that
already held `u` still holds it afterwards, or is loaded again; any other register is not loaded
again at once. -/
def Clear (insn : Word) (a s : State M) (q : Option (Reg × Word)) : Prop :=
  ∀ r u, q = some (r, u) →
    if u = a.gpr r then isLoad insn = true ∨ s.gpr r = u
    else ¬ (isLoad insn = true ∧ rtField insn = r)

theorem isLoad_target {insn : Word} (h : isLoad insn = true) : rtField insn ≠ 0#5 := by
  simp only [isLoad, decide_eq_true_eq] at h
  exact h.2.2

section Step
variable {insn : Word} {a s : State M} {p q : Option (Reg × Word)}
variable (hpq : Tracks (a, p) (a, q)) (hfresh : Fresh (a, p)) (htarget : Targeted (a, q))
include hpq hfresh htarget

/-- Behind a load the shim holds back, any other instruction is clear. -/
theorem other_tracks_iff (hload : isLoad insn = false) :
    Tracks (land p s, none) (land q s, none) ↔ Clear insn a s q := by
  obtain ⟨-, hsame | ⟨hnone, r, hq⟩⟩ := hpq
  · simp only at hsame
    subst hsame
    refine iff_of_true ⟨rfl, Or.inl rfl⟩ fun r u hp => ?_
    have hnew := (hfresh r u hp).2
    rw [if_neg hnew, hload]
    simp
  · simp only at hnone hq
    subst hnone
    have hr : r ≠ 0#5 := htarget r _ hq
    subst hq
    constructor
    · rintro ⟨hland, -⟩ r' u hru
      cases hru
      rw [if_pos rfl]
      exact Or.inr ((setGpr_eq_iff hr).mp hland)
    · intro hclear
      have h := hclear r _ rfl
      rw [if_pos rfl, hload] at h
      have hkept := h.resolve_left Bool.false_ne_true
      exact ⟨(setGpr_same hkept).symm, Or.inl rfl⟩

variable (hload : isLoad insn = true)
variable (hframe : ∀ r, r ≠ rtField insn → s.gpr r = a.gpr r)
include hload hframe

/-- A load that changes its register. -/
theorem changing_tracks_iff :
    Tracks
        ((land (p.filter fun o => o.1 ≠ rtField insn) s).setGpr (rtField insn)
          (a.gpr (rtField insn)), some (rtField insn, s.gpr (rtField insn)))
        (land q (s.setGpr (rtField insn) (a.gpr (rtField insn))),
          some (rtField insn, s.gpr (rtField insn))) ↔ Clear insn a s q := by
  obtain ⟨-, hsame | ⟨hnone, r, hq⟩⟩ := hpq
  · simp only at hsame
    subst hsame
    cases p with
    | none => exact iff_of_true ⟨rfl, Or.inl rfl⟩ nofun
    | some o =>
      obtain ⟨r, w⟩ := o
      obtain ⟨hr, hnew⟩ := hfresh r w rfl
      by_cases hsame : r = rtField insn
      · subst hsame
        refine iff_of_false ?_ ?_
        · rintro ⟨hregs, -⟩
          simp only [land, Option.filter, ne_eq, not_true, decide_false, Bool.false_eq_true,
            if_false, setGpr_setGpr] at hregs
          have hval := congrArg (fun t : State M => t.gpr (rtField insn)) hregs
          simp only [State.setGpr, RegFile.set_self _ hr] at hval
          exact hnew hval.symm
        · intro hclear
          have h := hclear _ w rfl
          rw [if_neg hnew] at h
          exact h ⟨hload, rfl⟩
      · refine iff_of_true ⟨?_, Or.inl rfl⟩ fun r' u hru => ?_
        · simp only [land, Option.filter, ne_eq, hsame, not_false_eq_true, decide_true, if_true]
          exact setGpr_comm s hsame w _
        · cases hru
          rw [if_neg hnew]
          exact fun h => hsame h.2.symm
  · simp only at hnone hq
    subst hnone
    subst hq
    refine iff_of_true ⟨?_, Or.inl rfl⟩ fun r' u hru => ?_
    · have hkept : (s.setGpr (rtField insn) (a.gpr (rtField insn))).gpr r = a.gpr r := by
        by_cases hsame : r = rtField insn
        · rw [hsame]
          exact RegFile.set_self _ (isLoad_target hload) _
        · rw [State.setGpr, RegFile.set_ne _ hsame]
          exact hframe r hsame
      exact (setGpr_same hkept).symm
    · cases hru
      rw [if_pos rfl]
      exact Or.inl hload

/-- A load of the value its register already holds. -/
theorem unchanging_tracks_iff (hsame : s.gpr (rtField insn) = a.gpr (rtField insn)) :
    Tracks (land p s, none)
        (land q (s.setGpr (rtField insn) (a.gpr (rtField insn))),
          some (rtField insn, s.gpr (rtField insn))) ↔ Clear insn a s q := by
  rw [setGpr_same hsame]
  obtain ⟨-, hpq | ⟨hnone, r, hq⟩⟩ := hpq
  · simp only at hpq
    subst hpq
    cases p with
    | none => exact iff_of_true ⟨rfl, Or.inr ⟨rfl, _, rfl⟩⟩ nofun
    | some o =>
      obtain ⟨r, w⟩ := o
      obtain ⟨hr, hnew⟩ := hfresh r w rfl
      by_cases hown : r = rtField insn
      · subst hown
        refine iff_of_false ?_ ?_
        · rintro ⟨-, hheld | ⟨-, r', hheld⟩⟩
          · cases hheld
          · simp only [Option.some.injEq, Prod.mk.injEq] at hheld
            obtain ⟨hrr, hval⟩ := hheld
            subst hrr
            simp only [land, State.setGpr, RegFile.set_self _ hr] at hval
            exact hnew (hval.symm.trans hsame)
        · intro hclear
          have h := hclear _ w rfl
          rw [if_neg hnew] at h
          exact h ⟨hload, rfl⟩
      · refine iff_of_true ⟨rfl, Or.inr ⟨rfl, rtField insn, ?_⟩⟩ fun r' u hru => ?_
        · simp only [land, State.setGpr]
          rw [RegFile.set_ne _ (Ne.symm hown)]
        · cases hru
          rw [if_neg hnew]
          exact fun h => hown h.2.symm
  · simp only at hnone hq
    subst hnone
    subst hq
    have hkept : s.gpr r = a.gpr r := by
      by_cases hown : r = rtField insn
      · rw [hown, hsame]
      · exact hframe r hown
    have hland : land (some (r, a.gpr r)) s = s := setGpr_same hkept
    rw [hland]
    refine iff_of_true ⟨rfl, Or.inr ⟨rfl, _, rfl⟩⟩ fun r' u hru => ?_
    cases hru
    rw [if_pos rfl]
    exact Or.inl hload

end Step

/-- From corresponding loads the machines come out corresponding exactly under that condition. -/
theorem after_tracks_iff (insn : Word) (a s : State M) (p q : Option (Reg × Word))
    (hpq : Tracks (a, p) (a, q)) (hfresh : Fresh (a, p)) (htarget : Targeted (a, q))
    (hframe : isLoad insn = true → ∀ r, r ≠ rtField insn → s.gpr r = a.gpr r) :
    Tracks (shimAfter insn (a.gpr (rtField insn)) p s)
        (delayAfter insn (a.gpr (rtField insn)) q s) ↔ Clear insn a s q := by
  rw [shimAfter, delayAfter]
  cases hload : isLoad insn with
  | false =>
    simp only [Bool.false_eq_true, if_false, false_and]
    exact other_tracks_iff hpq hfresh htarget hload
  | true =>
    by_cases hchanged : s.gpr (rtField insn) ≠ a.gpr (rtField insn)
    · simp only [if_true, true_and, if_pos hchanged]
      exact changing_tracks_iff hpq hfresh htarget hload (hframe hload)
    · simp only [if_true, true_and, if_neg hchanged]
      exact unchanging_tracks_iff hpq hfresh htarget hload (hframe hload) (not_not.mp hchanged)

theorem shimAfter_fresh (insn before : Word) (p : Option (Reg × Word)) (s : State M) :
    Fresh (shimAfter insn before p s) := by
  intro r w hp
  rw [shimAfter] at hp ⊢
  split_ifs at hp ⊢ with hchanged
  · obtain ⟨hload, hne⟩ := hchanged
    have htarget := isLoad_target hload
    cases hp
    refine ⟨htarget, ?_⟩
    simp only [State.setGpr, RegFile.set_self _ htarget]
    exact hne

theorem delayAfter_targeted (insn before : Word) (p : Option (Reg × Word)) (s : State M) :
    Targeted (delayAfter insn before p s) := by
  intro r w hp
  rw [delayAfter] at hp
  split_ifs at hp with hload
  cases hp
  exact isLoad_target hload

/-! ## Runs -/

/-- What is observed of the shim: the state every instruction would find next, and the one a
flush leaves. -/
structure Agrees (m : Shimmed M) (d : Delayed M) : Prop where
  sees : ∀ insn, (ldBefore insn m).1 = d.sees insn
  flushed : (ldDelayFlush m).1 = d.drained

theorem nop_sees (d : Delayed M) : d.sees 0#32 = d.1 := by
  have hmerge : ∀ r : Reg, mergesInto 0#32 r = false := by decide
  obtain ⟨s, p⟩ := d
  cases p with
  | none => rfl
  | some o => simp [Delayed.sees, Option.filter, hmerge, land]

/-- Two loads that land alike, one of which changes its register. -/
theorem held_eq {s : State M} {p q : Option (Reg × Word)} (hfresh : Fresh (s, p))
    (htarget : Targeted (s, q)) (h : land p s = land q s) :
    p = q ∨ p = none ∧ ∃ r, q = some (r, s.gpr r) := by
  cases p with
  | none =>
    cases q with
    | none => exact Or.inl rfl
    | some o =>
      have hkept : s.gpr o.1 = o.2 := (setGpr_eq_iff (htarget o.1 o.2 rfl)).mp h
      exact Or.inr ⟨rfl, o.1, by rw [hkept]⟩
  | some o =>
    obtain ⟨r, w⟩ := o
    obtain ⟨hr, hnew⟩ := hfresh r w rfl
    cases q with
    | none => exact absurd ((setGpr_eq_iff hr).mp h.symm).symm hnew
    | some o' =>
      obtain ⟨r', u⟩ := o'
      have hval : (s.setGpr r w).gpr r = (s.setGpr r' u).gpr r :=
        congrArg (fun t : State M => t.gpr r) h
      simp only [State.setGpr, RegFile.set_self _ hr] at hval
      by_cases hsame : r = r'
      · subst hsame
        rw [RegFile.set_self _ hr] at hval
        rw [hval]
        exact Or.inl rfl
      · rw [RegFile.set_ne _ hsame] at hval
        exact absurd hval hnew

/-- A load held back that would change its register shows. -/
theorem agrees_iff {m : Shimmed M} {d : Delayed M} (hfresh : Fresh m.view) (htarget : Targeted d) :
    Agrees m d ↔ Tracks m.view d := by
  have hview : Agrees m d ↔
      (∀ insn, m.view.sees insn = d.sees insn) ∧ m.view.drained = d.drained := by
    constructor
    · intro h
      exact ⟨fun insn => (ldBefore_view insn m).1 ▸ h.sees insn, ldDelayFlush_view m ▸ h.flushed⟩
    · rintro ⟨hsees, hflushed⟩
      exact ⟨fun insn => (ldBefore_view insn m).1.trans (hsees insn),
        (ldDelayFlush_view m).trans hflushed⟩
  rw [hview]
  generalize m.view = v at hfresh ⊢
  obtain ⟨s, p⟩ := v
  obtain ⟨t, q⟩ := d
  constructor
  · rintro ⟨hsees, hflushed⟩
    have hregs : s = t := by
      have h := hsees 0#32
      rwa [nop_sees, nop_sees] at h
    subst hregs
    exact ⟨rfl, held_eq hfresh htarget hflushed⟩
  · intro h
    refine ⟨fun insn => (h.seen insn).1, ?_⟩
    obtain ⟨hst, hpq | ⟨hnone, r, hq⟩⟩ := h
    · simp only at hst hpq
      rw [hst, hpq]
    · simp only at hst hnone hq
      subst hst hnone hq
      exact (setGpr_same rfl).symm

/-- At every point of a run the shim shows what the delay machine shows, and both go on or stop
together. -/
def Exact : List (Word × Word) → Shimmed M → Delayed M → Prop
  | [], m, d => Agrees m d
  | (pc, insn) :: rest, m, d =>
    Agrees m d ∧
      match execOnePlain rt pc insn m, delayStep rt pc insn d with
      | .next m', .next d' => Exact rest m' d'
      | .next _, _ => False
      | _, .next _ => False
      | _, _ => True

theorem Exact.agrees {steps : List (Word × Word)} {m : Shimmed M} {d : Delayed M}
    (h : Exact rt steps m d) : Agrees m d := by
  cases steps with
  | nil => exact h
  | cons step rest => exact h.1

/-- Every completed instruction of a run is clear of the load before it. -/
def Meets : List (Word × Word) → Delayed M → Prop
  | [], _ => True
  | (pc, insn) :: rest, d =>
    match execPlain rt pc insn (d.sees insn), delayStep rt pc insn d with
    | .next s, .next d' => Clear insn (d.sees insn) s (d.inFlight insn) ∧ Meets rest d'
    | _, _ => True

theorem step_agrees_iff (pc insn : Word) (hwindow : inBiosWindow pc = true) {m m' : Shimmed M}
    {d d' : Delayed M} {s : State M} (hfresh : Fresh m.view) (htarget : Targeted d)
    (htracks : Tracks m.view d) (hs : execPlain rt pc insn (d.sees insn) = .next s)
    (hm : execOnePlain rt pc insn m = .next m') (hd : delayStep rt pc insn d = .next d') :
    Fresh m'.view ∧ Targeted d' ∧
      (Tracks m'.view d' ↔ Clear insn (d.sees insn) s (d.inFlight insn)) := by
  obtain ⟨hsees, hheld⟩ := htracks.seen insn
  have hview := execOnePlain_view rt pc insn hwindow m
  have hflight := hsees ▸ hfresh.inFlight insn
  have hbound : Targeted (d.sees insn, d.inFlight insn) := by
    intro r w hq
    exact htarget r w (Option.filter_eq_some_iff.mp hq).1
  rw [hm, shimStep, hsees, hs] at hview
  rw [delayStep, hs] at hd
  simp only [Outcome.map_next, Outcome.next.injEq] at hview hd
  rw [hview, ← hd]
  refine ⟨shimAfter_fresh _ _ _ _, delayAfter_targeted _ _ _ _, ?_⟩
  exact after_tracks_iff insn (d.sees insn) s _ _ hheld hflight hbound
    fun hload r hr => load_frame rt pc insn _ _ hload hs r hr

/-- The shim is an exact one-slot delay over a run if and only if no instruction right behind a
load meets one of its two blind spots. -/
theorem exact_iff_tracked (steps : List (Word × Word))
    (hwindow : ∀ i ∈ steps, inBiosWindow i.1 = true) (m : Shimmed M) (d : Delayed M)
    (hfresh : Fresh m.view) (htarget : Targeted d) (htracks : Tracks m.view d) :
    Exact rt steps m d ↔ Meets rt steps d := by
  induction steps generalizing m d with
  | nil => exact iff_of_true ((agrees_iff hfresh htarget).mpr htracks) trivial
  | cons step rest ih =>
    obtain ⟨pc, insn⟩ := step
    have hpc := hwindow (pc, insn) List.mem_cons_self
    have hrest := fun i hi => hwindow i (List.mem_cons_of_mem _ hi)
    have hagrees := (agrees_iff hfresh htarget).mpr htracks
    have hsees := (htracks.seen insn).1
    have hview := execOnePlain_view rt pc insn hpc m
    rw [shimStep, hsees] at hview
    rw [Exact, Meets, and_iff_right hagrees, delayStep]
    cases hs : execPlain rt pc insn (d.sees insn) with
    | next s =>
      rw [hs] at hview
      cases hm : execOnePlain rt pc insn m with
      | next m' =>
        have hd : delayStep rt pc insn d = .next
            (delayAfter insn ((d.sees insn).gpr (rtField insn)) (d.inFlight insn) s) := by
          rw [delayStep, hs, Outcome.map_next]
        obtain ⟨hfresh', htarget', hiff⟩ :=
          step_agrees_iff rt pc insn hpc hfresh htarget htracks hs hm hd
        simp only [Outcome.map_next]
        constructor
        · intro hexact
          have htracks' := (agrees_iff hfresh' htarget').mp (hexact.agrees rt)
          exact ⟨hiff.mp htracks', (ih hrest _ _ hfresh' htarget' htracks').mp hexact⟩
        · rintro ⟨hclear, hmeets⟩
          exact (ih hrest _ _ hfresh' htarget' (hiff.mpr hclear)).mpr hmeets
      | _ => rw [hm] at hview; cases hview
    | _ =>
      rw [hs] at hview
      cases hm : execOnePlain rt pc insn m with
      | next m' => rw [hm] at hview; cases hview
      | _ => exact Iff.rfl

/-- With nothing pending at the start. -/
theorem load_delay_exact_iff (steps : List (Word × Word))
    (hwindow : ∀ i ∈ steps, inBiosWindow i.1 = true) (s : State M) (p : LdPend)
    (hidle : p.armed = false) :
    Exact rt steps (s, p) (s, none) ↔ Meets rt steps (s, none) := by
  have hview : Shimmed.view (s, p) = (s, none) := by simp [Shimmed.view, hidle]
  apply exact_iff_tracked rt steps hwindow
  · rw [hview]
    exact nofun
  · exact nofun
  · rw [hview]
    exact ⟨rfl, Or.inl rfl⟩

/-- `lw $2,0($0)` and `addiu $2,$0,7` in its delay slot, where both the word and `$2` are zero. -/
def overwrittenSlot : List (Word × Word) := [(0xBFC00000, 0x8C020000), (0xBFC00004, 0x24020007)]

theorem equal_load_loses :
    ¬ Exact ramRuntime overwrittenSlot (State.boot fun _ => 0, LdPend.idle)
      (State.boot fun _ => 0, none) := by
  intro h
  have hlast := h.2.2
  have hreg := congrArg (fun s : State Ram => s.gpr 2#5) hlast.flushed
  revert hreg
  decide

/-- `lw $2,0($0)` and `addu $3,$2,$2` in its delay slot, where the word is five. -/
def readingSlot : List (Word × Word) := [(0xBFC00000, 0x8C020000), (0xBFC00004, 0x00421821)]

def fiveAtZero : Ram := fun addr => if addr = 0 then 5 else 0

theorem load_delay_exact_reading :
    Exact ramRuntime readingSlot (State.boot fiveAtZero, LdPend.idle)
      (State.boot fiveAtZero, none) := by
  have hwindow : ∀ i ∈ readingSlot, inBiosWindow i.1 = true := by
    intro i hi
    rcases List.mem_cons.1 hi with rfl | hi
    · rfl
    · rw [List.mem_singleton.1 hi]
      rfl
  refine (load_delay_exact_iff ramRuntime readingSlot hwindow (State.boot fiveAtZero)
    LdPend.idle rfl).mpr ?_
  refine ⟨nofun, ?_, trivial⟩
  intro r u hru
  cases hru
  decide

end PsxRecomp.R3000
