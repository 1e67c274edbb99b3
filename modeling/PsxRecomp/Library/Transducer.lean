import Mathlib

/-! Deterministic machines that emit events: a step maps a state to the next state and the
events it emits, oldest first. Steps compose, iterate, and act on one component of a family.
A flow is a step for every duration whose durations add; cutting a flow never shows. -/
namespace PsxRecomp.Transducer
set_option autoImplicit false

/-! ## Steps and their composition -/

/-- The next state and the events emitted on the way there. -/
abbrev Step (σ ε : Type*) := σ → σ × List ε

variable {σ τ ε ι : Type*}

def skip : Step σ ε := fun s => (s, [])

/-- First `f`, then `g`; the events of `f` come first. -/
def seq (f g : Step σ ε) : Step σ ε := fun s => ((g (f s).1).1, (f s).2 ++ (g (f s).1).2)

@[simp] theorem skip_apply (s : σ) : (skip : Step σ ε) s = (s, []) := rfl

@[simp] theorem seq_fst (f g : Step σ ε) (s : σ) : (seq f g s).1 = (g (f s).1).1 := rfl

@[simp] theorem seq_snd (f g : Step σ ε) (s : σ) : (seq f g s).2 = (f s).2 ++ (g (f s).1).2 := rfl

theorem seq_assoc (f g h : Step σ ε) : seq (seq f g) h = seq f (seq g h) := by
  funext s
  simp only [seq, List.append_assoc]

@[simp] theorem skip_seq (f : Step σ ε) : seq skip f = f := by
  funext s
  simp [seq, skip]

@[simp] theorem seq_skip (f : Step σ ε) : seq f skip = f := by
  funext s
  simp [seq, skip]

theorem seq_quiet (f g : Step σ ε) {s t : σ} (h : f s = (t, [])) : seq f g s = g t := by
  simp [seq, h]

/-! ## Iteration -/

def iterate (f : Step σ ε) : ℕ → Step σ ε
  | 0 => skip
  | n + 1 => seq f (iterate f n)

@[simp] theorem iterate_zero (f : Step σ ε) : iterate f 0 = skip := rfl

theorem iterate_succ (f : Step σ ε) (n : ℕ) : iterate f (n + 1) = seq f (iterate f n) := rfl

@[simp] theorem iterate_one (f : Step σ ε) : iterate f 1 = f := by
  rw [iterate_succ, iterate_zero, seq_skip]

theorem iterate_add (f : Step σ ε) (m n : ℕ) :
    iterate f (m + n) = seq (iterate f m) (iterate f n) := by
  induction m with
  | zero => rw [Nat.zero_add, iterate_zero, skip_seq]
  | succ m ih => rw [Nat.succ_add, iterate_succ, iterate_succ, ih, seq_assoc]

theorem iterate_succ_last (f : Step σ ε) (n : ℕ) :
    iterate f (n + 1) = seq (iterate f n) f := by
  rw [iterate_add, iterate_one]

/-! ## Flows -/

/-- A step for every duration, such that durations add. -/
structure IsFlow (adv : ℕ → Step σ ε) : Prop where
  zero : adv 0 = skip
  add : ∀ m n, adv (m + n) = seq (adv m) (adv n)

/-- Run a flow through a list of consecutive durations. -/
def runCuts (adv : ℕ → Step σ ε) : List ℕ → Step σ ε
  | [] => skip
  | n :: ns => seq (adv n) (runCuts adv ns)

theorem IsFlow.cuts {adv : ℕ → Step σ ε} (h : IsFlow adv) (ns : List ℕ) :
    runCuts adv ns = adv ns.sum := by
  induction ns with
  | nil => exact h.zero.symm
  | cons n ns ih => rw [runCuts, ih, List.sum_cons, h.add]

/-! ## Jumping over quiet intervals -/

/-- Nothing is emitted during the next `n` steps. -/
def QuietFor (f : Step σ ε) (n : ℕ) (s : σ) : Prop := (iterate f n s).2 = []

theorem QuietFor.before {f : Step σ ε} {m n : ℕ} {s : σ} (h : QuietFor f (m + n) s) :
    QuietFor f m s := by
  rw [QuietFor, iterate_add, seq_snd, List.append_eq_nil_iff] at h
  exact h.1

/-- A family of jumps that may be cut anywhere inside an interval without events. -/
def AdditiveWhenQuiet (adv : ℕ → Step σ ε) (Good : σ → Prop) : Prop :=
  ∀ s m n, Good s → 0 < m → 0 < n → QuietFor (adv 1) (m + n) s →
    adv (m + n) s = seq (adv m) (adv n) s

/-- Over a quiet interval a jump is the unit steps. -/
theorem jump_quiet {adv : ℕ → Step σ ε} {Good : σ → Prop} (hadd : AdditiveWhenQuiet adv Good)
    {n : ℕ} (hn : 0 < n) {s : σ} (hs : Good s) (hq : QuietFor (adv 1) n s) :
    adv n s = iterate (adv 1) n s := by
  induction n with
  | zero => exact absurd hn (Nat.lt_irrefl 0)
  | succ n ih =>
    rcases Nat.eq_zero_or_pos n with rfl | hpos
    · rw [Nat.zero_add, iterate_one]
    · rw [hadd s n 1 hs hpos Nat.one_pos hq, iterate_succ_last]
      simp only [seq, ih hpos hq.before]

/-! ## Acting on one component of a family -/

variable [DecidableEq ι]

/-- Let `f` act on component `i` of a family of states. -/
def onIndex (i : ι) (f : Step σ ε) : Step (ι → σ) ε :=
  fun s => (Function.update s i (f (s i)).1, (f (s i)).2)

theorem onIndex_fst_same (i : ι) (f : Step σ ε) (s : ι → σ) :
    (onIndex i f s).1 i = (f (s i)).1 := by
  simp [onIndex]

theorem onIndex_fst_ne {i j : ι} (h : j ≠ i) (f : Step σ ε) (s : ι → σ) :
    (onIndex i f s).1 j = s j := by
  simp [onIndex, Function.update_of_ne h]

@[simp] theorem onIndex_snd (i : ι) (f : Step σ ε) (s : ι → σ) :
    (onIndex i f s).2 = (f (s i)).2 := rfl

/-- One pass over a list of components, each moved by its own step. -/
def sweep (f : ι → Step σ ε) : List ι → Step (ι → σ) ε
  | [] => skip
  | i :: is => seq (onIndex i (f i)) (sweep f is)

theorem sweep_fst_of_not_mem (f : ι → Step σ ε) {is : List ι} {j : ι} (hj : j ∉ is)
    (s : ι → σ) : (sweep f is s).1 j = s j := by
  induction is generalizing s with
  | nil => rfl
  | cons i is ih =>
    rw [List.mem_cons, not_or] at hj
    rw [sweep, seq_fst, ih hj.2, onIndex_fst_ne hj.1]

/-- A component on the list is moved once, by its own step, whatever the others do. -/
theorem sweep_fst_of_mem (f : ι → Step σ ε) {is : List ι} (hn : is.Nodup) {j : ι} (hj : j ∈ is)
    (s : ι → σ) : (sweep f is s).1 j = (f j (s j)).1 := by
  induction is generalizing s with
  | nil => cases hj
  | cons i is ih =>
    rw [List.nodup_cons] at hn
    rw [sweep, seq_fst]
    by_cases h : j = i
    · subst h
      rw [sweep_fst_of_not_mem f hn.1, onIndex_fst_same]
    · have hj' : j ∈ is := (List.mem_cons.mp hj).resolve_left h
      rw [ih hn.2 hj', onIndex_fst_ne h]

/-- Events that carry the component they come from: what a sweep shows of component `j` is
exactly what its own step emits. -/
theorem sweep_filter_of_not_mem (f : ι → Step σ ε) (tag : ε → ι)
    (htag : ∀ i s, ∀ e ∈ (f i s).2, tag e = i) {is : List ι} {j : ι} (hj : j ∉ is) (s : ι → σ) :
    (sweep f is s).2.filter (fun e => tag e = j) = [] := by
  induction is generalizing s with
  | nil => rfl
  | cons i is ih =>
    rw [List.mem_cons, not_or] at hj
    rw [sweep, seq_snd, List.filter_append, ih hj.2, List.append_nil, List.filter_eq_nil_iff]
    intro e he
    rw [htag i _ e he, decide_eq_true_eq]
    exact fun h => hj.1 h.symm

theorem sweep_filter_of_mem (f : ι → Step σ ε) (tag : ε → ι)
    (htag : ∀ i s, ∀ e ∈ (f i s).2, tag e = i) {is : List ι} (hn : is.Nodup) {j : ι}
    (hj : j ∈ is) (s : ι → σ) :
    (sweep f is s).2.filter (fun e => tag e = j) = (f j (s j)).2 := by
  induction is generalizing s with
  | nil => cases hj
  | cons i is ih =>
    rw [List.nodup_cons] at hn
    rw [sweep, seq_snd, List.filter_append]
    by_cases h : j = i
    · subst h
      rw [sweep_filter_of_not_mem f tag htag hn.1, List.append_nil, onIndex_snd,
        List.filter_eq_self]
      exact fun e he => decide_eq_true (htag j _ e he)
    · have hj' : j ∈ is := (List.mem_cons.mp hj).resolve_left h
      rw [ih hn.2 hj', onIndex_fst_ne h]
      have hnil : (onIndex i (f i) s).2.filter (fun e => tag e = j) = [] := by
        rw [List.filter_eq_nil_iff]
        intro e he
        rw [htag i _ e he, decide_eq_true_eq]
        exact fun h' => h h'.symm
      rw [hnil, List.nil_append]

end PsxRecomp.Transducer
