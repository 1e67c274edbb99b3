import Mathlib

/-! A queue of elements to enter, and the set of those seen. Entering an element may mark others as
seen without entering them, which is where such a search differs from a closure. -/
namespace PsxRecomp.Worklist
set_option autoImplicit false

/-- What may be entered, what is then marked, and what goes on the queue. -/
structure Search (α : Type) where
  allow : α → Bool
  mark : α → List α
  next : α → List α

/-- The elements seen, and those entered in their order. -/
structure Trace (α : Type) where
  seen : Finset α
  entered : List α

variable {α : Type} [DecidableEq α] (S : Search α)

def Search.enter (a : α) (t : Trace α) : Trace α where
  seen := insert a t.seen ∪ (S.mark a).toFinset
  entered := t.entered ++ [a]

theorem mem_enter {a b : α} {t : Trace α} :
    b ∈ (S.enter a t).seen ↔ b = a ∨ b ∈ t.seen ∨ b ∈ S.mark a := by
  simp [Search.enter]

variable [Fintype α]

theorem enter_smaller {a : α} {t : Trace α} (h : a ∉ t.seen) :
    (Finset.univ \ (S.enter a t).seen).card < (Finset.univ \ t.seen).card := by
  apply Finset.card_lt_card
  constructor
  · intro b hb
    simp only [Finset.mem_sdiff, Finset.mem_univ, true_and, mem_enter, not_or] at hb ⊢
    exact hb.2.1
  · intro hsub
    have hmem := hsub (Finset.mem_sdiff.mpr ⟨Finset.mem_univ a, h⟩)
    simp [mem_enter] at hmem

def Search.run {α : Type} [DecidableEq α] [Fintype α] (S : Search α) : List α → Trace α → Trace α
  | [], t => t
  | a :: work, t =>
    if a ∉ t.seen ∧ S.allow a = true then S.run (work ++ S.next a) (S.enter a t)
    else S.run work t
termination_by work t => ((Finset.univ \ t.seen).card, work.length)
decreasing_by
  · exact Prod.Lex.left _ _ (enter_smaller S (by tauto))
  · exact Prod.Lex.right _ (Nat.lt_succ_self _)

/-- The search from one element. -/
def Search.from (root : α) : Trace α := S.run [root] { seen := ∅, entered := [] }

theorem run_nil (t : Trace α) : S.run [] t = t := by rw [Search.run]

theorem run_enter {a : α} {work : List α} {t : Trace α} (hnew : a ∉ t.seen) (hallow : S.allow a = true) :
    S.run (a :: work) t = S.run (work ++ S.next a) (S.enter a t) := by
  rw [Search.run, if_pos ⟨hnew, hallow⟩]

theorem run_skip {a : α} {work : List α} {t : Trace α} (h : a ∈ t.seen ∨ S.allow a = false) :
    S.run (a :: work) t = S.run work t := by
  rw [Search.run, if_neg]
  rintro ⟨hnew, hallow⟩
  rcases h with h | h
  · exact hnew h
  · rw [hallow] at h
    cases h

/-- A run cut off after some steps. -/
def Search.steps {α : Type} [DecidableEq α] (S : Search α) : ℕ → List α → Trace α → Option (Trace α)
  | _, [], t => some t
  | 0, _ :: _, _ => none
  | n + 1, a :: work, t =>
    if a ∉ t.seen ∧ S.allow a = true then S.steps n (work ++ S.next a) (S.enter a t)
    else S.steps n work t

/-- What the two steps preserve holds when the queue is empty. -/
theorem run_inv {P : List α → Trace α → Prop}
    (hskip : ∀ a work t, a ∈ t.seen ∨ S.allow a = false → P (a :: work) t → P work t)
    (henter : ∀ a work t, a ∉ t.seen → S.allow a = true → P (a :: work) t →
      P (work ++ S.next a) (S.enter a t))
    (work : List α) (t : Trace α) (h : P work t) : P [] (S.run work t) := by
  induction work, t using Search.run.induct S with
  | case1 t =>
    rw [run_nil]
    exact h
  | case2 a work t hcond ih =>
    rw [run_enter S hcond.1 hcond.2]
    exact ih (henter a work t hcond.1 hcond.2 h)
  | case3 a work t hcond ih =>
    have hseen : a ∈ t.seen ∨ S.allow a = false := by
      by_contra hno
      simp only [not_or, Bool.not_eq_false] at hno
      exact hcond hno
    rw [run_skip S hseen]
    exact ih (hskip a work t hseen h)

/-- What is queued or follows from an entered element is seen or not to be entered. -/
structure Underway (roots work : List α) (t : Trace α) : Prop where
  roots : ∀ r ∈ roots, S.allow r = true → r ∈ t.seen ∨ r ∈ work
  allowed : ∀ a ∈ t.entered, S.allow a = true
  seen : ∀ a ∈ t.entered, a ∈ t.seen
  marked : ∀ a ∈ t.entered, ∀ b ∈ S.mark a, b ∈ t.seen
  next : ∀ a ∈ t.entered, ∀ b ∈ S.next a, S.allow b = true → b ∈ t.seen ∨ b ∈ work
  origin : ∀ b ∈ t.seen, b ∈ t.entered ∨ ∃ a ∈ t.entered, b ∈ S.mark a

theorem underway_end (roots : List α) :
    Underway S roots [] (S.run roots { seen := ∅, entered := [] }) := by
  refine run_inv S (P := Underway S roots) ?_ ?_ _ _ ?_
  · intro a work t hno h
    have hdrop : ∀ b, S.allow b = true → b ∈ t.seen ∨ b ∈ a :: work → b ∈ t.seen ∨ b ∈ work := by
      intro b hb hmem
      simp only [List.mem_cons] at hmem
      rcases hmem with hmem | rfl | hmem
      · exact .inl hmem
      · rcases hno with hno | hno
        · exact .inl hno
        · rw [hb] at hno
          cases hno
      · exact .inr hmem
    exact ⟨fun r hr hallow => hdrop r hallow (h.roots r hr hallow), h.allowed, h.seen, h.marked,
      fun e he b hb hallow => hdrop b hallow (h.next e he b hb hallow), h.origin⟩
  · intro a work t hnew hallow h
    have hgrow : ∀ b, b ∈ t.seen ∨ b ∈ a :: work → b ∈ (S.enter a t).seen ∨ b ∈ work ++ S.next a := by
      intro b hmem
      rw [mem_enter, List.mem_append]
      simp only [List.mem_cons] at hmem
      tauto
    have hsplit : ∀ e, e ∈ (S.enter a t).entered ↔ e ∈ t.entered ∨ e = a := by
      intro e
      simp [Search.enter]
    refine ⟨fun r hr hr' => hgrow r (h.roots r hr hr'), ?_, ?_, ?_, ?_, ?_⟩
    · intro e he
      rcases (hsplit e).mp he with he | rfl
      · exact h.allowed e he
      · exact hallow
    · intro e he
      rw [mem_enter]
      rcases (hsplit e).mp he with he | rfl
      · exact .inr (.inl (h.seen e he))
      · exact .inl rfl
    · intro e he b hb
      rw [mem_enter]
      rcases (hsplit e).mp he with he | rfl
      · exact .inr (.inl (h.marked e he b hb))
      · exact .inr (.inr hb)
    · intro e he b hb hb'
      rcases (hsplit e).mp he with he | rfl
      · exact hgrow b (h.next e he b hb hb')
      · exact .inr (List.mem_append_right _ hb)
    · intro b hb
      rw [mem_enter] at hb
      rcases hb with rfl | hb | hb
      · exact .inl ((hsplit b).mpr (.inr rfl))
      · rcases h.origin b hb with hb | ⟨e, he, hmark⟩
        · exact .inl ((hsplit b).mpr (.inl hb))
        · exact .inr ⟨e, (hsplit e).mpr (.inl he), hmark⟩
      · exact .inr ⟨a, (hsplit a).mpr (.inr rfl), hb⟩
  · exact ⟨fun r hr _ => .inr hr, fun _ h => absurd h List.not_mem_nil, fun _ h => absurd h List.not_mem_nil,
      fun _ h => absurd h List.not_mem_nil, fun _ h => absurd h List.not_mem_nil,
      fun _ h => absurd h (Finset.notMem_empty _)⟩

variable {S}

/-- What was entered stays so. -/
theorem entered_grows {a : α} (work : List α) (t : Trace α) (h : a ∈ t.entered) : a ∈ (S.run work t).entered :=
  run_inv S (P := fun _ t => a ∈ t.entered) (fun _ _ _ _ h => h)
    (fun _ _ _ _ _ h => List.mem_append_left _ h) work t h

/-- The first root is entered. -/
theorem root_entered {root : α} (h : S.allow root = true) : root ∈ (S.from root).entered := by
  have hstart : S.from root = S.run (S.next root) (S.enter root { seen := ∅, entered := [] }) := by
    unfold Search.from
    rw [run_enter S (Finset.notMem_empty root) h, List.nil_append]
  rw [hstart]
  exact entered_grows _ _ (by simp [Search.enter])

end PsxRecomp.Worklist
