import Mathlib

/-! Repeating a pass until it changes nothing. What every pass preserves holds of the states the
passes start from and of the result; a measure that grows with every change and stays below a
bound makes the repetition end. -/
namespace PsxRecomp.Saturate
set_option autoImplicit false

variable {σ α : Type*}

/-! ## A fold that may run out -/

section Fold

variable {f : σ → α → Option σ} {P : σ → Prop} {s t : σ}

theorem foldlM_inv {xs : List α}
    (hstep : ∀ x ∈ xs, ∀ s t, P s → f s x = some t → P t) (hs : P s)
    (h : xs.foldlM f s = some t) : P t := by
  induction xs generalizing s with
  | nil =>
    rw [List.foldlM_nil] at h
    exact Option.some.inj h ▸ hs
  | cons x xs ih =>
    rw [List.foldlM_cons] at h
    obtain ⟨u, hu, ht⟩ := Option.bind_eq_some_iff.1 h
    have hx := hstep x List.mem_cons_self s u hs hu
    exact ih (fun y hy => hstep y (List.mem_cons_of_mem x hy)) hx ht

theorem foldlM_total {xs : List α} (hstep : ∀ x ∈ xs, ∀ s, P s → ∃ t, f s x = some t ∧ P t)
    (hs : P s) : ∃ t, xs.foldlM f s = some t ∧ P t := by
  induction xs generalizing s with
  | nil => exact ⟨s, List.foldlM_nil, hs⟩
  | cons x xs ih =>
    obtain ⟨u, hu, hPu⟩ := hstep x List.mem_cons_self s hs
    obtain ⟨t, ht, hPt⟩ := ih (fun y hy => hstep y (List.mem_cons_of_mem x hy)) hPu
    refine ⟨t, ?_, hPt⟩
    rw [List.foldlM_cons, hu]
    exact ht

/-- The state in which a fold meets one of the members of its list. -/
theorem foldlM_split {pre post : List α} {x : α}
    (h : (pre ++ x :: post).foldlM f s = some t) :
    ∃ u v, pre.foldlM f s = some u ∧ f u x = some v ∧ post.foldlM f v = some t := by
  rw [List.foldlM_append] at h
  obtain ⟨u, hu, h⟩ := Option.bind_eq_some_iff.1 h
  rw [List.foldlM_cons] at h
  obtain ⟨v, hv, h⟩ := Option.bind_eq_some_iff.1 h
  exact ⟨u, v, hu, hv, h⟩

/-- An invariant whose step may look at the fold up to the member it takes. -/
theorem foldlM_prefix_inv {xs : List α}
    (hstep : ∀ pre x post u v, xs = pre ++ x :: post → pre.foldlM f s = some u → P u →
      f u x = some v → P v) (hs : P s) (h : xs.foldlM f s = some t) : P t := by
  induction xs using List.reverseRecOn generalizing t with
  | nil =>
    rw [List.foldlM_nil] at h
    exact Option.some.inj h ▸ hs
  | append_singleton xs x ih =>
    obtain ⟨u, v, hu, hv, hpost⟩ := foldlM_split h
    rw [List.foldlM_nil] at hpost
    obtain rfl := Option.some.inj hpost
    refine hstep xs x [] u v rfl hu (ih (fun pre y post u v hxs => ?_) hu) hv
    exact hstep pre y (post ++ [x]) u v (by rw [hxs, List.append_assoc, List.cons_append])

end Fold

/-! ## The repetition -/

/-- `pass` over and over, up to the first that leaves `changed` false. -/
def saturate (pass : σ → Option σ) (changed : σ → Bool) : ℕ → σ → Option σ
  | 0, _ => none
  | n + 1, s => (pass s).bind fun t => if changed t then saturate pass changed n t else some t

/-- The states a pass of the repetition from `s` starts from. -/
inductive Starts (pass : σ → Option σ) (changed : σ → Bool) (s : σ) : σ → Prop
  | first : Starts pass changed s s
  | next {t u : σ} : Starts pass changed s t → pass t = some u → changed u = true →
      Starts pass changed s u

variable {pass : σ → Option σ} {changed : σ → Bool} {P : σ → Prop} {s t u : σ} {n : ℕ}

theorem Starts.trans (hst : Starts pass changed s t) (htu : Starts pass changed t u) :
    Starts pass changed s u := by
  induction htu with
  | first => exact hst
  | next _ hp hc ih => exact ih.next hp hc

theorem Starts.inv (hpass : ∀ s t, P s → pass s = some t → P t) (hs : P s)
    (h : Starts pass changed s t) : P t := by
  induction h with
  | first => exact hs
  | next _ hp _ ih => exact hpass _ _ ih hp

/-- The last pass of a repetition that ends. -/
theorem saturate_last (h : saturate pass changed n s = some t) :
    ∃ u, Starts pass changed s u ∧ pass u = some t ∧ changed t = false := by
  induction n generalizing s with
  | zero => cases h
  | succ n ih =>
    unfold saturate at h
    obtain ⟨v, hv, h⟩ := Option.bind_eq_some_iff.1 h
    split at h
    case isTrue hc =>
      obtain ⟨u, hu, hlast⟩ := ih h
      exact ⟨u, (Starts.first.next hv hc).trans hu, hlast⟩
    case isFalse hc =>
      obtain rfl := Option.some.inj h
      exact ⟨s, Starts.first, hv, Bool.eq_false_iff.2 hc⟩

theorem saturate_inv (hpass : ∀ s t, P s → pass s = some t → P t) (hs : P s)
    (h : saturate pass changed n s = some t) : P t := by
  obtain ⟨u, hu, hp, _⟩ := saturate_last h
  exact hpass u t (hu.inv hpass hs) hp

/-- A measure that every change raises, up to a bound, is fuel enough. -/
theorem saturate_total {μ : σ → ℕ} {B : ℕ} (hbound : ∀ s, P s → μ s ≤ B)
    (hpass : ∀ s, P s → ∃ t, pass s = some t ∧ P t ∧ (changed t = true → μ s < μ t))
    (hs : P s) (hn : B - μ s < n) : ∃ t, saturate pass changed n s = some t := by
  induction n generalizing s with
  | zero => omega
  | succ n ih =>
    obtain ⟨t, ht, hPt, hμ⟩ := hpass s hs
    unfold saturate
    rw [ht, Option.bind_some]
    by_cases hc : changed t = true
    · rw [if_pos hc]
      have hlt := hμ hc
      have hle := hbound t hPt
      exact ih hPt (by omega)
    · rw [if_neg hc]
      exact ⟨t, rfl⟩

end PsxRecomp.Saturate
