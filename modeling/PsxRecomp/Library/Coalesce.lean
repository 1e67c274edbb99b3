import Mathlib

/-! Greedy coalescing of a list of claims. Each claim is compared with those kept so far: it is
dropped as a duplicate of one of them, reported as clashing with one of them, or kept. Where
nothing is reported no two claims of the whole list clash, whatever their order. -/
namespace PsxRecomp.Coalesce
set_option autoImplicit false

variable {α ε : Type*}

/-- What a claim is to one kept before it. -/
inductive Verdict (ε : Type*)
  | apart
  | same
  | clash (e : ε)

/-- The first verdict other than `apart`. -/
def scan (verdict : α → α → Verdict ε) (x : α) : List α → Verdict ε
  | [] => .apart
  | k :: ks => match verdict k x with
    | .apart => scan verdict x ks
    | .same => .same
    | .clash e => .clash e

structure Progress (α ε : Type*) where
  kept : List α
  errors : List ε

def step (reject : α → Option ε) (verdict : α → α → Verdict ε) (s : Progress α ε) (x : α) :
    Progress α ε :=
  match reject x with
  | some e => { s with errors := s.errors ++ [e] }
  | none => match scan verdict x s.kept with
    | .apart => { s with kept := s.kept ++ [x] }
    | .same => s
    | .clash e => { s with errors := s.errors ++ [e] }

def coalesce (reject : α → Option ε) (verdict : α → α → Verdict ε) (xs : List α) : Progress α ε :=
  xs.foldl (step reject verdict) { kept := [], errors := [] }

theorem coalesce_concat (reject : α → Option ε) (verdict : α → α → Verdict ε) (xs : List α)
    (x : α) : coalesce reject verdict (xs ++ [x]) =
      step reject verdict (coalesce reject verdict xs) x := by
  unfold coalesce
  rw [List.foldl_append, List.foldl_cons, List.foldl_nil]

/-! ## The scan -/

theorem scan_apart {verdict : α → α → Verdict ε} {x : α} {ks : List α}
    (h : scan verdict x ks = .apart) : ∀ k ∈ ks, verdict k x = .apart := by
  induction ks with
  | nil => exact fun k hk => absurd hk List.not_mem_nil
  | cons k ks ih =>
    unfold scan at h
    split at h
    case h_1 hk => exact List.forall_mem_cons.2 ⟨hk, ih h⟩
    case h_2 => cases h
    case h_3 => cases h

theorem scan_same {verdict : α → α → Verdict ε} {x : α} {ks : List α}
    (h : scan verdict x ks = .same) : ∃ k ∈ ks, verdict k x = .same := by
  induction ks with
  | nil => cases h
  | cons k ks ih =>
    unfold scan at h
    split at h
    case h_1 =>
      obtain ⟨k', hk', hv⟩ := ih h
      exact ⟨k', List.mem_cons_of_mem k hk', hv⟩
    case h_2 hk => exact ⟨k, List.mem_cons_self, hk⟩
    case h_3 => cases h

theorem scan_clash {verdict : α → α → Verdict ε} {x : α} {ks : List α} {e : ε}
    (h : scan verdict x ks = .clash e) : ∃ k ∈ ks, verdict k x = .clash e := by
  induction ks with
  | nil => cases h
  | cons k ks ih =>
    unfold scan at h
    split at h
    case h_1 =>
      obtain ⟨k', hk', hv⟩ := ih h
      exact ⟨k', List.mem_cons_of_mem k hk', hv⟩
    case h_2 => cases h
    case h_3 hk =>
      cases h
      exact ⟨k, List.mem_cons_self, hk⟩

/-! ## What the verdicts mean -/

/-- `Same` and `Clash` describe the verdicts between claims that are not rejected. A claim does
not clash with itself, and duplicates clash with the same claims. -/
structure Laws (reject : α → Option ε) (verdict : α → α → Verdict ε) (Same Clash : α → α → Prop) :
    Prop where
  apart_iff : ∀ a b, reject a = none → reject b = none → verdict a b = .apart → ¬Clash a b
  same : ∀ a b, reject a = none → reject b = none → verdict a b = .same → Same a b
  clash : ∀ a b e, reject a = none → reject b = none → verdict a b = .clash e → Clash a b
  symm : ∀ a b, Clash a b → Clash b a
  irrefl : ∀ a, reject a = none → ¬Clash a a
  congr : ∀ a b c, Same a b → Clash b c → Clash a c

/-- Nothing in the list is rejected, and no two claims of it clash. -/
def ClashFree (reject : α → Option ε) (Clash : α → α → Prop) (xs : List α) : Prop :=
  ∀ x ∈ xs, reject x = none ∧ ∀ y ∈ xs, ¬Clash x y

theorem ClashFree.perm {reject : α → Option ε} {Clash : α → α → Prop} {xs ys : List α}
    (h : xs.Perm ys) : ClashFree reject Clash xs ↔ ClashFree reject Clash ys := by
  unfold ClashFree
  simp only [h.mem_iff]

/-! ## Runs without a report -/

section Run

variable {reject : α → Option ε} {verdict : α → α → Verdict ε} {Same Clash : α → α → Prop}

/-- What is kept comes from the list, in any run. -/
theorem kept_subset (xs : List α) :
    ∀ k ∈ (coalesce reject verdict xs).kept, k ∈ xs ∧ reject k = none := by
  induction xs using List.reverseRecOn with
  | nil => exact fun k hk => absurd hk List.not_mem_nil
  | append_singleton xs x ih =>
    have hold : ∀ k ∈ (coalesce reject verdict xs).kept, k ∈ xs ++ [x] ∧ reject k = none :=
      fun k hk => ⟨List.mem_append_left _ (ih k hk).1, (ih k hk).2⟩
    rw [coalesce_concat]
    unfold step
    split
    case h_1 => exact hold
    case h_2 hr =>
      split
      case h_1 =>
        intro k hk
        rcases List.mem_append.1 hk with hk | hk
        · exact hold k hk
        · rw [List.mem_singleton.1 hk]
          exact ⟨List.mem_append_right _ (List.mem_singleton.2 rfl), hr⟩
      case h_2 => exact hold
      case h_3 => exact hold

/-- A run that reports nothing keeps a claim or a duplicate of it. -/
theorem kept_covers (L : Laws reject verdict Same Clash) (xs : List α)
    (h : (coalesce reject verdict xs).errors = []) :
    ∀ x ∈ xs, reject x = none ∧
      ∃ k ∈ (coalesce reject verdict xs).kept, k = x ∨ Same k x := by
  induction xs using List.reverseRecOn with
  | nil => exact fun x hx => absurd hx List.not_mem_nil
  | append_singleton xs x ih =>
    rw [coalesce_concat] at h ⊢
    unfold step at h ⊢
    split at h
    case h_1 => simp at h
    case h_2 hr =>
      have hkept := @kept_subset α ε reject verdict xs
      split at h
      case h_1 hs =>
        intro y hy
        rcases List.mem_append.1 hy with hy | hy
        · obtain ⟨hry, k, hk, he⟩ := ih h y hy
          exact ⟨hry, k, List.mem_append_left _ hk, he⟩
        · rw [List.mem_singleton.1 hy]
          exact ⟨hr, x, List.mem_append_right _ (List.mem_singleton.2 rfl), Or.inl rfl⟩
      case h_2 hs =>
        intro y hy
        rcases List.mem_append.1 hy with hy | hy
        · exact ih h y hy
        · obtain ⟨k, hk, hv⟩ := scan_same hs
          rw [List.mem_singleton.1 hy]
          exact ⟨hr, k, hk, Or.inr (L.same k x (hkept k hk).2 hr hv)⟩
      case h_3 => simp at h

/-- What a run without a report keeps does not clash. -/
theorem kept_clashFree (L : Laws reject verdict Same Clash) (xs : List α)
    (h : (coalesce reject verdict xs).errors = []) :
    ClashFree reject Clash (coalesce reject verdict xs).kept := by
  induction xs using List.reverseRecOn with
  | nil => exact fun x hx => absurd hx List.not_mem_nil
  | append_singleton xs x ih =>
    rw [coalesce_concat] at h ⊢
    unfold step at h ⊢
    split at h
    case h_1 => simp at h
    case h_2 hr =>
      have hkept := @kept_subset α ε reject verdict xs
      split at h
      case h_1 hs =>
        have hx : ∀ k ∈ (coalesce reject verdict xs).kept, ¬Clash k x := fun k hk =>
          L.apart_iff k x (hkept k hk).2 hr (scan_apart hs k hk)
        intro a ha
        rcases List.mem_append.1 ha with ha | ha
        · refine ⟨(ih h a ha).1, fun b hb => ?_⟩
          rcases List.mem_append.1 hb with hb | hb
          · exact (ih h a ha).2 b hb
          · rw [List.mem_singleton.1 hb]
            exact hx a ha
        · rw [List.mem_singleton.1 ha]
          refine ⟨hr, fun b hb => ?_⟩
          rcases List.mem_append.1 hb with hb | hb
          · exact fun hc => hx b hb (L.symm x b hc)
          · rw [List.mem_singleton.1 hb]
            exact L.irrefl x hr
      case h_2 => exact ih h
      case h_3 => simp at h

/-- A list in which nothing clashes is coalesced without a report. -/
theorem errors_of_clashFree (L : Laws reject verdict Same Clash) (xs : List α)
    (h : ClashFree reject Clash xs) : (coalesce reject verdict xs).errors = [] := by
  induction xs using List.reverseRecOn with
  | nil => rfl
  | append_singleton xs x ih =>
    have hxs : ClashFree reject Clash xs := fun a ha =>
      ⟨(h a (List.mem_append_left _ ha)).1,
        fun b hb => (h a (List.mem_append_left _ ha)).2 b (List.mem_append_left _ hb)⟩
    have hx := List.mem_append_right xs (List.mem_singleton.2 (rfl : x = x))
    have hr : reject x = none := (h x hx).1
    rw [coalesce_concat]
    unfold step
    rw [hr]
    dsimp only
    split
    case h_1 => exact ih hxs
    case h_2 => exact ih hxs
    case h_3 hs =>
      obtain ⟨k, hk, hv⟩ := scan_clash hs
      have hk' := @kept_subset α ε reject verdict xs k hk
      exact absurd (L.clash k x _ hk'.2 hr hv) ((h k (List.mem_append_left _ hk'.1)).2 x hx)

/-- The order of the list plays no part in whether a clash is reported. -/
theorem errors_eq_nil_iff (L : Laws reject verdict Same Clash) (xs : List α) :
    (coalesce reject verdict xs).errors = [] ↔ ClashFree reject Clash xs := by
  refine ⟨fun h => ?_, errors_of_clashFree L xs⟩
  have hcovers := kept_covers L xs h
  have hfree := kept_clashFree L xs h
  have hback : ∀ k x y, k = x ∨ Same k x → Clash x y → Clash k y := by
    intro k x y he hc
    rcases he with rfl | he
    · exact hc
    · exact L.congr k x y he hc
  intro x hx
  obtain ⟨hr, k, hk, he⟩ := hcovers x hx
  refine ⟨hr, fun y hy hc => ?_⟩
  obtain ⟨-, k', hk', he'⟩ := hcovers y hy
  have h1 := L.symm _ _ (hback k x y he hc)
  exact (hfree k' hk').2 k hk (hback k' y k he' h1)

end Run

end PsxRecomp.Coalesce
