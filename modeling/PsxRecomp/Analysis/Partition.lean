import Mathlib
import PsxRecomp.Analysis.ExactEntries

/-! When the partition that `analyze_exact_entries` returns covers its entries and callees: what an absorbed
entry held has to be reached by the walk that it was absorbed into, through every pass and round. -/
namespace PsxRecomp.Analysis
open R3000 Worklist WordSet
set_option autoImplicit false

section Conditions
variable (q : Query) (trusted : Finset Word) (entries : List Word) (noSplitGuard : Bool)

/-- What may be a root: the explicit entries, and what a walk between such proves to be called. -/
inductive Entry : Word → Prop
  | explicit {e : Word} (h : e ∈ admissible q entries) : Entry e
  | called {e t : Word} (he : Entry e) (ht : t ∈ (walk q e q.img.analysisEnd).directJalTargets) : Entry t
  | calledBefore {e c t : Word} (he : Entry e) (hc : Entry c) (ht : t ∈ (walk q e c).directJalTargets) : Entry t

/-- A cap that the analysis may set. -/
def Cap (c : Word) : Prop := c = q.img.analysisEnd ∨ Entry q entries c

/-- What may be dropped from the roots: with the guard all but the trusted entries, without it the derived ones. -/
def Absorbable (x : Word) : Prop := if noSplitGuard = true then x ∉ trusted else x ∉ admissible q entries

/-- The walk of `h` up to `c` may take `p` in: it visits it, as with the guard it does without a cap, and no entry before
`c` has to stay a root. -/
structure TakesIn (h c p : Word) : Prop where
  entry : Entry q entries p
  absorbable : Absorbable q trusted entries noSplitGuard p
  visited : p ∈ (walk q h c).visited
  uncapped : noSplitGuard = true → p ∈ (walk q h q.img.analysisEnd).visited
  free : ∀ y ∈ admissible q entries, h < y → y < c → Absorbable q trusted entries noSplitGuard y

/-- Some walk of `h` up to a cap behind `p` misses an entry up to `p`. Otherwise the first pass takes `p` in, before `p` has
taken in anything itself. -/
def Misses (h p : Word) : Prop :=
  ∃ y c, Entry q entries y ∧ Cap q entries c ∧ h < y ∧ y ≤ p ∧ p < c ∧ y ∉ (walk q h c).visited

/-- What has been taken in stays visited: by a host whose cap moves up from `b`, and by a host that takes in the root `p`
it was taken into. -/
structure Steady : Prop where
  readable : ∀ e ∈ admissible q entries, (q.img.readWord e).isSome = true
  grows : ∀ h b c x, Entry q entries h → Cap q entries c → Entry q entries x →
    Absorbable q trusted entries noSplitGuard x → TakesIn q trusted entries noSplitGuard h c b →
    (noSplitGuard = true → Misses q entries h b) → x ∈ (walk q h b).visited → x ∈ (walk q h c).visited
  joins : noSplitGuard = true → ∀ h p c' c x, Entry q entries h → Cap q entries c' → Cap q entries c → Entry q entries x →
    Absorbable q trusted entries noSplitGuard x → c' ≤ c → TakesIn q trusted entries noSplitGuard h c p →
    Misses q entries h p → x ∈ (walk q p c').visited → x ∈ (walk q h c).visited

end Conditions

section Walks
variable {q : Query} {e c a : Word}

/-! ## One walk -/

theorem inFunction_iff : inFunction q e c a = true ↔
    q.img.inExe a = true ∧ e ≤ a ∧ a < c ∧
      (q.producerRanges = [] ∨ (producerFor q e).isSome = true ∧ producerFor q a = producerFor q e) := by
  simp [inFunction]

theorem walk_visited : (walk q e c).visited = ((walkSearch q e c).from e).seen := by
  unfold walk
  rfl

theorem walk_entered : (walk q e c).entered = ((walkSearch q e c).from e).entered := by
  unfold walk
  rfl

theorem walk_underway : Underway (walkSearch q e c) [e] [] ⟨(walk q e c).visited, (walk q e c).entered⟩ := by
  rw [walk_visited, walk_entered]
  exact underway_end (walkSearch q e c) [e]

theorem allow_iff : (walkSearch q e c).allow a = true ↔
    inFunction q e c a = true ∧ (q.img.readWord a).isSome = true := by
  simp [walkSearch]

theorem entered_inFunction (h : a ∈ (walk q e c).entered) : inFunction q e c a = true :=
  (allow_iff.mp (walk_underway.allowed a h)).1

theorem visited_cases (h : a ∈ (walk q e c).visited) :
    a ∈ (walk q e c).entered ∨ ∃ t ∈ (walk q e c).entered, a ∈ slotOf q t ∧ inFunction q e c a = true := by
  rcases walk_underway.origin a h with h | ⟨t, ht, hmark⟩
  · exact .inl h
  · exact .inr ⟨t, ht, List.mem_filter.mp hmark⟩

theorem visited_inFunction (h : a ∈ (walk q e c).visited) : inFunction q e c a = true := by
  rcases visited_cases h with h | ⟨t, -, -, h⟩
  · exact entered_inFunction h
  · exact h

theorem root_visited (hin : inFunction q e c e = true) (hread : (q.img.readWord e).isSome = true) :
    e ∈ (walk q e c).visited := by
  have h : e ∈ (walk q e c).entered := by
    rw [walk_entered]
    exact root_entered (allow_iff.mpr ⟨hin, hread⟩)
  exact walk_underway.seen e h

end Walks

/-! ## Sorted roots and their caps -/

section Capped
variable {stop : Word}

theorem capped_root {roots : List Word} {p : Word × Word} (h : p ∈ capped stop roots) : p.1 ∈ roots := by
  induction roots with
  | nil => cases h
  | cons root rest ih =>
    rcases List.mem_cons.mp h with rfl | h
    · exact List.mem_cons_self
    · exact List.mem_cons_of_mem _ (ih h)

theorem capped_cap {roots : List Word} {p : Word × Word} (h : p ∈ capped stop roots) :
    p.2 = stop ∨ p.2 ∈ roots := by
  induction roots with
  | nil => cases h
  | cons root rest ih =>
    rcases List.mem_cons.mp h with rfl | h
    · cases rest with
      | nil => exact .inl rfl
      | cons next rest => exact .inr (List.mem_cons_of_mem _ List.mem_cons_self)
    · exact (ih h).imp id (List.mem_cons_of_mem _)

theorem capped_exists (stop : Word) {roots : List Word} {x : Word} (h : x ∈ roots) : ∃ c, (x, c) ∈ capped stop roots := by
  induction roots with
  | nil => cases h
  | cons root rest ih =>
    rcases List.mem_cons.mp h with rfl | h
    · exact ⟨_, List.mem_cons_self⟩
    · obtain ⟨c, hc⟩ := ih h
      exact ⟨c, List.mem_cons_of_mem _ hc⟩

/-- The caps of a sorted list are the next members. -/
theorem capped_next {roots : List Word} (hsorted : roots.Pairwise (· < ·)) {p : Word × Word}
    (h : p ∈ capped stop roots) : p.2 = nextAfter stop roots.toFinset p.1 := by
  induction roots with
  | nil => cases h
  | cons root rest ih =>
    rw [List.pairwise_cons] at hsorted
    rcases List.mem_cons.mp h with rfl | h
    · cases rest with
      | nil =>
        rcases nextAfter_cases stop [root].toFinset root with h | ⟨hmem, hlt⟩
        · exact h.symm
        · rw [List.mem_toFinset, List.mem_singleton] at hmem
          rw [hmem] at hlt
          exact absurd hlt (lt_irrefl root)
      | cons next rest =>
        refine (nextAfter_eq (by simp) (hsorted.1 next List.mem_cons_self) fun y hy hlt => ?_).symm
        simp only [List.mem_toFinset, List.mem_cons] at hy
        rcases hy with rfl | rfl | hy
        · exact absurd hlt (lt_irrefl y)
        · exact le_refl _
        · exact le_of_lt ((List.pairwise_cons.mp hsorted.2).1 y hy)
    · rw [ih hsorted.2 h]
      have hlater : root < p.1 := hsorted.1 p.1 (capped_root h)
      refine nextAfter_congr fun x => ?_
      rw [List.toFinset_cons, Finset.mem_insert]
      constructor
      · exact fun h => ⟨.inr h.1, h.2⟩
      · rintro ⟨rfl | h, hlt⟩
        · exact absurd (lt_trans hlt hlater) (lt_irrefl p.1)
        · exact ⟨h, hlt⟩

theorem capped_lt {roots : List Word} (hsorted : roots.Pairwise (· < ·)) (hstop : ∀ x ∈ roots, x < stop)
    {p : Word × Word} (h : p ∈ capped stop roots) : p.1 < p.2 := by
  rw [capped_next hsorted h]
  rcases nextAfter_cases stop roots.toFinset p.1 with hend | ⟨-, hlt⟩
  · rw [hend]
    exact hstop p.1 (capped_root h)
  · exact hlt

theorem head_drop_le {roots : List Word} (hsorted : roots.Pairwise (· < ·)) (hstop : ∀ x ∈ roots, x < stop)
    (n : ℕ) : roots.head?.getD stop ≤ (roots.drop n).head?.getD stop := by
  cases roots with
  | nil => simp
  | cons root rest =>
    cases n with
    | zero => exact le_refl _
    | succ n =>
      rw [List.drop_succ_cons, List.head?_cons, Option.getD_some]
      cases hdrop : rest.drop n with
      | nil => exact le_of_lt (hstop root List.mem_cons_self)
      | cons next later =>
        have hmem : next ∈ rest := List.mem_of_mem_drop (hdrop ▸ List.mem_cons_self)
        exact le_of_lt ((List.pairwise_cons.mp hsorted).1 next hmem)

/-- A root of the first `n` has its cap before the rest. -/
theorem capped_drop {roots : List Word} (hsorted : roots.Pairwise (· < ·)) (hstop : ∀ x ∈ roots, x < stop)
    (n : ℕ) {p : Word × Word} (h : p ∈ capped stop roots) :
    (p.1 ∈ roots.take n ∧ p.2 ≤ (roots.drop n).head?.getD stop) ∨ p ∈ capped stop (roots.drop n) := by
  induction roots generalizing n with
  | nil => cases h
  | cons root rest ih =>
    cases n with
    | zero => exact .inr h
    | succ n =>
      rw [List.pairwise_cons] at hsorted
      have hrest : ∀ x ∈ rest, x < stop := fun x hx => hstop x (List.mem_cons_of_mem _ hx)
      rcases List.mem_cons.mp h with rfl | h
      · exact .inl ⟨List.mem_cons_self, head_drop_le hsorted.2 hrest n⟩
      · rcases ih hsorted.2 hrest n h with ⟨hmem, hle⟩ | hmem
        · exact .inl ⟨List.mem_cons_of_mem _ hmem, hle⟩
        · exact .inr hmem

end Capped

/-! ## What a partition holds -/

section Held
variable (q : Query) (entries : List Word)

/-- A root of the analysis. -/
structure Root (e : Word) : Prop where
  entry : Entry q entries e
  inExe : q.img.inExe e = true
  readable : (q.img.readWord e).isSome = true
  producer : q.producerRanges = [] ∨ (producerFor q e).isSome = true

/-- A root, or visited by the walk of one. -/
def Held (known : Finset Word) (x : Word) : Prop :=
  ∃ h ∈ known, x = h ∨ x ∈ (walk q h (nextAfter q.img.analysisEnd known h)).visited

/-- The same over a sorted list. -/
def HeldBy (roots : List Word) (x : Word) : Prop :=
  ∃ p ∈ capped q.img.analysisEnd roots, x = p.1 ∨ x ∈ (walk q p.1 p.2).visited

end Held

section Absorb
variable {q : Query} {entries : List Word} (trusted : Finset Word)

theorem Root.below {e : Word} (h : Root q entries e) : e < q.img.analysisEnd := by
  have hin := h.inExe
  simp only [Image.inExe, decide_eq_true_eq] at hin
  exact hin.2.1

theorem Root.visited {e c : Word} (h : Root q entries e) (hlt : e < c) : e ∈ (walk q e c).visited :=
  root_visited (inFunction_iff.mpr ⟨h.inExe, le_refl e, hlt, h.producer.imp id fun hsome => ⟨hsome, rfl⟩⟩) h.readable

theorem absorbPass_head (roots : List Word) : (absorbPass q trusted roots).1.head? = roots.head? := by
  cases roots with
  | nil => simp [absorbPass]
  | cons host rest => simp [absorbPass]

theorem absorbPass_sublist (roots : List Word) : (absorbPass q trusted roots).1.Sublist roots := by
  induction roots using absorbPass.induct q trusted with
  | case1 => simp [absorbPass]
  | case2 host rest n ih =>
    rw [absorbPass]
    exact (ih.trans (List.drop_sublist _ _)).cons_cons host

/-! ### The run that a host absorbs -/

theorem shrinkRun_visited (host : Word) (rest : List Word) (n : ℕ) :
    ∀ a ∈ rest.take (shrinkRun q host rest n),
      a ∈ (walk q host ((rest.drop (shrinkRun q host rest n)).head?.getD q.img.analysisEnd)).visited := by
  induction n using Nat.strong_induction_on with
  | _ n ih =>
    rw [shrinkRun]
    split
    · rename_i hlt
      exact ih _ hlt
    · rename_i hnot
      -- nothing in the run is missed
      intro a ha
      have hprefix := List.takeWhile_prefix (l := rest.take n)
        fun x => decide (x ∈ (walk q host ((rest.drop n).head?.getD q.img.analysisEnd)).visited)
      have hlen : (rest.take n).length ≤ n := by
        rw [List.length_take]
        exact Nat.min_le_left _ _
      have hall := hprefix.eq_of_length (by have := hprefix.length_le; omega)
      rw [← hall] at ha
      simpa using List.mem_takeWhile_imp ha

theorem runLength_reached (host : Word) (rest : List Word) :
    ∀ a ∈ rest.take (runLength q trusted host rest), a ∈ reachOf q host rest ∧ a ∉ trusted := by
  intro a ha
  have hle := shrinkRun_le q host rest
    (rest.takeWhile fun a => a ∈ reachOf q host rest ∧ a ∉ trusted).length
  have hprefix := List.takeWhile_prefix (l := rest) fun a => decide (a ∈ reachOf q host rest ∧ a ∉ trusted)
  have hmem := List.take_subset_take_left rest hle ha
  rw [← List.prefix_iff_eq_take.mp hprefix] at hmem
  simpa using List.mem_takeWhile_imp hmem

/-- Behind its successor a host reaches only what its walk without a cap does. -/
theorem reachOf_uncapped {host a : Word} {rest : List Word} (hsorted : rest.Pairwise (· < ·)) (ha : a ∈ rest)
    (h : a ∈ reachOf q host rest) : a ∈ (walk q host q.img.analysisEnd).visited := by
  rcases Finset.mem_union.mp h with h | h
  · exact h
  · cases rest with
    | nil => cases ha
    | cons next rest =>
      have hlt := (inFunction_iff.mp (visited_inFunction h)).2.2.1
      rcases List.mem_cons.mp ha with rfl | ha
      · exact absurd hlt (lt_irrefl a)
      · exact absurd hlt (lt_asymm ((List.pairwise_cons.mp hsorted).1 a ha))

theorem absorbPass_trusted (roots : List Word) {x : Word} (hx : x ∈ roots) (ht : x ∈ trusted) :
    x ∈ (absorbPass q trusted roots).1 := by
  induction roots using absorbPass.induct q trusted with
  | case1 => cases hx
  | case2 host rest n ih =>
    rw [absorbPass]
    rcases List.mem_cons.mp hx with rfl | hx
    · exact List.mem_cons_self
    · rw [← List.take_append_drop n rest] at hx
      rcases List.mem_append.mp hx with hx | hx
      · exact absurd ht (runLength_reached trusted host rest x hx).2
      · exact List.mem_cons_of_mem _ (ih hx)

/-- What lies behind a later root is a later root. -/
theorem mem_drop_of_le {host y r : Word} {rest : List Word} {n : ℕ} (hsorted : (host :: rest).Pairwise (· < ·))
    (hy : y ∈ host :: rest) (hr : r ∈ rest.drop n) (hle : r ≤ y) : y ∈ rest.drop n := by
  rw [List.pairwise_cons] at hsorted
  rcases List.mem_cons.mp hy with rfl | hy
  · exact absurd (hsorted.1 r (List.mem_of_mem_drop hr)) (not_lt.mpr hle)
  · rw [← List.take_append_drop n rest] at hy hsorted
    rcases List.mem_append.mp hy with hy | hy
    · exact absurd ((List.pairwise_append.mp hsorted.2).2.2 y hy r hr) (not_lt.mpr hle)
    · exact hy

/-- The host that a root ends up with, and what the host takes in: the roots behind it up to its new cap. -/
theorem absorbPass_host (roots : List Word) (hsorted : roots.Pairwise (· < ·))
    (hstop : ∀ r ∈ roots, r < q.img.analysisEnd) {p : Word × Word} (hp : p ∈ capped q.img.analysisEnd roots) :
    ∃ h ∈ capped q.img.analysisEnd (absorbPass q trusted roots).1, h.1 ≤ p.1 ∧ p.2 ≤ h.2 ∧
      ∀ r ∈ roots, h.1 < r → r < h.2 → r ∉ trusted ∧ r ∈ (walk q h.1 h.2).visited ∧
        r ∈ (walk q h.1 q.img.analysisEnd).visited := by
  induction roots using absorbPass.induct q trusted with
  | case1 => cases hp
  | case2 host rest n ih =>
    rw [absorbPass]
    have hsorted' := hsorted
    rw [List.pairwise_cons] at hsorted
    have hrest : ∀ r ∈ rest, r < q.img.analysisEnd := fun r hr => hstop r (List.mem_cons_of_mem _ hr)
    -- the cap of the host once its run is absorbed
    obtain ⟨cap, hcap⟩ : ∃ cap, cap = (rest.drop n).head?.getD q.img.analysisEnd := ⟨_, rfl⟩
    have hfirst : (host, cap) ∈ capped q.img.analysisEnd (host :: (absorbPass q trusted (rest.drop n)).1) := by
      rw [capped, absorbPass_head, ← hcap]
      exact List.mem_cons_self
    have htaken : ∀ r ∈ host :: rest, host < r → r < cap → r ∉ trusted ∧ r ∈ (walk q host cap).visited ∧
        r ∈ (walk q host q.img.analysisEnd).visited := by
      intro r hr hlow hhigh
      have hr := (List.mem_cons.mp hr).resolve_left (ne_of_gt hlow)
      have hrun : r ∈ rest.take n := by
        by_contra hno
        rw [← List.take_append_drop n rest] at hr
        have hbehind := (List.mem_append.mp hr).resolve_left hno
        cases hdrop : rest.drop n with
        | nil =>
          rw [hdrop] at hbehind
          cases hbehind
        | cons next later =>
          rw [hcap, hdrop] at hhigh
          rw [hdrop] at hbehind
          have hlater := List.pairwise_cons.mp (hdrop ▸ hsorted.2.sublist (List.drop_sublist n rest))
          rcases List.mem_cons.mp hbehind with rfl | hmem
          · exact absurd hhigh (lt_irrefl r)
          · exact absurd hhigh (lt_asymm (hlater.1 r hmem))
      obtain ⟨hreach, htrusted⟩ := runLength_reached trusted host rest r hrun
      exact ⟨htrusted, hcap ▸ shrinkRun_visited host rest _ r hrun, reachOf_uncapped hsorted.2 hr hreach⟩
    rcases List.mem_cons.mp hp with rfl | hp
    · exact ⟨(host, cap), hfirst, le_refl _, hcap ▸ head_drop_le hsorted.2 hrest n, htaken⟩
    · rcases capped_drop hsorted.2 hrest n hp with ⟨-, hle⟩ | hbehind
      · exact ⟨(host, cap), hfirst, le_of_lt (hsorted.1 _ (capped_root hp)), hcap ▸ hle, htaken⟩
      · have hdrop : ∀ r ∈ rest.drop n, r ∈ rest := fun r hr => List.mem_of_mem_drop hr
        obtain ⟨h, hh, hlow, hhigh, hlater⟩ := ih (hsorted.2.sublist (List.drop_sublist _ _))
          (fun r hr => hrest r (hdrop r hr)) hbehind
        have hroot := (absorbPass_sublist trusted _).subset (capped_root hh)
        exact ⟨h, List.mem_cons_of_mem _ hh, hlow, hhigh, fun r hr hlt hgt =>
          hlater r (mem_drop_of_le hsorted' hr hroot (le_of_lt hlt)) hlt hgt⟩

/-! ### Where a run stops -/

theorem takeWhile_stops {l : List Word} (f : Word → Bool) (hsorted : l.Pairwise (· < ·)) {p : Word}
    (hp : p ∈ l.drop (l.takeWhile f).length) : ∃ y ∈ l, y ≤ p ∧ f y = false := by
  induction l with
  | nil => cases hp
  | cons a l ih =>
    rw [List.pairwise_cons] at hsorted
    cases ha : f a with
    | true =>
      rw [List.takeWhile_cons_of_pos ha, List.length_cons, List.drop_succ_cons] at hp
      obtain ⟨y, hy, hle, hno⟩ := ih hsorted.2 hp
      exact ⟨y, List.mem_cons_of_mem _ hy, hle, hno⟩
    | false =>
      rw [List.takeWhile_cons_of_neg (by simp [ha]), List.length_nil, List.drop_zero] at hp
      refine ⟨a, List.mem_cons_self, ?_, ha⟩
      rcases List.mem_cons.mp hp with rfl | hp
      · exact le_refl p
      · exact le_of_lt (hsorted.1 p hp)

theorem lt_head_drop {rest : List Word} {stop p : Word} (hsorted : rest.Pairwise (· < ·)) (hstop : p < stop) (n : ℕ)
    (hp : p ∈ rest.take n) : p < (rest.drop n).head?.getD stop := by
  cases hdrop : rest.drop n with
  | nil => exact hstop
  | cons next later =>
    rw [← List.take_append_drop n rest, hdrop] at hsorted
    exact (List.pairwise_append.mp hsorted).2.2 p hp next List.mem_cons_self

theorem mem_take_drop {l : List Word} {k n : ℕ} {p : Word} (hp : p ∈ l.drop k) (hno : p ∉ l.drop n) :
    p ∈ (l.take n).drop k := by
  have hsplit : p ∈ (l.take n ++ l.drop n).drop k := by rwa [List.take_append_drop]
  rw [List.drop_append] at hsplit
  exact (List.mem_append.mp hsplit).resolve_right fun h => hno (List.mem_of_mem_drop h)

/-- What is cut off a run lies behind an entry that the walk up to a cap behind it misses. -/
theorem shrinkRun_stops {host p : Word} {rest : List Word} (hsorted : rest.Pairwise (· < ·))
    (hstop : p < q.img.analysisEnd) (n : ℕ) (hp : p ∈ rest.drop (shrinkRun q host rest n)) :
    p ∈ rest.drop n ∨ ∃ m, ∃ y ∈ rest, y ≤ p ∧ p < (rest.drop m).head?.getD q.img.analysisEnd ∧
      y ∉ (walk q host ((rest.drop m).head?.getD q.img.analysisEnd)).visited := by
  induction n using Nat.strong_induction_on with
  | _ n ih =>
    rw [shrinkRun] at hp
    split at hp
    · rename_i hlt
      rcases ih _ hlt hp with hp | hmiss
      · by_cases hbehind : p ∈ rest.drop n
        · exact .inl hbehind
        · -- `p` was cut off in this turn
          have hsplit := mem_take_drop hp hbehind
          obtain ⟨y, hy, hle, hno⟩ := takeWhile_stops _ (hsorted.sublist (List.take_sublist n rest)) hsplit
          exact .inr ⟨n, y, List.mem_of_mem_take hy, hle,
            lt_head_drop hsorted hstop n (List.mem_of_mem_drop hsplit), by simpa using hno⟩
      · exact .inr hmiss
    · exact .inl hp

/-- Two roots that a pass keeps apart. -/
theorem absorbPass_stops (roots : List Word) (hsorted : roots.Pairwise (· < ·)) (hroots : ∀ r ∈ roots, Root q entries r)
    {h p : Word} (hh : h ∈ (absorbPass q trusted roots).1) (hp : p ∈ (absorbPass q trusted roots).1) (hlt : h < p) :
    (∃ y ∈ roots, y ∈ trusted ∧ h < y ∧ y ≤ p) ∨ Misses q entries h p := by
  induction roots using absorbPass.induct q trusted with
  | case1 =>
    rw [absorbPass] at hh
    cases hh
  | case2 host rest n ih =>
    rw [absorbPass] at hh hp
    rw [List.pairwise_cons] at hsorted
    have hrest : ∀ r ∈ rest, Root q entries r := fun r hr => hroots r (List.mem_cons_of_mem _ hr)
    have hlater : ∀ r ∈ (absorbPass q trusted (rest.drop n)).1, r ∈ rest.drop n := fun r hr =>
      (absorbPass_sublist trusted _).subset hr
    have hdrop : ∀ r ∈ rest.drop n, r ∈ rest := fun r hr => List.mem_of_mem_drop hr
    rcases List.mem_cons.mp hp with rfl | hp
    · rcases List.mem_cons.mp hh with rfl | hh
      · exact absurd hlt (lt_irrefl h)
      · exact absurd hlt (lt_asymm (hsorted.1 h (hdrop h (hlater h hh))))
    rcases List.mem_cons.mp hh with rfl | hh
    · have hbehind := hlater p hp
      have hstop := (hrest p (hdrop p hbehind)).below
      rcases shrinkRun_stops hsorted.2 hstop _ hbehind with hbehind | ⟨m, y, hy, hle, hcap, hno⟩
      · obtain ⟨y, hy, hle, hno⟩ := takeWhile_stops _ hsorted.2 hbehind
        have hhy := hsorted.1 y hy
        by_cases ht : y ∈ trusted
        · exact .inl ⟨y, List.mem_cons_of_mem _ hy, ht, hhy, hle⟩
        · have hreach : y ∉ reachOf q h rest := by simpa [ht] using hno
          exact .inr ⟨y, _, (hrest y hy).entry, .inl rfl, hhy, hle, hstop, fun hvis =>
            hreach (Finset.mem_union_left _ hvis)⟩
      · refine .inr ⟨y, _, (hrest y hy).entry, ?_, hsorted.1 y hy, hle, hcap, hno⟩
        cases hhead : rest.drop m with
        | nil => exact .inl rfl
        | cons next later => exact .inr (hrest next (List.mem_of_mem_drop (hhead ▸ List.mem_cons_self))).entry
    · rcases ih (hsorted.2.sublist (List.drop_sublist _ _)) (fun r hr => hrest r (hdrop r hr)) hh hp with
        ⟨y, hy, hy'⟩ | hmiss
      · exact .inl ⟨y, List.mem_cons_of_mem _ (hdrop y hy), hy'⟩
      · exact .inr hmiss

/-! ### The passes -/

/-- What holds of the roots between two passes, with all the entries they started from. -/
structure Passing (q : Query) (trusted : Finset Word) (entries all roots : List Word) : Prop where
  sorted : roots.Pairwise (· < ·)
  rooted : ∀ r ∈ roots, Root q entries r
  whole : ∀ x ∈ all, Root q entries x
  kept : ∀ y ∈ all, y ∈ trusted → y ∈ roots
  held : ∀ x ∈ all, x ∈ roots ∨ HeldBy q roots x
  apart : (∀ x ∈ all, x ∈ roots) ∨ ∀ h ∈ roots, ∀ p ∈ roots, h < p →
    (∃ y ∈ roots, y ∈ trusted ∧ h < y ∧ y ≤ p) ∨ Misses q entries h p

/-- What a root held, its host holds behind the pass. -/
theorem Passing.moved (hsteady : Steady q trusted entries true) {all roots : List Word} (hall : ∀ e ∈ admissible q entries,
    e ∈ all) (h : Passing q trusted entries all roots) {x : Word} (hx : x ∈ all) (hgone : x ∉ roots) :
    HeldBy q (absorbPass q trusted roots).1 x := by
  obtain ⟨p, hp, hxp⟩ := (h.held x hx).resolve_left hgone
  have hproot := capped_root hp
  have hvis := hxp.resolve_left fun heq => hgone (heq ▸ hproot)
  have hapart := h.apart.resolve_left fun hin => hgone (hin x hx)
  have hstop : ∀ r ∈ roots, r < q.img.analysisEnd := fun r hr => (h.rooted r hr).below
  have hcapOf : ∀ {l : List Word}, (∀ r ∈ l, r ∈ roots) → ∀ c ∈ capped q.img.analysisEnd l, Cap q entries c.2 :=
    fun hl c hc => (capped_cap hc).imp id fun hmem => (h.rooted _ (hl _ hmem)).entry
  obtain ⟨⟨host, cap⟩, hhost, hlow, hhigh, htaken⟩ := absorbPass_host trusted roots h.sorted hstop hp
  have hsub := (absorbPass_sublist (q := q) trusted roots).subset
  have hhostRoot := hsub (capped_root hhost)
  have hxt : x ∉ trusted := fun ht => hgone (h.kept x hx ht)
  have hin := (inFunction_iff.mp (visited_inFunction hvis)).2
  -- a root before the new cap is taken in, and was left alone by the pass before
  have htakes : ∀ r ∈ roots, host < r → r < cap →
      TakesIn q trusted entries true host cap r ∧ Misses q entries host r := by
    intro r hr hlt hgt
    obtain ⟨ht, hvisited, huncapped⟩ := htaken r hr hlt hgt
    refine ⟨⟨(h.rooted r hr).entry, by rwa [Absorbable, if_pos rfl], hvisited, fun _ => huncapped, fun y hy hy1 hy2 => ?_⟩,
      (hapart host hhostRoot r hr hlt).resolve_left ?_⟩
    · rw [Absorbable, if_pos rfl]
      exact fun hyt => (htaken y (h.kept y (hall y hy) hyt) hy1 hy2).1 hyt
    · rintro ⟨y, hy, hyt, hy1, hy2⟩
      exact (htaken y hy hy1 (lt_of_le_of_lt hy2 hgt)).1 hyt
  refine ⟨(host, cap), hhost, .inr ?_⟩
  have hcap := hcapOf hsub _ hhost
  have hentry := (h.rooted host hhostRoot).entry
  have hxentry := (h.whole x hx).entry
  have habs : Absorbable q trusted entries true x := by rwa [Absorbable, if_pos rfl]
  rcases eq_or_lt_of_le hlow with heq | hlt
  · dsimp only at heq
    subst heq
    rcases eq_or_lt_of_le hhigh with heq | hlt
    · exact heq ▸ hvis
    · have hmem : p.2 ∈ roots := by
        refine (capped_cap hp).resolve_left fun hend => ?_
        rw [hend] at hlt
        rcases capped_cap hhost with h | h
        · exact absurd hlt (h ▸ lt_irrefl _)
        · exact absurd hlt (lt_asymm (hstop _ (hsub h)))
      obtain ⟨htake, hmiss⟩ := htakes p.2 hmem (lt_of_le_of_lt hin.1 hin.2.1) hlt
      exact hsteady.grows _ _ _ _ hentry hcap hxentry habs htake (fun _ => hmiss) hvis
  · obtain ⟨htake, hmiss⟩ := htakes p.1 hproot hlt (lt_of_lt_of_le (lt_of_le_of_lt hin.1 hin.2.1) hhigh)
    exact hsteady.joins rfl _ _ _ _ _ hentry (hcapOf (fun _ hr => hr) _ hp) hcap hxentry habs hhigh htake hmiss hvis

theorem Passing.step (hsteady : Steady q trusted entries true) {all roots : List Word} (hall : ∀ e ∈ admissible q entries,
    e ∈ all) (h : Passing q trusted entries all roots) : Passing q trusted entries all (absorbPass q trusted roots).1 := by
  have hsub := absorbPass_sublist (q := q) trusted roots
  have hstop : ∀ r ∈ roots, r < q.img.analysisEnd := fun r hr => (h.rooted r hr).below
  refine ⟨h.sorted.sublist hsub, fun r hr => h.rooted r (hsub.subset hr), h.whole,
    fun y hy ht => absorbPass_trusted trusted roots (h.kept y hy ht) ht, fun x hx => ?_, .inr fun host hh p hp hlt => ?_⟩
  · by_cases hin : x ∈ roots
    · obtain ⟨c, hc⟩ := capped_exists q.img.analysisEnd hin
      obtain ⟨host, hhost, hlow, hhigh, htaken⟩ := absorbPass_host trusted roots h.sorted hstop hc
      rcases eq_or_lt_of_le hlow with heq | hlt
      · exact .inr ⟨host, hhost, .inl heq.symm⟩
      · exact .inr ⟨host, hhost, .inr (htaken x hin hlt (lt_of_lt_of_le (capped_lt h.sorted hstop hc) hhigh)).2.1⟩
    · exact .inr (h.moved trusted hsteady hall hx hin)
  · rcases absorbPass_stops trusted roots h.sorted h.rooted hh hp hlt with ⟨y, hy, ht, hy'⟩ | hmiss
    · exact .inl ⟨y, absorbPass_trusted trusted roots hy ht, ht, hy'⟩
    · exact .inr hmiss

end Absorb

/-! ## Without the guard -/

section Erase
variable {q : Query} {trusted : Finset Word} {entries : List Word}

end Erase

/-! ## The rounds -/

section Rounds
variable {q : Query} {entries : List Word} (trusted : Finset Word) {noSplitGuard : Bool}

end Rounds

/-! ## The functions -/

section Functions
variable {q : Query} {entries : List Word} {trusted : Finset Word} {noSplitGuard : Bool}

end Functions

/-! ## Two images -/

/-- The words of a payload in their bytes. -/
def bytesOf (words : List Word) : List (BitVec 8) :=
  words.flatMap fun w => [w.extractLsb' 0 8, w.extractLsb' 8 8, w.extractLsb' 16 8, w.extractLsb' 24 8]

end PsxRecomp.Analysis
