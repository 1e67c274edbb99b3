import PsxRecomp.Mods.Compare

/-! The plan that `resolve` returns: free of conflicts, whatever the order in which the packages
contributed, and empty where anything was reported. -/
namespace PsxRecomp.Mods
open Cells Coalesce
set_option autoImplicit false

/-! ## The two loops -/

/-- The bytes written by the kept contributions, in the order they are applied. -/
def Coalesced.cells (c : Coalesced) : List (Place × Byte) :=
  c.writes.flatMap Write.cells ++ c.overlays.flatMap Overlay.cells

theorem Coalesced.mem_cells {c : Coalesced} {x : Place × Byte} :
    x ∈ c.cells ↔ (∃ w ∈ c.writes, x ∈ w.cells) ∨ ∃ o ∈ c.overlays, x ∈ o.cells := by
  unfold Coalesced.cells
  rw [List.mem_append, List.mem_flatMap, List.mem_flatMap]

/-- Nothing in two lists clashes: a condition on their members alone. -/
structure Compatible (ws : List Write) (os : List Overlay) : Prop where
  writes : ClashFree rejectWrite WriteClash ws
  across : ∀ w ∈ ws, ∀ o ∈ os, Agree w.cells o.cells
  overlays : ∀ o ∈ os, ∀ o' ∈ os, Agree o.cells o'.cells

theorem Compatible.perm {ws ws' : List Write} {os os' : List Overlay} (hw : ws.Perm ws')
    (ho : os.Perm os') (h : Compatible ws os) : Compatible ws' os' where
  writes := (ClashFree.perm hw).1 h.writes
  across w hwm o hom := h.across w (hw.mem_iff.2 hwm) o (ho.mem_iff.2 hom)
  overlays o hom o' hom' := h.overlays o (ho.mem_iff.2 hom) o' (ho.mem_iff.2 hom')

/-- Without a report, a write of the list is kept or the same as one kept. -/
theorem writes_kept {ws : List Write} (h : (coalesceWrites ws).errors = []) :
    ∀ w ∈ ws, ∃ k ∈ (coalesceWrites ws).kept, k = w ∨ SameWrite k w :=
  fun w hw => (kept_covers write_laws ws h w hw).2

theorem overlays_kept {kept : List Write} {os : List Overlay}
    (h : (coalesceOverlays kept os).errors = []) :
    ∀ o ∈ os, ∃ k ∈ (coalesceOverlays kept os).kept, k = o ∨ SameOverlay k o :=
  fun o ho => (kept_covers (overlay_laws kept) os h o ho).2

/-- The kept writes own the bytes the list owns. -/
theorem kept_writes_cells {ws : List Write} (h : (coalesceWrites ws).errors = [])
    (x : Place × Byte) :
    (∃ k ∈ (coalesceWrites ws).kept, x ∈ k.cells) ↔ ∃ w ∈ ws, x ∈ w.cells := by
  constructor
  · rintro ⟨k, hk, hx⟩
    exact ⟨k, (kept_subset ws k hk).1, hx⟩
  · rintro ⟨w, hw, hx⟩
    obtain ⟨k, hk, he⟩ := writes_kept h w hw
    refine ⟨k, hk, ?_⟩
    rcases he with rfl | he
    · exact hx
    · rw [he.cells_eq.1]
      exact hx

theorem kept_overlays_cells {kept : List Write} {os : List Overlay}
    (h : (coalesceOverlays kept os).errors = []) (x : Place × Byte) :
    (∃ k ∈ (coalesceOverlays kept os).kept, x ∈ k.cells) ↔ ∃ o ∈ os, x ∈ o.cells := by
  constructor
  · rintro ⟨k, hk, hx⟩
    exact ⟨k, (kept_subset os k hk).1, hx⟩
  · rintro ⟨o, ho, hx⟩
    obtain ⟨k, hk, he⟩ := overlays_kept h o ho
    refine ⟨k, hk, ?_⟩
    rcases he with rfl | he
    · exact hx
    · rw [he.cells_eq]
      exact hx

/-- Agreement with the bytes of every kept write is agreement with those of every write. -/
theorem agree_kept_iff {ws : List Write} (h : (coalesceWrites ws).errors = [])
    (cells : List (Place × Byte)) :
    (∀ k ∈ (coalesceWrites ws).kept, Agree k.cells cells) ↔ ∀ w ∈ ws, Agree w.cells cells := by
  have hcells := kept_writes_cells h
  constructor
  · intro hk w hw k v u hv hu
    obtain ⟨k', hk', hx⟩ := (hcells (k, v)).2 ⟨w, hw, hv⟩
    exact hk k' hk' k v u hx hu
  · intro hw k hk
    exact hw k (kept_subset ws k hk).1

/-- Nothing is reported exactly where nothing clashes. -/
theorem reports_eq_nil_iff (ws : List Write) (os : List Overlay) :
    (coalesceContributions ws os).reports = [] ↔ Compatible ws os := by
  unfold coalesceContributions
  dsimp only
  rw [List.append_eq_nil_iff]
  constructor
  · rintro ⟨hw, ho⟩
    have hfree := (errors_eq_nil_iff (overlay_laws _) os).1 ho
    refine ⟨(errors_eq_nil_iff write_laws ws).1 hw, ?_, ?_⟩
    · intro w hwm o hom
      exact (agree_kept_iff hw o.cells).1
        ((rejectOverlay_eq_none_iff _ o).1 (hfree o hom).1) w hwm
    · intro o hom o' hom'
      exact not_not.1 ((hfree o hom).2 o' hom')
  · intro h
    have hw : (coalesceWrites ws).errors = [] := (errors_eq_nil_iff write_laws ws).2 h.writes
    refine ⟨hw, (errors_eq_nil_iff (overlay_laws _) os).2 fun o hom => ⟨?_, ?_⟩⟩
    · exact (rejectOverlay_eq_none_iff _ o).2
        ((agree_kept_iff hw o.cells).2 fun w hwm => h.across w hwm o hom)
    · exact fun o' hom' hn => hn (h.overlays o hom o' hom')

/-- Without a report the plan owns what the list owns. -/
theorem mem_coalesced_cells {ws : List Write} {os : List Overlay}
    (h : (coalesceContributions ws os).reports = []) (x : Place × Byte) :
    x ∈ (coalesceContributions ws os).cells ↔
      (∃ w ∈ ws, x ∈ w.cells) ∨ ∃ o ∈ os, x ∈ o.cells := by
  have hsplit := List.append_eq_nil_iff.1 h
  rw [Coalesced.mem_cells]
  exact or_congr (kept_writes_cells hsplit.1 x) (kept_overlays_cells hsplit.2 x)

/-- No byte is owned with two values. -/
theorem coalesced_consistent {ws : List Write} {os : List Overlay}
    (h : (coalesceContributions ws os).reports = []) :
    Consistent (coalesceContributions ws os).cells := by
  have hc := (reports_eq_nil_iff ws os).1 h
  intro k v u hv hu
  rw [mem_coalesced_cells h] at hv hu
  rcases hv with ⟨a, ha, hv⟩ | ⟨a, ha, hv⟩ <;> rcases hu with ⟨b, hb, hu⟩ | ⟨b, hb, hu⟩
  · exact (not_not.1 (not_or.1 ((hc.writes a ha).2 b hb)).2) k v u hv hu
  · exact hc.across a ha b hb k v u hv hu
  · exact (hc.across b hb a ha k u v hu hv).symm
  · exact hc.overlays a ha b hb k v u hv hu

theorem coalesced_guards_agree {ws : List Write} {os : List Overlay}
    (h : (coalesceContributions ws os).reports = []) :
    ∀ a ∈ (coalesceContributions ws os).writes, ∀ b ∈ (coalesceContributions ws os).writes,
      Agree a.guardCells b.guardCells := by
  have hc := (reports_eq_nil_iff ws os).1 h
  intro a ha b hb
  have ha' := (kept_subset ws a ha).1
  have hb' := (kept_subset ws b hb).1
  exact not_not.1 (not_or.1 ((hc.writes a ha').2 b hb')).1

/-! ## The result -/

variable {P D R : Type}

def Resolution.cells (r : Resolution P D R) : List (Place × Byte) :=
  Coalesced.cells { writes := r.writes, overlays := r.overlays, reports := [] }

/-- The plan of a result with an error is empty. -/
def Resolution.Empty (r : Resolution P D R) : Prop :=
  r.ok = false ∧ r.ordered = [] ∧ r.writes = [] ∧ r.overlays = [] ∧ r.derivedDiscs = [] ∧
    r.plugins = [] ∧ r.resources = []

theorem finish_empty (providerOf : D → String) (r : Resolution P D R) (hok : r.ok = false)
    (h : (finish providerOf r).errors ≠ []) : (finish providerOf r).Empty := by
  unfold finish at h ⊢
  dsimp only at h ⊢
  split at h
  case isTrue hn =>
    rw [if_pos hn]
    exact ⟨hok, rfl, rfl, rfl, rfl, rfl, rfl⟩
  case isFalse hn => exact absurd h hn

theorem resolve_empty (providerOf : D → String) (order : List P × List String × List Diagnostic)
    (gather : List P → Gathered D R) (h : (resolve providerOf order gather).errors ≠ []) :
    (resolve providerOf order gather).Empty := by
  unfold resolve at h ⊢
  dsimp only at h ⊢
  split at h
  case isTrue hn =>
    rw [if_pos hn]
    exact ⟨rfl, rfl, rfl, rfl, rfl, rfl, rfl⟩
  case isFalse hn =>
    rw [if_neg hn]
    exact finish_empty providerOf _ rfl h

/-- Errors of the stage: those found before, and the reports. -/
theorem finish_errors_eq_nil_iff (providerOf : D → String) (r : Resolution P D R) :
    (finish providerOf r).errors = [] ↔
      r.errors = [] ∧ derivedDiscReports providerOf r.derivedDiscs = [] ∧
        (coalescePlugins r.plugins).errors = [] ∧
        (coalesceContributions r.writes r.overlays).reports = [] := by
  have he : (finish providerOf r).errors = (coalesceStage providerOf r).errors := by
    unfold finish
    dsimp only
    split <;> rfl
  rw [he]
  simp only [coalesceStage, Resolution.report, List.append_eq_nil_iff, List.map_eq_nil_iff,
    and_assoc]

theorem finish_cells (providerOf : D → String) (r : Resolution P D R) :
    (finish providerOf r).cells =
      if (finish providerOf r).errors = [] then (coalesceContributions r.writes r.overlays).cells
      else [] := by
  split
  case isTrue h =>
    unfold finish at h ⊢
    dsimp only at h ⊢
    split at h
    case isTrue hn => exact absurd h hn
    case isFalse hn =>
      rw [if_neg hn]
      rfl
  case isFalse h =>
    unfold finish at h ⊢
    dsimp only at h ⊢
    split at h
    case isTrue hn =>
      rw [if_pos hn]
      rfl
    case isFalse hn => exact absurd h hn

/-- Without a report the two lists may be permuted: nothing is reported, the same bytes are owned
with the same values, and the patched image is the same. -/
theorem coalesced_perm {ws ws' : List Write} {os os' : List Overlay} (hw : ws.Perm ws')
    (ho : os.Perm os') (h : (coalesceContributions ws os).reports = []) :
    (coalesceContributions ws' os').reports = [] ∧
      (∀ x, x ∈ (coalesceContributions ws' os').cells ↔
        x ∈ (coalesceContributions ws os).cells) ∧
      ∀ image : Place → Byte, paint image (coalesceContributions ws' os').cells =
        paint image (coalesceContributions ws os).cells := by
  have h' : (coalesceContributions ws' os').reports = [] :=
    (reports_eq_nil_iff ws' os').2 (((reports_eq_nil_iff ws os).1 h).perm hw ho)
  have hmem : ∀ x, x ∈ (coalesceContributions ws' os').cells ↔
      x ∈ (coalesceContributions ws os).cells := by
    intro x
    rw [mem_coalesced_cells h, mem_coalesced_cells h']
    simp only [hw.mem_iff, ho.mem_iff]
  exact ⟨h', hmem, fun image => paint_congr (coalesced_consistent h') hmem image⟩

/-- A permutation of the writes and of the overlays changes neither whether the result has an
error nor the bytes it writes. -/
theorem finish_perm (providerOf : D → String) (r : Resolution P D R) {ws' : List Write}
    {os' : List Overlay} (hw : r.writes.Perm ws') (ho : r.overlays.Perm os') :
    ((finish providerOf { r with writes := ws', overlays := os' }).errors = [] ↔
      (finish providerOf r).errors = []) ∧
    ∀ x, x ∈ (finish providerOf { r with writes := ws', overlays := os' }).cells ↔
      x ∈ (finish providerOf r).cells := by
  have herr : (finish providerOf { r with writes := ws', overlays := os' }).errors = [] ↔
      (finish providerOf r).errors = [] := by
    rw [finish_errors_eq_nil_iff, finish_errors_eq_nil_iff]
    have hreports : (coalesceContributions ws' os').reports = [] ↔
        (coalesceContributions r.writes r.overlays).reports = [] :=
      ⟨fun h => (coalesced_perm hw.symm ho.symm h).1, fun h => (coalesced_perm hw ho h).1⟩
    exact and_congr Iff.rfl (and_congr Iff.rfl (and_congr Iff.rfl hreports))
  refine ⟨herr, fun x => ?_⟩
  rw [finish_cells, finish_cells]
  by_cases h : (finish providerOf r).errors = []
  · rw [if_pos h, if_pos (herr.2 h)]
    exact (coalesced_perm hw ho ((finish_errors_eq_nil_iff providerOf r).1 h).2.2.2).2.1 x
  · rw [if_neg h, if_neg (fun he => h (herr.1 he))]

/-- The coalescing stage leaves a plan free of conflicts that does not depend on the order of the
contributions, or no plan at all. -/
theorem resolution_conflict_free (ws : List Write) (os : List Overlay) :
    ((coalesceContributions ws os).reports = [] →
      Consistent (coalesceContributions ws os).cells ∧
      (∀ a ∈ (coalesceContributions ws os).writes, ∀ b ∈ (coalesceContributions ws os).writes,
        Agree a.guardCells b.guardCells) ∧
      (∀ w ∈ ws, ∃ k ∈ (coalesceContributions ws os).writes, k = w ∨ SameWrite k w) ∧
      (∀ o ∈ os, ∃ k ∈ (coalesceContributions ws os).overlays, k = o ∨ SameOverlay k o) ∧
      ∀ ws' os', ws.Perm ws' → os.Perm os' → ∀ image : Place → Byte,
        paint image (coalesceContributions ws' os').cells =
          paint image (coalesceContributions ws os).cells) ∧
    (∀ (P D R : Type) (providerOf : D → String) (r : Resolution P D R),
      r.writes = ws → r.overlays = os → ∀ ws' os', ws.Perm ws' → os.Perm os' →
        ((finish providerOf { r with writes := ws', overlays := os' }).errors = [] ↔
          (finish providerOf r).errors = []) ∧
        ∀ x, x ∈ (finish providerOf { r with writes := ws', overlays := os' }).cells ↔
          x ∈ (finish providerOf r).cells) ∧
    ∀ (P D R : Type) (providerOf : D → String) (order : List P × List String × List Diagnostic)
      (gather : List P → Gathered D R),
      (resolve providerOf order gather).errors ≠ [] → (resolve providerOf order gather).Empty := by
  refine ⟨fun h => ⟨coalesced_consistent h, coalesced_guards_agree h, ?_, ?_, ?_⟩, ?_, ?_⟩
  · exact writes_kept (List.append_eq_nil_iff.1 h).1
  · exact overlays_kept (List.append_eq_nil_iff.1 h).2
  · exact fun ws' os' hw ho => (coalesced_perm hw ho h).2.2
  · intro P D R providerOf r hrw hro ws' os' hw ho
    exact finish_perm providerOf r (hrw ▸ hw) (hro ▸ ho)
  · exact fun P D R providerOf order gather => resolve_empty providerOf order gather

/-- A dense write over the first two bytes at `0x80010000`, with an id. -/
def denseWrite (id : String) : Write where
  target := .mainExe
  location := 0x80010000
  expected := [0x00, 0x01]
  replacement := [0x10, 0x11]
  fields := []
  packageId := id
  featureId := "f"

/-- The same two bytes guarded, the second one replaced. -/
def sparseWrite (value : Byte) : Write where
  target := .mainExe
  location := 0x80010000
  expected := [0x00, 0x01]
  replacement := []
  fields := [{ offset := 1, replacement := [value] }]
  packageId := "sparse"
  featureId := "f"

/-- Two packages that disagree on a byte. -/
def clashing : Gathered Unit Unit where
  writes := [denseWrite "a", sparseWrite 0x12]
  overlays := []
  derivedDiscs := []
  plugins := []
  resources := []
  errors := []

/-- A dense write, its duplicate and a sparse write of one of its bytes pass in either order; with
another value on that byte nothing is left of the plan. -/
theorem resolution_conflict_free_shared :
    (Consistent (coalesceContributions [denseWrite "a", denseWrite "b", sparseWrite 0x11] []).cells ∧
      ∀ image : Place → Byte,
        paint image (coalesceContributions [sparseWrite 0x11, denseWrite "b", denseWrite "a"] []).cells =
          paint image
            (coalesceContributions [denseWrite "a", denseWrite "b", sparseWrite 0x11] []).cells) ∧
    (resolve (P := String) (fun _ => "") (["a", "sparse"], [], []) (fun _ => clashing)).Empty := by
  have h := resolution_conflict_free [denseWrite "a", denseWrite "b", sparseWrite 0x11] []
  have hfree := h.1 (by decide)
  exact ⟨⟨hfree.1, hfree.2.2.2.2 _ [] (List.reverse_perm _).symm (List.Perm.refl _)⟩,
    h.2.2 String Unit Unit _ _ _ (by decide)⟩

end PsxRecomp.Mods
