import PsxRecomp.Mods.RequirementsMet

/-! The result of `effective_selections`. The loop ends; what it returns extends the player's
selections and is a fixed point. Every active requirement is met exactly if none was skipped, as
settled under the key of another, with a range of its own that the selected version misses. -/
namespace PsxRecomp.Mods
open Saturate
set_option autoImplicit false

/-- Every requirement of a selected package whose owner is on and whose conditions hold has its
feature on, in a version that satisfies its range. -/
def RequirementsMet (catalog : Catalog) (e : Selections) : Prop :=
  ∀ id package, findSelected catalog id (selectionOf e id) = some package →
    ∀ r ∈ package.requirements, requirementActive package (selectionOf e id) r = true →
      ∃ target required, Provides catalog e r.packageId r.requiredFeatureId target required ∧
        versionSatisfies target.version r.version = true ∧
        isFeatureEnabled target (selectionOf e r.packageId) required = true

/-- Deriving once more adds nothing. -/
def FixedPoint (catalog : Catalog) (e : Selections) : Prop :=
  ∀ fuel t, effectiveSelections catalog fuel e = some t → t.effective = e ∧ t.implicit = []

/-- A requirement settles its key where a pass comes to it, active, and nothing has settled the key before. -/
def Settles (catalog : Catalog) (selections : Selections) (id : String) (package : ModPackage)
    (r : ModFeatureRequirement) : Prop :=
  ∃ s v, Starts (derivePass catalog) Derivation.changed (startDerivation selections) s ∧
    Meets catalog s id package r v ∧
    requirementActive package (selectionOf v.effective id) r = true ∧ r.key id ∉ v.settled

/-- Where a requirement is active in a pass that changes nothing, and one with another range has settled the key
of both, the version of the required package that the player has selected is in its range. -/
def OtherRangesMet (catalog : Catalog) (selections : Selections) : Prop :=
  ∀ s t, Starts (derivePass catalog) Derivation.changed (startDerivation selections) s →
    derivePass catalog s = some t → t.changed = false →
    ∀ id package r r₀ v, Meets catalog s id package r v →
      requirementActive package (selectionOf v.effective id) r = true →
      Settles catalog selections id package r₀ → r₀.key id = r.key id → r₀.version ≠ r.version →
      ∀ target, findSelected catalog r.packageId (selectionOf selections r.packageId) =
        some target → versionSatisfies target.version r.version = true

variable {catalog : Catalog} {selections e : Selections} {id : String} {package : ModPackage}
  {r : ModFeatureRequirement} {s t v : Derivation} {fuel : ℕ}

/-! ## Runs -/

/-- What holds whenever a pass starts, and at the end. -/
structure Reached (catalog : Catalog) (selections : Selections) (s : Derivation) : Prop where
  settled : Settled catalog catalog.keys s
  extends' : Extends catalog selections s.effective

theorem reached_start (catalog : Catalog) (selections : Selections) :
    Reached catalog selections (startDerivation selections) where
  settled := ⟨List.nodup_nil, List.nil_subset _, fun _ _ h => absurd h List.not_mem_nil⟩
  extends' := Extends.refl catalog selections

theorem reached_pass (hs : Reached catalog selections s) (h : derivePass catalog s = some t) :
    Reached catalog selections t where
  settled := derivePass_settled hs.settled h
  extends' := hs.extends'.trans (derivePass_grows h).effective

theorem effectiveSelections_reached (h : effectiveSelections catalog fuel selections = some t) :
    Reached catalog selections t :=
  saturate_inv (fun _ _ => reached_pass) (reached_start catalog selections) h

/-- Each pass but the last settles a key, and there are only so many. -/
theorem effectiveSelections_total (catalog : Catalog) (selections : Selections)
    (hfuel : catalog.keys.length < fuel) :
    ∃ t, effectiveSelections catalog fuel selections = some t := by
  unfold effectiveSelections
  refine saturate_total (P := Reached catalog selections) (μ := fun s => s.settled.length)
    (B := catalog.keys.length) ?_ ?_ (reached_start catalog selections)
    (lt_of_le_of_lt (Nat.sub_le _ _) hfuel)
  · intro s hs
    exact (List.subperm_of_subset hs.settled.nodup hs.settled.known).length_le
  · intro s hs
    obtain ⟨t, ht⟩ := derivePass_total catalog s
    refine ⟨t, ht, reached_pass hs ht, fun hc => ?_⟩
    rcases (derivePass_grows ht).busy hc with hfalse | hlt
    · cases hfalse
    · exact hlt

/-! ## What settles a key -/

/-- The requirement that has settled the key was compared with the selected version. -/
def Compared (catalog : Catalog) (selections : Selections) (key : RequirementKey) : Prop :=
  ∃ id package r target, Settles catalog selections id package r ∧ r.key id = key ∧
    findSelected catalog r.packageId (selectionOf selections r.packageId) = some target ∧
    versionSatisfies target.version r.version = true

theorem Meets.extends (hm : Meets catalog s id package r v) (hs : Extends catalog selections s.effective) :
    Extends catalog selections v.effective :=
  hs.trans hm.grows.effective

theorem compared_step
    (hstart : Starts (derivePass catalog) Derivation.changed (startDerivation selections) s)
    (hs : Extends catalog selections s.effective) (hm : Meets catalog s id package r v)
    (hv : v.errors = [] → ∀ key ∈ v.settled, Compared catalog selections key)
    (h : Outcome catalog id package r v t) :
    t.errors = [] → ∀ key ∈ t.settled, Compared catalog selections key := by
  have hown (target : ModPackage)
      (hactive : requirementActive package (selectionOf v.effective id) r = true)
      (hnew : r.key id ∉ v.settled)
      (hsel : findSelected catalog r.packageId (selectionOf v.effective r.packageId) = some target)
      (hversion : versionSatisfies target.version r.version = true) :
      Compared catalog selections (r.key id) := by
    rw [(hm.extends hs).findSelected_eq] at hsel
    exact ⟨id, package, r, target, ⟨s, v, hstart, hm, hactive, hnew⟩, rfl, hsel, hversion⟩
  cases h with
  | idle => exact hv
  | skipped => exact hv
  | failed why =>
    intro herrors
    exact absurd herrors (List.append_ne_nil_of_right_ne_nil _ (List.cons_ne_nil _ _))
  | covered target required hactive hnew hp hversion _ =>
    intro herrors
    exact List.forall_mem_cons.2 ⟨hown target hactive hnew hp.selected hversion, hv herrors⟩
  | activated target required derived hactive hnew hp hversion _ _ _ =>
    intro herrors
    exact List.forall_mem_cons.2 ⟨hown target hactive hnew hp.selected hversion, hv herrors⟩

theorem compared_pass
    (hstart : Starts (derivePass catalog) Derivation.changed (startDerivation selections) s)
    (hreached : Reached catalog selections s)
    (hs : s.errors = [] → ∀ key ∈ s.settled, Compared catalog selections key)
    (h : derivePass catalog s = some t) :
    t.errors = [] → ∀ key ∈ t.settled, Compared catalog selections key :=
  derivePass_inv (P := fun v => v.errors = [] → ∀ key ∈ v.settled, Compared catalog selections key)
    (fun _ _ _ _ _ hm _ hv h =>
      compared_step hstart hreached.extends' hm hv (requirementStep_outcome h)) hs h

theorem compared_starts
    (hstart : Starts (derivePass catalog) Derivation.changed (startDerivation selections) s) :
    s.errors = [] → ∀ key ∈ s.settled, Compared catalog selections key := by
  induction hstart with
  | first => exact fun _ key hkey => absurd hkey List.not_mem_nil
  | next hs hp _ ih =>
    exact compared_pass hs (hs.inv (fun _ _ => reached_pass) (reached_start catalog selections)) ih hp

/-! ## The last pass -/

/-- In a pass that changes nothing and reports nothing, an active requirement is settled, and its
own range was compared unless its key was there before. -/
theorem Meets.quiet (hm : Meets catalog s id package r v) (h : derivePass catalog s = some t)
    (hquiet : t.changed = false) (herrors : t.errors = []) :
    v.effective = t.effective ∧ v.settled ⊆ t.settled ∧
      (requirementActive package (selectionOf t.effective id) r = true →
        r.key id ∈ v.settled ∨ r.key id ∈ t.settled ∧
          ∃ target, findSelected catalog r.packageId (selectionOf t.effective r.packageId) =
            some target ∧ versionSatisfies target.version r.version = true) := by
  obtain ⟨w, hout, hvw, hwt⟩ := hm.step h
  obtain ⟨hw, hte⟩ := hwt.quiet hquiet
  obtain ⟨_, hwe⟩ := hvw.quiet hw
  have he : v.effective = t.effective := (hte.trans hwe).symm
  refine ⟨he, (hvw.settled.trans hwt.settled).subset, ?_⟩
  rw [← he]
  intro hactive
  cases hout with
  | idle hidle =>
    rw [hactive] at hidle
    cases hidle
  | skipped _ hmem => exact .inl hmem
  | failed why =>
    have hnil := hwt.errors_nil herrors
    exact absurd hnil (List.append_ne_nil_of_right_ne_nil _ (List.cons_ne_nil _ _))
  | covered target required _ _ hp hversion _ =>
    exact .inr ⟨hwt.settled.subset List.mem_cons_self, target, hp.selected, hversion⟩
  | activated => cases hw

/-- At the end of a run without an error, the key of every active requirement is met. -/
theorem active_settled (h : derivePass catalog s = some t) (hquiet : t.changed = false)
    (herrors : t.errors = [])
    (hsel : findSelected catalog id (selectionOf t.effective id) = some package)
    (hr : r ∈ package.requirements)
    (hactive : requirementActive package (selectionOf t.effective id) r = true) :
    r.key id ∈ t.settled := by
  obtain ⟨v, hm⟩ := meets_of_quiet h hquiet hsel hr
  obtain ⟨_, hsub, hsettled⟩ := hm.quiet h hquiet herrors
  rcases hsettled hactive with hmem | ⟨hmem, _⟩
  · exact hsub hmem
  · exact hmem

theorem requirementsMet_of_ranges (hs : Reached catalog selections t)
    (hstart : Starts (derivePass catalog) Derivation.changed (startDerivation selections) s)
    (h : derivePass catalog s = some t) (hquiet : t.changed = false) (herrors : t.errors = [])
    (hranges : OtherRangesMet catalog selections) : RequirementsMet catalog t.effective := by
  intro id package hsel r hr hactive
  have hmem := active_settled h hquiet herrors hsel hr hactive
  obtain ⟨target, required, hp, hen⟩ := hs.settled.met herrors (r.key id) hmem
  refine ⟨target, required, hp, ?_, hen⟩
  have hreached := hstart.inv (fun _ _ => reached_pass) (reached_start catalog selections)
  obtain ⟨id₀, package₀, r₀, target₀, hsettles, hkey, htarget₀, hversion⟩ :=
    compared_pass hstart hreached (compared_starts hstart) h herrors _ hmem
  obtain rfl : id₀ = id := congrArg RequirementKey.packageId hkey
  have hpackageId : r₀.packageId = r.packageId := congrArg RequirementKey.requiredPackageId hkey
  have htarget : findSelected catalog r.packageId (selectionOf selections r.packageId) =
      some target := (hs.extends'.findSelected_eq _).symm.trans hp.selected
  by_cases hrange : r₀.version = r.version
  · -- the range of `r` itself was compared
    rw [hpackageId] at htarget₀
    obtain rfl := Option.some.inj (htarget.symm.trans htarget₀)
    exact hrange ▸ hversion
  · obtain ⟨v, hm⟩ := meets_of_quiet h hquiet hsel hr
    have hpackage : package₀ = package := by
      obtain ⟨s₀, v₀, hstart₀, hm₀, _⟩ := hsettles
      have hreached₀ := hstart₀.inv (fun _ _ => reached_pass) (reached_start catalog selections)
      have hsel₀ := hm₀.selected.1
      rw [(hm₀.extends hreached₀.extends').findSelected_eq] at hsel₀
      rw [hs.extends'.findSelected_eq, hsel₀] at hsel
      exact Option.some.inj hsel
    subst hpackage
    obtain ⟨he, _, _⟩ := hm.quiet h hquiet herrors
    rw [← he] at hactive
    exact hranges s t hstart h hquiet id₀ package₀ r r₀ v hm hactive hsettles hkey hrange target htarget

/-- The quiet pass of a run is its last. -/
theorem quiet_unique {pass : Derivation → Option Derivation} {s₀ t' : Derivation}
    (hstart : Starts pass Derivation.changed s₀ s) (h : pass s = some t')
    (hquiet : t'.changed = false)
    (hrun : saturate pass Derivation.changed fuel s₀ = some t) : t' = t := by
  have hfrom : ∃ m, saturate pass Derivation.changed m s = some t := by
    clear h hquiet
    induction hstart with
    | first => exact ⟨fuel, hrun⟩
    | next _ hp hc ih =>
      obtain ⟨m, hm⟩ := ih
      cases m with
      | zero => cases hm
      | succ m =>
        unfold saturate at hm
        rw [hp, Option.bind_some, if_pos hc] at hm
        exact ⟨m, hm⟩
  obtain ⟨m, hm⟩ := hfrom
  cases m with
  | zero => cases hm
  | succ m =>
    unfold saturate at hm
    rw [h, Option.bind_some, if_neg (Bool.eq_false_iff.1 hquiet)] at hm
    exact Option.some.inj hm

theorem ranges_of_requirementsMet (hrun : effectiveSelections catalog fuel selections = some t)
    (herrors : t.errors = []) (hmet : RequirementsMet catalog t.effective) :
    OtherRangesMet catalog selections := by
  intro s t' hstart h hquiet id package r r₀ v hm hactive _ _ _ target htarget
  obtain rfl := quiet_unique hstart h hquiet hrun
  obtain ⟨he, _, _⟩ := hm.quiet h hquiet herrors
  obtain ⟨hsel, hr⟩ := hm.selected
  rw [he] at hsel hactive
  obtain ⟨target', _, hp, hversion, _⟩ := hmet id package hsel r hr hactive
  have hselected := hp.selected
  rw [(effectiveSelections_reached hrun).extends'.findSelected_eq] at hselected
  obtain rfl := Option.some.inj (htarget.symm.trans hselected)
  exact hversion

/-! ## Deriving again -/

/-- Where the key of every active requirement is met, no step changes the selections. -/
theorem step_unchanged
    (hsel : findSelected catalog id (selectionOf e id) = some package)
    (hmet : requirementActive package (selectionOf e id) r = true → KeyMet catalog e (r.key id))
    (hs : s.effective = e ∧ s.implicit = [])
    (h : requirementStep catalog id package s r = some t) :
    t.effective = e ∧ t.implicit = [] := by
  obtain ⟨rfl, himplicit⟩ := hs
  cases requirementStep_outcome h with
  | idle | skipped | failed | covered => exact ⟨rfl, himplicit⟩
  | activated target required _ hactive _ hp _ hoff =>
    obtain ⟨target', required', hp', hen⟩ := hmet hactive
    obtain rfl := Option.some.inj (hp.selected.symm.trans hp'.selected)
    obtain rfl := Option.some.inj (hp.found.symm.trans hp'.found)
    have hclash : true = false := hen.symm.trans hoff
    cases hclash

theorem pass_unchanged
    (hmet : ∀ id package, findSelected catalog id (selectionOf e id) = some package →
      ∀ r ∈ package.requirements, requirementActive package (selectionOf e id) r = true →
        KeyMet catalog e (r.key id))
    (hs : s.effective = e ∧ s.implicit = []) (h : derivePass catalog s = some t) :
    t.effective = e ∧ t.implicit = [] := by
  refine foldlM_inv (P := fun s => s.effective = e ∧ s.implicit = []) (fun p _ s t hs h => ?_) hs h
  unfold packageStep at h
  split at h
  case h_1 =>
    obtain rfl := Option.some.inj h
    exact hs
  case h_2 package hsel =>
    rw [hs.1] at hsel
    exact foldlM_inv (P := fun s => s.effective = e ∧ s.implicit = [])
      (fun r hr s t hs h => step_unchanged hsel (hmet p.1 package hsel r hr) hs h) hs h

theorem fixedPoint_of_run (hs : Reached catalog selections t) (h : derivePass catalog s = some t)
    (hquiet : t.changed = false) (herrors : t.errors = []) : FixedPoint catalog t.effective := by
  intro fuel t' hrun
  have hmet : ∀ id package, findSelected catalog id (selectionOf t.effective id) = some package →
      ∀ r ∈ package.requirements,
        requirementActive package (selectionOf t.effective id) r = true →
          KeyMet catalog t.effective (r.key id) := fun id package hsel r hr hactive =>
    hs.settled.met herrors _ (active_settled h hquiet herrors hsel hr hactive)
  exact saturate_inv (P := fun s => s.effective = t.effective ∧ s.implicit = [])
    (fun _ _ hs h => pass_unchanged hmet hs h) ⟨rfl, rfl⟩ hrun

/-! ## The result -/

/-- The derivation of the selections of a session ends. Where it reports nothing, its result
extends the player's selections, is a fixed point, and meets every active requirement exactly if
the ranges that no comparison has settled are met. -/
theorem effective_selections_met_iff (catalog : Catalog) (selections : Selections) :
    (∃ bound, ∀ fuel, bound ≤ fuel → ∃ t, effectiveSelections catalog fuel selections = some t) ∧
      ∀ fuel t, effectiveSelections catalog fuel selections = some t → t.errors = [] →
        ((RequirementsMet catalog t.effective ∧ Extends catalog selections t.effective ∧
          FixedPoint catalog t.effective) ↔ OtherRangesMet catalog selections) := by
  constructor
  · exact ⟨catalog.keys.length + 1, fun fuel hfuel =>
      effectiveSelections_total catalog selections hfuel⟩
  · intro fuel t hrun herrors
    have hreached := effectiveSelections_reached hrun
    obtain ⟨s, hstart, hlast, hquiet⟩ := saturate_last hrun
    constructor
    · rintro ⟨hmet, _, _⟩
      exact ranges_of_requirementsMet hrun herrors hmet
    · intro hranges
      exact ⟨requirementsMet_of_ranges hreached hstart hlast hquiet herrors hranges,
        hreached.extends', fixedPoint_of_run hreached hlast hquiet herrors⟩

/-! ## One key, two ranges -/

def sampleTarget : ModPackage :=
  { version := "1.0.0", features := [⟨"ram", false, false⟩], options := [], constraints := []
    requirements := [] }

/-- A package whose feature requires another package's in each of the given ranges. -/
def sampleOwner (ranges : List String) : ModPackage :=
  { version := "1.0.0", features := [⟨"extras", true, false⟩], options := [], constraints := []
    requirements := ranges.map fun range =>
      { featureId := "extras", packageId := "memory", version := range, requiredFeatureId := "ram"
        conditions := [] } }

def sampleCatalog (ranges : List String) : Catalog where
  packages := [("game", [sampleOwner ranges]), ("memory", [sampleTarget])]
  idsSorted := by
    show ["game", "memory"].Pairwise (· < ·)
    decide
  versionsSorted := by
    intro p hp
    rcases List.mem_pair.1 hp with rfl | rfl <;> exact List.pairwise_singleton _ _

theorem sample_selected (ranges : List String) {selection : ModSelection}
    (h : selection.version = "") :
    findSelected (sampleCatalog ranges) "game" selection = some (sampleOwner ranges) ∧
      findSelected (sampleCatalog ranges) "memory" selection = some sampleTarget := by
  unfold findSelected
  rw [h]
  exact ⟨rfl, rfl⟩

/-- The second range is above the only version there is; nothing is reported, since the first has
settled the pair of features. -/
theorem second_range_unmet : ¬ ∀ catalog selections fuel t,
    effectiveSelections catalog fuel selections = some t → t.errors = [] →
      RequirementsMet catalog t.effective := by
  intro h
  have hrun : ((effectiveSelections (sampleCatalog [">=1.0.0", ">=2.0.0"]) 2 fun _ => none).map
      fun t => (t.errors, (selectionOf t.effective "game").version,
        requirementActive (sampleOwner [">=1.0.0", ">=2.0.0"]) (selectionOf t.effective "game")
          ⟨"extras", "memory", ">=2.0.0", "ram", []⟩,
        (selectionOf t.effective "memory").version)) = some ([], "", true, "") := by
    decide
  obtain ⟨t, ht, hvalues⟩ := Option.map_eq_some_iff.1 hrun
  simp only [Prod.mk.injEq] at hvalues
  obtain ⟨herrors, hgame, hactive, hmemory⟩ := hvalues
  obtain ⟨target, required, hp, hversion, _⟩ := h _ _ _ t ht herrors "game"
    (sampleOwner [">=1.0.0", ">=2.0.0"]) (sample_selected _ hgame).1
    ⟨"extras", "memory", ">=2.0.0", "ram", []⟩ (by decide) hactive
  obtain rfl := Option.some.inj ((sample_selected _ hmemory).2.symm.trans hp.selected)
  have hmissed : versionSatisfies sampleTarget.version ">=2.0.0" = false := by decide
  rw [hversion] at hmissed
  cases hmissed

theorem sample_requirement {ranges : List String} (h : findSelected (sampleCatalog ranges) id (selectionOf e id) =
    some package) (hr : r ∈ package.requirements) : r.packageId = "memory" ∧ r.version ∈ ranges := by
  have hmem := mem_of_findSelected h
  unfold Catalog.versions at hmem
  split at hmem
  case h_1 => exact absurd hmem List.not_mem_nil
  case h_2 p hp =>
    rcases List.mem_pair.1 (List.mem_of_find?_eq_some hp) with rfl | rfl
    · obtain rfl := List.mem_singleton.1 hmem
      obtain ⟨range, hrange, rfl⟩ := List.mem_map.1 hr
      exact ⟨rfl, hrange⟩
    · obtain rfl := List.mem_singleton.1 hmem
      exact absurd hr List.not_mem_nil

/-- Two ranges under one key, the selected version in both: the run turns the feature on and meets both. -/
theorem two_ranges_met : ∃ t,
    effectiveSelections (sampleCatalog [">=1.0.0", ">=0.5.0"]) 2 (fun _ => none) = some t ∧
      t.errors = [] ∧ RequirementsMet (sampleCatalog [">=1.0.0", ">=0.5.0"]) t.effective ∧
      Extends (sampleCatalog [">=1.0.0", ">=0.5.0"]) (fun _ => none) t.effective ∧
      FixedPoint (sampleCatalog [">=1.0.0", ">=0.5.0"]) t.effective := by
  have hrun : ((effectiveSelections (sampleCatalog [">=1.0.0", ">=0.5.0"]) 2 fun _ => none).map
      Derivation.errors) = some [] := by decide
  obtain ⟨t, ht, herrors⟩ := Option.map_eq_some_iff.1 hrun
  refine ⟨t, ht, herrors, ((effective_selections_met_iff _ _).2 2 t ht herrors).2 ?_⟩
  intro s u _ _ _ id package r r₀ v hm _ _ _ _ target htarget
  obtain ⟨hpackageId, hrange⟩ := sample_requirement hm.selected.1 hm.selected.2
  rw [hpackageId, (sample_selected _ rfl).2] at htarget
  obtain rfl := Option.some.inj htarget
  rcases List.mem_pair.1 hrange with h | h
  · rw [h]
    decide
  · rw [h]
    decide

end PsxRecomp.Mods
