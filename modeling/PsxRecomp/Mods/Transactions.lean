import PsxRecomp.Mods.FeatureEdits

/-! An edit ends; what it stores meets every constraint of the package, and what it turned off is
the least set of features whose absence makes the requirements hold. -/
namespace PsxRecomp.Mods
open Saturate
set_option autoImplicit false

variable {package : ModPackage} {s t u : ModSelection} {featureId g : String} {root T : Set String}

/-! ## Features and values after an edit -/

theorem enabledIn_eq (package : ModPackage) (s : ModSelection) (g : String) :
    enabledIn package s g = match findFeature package g with
      | none => false
      | some feature =>
        if feature.legacy then s.enabled
        else match s.features g with
          | some selected => if selected.hasEnabled then selected.enabled else feature.defaultEnabled
          | none => feature.defaultEnabled := by
  unfold enabledIn
  cases hfound : findFeature package g with
  | none => rfl
  | some feature =>
    have hid := findFeature_id hfound
    dsimp only
    unfold isFeatureEnabled findFeatureSelection
    rw [hid, hfound]
    cases hlegacy : feature.legacy with
    | true => rfl
    | false =>
      cases hselected : s.features g with
      | none => simp [hlegacy]
      | some selected => simp [hlegacy]

theorem enabledIn_modify (f : ModFeatureSelection → ModFeatureSelection)
    (hf : ∀ x, (f x).hasEnabled = x.hasEnabled ∧ (f x).enabled = x.enabled) :
    enabledIn package (s.modifyFeature featureId f) g = enabledIn package s g := by
  rw [enabledIn_eq, enabledIn_eq]
  cases findFeature package g with
  | none => rfl
  | some feature =>
    dsimp only
    by_cases hg : g = featureId
    · subst hg
      rw [modifyFeature_features_self]
      dsimp only
      rw [(hf _).1, (hf _).2]
      unfold featureOf
      cases s.features g <;> rfl
    · rw [modifyFeature_features_ne hg]
      rfl

theorem enabledIn_set {feature : ModFeature} (hfound : findFeature package featureId = some feature)
    (hlegacy : feature.legacy = false) (b : Bool) (g : String) :
    enabledIn package (setFeatureSelected s featureId b) g =
      if g = featureId then b else enabledIn package s g := by
  rw [enabledIn_eq, enabledIn_eq]
  split_ifs with hg
  · subst hg
    rw [hfound]
    dsimp only
    rw [hlegacy, setFeatureSelected, modifyFeature_features_self]
    rfl
  · rw [setFeatureSelected, modifyFeature_features_ne hg]
    rfl

theorem selectedOptionValue_eq (package : ModPackage) (s : ModSelection) (featureId id : String) :
    selectedOptionValue package s featureId id = match findFeature package featureId with
      | none => none
      | some feature =>
        if feature.legacy then s.values id else (featureOf s featureId).values id := by
  unfold selectedOptionValue findFeatureSelection featureOf
  cases findFeature package featureId with
  | none => rfl
  | some feature =>
    dsimp only
    cases feature.legacy with
    | true => rfl
    | false => cases s.features featureId <;> rfl

theorem effectiveOptionValue_set (b : Bool) (g id : String) :
    effectiveOptionValue package (setFeatureSelected s featureId b) g id =
      effectiveOptionValue package s g id := by
  have hvalues : (featureOf (setFeatureSelected s featureId b) g).values =
      (featureOf s g).values := by
    unfold setFeatureSelected
    by_cases hg : g = featureId
    · rw [hg, featureOf_modify_self]
    · rw [featureOf_modify_ne hg]
  unfold effectiveOptionValue
  rw [selectedOptionValue_eq, selectedOptionValue_eq, hvalues]
  rfl

/-! ## Requirements -/

theorem requirementFailure_none {rules : PackageRules package} {c : ModConstraint} :
    requirementFailure rules s c = none ↔ (enabledIn package s c.featureId = true →
      enabledIn package s c.requiredFeatureId = true ∧ requiredValueSet package s c = true) := by
  unfold requirementFailure
  cases enabledIn package s c.featureId <;> cases enabledIn package s c.requiredFeatureId <;>
    cases requiredValueSet package s c <;> simp

/-- With the features of `T` off, and the option values of `t`, the requirement holds. -/
def HoldsWithout (package : ModPackage) (s t : ModSelection) (T : Set String)
    (c : ModConstraint) : Prop :=
  enabledIn package s c.featureId = true → c.featureId ∉ T →
    enabledIn package s c.requiredFeatureId = true ∧ c.requiredFeatureId ∉ T ∧
      requiredValueSet package t c = true

/-- The sets of features, those of `root` among them, whose absence makes every requirement of
the package hold. -/
def Mends (package : ModPackage) (s t : ModSelection) (root : Set String) : Set (Set String) :=
  {T | root ⊆ T ∧ ∀ c ∈ package.constraints, c.kind = .requiresFeature →
    HoldsWithout package s t T c}

def switchedOff (package : ModPackage) (s t : ModSelection) : Set String :=
  {g | enabledIn package s g = true ∧ enabledIn package t g = false}

/-- `t` is `s` with features turned off. -/
structure Lowered (package : ModPackage) (s t : ModSelection) : Prop where
  version : t.version = s.version
  enabled : ∀ g, enabledIn package t g = true → enabledIn package s g = true
  values : ∀ g id, effectiveOptionValue package t g id = effectiveOptionValue package s g id

theorem Lowered.refl (s : ModSelection) : Lowered package s s :=
  ⟨rfl, fun _ h => h, fun _ _ => rfl⟩

theorem Lowered.valueSet (h : Lowered package s t) (c : ModConstraint) :
    requiredValueSet package t c = requiredValueSet package s c := by
  unfold requiredValueSet
  rw [h.values]

theorem Lowered.mends (h : Lowered package s t) (v : ModSelection) :
    Mends package v t root = Mends package v s root := by
  unfold Mends HoldsWithout
  simp only [h.valueSet]

/-! ## The cascade -/

/-- Features were turned off, and only such as every mending set has. -/
structure Cascaded (package : ModPackage) (s t : ModSelection) : Prop where
  lowered : Lowered package s t
  forced : ∀ T ∈ Mends package s s ∅, switchedOff package s t ⊆ T

theorem Cascaded.refl (s : ModSelection) : Cascaded package s s where
  lowered := Lowered.refl s
  forced T _ g hg := by
    have h := hg.1.symm.trans hg.2
    cases h

/-- An unmet requirement of a feature that is on: the feature is in every mending set. -/
theorem Cascaded.turn_off {rules : PackageRules package} (h : Cascaded package s t)
    {c : ModConstraint} (hc : c ∈ package.constraints) (hkind : c.kind = .requiresFeature)
    {feature : ModFeature} (hfound : findFeature package c.featureId = some feature)
    (hlegacy : feature.legacy = false) (hunmet : requirementFailure rules t c ≠ none) :
    Cascaded package s (setFeatureSelected t c.featureId false) := by
  constructor
  · refine ⟨h.lowered.version, fun g hg => ?_, fun g id => ?_⟩
    · rw [enabledIn_set hfound hlegacy] at hg
      split_ifs at hg
      exact h.lowered.enabled g hg
    · rw [effectiveOptionValue_set]
      exact h.lowered.values g id
  · intro T hT g hg
    obtain ⟨hgs, hgt⟩ := hg
    rw [enabledIn_set hfound hlegacy] at hgt
    by_cases hown : g = c.featureId
    · subst hown
      by_contra hout
      -- otherwise the requirement would hold without `T`, hence also now
      obtain ⟨hreq, hreqT, hvalue⟩ := hT.2 c hc hkind hgs hout
      refine hunmet (requirementFailure_none.mpr fun _ => ⟨?_, ?_⟩)
      · by_contra hoff
        exact hreqT (h.forced T hT ⟨hreq, by simpa using hoff⟩)
      · rw [h.lowered.valueSet]
        exact hvalue
    · rw [if_neg hown] at hgt
      exact h.forced T hT ⟨hgs, hgt⟩

theorem enabledIn_found {feature : ModFeature}
    (hfound : findFeature package featureId = some feature) :
    enabledIn package s featureId = isFeatureEnabled package s feature := by
  unfold enabledIn
  rw [hfound]

/-- A turn of the loop changes nothing or turns the feature of an unmet requirement off. -/
theorem cascadeStep_cases (rules : PackageRules package) (x : ModSelection × Bool)
    (c : ModConstraint) :
    cascadeStep rules x c = x ∨
      ∃ feature, c.kind = .requiresFeature ∧ findFeature package c.featureId = some feature ∧
        feature.legacy = false ∧ enabledIn package x.1 c.featureId = true ∧
        requirementFailure rules x.1 c ≠ none ∧
        cascadeStep rules x c = (setFeatureSelected x.1 c.featureId false, true) := by
  unfold cascadeStep
  by_cases hkind : c.kind = .requiresFeature
  · rw [if_neg (not_not.mpr hkind)]
    cases hfound : findFeature package c.featureId with
    | none => exact .inl rfl
    | some feature =>
      have hen := enabledIn_found (s := x.1) hfound
      dsimp only
      by_cases hskip : feature.legacy = true ∨ (!isFeatureEnabled package x.1 feature) = true
      · rw [if_pos hskip]
        exact .inl rfl
      · rw [if_neg hskip]
        simp only [not_or, Bool.not_eq_true, Bool.not_eq_false'] at hskip
        by_cases hmet : (requirementFailure rules x.1 c).isNone = true
        · rw [if_pos hmet]
          exact .inl rfl
        · rw [if_neg hmet]
          refine .inr ⟨feature, hkind, rfl, hskip.1, hen.trans hskip.2, fun h => hmet ?_, rfl⟩
          rw [h]
          rfl
  · rw [if_pos hkind]
    exact .inl rfl

theorem foldl_cascaded {rules : PackageRules package} {cs : List ModConstraint}
    (hcs : cs ⊆ package.constraints) {x : ModSelection × Bool} (hx : Cascaded package s x.1) :
    Cascaded package s (cs.foldl (cascadeStep rules) x).1 := by
  induction cs generalizing x with
  | nil => exact hx
  | cons c cs ih =>
    obtain ⟨hc, hrest⟩ := List.cons_subset.mp hcs
    apply ih hrest
    obtain hsame | ⟨feature, hkind, hfound, hlegacy, -, hunmet, hstep⟩ :=
      cascadeStep_cases rules x c
    · rw [hsame]
      exact hx
    · rw [hstep]
      exact hx.turn_off hc hkind hfound hlegacy hunmet

/-- The features that requirements could still turn off, those already off. -/
def offDependents (package : ModPackage) (t : ModSelection) : Finset String :=
  (package.constraints.map ModConstraint.featureId).toFinset.filter
    fun g => enabledIn package t g = false

theorem offDependents_mono (h : Lowered package s t) :
    offDependents package s ⊆ offDependents package t := by
  intro g hg
  rw [offDependents, Finset.mem_filter] at hg ⊢
  refine ⟨hg.1, ?_⟩
  by_contra hon
  have hs := h.enabled g (by simpa using hon)
  rw [hg.2] at hs
  cases hs

/-- A run of turns that changes something turns off a feature that was on. -/
theorem foldl_grows {rules : PackageRules package} {cs : List ModConstraint}
    (hcs : cs ⊆ package.constraints) {x : ModSelection × Bool} (hx : x.2 = false)
    (h : (cs.foldl (cascadeStep rules) x).2 = true) :
    (offDependents package x.1).card <
      (offDependents package (cs.foldl (cascadeStep rules) x).1).card := by
  induction cs generalizing x with
  | nil =>
    rw [List.foldl_nil, hx] at h
    cases h
  | cons c cs ih =>
    obtain ⟨hc, hrest⟩ := List.cons_subset.mp hcs
    rw [List.foldl_cons] at h ⊢
    obtain hsame | ⟨feature, hkind, hfound, hlegacy, hon, hunmet, hstep⟩ :=
      cascadeStep_cases rules x c
    · rw [hsame] at h ⊢
      exact ih hrest hx h
    · have hoff : Cascaded package x.1 (setFeatureSelected x.1 c.featureId false) :=
        (Cascaded.refl x.1).turn_off hc hkind hfound hlegacy hunmet
      have hown : Cascaded package (cascadeStep rules x c).1
          (cs.foldl (cascadeStep rules) (cascadeStep rules x c)).1 :=
        foldl_cascaded hrest (Cascaded.refl _)
      rw [hstep] at hown ⊢
      refine lt_of_lt_of_le (Finset.card_lt_card ?_)
        (Finset.card_le_card (offDependents_mono hown.lowered))
      rw [Finset.ssubset_iff_of_subset (offDependents_mono hoff.lowered)]
      have hmem : c.featureId ∈ (package.constraints.map ModConstraint.featureId).toFinset :=
        List.mem_toFinset.mpr (List.mem_map_of_mem hc)
      refine ⟨c.featureId, Finset.mem_filter.mpr ⟨hmem, ?_⟩, fun hmem' => ?_⟩
      · rw [enabledIn_set hfound hlegacy, if_pos rfl]
      · have hold := (Finset.mem_filter.mp hmem').2
        rw [hon] at hold
        cases hold

/-- The cascade ends. -/
theorem cascadeUnsatisfied_total (rules : PackageRules package) (s : ModSelection) :
    ∃ t, cascadeUnsatisfied rules s = some t := by
  have hbound : ∀ t, (offDependents package t).card ≤ package.constraints.length := by
    intro t
    refine (Finset.card_filter_le _ _).trans ((List.toFinset_card_le _).trans ?_)
    rw [List.length_map]
  have hpass : ∀ x : ModSelection × Bool, True →
      ∃ t, some (package.constraints.foldl (cascadeStep rules) (x.1, false)) = some t ∧ True ∧
        (t.2 = true → (offDependents package x.1).card < (offDependents package t.1).card) :=
    fun x _ => ⟨_, rfl, trivial, foldl_grows (List.Subset.refl _) rfl⟩
  have hfuel : package.constraints.length - (offDependents package s).card <
      package.constraints.length + 1 := by omega
  obtain ⟨x, hx⟩ := saturate_total (P := fun _ => True)
    (μ := fun x : ModSelection × Bool => (offDependents package x.1).card)
    (s := (s, true)) (fun x _ => hbound x.1) hpass trivial hfuel
  exact ⟨x.1, by rw [cascadeUnsatisfied, hx]; rfl⟩

theorem cascadeUnsatisfied_spec {rules : PackageRules package}
    (h : cascadeUnsatisfied rules s = some t) : Cascaded package s t := by
  obtain ⟨x, hx, rfl⟩ := Option.map_eq_some_iff.mp h
  refine saturate_inv (P := fun y => Cascaded package s y.1) (fun y z hy hz => ?_)
    (Cascaded.refl s) hx
  obtain rfl := Option.some.inj hz
  exact foldl_cascaded (List.Subset.refl _) hy

/-! ## What is left on -/

def SatisfiesConstraints (rules : PackageRules package) (t : ModSelection) : Prop :=
  ∀ c ∈ rules.constraints, constraintFailure rules t c = none

theorem packageConstraintsFailure_none {rules : PackageRules package} :
    packageConstraintsFailure rules t = none ↔ SatisfiesConstraints rules t := by
  unfold packageConstraintsFailure SatisfiesConstraints
  rw [List.findSome?_eq_none_iff]
  simp only [Option.map_eq_none_iff]

theorem SatisfiesConstraints.requirement {rules : PackageRules package}
    (h : SatisfiesConstraints rules t) {c : ModConstraint} (hc : c ∈ package.constraints)
    (hkind : c.kind = .requiresFeature) : requirementFailure rules t c = none := by
  rw [← rules.same] at hc
  obtain ⟨full, hfull, rfl⟩ := List.mem_map.mp hc
  have hnone := h full hfull
  unfold constraintFailure at hnone
  rwa [hkind] at hnone

/-- `u` is `s` with the features of `root` off, and perhaps other option values; the cascade from
there meets all requirements. What is off then, and was on, is the least that mends them. -/
theorem isLeast_switchedOff {rules : PackageRules package} (h : Cascaded package u t)
    (hsat : SatisfiesConstraints rules t)
    (hroot : ∀ g, enabledIn package u g = true ↔ enabledIn package s g = true ∧ g ∉ root) :
    IsLeast (Mends package s t root) (root ∪ switchedOff package s t) := by
  have hoff : ∀ g, enabledIn package t g = true → enabledIn package s g = true ∧ g ∉ root :=
    fun g hg => (hroot g).mp (h.lowered.enabled g hg)
  constructor
  · refine ⟨Set.subset_union_left, fun c hc hkind hon hout => ?_⟩
    simp only [Set.mem_union, not_or] at hout
    have hstill : enabledIn package t c.featureId = true := by
      by_contra hdown
      exact hout.2 ⟨hon, by simpa using hdown⟩
    obtain ⟨hreq, hvalue⟩ := requirementFailure_none.mp (hsat.requirement hc hkind) hstill
    obtain ⟨hreqs, hreqroot⟩ := hoff _ hreq
    refine ⟨hreqs, fun hmem => ?_, hvalue⟩
    obtain hmem | hmem := hmem
    · exact hreqroot hmem
    · have hdown := hmem.2
      rw [hreq] at hdown
      cases hdown
  · intro T hT
    have hmends : T ∈ Mends package u u ∅ := by
      rw [← h.lowered.mends]
      refine ⟨Set.empty_subset T, fun c hc hkind hon hout => ?_⟩
      obtain ⟨hreq, hreqT, hvalue⟩ := hT.2 c hc hkind ((hroot _).mp hon).1 hout
      exact ⟨(hroot _).mpr ⟨hreq, fun hmem => hreqT (hT.1 hmem)⟩, hreqT, hvalue⟩
    refine Set.union_subset hT.1 fun g hg => ?_
    by_cases hmem : g ∈ root
    · exact hT.1 hmem
    · exact h.forced T hmends ⟨(hroot g).mpr ⟨hg.1, hmem⟩, hg.2⟩

/-! ## The edits, after their checks -/

theorem run_of_not_selected (m : ModPackageManager) (packageId : String) (edit : FeatureEdit)
    (h : m.selectedPackage packageId = none) :
    ∃ message, edit.run m packageId = some (.error message, m) := by
  cases edit with
  | enable id => exact ⟨_, by rw [FeatureEdit.run, ModPackageManager.setFeatureEnabled, h]⟩
  | disable id => exact ⟨_, by rw [FeatureEdit.run, ModPackageManager.setFeatureEnabled, h]⟩
  | setOption id option value =>
    exact ⟨_, by rw [FeatureEdit.run, ModPackageManager.setFeatureOption, h]⟩

theorem run_of_not_admitted (m : ModPackageManager) (packageId : String) (edit : FeatureEdit)
    (hsel : m.selectedPackage packageId = some package)
    (h : edit.admitted (m.rules package) = false) :
    ∃ message, edit.run m packageId = some (.error message, m) := by
  rw [FeatureEdit.admitted, Bool.and_eq_false_iff] at h
  cases edit with
  | enable id | disable id =>
    obtain h | h := h
    · rw [Option.isSome_eq_false_iff, Option.isNone_iff_eq_none] at h
      refine ⟨"unknown package feature", ?_⟩
      rw [FeatureEdit.run, ModPackageManager.setFeatureEnabled, hsel]
      dsimp only
      rw [show (findFeature package id).filter (!·.legacy) = none from h]
    · cases h
  | setOption id option value =>
    rw [FeatureEdit.run, ModPackageManager.setFeatureOption, hsel]
    dsimp only
    cases hfound : (findFeature package id).filter (!·.legacy) with
    | none => exact ⟨_, rfl⟩
    | some feature =>
      cases hoption : findOption package id option with
      | none => exact ⟨_, rfl⟩
      | some o =>
        obtain h | h := h
        · rw [FeatureEdit.featureId, hfound] at h
          cases h
        · rw [FeatureEdit.allowed, hoption] at h
          dsimp only at h ⊢
          rw [h]
          exact ⟨_, rfl⟩

/-- An edit that passes the checks makes its selection and stores it if the constraints hold. -/
theorem run_of_admitted (m : ModPackageManager) (packageId : String) (edit : FeatureEdit)
    (hsel : m.selectedPackage packageId = some package)
    (h : edit.admitted (m.rules package) = true) :
    edit.run m packageId =
      (edit.candidate (m.rules package) (selectionOf m.selections packageId)).map fun
        | .error e => (.error e, m.touch packageId)
        | .ok t => (m.touch packageId).storeChecked package packageId edit.featureId t := by
  rw [FeatureEdit.admitted, Bool.and_eq_true_iff, Option.isSome_iff_exists] at h
  obtain ⟨⟨feature, hfound⟩, hallowed⟩ := h
  cases edit with
  | enable id =>
    rw [FeatureEdit.run, ModPackageManager.setFeatureEnabled, hsel]
    dsimp only
    rw [show (findFeature package id).filter (!·.legacy) = some feature from hfound]
    simp only [if_true, FeatureEdit.candidate, Option.map_map]
    congr 1
    funext r
    cases r <;> rfl
  | disable id =>
    rw [FeatureEdit.run, ModPackageManager.setFeatureEnabled, hsel]
    dsimp only
    rw [show (findFeature package id).filter (!·.legacy) = some feature from hfound]
    simp only [Bool.false_eq_true, if_false, FeatureEdit.candidate, Option.map_map]
    rfl
  | setOption id option value =>
    rw [FeatureEdit.run, ModPackageManager.setFeatureOption, hsel]
    dsimp only
    rw [show (findFeature package id).filter (!·.legacy) = some feature from hfound]
    rw [FeatureEdit.allowed] at hallowed
    cases hoption : findOption package id option with
    | none =>
      rw [hoption] at hallowed
      cases hallowed
    | some o =>
      rw [hoption] at hallowed
      dsimp only at hallowed ⊢
      rw [hallowed]
      simp only [Bool.not_true, Bool.false_eq_true, if_false, FeatureEdit.candidate,
        Option.map_map]
      rfl

theorem candidate_total (rules : PackageRules package) (s : ModSelection) (edit : FeatureEdit) :
    ∃ r, edit.candidate rules s = some r := by
  cases edit with
  | enable id =>
    obtain ⟨r, hr⟩ : ∃ r, applyFeatureRequirements package package.depth [] s id = some r :=
      applyFeatureRequirements_total List.nodup_nil (List.nil_subset _)
        List.mem_cons_self (Nat.le_add_right _ _)
    exact ⟨_, by rw [FeatureEdit.candidate, hr]; rfl⟩
  | disable id =>
    obtain ⟨t, ht⟩ := cascadeUnsatisfied_total rules (setFeatureSelected s id false)
    exact ⟨_, by rw [FeatureEdit.candidate, ht]; rfl⟩
  | setOption id option value =>
    obtain ⟨t, ht⟩ :=
      cascadeUnsatisfied_total rules (ModPackageManager.setOptionValue s id option value)
    exact ⟨_, by rw [FeatureEdit.candidate, ht]; rfl⟩

/-! ## The version stays -/

def SameVersion (s : ModSelection) : Except String ModSelection → Prop
  | .error _ => True
  | .ok t => t.version = s.version

theorem applyConstraint_version
    {recurse : ModSelection → String → Option (Except String ModSelection)}
    (hrec : ∀ s id r, recurse s id = some r → SameVersion s r)
    {r r' : Except String ModSelection} {k : ModConstraint} (hr : SameVersion s r)
    (h : applyConstraint package featureId recurse r k = some r') : SameVersion s r' := by
  unfold applyConstraint at h
  match r, hr, h with
  | .error e, _, h =>
    obtain rfl := Option.some.inj h
    trivial
  | .ok u, hu, h =>
    dsimp only at h
    split at h
    · obtain rfl := Option.some.inj h
      exact hu
    · split at h
      · obtain rfl := Option.some.inj h
        trivial
      · split at h
        · obtain rfl := Option.some.inj h
          trivial
        · have hres := hrec _ _ _ h
          have hforce : (forceOption k (setFeatureSelected u k.requiredFeatureId true)).version =
              u.version := by
            unfold forceOption
            split_ifs <;> rfl
          match r', hres with
          | .error _, _ => trivial
          | .ok b, hb => exact hb.trans (hforce.trans hu)

theorem applyFeatureRequirements_version {fuel : ℕ} {visiting : List String}
    {r : Except String ModSelection}
    (h : applyFeatureRequirements package fuel visiting s featureId = some r) :
    SameVersion s r := by
  induction fuel generalizing visiting s featureId r with
  | zero => cases h
  | succ fuel ih =>
    unfold applyFeatureRequirements at h
    split at h
    · obtain rfl := Option.some.inj h
      exact rfl
    · have hstart : SameVersion s (.ok s) := rfl
      exact foldlM_inv
        (fun k _ r r' hr hr' => applyConstraint_version (fun _ _ _ h => ih h) hr hr') hstart h

theorem candidate_version {rules : PackageRules package} {edit : FeatureEdit}
    (h : edit.candidate rules s = some (.ok t)) : t.version = s.version := by
  cases edit with
  | enable id =>
    obtain ⟨r, hr, hrt⟩ := Option.map_eq_some_iff.mp h
    have hversion := applyFeatureRequirements_version hr
    match r, hversion, hrt with
    | .error e, _, hrt => cases hrt
    | .ok u, hu, hrt =>
      cases hrt
      exact hu
  | disable id =>
    obtain ⟨u, hu, hut⟩ := Option.map_eq_some_iff.mp h
    cases hut
    exact (cascadeUnsatisfied_spec hu).lowered.version
  | setOption id option value =>
    obtain ⟨u, hu, hut⟩ := Option.map_eq_some_iff.mp h
    cases hut
    exact (cascadeUnsatisfied_spec hu).lowered.version

/-- What an edit that turns features off leaves on. -/
theorem candidate_isLeast {rules : PackageRules package} {edit : FeatureEdit}
    (hadmitted : edit.admitted rules = true) (h : edit.candidate rules s = some (.ok t))
    (hsat : SatisfiesConstraints rules t) (hroot : edit.root = some root) :
    (∀ g, enabledIn package t g = true → enabledIn package s g = true) ∧
      IsLeast (Mends package s t root) (root ∪ switchedOff package s t) := by
  have hon : ∀ {u : ModSelection}, Cascaded package u t →
      (∀ g, enabledIn package u g = true ↔ enabledIn package s g = true ∧ g ∉ root) →
      (∀ g, enabledIn package t g = true → enabledIn package s g = true) ∧
        IsLeast (Mends package s t root) (root ∪ switchedOff package s t) := by
    intro u hu hus
    exact ⟨fun g hg => ((hus g).mp (hu.lowered.enabled g hg)).1, isLeast_switchedOff hu hsat hus⟩
  cases edit with
  | enable id => cases hroot
  | disable id =>
    cases hroot
    obtain ⟨u, hu, hut⟩ := Option.map_eq_some_iff.mp h
    cases hut
    rw [FeatureEdit.admitted, Bool.and_eq_true_iff, Option.isSome_iff_exists] at hadmitted
    obtain ⟨⟨feature, hfeature⟩, -⟩ := hadmitted
    obtain ⟨hfound, hlegacy⟩ := Option.filter_eq_some_iff.mp hfeature
    simp only [FeatureEdit.featureId] at hfound
    refine hon (cascadeUnsatisfied_spec hu) fun g => ?_
    rw [enabledIn_set hfound (by simpa using hlegacy), Set.mem_singleton_iff]
    split_ifs with hg
    · simp [hg]
    · simp [hg]
  | setOption id option value =>
    cases hroot
    obtain ⟨u, hu, hut⟩ := Option.map_eq_some_iff.mp h
    cases hut
    refine hon (cascadeUnsatisfied_spec hu) fun g => ?_
    have hsame : enabledIn package (ModPackageManager.setOptionValue s id option value) g =
        enabledIn package s g :=
      enabledIn_modify (fun f => { f with values := Function.update f.values option (some value) })
        fun _ => ⟨rfl, rfl⟩
    rw [hsame]
    simp

/-! ## The result -/

/-- A call that returned true: the package is selected as before, its stored selection meets every
constraint, no other entry has changed, and what is off is least. -/
structure Accepted (m : ModPackageManager) (packageId : String) (edit : FeatureEdit)
    (package : ModPackage) (m' : ModPackageManager) : Prop where
  before : m.selectedPackage packageId = some package
  after : m'.selectedPackage packageId = some package
  satisfied : SatisfiesConstraints (m.rules package) (selectionOf m'.selections packageId)
  others : ∀ id, id ≠ packageId → m'.selections id = m.selections id
  onlyOff : ∀ root, edit.root = some root → ∀ g,
    enabledIn package (selectionOf m'.selections packageId) g = true →
      enabledIn package (selectionOf m.selections packageId) g = true
  least : ∀ root, edit.root = some root →
    IsLeast
      (Mends package (selectionOf m.selections packageId) (selectionOf m'.selections packageId) root)
      (root ∪ switchedOff package (selectionOf m.selections packageId)
        (selectionOf m'.selections packageId))

/-- The call ends, and leaves an accepted selection or the map it found. -/
def Transactional (m : ModPackageManager) (packageId : String) (edit : FeatureEdit) : Prop :=
  ∃ r m', edit.run m packageId = some (r, m') ∧ match r with
    | .ok _ => ∃ package, Accepted m packageId edit package m'
    | .error _ => m'.selections = m.selections

/-- The map has an entry for the package, or the package's default selection takes the edit. -/
def KeepsMap (m : ModPackageManager) (packageId : String) (edit : FeatureEdit) : Prop :=
  ∀ package, m.selectedPackage packageId = some package →
    edit.admitted (m.rules package) = true → m.selections packageId ≠ none ∨
      ∃ t, edit.candidate (m.rules package) blank = some (.ok t) ∧
        SatisfiesConstraints (m.rules package) t

theorem touch_same {m : ModPackageManager} {packageId : String}
    (h : m.selections packageId ≠ none) : m.touch packageId = m := by
  obtain ⟨s, hs⟩ := Option.ne_none_iff_exists'.mp h
  unfold ModPackageManager.touch selectionOf
  rw [hs, Option.getD_some, ← hs, Function.update_eq_self]

theorem touch_new {m : ModPackageManager} {packageId : String}
    (h : m.selections packageId = none) : (m.touch packageId).selections ≠ m.selections := by
  intro hsame
  have hentry := congrFun hsame packageId
  simp only [ModPackageManager.touch, Function.update_self, h] at hentry
  cases hentry

/-- The selection of an accepted edit is stored. -/
theorem accepted_of_candidate {m : ModPackageManager} {packageId : String} {edit : FeatureEdit}
    (hsel : m.selectedPackage packageId = some package)
    (hadmitted : edit.admitted (m.rules package) = true)
    (hcandidate :
      edit.candidate (m.rules package) (selectionOf m.selections packageId) = some (.ok t))
    (hsat : SatisfiesConstraints (m.rules package) t) :
    edit.run m packageId = some (.ok (),
        { m with selections := Function.update m.selections packageId (some t) }) ∧
      Accepted m packageId edit package
        { m with selections := Function.update m.selections packageId (some t) } := by
  have hstored : selectionOf (Function.update m.selections packageId (some t)) packageId = t := by
    unfold selectionOf
    rw [Function.update_self]
    rfl
  constructor
  · rw [run_of_admitted m packageId edit hsel hadmitted, hcandidate]
    simp only [Option.map_some, ModPackageManager.storeChecked]
    have hnone : packageConstraintsFailure ((m.touch packageId).rules package) t = none :=
      packageConstraintsFailure_none.mpr hsat
    rw [hnone]
    simp only [ModPackageManager.touch, Function.update_idem]
  · constructor
    · exact hsel
    · unfold ModPackageManager.selectedPackage at hsel ⊢
      dsimp only
      rw [hstored, ← hsel]
      exact findSelected_congr (candidate_version hcandidate)
    · dsimp only
      rw [hstored]
      exact hsat
    · exact fun id hid => Function.update_of_ne hid _ _
    · intro root hroot
      dsimp only
      rw [hstored]
      exact (candidate_isLeast hadmitted hcandidate hsat hroot).1
    · intro root hroot
      dsimp only
      rw [hstored]
      exact (candidate_isLeast hadmitted hcandidate hsat hroot).2

/-- A refused edit leaves the map alone exactly if the entry was there before. -/
theorem refused_iff {m : ModPackageManager} {packageId message : String} {edit : FeatureEdit}
    (hrun : edit.run m packageId = some (.error message, m.touch packageId)) :
    Transactional m packageId edit ↔ m.selections packageId ≠ none := by
  constructor
  · rintro ⟨r, m', hrun', hleaves⟩ hnone
    rw [hrun] at hrun'
    cases hrun'
    exact touch_new hnone hleaves
  · intro hentry
    rw [touch_same hentry] at hrun
    exact ⟨_, m, hrun, rfl⟩

theorem feature_edit_transactional_iff (m : ModPackageManager) (packageId : String)
    (edit : FeatureEdit) : Transactional m packageId edit ↔ KeepsMap m packageId edit := by
  cases hsel : m.selectedPackage packageId with
  | none =>
    obtain ⟨message, hrun⟩ := run_of_not_selected m packageId edit hsel
    refine iff_of_true ⟨_, m, hrun, rfl⟩ fun package h => ?_
    rw [hsel] at h
    cases h
  | some package =>
    cases hadmitted : edit.admitted (m.rules package) with
    | false =>
      obtain ⟨message, hrun⟩ := run_of_not_admitted m packageId edit hsel hadmitted
      refine iff_of_true ⟨_, m, hrun, rfl⟩ fun package' h hadm => ?_
      obtain rfl := Option.some.inj (hsel.symm.trans h)
      rw [hadmitted] at hadm
      cases hadm
    | true =>
      have hrun := run_of_admitted m packageId edit hsel hadmitted
      obtain ⟨r, hr⟩ :=
        candidate_total (m.rules package) (selectionOf m.selections packageId) edit
      by_cases hstored : ∃ t, r = .ok t ∧ SatisfiesConstraints (m.rules package) t
      · obtain ⟨t, rfl, hsat⟩ := hstored
        obtain ⟨hrun, haccepted⟩ := accepted_of_candidate hsel hadmitted hr hsat
        refine iff_of_true ⟨_, _, hrun, package, haccepted⟩ fun package' h _ => ?_
        obtain rfl := Option.some.inj (hsel.symm.trans h)
        by_cases hentry : m.selections packageId = none
        · rw [selectionOf, hentry] at hr
          exact .inr ⟨t, hr, hsat⟩
        · exact .inl hentry
      · have hrefused : ∃ message,
            edit.run m packageId = some (.error message, m.touch packageId) := by
          rw [hrun, hr]
          cases r with
          | error e => exact ⟨e, rfl⟩
          | ok t =>
            simp only [Option.map_some, ModPackageManager.storeChecked]
            cases hfail : packageConstraintsFailure ((m.touch packageId).rules package) t with
            | none => exact absurd ⟨t, rfl, packageConstraintsFailure_none.mp hfail⟩ hstored
            | some failure => exact ⟨_, rfl⟩
        obtain ⟨message, hrefused⟩ := hrefused
        rw [refused_iff hrefused]
        constructor
        · exact fun hentry _ _ _ => .inl hentry
        · intro hkeeps hnone
          obtain hentry | ⟨t, ht, hsat⟩ := hkeeps package hsel hadmitted
          · exact hentry hnone
          · rw [selectionOf, hnone] at hr
            exact hstored ⟨t, Option.some.inj (hr.symm.trans ht), hsat⟩

/-! ## A refused edit of a package without an entry -/

/-- The feature `soft` asks for the look `plain`, and `sharp` for the look `crisp`. -/
def looks : ModPackage where
  version := "1.0.0"
  features := [⟨"look", true, false⟩, ⟨"soft", true, false⟩, ⟨"sharp", false, false⟩]
  options := [⟨"look", "style", "plain"⟩]
  constraints := [⟨"soft", .requiresFeature, "look", "style", "plain"⟩,
    ⟨"sharp", .requiresFeature, "look", "style", "crisp"⟩]
  requirements := []

def plainRules (package : ModPackage) : PackageRules package where
  constraints := package.constraints.map fun c => ⟨c, .nondecreasing, []⟩
  same := by
    rw [List.map_map]
    exact List.map_id _
  featureName := fun _ => ""
  optionRule := fun _ => ⟨"", .choice, 0, 0, 1, ["plain", "crisp"]⟩
  decimalInRange := fun _ _ _ => false

def looksManager (selections : Selections) : ModPackageManager where
  packages :=
    { packages := [("looks", [looks])]
      idsSorted := List.pairwise_singleton _ _
      versionsSorted := by
        intro p hp
        obtain rfl := List.mem_singleton.mp hp
        exact List.pairwise_singleton _ _ }
  rules := plainRules
  selections := selections

theorem refused_edit_inserts :
    ¬ Transactional (looksManager fun _ => none) "looks" (.enable "sharp") := by
  rintro ⟨r, m', hrun, hleaves⟩
  have hresult : ((FeatureEdit.enable "sharp").run (looksManager fun _ => none) "looks").map
      (fun x => (x.1.toOption, (x.2.selections "looks").isSome)) = some (none, true) := by
    decide
  rw [hrun] at hresult
  simp only [Option.map_some, Option.some.injEq, Prod.mk.injEq] at hresult
  cases r with
  | ok _ => cases hresult.1
  | error e =>
    have hentry : (m'.selections "looks").isSome = false := by rw [hleaves]; rfl
    rw [hresult.2] at hentry
    cases hentry

theorem feature_edit_transactional_entry :
    Transactional (looksManager fun _ => some blank) "looks" (.enable "sharp") :=
  (feature_edit_transactional_iff _ _ _).mpr fun _ _ _ => .inl (Option.some_ne_none _)

end PsxRecomp.Mods
