import PsxRecomp.Library.Saturate
import PsxRecomp.Mods.Plan

/-! The selections of the mod packages: what the player chose, what a package requires of the
features of another, and the loop that derives the selections of a session from both. A map that
is only looked up is a function; the package catalog, which is walked, is a sorted list. -/
namespace PsxRecomp.Mods
open Saturate
set_option autoImplicit false

/-! ## Versions -/

structure SemVer where
  major : ℕ
  minor : ℕ
  patch : ℕ
  suffix : String
deriving DecidableEq, Repr

def decimal (digits : List Char) : ℕ := digits.foldl (fun n c => 10 * n + (c.toNat - 48)) 0

/-- One of the three numbers, with what follows its dot. Only the last may be without one. -/
def semverPart (last : Bool) (core : List Char) : Option (ℕ × List Char) :=
  let token := core.takeWhile (· ≠ '.')
  if token = [] ∨ !token.all Char.isDigit ∨ 2 ^ 63 ≤ decimal token then none
  else match core.dropWhile (· ≠ '.') with
    | [] => if last then some (decimal token, []) else none
    | _ :: rest => some (decimal token, rest)

/-- `parse_semver`, `none` where the result is not `valid`. -/
def parseSemver (text : String) : Option SemVer := do
  let core := text.toList.takeWhile (· ≠ '-')
  let suffix := (text.toList.dropWhile (· ≠ '-')).drop 1
  let (major, core) ← semverPart false core
  let (minor, core) ← semverPart false core
  let (patch, core) ← semverPart true core
  if core = [] then some ⟨major, minor, patch, String.ofList suffix⟩ else none

/-- `compare_semver`: a suffix comes before none, and what does not parse is compared as text. -/
def compareSemver (a b : String) : Ordering :=
  match parseSemver a, parseSemver b with
  | some av, some bv =>
    if av.major ≠ bv.major then compare av.major bv.major
    else if av.minor ≠ bv.minor then compare av.minor bv.minor
    else if av.patch ≠ bv.patch then compare av.patch bv.patch
    else if av.suffix.isEmpty ≠ bv.suffix.isEmpty then
      if av.suffix.isEmpty then .gt else .lt
    else compare av.suffix bv.suffix
  | _, _ => compare a b

/-- `version_satisfies` -/
def versionSatisfies (actual requirement : String) : Bool :=
  if requirement = "" ∨ requirement = "*" then true
  else match requirement.toList with
    | '>' :: '=' :: base => compareSemver actual (String.ofList base) ≠ .lt
    | '<' :: '=' :: base => compareSemver actual (String.ofList base) ≠ .gt
    | '>' :: base => compareSemver actual (String.ofList base) = .gt
    | '<' :: base => compareSemver actual (String.ofList base) = .lt
    | '^' :: base =>
      match parseSemver (String.ofList base), parseSemver actual with
      | some b, some got =>
        got.major = b.major ∧ compareSemver actual (String.ofList base) ≠ .lt
      | _, _ => false
    | _ => actual = requirement

/-! ## Packages -/

structure ModFeature where
  id : String
  defaultEnabled : Bool
  legacy : Bool
deriving DecidableEq, Repr

structure ModOption where
  featureId : String
  id : String
  defaultValue : String
deriving DecidableEq, Repr

inductive ModConstraintKind
  | orderedInteger | requiresFeature
deriving DecidableEq, Repr

structure ModConstraint where
  featureId : String
  kind : ModConstraintKind
  requiredFeatureId : String
  requiredOptionId : String
  requiredValue : String
deriving DecidableEq, Repr

/-- `ModFeatureRequirement`: the map `when` as the list of its pairs. -/
structure ModFeatureRequirement where
  featureId : String
  packageId : String
  version : String
  requiredFeatureId : String
  conditions : List (String × String)
deriving DecidableEq, Repr

structure ModPackage where
  version : String
  features : List ModFeature
  options : List ModOption
  constraints : List ModConstraint
  requirements : List ModFeatureRequirement
deriving DecidableEq, Repr

/-- `packages_`: the versions of each package, both maps in the order they are walked. A package
is stored under its own version. -/
structure Catalog where
  packages : List (String × List ModPackage)
  idsSorted : (packages.map Prod.fst).Pairwise (· < ·)
  versionsSorted : ∀ p ∈ packages, (p.2.map ModPackage.version).Pairwise (· < ·)

/-- The versions of a package, none where it has no entry. -/
def Catalog.versions (catalog : Catalog) (id : String) : List ModPackage :=
  match catalog.packages.find? (·.1 = id) with
  | none => []
  | some p => p.2

/-! ## Selections -/

structure ModFeatureSelection where
  enabled : Bool
  hasEnabled : Bool
  values : String → Option String
  resources : String → Option String

structure ModSelection where
  enabled : Bool
  version : String
  values : String → Option String
  features : String → Option ModFeatureSelection

def blankFeature : ModFeatureSelection :=
  { enabled := false, hasEnabled := false, values := fun _ => none, resources := fun _ => none }

def blank : ModSelection :=
  { enabled := false, version := "", values := fun _ => none, features := fun _ => none }

abbrev Selections := String → Option ModSelection

/-- `selection_of` -/
def selectionOf (selections : Selections) (id : String) : ModSelection :=
  (selections id).getD blank

/-! ## Lookups -/

/-- The loop of `find_selected` over the versions: the first of the greatest. -/
def latest : Option ModPackage → List ModPackage → Option ModPackage
  | best, [] => best
  | none, p :: ps => latest (some p) ps
  | some best, p :: ps =>
    latest (some (if compareSemver p.version best.version = .gt then p else best)) ps

/-- `find_selected` -/
def findSelected (catalog : Catalog) (id : String) (selection : ModSelection) :
    Option ModPackage :=
  let versions := catalog.versions id
  if selection.version ≠ "" then versions.find? (·.version = selection.version)
  else latest none versions

/-- `find_feature` -/
def findFeature (package : ModPackage) (id : String) : Option ModFeature :=
  package.features.find? (·.id = id)

/-- `find_option` -/
def findOption (package : ModPackage) (featureId id : String) : Option ModOption :=
  package.options.find? fun item => item.featureId = featureId ∧ item.id = id

/-- `find_feature_selection` -/
def findFeatureSelection (package : ModPackage) (selection : ModSelection) (featureId : String) :
    Option ModFeatureSelection :=
  match findFeature package featureId with
  | none => none
  | some feature => if feature.legacy then none else selection.features featureId

/-- `is_feature_enabled` -/
def isFeatureEnabled (package : ModPackage) (selection : ModSelection) (feature : ModFeature) :
    Bool :=
  if feature.legacy then selection.enabled
  else match findFeatureSelection package selection feature.id with
    | some selected => if selected.hasEnabled then selected.enabled else feature.defaultEnabled
    | none => feature.defaultEnabled

/-- The player's value of an option, where there is one. -/
def selectedOptionValue (package : ModPackage) (selection : ModSelection)
    (featureId id : String) : Option String :=
  let selected := (findFeatureSelection package selection featureId).bind (·.values id)
  match findFeature package featureId with
  | some feature => if feature.legacy then selection.values id else selected
  | none => selected

/-- `effective_option_value` -/
def effectiveOptionValue (package : ModPackage) (selection : ModSelection)
    (featureId id : String) : String :=
  match selectedOptionValue package selection featureId id with
  | some value => value
  | none => match findOption package featureId id with
    | some option => option.defaultValue
    | none => ""

/-- `conditions_match` -/
def conditionsMatch (package : ModPackage) (selection : ModSelection) (featureId : String)
    (conditions : List (String × String)) : Bool :=
  conditions.all fun c => effectiveOptionValue package selection featureId c.1 = c.2

/-! ## Turning features on -/

def ModSelection.modifyFeature (selection : ModSelection) (id : String)
    (f : ModFeatureSelection → ModFeatureSelection) : ModSelection :=
  { selection with
    features := Function.update selection.features id
      (some (f ((selection.features id).getD blankFeature))) }

/-- `set_feature_selected` -/
def setFeatureSelected (selection : ModSelection) (featureId : String) (enabled : Bool) :
    ModSelection :=
  selection.modifyFeature featureId fun f => { f with enabled := enabled, hasEnabled := true }

/-- The option value a constraint asks for, where it names one. -/
def forceOption (c : ModConstraint) (selection : ModSelection) : ModSelection :=
  if c.requiredOptionId = "" then selection
  else selection.modifyFeature c.requiredFeatureId fun f =>
    { f with values := Function.update f.values c.requiredOptionId (some c.requiredValue) }

/-- One turn of the loop of `apply_feature_requirements`. An error is handed past the constraints
that remain. -/
def applyConstraint (package : ModPackage) (featureId : String)
    (recurse : ModSelection → String → Option (Except String ModSelection))
    (result : Except String ModSelection) (c : ModConstraint) :
    Option (Except String ModSelection) :=
  match result with
  | .error e => some (.error e)
  | .ok selection =>
    if c.kind ≠ .requiresFeature ∨ c.featureId ≠ featureId then some (.ok selection)
    else match findFeature package c.requiredFeatureId with
      | none => some (.error (featureId ++ ": has an invalid feature requirement"))
      | some required =>
        if required.legacy then
          some (.error (featureId ++ ": has an invalid feature requirement"))
        else recurse (forceOption c (setFeatureSelected selection c.requiredFeatureId true))
          c.requiredFeatureId

/-- `apply_feature_requirements`: `visiting` holds the features the recursion is inside of, and
`fuel` bounds its depth. -/
def applyFeatureRequirements (package : ModPackage) :
    ℕ → List String → ModSelection → String → Option (Except String ModSelection)
  | 0, _, _, _ => none
  | fuel + 1, visiting, selection, featureId =>
    if featureId ∈ visiting then some (.ok selection)
    else package.constraints.foldlM
      (applyConstraint package featureId
        (applyFeatureRequirements package fuel (featureId :: visiting))) (.ok selection)

/-! ## The derived selections -/

/-- What `settled` keeps of a requirement. -/
structure RequirementKey where
  packageId : String
  featureId : String
  requiredPackageId : String
  requiredFeatureId : String
deriving DecidableEq, Repr

def ModFeatureRequirement.key (r : ModFeatureRequirement) (id : String) : RequirementKey :=
  ⟨id, r.featureId, r.packageId, r.requiredFeatureId⟩

/-- `ModResolution::ImplicitFeature` -/
structure ImplicitFeature where
  packageId : String
  featureId : String
  requiredByPackageId : String
  requiredByFeatureId : String
deriving DecidableEq, Repr

/-- The locals of `effective_selections`, and the three lists it fills. -/
structure Derivation where
  effective : Selections
  settled : List RequirementKey
  implicit : List ImplicitFeature
  diagnostics : List Diagnostic
  errors : List String
  changed : Bool

/-- `fail` -/
def Derivation.fail (s : Derivation) (id : String) (r : ModFeatureRequirement) (why : String) :
    Derivation :=
  let message := id ++ "/" ++ r.featureId ++ " requires " ++ r.packageId ++ "/" ++
    r.requiredFeatureId ++ ", but " ++ why
  { s with
    errors := s.errors ++ [message]
    diagnostics := s.diagnostics ++ [{
      resource := "requirement:" ++ r.packageId ++ "/" ++ r.requiredFeatureId
      packageId := id
      featureId := r.featureId
      otherPackageId := r.packageId
      otherFeatureId := r.requiredFeatureId
      message := message }] }

/-- The owner of a requirement is on and the conditions hold. -/
def requirementActive (package : ModPackage) (selection : ModSelection)
    (r : ModFeatureRequirement) : Bool :=
  match findFeature package r.featureId with
  | none => false
  | some owner => isFeatureEnabled package selection owner &&
    conditionsMatch package selection r.featureId r.conditions

/-- Deep enough for the constraints of a package: see `applyFeatureRequirements_total`. -/
def ModPackage.depth (package : ModPackage) : ℕ := package.constraints.length + 2

/-- The required feature, found and off, is turned on with what it requires in turn. -/
def activate (id : String) (r : ModFeatureRequirement) (target : ModPackage)
    (required : ModFeature) (s : Derivation) : Option Derivation :=
  let derived := setFeatureSelected (selectionOf s.effective r.packageId) required.id true
  (applyFeatureRequirements target target.depth [] derived required.id).map fun
    | .error why => s.fail id r why
    | .ok derived =>
      { s with
        effective := Function.update s.effective r.packageId (some derived)
        implicit := s.implicit ++ [⟨r.packageId, required.id, id, r.featureId⟩]
        changed := true }

/-- The body of the loop behind the insertion into `settled`. -/
def evaluateRequirement (catalog : Catalog) (id : String) (r : ModFeatureRequirement)
    (s : Derivation) : Option Derivation :=
  if catalog.versions r.packageId = [] then
    some (s.fail id r ("package " ++ r.packageId ++ " is not in this build's mod catalog"))
  else match findSelected catalog r.packageId (selectionOf s.effective r.packageId) with
    | none => some (s.fail id r ("the selected version of " ++ r.packageId ++ " is not installed"))
    | some target =>
      if !versionSatisfies target.version r.version then
        some (s.fail id r (r.packageId ++ " " ++ target.version ++ " does not satisfy " ++ r.version))
      else match (findFeature target r.requiredFeatureId).filter (!·.legacy) with
        | none => some (s.fail id r
            (r.packageId ++ " " ++ target.version ++ " has no feature " ++ r.requiredFeatureId))
        | some required =>
          if isFeatureEnabled target (selectionOf s.effective r.packageId) required then some s
          else activate id r target required s

/-- The body of the loop over the requirements of a package. -/
def requirementStep (catalog : Catalog) (id : String) (package : ModPackage) (s : Derivation)
    (r : ModFeatureRequirement) : Option Derivation :=
  if !requirementActive package (selectionOf s.effective id) r then some s
  else if r.key id ∈ s.settled then some s
  else evaluateRequirement catalog id r { s with settled := r.key id :: s.settled }

/-- The body of the loop over the catalog. -/
def packageStep (catalog : Catalog) (s : Derivation) (p : String × List ModPackage) :
    Option Derivation :=
  match findSelected catalog p.1 (selectionOf s.effective p.1) with
  | none => some s
  | some package => package.requirements.foldlM (requirementStep catalog p.1 package) s

/-- One pass of `while (changed)`. -/
def derivePass (catalog : Catalog) (s : Derivation) : Option Derivation :=
  catalog.packages.foldlM (packageStep catalog) { s with changed := false }

def startDerivation (selections : Selections) : Derivation :=
  { effective := selections, settled := [], implicit := [], diagnostics := [], errors := []
    changed := true }

/-- `effective_selections`, with `fuel` passes at most. -/
def effectiveSelections (catalog : Catalog) (fuel : ℕ) (selections : Selections) :
    Option Derivation :=
  saturate (derivePass catalog) Derivation.changed fuel (startDerivation selections)

end PsxRecomp.Mods
