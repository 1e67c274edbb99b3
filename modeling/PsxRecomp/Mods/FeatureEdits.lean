import PsxRecomp.Mods.Derivation

/-! Edits of the feature selections: a feature is turned on with what it requires, or off with
what required it, and the selection is stored if every constraint of the package holds. -/
namespace PsxRecomp.Mods
open Saturate
set_option autoImplicit false

/-! ## The rest of a package's constraints and options -/

inductive ModConstraintDirection
  | nondecreasing | nonincreasing
deriving DecidableEq, Repr

/-- A constraint with the fields of an `OrderedInteger` one. -/
structure OrderedConstraint extends ModConstraint where
  direction : ModConstraintDirection
  options : List String
deriving DecidableEq, Repr

inductive ModOptionType
  | boolean | choice | integer | decimal
deriving DecidableEq, Repr

/-- The fields of a `ModOption` that its values are checked against, and its label. -/
structure OptionRule where
  label : String
  type : ModOptionType
  minValue : ℤ
  maxValue : ℤ
  step : ℤ
  choices : List String
deriving DecidableEq, Repr

/-- What a manifest says about a package besides `ModPackage`. `decimalInRange` is what `strtod`
and the comparison with the bounds say of a text. -/
structure PackageRules (package : ModPackage) where
  constraints : List OrderedConstraint
  same : constraints.map OrderedConstraint.toModConstraint = package.constraints
  featureName : String → String
  optionRule : ModOption → OptionRule
  decimalInRange : String → ℤ → ℤ → Bool

/-- `parse_canonical_int64` -/
def parseCanonicalInt64 (value : String) : Option ℤ :=
  value.toInt?.filter fun n => toString n = value ∧ -2 ^ 63 ≤ n ∧ n < 2 ^ 63

/-- `integer_step_aligned` -/
def integerStepAligned (value minimum step : ℤ) : Bool :=
  if value < minimum ∨ step ≤ 0 then false else (value - minimum) % step = 0

variable {package : ModPackage} (rules : PackageRules package)

/-- `valid_option_value` -/
def validOptionValue (option : ModOption) (value : String) : Bool :=
  let rule := rules.optionRule option
  match rule.type with
  | .decimal =>
    (value = "default" ∧ option.defaultValue = "default") ∨
      (value.utf8ByteSize ≤ 32 ∧ value.front.isDigit ∧
        rules.decimalInRange value rule.minValue rule.maxValue)
  | .boolean => value = "true" ∨ value = "false"
  | .choice => value ∈ rule.choices
  | .integer =>
    match parseCanonicalInt64 value with
    | none => false
    | some parsed => rule.minValue ≤ parsed ∧ parsed ≤ rule.maxValue ∧
        integerStepAligned parsed rule.minValue rule.step

/-! ## Constraints at run time -/

/-- `prospective_feature_enabled`, with nothing overridden. -/
def enabledIn (package : ModPackage) (selection : ModSelection) (id : String) : Bool :=
  match findFeature package id with
  | none => false
  | some feature => isFeatureEnabled package selection feature

def optionLabel (featureId id : String) : String :=
  match findOption package featureId id with
  | none => id
  | some option => (rules.optionRule option).label

/-- `constraint_satisfied`: the pair of neighbours that is out of order, in words. -/
def orderedFailure (selection : ModSelection) (c : OrderedConstraint) :
    List String → Option String
  | previousId :: currentId :: rest =>
    let value := effectiveOptionValue package selection c.featureId
    match parseCanonicalInt64 (value previousId), parseCanonicalInt64 (value currentId) with
    | some previous, some current =>
      match c.direction with
      | .nondecreasing =>
        if previous > current then some (optionLabel rules c.featureId previousId ++
          " must be less than or equal to " ++ optionLabel rules c.featureId currentId)
        else orderedFailure selection c (currentId :: rest)
      | .nonincreasing =>
        if previous < current then some (optionLabel rules c.featureId previousId ++
          " must be greater than or equal to " ++ optionLabel rules c.featureId currentId)
        else orderedFailure selection c (currentId :: rest)
    | _, _ => some "constraint references a non-integer value"
  | _ => none

def requiredName (c : ModConstraint) : String :=
  match findFeature package c.requiredFeatureId with
  | none => c.requiredFeatureId
  | some _ =>
    if rules.featureName c.requiredFeatureId = "" then c.requiredFeatureId
    else rules.featureName c.requiredFeatureId

def requiredOptionName (c : ModConstraint) : String :=
  match findOption package c.requiredFeatureId c.requiredOptionId with
  | none => c.requiredOptionId
  | some option =>
    if (rules.optionRule option).label = "" then c.requiredOptionId
    else (rules.optionRule option).label

/-- The option a requirement names has the value it asks for. -/
def requiredValueSet (package : ModPackage) (selection : ModSelection) (c : ModConstraint) :
    Bool :=
  c.requiredOptionId = "" ∨
    effectiveOptionValue package selection c.requiredFeatureId c.requiredOptionId = c.requiredValue

/-- `runtime_constraint_satisfied` on a requirement: why it fails. -/
def requirementFailure (selection : ModSelection) (c : ModConstraint) : Option String :=
  if !enabledIn package selection c.featureId then none
  else if !enabledIn package selection c.requiredFeatureId then
    some ("requires " ++ requiredName rules c ++ " to be enabled")
  else if !requiredValueSet package selection c then
    some ("requires " ++ requiredName rules c ++ " " ++ requiredOptionName rules c ++ " = " ++
      c.requiredValue)
  else none

/-- `runtime_constraint_satisfied`, with nothing overridden. -/
def constraintFailure (selection : ModSelection) (c : OrderedConstraint) : Option String :=
  match c.kind with
  | .orderedInteger =>
    if !enabledIn package selection c.featureId then none
    else orderedFailure rules selection c c.options
  | .requiresFeature => requirementFailure rules selection c.toModConstraint

/-- `package_constraints_satisfied`: the first constraint that fails, and why. -/
def packageConstraintsFailure (selection : ModSelection) : Option (String × String) :=
  rules.constraints.findSome? fun c => (constraintFailure rules selection c).map (c.featureId, ·)

/-! ## Turning features off -/

/-- One turn of the loop of `cascade_unsatisfied_feature_requirements`. -/
def cascadeStep (s : ModSelection × Bool) (c : ModConstraint) : ModSelection × Bool :=
  if c.kind ≠ .requiresFeature then s
  else match findFeature package c.featureId with
    | none => s
    | some dependent =>
      if dependent.legacy ∨ !isFeatureEnabled package s.1 dependent then s
      else if (requirementFailure rules s.1 c).isNone then s
      else (setFeatureSelected s.1 c.featureId false, true)

/-- `cascade_unsatisfied_feature_requirements`: a pass for each constraint, and one that finds
nothing left, are enough. -/
def cascadeUnsatisfied (selection : ModSelection) : Option ModSelection :=
  (saturate (fun s => some (package.constraints.foldl (cascadeStep rules) (s.1, false))) Prod.snd
    (package.constraints.length + 1) (selection, true)).map Prod.fst

/-! ## The manager -/

structure ModPackageManager where
  packages : Catalog
  rules : ∀ package, PackageRules package
  selections : Selections

namespace ModPackageManager

def selectedPackage (m : ModPackageManager) (id : String) : Option ModPackage :=
  findSelected m.packages id (selectionOf m.selections id)

/-- `selections_[id]` makes an entry where there is none. -/
def touch (m : ModPackageManager) (id : String) : ModPackageManager :=
  { m with selections := Function.update m.selections id (some (selectionOf m.selections id)) }

/-- The end of both edits: the candidate is checked and takes the place of the entry. -/
def storeChecked (m : ModPackageManager) (package : ModPackage) (packageId featureId : String)
    (candidate : ModSelection) : Except String Unit × ModPackageManager :=
  match packageConstraintsFailure (m.rules package) candidate with
  | some (failing, reason) =>
    (.error (packageId ++ "/" ++ (if failing = "" then featureId else failing) ++ ": " ++ reason), m)
  | none =>
    (.ok (), { m with selections := Function.update m.selections packageId (some candidate) })

/-- `set_feature_enabled` -/
def setFeatureEnabled (m : ModPackageManager) (packageId featureId : String) (enabled : Bool) :
    Option (Except String Unit × ModPackageManager) :=
  match m.selectedPackage packageId with
  | none => some (.error "unknown package feature", m)
  | some package =>
    match (findFeature package featureId).filter (!·.legacy) with
    | none => some (.error "unknown package feature", m)
    | some _ =>
      let selection := selectionOf m.selections packageId
      let m := m.touch packageId
      if enabled then
        (applyFeatureRequirements package package.depth [] selection featureId).map fun
          | .error e => (.error e, m)
          | .ok selection =>
            m.storeChecked package packageId featureId (setFeatureSelected selection featureId true)
      else
        (cascadeUnsatisfied (m.rules package) (setFeatureSelected selection featureId false)).map
          (m.storeChecked package packageId featureId)

def setOptionValue (selection : ModSelection) (featureId optionId value : String) : ModSelection :=
  selection.modifyFeature featureId fun f =>
    { f with values := Function.update f.values optionId (some value) }

/-- `set_feature_option` -/
def setFeatureOption (m : ModPackageManager) (packageId featureId optionId value : String) :
    Option (Except String Unit × ModPackageManager) :=
  match m.selectedPackage packageId with
  | none => some (.error "unknown feature option", m)
  | some package =>
    match (findFeature package featureId).filter (!·.legacy),
        findOption package featureId optionId with
    | some _, some option =>
      if !validOptionValue (m.rules package) option value then
        some (.error "invalid feature option value", m)
      else
        let selection := selectionOf m.selections packageId
        let m := m.touch packageId
        (cascadeUnsatisfied (m.rules package)
          (setOptionValue selection featureId optionId value)).map
            (m.storeChecked package packageId featureId)
    | _, _ => some (.error "unknown feature option", m)

end ModPackageManager

/-! ## The edits -/

inductive FeatureEdit where
  | enable (featureId : String)
  | disable (featureId : String)
  | setOption (featureId optionId value : String)
deriving DecidableEq, Repr

namespace FeatureEdit

def run (m : ModPackageManager) (packageId : String) :
    FeatureEdit → Option (Except String Unit × ModPackageManager)
  | enable featureId => m.setFeatureEnabled packageId featureId true
  | disable featureId => m.setFeatureEnabled packageId featureId false
  | setOption featureId optionId value => m.setFeatureOption packageId featureId optionId value

def featureId : FeatureEdit → String
  | enable featureId => featureId
  | disable featureId => featureId
  | setOption featureId _ _ => featureId

/-- The features an edit turns off by itself; none of them is asked about for turning one on. -/
def root : FeatureEdit → Option (Set String)
  | enable _ => none
  | disable featureId => some {featureId}
  | setOption _ _ _ => some ∅

/-- The option is known and takes the value. -/
def allowed (rules : PackageRules package) : FeatureEdit → Bool
  | setOption featureId optionId value =>
    match findOption package featureId optionId with
    | none => false
    | some option => validOptionValue rules option value
  | _ => true

/-- The checks before the entry is copied. -/
def admitted (rules : PackageRules package) (edit : FeatureEdit) : Bool :=
  ((findFeature package edit.featureId).filter (!·.legacy)).isSome && edit.allowed rules

/-- The selection an edit makes of the entry's. -/
def candidate (rules : PackageRules package) (s : ModSelection) :
    FeatureEdit → Option (Except String ModSelection)
  | enable featureId => (applyFeatureRequirements package package.depth [] s featureId).map fun
    | .error e => .error e
    | .ok s => .ok (setFeatureSelected s featureId true)
  | disable featureId =>
    (cascadeUnsatisfied rules (setFeatureSelected s featureId false)).map .ok
  | setOption featureId optionId value =>
    (cascadeUnsatisfied rules (ModPackageManager.setOptionValue s featureId optionId value)).map .ok

end FeatureEdit

end PsxRecomp.Mods
