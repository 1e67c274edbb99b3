import Mathlib
import PsxRecomp.Library.StateRule
import PsxRecomp.Gte.Marshal

/-! What no command disturbs: the mirror of SXY2 and the count of LZCS. And no command reads the
FLAG it starts from. -/
namespace PsxRecomp.Gte
open R3000 R3000.Cop2 StateRule
set_option autoImplicit false

/-- SXYP mirrors SXY2, and LZCR counts LZCS. -/
def Canonical (g : GteState) : Prop := g.sxy 3 = g.sxy 2 ∧ g.lzcr = lzcr g.lzcs

/-! ## Helpers -/

theorem raise_keeps (bits : Word) : Keeps Canonical (raise bits) := fun _ h => h

theorem setErrorFlag_keeps : Keeps Canonical setErrorFlag := fun _ h => h

theorem raiseIf_keeps (c : Prop) [Decidable c] (bits : Word) :
    Keeps Canonical (raiseIf c bits) := keeps_ite (raise_keeps bits) (keeps_pure _)

/-- A value that may raise a flag. -/
theorem raise_pure_keeps {α : Type} (bits : Word) (a : α) :
    Keeps Canonical (do raise bits; pure a) :=
  (raise_keeps bits).bind fun _ => keeps_pure a

theorem saturateIr_keeps (value : Int) (irNum : ℕ) (lm : Bool) :
    Keeps Canonical (saturateIr value irNum lm) :=
  keeps_ite (raise_pure_keeps _ _) (keeps_ite (raise_pure_keeps _ _) (keeps_pure _))

theorem saturateIr0_keeps (value : Int) : Keeps Canonical (saturateIr0 value) :=
  keeps_ite (raise_pure_keeps _ _) (keeps_ite (raise_pure_keeps _ _) (keeps_pure _))

theorem saturateColor_keeps (value : Int) (component : ℕ) :
    Keeps Canonical (saturateColor value component) :=
  keeps_ite (raise_pure_keeps _ _) (keeps_ite (raise_pure_keeps _ _) (keeps_pure _))

theorem saturateSz_keeps (value : Int) : Keeps Canonical (saturateSz value) :=
  keeps_ite (raise_pure_keeps _ _) (keeps_ite (raise_pure_keeps _ _) (keeps_pure _))

theorem saturateScreen_keeps (value : Int) (bit : Word) :
    Keeps Canonical (saturateScreen value bit) :=
  keeps_ite (raise_pure_keeps _ _) (keeps_ite (raise_pure_keeps _ _) (keeps_pure _))

theorem checkMacOverflow_keeps (value : Int) (macNum : ℕ) :
    Keeps Canonical (checkMacOverflow value macNum) :=
  (raiseIf_keeps _ _).bind fun _ => raiseIf_keeps _ _

theorem checkMac0Overflow_keeps (value : Int) : Keeps Canonical (checkMac0Overflow value) :=
  (raiseIf_keeps _ _).bind fun _ => raiseIf_keeps _ _

/-- The push rewrites SXY2 and its mirror alike. -/
theorem pushSxy_keeps (sx sy : Int) : Keeps Canonical (pushSxy sx sy) := by
  unfold pushSxy
  refine (saturateScreen_keeps _ _).bind fun sxSat => (saturateScreen_keeps _ _).bind fun sySat => ?_
  exact keeps_modify fun g h => ⟨rfl, h.2⟩

theorem pushSz_keeps (value : Int) : Keeps Canonical (pushSz value) := by
  unfold pushSz
  refine keeps_get.bind fun g => Keeps.bind (fun _ h => h) fun _ => ?_
  exact (saturateSz_keeps value).bind fun sz3 => fun _ h => h

theorem pushRgb_keeps (r g b : BitVec 8) : Keeps Canonical (pushRgb r g b) := fun _ h => h

theorem divide_keeps (h sz3 : Half) : Keeps Canonical (divide h sz3) :=
  keeps_ite (raise_pure_keeps _ _) (keeps_pure _)

theorem mac44Stage_keeps (value : Int) (macNum : ℕ) : Keeps Canonical (mac44Stage value macNum) :=
  (checkMacOverflow_keeps value macNum).bind fun _ => keeps_pure _

theorem setMacIr_keeps (macNum : ℕ) (mac : Word) (lm : Bool) :
    Keeps Canonical (setMacIr macNum mac lm) := by
  unfold setMacIr
  split
  case h_1 => exact Keeps.bind (fun _ h => h) fun _ =>
    (saturateIr_keeps _ _ _).bind fun _ => fun _ h => h
  case h_2 => exact Keeps.bind (fun _ h => h) fun _ =>
    (saturateIr_keeps _ _ _).bind fun _ => fun _ h => h
  case h_3 => exact Keeps.bind (fun _ h => h) fun _ =>
    (saturateIr_keeps _ _ _).bind fun _ => fun _ h => h
  case h_4 => exact keeps_pure _

theorem storeMacIr_keeps (macNum : ℕ) (value : Int) (shift : ℕ) (lm : Bool) :
    Keeps Canonical (storeMacIr macNum value shift lm) :=
  (mac44Stage_keeps value macNum).bind fun _ => setMacIr_keeps _ _ _

/-! ## Stages -/

theorem lightTransform_keeps (v : Vector) (instr : Word) :
    Keeps Canonical (lightTransform v instr) := by
  have hrow : ∀ row, Keeps Canonical (lightTransformRow v instr row) := by
    intro row
    unfold lightTransformRow
    exact keeps_get.bind fun g => (mac44Stage_keeps _ _).bind fun acc => storeMacIr_keeps _ _ _ _
  exact (hrow 0).bind fun _ => (hrow 1).bind fun _ => hrow 2

theorem lightColor_keeps (instr : Word) : Keeps Canonical (lightColor instr) := by
  have hrow : ∀ input row, Keeps Canonical (lightColorRow input instr row) := by
    intro input row
    unfold lightColorRow
    exact keeps_get.bind fun g => (mac44Stage_keeps _ _).bind fun acc =>
      (mac44Stage_keeps _ _).bind fun acc => storeMacIr_keeps _ _ _ _
  unfold lightColor
  exact keeps_get.bind fun g => (hrow _ 0).bind fun _ => (hrow _ 1).bind fun _ => hrow _ 2

theorem pushRgbFromMac_keeps : Keeps Canonical pushRgbFromMac := by
  unfold pushRgbFromMac
  exact keeps_get.bind fun g => (saturateColor_keeps _ _).bind fun red =>
    (saturateColor_keeps _ _).bind fun green => (saturateColor_keeps _ _).bind fun blue =>
      pushRgb_keeps _ _ _

theorem colorOutput_keeps (instr : Word) : Keeps Canonical (colorOutput instr) := by
  unfold colorOutput colorMultiply
  refine Keeps.bind ?_ fun _ => pushRgbFromMac_keeps
  exact keeps_get.bind fun g => (storeMacIr_keeps _ _ _ _).bind fun _ =>
    (storeMacIr_keeps _ _ _ _).bind fun _ => storeMacIr_keeps _ _ _ _

theorem depthCueFromMac_keeps (base1 base2 base3 : Int) (instr : Word) :
    Keeps Canonical (depthCueFromMac base1 base2 base3 instr) := by
  unfold depthCueFromMac
  refine keeps_get.bind fun g => (storeMacIr_keeps _ _ _ _).bind fun _ =>
    (storeMacIr_keeps _ _ _ _).bind fun _ => (storeMacIr_keeps _ _ _ _).bind fun _ => ?_
  exact keeps_get.bind fun g => (storeMacIr_keeps _ _ _ _).bind fun _ =>
    (storeMacIr_keeps _ _ _ _).bind fun _ => storeMacIr_keeps _ _ _ _

theorem depthCueFromColor_keeps (instr : Word) : Keeps Canonical (depthCueFromColor instr) := by
  unfold depthCueFromColor
  exact keeps_get.bind fun g => (depthCueFromMac_keeps _ _ _ _).bind fun _ => pushRgbFromMac_keeps

theorem depthCueFromRgb_keeps (rgb instr : Word) : Keeps Canonical (depthCueFromRgb rgb instr) :=
  (depthCueFromMac_keeps _ _ _ _).bind fun _ => pushRgbFromMac_keeps

theorem rtpsInternal_keeps (v : Vector) (setMac0 : Bool) (instr : Word) :
    Keeps Canonical (rtpsInternal v setMac0 instr) := by
  have hdot : ∀ row, Keeps Canonical (rtpsDot v row) := by
    intro row
    unfold rtpsDot
    exact keeps_get.bind fun g => (mac44Stage_keeps _ _).bind fun acc =>
      (mac44Stage_keeps _ _).bind fun acc => keeps_pure _
  have hmac0 : ∀ hDivSz, Keeps Canonical (depthCueMac0 hDivSz) := by
    intro hDivSz
    unfold depthCueMac0
    exact keeps_get.bind fun g => (checkMac0Overflow_keeps _).bind fun _ =>
      Keeps.bind (fun _ h => h) fun _ => (saturateIr0_keeps _).bind fun ir0 => fun _ h => h
  unfold rtpsInternal
  refine (hdot 0).bind fun mac1 => (hdot 1).bind fun mac2 => (hdot 2).bind fun mac3 => ?_
  refine (checkMacOverflow_keeps _ _).bind fun _ => (checkMacOverflow_keeps _ _).bind fun _ =>
    (checkMacOverflow_keeps _ _).bind fun _ => Keeps.bind (fun _ h => h) fun _ => ?_
  refine keeps_get.bind fun g => (saturateIr_keeps _ _ _).bind fun ir1 =>
    (saturateIr_keeps _ _ _).bind fun ir2 => (saturateIr_keeps _ _ _).bind fun _ => ?_
  refine Keeps.bind (fun _ h => h) fun _ => (pushSz_keeps _).bind fun _ => ?_
  refine keeps_get.bind fun g => (divide_keeps _ _).bind fun hDivSz => ?_
  refine (checkMac0Overflow_keeps _).bind fun _ => (checkMac0Overflow_keeps _).bind fun _ =>
    (pushSxy_keeps _ _).bind fun _ => ?_
  exact keeps_ite (hmac0 hDivSz) (keeps_pure _)

theorem averageZ_keeps (factor : Half) (sum : Int) : Keeps Canonical (averageZ factor sum) := by
  unfold averageZ
  exact (checkMac0Overflow_keeps _).bind fun _ => Keeps.bind (fun _ h => h) fun _ =>
    (saturateSz_keeps _).bind fun otz => fun _ h => h

theorem mvmvaRow_keeps (m : Matrix) (v : Vector) (t : Fin 3 → Int) (bugged : Bool) (instr : Word)
    (row : Fin 3) : Keeps Canonical (mvmvaRow m v t bugged instr row) := by
  have hset : ∀ irNum ir, Keeps Canonical (setIr irNum ir) := by
    intro irNum ir g h
    unfold setIr
    dsimp only [modify, modifyGet, MonadStateOf.modifyGet, StateT.modifyGet]
    split <;> exact h
  unfold mvmvaRow
  refine keeps_ite ?_ ?_
  · exact (mac44Stage_keeps _ _).bind fun first => (saturateIr_keeps _ _ _).bind fun temporary =>
      (hset _ _).bind fun _ => (mac44Stage_keeps _ _).bind fun tail => storeMacIr_keeps _ _ _ _
  · exact (mac44Stage_keeps _ _).bind fun acc => (mac44Stage_keeps _ _).bind fun acc =>
      storeMacIr_keeps _ _ _ _

theorem storeMacs_keeps (mac1 mac2 mac3 : Int) (instr : Word) :
    Keeps Canonical (storeMacs mac1 mac2 mac3 instr) := by
  unfold storeMacs
  refine Keeps.bind (fun _ h => h) fun _ => keeps_get.bind fun g => ?_
  exact (saturateIr_keeps _ _ _).bind fun ir1 => (saturateIr_keeps _ _ _).bind fun ir2 =>
    (saturateIr_keeps _ _ _).bind fun ir3 => fun _ h => h

/-! ## Commands -/

/-- A command by its body: FLAG is cleared before it. -/
structure IsCommand (run : GteM Unit) : Prop where
  ignoresFlag : ∀ (g : GteState) (flag : Word), run { g with flag := flag } = run g
  keeps : Keeps Canonical run

theorem isCommand_command {body : GteM Unit} (h : Keeps Canonical body) :
    IsCommand (command body) where
  ignoresFlag _ _ := rfl
  keeps := Keeps.bind (fun _ h => h) fun _ => h.bind fun _ => setErrorFlag_keeps

/-- The same for a body that first reads the state. -/
theorem isCommand_reading {body : GteState → GteM Unit} (h : ∀ g, Keeps Canonical (body g)) :
    IsCommand (command (get >>= body)) := isCommand_command (keeps_get.bind h)

theorem isCommand_triple {body : Vector → GteM Unit} (h : ∀ v, Keeps Canonical (body v)) :
    IsCommand (command (triple body)) :=
  isCommand_reading fun g => (h g.v0).bind fun _ => (h g.v1).bind fun _ => h g.v2

section Families

variable (instr : Word)

theorem nccsInternal_keeps (v : Vector) : Keeps Canonical (nccsInternal instr v) :=
  (lightTransform_keeps v instr).bind fun _ => (lightColor_keeps instr).bind fun _ =>
    colorOutput_keeps instr

theorem ncdsInternal_keeps (v : Vector) : Keeps Canonical (ncdsInternal instr v) :=
  (lightTransform_keeps v instr).bind fun _ => (lightColor_keeps instr).bind fun _ =>
    depthCueFromColor_keeps instr

theorem ncsInternal_keeps (v : Vector) : Keeps Canonical (ncsInternal instr v) :=
  (lightTransform_keeps v instr).bind fun _ => (lightColor_keeps instr).bind fun _ =>
    pushRgbFromMac_keeps

theorem dpctStep_keeps : Keeps Canonical (dpctStep instr) :=
  keeps_get.bind fun _ => depthCueFromRgb_keeps _ _

theorem isCommand_rtpt : IsCommand (rtpt instr) :=
  isCommand_reading fun _ => (rtpsInternal_keeps _ _ _).bind fun _ =>
    (rtpsInternal_keeps _ _ _).bind fun _ => rtpsInternal_keeps _ _ _

theorem isCommand_nclip : IsCommand nclip :=
  isCommand_reading fun _ => (checkMac0Overflow_keeps _).bind fun _ => fun _ h => h

theorem isCommand_intpl : IsCommand (intpl instr) :=
  isCommand_command ((keeps_get.bind fun _ => depthCueFromMac_keeps _ _ _ _).bind fun _ =>
    pushRgbFromMac_keeps)

theorem isCommand_mvmva : IsCommand (mvmva instr) :=
  isCommand_reading fun _ => (mvmvaRow_keeps _ _ _ _ _ _).bind fun _ =>
    (mvmvaRow_keeps _ _ _ _ _ _).bind fun _ => mvmvaRow_keeps _ _ _ _ _ _

theorem isCommand_product {mac1 mac2 mac3 : GteState → Int} :
    IsCommand (command do
      let g ← get
      storeMacs (mac1 g) (mac2 g) (mac3 g) instr
      pushRgbFromMac) :=
  isCommand_reading fun _ => (storeMacs_keeps _ _ _ _).bind fun _ => pushRgbFromMac_keeps

end Families

/-- Whatever `gte_run_command` runs is a command. -/
theorem isCommand_of_run {instr : Word} {run : GteM Unit} (h : runCommand instr = some run) :
    IsCommand run := by
  unfold runCommand at h
  split at h
  case h_23 => cases h
  all_goals
    simp only [Option.some.injEq] at h
    subst h
  case h_1 => exact isCommand_reading fun _ => rtpsInternal_keeps _ _ _
  case h_2 => exact isCommand_nclip
  case h_3 => exact isCommand_reading fun _ => storeMacs_keeps _ _ _ _
  case h_4 => exact isCommand_reading fun _ => depthCueFromRgb_keeps _ _
  case h_5 => exact isCommand_intpl instr
  case h_6 => exact isCommand_mvmva instr
  case h_7 => exact isCommand_reading fun _ => ncdsInternal_keeps _ _
  case h_8 => exact isCommand_command ((lightColor_keeps _).bind fun _ => depthCueFromColor_keeps _)
  case h_9 => exact isCommand_triple (ncdsInternal_keeps instr)
  case h_10 => exact isCommand_reading fun _ => nccsInternal_keeps _ _
  case h_11 => exact isCommand_command ((lightColor_keeps _).bind fun _ => colorOutput_keeps _)
  case h_12 => exact isCommand_reading fun _ => ncsInternal_keeps _ _
  case h_13 => exact isCommand_triple (ncsInternal_keeps instr)
  case h_14 => exact isCommand_reading fun _ => storeMacs_keeps _ _ _ _
  case h_15 => exact isCommand_command (depthCueFromColor_keeps _)
  case h_16 =>
    exact isCommand_command ((dpctStep_keeps _).bind fun _ => (dpctStep_keeps _).bind fun _ =>
      dpctStep_keeps _)
  case h_17 => exact isCommand_reading fun _ => averageZ_keeps _ _
  case h_18 => exact isCommand_reading fun _ => averageZ_keeps _ _
  case h_19 => exact isCommand_rtpt instr
  case h_20 => exact isCommand_product instr
  case h_21 => exact isCommand_product instr
  case h_22 => exact isCommand_triple (nccsInternal_keeps instr)

end PsxRecomp.Gte
