import PsxRecomp.Gte.Bridge

/-! Any run of register writes and commands on the backing arrays, replayed on one `GTEState`. -/
namespace PsxRecomp.Gte
open R3000 R3000.Cop2 StateRule
set_option autoImplicit false

/-! ## Register numbers -/

/-- A register number is a byte; numbers from 32 on name no register. -/
def gteReadData (c : Cop2) (reg : BitVec 8) : Word := if 32 ≤ reg then 0 else c.readData (reg.setWidth 5)

def gteReadCtrl (c : Cop2) (reg : BitVec 8) : Word := if 32 ≤ reg then 0 else c.readCtrl (reg.setWidth 5)

def gteWriteData (c : Cop2) (reg : BitVec 8) (val : Word) : Cop2 :=
  if 32 ≤ reg then c else c.writeData (reg.setWidth 5) val

def gteWriteCtrl (c : Cop2) (reg : BitVec 8) (val : Word) : Cop2 :=
  if 32 ≤ reg then c else c.writeCtrl (reg.setWidth 5) val

/-- The default branches of the transfers. -/
def gteMfc2 (g : GteState) (reg : BitVec 8) : Word := if 32 ≤ reg then 0 else mfc2 g (reg.setWidth 5)

def gteCfc2 (g : GteState) (reg : BitVec 8) : Word := if 32 ≤ reg then 0 else cfc2 g (reg.setWidth 5)

def gteMtc2 (g : GteState) (reg : BitVec 8) (value : Word) : GteState :=
  if 32 ≤ reg then g else mtc2 g (reg.setWidth 5) value

def gteCtc2 (g : GteState) (reg : BitVec 8) (value : Word) : GteState :=
  if 32 ≤ reg then g else ctc2 g (reg.setWidth 5) value

/-! ## Runs -/

inductive Access
  | writeData (reg : BitVec 8) (val : Word)
  | writeCtrl (reg : BitVec 8) (val : Word)
  | execute (instr : Word)

/-- FLAG is written by a transfer to it and by every command. -/
def Access.setsFlag : Access → Bool
  | .writeData _ _ => false
  | .writeCtrl reg _ => reg = 31
  | .execute _ => true

/-- One access through the helpers; `none` where the program exits. -/
def access (c : Cop2) : Access → Option Cop2
  | .writeData reg val => some (gteWriteData c reg val)
  | .writeCtrl reg val => some (gteWriteCtrl c reg val)
  | .execute instr => execute c instr

/-- The same access on a `GTEState`. -/
def replay (g : GteState) : Access → Option GteState
  | .writeData reg val => some (gteMtc2 g reg val)
  | .writeCtrl reg val => some (gteCtc2 g reg val)
  | .execute instr => (runCommand instr).map fun run => (run g).2

def accessAll (c : Cop2) (run : List Access) : Option Cop2 := run.foldlM access c

def replayAll (g : GteState) (run : List Access) : Option GteState := run.foldlM replay g

/-! ## The simulation -/

/-- The arrays hold the state, and FLAG once it has been written; before, both hold what they were
given. -/
structure Holds (start : Word) (written : Bool) (c : Cop2) (g : GteState) : Prop where
  words : importWords c.data c.ctrl g.flag = g
  flag : c.ctrl 31 = if written then g.flag else start

theorem Holds.canonical {start : Word} {written : Bool} {c : Cop2} {g : GteState}
    (h : Holds start written c g) : Canonical g := by
  rw [← h.words]
  exact ⟨rfl, rfl⟩

theorem holds_import (c : Cop2) : Holds (c.ctrl 31) false c (importCpuState c) := ⟨rfl, rfl⟩

/-- The import puts FLAG beside the rest. -/
theorem import_flag {c : Cop2} {g : GteState} (h : importWords c.data c.ctrl g.flag = g)
    (flag : Word) : importWords c.data c.ctrl flag = { g with flag := flag } := by
  rw [← h]
  rfl

theorem ctc2_flag_ne (g : GteState) {reg : Reg} (val : Word) (h : reg ≠ 31) :
    (ctc2 g reg val).flag = g.flag := by
  induction reg using forall_reg with
  | _ n hn =>
  interval_cases n
  all_goals first
    | exact absurd rfl h
    | simp only [ctc2]

/-- Another register number than that of FLAG names another register. -/
theorem setWidth_ne_flag {reg : BitVec 8} (hreg : ¬32 ≤ reg) (h : reg ≠ 31) :
    reg.setWidth 5 ≠ (31 : Reg) := by
  intro he
  have hnat := congrArg BitVec.toNat he
  have hlt : reg.toNat < 32 := not_le.1 hreg
  rw [BitVec.toNat_setWidth, Nat.mod_eq_of_lt hlt] at hnat
  exact h (BitVec.eq_of_toNat_eq hnat)

/-- A command agrees on both sides, whatever FLAG was. -/
theorem holds_command {start : Word} {written : Bool} {c : Cop2} {g : GteState}
    (h : Holds start written c g) {run : GteM Unit} (hrun : IsCommand run) :
    Holds start true (exportCpuState (run (importCpuState c)).2) (run g).2 := by
  have hsame : run (importCpuState c) = run g := by
    rw [← hrun.ignoresFlag g (c.ctrl 31 &&& 0x7FFFF000), ← h.words]
    rfl
  rw [hsame]
  exact ⟨import_export (hrun.keeps g h.canonical) _, rfl⟩

/-- One access keeps the arrays and the state together; both sides exit or none does. -/
theorem holds_step {start : Word} {written : Bool} {c : Cop2} {g : GteState}
    (h : Holds start written c g) (a : Access) :
    (access c a = none ∧ replay g a = none) ∨
      ∃ c' g', access c a = some c' ∧ replay g a = some g' ∧
        Holds start (written || a.setsFlag) c' g' := by
  cases a with
  | writeData reg val =>
    refine Or.inr ⟨_, _, rfl, rfl, ?_⟩
    unfold gteWriteData gteMtc2
    rw [Access.setsFlag, Bool.or_false]
    split
    · exact h
    · have hflag : (mtc2 g (reg.setWidth 5) val).flag = g.flag := by
        unfold mtc2
        split <;> rfl
      refine ⟨?_, ?_⟩
      · rw [import_writeData, hflag, h.words]
      · rw [writeData_flag, h.flag, hflag]
  | writeCtrl reg val =>
    refine Or.inr ⟨_, _, rfl, rfl, ?_⟩
    unfold gteWriteCtrl gteCtc2
    by_cases hreg : 32 ≤ reg
    · have hne : reg ≠ 31 := by
        rintro rfl
        exact absurd hreg (by decide)
      rw [if_pos hreg, if_pos hreg, Access.setsFlag, decide_eq_false hne, Bool.or_false]
      exact h
    · rw [if_neg hreg, if_neg hreg]
      rw [Access.setsFlag]
      by_cases hflag : reg = 31
      · subst hflag
        rw [decide_eq_true rfl, Bool.or_true, show (31 : BitVec 8).setWidth 5 = 31#5 from rfl]
        refine ⟨?_, ?_⟩
        · rw [import_writeCtrl, ctc2_flag, if_pos (show 31#5 = (31 : Reg) from rfl)]
          exact import_flag h.words _
        · rw [writeCtrl_flag]
          rfl
      · have hne := setWidth_ne_flag hreg hflag
        have hkeep := ctc2_flag_ne g val hne
        rw [decide_eq_false hflag, Bool.or_false]
        refine ⟨?_, ?_⟩
        · rw [import_writeCtrl, if_neg hne, hkeep, h.words]
        · rw [writeCtrl_flag, if_neg hne, h.flag, hkeep]
  | execute instr =>
    cases hrun : runCommand instr with
    | none => exact Or.inl ⟨by simp [access, execute, hrun], by simp [replay, hrun]⟩
    | some run =>
      refine Or.inr ⟨_, _, by simp [access, execute, hrun]; rfl, by simp [replay, hrun]; rfl, ?_⟩
      rw [Access.setsFlag, Bool.or_true]
      exact holds_command h (isCommand_of_run hrun)

/-- A whole run keeps them together. -/
theorem holds_run {start : Word} {written : Bool} {c : Cop2} {g : GteState}
    (h : Holds start written c g) (run : List Access) :
    (accessAll c run = none ∧ replayAll g run = none) ∨
      ∃ c' g', accessAll c run = some c' ∧ replayAll g run = some g' ∧
        Holds start (written || run.any Access.setsFlag) c' g' := by
  induction run generalizing written c g with
  | nil =>
    refine Or.inr ⟨c, g, rfl, rfl, ?_⟩
    rw [List.any_nil, Bool.or_false]
    exact h
  | cons a run ih =>
    have hfast : accessAll c (a :: run) = (access c a).bind fun c => accessAll c run := rfl
    have hreplay : replayAll g (a :: run) = (replay g a).bind fun g => replayAll g run := rfl
    rw [hfast, hreplay]
    rcases holds_step h a with ⟨hc, hg⟩ | ⟨c', g', hc, hg, h'⟩
    · rw [hc, hg]
      exact Or.inl ⟨rfl, rfl⟩
    · rw [hc, hg, List.any_cons, ← Bool.or_assoc]
      exact ih h'

/-- What every read returns. -/
theorem holds_reads {start : Word} {written : Bool} {c : Cop2} {g : GteState}
    (h : Holds start written c g) (reg : BitVec 8) :
    gteReadData c reg = gteMfc2 g reg ∧
      gteReadCtrl c reg = if reg = 31 ∧ written = false then start else gteCfc2 g reg := by
  have hdata := mfc2_import c.data c.ctrl g.flag (reg.setWidth 5)
  have hctrl := cfc2_import c.data c.ctrl g.flag (reg.setWidth 5)
  rw [h.words] at hdata hctrl
  unfold gteReadData gteMfc2 gteReadCtrl gteCfc2
  by_cases hreg : 32 ≤ reg
  · have hne : ¬(reg = 31 ∧ written = false) := by
      rintro ⟨rfl, -⟩
      exact absurd hreg (by decide)
    rw [if_pos hreg, if_pos hreg, if_pos hreg, if_neg hne, if_pos hreg]
    exact ⟨rfl, rfl⟩
  · rw [if_neg hreg, if_neg hreg, if_neg hreg, if_neg hreg]
    refine ⟨hdata.symm, ?_⟩
    by_cases hflag : reg = 31
    · subst hflag
      have hread : c.readCtrl 31 = c.ctrl 31 := rfl
      rw [show (31 : BitVec 8).setWidth 5 = (31 : Reg) from rfl, hread, h.flag]
      cases written with
      | true => rfl
      | false => rfl
    · have hne := setWidth_ne_flag hreg hflag
      rw [if_neg (fun hboth => hflag hboth.1), hctrl, if_neg hne]

/-! ## The fast paths -/

/-- Both sides exit, or every read at the end of the run returns what the replay does. -/
def ReadsAgree (c : Cop2) (run : List Access) : Prop :=
  match accessAll c run, replayAll (importCpuState c) run with
  | some c', some g => ∀ reg : BitVec 8,
      gteReadData c' reg = gteMfc2 g reg ∧ gteReadCtrl c' reg = gteCfc2 g reg
  | none, none => True
  | _, _ => False

/-- The same, but FLAG reads as it was given until something writes it. -/
def ReadsAgreeAfterFlag (c : Cop2) (run : List Access) : Prop :=
  match accessAll c run, replayAll (importCpuState c) run with
  | some c', some g => ∀ reg : BitVec 8,
      gteReadData c' reg = gteMfc2 g reg ∧
        gteReadCtrl c' reg =
          if reg = 31 ∧ run.any Access.setsFlag = false then c.ctrl 31 else gteCfc2 g reg
  | none, none => True
  | _, _ => False

/-- The register helpers return what the replay does over any run, FLAG apart until it is written,
and a command leaves the arrays as the reference bridge does. -/
theorem fast_paths_agree (c : Cop2) (run : List Access) :
    ReadsAgreeAfterFlag c run ∧ ∀ instr, execute c instr = testExecuteReference c instr := by
  refine ⟨?_, execute_eq_reference c⟩
  unfold ReadsAgreeAfterFlag
  rcases holds_run (holds_import c) run with ⟨hc, hg⟩ | ⟨c', g', hc, hg, h⟩
  · rw [hc, hg]
    trivial
  · rw [hc, hg]
    rw [Bool.false_or] at h
    exact holds_reads h

/-- Arrays whose FLAG is what a command leaves after a saturation. -/
def saturatedArrays : Cop2 where
  data _ := 0
  ctrl reg := if reg = 31 then 0x80002000 else 0

/-- FLAG read before anything has written it has its error summary, which the import drops. -/
theorem flag_summary_not_imported : ¬ReadsAgree saturatedArrays [] := by
  intro h
  exact absurd (h 31).2 (by decide)

end PsxRecomp.Gte
