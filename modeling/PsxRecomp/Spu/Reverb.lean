import PsxRecomp.Spu.Voice

/-! The reverb engine and the addresses of its work area. The interrupt compare on each access is
left out; every access is listed instead. -/
namespace PsxRecomp.Spu
set_option autoImplicit false

/-! ## Registers and state -/

def regIndex (addr : ℕ) : ℕ := (addr - 0x1F801C00) / 2

/-- One of `rev_read` and `rev_write`: the address register and bias it was asked for and the
byte address it came to. -/
structure Access where
  register : ℕ
  bias : ℤ
  address : ℕ
deriving DecidableEq, Repr

/-- The parts of the processor that the engine works on. -/
structure Reverb where
  regs : ℕ → Half
  revCur : ℕ
  revOutL : ℤ
  revOutR : ℤ
  ram : ℕ → BitVec 8

/-- `spu_init` -/
def Reverb.init : Reverb := ⟨fun _ => 0, 0, 0, 0, fun _ => 0⟩

/-- `RREG` -/
def Reverb.rreg (s : Reverb) (addr : ℕ) : ℕ := (s.regs (regIndex addr)).toNat

/-- `RVOL` -/
def Reverb.rvol (s : Reverb) (addr : ℕ) : ℤ := (s.regs (regIndex addr)).toInt

/-- `a & 0x7FFFE` -/
def halfwordOf (a : ℕ) : ℕ := a % spuRamSize / 2 * 2

def spuRMbase : ℕ := 0x1F801DA2

/-- `rev_mbase` -/
def revMbase (s : Reverb) : ℕ := halfwordOf (s.rreg spuRMbase * 8)

/-- `rev_ea` -/
def revEa (s : Reverb) (regAddr : ℕ) (bias : ℤ) : ℕ :=
  let base := revMbase s
  let size := spuRamSize - base
  let rel : ℤ := (s.revCur : ℤ) - base + (s.rreg regAddr : ℤ) * 8 + bias
  let rel := rel.tmod size
  let rel := if rel < 0 then rel + size else rel
  halfwordOf (base + rel.toNat)

/-- The reverb's part of `spu_write`. -/
def spuWrite (addr : ℕ) (value : Half) (s : Reverb) : Reverb :=
  if 0x1F801C00 ≤ addr ∧ addr ≤ 0x1F801DFF then
    let s := { s with regs := Function.update s.regs (regIndex addr) value }
    if addr = spuRMbase then { s with revCur := revMbase s } else s
  else s

/-! ## Accesses -/

/-- The memory and the accesses so far. -/
structure Work where
  ram : ℕ → BitVec 8
  accesses : List Access

abbrev WorkM := StateM Work

/-- `rev_read` -/
def revRead (s : Reverb) (regAddr : ℕ) (bias : ℤ) : WorkM ℤ := fun w =>
  let a := revEa s regAddr bias
  (asInt16 ((w.ram a).toNat + (w.ram (a + 1)).toNat * 2 ^ 8),
    { w with accesses := w.accesses ++ [⟨regAddr, bias, a⟩] })

/-- `rev_write` -/
def revWrite (s : Reverb) (wren : Bool) (regAddr : ℕ) (v : ℤ) : WorkM Unit := fun w =>
  if !wren then ((), w)
  else
    let a := revEa s regAddr 0
    let value := BitVec.ofInt 16 (clamp16 v)
    ((), { ram := Function.update (Function.update w.ram a (value.setWidth 8)) (a + 1)
             ((value >>> 8).setWidth 8)
           accesses := w.accesses ++ [⟨regAddr, 0, a⟩] })

/-- `rev_mul` -/
def revMul (vol s : ℤ) : ℤ := vol * s / 2 ^ 15

/-! ## One step -/

/-- `[dst] = (in + [src]*vWALL - [dst-2])*vIIR + [dst-2]` -/
def reflection (s : Reverb) (wren : Bool) (dst src : ℕ) (input : ℤ) : WorkM Unit := do
  let prev ← revRead s dst (-2)
  let wall ← revRead s src 0
  revWrite s wren dst
    (revMul (s.rvol 0x1F801DC4) (input + revMul (s.rvol 0x1F801DCE) wall - prev) + prev)

/-- The four taps of the early echo. -/
def combFilter (s : Reverb) (comb1 comb2 comb3 comb4 : ℕ) : WorkM ℤ := do
  let tap1 ← revRead s comb1 0
  let tap2 ← revRead s comb2 0
  let tap3 ← revRead s comb3 0
  let tap4 ← revRead s comb4 0
  return revMul (s.rvol 0x1F801DC6) tap1 + revMul (s.rvol 0x1F801DC8) tap2 +
    revMul (s.rvol 0x1F801DCA) tap3 + revMul (s.rvol 0x1F801DCC) tap4

/-- `out - vAPF*[mAPF-dAPF]`, stored and fed back. -/
def allPass (s : Reverb) (wren : Bool) (mApf : ℕ) (dApf vApf out : ℤ) : WorkM ℤ := do
  let early ← revRead s mApf dApf
  let out := out - revMul vApf early
  revWrite s wren mApf out
  let late ← revRead s mApf dApf
  return revMul vApf (clamp16 out) + late

/-- The filters of `reverb_step`, up to the output volumes. -/
def reverbFilters (s : Reverb) (wren : Bool) (inL inR : ℤ) : WorkM (ℤ × ℤ) := do
  let dapf1 : ℤ := -(s.rreg 0x1F801DC0 * 8 : ℕ)
  let dapf2 : ℤ := -(s.rreg 0x1F801DC2 * 8 : ℕ)
  let lin := revMul (s.rvol 0x1F801DFC) inL
  let rin := revMul (s.rvol 0x1F801DFE) inR
  reflection s wren 0x1F801DD4 0x1F801DE0 lin
  reflection s wren 0x1F801DD6 0x1F801DE2 rin
  -- the other side: `mLDIFF` takes `dRDIFF` and `mRDIFF` takes `dLDIFF`
  reflection s wren 0x1F801DE4 0x1F801DF2 lin
  reflection s wren 0x1F801DE6 0x1F801DF0 rin
  let lout ← combFilter s 0x1F801DD8 0x1F801DDC 0x1F801DE8 0x1F801DEC
  let rout ← combFilter s 0x1F801DDA 0x1F801DDE 0x1F801DEA 0x1F801DEE
  let lout ← allPass s wren 0x1F801DF4 dapf1 (s.rvol 0x1F801DD0) lout
  let rout ← allPass s wren 0x1F801DF6 dapf1 (s.rvol 0x1F801DD0) rout
  let lout ← allPass s wren 0x1F801DF8 dapf2 (s.rvol 0x1F801DD2) lout
  let rout ← allPass s wren 0x1F801DFA dapf2 (s.rvol 0x1F801DD2) rout
  return (lout, rout)

/-- `reverb_step`, with the accesses it makes. -/
def reverbStep (inL inR : ℤ) (wren : Bool) (s : Reverb) : Reverb × List Access :=
  let ((lout, rout), w) := reverbFilters s wren inL inR ⟨s.ram, []⟩
  ({ s with
      ram := w.ram
      revOutL := revMul (s.rvol 0x1F801D84) (clamp16 lout)
      revOutR := revMul (s.rvol 0x1F801D86) (clamp16 rout)
      revCur := max (revMbase s) (halfwordOf (s.revCur + 2)) }, w.accesses)

/-! ## Addresses -/

theorem halfwordOf_even (a : ℕ) : 2 ∣ halfwordOf a := ⟨a % spuRamSize / 2, Nat.mul_comm _ _⟩

theorem halfwordOf_of_even {a : ℕ} (heven : 2 ∣ a) (hlt : a < spuRamSize) : halfwordOf a = a := by
  unfold halfwordOf
  rw [Nat.mod_eq_of_lt hlt]
  exact Nat.div_mul_cancel heven

theorem revMbase_eq (s : Reverb) : revMbase s = s.rreg spuRMbase * 8 := by
  have hreg : s.rreg spuRMbase < 2 ^ 16 := BitVec.isLt _
  unfold revMbase
  refine halfwordOf_of_even ⟨s.rreg spuRMbase * 4, by omega⟩ ?_
  unfold spuRamSize
  omega

theorem revMbase_lt (s : Reverb) : revMbase s < spuRamSize := by
  have hreg : s.rreg spuRMbase < 2 ^ 16 := BitVec.isLt _
  rw [revMbase_eq]
  unfold spuRamSize
  omega

/-- What holds of the byte address of an access. -/
structure InWorkArea (s : Reverb) (address : ℕ) : Prop where
  even : 2 ∣ address
  base : revMbase s ≤ address
  whole : address + 1 < spuRamSize

/-- The offset of an address register after the remainder and the correction of its sign. -/
theorem revEa_eq {s : Reverb} (hcur : 2 ∣ s.revCur) (regAddr : ℕ) {bias : ℤ} (hbias : 2 ∣ bias) :
    ∃ rel : ℕ, revEa s regAddr bias = revMbase s + rel ∧ 2 ∣ rel ∧ rel < spuRamSize - revMbase s := by
  have hbase := revMbase_eq s
  have hlt := revMbase_lt s
  unfold spuRamSize at hlt
  set size : ℕ := spuRamSize - revMbase s with hsize
  set rel : ℤ := ((s.revCur : ℤ) - revMbase s + (s.rreg regAddr : ℤ) * 8 + bias).tmod size
    with hrel
  have hpos : (0 : ℤ) < size := by
    rw [hsize]
    unfold spuRamSize
    omega
  have hsizeEven : (2 : ℤ) ∣ size := by
    rw [hsize]
    unfold spuRamSize
    omega
  have heven : 2 ∣ rel := by
    rw [hrel, Int.tmod_def]
    exact Int.dvd_sub (by omega) (Dvd.dvd.mul_right hsizeEven _)
  have hbelow : rel < size := Int.tmod_lt_of_pos _ hpos
  have habove : -(size : ℤ) < rel := by
    have := Int.lt_tmod_of_pos ((s.revCur : ℤ) - revMbase s + (s.rreg regAddr : ℤ) * 8 + bias) hpos
    exact this
  refine ⟨(if rel < 0 then rel + size else rel).toNat, ?_, ?_, ?_⟩
  · change halfwordOf (revMbase s + (if rel < 0 then rel + size else rel).toNat) = _
    refine halfwordOf_of_even ?_ ?_
    · split <;> omega
    · unfold spuRamSize at *
      split <;> omega
  · split <;> omega
  · split <;> omega

theorem revEa_inWorkArea {s : Reverb} (hcur : 2 ∣ s.revCur) (regAddr : ℕ) {bias : ℤ}
    (hbias : 2 ∣ bias) : InWorkArea s (revEa s regAddr bias) := by
  obtain ⟨rel, hea, heven, hrel⟩ := revEa_eq hcur regAddr hbias
  have hbase := revMbase_eq s
  have hlt := revMbase_lt s
  rw [hea]
  refine ⟨by omega, by omega, ?_⟩
  unfold spuRamSize at *
  omega

theorem revEa_congr {s : Reverb} {reg reg' : ℕ} (h : s.rreg reg = s.rreg reg') (bias : ℤ) :
    revEa s reg bias = revEa s reg' bias := by
  unfold revEa
  rw [h]

/-! ## The accesses of a step -/

/-- An access that `rev_ea` placed, with one of the biases of the engine. -/
structure Placed (s : Reverb) (a : Access) : Prop where
  address : a.address = revEa s a.register a.bias
  bias : 2 ∣ a.bias

/-- A part of the step that only adds placed accesses. -/
def Places {α : Type} (s : Reverb) (x : WorkM α) : Prop :=
  ∀ w : Work, (∀ a ∈ w.accesses, Placed s a) → ∀ a ∈ (x w).2.accesses, Placed s a

theorem Places.pure {α : Type} (s : Reverb) (v : α) : Places s (Pure.pure v : WorkM α) :=
  fun _ h => h

theorem Places.bind {α β : Type} {s : Reverb} {x : WorkM α} {f : α → WorkM β} (hx : Places s x)
    (hf : ∀ v, Places s (f v)) : Places s (x >>= f) :=
  fun w h => hf (x w).1 (x w).2 (hx w h)

theorem revRead_places (s : Reverb) (regAddr : ℕ) {bias : ℤ} (hbias : 2 ∣ bias) :
    Places s (revRead s regAddr bias) := by
  intro w h a ha
  rcases List.mem_append.1 ha with hold | hnew
  · exact h a hold
  · rw [List.mem_singleton.1 hnew]
    exact ⟨rfl, hbias⟩

theorem revWrite_places (s : Reverb) (wren : Bool) (regAddr : ℕ) (v : ℤ) :
    Places s (revWrite s wren regAddr v) := by
  intro w h a ha
  unfold revWrite at ha
  split at ha
  · exact h a ha
  · rcases List.mem_append.1 ha with hold | hnew
    · exact h a hold
    · rw [List.mem_singleton.1 hnew]
      exact ⟨rfl, dvd_zero 2⟩

theorem reflection_places (s : Reverb) (wren : Bool) (dst src : ℕ) (input : ℤ) :
    Places s (reflection s wren dst src input) := by
  unfold reflection
  refine (revRead_places s dst (by decide)).bind fun prev => ?_
  refine (revRead_places s src (by decide)).bind fun wall => ?_
  exact revWrite_places s wren dst _

theorem combFilter_places (s : Reverb) (comb1 comb2 comb3 comb4 : ℕ) :
    Places s (combFilter s comb1 comb2 comb3 comb4) := by
  unfold combFilter
  refine (revRead_places s comb1 (by decide)).bind fun tap1 => ?_
  refine (revRead_places s comb2 (by decide)).bind fun tap2 => ?_
  refine (revRead_places s comb3 (by decide)).bind fun tap3 => ?_
  exact (revRead_places s comb4 (by decide)).bind fun tap4 => .pure s _

theorem allPass_places (s : Reverb) (wren : Bool) (mApf : ℕ) {dApf : ℤ} (hbias : 2 ∣ dApf)
    (vApf out : ℤ) : Places s (allPass s wren mApf dApf vApf out) := by
  unfold allPass
  refine (revRead_places s mApf hbias).bind fun early => ?_
  refine (revWrite_places s wren mApf _).bind fun _ => ?_
  exact (revRead_places s mApf hbias).bind fun late => .pure s _

theorem reverbFilters_places (s : Reverb) (wren : Bool) (inL inR : ℤ) :
    Places s (reverbFilters s wren inL inR) := by
  have hdapf : ∀ reg : ℕ, (2 : ℤ) ∣ -(s.rreg reg * 8 : ℕ) := fun reg => by omega
  unfold reverbFilters
  refine (reflection_places s wren _ _ _).bind fun _ => ?_
  refine (reflection_places s wren _ _ _).bind fun _ => ?_
  refine (reflection_places s wren _ _ _).bind fun _ => ?_
  refine (reflection_places s wren _ _ _).bind fun _ => ?_
  refine (combFilter_places s _ _ _ _).bind fun lout => ?_
  refine (combFilter_places s _ _ _ _).bind fun rout => ?_
  refine (allPass_places s wren _ (hdapf _) _ lout).bind fun lout => ?_
  refine (allPass_places s wren _ (hdapf _) _ rout).bind fun rout => ?_
  refine (allPass_places s wren _ (hdapf _) _ lout).bind fun lout => ?_
  exact (allPass_places s wren _ (hdapf _) _ rout).bind fun rout => .pure s _

theorem reverbStep_placed (s : Reverb) (inL inR : ℤ) (wren : Bool) :
    ∀ a ∈ (reverbStep inL inR wren s).2, Placed s a :=
  reverbFilters_places s wren inL inR ⟨s.ram, []⟩ (fun _ h => absurd h List.not_mem_nil)

/-- With writes enabled the step makes its twenty-four reads and eight writes. -/
example : ((reverbStep 0 0 true Reverb.init).2).length = 32 := by decide

/-! ## Runs -/

/-- Register writes, stores of the rest of the processor into its memory, and steps. -/
inductive ReverbOp
  | write (addr : ℕ) (value : Half)
  | store (address : ℕ) (byte : BitVec 8)
  | step (inL inR : ℤ) (wren : Bool)

def ReverbOp.apply (s : Reverb) : ReverbOp → Reverb
  | .write addr value => spuWrite addr value s
  | .store address byte => { s with ram := Function.update s.ram address byte }
  | .step inL inR wren => (reverbStep inL inR wren s).1

def reverbRun (ops : List ReverbOp) : Reverb := ops.foldl ReverbOp.apply Reverb.init

theorem spuWrite_even {s : Reverb} (h : 2 ∣ s.revCur) (addr : ℕ) (value : Half) :
    2 ∣ (spuWrite addr value s).revCur := by
  unfold spuWrite
  dsimp only
  split_ifs
  · exact halfwordOf_even _
  · exact h
  · exact h

theorem apply_even {s : Reverb} (h : 2 ∣ s.revCur) (op : ReverbOp) : 2 ∣ (op.apply s).revCur := by
  cases op with
  | write addr value => exact spuWrite_even h addr value
  | store address byte => exact h
  | step inL inR wren =>
    change 2 ∣ max (revMbase s) (halfwordOf (s.revCur + 2))
    rcases max_choice (revMbase s) (halfwordOf (s.revCur + 2)) with hmax | hmax
    · rw [hmax]
      exact halfwordOf_even _
    · rw [hmax]
      exact halfwordOf_even _

theorem reverbRun_even (ops : List ReverbOp) : 2 ∣ (reverbRun ops).revCur := by
  induction ops using List.reverseRecOn with
  | nil => exact dvd_zero 2
  | append_singleton ops op ih =>
    unfold reverbRun at *
    rw [List.foldl_append]
    exact apply_even ih op

/-- Whatever was written and rendered before, every access of a step is a whole halfword of the
work area, and within the step a register value and a bias name one cell. -/
theorem reverb_in_work_area (ops : List ReverbOp) (inL inR : ℤ) (wren : Bool) :
    let s := reverbRun ops
    let accesses := (reverbStep inL inR wren s).2
    (∀ a ∈ accesses, InWorkArea s a.address) ∧
      (revMbase s = s.rreg spuRMbase * 8) ∧
      ∀ a ∈ accesses, ∀ b ∈ accesses,
        s.rreg a.register = s.rreg b.register → a.bias = b.bias → a.address = b.address := by
  intro s accesses
  have hplaced : ∀ a ∈ accesses, Placed s a := reverbStep_placed s inL inR wren
  refine ⟨fun a ha => ?_, revMbase_eq s, fun a ha b hb hreg hbias => ?_⟩
  · rw [(hplaced a ha).address]
    exact revEa_inWorkArea (reverbRun_even ops) a.register (hplaced a ha).bias
  · rw [(hplaced a ha).address, (hplaced b hb).address, hbias]
    exact revEa_congr hreg b.bias

end PsxRecomp.Spu
