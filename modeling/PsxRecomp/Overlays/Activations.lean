import PsxRecomp.Overlays.Lookups
import PsxRecomp.Overlays.Steps

/-! Nested native activations: the stack of the loader against the activations that have begun and not returned,
and the stores that a running candidate is blacklisted by. -/
namespace PsxRecomp.Overlays
set_option autoImplicit false

/-! ## Nesting -/

structure Nest where
  rt : Runtime
  /-- The activations that have begun and not returned, the innermost first. -/
  frames : List ℕ
  /-- What a render pass has saved: the depth, with the activations under it. -/
  landing : Option (ℕ × ℕ)

inductive Turn where
  | act (a : Action)
  /-- A long jump over some activations, to a frame that puts nothing back. -/
  | escape (k : ℕ)
  /-- `nesting_save` at the start of a render pass. -/
  | arm
  /-- Its watchdog jumps back and restores the nesting. -/
  | land
  | disarm

/-- An activation begins or returns only by the code that runs; a landing puts the depth back. -/
def Nest.step (n : Nest) : Turn → Nest
  | .act (.dispatch d addr) =>
    let r := overlayLoaderDispatchSeg d addr n.rt
    match r.2 with
    | .native i => { n with rt := r.1, frames := i :: n.frames }
    | _ => { n with rt := r.1 }
  | .act .leave =>
    if (n.landing.map Prod.snd).getD 0 < n.frames.length then
      { n with rt := n.rt.step .leave, frames := n.frames.tail }
    else n
  | .act (.setNesting _) => n
  | .act a => { n with rt := n.rt.step a }
  | .escape k =>
    { n with frames := n.frames.drop k, landing := n.landing.filter fun l => l.2 ≤ n.frames.length - k }
  | .arm => if n.landing.isNone then { n with landing := some (n.rt.act.depth, n.frames.length) } else n
  | .land =>
    match n.landing with
    | none => n
    | some (depth, len) =>
      ⟨n.rt.step (.setNesting depth), n.frames.drop (n.frames.length - len), none⟩
  | .disarm => { n with landing := none }

def Nest.run (n : Nest) (ts : List Turn) : Nest := ts.foldl Nest.step n

def Nest.start (st : Settings) (m : Memory) (dirty : ℕ → Bool) (d : Disk) : Nest :=
  ⟨Runtime.start st m dirty d, [], none⟩

/-! ## What a store should do -/

/-- Whether a store meets the live bytes of a range. -/
def Touches (g : Geometry) (ranges : List CodeRange) (phys : Word) (len : ℕ) : Prop :=
  ∃ r ∈ ranges, ∃ off, psxRamResolve g r.lo r.len = some off ∧
    phys.toNat < off.toNat + r.len.toNat ∧ off.toNat < phys.toNat + len

/-- The running candidates that a store meets go to the blacklist, and no others. -/
structure Nest.Catches (n : Nest) (addr : Word) (bytes : List Byte) : Prop where
  active : ∀ i ∈ n.frames, ((n.rt.store addr bytes).tab.cand i).state = .blacklist ↔
    (n.rt.tab.cand i).state = .blacklist ∨ Touches n.rt.mem.geometry (n.rt.tab.cand i).ranges
      (psxRamMapWrite n.rt.mem.geometry addr) bytes.length
  others : ∀ i ∉ n.frames, (n.rt.store addr bytes).tab.cand i = n.rt.tab.cand i

/-- A store inside a page, and any live range of running code that it meets lies where it was compiled for. -/
structure Nest.Plain (n : Nest) (addr : Word) (bytes : List Byte) : Prop where
  within : (psxRamMapWrite n.rt.mem.geometry addr).toNat % 4096 + bytes.length ≤ 4096
  unmirrored : ∀ i ∈ n.frames, ∀ r ∈ (n.rt.tab.cand i).ranges, ∀ off,
    psxRamResolve n.rt.mem.geometry r.lo r.len = some off →
      (psxRamMapWrite n.rt.mem.geometry addr).toNat < off.toNat + r.len.toNat →
        off.toNat < (psxRamMapWrite n.rt.mem.geometry addr).toNat + bytes.length → off = r.lo

/-- A candidate that is on the blacklist and selected nowhere. -/
structure Nest.Barred (n : Nest) (i : ℕ) : Prop where
  blacklist : (n.rt.tab.cand i).state = .blacklist
  dispatch : ∀ d addr, (overlayLoaderDispatchSeg d addr n.rt).2 ≠ .native i
  continuation : ∀ addr, (n.rt.findByRange addr).2 ≠ some i

/-- The stack holds the activations under way, watched stores are caught, and the blacklist is final. -/
structure Nest.Caught (n : Nest) : Prop where
  stack : (List.range n.rt.act.depth).map n.rt.act.stack = n.frames.reverse
  stores : ∀ addr bytes, n.Plain addr bytes → n.rt.mem.noted (psxRamMapWrite n.rt.mem.geometry addr) = true →
    n.Catches addr bytes
  unwatched : ∀ addr bytes, n.rt.mem.noted (psxRamMapWrite n.rt.mem.geometry addr) = false →
    (n.rt.store addr bytes).tab = n.rt.tab
  barred : ∀ i < n.rt.tab.candN, (n.rt.tab.cand i).state = .blacklist → ∀ ts, (n.run ts).Barred i

/-- No activation beyond the depth of the stack, and no long jump over one. -/
def Nest.Contained (n : Nest) : Turn → Prop
  | .act (.dispatch d addr) =>
    (∃ i, (overlayLoaderDispatchSeg d addr n.rt).2 = .native i) → n.rt.act.depth < activeStackCap
  | .escape k => n.frames.drop k = n.frames
  | _ => True

def Nest.AllContained (n : Nest) : List Turn → Prop
  | [] => True
  | t :: ts => n.Contained t ∧ (n.step t).AllContained ts

/-! ## The stack -/

/-- Running candidates are registered and their ranges have live bytes. -/
structure Live (g : Geometry) (t : Table) (i : ℕ) : Prop where
  known : i < t.candN
  resolved : ∀ r ∈ (t.cand i).ranges, ∃ off, psxRamResolve g r.lo r.len = some off

structure Nest.Held (n : Nest) : Prop where
  ordered : Ordered n.rt
  stack : (List.range n.rt.act.depth).map n.rt.act.stack = n.frames.reverse
  room : n.rt.act.depth ≤ activeStackCap
  live : ∀ i ∈ n.frames, Live n.rt.mem.geometry n.rt.tab i
  landing : ∀ l, n.landing = some l → l.1 = l.2 ∧ l.2 ≤ n.frames.length

theorem Nest.Held.depth {n : Nest} (h : n.Held) : n.rt.act.depth = n.frames.length := by
  have hlen := congrArg List.length h.stack
  simpa using hlen

theorem push_stack {act : Activity} {frames : List ℕ} (h : (List.range act.depth).map act.stack = frames.reverse)
    (hroom : act.depth < activeStackCap) (i : ℕ) :
    (List.range (act.push i).depth).map (act.push i).stack = (i :: frames).reverse := by
  unfold Activity.push
  rw [if_pos hroom]
  dsimp only
  rw [List.range_succ, List.map_append, List.reverse_cons, ← h]
  congr 1
  · refine List.map_congr_left fun k hk => ?_
    rw [Function.update_of_ne (List.mem_range.1 hk).ne]
  · simp

theorem pop_stack {act : Activity} {frames : List ℕ} (h : (List.range act.depth).map act.stack = frames.reverse) :
    (List.range act.pop.depth).map act.pop.stack = frames.tail.reverse := by
  cases frames with
  | nil =>
    have hdepth : act.depth = 0 := by simpa using congrArg List.length h
    simp [Activity.pop, hdepth]
  | cons i is =>
    have hdepth : act.depth = is.length + 1 := by simpa using congrArg List.length h
    rw [hdepth, List.range_succ, List.map_append, List.reverse_cons] at h
    have hpre := (List.append_inj h (by simp)).1
    simpa [Activity.pop, hdepth] using hpre

theorem cut_stack {act : Activity} {frames : List ℕ} {len : ℕ}
    (h : (List.range act.depth).map act.stack = frames.reverse) (hlen : len ≤ frames.length) :
    (List.range len).map act.stack = (frames.drop (frames.length - len)).reverse := by
  have hdepth : act.depth = frames.length := by simpa using congrArg List.length h
  have htake := congrArg (List.take len) h
  rw [← List.map_take, List.take_range, hdepth, min_eq_left hlen] at htake
  rw [htake, List.take_reverse]

/-! ## Live ranges through the events -/

theorem Live.keeps {g : Geometry} {t t' : Table} {i : ℕ} (h : Live g t i) (hk : Keeps t t') : Live g t' i := by
  refine ⟨h.known.trans_le hk.candN, ?_⟩
  rw [hk.ranges i h.known]
  exact h.resolved

section Held

variable {n : Nest}

/-- An event that neither enters nor leaves native code. -/
theorem Nest.Held.act (h : n.Held) (a : Action) (hact : (n.rt.step a).act = n.rt.act) :
    Nest.Held { n with rt := n.rt.step a } := by
  have hstep := step_stepped h.ordered a
  refine ⟨hstep.ordered, ?_, ?_, fun i hi => ?_, h.landing⟩
  · dsimp only
    rw [hact]
    exact h.stack
  · dsimp only
    rw [hact]
    exact h.room
  · dsimp only
    rw [hstep.geometry]
    exact (h.live i hi).keeps hstep.keeps

theorem overlayLoaderDispatchSeg_native {d : Disk} {addr : Word} {s : Runtime} {i : ℕ} (h : Ordered s)
    (hi : (overlayLoaderDispatchSeg d addr s).2 = .native i) :
    ∃ s₁, Moves s s₁ ∧ (overlayLoaderDispatchSeg d addr s).1 = { s₁ with act := s₁.act.push i } ∧
      i < s₁.tab.candN ∧ (s₁.tab.cand i).Confirmed s₁.mem := by
  unfold overlayLoaderDispatchSeg at hi ⊢
  split
  · next hcut =>
    rw [if_pos hcut] at hi
    exact absurd hi (by simp)
  · next hcut =>
    rw [if_neg hcut] at hi
    exact ((dispatchUncut_dispatches d addr h.native h.counted).native i hi).1

theorem overlayLoaderDispatchSeg_act {d : Disk} {addr : Word} {s : Runtime} (h : Ordered s)
    (hno : ∀ i, (overlayLoaderDispatchSeg d addr s).2 ≠ .native i) :
    (overlayLoaderDispatchSeg d addr s).1.act = s.act := by
  unfold overlayLoaderDispatchSeg at hno ⊢
  split
  · rfl
  · next hcut =>
    rw [if_neg hcut] at hno
    have hd := dispatchUncut_dispatches d addr h.native h.counted
    generalize dispatchUncut d addr s = r at hd hno
    cases hr : r.2 with
    | again => exact absurd hr hd.again
    | interp => exact (hd.interp hr).kept.act
    | native i => exact absurd hr (hno i)
    | missed =>
      obtain ⟨s₁, hm, -, ⟨-, hs⟩ | ⟨-, hs, -⟩⟩ := hd.missed hr
      · rw [hs]
        exact hm.kept.act
      · rw [hs]
        exact hm.kept.act

theorem Nest.Held.dispatch (h : n.Held) {d : Disk} {addr : Word} (hc : n.Contained (.act (.dispatch d addr))) :
    (n.step (.act (.dispatch d addr))).Held := by
  cases hr : (overlayLoaderDispatchSeg d addr n.rt).2 with
  | native i =>
    have hstep : n.step (.act (.dispatch d addr)) =
        { n with rt := (overlayLoaderDispatchSeg d addr n.rt).1, frames := i :: n.frames } := by
      simp only [Nest.step, hr]
    obtain ⟨s₁, hm, hs, hi, hconf⟩ := overlayLoaderDispatchSeg_native h.ordered hr
    have hroom : s₁.act.depth < activeStackCap := by
      rw [hm.kept.act]
      exact hc ⟨i, hr⟩
    have hord := h.ordered.moves hm
    rw [hstep, hs]
    refine ⟨hord.same rfl rfl rfl, push_stack (by rw [hm.kept.act]; exact h.stack) hroom i, ?_, fun j hj => ?_,
      fun l hl => ?_⟩
    · simp only [Activity.push, if_pos hroom]
      exact hroom
    · rcases List.mem_cons.1 hj with rfl | hj
      · exact ⟨hi, hord.native.resolved j hi hconf.1⟩
      · have hlive := (h.live j hj).keeps hm.grows.keeps
        rwa [← hm.kept.geometry] at hlive
    · obtain ⟨hfst, hle⟩ := h.landing l hl
      exact ⟨hfst, hle.trans (Nat.le_succ _)⟩
  | again | interp | missed =>
    have hno : ∀ i, (overlayLoaderDispatchSeg d addr n.rt).2 ≠ .native i := by simp [hr]
    have hstep : n.step (.act (.dispatch d addr)) = { n with rt := n.rt.step (.dispatch d addr) } := by
      simp only [Nest.step, hr]
      rfl
    rw [hstep]
    exact h.act _ (overlayLoaderDispatchSeg_act h.ordered hno)

theorem Nest.Held.leave (h : n.Held) : (n.step (.act .leave)).Held := by
  simp only [Nest.step]
  split
  · next hlt =>
    refine ⟨(step_stepped h.ordered .leave).ordered, pop_stack h.stack, (Nat.sub_le _ _).trans h.room, fun i hi => ?_, fun l hl => ?_⟩
    · exact h.live i (List.mem_of_mem_tail hi)
    · obtain ⟨hfst, -⟩ := h.landing l hl
      rw [hl] at hlt
      refine ⟨hfst, ?_⟩
      simp only [Option.map_some, Option.getD_some, List.length_tail] at hlt ⊢
      omega
  · exact h

theorem Nest.Held.land (h : n.Held) : (n.step .land).Held := by
  simp only [Nest.step]
  split
  · exact h
  · next depth len hl =>
    obtain ⟨hfst, hle⟩ := h.landing _ hl
    have hdepth : depth = len := hfst
    have hcap : len ≤ activeStackCap := by
      have := h.depth
      have := h.room
      omega
    have hset : n.rt.act.setDepth depth = { n.rt.act with depth := len } := by
      unfold Activity.setDepth
      rw [hdepth, if_pos hcap]
    refine ⟨(step_stepped h.ordered (.setNesting depth)).ordered, ?_, ?_, fun i hi => h.live i (List.mem_of_mem_drop hi),
      fun l hl' => absurd hl' (by simp)⟩
    · have hcut := cut_stack h.stack hle
      show (List.range (n.rt.act.setDepth depth).depth).map (n.rt.act.setDepth depth).stack = _
      rw [hset]
      exact hcut
    · show (n.rt.act.setDepth depth).depth ≤ _
      rw [hset]
      exact hcap

/-- The landing puts the depth back to the activations it was taken with. -/
theorem Nest.Held.step (h : n.Held) {t : Turn} (hc : n.Contained t) : (n.step t).Held := by
  cases t with
  | act a =>
    cases a with
    | dispatch d addr => exact h.dispatch hc
    | leave => exact h.leave
    | setNesting depth => exact h
    | _ => exact h.act _ (step_undispatched h.ordered _ (by simp) (by simp) (by simp)).act
  | escape k =>
    have hdrop : n.frames.drop k = n.frames := hc
    simp only [Nest.step, hdrop]
    refine ⟨h.ordered, h.stack, h.room, h.live, fun l hl => ?_⟩
    exact h.landing l (Option.filter_eq_some_iff.1 hl).1
  | arm =>
    simp only [Nest.step]
    split
    · refine ⟨h.ordered, h.stack, h.room, h.live, fun l hl => ?_⟩
      have hl' := Option.some.inj hl
      subst hl'
      exact ⟨h.depth, le_refl _⟩
    · exact h
  | land => exact h.land
  | disarm => exact ⟨h.ordered, h.stack, h.room, h.live, fun l hl => absurd hl (by simp [Nest.step])⟩

theorem Nest.Held.run {ts : List Turn} (h : n.Held) (hc : n.AllContained ts) : (n.run ts).Held := by
  induction ts generalizing n with
  | nil => exact h
  | cons t ts ih => exact ih (h.step hc.1) hc.2

theorem held_start (st : Settings) (m : Memory) (dirty : ℕ → Bool) (d : Disk) : (Nest.start st m dirty d).Held := by
  have hord := ordered_start st m dirty d
  have hact : (Runtime.start st m dirty d).act = ⟨fun _ => 0, 0⟩ := by
    unfold Runtime.start
    generalize hs : Runtime.mk st m .init _ _ _ _ _ _ _ _ _ _ = s
    obtain ⟨m', c, -, -, hm⟩ := scanned_moves d s
    rw [hm.kept.act, ← hs]
  refine ⟨hord, ?_, ?_, fun i hi => absurd hi List.not_mem_nil, fun l hl => absurd hl (by simp [Nest.start])⟩
  · show (List.range (Runtime.start st m dirty d).act.depth).map _ = _
    rw [hact]
    rfl
  · show (Runtime.start st m dirty d).act.depth ≤ _
    rw [hact]
    exact Nat.zero_le _

end Held

/-! ## Stores into running code -/

section Stores

/-- One turn of the loop, on the candidate it looks at and on the others. -/
theorem blacklistIf_cand (p size : Word) (t : Table) (j i : ℕ) :
    (i ≠ j → (blacklistIf p size t j).cand i = t.cand i) ∧
      (i = j → (((blacklistIf p size t j).cand i).state = .blacklist ↔
        (t.cand i).state = .blacklist ∨ rangesOverlapWrite (t.cand i).ranges p size = true)) := by
  unfold blacklistIf
  refine ⟨fun hne => ?_, fun heq => ?_⟩
  · split
    · simp [Table.setCand, hne]
    · rfl
  · subst heq
    split
    · next hyes => simp [Table.setCand, hyes]
    · next hno => simp [hno]

theorem foldl_blacklistIf (p size : Word) (l : List ℕ) (t : Table) (i : ℕ) :
    (i ∉ l → (l.foldl (blacklistIf p size) t).cand i = t.cand i) ∧
      (i ∈ l → (((l.foldl (blacklistIf p size) t).cand i).state = .blacklist ↔
        (t.cand i).state = .blacklist ∨ rangesOverlapWrite (t.cand i).ranges p size = true)) := by
  induction l generalizing t with
  | nil => exact ⟨fun _ => rfl, fun h => absurd h List.not_mem_nil⟩
  | cons j js ih =>
    obtain ⟨hother, hsame⟩ := blacklistIf_cand p size t j i
    obtain ⟨hout, hin⟩ := ih (blacklistIf p size t j)
    have hranges := (blacklistIf_blacklisted p size t j).ranges i
    rw [List.foldl_cons]
    refine ⟨fun h => ?_, fun h => ?_⟩
    · rw [List.mem_cons, not_or] at h
      rw [hout h.2, hother h.1]
    · by_cases hjs : i ∈ js
      · rw [hin hjs, hranges]
        by_cases hij : i = j
        · rw [hsame hij, or_assoc, or_self]
        · rw [hother hij]
      · have hij : i = j := (List.mem_cons.1 h).resolve_right hjs
        rw [hout hjs, hsame hij]

theorem resolve_plain {g : Geometry} {lo len off : Word} (h : psxRamResolve g lo len = some off)
    (hlo : lo.toNat < g.size.toNat) : off = lo := by
  unfold psxRamResolve at h
  dsimp only at h
  split at h
  · exact absurd h (by simp)
  · split at h
    · exact absurd h (by simp)
    · have hoff : lo &&& 0x1FFFFFFF &&& g.mask = off := Option.some.inj h
      rw [← hoff]
      refine BitVec.eq_of_toNat_eq ?_
      rw [BitVec.and_assoc, BitVec.toNat_and]
      cases g with
      | retail =>
        have hmask : (0x1FFFFFFF &&& Geometry.retail.mask : Word).toNat = 2 ^ 21 - 1 := by decide
        rw [hmask, Nat.and_two_pow_sub_one_eq_mod]
        exact Nat.mod_eq_of_lt hlo
      | expanded =>
        have hmask : (0x1FFFFFFF &&& Geometry.expanded.mask : Word).toNat = 2 ^ 23 - 1 := by decide
        rw [hmask, Nat.and_two_pow_sub_one_eq_mod]
        exact Nat.mod_eq_of_lt hlo

/-- A store inside a page of RAM. -/
theorem noted_inside {m : Memory} {phys : Word} {len : ℕ} (h : m.noted phys = true)
    (hin : phys.toNat % 4096 + len ≤ 4096) :
    phys.toNat < m.geometry.size.toNat ∧ phys.toNat + len ≤ m.geometry.size.toNat ∧ phys &&& 0x1FFFFFFF = phys := by
  unfold Memory.noted at h
  have hpage : phys.toNat / 4096 < m.geometry.size.toNat / 4096 := of_decide_eq_true (Bool.and_eq_true_iff.1 h).1
  have hsize : m.geometry.size.toNat = 0x200000 ∨ m.geometry.size.toNat = 0x800000 := by
    cases m.geometry
    · exact Or.inl rfl
    · exact Or.inr rfl
  have hlt : phys.toNat < m.geometry.size.toNat := by omega
  refine ⟨hlt, by omega, BitVec.eq_of_toNat_eq ?_⟩
  have hmask : (0x1FFFFFFF : Word).toNat = 2 ^ 29 - 1 := by decide
  rw [BitVec.toNat_and, hmask, Nat.and_two_pow_sub_one_eq_mod]
  exact Nat.mod_eq_of_lt (by omega)

/-- The compare of compiled addresses finds the live ranges, as long as those it meets are not mirrored. -/
theorem overlap_touches {g : Geometry} {ranges : List CodeRange} {phys : Word} {len : ℕ} (hb : Bounded ranges)
    (hlive : ∀ r ∈ ranges, ∃ off, psxRamResolve g r.lo r.len = some off) (hin : phys.toNat + len ≤ g.size.toNat)
    (hlen : len ≤ 4096) (hphys : phys.toNat < g.size.toNat)
    (hplain : ∀ r ∈ ranges, ∀ off, psxRamResolve g r.lo r.len = some off → phys.toNat < off.toNat + r.len.toNat →
      off.toNat < phys.toNat + len → off = r.lo) :
    rangesOverlapWrite ranges phys (BitVec.ofNat 32 len) = true ↔ Touches g ranges phys len := by
  have hsize : g.size.toNat ≤ 0x800000 := by cases g <;> decide
  have hsum : (phys + BitVec.ofNat 32 len).toNat = phys.toNat + len := by
    rw [BitVec.toNat_add, BitVec.toNat_ofNat]
    omega
  have hmeet : ∀ r ∈ ranges, (decide (phys < r.lo + r.len) && decide (phys + BitVec.ofNat 32 len > r.lo)) = true ↔
      phys.toNat < r.lo.toNat + r.len.toNat ∧ r.lo.toNat < phys.toNat + len := by
    intro r hr
    have hend := (hb r hr).2
    have hadd : (r.lo + r.len).toNat = r.lo.toNat + r.len.toNat := by
      rw [BitVec.toNat_add]
      omega
    rw [Bool.and_eq_true, decide_eq_true_eq, decide_eq_true_eq, GT.gt, BitVec.lt_def, BitVec.lt_def, hadd, hsum]
  unfold rangesOverlapWrite
  rw [List.any_eq_true]
  constructor
  · rintro ⟨r, hr, hyes⟩
    obtain ⟨off, hoff⟩ := hlive r hr
    obtain ⟨hhi, hlo⟩ := (hmeet r hr).1 hyes
    have hsame := resolve_plain hoff (by omega)
    exact ⟨r, hr, off, hoff, hsame ▸ hhi, hsame ▸ hlo⟩
  · rintro ⟨r, hr, off, hoff, hhi, hlo⟩
    have hsame := hplain r hr off hoff hhi hlo
    exact ⟨r, hr, (hmeet r hr).2 ⟨hsame ▸ hhi, hsame ▸ hlo⟩⟩

variable {n : Nest}

theorem Nest.Held.catches (h : n.Held) {addr : Word} {bytes : List Byte} (hp : n.Plain addr bytes)
    (hnoted : n.rt.mem.noted (psxRamMapWrite n.rt.mem.geometry addr) = true) : n.Catches addr bytes := by
  obtain ⟨hwithin, hplain⟩ := hp
  obtain ⟨hphys, hend, hfold⟩ := noted_inside hnoted hwithin
  have hram : psxRamMapWrite n.rt.mem.geometry addr < ramWindow := by
    have hsize : n.rt.mem.geometry.size.toNat ≤ 0x800000 := by cases n.rt.mem.geometry <;> decide
    exact BitVec.lt_def.2 (hphys.trans_le hsize)
  have htab := @store_tab n.rt addr bytes hram
  rw [if_pos hnoted] at htab
  unfold activeWriteCheck at htab
  rw [hfold, h.stack] at htab
  have hfoldl := foldl_blacklistIf (psxRamMapWrite n.rt.mem.geometry addr) (BitVec.ofNat 32 bytes.length)
    n.frames.reverse n.rt.tab
  refine ⟨fun i hi => ?_, fun i hi => ?_⟩
  · rw [htab, (hfoldl i).2 (List.mem_reverse.2 hi)]
    have hlive := h.live i hi
    rw [overlap_touches (h.ordered.native.bounded i hlive.known) hlive.resolved hend (by omega) hphys (hplain i hi)]
  · rw [htab]
    exact (hfoldl i).1 fun hmem => hi (List.mem_reverse.1 hmem)

/-- Where no page is noted, no candidate changes. -/
theorem store_unnoted {s : Runtime} {addr : Word} {bytes : List Byte}
    (h : s.mem.noted (psxRamMapWrite s.mem.geometry addr) = false) : (s.store addr bytes).tab = s.tab := by
  by_cases hram : psxRamMapWrite s.mem.geometry addr < ramWindow
  · rw [store_tab hram, h]
    rfl
  · unfold Runtime.store
    dsimp only
    rw [if_neg hram]

end Stores

/-! ## Runs -/

section Runs

variable {n : Nest}

theorem step_rt (n : Nest) (t : Turn) : (n.step t).rt = n.rt ∨ ∃ a, (n.step t).rt = n.rt.step a := by
  cases t with
  | act a =>
    cases a with
    | dispatch d addr =>
      refine Or.inr ⟨.dispatch d addr, ?_⟩
      simp only [Nest.step]
      split <;> rfl
    | leave =>
      simp only [Nest.step]
      split
      · exact Or.inr ⟨.leave, rfl⟩
      · exact Or.inl rfl
    | setNesting depth => exact Or.inl rfl
    | store addr bytes => exact Or.inr ⟨.store addr bytes, rfl⟩
    | markExecutable phys len => exact Or.inr ⟨.markExecutable phys len, rfl⟩
    | setBitmap words => exact Or.inr ⟨.setBitmap words, rfl⟩
    | clearBaseline => exact Or.inr ⟨.clearBaseline, rfl⟩
    | resetForBoot => exact Or.inr ⟨.resetForBoot, rfl⟩
    | publish d path image => exact Or.inr ⟨.publish d path image, rfl⟩
    | rescan d => exact Or.inr ⟨.rescan d, rfl⟩
    | clearMisses => exact Or.inr ⟨.clearMisses, rfl⟩
    | copyRam ram => exact Or.inr ⟨.copyRam ram, rfl⟩
    | invalidate => exact Or.inr ⟨.invalidate, rfl⟩
  | escape k => exact Or.inl rfl
  | arm =>
    refine Or.inl ?_
    simp only [Nest.step]
    split <;> rfl
  | land =>
    simp only [Nest.step]
    split
    · exact Or.inl rfl
    · next depth len hl => exact Or.inr ⟨.setNesting depth, rfl⟩
  | disarm => exact Or.inl rfl

/-- Whatever the turns are, the tables stay in order and the blacklist grows only. -/
theorem run_keeps (h : Ordered n.rt) (ts : List Turn) : Ordered (n.run ts).rt ∧ ∀ i < n.rt.tab.candN,
    (n.rt.tab.cand i).state = .blacklist →
      i < (n.run ts).rt.tab.candN ∧ ((n.run ts).rt.tab.cand i).state = .blacklist := by
  induction ts generalizing n with
  | nil => exact ⟨h, fun i hi hb => ⟨hi, hb⟩⟩
  | cons t ts ih =>
    have hstep : Ordered (n.step t).rt ∧ Keeps n.rt.tab (n.step t).rt.tab := by
      obtain he | ⟨a, he⟩ := step_rt n t
      · rw [he]
        exact ⟨h, .refl _⟩
      · rw [he]
        exact ⟨(step_stepped h a).ordered, (step_stepped h a).keeps⟩
    obtain ⟨hord, hkeep⟩ := ih hstep.1
    refine ⟨hord, fun i hi hb => ?_⟩
    exact hkeep i (hi.trans_le hstep.2.candN) (hstep.2.blacklist i hi hb)

theorem barred_of_blacklist (h : Ordered n.rt) {i : ℕ} (hi : i < n.rt.tab.candN)
    (hb : (n.rt.tab.cand i).state = .blacklist) (ts : List Turn) : (n.run ts).Barred i := by
  obtain ⟨hord, hkeep⟩ := run_keeps h ts
  obtain ⟨hi', hb'⟩ := hkeep i hi hb
  obtain ⟨hdispatch, hrange⟩ := blacklisted_unselected hord hi' hb'
  exact ⟨hb', hdispatch, hrange⟩

/-- Self-modification of running code is caught in every run that stays within the stack: the stack holds the
activations under way, a store to a watched page puts on the blacklist exactly the running candidates whose live
bytes it meets, and the blacklist is final. -/
theorem running_code_caught (st : Settings) (m : Memory) (dirty : ℕ → Bool) (d : Disk) (ts : List Turn)
    (h : (Nest.start st m dirty d).AllContained ts) : ((Nest.start st m dirty d).run ts).Caught := by
  have hheld := (held_start st m dirty d).run h
  exact ⟨hheld.stack, fun addr bytes hp hnoted => hheld.catches hp hnoted, fun addr bytes hno => store_unnoted hno,
    fun i hi hb => barred_of_blacklist hheld.ordered hi hb⟩

end Runs

def plainSettings : Settings where
  cpsMode := true
  loadsAllowed := false
  regionFloor := 0x00080000
  textImageLo := 0x00010000
  forceInterp := false
  shellwinInterp := false
  nativeExec := true
  nativeBlocked := fun _ => false
  abiTag := 1

/-- One resident library with a function of one zero word. -/
def oneShard (entry : Word) : Disk where
  dirs := [⟨tierGcc, [⟨['a'], 0, 0, true⟩], true⟩]
  manifest _ := some ⟨[compiled (fun _ => 0) entry 4], 0x80000000, none, .ambiguous, by simp⟩
  image _ := some ⟨1, none, true, true, fun _ => true⟩
  resident _ := true
  published _ := none

def runningShard (entry : Word) : Nest :=
  (Nest.start plainSettings blankMemory (fun _ => false) (oneShard entry)).run
    [.act (.dispatch (oneShard entry) entry)]

/-- Two resident libraries with a function of one zero word each. -/
def twoShards : Disk where
  dirs := [⟨tierGcc, [⟨['a'], 0, 0, true⟩, ⟨['b'], 0, 0, true⟩], true⟩]
  manifest path :=
    some ⟨[compiled (fun _ => 0) (if path.getLast? = some 'a' then 0x80180000 else 0x80180100) 4], 0x80000000, none,
      .ambiguous, by simp⟩
  image _ := some ⟨1, none, true, true, fun _ => true⟩
  resident _ := true
  published _ := none

/-- The first function calls the second, a render pass is abandoned, and it calls the second again. -/
def nestedTurns : List Turn :=
  [.act (.dispatch twoShards 0x80180000), .arm, .act (.dispatch twoShards 0x80180100), .land,
    .act (.dispatch twoShards 0x80180100)]

def nestedShards : Nest := (Nest.start plainSettings blankMemory (fun _ => false) twoShards).run nestedTurns

set_option maxRecDepth 2000 in
/-- A store to the code of the caller: it is on the blacklist, and what it has called is not. -/
theorem running_code_caught_nested : nestedShards.frames = [1, 0] ∧
    ((nestedShards.rt.store 0x80180000 [1]).tab.cand 0).state = .blacklist ∧
    ((nestedShards.rt.store 0x80180000 [1]).tab.cand 1).state ≠ .blacklist := by
  have hcaught : nestedShards.Caught := by
    refine running_code_caught _ _ _ _ nestedTurns ⟨fun _ => ?_, trivial, fun _ => ?_, trivial, fun _ => ?_, trivial⟩
    all_goals decide
  have hframes : nestedShards.frames = [1, 0] := by decide
  have hgeometry : nestedShards.rt.mem.geometry = .retail := by decide
  have hfirst : (nestedShards.rt.tab.cand 0).ranges = [⟨0x00180000, 4⟩] := by decide
  have hsecond : (nestedShards.rt.tab.cand 1).ranges = [⟨0x00180100, 4⟩] := by decide
  have hlisted : (nestedShards.rt.tab.cand 1).state ≠ .blacklist := by decide
  have hplain : nestedShards.Plain 0x80180000 [1] := by
    refine ⟨by rw [hgeometry]; decide, ?_⟩
    rw [hframes, hgeometry]
    intro i hi r hr off hoff _ _
    rcases List.mem_cons.1 hi with rfl | hi
    · obtain rfl := List.mem_singleton.1 (hsecond ▸ hr)
      exact (Option.some.inj hoff).symm
    · obtain rfl := List.mem_singleton.1 hi
      obtain rfl := List.mem_singleton.1 (hfirst ▸ hr)
      exact (Option.some.inj hoff).symm
  have hcatches := (hcaught.stores _ _ hplain (by decide)).active
  rw [hframes, hgeometry] at hcatches
  refine ⟨hframes, (hcatches 0 (by decide)).2 (Or.inr ?_), fun hblack => ?_⟩
  · rw [hfirst]
    exact ⟨_, List.mem_singleton.2 rfl, 0x00180000, by decide, by decide, by decide⟩
  · rcases (hcatches 1 (by decide)).1 hblack with hblack | htouches
    · exact hlisted hblack
    · rw [hsecond] at htouches
      obtain ⟨r, hr, off, hoff, -, hmeets⟩ := htouches
      obtain rfl := List.mem_singleton.1 hr
      obtain rfl := Option.some.inj hoff
      exact absurd hmeets (by decide)

set_option maxRecDepth 2000 in
/-- Code compiled at a mirror runs on, although its bytes have been written. -/
theorem mirrored_code_missed : (runningShard 0x80780000).frames = [0] ∧
    (runningShard 0x80780000).rt.mem.noted (psxRamMapWrite .retail 0x80180000) = true ∧
    ¬(runningShard 0x80780000).Catches 0x80180000 [1] := by
  have hframes : (runningShard 0x80780000).frames = [0] := by decide
  have hgeometry : (runningShard 0x80780000).rt.mem.geometry = .retail := by decide
  have hranges : ((runningShard 0x80780000).rt.tab.cand 0).ranges = [⟨0x00780000, 4⟩] := by decide
  refine ⟨hframes, by decide, fun h => ?_⟩
  have hstate : (((runningShard 0x80780000).rt.store 0x80180000 [1]).tab.cand 0).state ≠ .blacklist := by
    decide
  refine hstate ((h.active 0 (by rw [hframes]; exact List.mem_singleton.2 rfl)).2 (Or.inr ?_))
  rw [hgeometry, hranges]
  exact ⟨⟨0x00780000, 4⟩, List.mem_singleton.2 rfl, 0x00180000, by decide, by decide, by decide⟩

end PsxRecomp.Overlays
