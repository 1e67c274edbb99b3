import Mathlib
import PsxRecomp.Dma.Advance

/-! The limit on the nodes of a GPU linked list: over every memory a started transfer completes once,
within the cycles that its limit allows, and reports the limit exactly when no header ended the
list. -/
namespace PsxRecomp.Dma
open Transducer
set_option autoImplicit false

variable {ω : Type*} (ops : Ops ω) (mem : BitVec 32 → BitVec 32)

/-! ## The list in memory -/

/-- Where the header of the `n`-th node is read. -/
def nodeAddress (startAddr : BitVec 32) : ℕ → BitVec 32
  | 0 => resolveAddress ops startAddr
  | n + 1 => resolveAddress ops (resolveAddress ops (mem (nodeAddress startAddr n) &&& 0x00FFFFFF))

/-- The header of the `n`-th node ends the list. -/
def Ends (startAddr : BitVec 32) (n : ℕ) : Prop :=
  mem (nodeAddress ops mem startAddr n) &&& 0x00FFFFFF = endMarker

def Call.isComplete : Call → Bool
  | .complete _ => true
  | _ => false

/-! ## Stages of a transfer -/

/-- A transfer under way that has read `n` headers. -/
structure Underway (maxNodes : BitVec 32) (n : ℕ) (ll : LinkedList) : Prop where
  active : ll.active = true
  hitLimit : ll.hitLimit = false
  limit : ll.maxNodes = maxNodes
  nodes : ll.nodesProcessed.toNat = n
  le : n ≤ maxNodes.toNat

/-- Where a transfer waits, with the cycles that it may still spend. -/
inductive Stage (startAddr maxNodes : BitVec 32) (ll : LinkedList) : ℕ → Prop where
  | header (n : ℕ) (h : Underway maxNodes n ll) (hphase : ll.phase = .header)
      (hdue : ll.cyclesRemaining = 1)
      (haddr : resolveAddress ops ll.currentAddr = nodeAddress ops mem startAddr n)
      (hopen : ∀ k < n, ¬Ends ops mem startAddr k) :
      Stage startAddr maxNodes ll (1 + 256 * (maxNodes.toNat - n))
  | payload (n : ℕ) (h : Underway maxNodes (n + 1) ll) (hphase : ll.phase = .payload)
      (hdue : ll.cyclesRemaining = 1)
      (hnext : ll.nextAddr = mem (nodeAddress ops mem startAddr n) &&& 0x00FFFFFF)
      (hopen : ∀ k < n, ¬Ends ops mem startAddr k)
      (hindex : ll.payloadIndex < ll.wordCount) (hcount : ll.wordCount.toNat ≤ 255) :
      Stage startAddr maxNodes ll
        (ll.wordCount.toNat - ll.payloadIndex.toNat + (1 + 256 * (maxNodes.toNat - (n + 1))))

/-- The transfer has completed, and these are the calls since it was under way. -/
structure Completed (startAddr maxNodes : BitVec 32) (ll : LinkedList) (calls : List Call)
    (hitLimit : Bool) : Prop where
  inactive : ll.active = false
  nodes : ll.nodesProcessed.toNat ≤ maxNodes.toNat
  calls : calls.filter Call.isComplete = (ops.complete.map fun _ => Call.complete hitLimit).toList
  limit : hitLimit = true ↔ ll.nodesProcessed = maxNodes ∧
    ∀ k < maxNodes.toNat, ¬Ends ops mem startAddr k

/-- What one cycle does to a transfer under way. -/
def Advanced (startAddr maxNodes : BitVec 32) (b : ℕ) (r : (LinkedList × ω) × List Call) : Prop :=
  (∃ b' < b, Stage ops mem startAddr maxNodes r.1.1 b' ∧ r.2.filter Call.isComplete = []) ∨
    ∃ hitLimit, Completed ops mem startAddr maxNodes r.1.1 r.2 hitLimit

variable {ops mem} {startAddr maxNodes : BitVec 32}

theorem finish_calls_eq (s : LinkedList × ω) :
    (finish ops s).2 = (ops.complete.map fun _ => Call.complete s.1.hitLimit).toList := by
  unfold finish
  cases ops.complete <;> rfl

theorem finish_nodes (s : LinkedList × ω) :
    (finish ops s).1.1.nodesProcessed = s.1.nodesProcessed := by
  unfold finish
  cases ops.complete <;> rfl

theorem filter_complete (flag : Bool) :
    (ops.complete.map fun _ => Call.complete flag).toList.filter Call.isComplete =
      (ops.complete.map fun _ => Call.complete flag).toList := by
  cases ops.complete <;> rfl

/-- The end of the node whose header was the `n`-th. -/
theorem nextNode_stage {n : ℕ} {s : LinkedList × ω} (h : Underway maxNodes (n + 1) s.1)
    (hnext : s.1.nextAddr = mem (nodeAddress ops mem startAddr n) &&& 0x00FFFFFF)
    (hopen : ∀ k < n, ¬Ends ops mem startAddr k) {calls : List Call}
    (hcalls : calls.filter Call.isComplete = []) {b : ℕ}
    (hb : 1 + 256 * (maxNodes.toNat - (n + 1)) < b) :
    Advanced ops mem startAddr maxNodes b ((nextNode ops s).1, calls ++ (nextNode ops s).2) := by
  unfold nextNode
  split_ifs with hend
  · refine Or.inr ⟨false, finish_inactive ops s, ?_, ?_, ?_⟩
    · rw [finish_nodes, h.nodes]
      exact h.le
    · rw [List.filter_append, hcalls, finish_calls_eq, h.hitLimit]
      exact filter_complete false
    · refine iff_of_false (by decide) fun hall => hall.2 n h.le ?_
      exact hnext.symm.trans hend
  · refine Or.inl ⟨_, hb, .header (n + 1) ⟨h.active, h.hitLimit, h.limit, h.nodes, h.le⟩ rfl rfl ?_ ?_,
      by rw [List.append_nil]; exact hcalls⟩
    · rw [nodeAddress, ← hnext]
    · intro k hk
      rcases Nat.lt_succ_iff_lt_or_eq.1 hk with hk | rfl
      · exact hopen k hk
      · exact fun hk => hend (hnext.trans hk)

theorem finish_phase (s : LinkedList × ω) : (finish ops s).1.1.phase = .idle := by
  unfold finish
  cases ops.complete <;> rfl

theorem nextNode_phase (s : LinkedList × ω) : (nextNode ops s).1.1.phase ≠ .setup := by
  unfold nextNode
  split_ifs
  · rw [finish_phase]
    decide
  · exact Phase.noConfusion

theorem beginNode_spec (s : LinkedList × ω) : ∃ emit env calls,
    beginNode ops s = (({ s.1 with emitNode := emit }, env), calls) ∧ calls.filter Call.isComplete = [] := by
  unfold beginNode
  cases ops.beginNode <;> exact ⟨_, _, _, rfl, rfl⟩

/-- The header of the `n`-th node has just been read. -/
structure Loaded (ops : Ops ω) (mem : BitVec 32 → BitVec 32) (startAddr maxNodes : BitVec 32) (n : ℕ)
    (ll : LinkedList) : Prop where
  underway : Underway maxNodes (n + 1) ll
  next : ll.nextAddr = mem (nodeAddress ops mem startAddr n) &&& 0x00FFFFFF
  index : ll.payloadIndex = 0
  count : ll.wordCount.toNat ≤ 255

theorem loadHeader_spec {n : ℕ} {s : LinkedList × ω} (h : Underway maxNodes n s.1)
    (haddr : resolveAddress ops s.1.currentAddr = nodeAddress ops mem startAddr n)
    (hn : n < maxNodes.toNat) : ∃ s' calls, loadHeader ops mem s = (s', calls) ∧
      calls.filter Call.isComplete = [] ∧ Loaded ops mem startAddr maxNodes n s'.1 := by
  have hsucc : (s.1.nodesProcessed + 1).toNat = n + 1 := by
    rw [BitVec.toNat_add, h.nodes]
    have := maxNodes.isLt
    simp
    omega
  have hcount : (mem (nodeAddress ops mem startAddr n) >>> (24 : ℕ)).toNat ≤ 255 := by
    rw [BitVec.toNat_ushiftRight, Nat.shiftRight_eq_div_pow]
    have := (mem (nodeAddress ops mem startAddr n)).isLt
    omega
  rw [← haddr] at hcount
  unfold loadHeader
  cases ops.observeHeader <;>
    exact ⟨_, _, rfl, rfl, ⟨h.active, h.hitLimit, h.limit, hsucc, hn⟩, by rw [← haddr], rfl, hcount⟩

/-- A node with payload: the free setup, and the wait for the first word. -/
theorem setup_stage {n : ℕ} {s : LinkedList × ω} (h : Loaded ops mem startAddr maxNodes n s.1)
    (hopen : ∀ k < n, ¬Ends ops mem startAddr k) (hpayload : s.1.wordCount ≠ 0) {calls : List Call}
    (hcalls : calls.filter Call.isComplete = []) :
    Advanced ops mem startAddr maxNodes (1 + 256 * (maxNodes.toNat - n))
      ((seq (beginNode ops) enterPayload s).1, calls ++ (seq (beginNode ops) enterPayload s).2) := by
  obtain ⟨emit, env, calls', hbegin, hcalls'⟩ := @beginNode_spec _ ops s
  have hle := h.underway.le
  have hcount := h.count
  have hpos : (0 : BitVec 32) < s.1.wordCount := by bv_omega
  unfold seq
  rw [hbegin]
  have hstage := @Stage.payload _ ops mem startAddr maxNodes
    { s.1 with emitNode := emit, phase := .payload, cyclesRemaining := 1 } n
    ⟨h.underway.active, h.underway.hitLimit, h.underway.limit, h.underway.nodes, hle⟩ rfl rfl h.next hopen
    (lt_of_eq_of_lt h.index hpos) hcount
  refine Or.inl ⟨_, ?_, hstage, ?_⟩
  · dsimp only
    omega
  · simp [enterPayload, hcalls, hcalls']

/-- A node without payload. -/
theorem empty_stage {n : ℕ} {s : LinkedList × ω} (h : Loaded ops mem startAddr maxNodes n s.1)
    (hopen : ∀ k < n, ¬Ends ops mem startAddr k) {calls : List Call}
    (hcalls : calls.filter Call.isComplete = []) :
    Advanced ops mem startAddr maxNodes (1 + 256 * (maxNodes.toNat - n))
      ((seq (beginNode ops) (nextNode ops) s).1, calls ++ (seq (beginNode ops) (nextNode ops) s).2) := by
  obtain ⟨emit, env, calls', hbegin, hcalls'⟩ := @beginNode_spec _ ops s
  have hle := h.underway.le
  unfold seq
  rw [hbegin]
  have hstep := @nextNode_stage _ ops mem startAddr maxNodes n ({ s.1 with emitNode := emit }, env)
    ⟨h.underway.active, h.underway.hitLimit, h.underway.limit, h.underway.nodes, hle⟩ h.next hopen
    (calls ++ calls') (by rw [List.filter_append, hcalls, hcalls']; rfl)
    (1 + 256 * (maxNodes.toNat - n)) (by omega)
  rw [List.append_assoc] at hstep
  exact hstep

/-- A header and, where it has a payload, the free setup behind it. -/
theorem header_stage {n : ℕ} {s : LinkedList × ω} (h : Underway maxNodes n s.1)
    (hphase : s.1.phase = .header)
    (haddr : resolveAddress ops s.1.currentAddr = nodeAddress ops mem startAddr n)
    (hopen : ∀ k < n, ¬Ends ops mem startAddr k) :
    ((service ops mem s).1.1.phase ≠ .setup ∧
      Advanced ops mem startAddr maxNodes (1 + 256 * (maxNodes.toNat - n)) (service ops mem s)) ∨
    ((service ops mem s).1.1.phase = .setup ∧ (service ops mem s).1.1.active = true ∧
      Advanced ops mem startAddr maxNodes (1 + 256 * (maxNodes.toNat - n))
        (seq (service ops mem) (seq (beginNode ops) enterPayload) s)) := by
  have hservice : service ops mem s = serviceHeader ops mem s := by
    rw [service, hphase]
  have hnodes := h.nodes
  have hle := h.le
  by_cases hlimit : s.1.nodesProcessed ≥ s.1.maxNodes
  · -- the limit is met, and every header so far left the list open
    have hfinish : service ops mem s = finishAtLimit ops s := by
      rw [hservice, serviceHeader, if_pos hlimit]
    rw [h.limit, ge_iff_le, BitVec.le_def, hnodes] at hlimit
    have hall : n = maxNodes.toNat := Nat.le_antisymm hle hlimit
    have hnodes' : (finishAtLimit ops s).1.1.nodesProcessed = maxNodes :=
      (finish_nodes _).trans (BitVec.eq_of_toNat_eq (hnodes.trans hall))
    rw [hfinish]
    refine Or.inl ⟨?_, Or.inr ⟨true, finish_inactive ops _, ?_, ?_, ?_⟩⟩
    · rw [finishAtLimit, finish_phase]
      decide
    · rw [hnodes']
    · rw [finishAtLimit, finish_calls_eq]
      exact filter_complete true
    · exact iff_of_true rfl ⟨hnodes', fun k hk => hopen k (hall ▸ hk)⟩
  · have hn : n < maxNodes.toNat := by
      rw [h.limit, ge_iff_le, BitVec.not_le, BitVec.lt_def, hnodes] at hlimit
      exact hlimit
    obtain ⟨s', calls, hload, hcalls, hloaded⟩ := @loadHeader_spec _ ops mem _ _ _ _ h haddr hn
    by_cases hpayload : s'.1.wordCount ≠ 0
    · have hrun : service ops mem s = ((enterSetup s').1, calls) := by
        rw [hservice, serviceHeader, if_neg hlimit, seq, hload]
        dsimp only
        rw [if_pos hpayload]
        simp [enterSetup]
      have hunder := hloaded.underway
      have hstep := setup_stage (s := (enterSetup (ω := ω) s').1)
        ⟨⟨hunder.active, hunder.hitLimit, hunder.limit, hunder.nodes, hunder.le⟩, hloaded.next,
          hloaded.index, hloaded.count⟩ hopen hpayload hcalls
      rw [seq, hrun]
      exact Or.inr ⟨rfl, hunder.active, hstep⟩
    · have hrun : service ops mem s = ((seq (beginNode ops) (nextNode ops) s').1,
          calls ++ (seq (beginNode ops) (nextNode ops) s').2) := by
        rw [hservice, serviceHeader, if_neg hlimit, seq, hload]
        dsimp only
        rw [if_neg hpayload]
      rw [hrun]
      exact Or.inl ⟨nextNode_phase _, empty_stage hloaded hopen hcalls⟩

theorem payload_phase {s : LinkedList × ω} (hphase : s.1.phase = .payload) :
    (service ops mem s).1.1.phase ≠ .setup := by
  have hword : (transferWord ops mem s).1.1.phase = .payload := by
    unfold transferWord
    split_ifs
    · cases ops.emitWord <;> exact hphase
    · exact hphase
  rw [service, hphase]
  dsimp only
  rw [servicePayload, seq_fst]
  split_ifs
  · dsimp only
    rw [hword]
    decide
  · exact nextNode_phase _

theorem payload_stage {n : ℕ} {s : LinkedList × ω} (h : Underway maxNodes (n + 1) s.1)
    (hphase : s.1.phase = .payload)
    (hnext : s.1.nextAddr = mem (nodeAddress ops mem startAddr n) &&& 0x00FFFFFF)
    (hopen : ∀ k < n, ¬Ends ops mem startAddr k) (hindex : s.1.payloadIndex < s.1.wordCount)
    (hcount : s.1.wordCount.toNat ≤ 255) :
    Advanced ops mem startAddr maxNodes
      (s.1.wordCount.toNat - s.1.payloadIndex.toNat + (1 + 256 * (maxNodes.toNat - (n + 1))))
      (service ops mem s) := by
  have hword : ∃ env calls, transferWord ops mem s =
      (({ s.1 with payloadIndex := s.1.payloadIndex + 1, totalWords := s.1.totalWords + 1 }, env), calls) ∧
        calls.filter Call.isComplete = [] := by
    unfold transferWord
    split_ifs
    · cases ops.emitWord <;> exact ⟨_, _, rfl, rfl⟩
    · exact ⟨_, _, rfl, rfl⟩
  obtain ⟨env, calls, hword, hcalls⟩ := hword
  have hlt : s.1.payloadIndex.toNat < s.1.wordCount.toNat := hindex
  have hsucc : (s.1.payloadIndex + 1).toNat = s.1.payloadIndex.toNat + 1 := by
    rw [BitVec.toNat_add]
    simp
    omega
  rw [service, hphase]
  change Advanced ops mem startAddr maxNodes _ (servicePayload ops mem s)
  unfold servicePayload seq
  rw [hword]
  dsimp only
  split_ifs with hmore
  · have hstage := @Stage.payload _ ops mem startAddr maxNodes
      { s.1 with payloadIndex := s.1.payloadIndex + 1, totalWords := s.1.totalWords + 1
                 cyclesRemaining := 1 } n
      ⟨h.active, h.hitLimit, h.limit, h.nodes, h.le⟩ hphase rfl hnext hopen hmore hcount
    refine Or.inl ⟨_, ?_, hstage, by rw [List.append_nil]; exact hcalls⟩
    dsimp only
    omega
  · have hstep := @nextNode_stage _ ops mem startAddr maxNodes n
      ({ s.1 with payloadIndex := s.1.payloadIndex + 1, totalWords := s.1.totalWords + 1 }, env)
      ⟨h.active, h.hitLimit, h.limit, h.nodes, h.le⟩ hnext hopen calls hcalls
      (s.1.wordCount.toNat - s.1.payloadIndex.toNat + (1 + 256 * (maxNodes.toNat - (n + 1)))) (by omega)
    exact hstep

/-! ## One cycle, and a run of them -/

theorem advance_one (hmem : ops.readWord = some mem) {s : LinkedList × ω} (ha : s.1.active = true)
    (hdue : s.1.cyclesRemaining = 1) :
    ((service ops mem (due s)).1.1.phase ≠ .setup → dmaGpuLlAdvance ops 1 s = service ops mem (due s)) ∧
    ((service ops mem (due s)).1.1.phase = .setup → (service ops mem (due s)).1.1.active = true →
      dmaGpuLlAdvance ops 1 s = seq (service ops mem) (seq (beginNode ops) enterPayload) (due s)) := by
  rw [advance_loop ops mem hmem Nat.one_ne_zero s ha, loop_serviced ops mem (by omega), hdue]
  constructor
  · intro hphase
    rcases service_cases ops mem (due s) with h | h | h
    · rw [if_neg (by rw [h]; decide)]
    · split_ifs with hact hstop
      · rfl
      · exact absurd ⟨rfl, h.1⟩ hstop
      · rfl
    · exact absurd h.2.1 hphase
  · intro hphase hact
    rcases service_cases ops mem (due s) with h | h | h
    · rw [hact] at h
      cases h
    · rcases h.2 with h | h <;> rw [hphase] at h <;> cases h
    · rw [if_pos hact, if_neg fun hstop => hstop.2 h.2.2]
      simp only [seq]
      rw [loop_setup ops mem _ hphase h.2.2 hact]
      rfl

theorem stage_step (hmem : ops.readWord = some mem) {s : LinkedList × ω} {b : ℕ}
    (h : Stage ops mem startAddr maxNodes s.1 b) :
    Advanced ops mem startAddr maxNodes b (dmaGpuLlAdvance ops 1 s) := by
  cases h with
  | header n h hphase hdue haddr hopen =>
    have hunder : Underway maxNodes n (due s).1 := ⟨h.active, h.hitLimit, h.limit, h.nodes, h.le⟩
    rcases header_stage hunder hphase haddr hopen with ⟨hne, hstep⟩ | ⟨hsetup, hact, hstep⟩
    · rw [(advance_one hmem h.active hdue).1 hne]
      exact hstep
    · rw [(advance_one hmem h.active hdue).2 hsetup hact]
      exact hstep
  | payload n h hphase hdue hnext hopen hindex hcount =>
    have hunder : Underway maxNodes (n + 1) (due s).1 := ⟨h.active, h.hitLimit, h.limit, h.nodes, h.le⟩
    rw [(advance_one hmem h.active hdue).1 (payload_phase hphase)]
    exact payload_stage hunder hphase hnext hopen hindex hcount

theorem Completed.later {ll : LinkedList} {calls : List Call} {hitLimit : Bool}
    (h : Completed ops mem startAddr maxNodes ll calls hitLimit) {before : List Call}
    (hbefore : before.filter Call.isComplete = []) :
    Completed ops mem startAddr maxNodes ll (before ++ calls) hitLimit :=
  ⟨h.inactive, h.nodes, by rw [List.filter_append, hbefore, h.calls]; rfl, h.limit⟩

/-- After any number of cycles the transfer has completed, or still has cycles to spend. -/
theorem stage_run (hmem : ops.readWord = some mem) (cycles : ℕ) {s : LinkedList × ω} {b : ℕ}
    (h : Stage ops mem startAddr maxNodes s.1 b) :
    (∃ b', b' + cycles ≤ b ∧ Stage ops mem startAddr maxNodes (dmaGpuLlAdvance ops cycles s).1.1 b' ∧
      (dmaGpuLlAdvance ops cycles s).2.filter Call.isComplete = []) ∨
    ∃ hitLimit, Completed ops mem startAddr maxNodes (dmaGpuLlAdvance ops cycles s).1.1
      (dmaGpuLlAdvance ops cycles s).2 hitLimit := by
  induction cycles generalizing s b with
  | zero =>
    rw [advance_zero]
    exact Or.inl ⟨b, le_rfl, h, rfl⟩
  | succ cycles ih =>
    rw [Nat.add_comm, (advance_flow ops).add]
    rcases stage_step hmem h with ⟨b₁, hb₁, hstage, hcalls⟩ | ⟨hitLimit, hdone⟩
    · rcases ih hstage with ⟨b₂, hb₂, hstage₂, hcalls₂⟩ | ⟨hitLimit, hdone⟩
      · refine Or.inl ⟨b₂, by omega, hstage₂, ?_⟩
        rw [seq_snd, List.filter_append, hcalls, hcalls₂]
        rfl
      · exact Or.inr ⟨hitLimit, hdone.later hcalls⟩
    · refine Or.inr ⟨hitLimit, ?_⟩
      rw [seq, advance_inactive ops cycles _ hdone.inactive]
      exact ⟨hdone.inactive, hdone.nodes, by rw [List.append_nil]; exact hdone.calls, hdone.limit⟩

theorem start_stage (startAddr maxNodes : BitVec 32) :
    Stage ops mem startAddr maxNodes (dmaGpuLlStart startAddr maxNodes) (1 + 256 * maxNodes.toNat) :=
  .header 0 ⟨rfl, rfl, rfl, rfl, Nat.zero_le _⟩ rfl rfl rfl fun _ hk => absurd hk (Nat.not_lt_zero _)

theorem Stage.pos {ll : LinkedList} {b : ℕ} (h : Stage ops mem startAddr maxNodes ll b) : 0 < b := by
  cases h <;> omega

theorem Stage.nodes_le {ll : LinkedList} {b : ℕ} (h : Stage ops mem startAddr maxNodes ll b) :
    ll.nodesProcessed.toNat ≤ maxNodes.toNat := by
  cases h with
  | header n h => exact h.nodes.trans_le h.le
  | payload n h => exact h.nodes.trans_le h.le

/-- Over every memory, and however the cycles are cut into calls: at no time has the transfer read
more headers than its limit or completed twice, and after `1 + 256 * maxNodes` cycles it has completed
once, with the limit reported exactly when that many headers were read and none ended the list. -/
theorem transfer_completes_once (hmem : ops.readWord = some mem) (startAddr maxNodes : BitVec 32)
    (env : ω) (cuts : List ℕ) :
    let r := runCuts (dmaGpuLlAdvance ops) cuts (dmaGpuLlStart startAddr maxNodes, env)
    r.1.1.nodesProcessed.toNat ≤ maxNodes.toNat ∧
      (r.1.1.active = true → r.2.filter Call.isComplete = []) ∧
      (r.1.1.active = false → ∃ hitLimit,
        r.2.filter Call.isComplete = (ops.complete.map fun _ => Call.complete hitLimit).toList ∧
          (hitLimit = true ↔ r.1.1.nodesProcessed = maxNodes ∧
            ∀ n < maxNodes.toNat, ¬Ends ops mem startAddr n)) ∧
      (1 + 256 * maxNodes.toNat ≤ cuts.sum → r.1.1.active = false) := by
  intro r
  have hr : r = dmaGpuLlAdvance ops cuts.sum (dmaGpuLlStart startAddr maxNodes, env) :=
    congrFun ((advance_flow ops).cuts cuts) _
  rcases stage_run hmem cuts.sum (s := (dmaGpuLlStart startAddr maxNodes, env))
    (start_stage startAddr maxNodes) with ⟨b, hb, hstage, hcalls⟩ | ⟨hitLimit, hdone⟩
  · rw [← hr] at hstage hcalls
    have hactive : r.1.1.active = true := by
      cases hstage with
      | header n h => exact h.active
      | payload n h => exact h.active
    have hpos := hstage.pos
    exact ⟨hstage.nodes_le, fun _ => hcalls, fun h => absurd (h.symm.trans hactive) (by decide),
      fun h => by omega⟩
  · rw [← hr] at hdone
    exact ⟨hdone.nodes, fun h => absurd (h.symm.trans hdone.inactive) (by decide),
      fun _ => ⟨hitLimit, hdone.calls, hdone.limit⟩, fun _ => hdone.inactive⟩

/-- Callbacks over a memory in which every header is an empty node that leads to itself. -/
def loopingOps : Ops ℕ where
  resolveAddress := none
  readWord := some fun address => address &&& 0x00FFFFFF
  observeHeader := none
  beginNode := none
  emitWord := none
  complete := some fun n _ => n + 1

theorem transfer_completes_once_looping :
    (runCuts (dmaGpuLlAdvance loopingOps) [5, 1020] (dmaGpuLlStart 0x40 4, 0)).1.1.active = false :=
  (@transfer_completes_once _ loopingOps _ rfl 0x40 4 0 [5, 1020]).2.2.2 (by decide)

end PsxRecomp.Dma
