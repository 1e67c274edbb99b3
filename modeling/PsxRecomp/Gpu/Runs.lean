import PsxRecomp.Gpu.Framing

/-! Runs of the GPU: streams of packets with resets among them, and the states that words, snapshots
and render passes can lead to. -/
namespace PsxRecomp.Gpu
set_option autoImplicit false

/-! ## Calls -/

inductive Call where
  | gp0 (w : Word)
  | gp1 (w : Word)
  | snapshotRead (bs : Wire.Bytes)
  | passSave
  | passRestore

/-- A snapshot that is refused changes nothing. -/
def Call.step (R : Raster) : Call → State → State × List Exec
  | .gp0 w, g => g.writeGp0 R w
  | .gp1 w, g => g.writeGp1 w
  | .snapshotRead bs, g => ((g.snapshotRead bs).getD g, [])
  | .passSave, g => (g.passSave, [])
  | .passRestore, g => (g.passRestore, [])

/-- What every call of a list makes the GPU do, up to the first that does not come back. -/
def answers (R : Raster) : List Call → State → List (List Exec)
  | [], _ => []
  | c :: cs, g =>
    let r := c.step R g
    r.2 :: if r.2.any Exec.isFault then [] else answers R cs r.1

/-- The states between calls that meet a condition, from power-on. -/
inductive Reach (R : Raster) (ok : Call → State → Prop) : State → Prop
  | init (pal : Bool) (g : State) (h : g.pass = none) : Reach R ok (State.init pal g)
  | step (c : Call) (g : State) (h : Reach R ok g) (hok : ok c g)
      (hback : (c.step R g).2.any Exec.isFault = false) : Reach R ok (c.step R g).1

/-! ## Streams -/

/-- Packets, and then part of one. -/
structure Stretch where
  whole : List Packet
  last : Packet
  cut : ℕ

namespace Stretch

def steps (t : Stretch) : List (Word × List Exec) :=
  t.whole.flatMap Packet.steps ++ t.last.steps.take t.cut

def WellFormed (t : Stretch) : Prop := (∀ p ∈ t.whole, p.WellFormed) ∧ t.last.WellFormed

def Implemented (t : Stretch) : Prop := (∀ p ∈ t.whole, p.Implemented) ∧ t.last.Implemented

def script (t : Stretch) : List (Call × List Exec) := t.steps.map fun s => (.gp0 s.1, s.2)

end Stretch

/-- `GP1(00h)` and `GP1(01h)` -/
def isReset (w : Word) : Prop := (w >>> (24 : ℕ)) &&& 0x3F = 0 ∨ (w >>> (24 : ℕ)) &&& 0x3F = 1

/-- Stretches with a reset before each but the first. -/
structure Stream where
  first : Stretch
  later : List (Word × Stretch)

namespace Stream

def script (s : Stream) : List (Call × List Exec) :=
  s.first.script ++ s.later.flatMap fun r => (.gp1 r.1, []) :: r.2.script

def WellFormed (s : Stream) : Prop :=
  s.first.WellFormed ∧ ∀ r ∈ s.later, isReset r.1 ∧ r.2.WellFormed

def Implemented (s : Stream) : Prop := s.first.Implemented ∧ ∀ r ∈ s.later, r.2.Implemented

def calls (s : Stream) : List Call := s.script.map Prod.fst

end Stream

variable {R : Raster}

/-! ## Answers -/

def Quiet (s : Word × List Exec) : Prop := s.2.any Exec.isFault = false

theorem atLast_quiet {es : List Exec} (h : es.any Exec.isFault = false) :
    ∀ words, ∀ s ∈ Packet.atLast es words, Quiet s
  | [], s, hs => absurd hs List.not_mem_nil
  | [w], s, hs => by
    obtain rfl := List.mem_singleton.1 hs
    exact h
  | w :: v :: words, s, hs => by
    rcases List.mem_cons.1 hs with rfl | hs
    · rfl
    · exact atLast_quiet h (v :: words) s hs

theorem dataSteps_quiet : ∀ words, ∀ s ∈ Packet.dataSteps words, Quiet s
  | [], s, hs => absurd hs List.not_mem_nil
  | [w], s, hs => by
    obtain rfl := List.mem_singleton.1 hs
    rfl
  | w :: v :: words, s, hs => by
    rcases List.mem_cons.1 hs with rfl | hs
    · rfl
    · exact dataSteps_quiet (v :: words) s hs

/-- No packet stops the machine. -/
theorem steps_quiet (p : Packet) : ∀ s ∈ p.steps, Quiet s := by
  cases p with
  | fixed head args => exact atLast_quiet rfl _
  | upload head place dims data =>
    exact List.forall_mem_append.2 ⟨atLast_quiet rfl _, dataSteps_quiet data⟩
  | mono head v0 v1 more stop =>
    refine List.forall_mem_cons.2 ⟨rfl, List.forall_mem_append.2 ⟨?_, by simp [Quiet]⟩⟩
    exact List.forall_mem_map.2 fun v _ => rfl
  | shaded head v0 c1 v1 more stop =>
    refine List.forall_mem_cons.2 ⟨rfl, List.forall_mem_cons.2 ⟨rfl,
      List.forall_mem_append.2 ⟨?_, by simp [Quiet]⟩⟩⟩
    intro s hs
    obtain ⟨u, -, hu⟩ := List.mem_flatMap.1 hs
    rcases List.mem_cons.1 hu with rfl | hu
    · rfl
    · obtain rfl := List.mem_singleton.1 hu
      rfl

theorem Stretch.steps_quiet (t : Stretch) : ∀ s ∈ t.steps, Quiet s := by
  refine List.forall_mem_append.2 ⟨fun s hs => ?_, fun s hs => ?_⟩
  · obtain ⟨p, -, hp⟩ := List.mem_flatMap.1 hs
    exact Gpu.steps_quiet p s hp
  · exact Gpu.steps_quiet t.last s (List.mem_of_mem_take hs)

/-- Words that are read one after another answer as they should, whatever follows. -/
theorem answers_reads {steps : List (Word × List Exec)} {g g' : State} (h : Reads R steps g g')
    (hq : ∀ s ∈ steps, Quiet s) (cs : List Call) :
    answers R (steps.map (fun s => Call.gp0 s.1) ++ cs) g =
      steps.map Prod.snd ++ answers R cs g' := by
  induction steps generalizing g with
  | nil =>
    obtain rfl := h
    rfl
  | cons s steps ih =>
    obtain ⟨hs, hrest⟩ := List.forall_mem_cons.1 hq
    have hstep : (Call.step R (.gp0 s.1) g).2 = s.2 := h.1
    have hback : s.2.any Exec.isFault = false := hs
    simp only [List.map_cons, List.cons_append, answers, hstep, hback]
    exact congrArg (s.2 :: ·) (ih h.2 hrest)

theorem reads_packets {ps : List Packet} {g : State} (hg : g.Idle) (hp : ∀ p ∈ ps, p.WellFormed)
    (himp : ∀ p ∈ ps, p.Implemented) : ∃ g', g'.Idle ∧ Reads R (ps.flatMap Packet.steps) g g' := by
  induction ps generalizing g with
  | nil => exact ⟨g, hg, rfl⟩
  | cons p ps ih =>
    obtain ⟨hp, hps⟩ := List.forall_mem_cons.1 hp
    obtain ⟨hi, his⟩ := List.forall_mem_cons.1 himp
    obtain ⟨g₁, hg₁, h₁⟩ := reads_packet (R := R) hg hp hi
    obtain ⟨g', hg', hr⟩ := ih hg₁ hps his
    exact ⟨g', hg', h₁.append hr⟩

theorem reads_stretch {t : Stretch} {g : State} (hg : g.Idle) (ht : t.WellFormed)
    (himp : t.Implemented) : ∃ g', Reads R t.steps g g' := by
  obtain ⟨g₁, hg₁, h₁⟩ := reads_packets (R := R) hg ht.1 himp.1
  obtain ⟨g₂, -, h₂⟩ := reads_packet (R := R) hg₁ ht.2 himp.2
  obtain ⟨g₃, h₃⟩ := h₂.take t.cut
  exact ⟨g₃, h₁.append h₃⟩

/-- After a reset the next word is the first of a packet. -/
theorem reset_idle {w : Word} (hw : isReset w) (g : State) :
    (g.writeGp1 w).2 = [] ∧ (g.writeGp1 w).1.Idle := by
  unfold State.writeGp1
  rcases hw with h | h
  · rw [if_pos h]
    exact ⟨rfl, rfl⟩
  · rw [if_neg (by rw [h]; decide), if_pos h]
    exact ⟨rfl, rfl⟩

theorem answers_later {later : List (Word × Stretch)} {g : State}
    (hl : ∀ r ∈ later, isReset r.1 ∧ r.2.WellFormed) (himp : ∀ r ∈ later, r.2.Implemented) :
    answers R ((later.flatMap fun r => (Call.gp1 r.1, []) :: r.2.script).map Prod.fst) g =
      (later.flatMap fun r => (Call.gp1 r.1, []) :: r.2.script).map Prod.snd := by
  induction later generalizing g with
  | nil => rfl
  | cons r later ih =>
    obtain ⟨⟨hreset, ht⟩, hrest⟩ := List.forall_mem_cons.1 hl
    obtain ⟨hi, his⟩ := List.forall_mem_cons.1 himp
    obtain ⟨hanswer, hidle⟩ := reset_idle hreset g
    obtain ⟨g', hr⟩ := reads_stretch (R := R) hidle ht hi
    have hstep : (Call.step R (.gp1 r.1) g).2 = [] := hanswer
    have hstretch := answers_reads hr r.2.steps_quiet
      ((later.flatMap fun r => (Call.gp1 r.1, []) :: r.2.script).map Prod.fst)
    rw [ih hrest his] at hstretch
    simp only [List.flatMap_cons, List.map_append, List.map_cons, List.cons_append, answers, hstep,
      Stretch.script, List.map_map]
    exact congrArg ([] :: ·) hstretch

theorem answers_stream {s : Stream} {g : State} (hg : g.Idle) (hs : s.WellFormed)
    (himp : s.Implemented) : answers R s.calls g = s.script.map Prod.snd := by
  obtain ⟨g', hr⟩ := reads_stretch (R := R) hg hs.1 himp.1
  have h := answers_reads hr s.first.steps_quiet
    ((s.later.flatMap fun r => (Call.gp1 r.1, []) :: r.2.script).map Prod.fst)
  rw [answers_later hs.2 himp.2] at h
  simp only [Stream.calls, Stream.script, List.map_append, Stretch.script, List.map_map]
  exact h

/-! ## Every list of words is a stretch -/

def Packet.words (p : Packet) : List Word := p.steps.map Prod.fst

def Stretch.words (t : Stretch) : List Word := t.steps.map Prod.fst

theorem atLast_words (es : List Exec) : ∀ words, (Packet.atLast es words).map Prod.fst = words
  | [] => rfl
  | [_] => rfl
  | w :: v :: words => congrArg (w :: ·) (atLast_words es (v :: words))

theorem dataSteps_words : ∀ words, (Packet.dataSteps words).map Prod.fst = words
  | [] => rfl
  | [_] => rfl
  | w :: v :: words => congrArg (w :: ·) (dataSteps_words (v :: words))

theorem vertexSteps_words (words : List Word) : (words.map Packet.vertexStep).map Prod.fst = words := by
  rw [List.map_map]
  exact List.map_id _

def terminator : Word := 0x55555555

/-- Some vertices and the word that ends them, at the front of any list with one behind it. -/
theorem exists_vertices (l : List Word) : ∃ more stop, (∀ v ∈ more, State.isTerminator v = false) ∧
    State.isTerminator stop = true ∧ more ++ [stop] <+: l ++ [terminator] := by
  induction l with
  | nil => exact ⟨[], terminator, by simp, by decide, List.prefix_refl _⟩
  | cons w l ih =>
    obtain ⟨more, stop, hmore, hstop, hpre⟩ := ih
    cases hw : State.isTerminator w with
    | true => exact ⟨[], w, by simp, hw, ⟨l ++ [terminator], rfl⟩⟩
    | false =>
      exact ⟨w :: more, stop, List.forall_mem_cons.2 ⟨hw, hmore⟩, hstop,
        (List.prefix_cons_inj w).2 hpre⟩

theorem exists_units (l : List Word) : ∃ (more : List (Word × Word)) (stop : Word),
    (∀ u ∈ more, State.isTerminator u.1 = false) ∧ State.isTerminator stop = true ∧
      (more.flatMap fun u => [u.1, u.2]) ++ [stop] <+: l ++ [terminator, terminator] := by
  induction l using List.twoStepInduction with
  | nil => exact ⟨[], terminator, by simp, by decide, ⟨[terminator], rfl⟩⟩
  | singleton w =>
    cases hw : State.isTerminator w with
    | true => exact ⟨[], w, by simp, hw, ⟨[terminator, terminator], rfl⟩⟩
    | false => exact ⟨[(w, terminator)], terminator, by simpa using hw, by decide, List.prefix_refl _⟩
  | cons_cons c v l ih _ =>
    obtain ⟨more, stop, hmore, hstop, hpre⟩ := ih
    cases hc : State.isTerminator c with
    | true => exact ⟨[], c, by simp, hc, ⟨v :: (l ++ [terminator, terminator]), rfl⟩⟩
    | false =>
      exact ⟨(c, v) :: more, stop, List.forall_mem_cons.2 ⟨hc, hmore⟩, hstop,
        (List.prefix_cons_inj c).2 ((List.prefix_cons_inj v).2 hpre)⟩

set_option maxRecDepth 2000 in
theorem polyline_of_count {op : ℕ} (hop : op < 256) (h : commandWordCount op < 0) :
    0x48 ≤ op ∧ op ≤ 0x4F ∨ 0x58 ≤ op ∧ op ≤ 0x5F := by
  have table : ∀ op < 256, commandWordCount op < 0 →
      0x48 ≤ op ∧ op ≤ 0x4F ∨ 0x58 ≤ op ∧ op ≤ 0x5F := by
    decide
  exact table op hop h

theorem uploadWords_le (dims : Word) : uploadWords dims ≤ 262144 := by
  have := pixels_le (pixelColumns_range dims).2 (pixelRows_range dims).2
  unfold uploadWords
  omega

theorem one_more (ws pad : List Word) : ∃ a l, ws ++ 0 :: pad = a :: (l ++ pad) := by
  cases ws with
  | nil => exact ⟨0, [], rfl⟩
  | cons a ws => exact ⟨a, ws ++ [0], by simp⟩

theorem mono_words (w v0 v1 : Word) (more : List Word) (stop : Word) :
    (Packet.mono w v0 v1 more stop).words = w :: v0 :: v1 :: (more ++ [stop]) := by
  simp only [Packet.words, Packet.steps, List.map_cons, List.map_append, vertexSteps_words,
    List.map_nil, List.cons_append]
  rfl

theorem shaded_words (w v0 c1 v1 : Word) (more : List (Word × Word)) (stop : Word) :
    (Packet.shaded w v0 c1 v1 more stop).words =
      w :: v0 :: c1 :: v1 :: ((more.flatMap fun u => [u.1, u.2]) ++ [stop]) := by
  simp only [Packet.words, Packet.steps, List.map_cons, List.map_append, List.flatMap_cons,
    List.map_flatMap, Packet.unitSteps, Packet.vertexStep, List.map_nil, List.cons_append,
    List.nil_append]

theorem fixed_words (w : Word) (args : List Word) : (Packet.fixed w args).words = w :: args :=
  atLast_words _ _

theorem upload_words (w place dims : Word) (data : List Word) :
    (Packet.upload w place dims data).words = w :: place :: dims :: data := by
  simp only [Packet.words, Packet.steps, List.map_append, atLast_words, dataSteps_words,
    List.cons_append, List.nil_append]

/-- With enough words behind it every accepted head starts a packet. -/
theorem exists_packet {w : Word} (hw : commandWordCount (opcodeOf w) ≠ 0) (ws : List Word) :
    ∃ (p : Packet) (pad : List Word), p.WellFormed ∧ p.head = w ∧ p.words <+: w :: (ws ++ pad) := by
  have hop := opcodeOf_lt w
  rcases lt_or_gt_of_ne hw with hneg | hpos
  · rcases polyline_of_count hop hneg with hmono | hshaded
    · obtain ⟨v0, l₀, h₀⟩ := one_more ws (0 :: [terminator])
      obtain ⟨v1, l, h₁⟩ := one_more l₀ [terminator]
      obtain ⟨more, stop, hmore, hstop, hpre⟩ := exists_vertices l
      refine ⟨.mono w v0 v1 more stop, 0 :: 0 :: [terminator], ⟨hmono, hmore, hstop⟩, rfl, ?_⟩
      rw [mono_words, h₀, h₁]
      exact (List.prefix_cons_inj w).2 ((List.prefix_cons_inj v0).2 ((List.prefix_cons_inj v1).2 hpre))
    · obtain ⟨v0, l₀, h₀⟩ := one_more ws (0 :: 0 :: [terminator, terminator])
      obtain ⟨c1, l₁, h₁⟩ := one_more l₀ (0 :: [terminator, terminator])
      obtain ⟨v1, l, h₂⟩ := one_more l₁ [terminator, terminator]
      obtain ⟨more, stop, hmore, hstop, hpre⟩ := exists_units l
      refine ⟨.shaded w v0 c1 v1 more stop, 0 :: 0 :: 0 :: [terminator, terminator],
        ⟨hshaded, hmore, hstop⟩, rfl, ?_⟩
      rw [shaded_words, h₀, h₁, h₂]
      exact (List.prefix_cons_inj w).2 ((List.prefix_cons_inj v0).2 ((List.prefix_cons_inj c1).2
        ((List.prefix_cons_inj v1).2 hpre)))
  · by_cases hup : 0xA0 ≤ opcodeOf w ∧ opcodeOf w ≤ 0xBF
    · obtain ⟨place, l₀, h₀⟩ := one_more ws (0 :: List.replicate 262144 0)
      obtain ⟨dims, l, h₁⟩ := one_more l₀ (List.replicate 262144 0)
      have hlen : ((l ++ List.replicate 262144 0).take (uploadWords dims)).length =
          uploadWords dims := by
        have := uploadWords_le dims
        rw [List.length_take, List.length_append, List.length_replicate]
        omega
      refine ⟨.upload w place dims ((l ++ List.replicate 262144 0).take (uploadWords dims)),
        0 :: 0 :: List.replicate 262144 0, ⟨hup, hlen⟩, rfl, ?_⟩
      rw [upload_words, h₀, h₁]
      exact (List.prefix_cons_inj w).2 ((List.prefix_cons_inj place).2
        ((List.prefix_cons_inj dims).2 (List.take_prefix _ _)))
    · have hle := commandWordCount_le hop
      obtain ⟨n, hn⟩ : ∃ n : ℕ, commandWordCount (opcodeOf w) = n + 1 :=
        ⟨(commandWordCount (opcodeOf w) - 1).toNat, by omega⟩
      have hlen : ((ws ++ List.replicate 12 0).take n).length = n := by
        rw [List.length_take, List.length_append, List.length_replicate]
        omega
      refine ⟨.fixed w ((ws ++ List.replicate 12 0).take n), List.replicate 12 0,
        ⟨hup, by rw [hlen, hn]⟩, rfl, ?_⟩
      rw [fixed_words]
      exact (List.prefix_cons_inj w).2 (List.take_prefix _ _)

def nothing : Packet := .fixed 0 []

theorem nothing_wellFormed : nothing.WellFormed := ⟨by decide, by decide⟩

/-- The command words that stop the machine: no length, or no handler. -/
def halt (w : Word) : Option Exec :=
  if commandWordCount (opcodeOf w) = 0 then some (.unknown w)
  else if opcodeOf w = 0x1F then some (.unimplemented w)
  else none

/-- Words split into packets up to a command word that stops the machine. -/
theorem exists_stretch (ws : List Word) : ∃ t : Stretch, t.WellFormed ∧ t.Implemented ∧
    (t.words = ws ∨ t.cut = 0 ∧ ∃ w rest e, halt w = some e ∧ ws = t.words ++ w :: rest) := by
  have hnothing : nothing.Implemented := (by decide : opcodeOf 0 ≠ 0x1F)
  induction hn : ws.length using Nat.strong_induction_on generalizing ws with
  | _ n ih =>
    cases ws with
    | nil => exact ⟨⟨[], nothing, 0⟩, ⟨by simp, nothing_wellFormed⟩, ⟨by simp, hnothing⟩, .inl rfl⟩
    | cons w ws =>
      cases hw : halt w with
      | some e =>
        exact ⟨⟨[], nothing, 0⟩, ⟨by simp, nothing_wellFormed⟩, ⟨by simp, hnothing⟩,
          .inr ⟨rfl, w, ws, e, hw, rfl⟩⟩
      | none =>
        obtain ⟨hcount, hop⟩ : commandWordCount (opcodeOf w) ≠ 0 ∧ opcodeOf w ≠ 0x1F := by
          unfold halt at hw
          split at hw
          · cases hw
          · rename_i hcount
            exact ⟨hcount, fun h => by simp [h] at hw⟩
        obtain ⟨p, pad, hp, hhead, hpre⟩ := exists_packet hcount ws
        have himp : p.Implemented := by rwa [Packet.Implemented, hhead]
        have hall : w :: ws <+: w :: (ws ++ pad) := ⟨pad, rfl⟩
        rcases List.prefix_or_prefix_of_prefix hpre hall with ⟨rest, hrest⟩ | hshort
        · have hpos : 0 < p.words.length := by
            cases p <;> simp [fixed_words, upload_words, mono_words, shaded_words]
          have hlt : rest.length < n := by
            rw [← hn, ← hrest, List.length_append]
            omega
          obtain ⟨t, ht, hi, hcase⟩ := ih rest.length hlt rest rfl
          have hwords : (Stretch.mk (p :: t.whole) t.last t.cut).words = p.words ++ t.words := by
            simp only [Stretch.words, Stretch.steps, List.flatMap_cons, List.append_assoc,
              List.map_append, Packet.words]
          refine ⟨⟨p :: t.whole, t.last, t.cut⟩, ⟨List.forall_mem_cons.2 ⟨hp, ht.1⟩, ht.2⟩,
            ⟨List.forall_mem_cons.2 ⟨himp, hi.1⟩, hi.2⟩, ?_⟩
          rcases hcase with rfl | ⟨hcut, v, tail, e, hv, htail⟩
          · exact .inl (hwords.trans hrest)
          · exact .inr ⟨hcut, v, tail, e, hv, by rw [hwords, List.append_assoc, ← htail, hrest]⟩
        · refine ⟨⟨[], p, (w :: ws).length⟩, ⟨by simp, hp⟩, ⟨by simp, himp⟩, .inl ?_⟩
          have := List.prefix_iff_eq_take.1 hshort
          simp only [Stretch.words, Stretch.steps, List.flatMap_nil, List.nil_append, List.map_take]
          exact this.symm

/-- At a command word that stops it the GPU says so. -/
theorem halts {w : Word} {e : Exec} {g : State} (hg : g.Idle) (h : halt w = some e) :
    e.isFault = true ∧ (g.writeGp0 R w).2 = [e] := by
  unfold halt at h
  split at h
  case isTrue hcount =>
    obtain rfl := Option.some.inj h
    refine ⟨rfl, ?_⟩
    rw [State.writeGp0, hg]
    simp only [State.begin, if_pos hcount]
  case isFalse =>
    rw [Option.ite_none_right_eq_some] at h
    obtain ⟨hop, h⟩ := h
    obtain rfl := Option.some.inj h
    refine ⟨rfl, ?_⟩
    have hcount : commandWordCount (opcodeOf w) = ([] : List Word).length + 1 := by
      rw [hop]
      rfl
    obtain ⟨g', hl, -, hread⟩ := reads_command (R := R) hg hcount
    have hhandler : handler (opcodeOf (g'.buf 0)) = .unimplemented := by
      rw [hl.head, hop]
      rfl
    have hexec : (g'.execute R).2 = [.unimplemented w] := by
      have hnone : g'.dispatch R = none := by
        unfold State.dispatch
        rw [hhandler]
      simp only [State.execute, hnone, hl.head]
    exact hread.1.trans hexec

/-- Every list of words is answered packet by packet, up to the command word that stops the machine. -/
theorem gp0_words_answered (R : Raster) (pal : Bool) (before : State) (ws : List Word) :
    ∃ t : Stretch, t.WellFormed ∧ t.Implemented ∧
      (t.words = ws ∧ answers R (ws.map .gp0) (State.init pal before) = t.steps.map Prod.snd ∨
        t.cut = 0 ∧ ∃ w rest e, halt w = some e ∧ ws = t.words ++ w :: rest ∧
          answers R (ws.map .gp0) (State.init pal before) = t.steps.map Prod.snd ++ [[e]]) := by
  obtain ⟨t, ht, hi, hcase⟩ := exists_stretch ws
  have hidle : (State.init pal before).Idle := rfl
  have hcalls : t.words.map Call.gp0 = t.steps.map fun s => Call.gp0 s.1 := by
    rw [Stretch.words, List.map_map]
    rfl
  refine ⟨t, ht, hi, ?_⟩
  rcases hcase with rfl | ⟨hcut, w, rest, e, hw, rfl⟩
  · obtain ⟨g', hread⟩ := reads_stretch (R := R) hidle ht hi
    have h := answers_reads hread t.steps_quiet []
    rw [List.append_nil, ← hcalls] at h
    exact .inl ⟨rfl, h.trans (List.append_nil _)⟩
  · refine .inr ⟨hcut, w, rest, e, hw, rfl, ?_⟩
    -- the packets before it are whole, so it comes where a command starts
    obtain ⟨g', hg', hread⟩ := reads_packets (R := R) hidle ht.1 hi.1
    have hsteps : t.steps = t.whole.flatMap Packet.steps := by
      rw [Stretch.steps, hcut, List.take_zero, List.append_nil]
    rw [← hsteps] at hread
    obtain ⟨hfault, hexec⟩ := halts (R := R) hg' hw
    have hstop : answers R (Call.gp0 w :: rest.map Call.gp0) g' = [[e]] := by
      have hstep : (Call.step R (.gp0 w) g').2 = [e] := hexec
      simp [answers, hstep, hfault]
    have h := answers_reads hread t.steps_quiet (Call.gp0 w :: rest.map Call.gp0)
    rw [hstop, ← hcalls] at h
    rw [List.map_append, List.map_cons]
    exact h

/-! ## The index into the command buffer -/

/-- The next word of a command has room. -/
def Parser.Bounded (p : Parser) : Prop :=
  p.state = .collecting → p.wordsCollected.toNat < 16 ∧ p.wordsNeeded.toInt ≤ 16

/-- Also in the registers that a render pass has put by. -/
structure Guarded (g : State) : Prop where
  parser : g.parser.Bounded
  pass : ∀ bs r, g.pass = some bs → Registers.parse.run bs = some r → r.1.parser.Bounded

/-- A snapshot taken in the middle of a command has room for the rest of it. -/
def Call.InBounds : Call → State → Prop
  | .snapshotRead bs, g =>
    bs.length = g.snapshotBytes → ∀ r, Registers.parse.run bs = some r → r.1.parser.Bounded
  | _, _ => True

theorem bounded_of_ne {p : Parser} (h : p.state ≠ .collecting) : p.Bounded := fun hc => absurd hc h

theorem dispatch_bounded {g g' : State} (h : g.dispatch R = some g') (hg : g.parser.Bounded) :
    g'.parser.Bounded := by
  by_cases hup : handler (opcodeOf (g.buf 0)) = .cpuToVram
  · rw [dispatch_upload hup, Option.some.injEq] at h
    subst h
    unfold State.execCpuToVram
    dsimp only
    split
    · exact bounded_of_ne Gp0State.noConfusion
    · exact hg
  · rw [dispatch_parsed h hup]
    exact hg

theorem dispatch_pass {g g' : State} (h : g.dispatch R = some g') : g'.pass = g.pass := by
  unfold State.dispatch at h
  split at h
  case h_13 => cases h
  all_goals
    cases h
    rfl

theorem execute_bounded {g : State} (hg : g.parser.Bounded) : (g.execute R).1.parser.Bounded := by
  unfold State.execute
  split
  case h_1 heq => exact dispatch_bounded heq hg
  case h_2 => exact hg

theorem execute_pass (g : State) : (g.execute R).1.pass = g.pass := by
  unfold State.execute
  split
  case h_1 heq => exact dispatch_pass heq
  case h_2 => rfl

theorem collect_bounded {g : State} (hg : g.parser.Bounded) (hs : g.parser.state = .collecting)
    (val : Word) : (g.collect R val).1.parser.Bounded := by
  obtain ⟨hlt, hneeded⟩ := hg hs
  simp only [State.collect, dif_pos hlt]
  split
  case isTrue h =>
    refine fun _ => ⟨?_, hneeded⟩
    have hsucc := succ_small hlt
    rw [BitVec.slt_eq_decide, BitVec.toInt_eq_toNat_of_lt (by omega)] at h
    have := of_decide_eq_true h
    show (g.parser.wordsCollected + 1).toNat < 16
    omega
  case isFalse => exact execute_bounded (bounded_of_ne Gp0State.noConfusion)

theorem collect_pass (g : State) (val : Word) : (g.collect R val).1.pass = g.pass := by
  unfold State.collect
  dsimp only
  split
  · split
    · rfl
    · exact execute_pass _
  · rfl

theorem begin_bounded {g : State} (hs : g.parser.state ≠ .collecting) (val : Word) :
    (g.begin R val).1.parser.Bounded := by
  unfold State.begin
  dsimp only
  split
  case isTrue => exact bounded_of_ne hs
  case isFalse hzero =>
    split
    case isTrue =>
      refine bounded_of_ne ?_
      show (if (opcodeOf val).testBit 4 then Gp0State.polylineShaded else .polylineMono) ≠ _
      split <;> exact Gp0State.noConfusion
    case isFalse hneg =>
      split
      case isTrue => exact execute_bounded (bounded_of_ne hs)
      case isFalse =>
        have hle := commandWordCount_le (opcodeOf_lt val)
        refine fun _ => ⟨?_, ?_⟩
        · show (1 : Word).toNat < 16
          decide
        · show (BitVec.ofInt 32 (commandWordCount (opcodeOf val))).toInt ≤ 16
          rw [BitVec.toInt_ofInt_eq_self (by decide) (by omega) (by omega)]
          omega

theorem begin_pass (g : State) (val : Word) : (g.begin R val).1.pass = g.pass := by
  unfold State.begin
  dsimp only
  split
  · rfl
  · split
    · rfl
    · split
      · exact execute_pass _
      · rfl

theorem uploadPixel_pass (pixel : Half) (g : State) : (g.uploadPixel pixel).1.pass = g.pass := by
  have h : (g.storePixel pixel).pass = g.pass := by
    unfold State.storePixel
    dsimp only
    split <;> rfl
  unfold State.uploadPixel
  dsimp only
  split <;> exact h

theorem writeData_frame (g : State) (val : Word) :
    ((g.writeData val).1.parser.state = g.parser.state ∨ (g.writeData val).1.Idle) ∧
      (g.writeData val).1.pass = g.pass := by
  unfold State.writeData
  dsimp only
  have h₁ := uploadPixel_pass (val.setWidth 16) g
  have f₁ := (uploadPixel_frame (val.setWidth 16) g).1
  revert h₁ f₁
  generalize g.uploadPixel (val.setWidth 16) = a
  intro h₁ f₁
  have h₂ := uploadPixel_pass ((val >>> (16 : ℕ)).setWidth 16) a.1
  have f₂ := (uploadPixel_frame ((val >>> (16 : ℕ)).setWidth 16) a.1).1
  revert h₂ f₂
  generalize a.1.uploadPixel ((val >>> (16 : ℕ)).setWidth 16) = b
  intro h₂ f₂
  split
  · exact ⟨.inr rfl, h₁⟩
  · split
    · exact ⟨.inr rfl, h₂.trans h₁⟩
    · split
      · exact ⟨.inr rfl, h₂.trans h₁⟩
      · exact ⟨.inl (congrArg Parser.state (f₂.trans f₁)), h₂.trans h₁⟩

theorem writeMono_frame (g : State) (val : Word) :
    ((g.writeMono R val).1.parser.state = g.parser.state ∨ (g.writeMono R val).1.Idle) ∧
      (g.writeMono R val).1.pass = g.pass := by
  unfold State.writeMono
  dsimp only
  split
  · exact ⟨.inr rfl, rfl⟩
  · exact ⟨.inl rfl, rfl⟩

theorem writeShaded_frame (g : State) (val : Word) :
    ((g.writeShaded R val).1.parser.state = g.parser.state ∨ (g.writeShaded R val).1.Idle) ∧
      (g.writeShaded R val).1.pass = g.pass := by
  unfold State.writeShaded
  dsimp only
  split
  · exact ⟨.inl rfl, rfl⟩
  · split
    · split
      · exact ⟨.inr rfl, rfl⟩
      · exact ⟨.inl rfl, rfl⟩
    · exact ⟨.inl rfl, rfl⟩

theorem bounded_of_state {g g' : State} (hs : g.parser.state ≠ .collecting)
    (h : g'.parser.state = g.parser.state ∨ g'.Idle) : g'.parser.Bounded := by
  refine bounded_of_ne ?_
  rcases h with h | h
  · rwa [h]
  · rw [show g'.parser.state = _ from h]
    exact Gp0State.noConfusion

theorem writeGp0_bounded {g : State} (hg : g.parser.Bounded) (val : Word) :
    (g.writeGp0 R val).1.parser.Bounded := by
  unfold State.writeGp0
  split
  case h_1 hs => exact bounded_of_state (hs ▸ Gp0State.noConfusion) (writeData_frame g val).1
  case h_2 hs => exact bounded_of_state (hs ▸ Gp0State.noConfusion) (writeMono_frame g val).1
  case h_3 hs => exact bounded_of_state (hs ▸ Gp0State.noConfusion) (writeShaded_frame g val).1
  case h_4 hs => exact collect_bounded hg hs val
  case h_5 hs => exact begin_bounded (hs ▸ Gp0State.noConfusion) val
  case h_6 hs => exact begin_bounded (hs ▸ Gp0State.noConfusion) val

theorem writeGp0_pass (g : State) (val : Word) : (g.writeGp0 R val).1.pass = g.pass := by
  unfold State.writeGp0
  split
  · exact (writeData_frame g val).2
  · exact (writeMono_frame g val).2
  · exact (writeShaded_frame g val).2
  · exact collect_pass g val
  · exact begin_pass g val
  · exact begin_pass g val

theorem writeGp1_frame (g : State) (val : Word) :
    ((g.writeGp1 val).1.parser = g.parser ∨ (g.writeGp1 val).1.Idle) ∧
      (g.writeGp1 val).1.pass = g.pass := by
  apply State.writeGp1_elim (P := fun g' => (g'.parser = g.parser ∨ g'.Idle) ∧ g'.pass = g.pass)
  · exact fun _ => ⟨.inr rfl, rfl⟩
  · exact fun _ => ⟨.inr rfl, rfl⟩
  · exact fun _ _ => ⟨.inl rfl, rfl⟩

theorem parse_snapshotWrite (g : State) :
    Registers.parse.run g.snapshotWrite = some (g.registers.settled, []) := by
  have h := Registers.parse_emit g.registers []
  rwa [List.append_nil] at h

theorem snapshotRead_eq {bs : Wire.Bytes} {g g' : State} (h : g.snapshotRead bs = some g') :
    bs.length = g.snapshotBytes ∧
      ∃ r, Registers.parse.run bs = some r ∧ g' = (g.setRegisters r.1).pushArea := by
  unfold State.snapshotRead at h
  split at h
  · cases h
  · rename_i hlen
    obtain ⟨r, hr, rfl⟩ := Option.map_eq_some_iff.1 h
    exact ⟨not_not.1 hlen, r, hr, rfl⟩

theorem passRestore_cases (g : State) :
    (g.pass = none ∧ g.passRestore = g) ∨
      ∃ bs, g.pass = some bs ∧ g.passRestore.pass = none ∧
        (g.passRestore.parser = g.parser ∨
          ∃ r, Registers.parse.run bs = some r ∧ g.passRestore.parser = r.1.parser) := by
  unfold State.passRestore
  split
  · rename_i h
    exact .inl ⟨h, rfl⟩
  · rename_i bs h
    refine .inr ⟨bs, h, rfl, ?_⟩
    cases hr : Registers.parse.run bs with
    | none => exact .inl rfl
    | some r => exact .inr ⟨r, rfl, rfl⟩

theorem Guarded.step {g : State} (hg : Guarded g) {c : Call} (hc : c.InBounds g) :
    Guarded (c.step R g).1 := by
  cases c with
  | gp0 w =>
    refine ⟨writeGp0_bounded hg.parser w, ?_⟩
    show ∀ bs r, (g.writeGp0 R w).1.pass = some bs → _
    rw [writeGp0_pass]
    exact hg.pass
  | gp1 w =>
    obtain ⟨hparser, hpass⟩ := writeGp1_frame g w
    refine ⟨?_, ?_⟩
    · rcases hparser with h | h
      · show (g.writeGp1 w).1.parser.Bounded
        rw [h]
        exact hg.parser
      · exact bounded_of_ne (by rw [show (Call.step R (.gp1 w) g).1.parser.state = _ from h]; decide)
    · show ∀ bs r, (g.writeGp1 w).1.pass = some bs → _
      rw [hpass]
      exact hg.pass
  | snapshotRead bs =>
    show Guarded ((g.snapshotRead bs).getD g)
    cases h : g.snapshotRead bs with
    | none => exact hg
    | some g' =>
      obtain ⟨hlen, r, hr, rfl⟩ := snapshotRead_eq h
      exact ⟨hc hlen r hr, hg.pass⟩
  | passSave =>
    show Guarded g.passSave
    unfold State.passSave
    split
    · exact hg
    · refine ⟨hg.parser, fun bs r hbs hr => ?_⟩
      obtain rfl := Option.some.inj hbs
      rw [parse_snapshotWrite, Option.some.injEq] at hr
      rw [← hr]
      exact hg.parser
  | passRestore =>
    show Guarded g.passRestore
    rcases passRestore_cases g with ⟨-, h⟩ | ⟨bs, hbs, hnone, hparser⟩
    · rw [h]
      exact hg
    · refine ⟨?_, fun bs r h => absurd (hnone.symm.trans h) (by simp)⟩
      rcases hparser with h | ⟨r, hr, h⟩
      · rw [h]
        exact hg.parser
      · rw [h]
        exact hg.pass bs r hbs hr

theorem reach_guarded {g : State} (h : Reach R Call.InBounds g) : Guarded g := by
  induction h with
  | init pal g h =>
    exact ⟨bounded_of_ne Gp0State.noConfusion, fun bs r hbs => absurd (h.symm.trans hbs) (by simp)⟩
  | step c g _ hok _ ih => exact ih.step hok

/-- Streams are read packet by packet, and no word is stored behind the command buffer. -/
theorem gp0_framing (R : Raster) :
    (∀ (g : State) (s : Stream), g.Idle → s.WellFormed → s.Implemented →
      answers R s.calls g = s.script.map Prod.snd) ∧
    ∀ g : State, Reach R Call.InBounds g → g.parser.state = .collecting →
      g.parser.wordsCollected.toNat < 16 :=
  ⟨fun _ _ hg hs himp => answers_stream hg hs himp,
    fun _ hg hs => ((reach_guarded hg).parser hs).1⟩

/-- A rasterizer that draws nothing. -/
def stillRaster : Raster where
  primitive d _ _ vram := (d.texpage, vram)
  brushAfter _ _ _ b := b
  fillRect _ vram := vram
  copyRect _ _ vram := vram
  line _ _ _ _ _ _ _ _ vram := vram
  shadedLine _ _ _ _ _ _ _ _ _ vram := vram

def powerOn : State := State.init false default

/-- A fill, an upload that a reset cuts short, and a polyline. -/
def mixedStream : Stream where
  first := ⟨[.fixed 0x02FFFFFF [0, 0x00100010]], .upload 0xA0000000 0 0x00020003 [1, 2, 3], 4⟩
  later := [(0x01000000, ⟨[.mono 0x48000000 0 0x00010001 [0x00020002] 0x55555555], nothing, 0⟩)]

theorem mixedStream_framed :
    answers stillRaster mixedStream.calls powerOn = mixedStream.script.map Prod.snd ∧
      (powerOn.writeGp0 stillRaster 0x02FFFFFF).1.parser.wordsCollected.toNat < 16 := by
  refine ⟨(gp0_framing stillRaster).1 powerOn mixedStream rfl ?_ ?_,
    (gp0_framing stillRaster).2 _ (.step (.gp0 0x02FFFFFF) powerOn (.init false default rfl) trivial ?_)
      ?_⟩
  · refine ⟨⟨?_, ?_⟩, ?_⟩
    · simp [mixedStream, Packet.WellFormed]
      decide
    · simp only [mixedStream, Packet.WellFormed]
      decide
    · simp [mixedStream, Stretch.WellFormed, Packet.WellFormed, nothing, isReset]
      decide
  · refine ⟨⟨?_, ?_⟩, ?_⟩
    · simp [mixedStream, Packet.Implemented]
      decide
    · simp only [mixedStream, Packet.Implemented]
      decide
    · simp [mixedStream, Stretch.Implemented, Packet.Implemented, nothing]
      decide
  · rfl
  · rfl

/-- The registers of a savestate whose next word belongs behind the command buffer. -/
def overrun : Registers :=
  { powerOn.registers with parser := ⟨.collecting, fun _ => 0, 16, 20, 0xFFFFFFFF, 0xFFFFFFFF⟩ }

theorem gp0_framing_fails :
    (∃ s : Stream, s.WellFormed ∧ s.calls = [.gp0 0x1F000000] ∧
      answers stillRaster s.calls powerOn = [[.unimplemented 0x1F000000]]) ∧
    answers stillRaster [.snapshotRead overrun.emit, .gp0 0] powerOn = [[], [.outside]] := by
  refine ⟨⟨⟨⟨[.fixed 0x1F000000 []], nothing, 0⟩, []⟩, ⟨⟨?_, nothing_wellFormed⟩, by simp⟩, rfl, ?_⟩, ?_⟩
  · simp [Packet.WellFormed]
    decide
  · rfl
  · have hparse := Registers.parse_emit overrun []
    rw [List.append_nil] at hparse
    have hread : powerOn.snapshotRead overrun.emit =
        some (powerOn.setRegisters overrun.settled).pushArea := by
      rw [State.snapshotRead, State.snapshotBytes, State.snapshotWrite, Registers.emit_length,
        Registers.emit_length, if_neg (by simp), hparse]
      rfl
    simp only [answers, Call.step, hread]
    rfl

end PsxRecomp.Gpu
