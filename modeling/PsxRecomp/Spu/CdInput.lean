import PsxRecomp.Library.RingWindow
import PsxRecomp.Library.Wire

/-! The queue of decoded disc audio at the input bus of the sound processor. -/
namespace PsxRecomp.Spu
open RingWindow Wire
set_option autoImplicit false

/-! ## The ring -/

/-- Left and right sample. -/
abbrev Frame := BitVec 16 × BitVec 16

@[irreducible] def spuCdRingFrames : ℕ := 44100 * 8

theorem ring_pos : 0 < spuCdRingFrames := by
  unfold spuCdRingFrames
  norm_num

structure CdInput where
  ring : ℕ → Frame
  readPos : ℕ
  writePos : ℕ
  frameCount : ℕ
  pushFrames : ℕ
  overflowFrames : ℕ

/-- `spu_cd_audio_reset` -/
def spuCdAudioReset : CdInput := ⟨fun _ => (0, 0), 0, 0, 0, 0, 0⟩

/-- The oldest queued frames are given up for `inFrames` new ones. -/
def makeRoom (c : CdInput) (inFrames : ℕ) : CdInput :=
  if c.frameCount + inFrames > spuCdRingFrames then
    let drop := c.frameCount + inFrames - spuCdRingFrames
    { c with
      readPos := (c.readPos + drop) % spuCdRingFrames
      frameCount := c.frameCount - drop
      overflowFrames := c.overflowFrames + drop }
  else c

/-- The loop of `spu_cd_audio_push` and its counters. -/
def storeFrames (c : CdInput) (stereo : List Frame) : CdInput :=
  let written := writeAll spuCdRingFrames c.ring c.writePos stereo
  { c with
    ring := written.1
    writePos := written.2
    frameCount := c.frameCount + stereo.length
    pushFrames := c.pushFrames + stereo.length }

/-- `spu_cd_audio_push`; no frames is what a null pointer and a count of zero or less give. -/
def spuCdAudioPush (c : CdInput) (stereo : List Frame) : CdInput :=
  if stereo.isEmpty then c
  else if stereo.length > spuCdRingFrames then
    let skip := stereo.length - spuCdRingFrames
    let c := { c with overflowFrames := c.overflowFrames + skip }
    storeFrames (makeRoom c spuCdRingFrames) (stereo.drop skip)
  else storeFrames (makeRoom c stereo.length) stereo

/-- `cd_audio_pop` -/
def cdAudioPop (c : CdInput) : Option Frame × CdInput :=
  if c.frameCount = 0 then (none, c)
  else (some (c.ring c.readPos),
    { c with readPos := (c.readPos + 1) % spuCdRingFrames, frameCount := c.frameCount - 1 })

/-! ## Snapshots -/

def frame : Wire.Field Frame where
  emit f := u16.emit f.1 ++ u16.emit f.2
  parse := do
    let l ← u16.parse
    let r ← u16.parse
    pure (l, r)
  Fits _ := True
  parse_emit f rest _ := by
    rw [List.append_assoc, u16.bind trivial, u16.bind trivial]
    rfl

/-- `spu_cd_snapshot_write` -/
def spuCdSnapshotWrite (c : CdInput) : Bytes :=
  u32.emit (BitVec.ofNat 32 c.frameCount) ++
    ((frame.array c.frameCount).emit (window c.ring spuCdRingFrames c.readPos c.frameCount))

/-- `spu_cd_snapshot_read` -/
def spuCdSnapshotRead (p : Bytes) (c : CdInput) : Option CdInput :=
  match u32.parse.run p with
  | none => none
  | some (n, rest) =>
    if n.toNat > spuCdRingFrames ∨ p.length ≠ 4 + n.toNat * 4 then none
    else match (frame.array n.toNat).parse.run rest with
      | none => none
      | some (frames, _) => some { c with
          ring := (writeAll spuCdRingFrames c.ring 0 frames).1
          readPos := 0
          writePos := n.toNat % spuCdRingFrames
          frameCount := n.toNat }

/-! ## The queue it holds -/

def CdInput.contents (c : CdInput) : List Frame := window c.ring spuCdRingFrames c.readPos c.frameCount

structure CdInput.Circular (c : CdInput) : Prop where
  fits : c.frameCount ≤ spuCdRingFrames
  read : c.readPos < spuCdRingFrames
  write : c.writePos = (c.readPos + c.frameCount) % spuCdRingFrames

theorem reset_circular : spuCdAudioReset.Circular :=
  ⟨Nat.zero_le _, ring_pos, (Nat.zero_mod _).symm⟩

theorem contents_length (c : CdInput) : c.contents.length = c.frameCount := window_length _ _ _ _

/-- Room is made at the front of the queue, and counted. -/
theorem makeRoom_spec {c : CdInput} (h : c.Circular) {inFrames : ℕ} (hin : inFrames ≤ spuCdRingFrames) :
    (makeRoom c inFrames).Circular ∧
      (makeRoom c inFrames).contents =
        c.contents.drop (c.frameCount + inFrames - spuCdRingFrames) ∧
      (makeRoom c inFrames).overflowFrames =
        c.overflowFrames + (c.frameCount + inFrames - spuCdRingFrames) ∧
      (makeRoom c inFrames).frameCount + inFrames ≤ spuCdRingFrames := by
  have hfits := h.fits
  unfold makeRoom
  split
  · refine ⟨⟨?_, Nat.mod_lt _ ring_pos, ?_⟩, ?_, rfl, ?_⟩
    · dsimp only
      omega
    · dsimp only
      rw [h.write, Nat.mod_add_mod]
      congr 1
      omega
    · unfold CdInput.contents
      dsimp only
      rw [window_mod, window_drop]
    · dsimp only
      omega
  · rename_i hroom
    have hnone : c.frameCount + inFrames - spuCdRingFrames = 0 := by omega
    rw [hnone]
    exact ⟨h, rfl, rfl, by omega⟩

theorem storeFrames_spec {c : CdInput} (h : c.Circular) {stereo : List Frame}
    (hroom : c.frameCount + stereo.length ≤ spuCdRingFrames) :
    (storeFrames c stereo).Circular ∧ (storeFrames c stereo).contents = c.contents ++ stereo ∧
      (storeFrames c stereo).overflowFrames = c.overflowFrames := by
  obtain ⟨hwindow, hend⟩ := writeAll_window c.ring c.readPos hroom h.write
  have hcount : (storeFrames c stereo).frameCount = c.frameCount + stereo.length := rfl
  have hread : (storeFrames c stereo).readPos = c.readPos := rfl
  have hring : (storeFrames c stereo).ring =
      (writeAll spuCdRingFrames c.ring c.writePos stereo).1 := rfl
  have hwrite : (storeFrames c stereo).writePos =
      (writeAll spuCdRingFrames c.ring c.writePos stereo).2 := rfl
  refine ⟨⟨?_, ?_, ?_⟩, ?_, rfl⟩
  · rw [hcount]
    exact hroom
  · rw [hread]
    exact h.read
  · rw [hwrite, hend, hcount, hread, Nat.add_assoc]
  · unfold CdInput.contents
    rw [hring, hread, hcount]
    exact hwindow

/-- How many of the oldest frames a push makes the queue give up. -/
def surplus (c : CdInput) (stereo : List Frame) : ℕ :=
  c.frameCount + stereo.length - spuCdRingFrames

/-- Room for a whole ring empties the queue. -/
theorem makeRoom_all {c : CdInput} (h : c.Circular) :
    (makeRoom c spuCdRingFrames).Circular ∧ (makeRoom c spuCdRingFrames).contents = [] ∧
      (makeRoom c spuCdRingFrames).overflowFrames = c.overflowFrames + c.frameCount ∧
      (makeRoom c spuCdRingFrames).frameCount + spuCdRingFrames ≤ spuCdRingFrames := by
  obtain ⟨hroomy, hcontents, hcount, hroom⟩ := makeRoom_spec h (le_refl spuCdRingFrames)
  rw [Nat.add_sub_cancel] at hcontents hcount
  refine ⟨hroomy, ?_, hcount, hroom⟩
  rw [hcontents]
  exact List.drop_eq_nil_of_le (contents_length c).le

/-- A push larger than the ring: the whole queue goes, and the front of the push. -/
theorem push_large {c : CdInput} (h : c.Circular) {stereo : List Frame}
    (hlarge : stereo.length > spuCdRingFrames) :
    (spuCdAudioPush c stereo).Circular ∧
      (spuCdAudioPush c stereo).contents = stereo.drop (stereo.length - spuCdRingFrames) ∧
      (spuCdAudioPush c stereo).overflowFrames =
        c.overflowFrames + (stereo.length - spuCdRingFrames) + c.frameCount := by
  have hsome : stereo.isEmpty = false := by
    cases stereo with
    | nil => exact absurd hlarge (Nat.not_lt_zero _)
    | cons => rfl
  have hskipped : (stereo.drop (stereo.length - spuCdRingFrames)).length = spuCdRingFrames := by
    rw [List.length_drop]
    omega
  have hpush : spuCdAudioPush c stereo = storeFrames (makeRoom { c with
      overflowFrames := c.overflowFrames + (stereo.length - spuCdRingFrames) } spuCdRingFrames)
      (stereo.drop (stereo.length - spuCdRingFrames)) := by
    unfold spuCdAudioPush
    rw [hsome, if_neg (by decide), if_pos hlarge]
  have hcounted : CdInput.Circular { c with
      overflowFrames := c.overflowFrames + (stereo.length - spuCdRingFrames) } :=
    ⟨h.fits, h.read, h.write⟩
  obtain ⟨hroomy, hcontents, hcount, hroom⟩ := makeRoom_all hcounted
  obtain ⟨hdone, hstored, hkept⟩ := storeFrames_spec hroomy (by rw [hskipped]; exact hroom)
  rw [hpush]
  refine ⟨hdone, ?_, hkept.trans hcount⟩
  rw [hstored, hcontents, List.nil_append]

/-- A push appends, and what no longer fits goes at the front. -/
theorem push_spec {c : CdInput} (h : c.Circular) (stereo : List Frame) :
    (spuCdAudioPush c stereo).Circular ∧
      (spuCdAudioPush c stereo).contents = (c.contents ++ stereo).drop (surplus c stereo) ∧
      (spuCdAudioPush c stereo).overflowFrames = c.overflowFrames + surplus c stereo := by
  have hfits := h.fits
  have hlength := contents_length c
  unfold surplus
  rcases Nat.lt_or_ge spuCdRingFrames stereo.length with hlarge | hsmall
  · obtain ⟨hdone, hcontents, hcount⟩ := push_large h hlarge
    refine ⟨hdone, ?_, ?_⟩
    · have hqueue : c.contents.drop (c.frameCount + stereo.length - spuCdRingFrames) = [] :=
        List.drop_eq_nil_of_le (by rw [hlength]; omega)
      rw [hcontents, List.drop_append, hlength, hqueue, List.nil_append]
      congr 1
      omega
    · rw [hcount]
      omega
  · cases stereo with
    | nil =>
      have hnone : c.frameCount + ([] : List Frame).length - spuCdRingFrames = 0 := by
        rw [List.length_nil]
        omega
      rw [hnone, List.append_nil]
      exact ⟨h, rfl, rfl⟩
    | cons f stereo =>
      obtain ⟨hroomy, hcontents, hcount, hroom⟩ := makeRoom_spec h hsmall
      obtain ⟨hdone, hstored, hkept⟩ := storeFrames_spec hroomy hroom
      have hpush : spuCdAudioPush c (f :: stereo) =
          storeFrames (makeRoom c (f :: stereo).length) (f :: stereo) := by
        unfold spuCdAudioPush
        rw [if_neg (by simp), if_neg (Nat.not_lt.2 hsmall)]
      rw [hpush]
      refine ⟨hdone, ?_, hkept.trans hcount⟩
      rw [hstored, hcontents, List.drop_append_of_le_length]
      rw [hlength]
      omega

/-- A pop takes the front of the queue. -/
theorem pop_spec {c : CdInput} (h : c.Circular) :
    (cdAudioPop c).2.Circular ∧ (cdAudioPop c).1 = c.contents.head? ∧
      (cdAudioPop c).2.contents = c.contents.tail ∧
      (cdAudioPop c).2.overflowFrames = c.overflowFrames := by
  unfold cdAudioPop CdInput.contents
  cases hcount : c.frameCount with
  | zero => exact ⟨h, rfl, by simp [hcount], rfl⟩
  | succ n =>
    have hfits := h.fits
    rw [if_neg (Nat.succ_ne_zero n), window_cons, Nat.mod_eq_of_lt h.read]
    refine ⟨⟨?_, Nat.mod_lt _ ring_pos, ?_⟩, rfl, window_mod _ _ _ _, rfl⟩
    · dsimp only
      omega
    · dsimp only
      rw [h.write, hcount, Nat.mod_add_mod]
      congr 1
      omega

/-! ## A snapshot brings the queue back -/

theorem frame_length (l : List Frame) (n : ℕ) : ((frame.array n).emit l).length = l.length * 4 := by
  induction l with
  | nil => rfl
  | cons f l ih =>
    have hcons : (frame.array n).emit (f :: l) =
        (u16.emit f.1 ++ u16.emit f.2) ++ (frame.array n).emit l := rfl
    rw [hcons, List.length_append, List.length_append, word_length, word_length, ih,
      List.length_cons]
    omega

theorem snapshot_spec {c : CdInput} (h : c.Circular) (later : CdInput) :
    ∃ r, spuCdSnapshotRead (spuCdSnapshotWrite c) later = some r ∧ r.Circular ∧
      r.contents = c.contents ∧ r.overflowFrames = later.overflowFrames := by
  have hfits := h.fits
  have hmax : spuCdRingFrames < 2 ^ 32 := by
    unfold spuCdRingFrames
    norm_num
  have hn : (BitVec.ofNat 32 c.frameCount).toNat = c.frameCount := by
    rw [BitVec.toNat_ofNat]
    exact Nat.mod_eq_of_lt (by omega)
  have hlength : (spuCdSnapshotWrite c).length = 4 + c.frameCount * 4 := by
    unfold spuCdSnapshotWrite
    rw [List.length_append, word_length, frame_length, window_length]
  have hcount : u32.parse.run (spuCdSnapshotWrite c) = some (BitVec.ofNat 32 c.frameCount,
      (frame.array c.frameCount).emit (window c.ring spuCdRingFrames c.readPos c.frameCount)) :=
    u32.parse_emit _ _ trivial
  have hframes := (frame.array c.frameCount).parse_emit
    (window c.ring spuCdRingFrames c.readPos c.frameCount) []
    ⟨window_length _ _ _ _, fun _ _ => trivial⟩
  rw [List.append_nil] at hframes
  obtain ⟨hwindow, -⟩ := @writeAll_window Frame spuCdRingFrames later.ring 0 0 0
    (window c.ring spuCdRingFrames c.readPos c.frameCount)
    (by rw [window_length]; omega) (Nat.zero_mod _).symm
  rw [window_length, Nat.zero_add, window_zero, List.nil_append] at hwindow
  unfold spuCdSnapshotRead
  rw [hcount]
  dsimp only
  rw [hn, if_neg (by omega), hframes]
  refine ⟨_, rfl, ⟨hfits, ring_pos, ?_⟩, hwindow, rfl⟩
  dsimp only
  rw [Nat.zero_add]

/-! ## Runs -/

inductive QueueOp
  | push (stereo : List Frame)
  | pop

/-- What a run of pushes and pops brings out, pop by pop. -/
def popsOf (c : CdInput) : List QueueOp → List (Option Frame)
  | [] => []
  | .push stereo :: ops => popsOf (spuCdAudioPush c stereo) ops
  | .pop :: ops => (cdAudioPop c).1 :: popsOf (cdAudioPop c).2 ops

/-- What is popped later depends on the frames queued, not on where they stand in the ring. -/
theorem popsOf_congr {c c' : CdInput} (h : c.Circular) (h' : c'.Circular)
    (hsame : c.contents = c'.contents) (ops : List QueueOp) : popsOf c ops = popsOf c' ops := by
  induction ops generalizing c c' with
  | nil => rfl
  | cons op ops ih =>
    have hcount : c.frameCount = c'.frameCount := by
      rw [← contents_length c, hsame, contents_length]
    cases op with
    | push stereo =>
      obtain ⟨hdone, hcontents, -⟩ := push_spec h stereo
      obtain ⟨hdone', hcontents', -⟩ := push_spec h' stereo
      have hsurplus : surplus c stereo = surplus c' stereo := by
        unfold surplus
        rw [hcount]
      exact ih hdone hdone' (by rw [hcontents, hcontents', hsame, hsurplus])
    | pop =>
      obtain ⟨hdone, hfront, hrest, -⟩ := pop_spec h
      obtain ⟨hdone', hfront', hrest', -⟩ := pop_spec h'
      unfold popsOf
      rw [hfront, hfront', hsame, ih hdone hdone' (by rw [hrest, hrest', hsame])]

/-- What has happened on the way to a queue: the frames pushed and popped, and what
`cd_overflow_frames` has counted. -/
structure History where
  pushed : List Frame
  popped : List Frame
  counted : ℕ

/-- The queue in use, its history, the snapshots taken with theirs, and all that was ever popped. -/
structure Session where
  cd : CdInput
  history : History
  saved : List (Bytes × History)
  out : List Frame

inductive CdOp
  | push (stereo : List Frame)
  | pop
  | save
  | restore (k : ℕ)

/-- A restore goes back to the history of its snapshot. -/
def CdOp.apply (s : Session) : CdOp → Session
  | .push stereo =>
    let cd := spuCdAudioPush s.cd stereo
    { s with
      cd := cd
      history := { s.history with
        pushed := s.history.pushed ++ stereo
        counted := s.history.counted + (cd.overflowFrames - s.cd.overflowFrames) } }
  | .pop =>
    { s with
      cd := (cdAudioPop s.cd).2
      history := { s.history with popped := s.history.popped ++ (cdAudioPop s.cd).1.toList }
      out := s.out ++ (cdAudioPop s.cd).1.toList }
  | .save => { s with saved := s.saved ++ [(spuCdSnapshotWrite s.cd, s.history)] }
  | .restore k =>
    match s.saved[k]? with
    | none => s
    | some (p, history) =>
      match spuCdSnapshotRead p s.cd with
      | none => s
      | some cd => { s with cd := cd, history := history }

def cdSession (ops : List CdOp) : Session :=
  ops.foldl CdOp.apply ⟨spuCdAudioReset, ⟨[], [], 0⟩, [], []⟩

/-- The queue is the end of what was pushed; of what went before it the pops are a part in order,
and the counter has the rest. -/
structure Accounted (c : CdInput) (h : History) : Prop where
  queue : ∃ consumed, h.pushed = consumed ++ c.contents ∧ h.popped.Sublist consumed ∧
    consumed.length = h.popped.length + h.counted

structure Session.Sound (s : Session) : Prop where
  circular : s.cd.Circular
  accounted : Accounted s.cd s.history
  saved : ∀ e ∈ s.saved, ∃ c : CdInput, c.Circular ∧ e.1 = spuCdSnapshotWrite c ∧ Accounted c e.2

theorem Accounted.push {c : CdInput} {h : History} (ha : Accounted c h) (hc : c.Circular)
    (stereo : List Frame) :
    Accounted (spuCdAudioPush c stereo) { h with
      pushed := h.pushed ++ stereo
      counted := h.counted + ((spuCdAudioPush c stereo).overflowFrames - c.overflowFrames) } := by
  obtain ⟨consumed, hpushed, hpopped, hlength⟩ := ha.queue
  obtain ⟨-, hcontents, hcount⟩ := push_spec hc stereo
  refine ⟨consumed ++ (c.contents ++ stereo).take (surplus c stereo), ?_,
    hpopped.trans (List.sublist_append_left _ _), ?_⟩
  · dsimp only
    rw [hcontents, hpushed, List.append_assoc, List.append_assoc, List.take_append_drop]
  · have hlen := contents_length c
    have htake : ((c.contents ++ stereo).take (surplus c stereo)).length = surplus c stereo := by
      rw [List.length_take, List.length_append, hlen]
      unfold surplus
      omega
    dsimp only
    rw [List.length_append, htake, hlength, hcount]
    omega

theorem Accounted.pop {c : CdInput} {h : History} (ha : Accounted c h) (hc : c.Circular) :
    Accounted (cdAudioPop c).2 { h with popped := h.popped ++ (cdAudioPop c).1.toList } := by
  obtain ⟨consumed, hpushed, hpopped, hlength⟩ := ha.queue
  obtain ⟨-, hfront, hrest, -⟩ := pop_spec hc
  rw [hfront]
  cases hcontents : c.contents with
  | nil =>
    refine ⟨consumed, ?_, ?_, ?_⟩
    · rw [hrest, hcontents]
      rw [hcontents] at hpushed
      exact hpushed
    · simpa using hpopped
    · simpa using hlength
  | cons f rest =>
    refine ⟨consumed ++ [f], ?_, ?_, ?_⟩
    · rw [hrest, hcontents]
      rw [hcontents] at hpushed
      simpa using hpushed
    · exact hpopped.append (List.Sublist.refl [f])
    · simp only [List.length_append, List.head?_cons, Option.toList_some, List.length_singleton]
      omega

theorem Session.Sound.apply {s : Session} (h : s.Sound) (op : CdOp) : (op.apply s).Sound := by
  cases op with
  | push stereo =>
    exact ⟨(push_spec h.circular stereo).1, h.accounted.push h.circular stereo, h.saved⟩
  | pop => exact ⟨(pop_spec h.circular).1, h.accounted.pop h.circular, h.saved⟩
  | save =>
    refine ⟨h.circular, h.accounted, fun e he => ?_⟩
    rcases List.mem_append.1 he with hold | hnew
    · exact h.saved e hold
    · rw [List.mem_singleton.1 hnew]
      exact ⟨s.cd, h.circular, rfl, h.accounted⟩
  | restore k =>
    unfold CdOp.apply
    dsimp only
    split
    · exact h
    · rename_i p history hentry
      obtain ⟨c, hcircular, hwritten, haccounted⟩ := h.saved _ (List.mem_of_getElem? hentry)
      obtain ⟨r, hread, hr, hcontents, -⟩ := snapshot_spec hcircular s.cd
      change p = _ at hwritten
      rw [hwritten, hread]
      refine ⟨hr, ⟨?_⟩, h.saved⟩
      rw [hcontents]
      exact haccounted.queue

theorem cdSession_snoc (ops : List CdOp) (op : CdOp) :
    cdSession (ops ++ [op]) = op.apply (cdSession ops) := by
  unfold cdSession
  rw [List.foldl_append]
  rfl

theorem cdSession_sound (ops : List CdOp) : (cdSession ops).Sound := by
  induction ops using List.reverseRecOn with
  | nil =>
    exact ⟨reset_circular, ⟨[], rfl, List.Sublist.refl _, rfl⟩, fun e he => absurd he List.not_mem_nil⟩
  | append_singleton ops op ih =>
    rw [cdSession_snoc]
    exact ih.apply op

/-- On a way that never goes back the counter has counted everything that is missing. -/
theorem counted_eq {ops : List CdOp} (h : ∀ k, CdOp.restore k ∉ ops) :
    (cdSession ops).history.counted = (cdSession ops).cd.overflowFrames ∧
      (cdSession ops).out = (cdSession ops).history.popped := by
  induction ops using List.reverseRecOn with
  | nil => exact ⟨rfl, rfl⟩
  | append_singleton ops op ih =>
    have hbefore : ∀ k, CdOp.restore k ∉ ops := fun k hk => h k (List.mem_append_left _ hk)
    obtain ⟨hcounted, hout⟩ := ih hbefore
    have hsound := cdSession_sound ops
    rw [cdSession_snoc]
    cases op with
    | push stereo =>
      obtain ⟨-, -, hcount⟩ := push_spec hsound.circular stereo
      refine ⟨?_, hout⟩
      unfold CdOp.apply
      dsimp only
      omega
    | pop =>
      obtain ⟨-, -, -, hcount⟩ := pop_spec hsound.circular
      refine ⟨hcounted.trans hcount.symm, ?_⟩
      unfold CdOp.apply
      dsimp only
      rw [hout]
    | save => exact ⟨hcounted, hout⟩
    | restore k => exact absurd (List.mem_append_right _ (List.mem_singleton.2 rfl)) (h k)

/-- The queue at any time of a run: in its bounds, first in first out up to the frames counted, and
brought back by its snapshot at any later time. -/
theorem cd_queue_fifo (ops : List CdOp) :
    let s := cdSession ops
    s.cd.frameCount ≤ spuCdRingFrames ∧
      s.cd.writePos = (s.cd.readPos + s.cd.frameCount) % spuCdRingFrames ∧
      Accounted s.cd s.history ∧
      ((∀ k, CdOp.restore k ∉ ops) →
        s.history.counted = s.cd.overflowFrames ∧ s.out = s.history.popped) ∧
      ∀ later, ∃ r, spuCdSnapshotRead (spuCdSnapshotWrite s.cd) later = some r ∧
        r.overflowFrames = later.overflowFrames ∧ ∀ next, popsOf r next = popsOf s.cd next := by
  intro s
  have hsound : s.Sound := cdSession_sound ops
  refine ⟨hsound.circular.fits, hsound.circular.write, hsound.accounted, counted_eq, fun later => ?_⟩
  obtain ⟨r, hread, hr, hcontents, hkept⟩ := snapshot_spec hsound.circular later
  exact ⟨r, hread, hkept, popsOf_congr hr hsound.circular hcontents⟩

/-- A frame popped after a snapshot is popped again once the snapshot is restored. -/
theorem restored_frame_popped_twice :
    ¬ ∀ ops : List CdOp, (cdSession ops).out.Sublist
      (ops.flatMap fun op => match op with | .push stereo => stereo | _ => []) := by
  intro h
  have hout : (cdSession [.push [(1, 2)], .save, .pop, .restore 0, .pop]).out = [(1, 2), (1, 2)] := by
    decide +kernel
  have hsub := h [.push [(1, 2)], .save, .pop, .restore 0, .pop]
  rw [hout] at hsub
  exact absurd hsub.length_le (by decide)

end PsxRecomp.Spu
