import PsxRecomp.Rewind.History

/-! The list of the rewind history over every sequence of calls. -/
namespace PsxRecomp.Rewind
set_option autoImplicit false

variable {Px : Type}

/-! ## What is kept -/

/-- The list as the filmstrip relies on it. -/
structure ListSound (s : RewindState Px) : Prop where
  increasing : s.snaps.Pairwise fun a b => a.tick < b.tick
  thumbs : ∀ e ∈ s.snaps, e.thumbTick = e.tick
  selection : 0 ≤ s.sel ∧ s.sel ≤ max 0 ((s.snaps.length : ℤ) - 1)
  room : s.snaps.length ≤ s.alloc

/-- With what the next calls rely on: no tick is ahead of the frame counter, and a load that is
pending names an entry. -/
structure Consistent (s : RewindState Px) : Prop extends ListSound s where
  upTo : ∀ e ∈ s.snaps, e.tick ≤ s.frame
  pending : s.loadPending = true → ∃ e ∈ s.snaps, e.tick = s.loadTick
  deep : 1 ≤ s.depth

/-- A frame is counted. -/
def RewindState.counts (netplay : Bool) (s : RewindState Px) : Bool :=
  s.armed && !s.isOpen && !netplay && !s.titleBlocked

/-- The calls that keep the list: a shutdown, or a configure that finds no memory, finds the
selection at zero; the frame counter does not come round; and a capture that appends to a full
list finds the depth within the allocation. -/
def Orderly (env : Environment) (s : RewindState Px) : RewindOp Px → Prop
  | .shutdown => s.sel = 0
  | .configure allocated => allocated = false → (rewindWanted env s).wanted = true → s.sel = 0
  | .noteFrame netplay _ => (rewindWanted env s).counts netplay = true → s.frame + 1 < 2 ^ 32
  | .poll o => (rewindWanted env s).captures o = true → s.snaps.length = s.alloc →
    (∀ e ∈ s.snaps, e.tick ≠ s.frame) → (rewindWanted env s).depth ≤ s.alloc
  | _ => True

instance (env : Environment) (s : RewindState Px) (op : RewindOp Px) : Decidable (Orderly env s op) :=
  match op with
  | .shutdown => inferInstanceAs (Decidable (s.sel = 0))
  | .configure allocated =>
    inferInstanceAs (Decidable (allocated = false → (rewindWanted env s).wanted = true → s.sel = 0))
  | .noteFrame netplay _ =>
    inferInstanceAs (Decidable ((rewindWanted env s).counts netplay = true → s.frame + 1 < 2 ^ 32))
  | .poll o => inferInstanceAs (Decidable ((rewindWanted env s).captures o = true → s.snaps.length = s.alloc →
    (∀ e ∈ s.snaps, e.tick ≠ s.frame) → (rewindWanted env s).depth ≤ s.alloc))
  | .setDepth _ | .setInterval _ | .setEnabled _ | .discard | .toggle _ | .cancel | .setTitleBlocked _ | .accept
  | .move _ => .isTrue trivial

theorem init_consistent : Consistent (RewindState.init : RewindState Px) where
  increasing := List.Pairwise.nil
  thumbs := fun _ h => absurd h List.not_mem_nil
  selection := by simp [RewindState.init]
  room := le_refl _
  upTo := fun _ h => absurd h List.not_mem_nil
  pending := fun h => absurd h (by simp [RewindState.init])
  deep := by simp [RewindState.init, rwDefDepth]

/-! ## Settings -/

theorem nearest_mem (first : ℕ) (opts : List ℕ) (v : ℕ) : nearest first opts v ∈ first :: opts := by
  have hfold : ∀ (opts : List ℕ) (best : ℕ × ℕ),
      (opts.foldl (fun best opt => if apart v opt < best.2 then (opt, apart v opt) else best)
        best).1 ∈ best.1 :: opts := by
    intro opts
    induction opts with
    | nil => exact fun best => List.mem_singleton.2 rfl
    | cons opt opts ih =>
      intro best
      rw [List.foldl_cons]
      split
      · exact List.mem_cons_of_mem _ (ih (opt, apart v opt))
      · rcases List.mem_cons.1 (ih best) with hbest | hrest
        · exact List.mem_cons.2 (Or.inl hbest)
        · exact List.mem_cons_of_mem _ (List.mem_cons_of_mem _ hrest)
  exact hfold opts (first, apart v first)

theorem normalizeRewindDepth_pos (v : ℕ) : 1 ≤ normalizeRewindDepth v := by
  have h := nearest_mem 50 [100, 150, 200] v
  unfold normalizeRewindDepth
  simp only [List.mem_cons, List.not_mem_nil, or_false] at h
  omega

/-- A call that leaves the list, the selection, the counter and the pending load. -/
structure Untouched (s s' : RewindState Px) : Prop where
  snaps : s'.snaps = s.snaps
  sel : s'.sel = s.sel
  alloc : s'.alloc = s.alloc
  frame : s'.frame = s.frame
  loadPending : s'.loadPending = s.loadPending
  loadTick : s'.loadTick = s.loadTick
  depth : 1 ≤ s.depth → 1 ≤ s'.depth

theorem Consistent.untouched {s s' : RewindState Px} (h : Consistent s) (hs : Untouched s s') :
    Consistent s' where
  increasing := hs.snaps ▸ h.increasing
  thumbs := hs.snaps ▸ h.thumbs
  selection := by
    rw [hs.snaps, hs.sel]
    exact h.selection
  room := by
    rw [hs.snaps, hs.alloc]
    exact h.room
  upTo := by
    rw [hs.snaps, hs.frame]
    exact h.upTo
  pending := by
    rw [hs.snaps, hs.loadPending, hs.loadTick]
    exact h.pending
  deep := hs.depth h.deep

theorem rewindWanted_untouched (env : Environment) (s : RewindState Px) :
    Untouched s (rewindWanted env s) := by
  unfold rewindWanted
  split
  · exact ⟨rfl, rfl, rfl, rfl, rfl, rfl, id⟩
  · exact ⟨rfl, rfl, rfl, rfl, rfl, rfl, fun _ => normalizeRewindDepth_pos _⟩

theorem psxRewindSetDepth_untouched (depth : ℕ) (s : RewindState Px) :
    Untouched s (psxRewindSetDepth depth s) := by
  refine ⟨rfl, rfl, rfl, rfl, rfl, rfl, fun h => ?_⟩
  unfold psxRewindSetDepth
  dsimp only
  split
  · exact normalizeRewindDepth_pos _
  · exact h

/-! ## The list operations -/

theorem listDropAfter_spec {s : RewindState Px} (h : ListSound s) (tick : ℕ) :
    ListSound (listDropAfter tick s) ∧ (∀ e ∈ (listDropAfter tick s).snaps, e.tick ≤ tick) := by
  have hsub : (listDropAfter tick s).snaps.Sublist s.snaps := List.filter_sublist
  have hlength := hsub.length_le
  obtain ⟨hlow, hhigh⟩ := h.selection
  refine ⟨⟨h.increasing.sublist hsub, fun e he => h.thumbs e (hsub.subset he), ?_, ?_⟩, fun e he => ?_⟩
  · change 0 ≤ (if s.sel ≥ ((listDropAfter tick s).snaps.length : ℤ) then
        (if (listDropAfter tick s).snaps.isEmpty then 0 else
          ((listDropAfter tick s).snaps.length : ℤ) - 1) else s.sel) ∧
      (if s.sel ≥ ((listDropAfter tick s).snaps.length : ℤ) then
        (if (listDropAfter tick s).snaps.isEmpty then 0 else
          ((listDropAfter tick s).snaps.length : ℤ) - 1) else s.sel) ≤ _
    cases hsnaps : (listDropAfter tick s).snaps with
    | nil =>
      simp only [List.isEmpty_nil, List.length_nil]
      split <;> simp_all
    | cons e rest =>
      simp only [List.isEmpty_cons, List.length_cons]
      split <;> simp_all
  · exact hlength.trans h.room
  · have := List.of_mem_filter he
    simpa using this

theorem listPush_spec {s : RewindState Px} (h : ListSound s) (hupTo : ∀ e ∈ s.snaps, e.tick ≤ s.frame)
    (hdeep : 1 ≤ s.depth)
    (hroom : s.snaps.length = s.alloc → (∀ e ∈ s.snaps, e.tick ≠ s.frame) → s.depth ≤ s.alloc)
    (px : Px) :
    ListSound (listPush s.frame px s) ∧ ∀ e ∈ (listPush s.frame px s).snaps, e.tick ≤ s.frame := by
  have hmember : ∀ {snaps : List (Snap Px)}, (∀ e ∈ snaps, e ∈ s.snaps ∨ e = ⟨s.frame, s.frame, px⟩) →
      (∀ e ∈ snaps, e.thumbTick = e.tick) ∧ ∀ e ∈ snaps, e.tick ≤ s.frame := by
    intro snaps hfrom
    refine ⟨fun e he => ?_, fun e he => ?_⟩
    · rcases hfrom e he with hold | rfl
      · exact h.thumbs e hold
      · rfl
    · rcases hfrom e he with hold | rfl
      · exact hupTo e hold
      · exact le_refl _
  unfold listPush
  split
  · -- the tick is there: its picture is replaced
    rename_i i hfound
    obtain ⟨hi, htick, -⟩ := List.findIdx?_eq_some_iff_getElem.1 hfound
    have hticks : ((s.snaps.set i ⟨s.frame, s.frame, px⟩).map Snap.tick) = s.snaps.map Snap.tick := by
      rw [List.map_set]
      refine List.ext_getElem (by simp) fun j hj hj' => ?_
      rw [List.getElem_set]
      split
      · rename_i hij
        subst hij
        rw [List.getElem_map]
        exact (of_decide_eq_true htick).symm
      · rfl
    obtain ⟨hthumbs, hbelow⟩ := hmember fun e he => List.mem_or_eq_of_mem_set he
    refine ⟨⟨?_, hthumbs, ?_, ?_⟩, hbelow⟩
    · have := List.pairwise_map.2 h.increasing
      rw [← hticks] at this
      exact List.pairwise_map.1 this
    · dsimp only
      rw [List.length_set]
      exact h.selection
    · dsimp only
      rw [List.length_set]
      exact h.room
  · rename_i hnew
    have hother : ∀ e ∈ s.snaps, e.tick ≠ s.frame := fun e he =>
      of_decide_eq_false (List.findIdx?_eq_none_iff.1 hnew e he)
    set kept := if s.snaps.length ≥ s.depth then s.snaps.tail else s.snaps with hkept
    have hsub : kept.Sublist s.snaps := by
      rw [hkept]
      split
      · exact List.tail_sublist _
      · exact List.Sublist.refl _
    obtain ⟨hthumbs, hbelow⟩ := @hmember (kept ++ [⟨s.frame, s.frame, px⟩]) fun e he =>
      (List.mem_append.1 he).imp (fun hold => hsub.subset hold) List.mem_singleton.1
    refine ⟨⟨?_, hthumbs, ?_, ?_⟩, hbelow⟩
    · refine List.pairwise_append.2 ⟨h.increasing.sublist hsub, List.pairwise_singleton _ _,
        fun a ha b hb => ?_⟩
      rw [List.mem_singleton.1 hb]
      have hle := hupTo a (hsub.subset ha)
      have hne := hother a (hsub.subset ha)
      dsimp only
      omega
    · dsimp only
      rw [List.length_append, List.length_singleton]
      omega
    · have hmax := h.room
      have hlength : kept.length + 1 ≤ s.alloc := by
        rw [hkept]
        split
        · rw [List.length_tail]
          omega
        · by_contra hover
          have := hroom (by omega) hother
          omega
      simpa using hlength

/-! ## Every call -/

theorem doCapture_consistent {s : RewindState Px} (h : Consistent s) (hpending : s.loadPending = false)
    (o : PollOutcome Px)
    (hroom : o.captured = true → s.snaps.length = s.alloc → (∀ e ∈ s.snaps, e.tick ≠ s.frame) →
      s.depth ≤ s.alloc) : Consistent (doCapture o s) := by
  unfold doCapture
  split
  · exact h
  · rename_i hcaptured
    have hyes : o.captured = true := by simpa using hcaptured
    obtain ⟨hlist, hbelow⟩ := listPush_spec h.toListSound h.upTo h.deep (hroom hyes) o.px
    have hkept : (listPush s.frame o.px s).frame = s.frame ∧
        (listPush s.frame o.px s).loadPending = s.loadPending ∧
        (listPush s.frame o.px s).depth = s.depth := by
      unfold listPush
      split <;> exact ⟨rfl, rfl, rfl⟩
    refine ⟨⟨hlist.increasing, hlist.thumbs, hlist.selection, hlist.room⟩, ?_, fun hload => ?_, ?_⟩
    · dsimp only
      rw [hkept.1]
      exact hbelow
    · dsimp only at hload
      rw [hkept.2.1, hpending] at hload
      exact absurd hload (by decide)
    · dsimp only
      rw [hkept.2.2]
      exact h.deep

/-- A load goes back to an entry of the list, and the counter with it. -/
theorem doLoad_consistent {s : RewindState Px} (h : Consistent s) (hpending : s.loadPending = false)
    (o : PollOutcome Px) (tick : ℕ) : Consistent (doLoad o tick s) := by
  unfold doLoad
  split
  · exact h
  · obtain ⟨hlist, hbelow⟩ := listDropAfter_spec h.toListSound tick
    refine ⟨⟨hlist.increasing, hlist.thumbs, hlist.selection, hlist.room⟩, hbelow, fun hload => ?_, h.deep⟩
    have hload : s.loadPending = true := hload
    rw [hpending] at hload
    exact absurd hload (by decide)

/-- An empty list with the selection at zero. -/
theorem emptied_consistent {s : RewindState Px} (hsnaps : s.snaps = []) (hsel : s.sel = 0)
    (hpending : s.loadPending = false) (hdeep : 1 ≤ s.depth) : Consistent s where
  increasing := hsnaps ▸ List.Pairwise.nil
  thumbs := fun e he => absurd (hsnaps ▸ he) List.not_mem_nil
  selection := by
    rw [hsnaps, hsel]
    exact ⟨le_refl _, le_max_left _ _⟩
  room := by rw [hsnaps]; exact Nat.zero_le _
  upTo := fun e he => absurd (hsnaps ▸ he) List.not_mem_nil
  pending := fun h => absurd (hpending.symm.trans h) (by decide)
  deep := hdeep

theorem configure_consistent {s : RewindState Px} (h : Consistent s) (env : Environment)
    (allocated : Bool)
    (hsel : allocated = false → (rewindWanted env s).wanted = true → s.sel = 0) :
    Consistent (psxRewindConfigure env allocated s) := by
  have hwanted := h.untouched (rewindWanted_untouched env s)
  unfold psxRewindConfigure
  dsimp only
  split
  · exact hwanted
  · rename_i hon
    have hon : (rewindWanted env s).wanted = true := by simpa using hon
    split
    · rename_i hnone
      have hnone : allocated = false := by simpa using hnone
      refine emptied_consistent rfl ?_ rfl hwanted.deep
      exact (rewindWanted_untouched env s).sel.trans (hsel hnone hon)
    · exact emptied_consistent rfl rfl rfl hwanted.deep

theorem noteFrame_consistent {s : RewindState Px} (h : Consistent s) (env : Environment)
    (netplay fmv : Bool)
    (hframe : (rewindWanted env s).counts netplay = true → s.frame + 1 < 2 ^ 32) :
    Consistent (psxRewindNoteFrame env netplay fmv s) := by
  have hwanted := h.untouched (rewindWanted_untouched env s)
  have hsame := (rewindWanted_untouched env s).frame
  unfold psxRewindNoteFrame
  dsimp only
  split
  · exact hwanted
  · rename_i hcounts
    have hcounts : (rewindWanted env s).counts netplay = true := by
      simpa [RewindState.counts, not_or, and_assoc] using hcounts
    have hnext := hframe hcounts
    refine ⟨⟨hwanted.increasing, hwanted.thumbs, hwanted.selection, hwanted.room⟩, fun e he => ?_,
      hwanted.pending, hwanted.deep⟩
    have hle := hwanted.upTo e he
    dsimp only
    rw [hsame] at hle ⊢
    rw [Nat.mod_eq_of_lt hnext]
    omega

theorem poll_consistent {s : RewindState Px} (h : Consistent s) (env : Environment)
    (o : PollOutcome Px)
    (hroom : (rewindWanted env s).captures o = true → s.snaps.length = s.alloc →
      (∀ e ∈ s.snaps, e.tick ≠ s.frame) → (rewindWanted env s).depth ≤ s.alloc) :
    Consistent (psxRewindPoll env o s) := by
  have hkept := rewindWanted_untouched env s
  have hwanted := h.untouched hkept
  rw [← hkept.snaps, ← hkept.alloc, ← hkept.frame] at hroom
  unfold psxRewindPoll
  dsimp only
  generalize rewindWanted env s = w at hwanted hroom
  split
  · exact hwanted
  · rename_i harmed
    split
    · exact hwanted
    · rename_i hready
      split
      · split
        · exact hwanted
        · -- the pending load is taken, whether or not it succeeds
          have hcleared : Consistent { w with loadPending := false, isOpen := false } :=
            ⟨⟨hwanted.increasing, hwanted.thumbs, hwanted.selection, hwanted.room⟩, hwanted.upTo,
              fun hload => absurd hload (by simp), hwanted.deep⟩
          exact doLoad_consistent hcleared rfl o _
      · rename_i hpending
        split
        · rename_i hdue
          have hpending : w.loadPending = false := by simpa using hpending
          refine doCapture_consistent hwanted hpending o fun hcaptured => hroom ?_
          unfold RewindState.captures
          rw [hpending, hcaptured, hdue]
          rw [Bool.not_eq_true'] at harmed hready
          simpa using ⟨by simpa using harmed, by simpa using hready⟩
        · exact hwanted

theorem toggle_consistent {s : RewindState Px} (h : Consistent s) (env : Environment)
    (netplay : Bool) : Consistent (psxRewindToggle env netplay s) := by
  have hwanted := h.untouched (rewindWanted_untouched env s)
  unfold psxRewindToggle
  dsimp only
  generalize rewindWanted env s = w at hwanted
  split_ifs
  · exact hwanted
  · exact hwanted
  · exact hwanted
  · exact hwanted.untouched ⟨rfl, rfl, rfl, rfl, rfl, rfl, id⟩
  · exact hwanted.untouched ⟨rfl, rfl, rfl, rfl, rfl, rfl, id⟩
  · refine ⟨⟨hwanted.increasing, hwanted.thumbs, ?_, hwanted.room⟩, hwanted.upTo, hwanted.pending,
      hwanted.deep⟩
    rename_i hsome
    have hpos : 0 < w.snaps.length := List.length_pos_iff.2 (by simpa using hsome)
    dsimp only
    omega

theorem cancel_untouched (s : RewindState Px) : Untouched s (psxRewindCancel s) := by
  unfold psxRewindCancel
  split <;> exact ⟨rfl, rfl, rfl, rfl, rfl, rfl, id⟩

theorem discard_consistent {s : RewindState Px} (h : Consistent s) :
    Consistent (psxRewindDiscardHistory s) := by
  unfold psxRewindDiscardHistory
  split
  · exact h
  · exact emptied_consistent rfl rfl rfl h.deep

theorem setTitleBlocked_consistent {s : RewindState Px} (h : Consistent s) (blocked : Bool) :
    Consistent (psxRewindSetTitleBlocked blocked s) := by
  unfold psxRewindSetTitleBlocked
  dsimp only
  split
  · exact h.untouched ⟨rfl, rfl, rfl, rfl, rfl, rfl, id⟩
  · have hdue : Consistent { s with titleBlocked := blocked, captureDue := false } :=
      h.untouched ⟨rfl, rfl, rfl, rfl, rfl, rfl, id⟩
    exact hdue.untouched (cancel_untouched _)

theorem accept_consistent {s : RewindState Px} (h : Consistent s) : Consistent (psxRewindAccept s) := by
  unfold psxRewindAccept
  split
  · exact h
  · split
    · exact h
    · rename_i e hentry
      exact ⟨⟨h.increasing, h.thumbs, h.selection, h.room⟩, h.upTo,
        fun _ => ⟨e, List.mem_of_getElem? hentry, rfl⟩, h.deep⟩

theorem move_consistent {s : RewindState Px} (h : Consistent s) (delta : ℤ) :
    Consistent (psxRewindMove delta s) := by
  unfold psxRewindMove
  split
  · exact h
  · rename_i hmoves
    have hpos : 0 < s.snaps.length := by
      refine List.length_pos_iff.2 fun hnil => hmoves ?_
      simp [hnil]
    refine ⟨⟨h.increasing, h.thumbs, ?_, h.room⟩, h.upTo, h.pending, h.deep⟩
    dsimp only
    split_ifs <;> omega

theorem Consistent.apply {s : RewindState Px} (h : Consistent s) (env : Environment)
    (op : RewindOp Px) (horderly : Orderly env s op) : Consistent (op.apply env s) := by
  cases op with
  | setDepth depth => exact h.untouched (psxRewindSetDepth_untouched depth s)
  | setInterval interval => exact h.untouched ⟨rfl, rfl, rfl, rfl, rfl, rfl, id⟩
  | setEnabled enabled => exact h.untouched ⟨rfl, rfl, rfl, rfl, rfl, rfl, id⟩
  | configure allocated => exact configure_consistent h env allocated horderly
  | shutdown => exact emptied_consistent rfl horderly rfl h.deep
  | discard => exact discard_consistent h
  | noteFrame netplay fmv => exact noteFrame_consistent h env netplay fmv horderly
  | poll o => exact poll_consistent h env o horderly
  | toggle netplay => exact toggle_consistent h env netplay
  | cancel => exact h.untouched (cancel_untouched s)
  | setTitleBlocked blocked => exact setTitleBlocked_consistent h blocked
  | accept => exact accept_consistent h
  | move delta => exact move_consistent h delta

/-! ## Runs -/

def rewindRun (env : Environment) (ops : List (RewindOp Px)) : RewindState Px :=
  ops.foldl (RewindOp.apply env) RewindState.init

/-- Every call of the run is orderly where it is made. -/
def OrderlyRun (env : Environment) (ops : List (RewindOp Px)) : Prop :=
  ∀ before op after, ops = before ++ op :: after → Orderly env (rewindRun env before) op

theorem rewindRun_snoc (env : Environment) (ops : List (RewindOp Px)) (op : RewindOp Px) :
    rewindRun env (ops ++ [op]) = op.apply env (rewindRun env ops) := by
  unfold rewindRun
  rw [List.foldl_append]
  rfl

theorem OrderlyRun.consistent {env : Environment} {ops : List (RewindOp Px)}
    (h : OrderlyRun env ops) : Consistent (rewindRun env ops) := by
  induction ops using List.reverseRecOn with
  | nil => exact init_consistent
  | append_singleton ops op ih =>
    rw [rewindRun_snoc]
    refine (ih fun before op' after hsplit => ?_).apply env op (h ops op [] rfl)
    exact h before op' (after ++ [op]) (by rw [hsplit]; simp)

/-- In every state of an orderly run the list is sound. -/
theorem rewind_list_sound {env : Environment} {ops : List (RewindOp Px)} (h : OrderlyRun env ops) :
    ∀ before, before <+: ops → ListSound (rewindRun env before) := by
  rintro before ⟨rest, rfl⟩
  refine OrderlyRun.consistent (fun front op after hsplit => ?_) |>.toListSound
  exact h front op (after ++ rest) (by rw [hsplit]; simp)

theorem orderlyRun_of_take {env : Environment} {ops : List (RewindOp Px)}
    (h : ∀ i (hi : i < ops.length), Orderly env (rewindRun env (ops.take i)) ops[i]) : OrderlyRun env ops := by
  rintro before op after rfl
  have hop := h before.length (by simp)
  simpa using hop

/-- The host's answers to a poll that goes through. -/
def goodPoll : PollOutcome Unit := ⟨true, true, false, true, true, ()⟩

def unsetEnvironment : Environment := ⟨none, none, none, none⟩

/-- Three captures, a load of the second that drops the third, a capture, and a shutdown from the first. -/
def playedHistory : List (RewindOp Unit) :=
  [.setEnabled true, .setInterval 1, .configure true, .noteFrame false false, .poll goodPoll, .noteFrame false false,
    .poll goodPoll, .noteFrame false false, .poll goodPoll, .toggle false, .move (-1), .accept, .poll goodPoll,
    .noteFrame false false, .poll goodPoll, .toggle false, .move (-5), .shutdown]

theorem rewind_list_sound_played :
    (∀ n, ListSound (rewindRun unsetEnvironment (playedHistory.take n))) ∧
      (rewindRun unsetEnvironment (playedHistory.take 9)).snaps.map Snap.tick = [1, 2, 3] ∧
        (rewindRun unsetEnvironment (playedHistory.take 13)).snaps.map Snap.tick = [1, 2] := by
  refine ⟨fun n => rewind_list_sound (orderlyRun_of_take ?_) _ (List.take_prefix n playedHistory), by decide, by decide⟩
  decide

set_option maxRecDepth 8000 in
/-- The depth raised from 50 to 200 behind a configured list: the fifty-first capture goes past the
fifty entries there are. A shutdown with two entries leaves the selection at the second. -/
theorem rewind_list_outgrown :
    let captures := fun n => (List.replicate n
      [RewindOp.noteFrame false false, RewindOp.poll goodPoll]).flatten
    let start := [RewindOp.setEnabled true, .setDepth 50, .setInterval 1, .configure true]
    ¬ ListSound (rewindRun unsetEnvironment (start ++ [.setDepth 200] ++ captures 51)) ∧
      ¬ ListSound (rewindRun unsetEnvironment (start ++ captures 2 ++ [.shutdown])) := by
  intro captures start
  refine ⟨fun h => ?_, fun h => ?_⟩
  · have hcount : (rewindRun unsetEnvironment
        (start ++ [.setDepth 200] ++ captures 51)).snaps.length = 51 := by decide
    have halloc : (rewindRun unsetEnvironment
        (start ++ [.setDepth 200] ++ captures 51)).alloc = 50 := by decide
    have hroom := h.room
    rw [hcount, halloc] at hroom
    exact absurd hroom (by decide)
  · have hsel : (rewindRun unsetEnvironment (start ++ captures 2 ++ [.shutdown])).sel = 1 := by
      decide
    have hnone : (rewindRun unsetEnvironment
        (start ++ captures 2 ++ [.shutdown])).snaps.length = 0 := by decide
    have hselection := h.selection
    rw [hsel, hnone] at hselection
    exact absurd hselection (by decide)

end PsxRecomp.Rewind
