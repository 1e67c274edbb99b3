import PsxRecomp.RenderThread.Delivery

/-! What holds in every interleaving of the two threads. -/
namespace PsxRecomp.RenderThread
set_option autoImplicit false

/-! ## The invariant of a run -/

structure Invariant (cfg : Config) (s : State) : Prop where
  flags : Flags s
  handoff : Handoff cfg s
  producer : Producer cfg s
  ring : ∃ items, Ring cfg s items
  room : s.wpos ≤ s.rpos + cfg.cap

section
variable {cfg : Config} {s s' : State}

theorem Invariant.init (mem : Memory) : Invariant cfg (.init mem) := by
  refine ⟨?_, ?_, ?_, ⟨[], rfl, Nat.dvd_zero _, ?_, trivial, rfl, rfl⟩, Nat.zero_le _⟩
  · constructor <;> simp [State.init, EmuPc.locks, EmuPc.sleeps, EmuPc.requests, EmuPc.context, EmuPc.after,
      RenderPc.locks, RenderPc.sleeps, RenderPc.releases, RenderPc.parked, RenderPc.context]
  · exact ⟨fun p k hw => (by cases hw), fun ho => (by cases ho), fun hr => (by cases hr), fun k he => (by cases he),
      fun hq => (by cases hq), fun hr => (by cases hr), fun hr => (by cases hr), fun p k he => (by cases he)⟩
  · exact ⟨⟨fun p k hw => (by cases hw), fun k hk => (by cases hk), fun _ => Nat.zero_le _⟩, EmuPc.noConfusion,
      EmuPc.noConfusion, fun hp => Bool.noConfusion hp⟩
  · exact fun it hit => (by cases hit)

theorem Producer.emu_room (h : Producer cfg s) (hroom : s.wpos ≤ s.rpos + cfg.cap) (hs : EmuStep cfg s s') :
    s'.wpos ≤ s'.rpos + cfg.cap := by
  cases hs with
  | commit _ hpending => exact (h.pended hpending).room
  | publishMarker hpc => exact (h.marker hpc).2.1
  | _ => exact hroom

theorem Invariant.emu_step (h : Invariant cfg s) (hs : EmuStep cfg s s') : Invariant cfg s' := by
  obtain ⟨items, hring⟩ := h.ring
  exact ⟨h.flags.emu hs, h.handoff.emu_step h.flags hs, h.producer.emu_step hring hs, hring.emu_step h.producer hs,
    h.producer.emu_room h.room hs⟩

theorem Invariant.render_step (h : Invariant cfg s) (hs : RenderStep cfg s s') : Invariant cfg s' := by
  obtain ⟨items, hring⟩ := h.ring
  obtain ⟨-, hw, hr, -⟩ := render_keeps hs
  have hroom := h.room
  exact ⟨h.flags.render hs, h.handoff.render_step h.flags hs, h.producer.render_step hs, hring.render_step hs, by omega⟩

theorem Reachable.invariant (h : Reachable cfg s) : Invariant cfg s := by
  induction h with
  | init mem => exact Invariant.init mem
  | emu _ hs ih => exact ih.emu_step hs
  | render _ hs ih => exact ih.render_step hs

end

/-! ## Positions of 64 bits

The code keeps the positions and the counters in `uint64_t`; what the threads ask about them has the same answer. -/

/-- `pred_space`, `pred_drained` and `pred_frames` on the words. -/
def Pred.holdsWords (cfg : Config) (s : State) : Pred → Bool
  | space needEnd => BitVec.ofNat 64 needEnd - BitVec.ofNat 64 s.rpos ≤ BitVec.ofNat 64 cfg.cap
  | drained w => BitVec.ofNat 64 s.rpos = BitVec.ofNat 64 w
  | frames limit => BitVec.ofNat 64 s.framesProduced - BitVec.ofNat 64 s.framesConsumed ≤ BitVec.ofNat 64 limit
  | released => s.released

theorem ofNat_sub_le_iff {a b c : ℕ} (hb : b ≤ a) (hnear : a - b < 2 ^ 64) (hc : c < 2 ^ 64) :
    BitVec.ofNat 64 a - BitVec.ofNat 64 b ≤ BitVec.ofNat 64 c ↔ a - b ≤ c := by
  simp only [BitVec.le_def, BitVec.toNat_sub, BitVec.toNat_ofNat]
  omega

theorem ofNat_eq_iff {a b : ℕ} (hb : b ≤ a) (hnear : a - b < 2 ^ 64) :
    BitVec.ofNat 64 a = BitVec.ofNat 64 b ↔ a = b := by
  simp only [BitVec.toNat_eq, BitVec.toNat_ofNat]
  omega

/-- A frame marker takes 16 bytes. -/
theorem Laid.frames_le {cap : ℕ} {mem : Memory} {items : List Item} {p q : ℕ} (h : Laid cap mem p items q) :
    16 * Item.frames items ≤ q - p := by
  induction items generalizing p with
  | nil => exact Nat.zero_le _
  | cons it rest ih =>
    have hroom := h.1.room
    have hle := Laid.le h.2
    have hrest := ih h.2
    cases it <;> simp only [Item.frames] <;> omega

section
variable {cfg : Config} {s : State}

/-- The render thread asks whether the positions are equal, and takes them apart modulo the size of the ring. -/
theorem Invariant.empty_words (h : Invariant cfg s) :
    (BitVec.ofNat 64 s.wpos = BitVec.ofNat 64 s.rpos ↔ s.wpos = s.rpos) ∧
      ∀ x, (BitVec.ofNat 64 x).toNat % cfg.cap = x % cfg.cap := by
  obtain ⟨items, hring⟩ := h.ring
  have hroom := h.room
  have hcap := cfg.cap_bounds
  refine ⟨ofNat_eq_iff hring.laid.le (by omega), fun x => ?_⟩
  rw [BitVec.toNat_ofNat]
  exact Nat.mod_mod_of_dvd x (Nat.pow_dvd_pow 2 (cfg.ring.2.trans (by decide)))

theorem Invariant.holds_words (h : Invariant cfg s) (hmax : cfg.maxFrames < 2 ^ 64) {p : Pred} {k : After}
    (hwait : s.emu.waiting = some (p, k)) : p.holdsWords cfg s = p.holds cfg s := by
  obtain ⟨items, hring⟩ := h.ring
  have hroom := h.room
  have hle := hring.laid.le
  have hcap := cfg.cap_bounds
  have hwait := h.producer.awaited p k hwait
  have hspace (n : ℕ) (hn : n ≤ 2 * cfg.cap) : (Pred.space (s.wpos + n)).holdsWords cfg s =
      (Pred.space (s.wpos + n)).holds cfg s :=
    decide_eq_decide.2 (ofNat_sub_le_iff (by omega) (by omega) (by omega))
  have hframes : s.framesConsumed ≤ s.framesProduced ∧ s.framesProduced - s.framesConsumed < 2 ^ 64 := by
    have hcount := hring.frames
    have hlaid := hring.laid.frames_le
    have hleft : Item.frames (s.left items) ≤ Item.frames items := by
      unfold State.left
      cases s.render <;> first | exact le_rfl | (cases items with | nil => exact le_rfl | cons it _ => cases it <;> simp [Item.frames])
    have hmarking : s.emu.marking ≤ 1 := by
      unfold EmuPc.marking
      split <;> first | exact le_rfl | (split <;> decide)
    omega
  cases k with
  | writeCmd op flags payload =>
    obtain ⟨-, hsize, -, rfl⟩ := hwait
    rw [Nat.add_assoc]
    refine hspace _ ?_
    unfold padFor
    split_ifs <;> omega
  | writeMarker =>
    obtain ⟨-, rfl⟩ := hwait
    exact hspace 16 (by omega)
  | frameEnded =>
    obtain rfl := hwait
    exact decide_eq_decide.2 (ofNat_sub_le_iff hframes.1 hframes.2 hmax)
  | drained | request =>
    obtain rfl := hwait
    exact decide_eq_decide.2 (eq_comm.trans ((ofNat_eq_iff hle (by omega)).trans eq_comm))
  | take =>
    obtain rfl := hwait
    rfl

end

/-! ## Waiting for each other -/

def EmuPc.wantsLock : EmuPc → Bool
  | lock _ _ | relock _ _ | wakeLock _ | requestLock | giveLock => true
  | _ => false

def RenderPc.wantsLock : RenderPc → Bool
  | lock | relock | serveLock | parkRelock | takeLock | wakeLock => true
  | _ => false

/-- Only the other thread can let this one go on. -/
def State.emuWaits (s : State) : Prop :=
  (∃ p k, s.emu = .asleep p k) ∨ s.emu.wantsLock = true ∧ s.mutex = some .render

def State.renderWaits (s : State) : Prop :=
  s.render = .asleep ∨ s.render = .parkAsleep ∨ s.render.wantsLock = true ∧ s.mutex = some .emu

section
variable {cfg : Config} {s : State}

theorem Invariant.emu_lock (h : Invariant cfg s) (hm : s.mutex = some .emu) : ¬s.emuWaits := by
  have hlocks := h.flags.mutexEmu.1 hm
  rintro (⟨p, k, hpc⟩ | ⟨-, hr⟩)
  · rw [hpc] at hlocks
    cases hlocks
  · rw [hm] at hr
    cases hr

theorem Invariant.render_lock (h : Invariant cfg s) (hm : s.mutex = some .render) : ¬s.renderWaits := by
  have hlocks := h.flags.mutexRender.1 hm
  rintro (hpc | hpc | ⟨-, hr⟩)
  · rw [hpc] at hlocks
    cases hlocks
  · rw [hpc] at hlocks
    cases hlocks
  · rw [hm] at hr
    cases hr

/-- With nothing to read and no request, what is waited for is there. -/
theorem Invariant.not_asleep (h : Invariant cfg s) {p : Pred} {k : After} (hemu : s.emu = .asleep p k) :
    s.render ≠ .asleep := by
  intro hrender
  obtain ⟨hw, hreq⟩ := h.handoff.quiet (by rw [hemu]; rfl) (by rw [hrender]; rfl)
  have hfalse := (h.handoff.dozing p k (by rw [hemu]; rfl)).resolve_right (by rw [hrender]; decide)
  obtain ⟨items, hring⟩ := h.ring
  have hlaid := hring.laid
  rw [hw] at hlaid
  obtain rfl := hlaid.nil_of_eq
  have hframes := hring.frames
  have hcap := cfg.cap_bounds
  have hwait := h.producer.awaited p k (by rw [hemu]; rfl)
  cases k with
  | writeCmd op flags payload =>
    obtain ⟨-, hsize, -, rfl⟩ := hwait
    have hpad : padFor cfg.cap s.wpos (recordSize payload) + recordSize payload ≤ cfg.cap := by
      unfold padFor
      have := Nat.mod_lt s.wpos (show 0 < cfg.cap by omega)
      split_ifs <;> omega
    simp only [Pred.holds, decide_eq_false_iff_not] at hfalse
    omega
  | writeMarker =>
    obtain ⟨-, rfl⟩ := hwait
    simp only [Pred.holds, decide_eq_false_iff_not] at hfalse
    omega
  | frameEnded =>
    obtain rfl := hwait
    rw [hemu] at hframes
    simp only [State.left, hrender, Item.frames, EmuPc.marking, EmuPc.after, Option.any, EmuPc.writesMarker] at hframes
    simp only [Pred.holds, decide_eq_false_iff_not] at hfalse
    simp at hframes
    omega
  | drained | request =>
    obtain rfl := hwait
    simp only [Pred.holds, decide_eq_false_iff_not] at hfalse
    exact hfalse hw.symm
  | take =>
    rw [h.flags.releaseReq, hemu] at hreq
    simp [EmuPc.requests, EmuPc.after, After.takes] at hreq

theorem Invariant.not_parked (h : Invariant cfg s) {p : Pred} {k : After} (hemu : s.emu = .asleep p k) :
    s.render ≠ .parkAsleep := by
  intro hrender
  have hreq := (h.handoff.parkAsleep hrender).resolve_right (by rw [hemu]; exact EmuPc.noConfusion)
  have hfalse := (h.handoff.dozing p k (by rw [hemu]; rfl)).resolve_right (by rw [hrender]; decide)
  have hheld : s.held = false := by
    by_contra hne
    have hmay := h.flags.held (Bool.eq_true_of_not_eq_false hne)
    rw [hemu] at hmay
    cases hmay
  rw [h.flags.releaseReq, hemu, hheld] at hreq
  cases k with
  | take =>
    obtain rfl := (h.handoff.matched p .take (by rw [hemu]; rfl)).2 rfl
    have hreleased := h.flags.released
    rw [hrender] at hreleased
    exact absurd (hfalse.symm.trans hreleased) (by decide)
  | _ => cases hreq

end

theorem owns_of_context {pc : EmuPc} {held : Bool} (h : pc.context held = true) : pc.owns held = true := by
  cases pc with
  | lower k | unlock k => cases k <;> simp_all [EmuPc.context, EmuPc.owns]
  | _ => simp_all [EmuPc.context, EmuPc.owns]

/-- In every interleaving the render thread executes the committed records, each once, in order and with the bytes
they were committed with; what it has not read stands in the ring in whole records and is not overwritten;
`rt_frame_end` leaves no more than the allowed frames in flight; the context is with one thread at most; and
the threads never wait for each other. -/
theorem render_ring {cfg : Config} {s : State} (h : Reachable cfg s) :
    (∃ items, Laid cfg.cap s.mem s.rpos items s.wpos ∧
      s.committed = s.executed ++ Item.commands (s.left items)) ∧
    (s.rpos = s.wpos → s.executed = s.committed) ∧
    (∀ s', EmuStep cfg s s' → ∀ x, s.rpos ≤ x → x < s.wpos → s'.mem (x % cfg.cap) = s.mem (x % cfg.cap)) ∧
    (s.emu.framing = false → s.framesProduced ≤ s.framesConsumed + cfg.maxFrames) ∧
    ¬(s.emuContext = true ∧ s.renderContext = true) ∧
    ¬(s.emuWaits ∧ s.renderWaits) := by
  have hi := h.invariant
  obtain ⟨items, hring⟩ := hi.ring
  refine ⟨⟨items, hring.laid, hring.delivered⟩, fun heq => ?_, fun s' hs x h1 h2 => hring.unread hi.producer hs h1 h2,
    hi.producer.bound, fun ⟨he, hr⟩ => ?_, fun ⟨he, hr⟩ => ?_⟩
  · have hlaid := hring.laid
    rw [← heq] at hlaid
    obtain rfl := hlaid.nil_of_eq
    rw [hring.delivered, show s.left [] = [] by unfold State.left; cases s.render <;> rfl]
    exact (List.append_nil _).symm
  · -- the emulation thread has it only while the render thread is parked
    rw [hi.flags.emuContext] at he
    have hparked := hi.handoff.parked (owns_of_context he)
    rw [hi.flags.renderContext] at hr
    cases hpc : s.render <;> rw [hpc] at hr hparked <;> simp_all [RenderPc.context, RenderPc.parked]
  · rcases he with ⟨p, k, hemu⟩ | ⟨-, hm⟩
    · rcases hr with hrender | hrender | ⟨-, hm⟩
      · exact hi.not_asleep hemu hrender
      · exact hi.not_parked hemu hrender
      · exact hi.emu_lock hm (.inl ⟨p, k, hemu⟩)
    · exact hi.render_lock hm hr

/-- A ring of 32 MiB, as the host starts it. -/
def hostRing : Config := ⟨25, by decide, 2, by decide⟩

theorem RtCmd.read_store_before {mem : Memory} {off off' : ℕ} {bs : Wire.Bytes} (c : RtCmd) (h : off + 16 ≤ off') :
    RtCmd.read (store (store mem off c.emit) off' bs) off = c :=
  RtCmd.read_of_load ((load_congr fun _ _ h2 => store_apart (.inl (by omega))).trans (RtCmd.load_store mem off c))

/-- The render thread is on its way to sleep when a command and a frame end are recorded; it is woken, executes the command
and counts the frame. -/
theorem render_ring_recorded : ∃ s, Reachable hostRing s ∧ s.committed.length = 1 ∧ s.framesConsumed = 1 ∧
    s.executed = s.committed ∧ ¬(s.emuContext = true ∧ s.renderContext = true) ∧ ¬(s.emuWaits ∧ s.renderWaits) := by
  have looks : Reachable hostRing _ := (((((Reachable.init fun _ => 0).render (.start rfl)).render (.topEmpty rfl rfl)).render
    (.spinEmpty rfl rfl)).render (.lock rfl rfl)).render (.raise rfl)
  have dozes := looks.render (.testEmpty rfl rfl rfl)
  have records := (((dozes.emu (.begin 1 0 4 rfl rfl rfl (by decide) (by decide))).emu (.checkTrue _ _ rfl (by decide))).emu
    (.writeCmd _ _ _ rfl)).emu (.commit rfl rfl rfl)
  have marks := (((((records.emu (.wakeBatched _ rfl (by decide))).emu (.frameEnd rfl rfl rfl)).emu
    (.checkTrue _ _ rfl (by decide))).emu (.writeMarker rfl)).emu (.publishMarker rfl)).emu (.wakeSleeping _ rfl rfl rfl)
  -- the lock is free only now
  have sleeps := marks.render (.cndWait rfl)
  have woken := ((sleeps.emu (.wakeLock _ rfl rfl)).emu (.wakeBroadcast _ rfl)).emu (.wakeUnlock _ rfl)
  have reads := ((((woken.render (.relock rfl rfl)).render (.testLeave rfl)).render (.lower rfl)).render
    (.decideLeave rfl (.inl rfl))).render (.unlock rfl)
  have executes := (((reads.render (.topWork rfl (by decide))).render (.fetchCmd ⟨32, 1, 0, 4, 0⟩ rfl
    (RtCmd.read_store_before _ (by decide)).symm (by decide))).render (.exec _ rfl)).render (.advance _ rfl)
  have counts := (((executes.render (.wakeAwake rfl rfl)).render (.topWork rfl (by decide))).render
    (.fetchMarker (Item.frame 1).header rfl (RtCmd.read_of_load (RtCmd.load_store ..)).symm rfl (by decide))).render
    (.marker _ rfl)
  have done := (counts.render (.advance _ rfl)).render (.wakeAwake rfl rfl)
  obtain ⟨-, hall, -, -, hrest⟩ := render_ring done
  exact ⟨_, done, rfl, rfl, hall (by decide), hrest⟩

end PsxRecomp.RenderThread
