import PsxRecomp.RenderThread.Handoff

/-! What stands in the ring between the two positions, and what each thread is about to do with it. -/
namespace PsxRecomp.RenderThread
set_option autoImplicit false

/-! ## Room -/

theorem Config.cap_dvd (cfg : Config) : 16 ∣ cfg.cap := Nat.pow_dvd_pow 2 (show 4 ≤ cfg.bits from by have := cfg.ring; omega)

theorem Config.cap_bounds (cfg : Config) : 2 ^ 20 ≤ cfg.cap ∧ cfg.cap ≤ 2 ^ 32 :=
  ⟨Nat.pow_le_pow_right (by decide) cfg.ring.1, Nat.pow_le_pow_right (by decide) cfg.ring.2⟩

theorem recordSize_dvd (payload : BitVec 32) : 16 ∣ recordSize payload := Nat.dvd_mul_left ..

theorem recordSize_le (payload : BitVec 32) : 16 + payload.toNat ≤ recordSize payload := by
  unfold recordSize alignUp
  omega

/-- Behind its filler a record stands in one piece. -/
theorem padFor_spec (cfg : Config) {w size : ℕ} (hw : 16 ∣ w) (hsize : 16 ∣ size) (hle : size ≤ cfg.cap / 2) :
    (w + padFor cfg.cap w size) % cfg.cap + size ≤ cfg.cap ∧ 16 ∣ padFor cfg.cap w size ∧
      (padFor cfg.cap w size ≠ 0 → w % cfg.cap + padFor cfg.cap w size = cfg.cap ∧ 16 ≤ padFor cfg.cap w size ∧
        padFor cfg.cap w size < 2 ^ 32) := by
  have hcap := cfg.cap_dvd
  obtain ⟨hlow, hhigh⟩ := cfg.cap_bounds
  have hoff : 16 ∣ w % cfg.cap := (Nat.dvd_mod_iff hcap).2 hw
  have hlt : w % cfg.cap < cfg.cap := Nat.mod_lt _ (by omega)
  unfold padFor
  split_ifs with hfit
  · have hwrap : (w + (cfg.cap - w % cfg.cap)) % cfg.cap = 0 := by
      rw [Nat.add_mod, Nat.mod_eq_of_lt (show cfg.cap - w % cfg.cap < cfg.cap by omega), Nat.add_sub_cancel' hlt.le,
        Nat.mod_self]
    refine ⟨by omega, Nat.dvd_sub hcap hoff, fun _ => ⟨by omega, by omega, by omega⟩⟩
  · exact ⟨by rw [Nat.add_zero]; omega, Nat.dvd_zero _, fun h => absurd rfl h⟩

/-! ## What the emulation thread is about to do -/

/-- What is waited for in front of each thing to do. -/
def Awaited (cfg : Config) (s : State) (p : Pred) : After → Prop
  | .writeCmd op _ payload => op ≠ 0 ∧ recordSize payload ≤ cfg.cap / 2 ∧ s.pending = false ∧
      p = .space (s.wpos + padFor cfg.cap s.wpos (recordSize payload) + recordSize payload)
  | .writeMarker => s.pending = false ∧ p = .space (s.wpos + 16)
  | .frameEnded => p = .frames cfg.maxFrames
  | .drained | .request => p = .drained s.wpos
  | .take => p = .released

/-- What holds then. -/
def Granted (cfg : Config) (s : State) : After → Prop
  | .writeCmd op _ payload => op ≠ 0 ∧ recordSize payload ≤ cfg.cap / 2 ∧ s.pending = false ∧
      s.wpos + padFor cfg.cap s.wpos (recordSize payload) + recordSize payload ≤ s.rpos + cfg.cap
  | .writeMarker => s.pending = false ∧ s.wpos + 16 ≤ s.rpos + cfg.cap
  | .frameEnded => s.framesProduced ≤ s.framesConsumed + cfg.maxFrames
  | _ => True

theorem Awaited.granted {cfg : Config} {s : State} {p : Pred} {k : After} (h : Awaited cfg s p k)
    (hp : p.holds cfg s = true) : Granted cfg s k := by
  cases k <;> simp only [Awaited] at h <;> simp only [Granted]
  · obtain ⟨h1, h2, h3, rfl⟩ := h
    simp only [Pred.holds, decide_eq_true_eq] at hp
    exact ⟨h1, h2, h3, by omega⟩
  · obtain ⟨h1, rfl⟩ := h
    simp only [Pred.holds, decide_eq_true_eq] at hp
    exact ⟨h1, by omega⟩
  · subst h
    simp only [Pred.holds, decide_eq_true_eq] at hp
    omega

/-- A record between its begin and its commit. -/
structure Pended (cfg : Config) (s : State) : Prop where
  filler : ∃ pads, Laid cfg.cap s.mem s.wpos pads s.pendStart ∧ Item.commands pads = [] ∧ Item.frames pads = 0 ∧
    ∀ it ∈ pads, it.Valid
  room : s.pendStart + s.pend.size.toNat ≤ s.rpos + cfg.cap
  whole : s.pendStart % cfg.cap + s.pend.size.toNat ≤ cfg.cap
  header : load s.mem (s.pendStart % cfg.cap) 16 = s.pend.emit
  fits : 16 + s.pend.payload.toNat ≤ s.pend.size.toNat
  aligned : 16 ∣ s.pend.size.toNat
  command : s.pend.op ≠ 0

namespace EmuPc

def granted : EmuPc → Option After
  | lower k | unlock k => some k
  | writeCmd op flags payload => some (.writeCmd op flags payload)
  | writeMarker => some .writeMarker
  | _ => none

def writesMarker : After → Bool
  | .writeMarker => true
  | _ => false

/-- A frame is counted as produced and has no marker in the ring yet. -/
def marking : EmuPc → ℕ
  | writeMarker | publishMarker | countHeld => 1
  | pc => if pc.after.any writesMarker then 1 else 0

def endsFrame : After → Bool
  | .writeMarker | .frameEnded => true
  | _ => false

/-- Inside `rt_frame_end`. -/
def framing : EmuPc → Bool
  | writeMarker | publishMarker | countHeld | wake .frameMarked | wakeLock .frameMarked | wakeBroadcast .frameMarked
  | wakeUnlock .frameMarked => true
  | pc => pc.after.any endsFrame

end EmuPc

/-! ## What the render thread is about to do -/

/-- The items whose execution is still to come. -/
def State.left (s : State) (items : List Item) : List Item :=
  match s.render with
  | .advance _ => items.tail
  | _ => items

def Reading (items : List Item) : RenderPc → Prop
  | .fetch => items ≠ []
  | .exec c => ∃ p rest, items = .cmd c p :: rest
  | .marker c => ∃ seq rest, items = .frame seq :: rest ∧ c = (Item.frame seq).header
  | .advance n => ∃ it rest, items = it :: rest ∧ n = it.size
  | _ => True

/-! ## The invariant -/

/-- The ring from the consumer's position to the producer's. -/
structure Ring (cfg : Config) (s : State) (items : List Item) : Prop where
  laid : Laid cfg.cap s.mem s.rpos items s.wpos
  aligned : 16 ∣ s.rpos
  valid : ∀ it ∈ items, it.Valid
  reading : Reading items s.render
  delivered : s.committed = s.executed ++ Item.commands (s.left items)
  frames : s.framesProduced = s.framesConsumed + Item.frames (s.left items) + s.emu.marking

/-- The emulation thread has looked at what it goes on with, and is not too many frames ahead. -/
structure Placed (cfg : Config) (s : State) (pc : EmuPc) : Prop where
  awaited : ∀ p k, pc.waiting = some (p, k) → Awaited cfg s p k
  granted : ∀ k, pc.granted = some k → Granted cfg s k
  bound : pc.framing = false → s.framesProduced ≤ s.framesConsumed + cfg.maxFrames

structure Producer (cfg : Config) (s : State) : Prop extends Placed cfg s s.emu where
  marker : s.emu = .publishMarker → s.pending = false ∧ s.wpos + 16 ≤ s.rpos + cfg.cap ∧
    ∃ seq, load s.mem (s.wpos % cfg.cap) 16 = (Item.frame seq).header.emit
  counted : s.emu = .countHeld → s.framesProduced ≤ s.framesConsumed + cfg.maxFrames + 1
  pended : s.pending = true → Pended cfg s

/-! ## A step of the render thread -/

section Render
variable {cfg : Config} {s s' : State} {items : List Item}

/-- What the render thread leaves alone, and what only grows. -/
theorem render_keeps (hs : RenderStep cfg s s') :
    s'.mem = s.mem ∧ s'.wpos = s.wpos ∧ s.rpos ≤ s'.rpos ∧ s'.framesProduced = s.framesProduced ∧
      s.framesConsumed ≤ s'.framesConsumed ∧ s'.pending = s.pending ∧ s'.pendStart = s.pendStart ∧ s'.pend = s.pend ∧
      (s'.emu = s.emu ∨ s'.emu = s.emu.woken) := by
  cases hs <;> simp

theorem EmuPc.woken_granted (pc : EmuPc) : pc.woken.granted = pc.granted := by cases pc <;> rfl
theorem EmuPc.woken_marking (pc : EmuPc) : pc.woken.marking = pc.marking := by cases pc <;> rfl
theorem EmuPc.woken_framing (pc : EmuPc) : pc.woken.framing = pc.framing := by cases pc <;> rfl

theorem Producer.render_step (h : Producer cfg s) (hs : RenderStep cfg s s') : Producer cfg s' := by
  obtain ⟨hmem, hw, hr, hp, hc, hpending, hstart, hpend, hemu⟩ := render_keeps hs
  have hwaiting : s'.emu.waiting = s.emu.waiting := by
    rcases hemu with heq | heq <;> rw [heq]
    exact s.emu.woken_waiting
  have hgranted : s'.emu.granted = s.emu.granted := by
    rcases hemu with heq | heq <;> rw [heq]
    exact s.emu.woken_granted
  have hframing : s'.emu.framing = s.emu.framing := by
    rcases hemu with heq | heq <;> rw [heq]
    exact s.emu.woken_framing
  have hplace (pc : EmuPc) (hne : ∀ q : EmuPc, q.woken = pc → q = pc) (h' : s'.emu = pc) : s.emu = pc := by
    rcases hemu with heq | heq
    · rwa [← heq]
    · exact hne _ (heq ▸ h')
  refine ⟨⟨fun p k hwait => ?_, fun k hk => ?_, fun hf => ?_⟩, fun hpc => ?_, fun hpc => ?_, fun hpd => ?_⟩
  · have hold := h.awaited p k (hwaiting ▸ hwait)
    cases k <;> simpa only [Awaited, hw, hpending] using hold
  · have hold := h.granted k (hgranted ▸ hk)
    cases k <;> simp only [Granted, hw, hpending, hp] at hold ⊢
    · exact ⟨hold.1, hold.2.1, hold.2.2.1, by omega⟩
    · exact ⟨hold.1, by omega⟩
    · omega
  · have hold := h.bound (hframing ▸ hf)
    omega
  · have hold := h.marker (hplace _ (fun q hq => by cases q <;> cases hq; rfl) hpc)
    rw [hpending, hw, hmem]
    exact ⟨hold.1, by omega, hold.2.2⟩
  · have hold := h.counted (hplace _ (fun q hq => by cases q <;> cases hq; rfl) hpc)
    omega
  · have hold := h.pended (hpending ▸ hpd)
    exact ⟨by rw [hmem, hw, hstart]; exact hold.filler, by rw [hstart, hpend]; have := hold.room; omega,
      by rw [hstart, hpend]; exact hold.whole, by rw [hmem, hstart, hpend]; exact hold.header,
      by rw [hpend]; exact hold.fits, by rw [hpend]; exact hold.aligned, by rw [hpend]; exact hold.command⟩

/-- Where the consumer fetches there is an item, and the record it finds is the item's. -/
theorem Ring.fetched (h : Ring cfg s items) (hpc : s.render = .fetch) :
    ∃ it rest, items = it :: rest ∧ RtCmd.read s.mem (s.rpos % cfg.cap) = it.header := by
  have hreading := h.reading
  rw [hpc] at hreading
  obtain ⟨it, rest, rfl⟩ := List.exists_cons_of_ne_nil hreading
  exact ⟨it, rest, rfl, RtCmd.read_of_load h.laid.1.header⟩

/-- A step that neither takes up a record nor gets rid of one. -/
theorem Ring.move (h : Ring cfg s items) (hlaid : Laid cfg.cap s'.mem s'.rpos items s'.wpos) (hr : s'.rpos = s.rpos)
    (hread : Reading items s'.render) (hleft : s'.left items = s.left items) (hc : s'.committed = s.committed)
    (he : s'.executed = s.executed)
    (hf : s'.framesProduced + s.framesConsumed + s.emu.marking =
      s.framesProduced + s'.framesConsumed + s'.emu.marking) : Ring cfg s' items := by
  have hframes := h.frames
  refine ⟨hlaid, hr ▸ h.aligned, h.valid, hread, ?_, ?_⟩
  · rw [hc, he, hleft]
    exact h.delivered
  · rw [hleft]
    omega

theorem Ring.render_step (h : Ring cfg s items) (hs : RenderStep cfg s s') : ∃ items', Ring cfg s' items' := by
  have hleft (hne : ∀ n, s.render ≠ .advance n) : s.left items = items := by
    unfold State.left
    cases hpc : s.render <;> first | rfl | exact absurd hpc (hne _)
  cases hs with
  | topWork hpc hwork =>
    refine ⟨items, h.move h.laid rfl ?_ ?_ rfl rfl rfl⟩
    · intro hnil
      have hlaid := h.laid
      rw [hnil] at hlaid
      exact hwork hlaid.symm
    · exact (hleft (by simp [hpc])).symm
  | fetchCmd c hpc hc hop =>
    obtain ⟨it, rest, hitems, hhead⟩ := h.fetched hpc
    refine ⟨items, h.move h.laid rfl ?_ (hleft (by simp [hpc])).symm rfl rfl rfl⟩
    cases it with
    | pad n => rw [hc, hhead] at hop; exact absurd rfl hop
    | frame seq => rw [hc, hhead] at hop; exact absurd rfl hop
    | cmd c' p => exact ⟨p, rest, by rw [hc, hhead, hitems]; rfl⟩
  | fetchMarker c hpc hc hop hflag =>
    obtain ⟨it, rest, hitems, hhead⟩ := h.fetched hpc
    refine ⟨items, h.move h.laid rfl ?_ (hleft (by simp [hpc])).symm rfl rfl rfl⟩
    cases it with
    | pad n =>
      rw [hc, hhead] at hflag
      exact absurd (show (0x0000#16 &&& 0x8000#16 : BitVec 16) = 0 by decide) hflag
    | frame seq => exact ⟨seq, rest, hitems, hc.trans hhead⟩
    | cmd c' p =>
      rw [hc, hhead] at hop
      exact absurd hop (h.valid (.cmd c' p) (by rw [hitems]; exact List.mem_cons_self)).1
  | fetchPad c hpc hc hop hflag =>
    obtain ⟨it, rest, hitems, hhead⟩ := h.fetched hpc
    have hsize : c.size.toNat = it.size := by rw [hc, hhead]; rfl
    have hd := h.delivered
    have hf := h.frames
    rw [hleft (by simp [hpc]), hitems] at hd hf
    cases it with
    | pad n =>
      refine ⟨items, h.laid, h.aligned, h.valid, ⟨_, rest, hitems, hsize⟩, ?_, ?_⟩
      · rw [hitems]
        exact hd
      · rw [hitems]
        exact hf
    | frame seq =>
      rw [hc, hhead] at hflag
      exact absurd hflag (show (0x8000#16 &&& 0x8000#16 : BitVec 16) ≠ 0 by decide)
    | cmd c' p =>
      rw [hc, hhead] at hop
      exact absurd hop (h.valid (.cmd c' p) (by rw [hitems]; exact List.mem_cons_self)).1
  | exec c hpc =>
    have hreading := h.reading
    rw [hpc] at hreading
    obtain ⟨p, rest, hitems⟩ := hreading
    have hd := h.delivered
    have hf := h.frames
    rw [hleft (by simp [hpc]), hitems] at hd hf
    have hstored : (Item.cmd c p).Stored cfg.cap s.mem (s.rpos % cfg.cap) := by
      have hlaid := h.laid
      rw [hitems] at hlaid
      exact hlaid.1
    have hvalid := h.valid (.cmd c p) (by rw [hitems]; exact List.mem_cons_self)
    refine ⟨items, h.laid, h.aligned, h.valid, ⟨_, rest, hitems, rfl⟩, ?_, ?_⟩
    · have hbytes : load s.mem (s.rpos % cfg.cap + 16) c.payload.toNat = p := by
        rw [← hvalid.2]
        exact hstored.payload
      simp only [State.left, hitems, List.tail_cons, hbytes]
      rw [hd, Item.commands, List.append_assoc, List.singleton_append]
    · simp only [State.left, hitems, List.tail_cons]
      exact hf
  | marker c hpc =>
    have hreading := h.reading
    rw [hpc] at hreading
    obtain ⟨seq, rest, hitems, hc⟩ := hreading
    have hd := h.delivered
    have hf := h.frames
    rw [hleft (by simp [hpc]), hitems] at hd hf
    refine ⟨items, h.laid, h.aligned, h.valid, ⟨_, rest, hitems, by rw [hc]; rfl⟩, ?_, ?_⟩
    · simp only [State.left, hitems, List.tail_cons]
      exact hd
    · simp only [State.left, hitems, List.tail_cons]
      rw [Item.frames] at hf
      omega
  | advance n hpc =>
    have hreading := h.reading
    rw [hpc] at hreading
    obtain ⟨it, rest, hitems, hn⟩ := hreading
    have hd := h.delivered
    have hf := h.frames
    have hlaid := h.laid
    have hvalid := h.valid
    simp only [State.left, hpc, hitems, List.tail_cons] at hd hf
    rw [hitems] at hlaid hvalid
    refine ⟨rest, ?_, ?_, fun it' hit => hvalid it' (List.mem_cons_of_mem _ hit), trivial, hd, hf⟩
    · rw [hn]
      exact hlaid.2
    · exact Nat.dvd_add h.aligned (hn ▸ hlaid.1.aligned)
  | serveBroadcast hpc | wakeBroadcast hpc =>
    exact ⟨items, h.move h.laid rfl trivial (hleft (by simp [hpc])).symm rfl rfl
      (by show _ + s.emu.marking = _ + s.emu.woken.marking; rw [EmuPc.woken_marking])⟩
  | _ => exact ⟨items, h.move h.laid rfl trivial (hleft (by simp [‹s.render = _›])).symm rfl rfl rfl⟩

end Render

/-! ## A step of the emulation thread -/

section Emu
variable {cfg : Config} {s s' : State} {items : List Item} {pc : EmuPc}

/-- The byte that is filled in, as a position. -/
theorem Pended.fill_place (h : Pended cfg s) {i : ℕ} (hi : i < s.pend.payload.toNat) :
    (s.pendStart + (16 + i)) % cfg.cap = s.pendStart % cfg.cap + 16 + i := by
  have hwhole := h.whole
  have hfits := h.fits
  rw [Nat.add_mod, Nat.mod_eq_of_lt (show 16 + i < cfg.cap by omega), Nat.mod_eq_of_lt (by omega), Nat.add_assoc]

theorem Pended.le (h : Pended cfg s) : s.wpos ≤ s.pendStart := by
  obtain ⟨pads, hlaid, -⟩ := h.filler
  exact hlaid.le

theorem Pended.fill (h : Pended cfg s) (hle : s.rpos ≤ s.wpos) {i : ℕ} (hi : i < s.pend.payload.toNat) (b : BitVec 8) :
    Pended cfg { s with mem := store s.mem (s.pendStart % cfg.cap + 16 + i) [b] } := by
  have hwhole := h.whole
  have hfits := h.fits
  have hroom := h.room
  obtain ⟨pads, hlaid, hrest⟩ := h.filler
  refine ⟨⟨pads, ?_, hrest⟩, hroom, hwhole, ?_, hfits, h.aligned, h.command⟩
  · show Laid cfg.cap (store s.mem (s.pendStart % cfg.cap + 16 + i) [b]) _ _ _
    rw [← h.fill_place hi]
    refine hlaid.ahead (by omega) ?_ ?_
    · rw [List.length_singleton]
      omega
    · rw [h.fill_place hi, List.length_singleton]
      omega
  · show load (store s.mem (s.pendStart % cfg.cap + 16 + i) [b]) (s.pendStart % cfg.cap) 16 = s.pend.emit
    rw [load_congr fun a _ ha => store_apart (Or.inl (by omega))]
    exact h.header

/-- The record of a pending command, as it will be read. -/
def State.pended (cfg : Config) (s : State) : Item :=
  .cmd s.pend (load s.mem (s.pendStart % cfg.cap + 16) s.pend.payload.toNat)

theorem Pended.stored (h : Pended cfg s) : (s.pended cfg).Stored cfg.cap s.mem (s.pendStart % cfg.cap) := by
  refine ⟨h.whole, ?_, h.aligned, h.header, ?_⟩
  · simp only [State.pended, Item.payload, load_length]
    exact h.fits
  · simp only [State.pended, Item.payload, load_length]

section Begun
variable {op flags : BitVec 16} {payload : BitVec 32}

/-- What `rt_cmd_begin` writes stands ahead of what is unread, and behind the filler in one piece. -/
theorem begun_pended (hg : Granted cfg s (.writeCmd op flags payload)) (hle : s.rpos ≤ s.wpos) (hw : 16 ∣ s.wpos) :
    Pended cfg (s.begun cfg op flags payload) ∧
      ∀ x, s.rpos ≤ x → x < s.wpos → (s.begun cfg op flags payload).mem (x % cfg.cap) = s.mem (x % cfg.cap) := by
  obtain ⟨hop, hsize, -, hroom⟩ := hg
  obtain ⟨hwhole, hpad16, hpad⟩ := padFor_spec cfg hw (recordSize_dvd payload) hsize
  have hcap := cfg.cap_bounds
  have hpayload := recordSize_le payload
  have hfull : (BitVec.ofNat 32 (recordSize payload)).toNat = recordSize payload :=
    Nat.mod_eq_of_lt (by omega)
  unfold State.begun
  dsimp only
  generalize hpd : padFor cfg.cap s.wpos (recordSize payload) = pad at *
  generalize hhead : (⟨BitVec.ofNat 32 (recordSize payload), op, flags, payload, s.seq⟩ : RtCmd) = c
  have hlen : c.emit.length = 16 := c.emit_length
  -- the filler first
  obtain ⟨mem, hmem, hfiller, hkeep⟩ : ∃ mem, (if pad = 0 then s.mem
      else store s.mem (s.wpos % cfg.cap) (RtCmd.emit ⟨BitVec.ofNat 32 pad, 0, 0, 0, 0⟩)) = mem ∧
      (∃ pads, Laid cfg.cap mem s.wpos pads (s.wpos + pad) ∧ Item.commands pads = [] ∧ Item.frames pads = 0 ∧
        ∀ it ∈ pads, it.Valid) ∧
      ∀ x, s.rpos ≤ x → x < s.wpos → mem (x % cfg.cap) = s.mem (x % cfg.cap) := by
    by_cases hzero : pad = 0
    · refine ⟨s.mem, if_pos hzero, ⟨[], hzero ▸ rfl, rfl, rfl, fun _ h => by cases h⟩, fun _ _ _ => rfl⟩
    · obtain ⟨hend, hmin, hfit⟩ := hpad hzero
      have hpadnat : (BitVec.ofNat 32 pad).toNat = pad := Nat.mod_eq_of_lt hfit
      refine ⟨_, if_neg hzero, ⟨[.pad pad], ⟨⟨?_, ?_, ?_, ?_, rfl⟩, ?_⟩, rfl, rfl, ?_⟩, fun x h1 h2 => ?_⟩
      · show s.wpos % cfg.cap + (BitVec.ofNat 32 pad).toNat ≤ cfg.cap
        omega
      · show 16 + 0 ≤ (BitVec.ofNat 32 pad).toNat
        omega
      · show 16 ∣ (BitVec.ofNat 32 pad).toNat
        omega
      · exact RtCmd.load_store ..
      · show s.wpos + (BitVec.ofNat 32 pad).toNat = s.wpos + pad
        omega
      · simp [Item.Valid]
      · refine store_ahead h2 ?_ ?_
        all_goals rw [RtCmd.emit_length]; omega
  rw [hmem]
  have hstart : s.wpos + pad + c.emit.length ≤ s.rpos + cfg.cap := by omega
  have hpiece : (s.wpos + pad) % cfg.cap + c.emit.length ≤ cfg.cap := by omega
  refine ⟨⟨?_, ?_, ?_, ?_, ?_, ?_, ?_⟩, fun x h1 h2 =>
    (store_ahead (by omega) (by omega) hpiece).trans (hkeep x h1 h2)⟩
  · obtain ⟨pads, hlaid, hrest⟩ := hfiller
    exact ⟨pads, hlaid.ahead le_rfl (by omega) hpiece, hrest⟩
  · show s.wpos + pad + c.size.toNat ≤ s.rpos + cfg.cap
    rw [← hhead]
    show _ + (BitVec.ofNat 32 (recordSize payload)).toNat ≤ _
    omega
  · show (s.wpos + pad) % cfg.cap + c.size.toNat ≤ cfg.cap
    rw [← hhead]
    show _ + (BitVec.ofNat 32 (recordSize payload)).toNat ≤ _
    omega
  · show load (store mem ((s.wpos + pad) % cfg.cap) c.emit) ((s.wpos + pad) % cfg.cap) 16 = c.emit
    exact RtCmd.load_store ..
  · show 16 + c.payload.toNat ≤ c.size.toNat
    rw [← hhead]
    show 16 + payload.toNat ≤ (BitVec.ofNat 32 (recordSize payload)).toNat
    omega
  · show 16 ∣ c.size.toNat
    rw [← hhead]
    show 16 ∣ (BitVec.ofNat 32 (recordSize payload)).toNat
    rw [hfull]
    exact recordSize_dvd payload
  · show c.op ≠ 0
    rw [← hhead]
    exact hop

end Begun

theorem Placed.resume {k : After} (hg : Granted cfg s k)
    (hb : EmuPc.endsFrame k = false → s.framesProduced ≤ s.framesConsumed + cfg.maxFrames) : Placed cfg s k.resume := by
  refine ⟨fun p k' hw => ?_, fun k' hk => ?_, fun hf => ?_⟩
  · cases k <;> cases hw
  · cases k <;> cases hk <;> exact hg
  · cases k <;> first | exact hg | exact hb rfl | cases hf

theorem Placed.resumeWake {k : AfterWake} (h : Placed cfg s (.wake k)) : Placed cfg s (k.resume cfg) := by
  cases k with
  | wait p k => exact ⟨h.awaited, h.granted, h.bound⟩
  | committed => exact ⟨h.awaited, h.granted, h.bound⟩
  | frameMarked =>
    refine ⟨fun p k hw => ?_, fun k hk => (by cases hk), fun hf => (by cases hf)⟩
    cases hw
    rfl

/-- The emulation thread is elsewhere, and the rest as it was. -/
theorem Producer.move (h : Producer cfg s) (hmem : s'.mem = s.mem) (hw : s'.wpos = s.wpos) (hr : s'.rpos = s.rpos)
    (hp : s'.framesProduced = s.framesProduced) (hc : s'.framesConsumed = s.framesConsumed)
    (hpending : s'.pending = s.pending) (hstart : s'.pendStart = s.pendStart) (hpend : s'.pend = s.pend)
    (hplaced : Placed cfg s s'.emu) (hmarker : s'.emu ≠ .publishMarker) (hcount : s'.emu ≠ .countHeld) :
    Producer cfg s' := by
  refine ⟨⟨fun p k hwait => ?_, fun k hk => ?_, fun hf => ?_⟩, fun hpc => absurd hpc hmarker,
    fun hpc => absurd hpc hcount, fun hpd => ?_⟩
  · have hsame : Awaited cfg s' p k = Awaited cfg s p k := by cases k <;> simp only [Awaited, hw, hpending]
    rw [hsame]
    exact hplaced.awaited p k hwait
  · have hsame : Granted cfg s' k = Granted cfg s k := by cases k <;> simp only [Granted, hw, hr, hpending, hp, hc]
    rw [hsame]
    exact hplaced.granted k hk
  · rw [hp, hc]
    exact hplaced.bound hf
  · have hold := h.pended (hpending ▸ hpd)
    exact ⟨by rw [hmem, hw, hstart]; exact hold.filler, by rw [hstart, hpend, hr]; exact hold.room,
      by rw [hstart, hpend]; exact hold.whole, by rw [hmem, hstart, hpend]; exact hold.header,
      by rw [hpend]; exact hold.fits, by rw [hpend]; exact hold.aligned, by rw [hpend]; exact hold.command⟩

theorem Producer.emu_step (h : Producer cfg s) (hring : Ring cfg s items) (hs : EmuStep cfg s s') : Producer cfg s' := by
  have hplace : Placed cfg s s.emu := h.toPlaced
  cases hs with
  | begin op flags payload hpc hpending _ hop hsize =>
    rw [hpc] at hplace
    refine h.move rfl rfl rfl rfl rfl rfl rfl rfl ⟨fun p k hw => ?_, fun k hk => (by cases hk), fun _ => hplace.bound rfl⟩
      EmuPc.noConfusion EmuPc.noConfusion
    cases hw
    exact ⟨hop, hsize, hpending, rfl⟩
  | drain hpc | acquire hpc | requestUnlock hpc =>
    rw [hpc] at hplace
    refine h.move rfl rfl rfl rfl rfl rfl rfl rfl ⟨fun p k hw => ?_, fun k hk => (by cases hk), fun _ => hplace.bound rfl⟩
      EmuPc.noConfusion EmuPc.noConfusion
    cases hw
    rfl
  | checkTrue p k hpc htrue | enterTrue p k hpc htrue =>
    rw [hpc] at hplace
    refine h.move rfl rfl rfl rfl rfl rfl rfl rfl
      (Placed.resume ((hplace.awaited p k rfl).granted htrue) fun hk => hplace.bound ?_) ?_ ?_
    · exact hk
    all_goals cases k <;> exact EmuPc.noConfusion
  | unlock k hpc =>
    rw [hpc] at hplace
    refine h.move rfl rfl rfl rfl rfl rfl rfl rfl
      (Placed.resume (hplace.granted k rfl) fun hk => hplace.bound ?_) ?_ ?_
    · exact hk
    all_goals cases k <;> exact EmuPc.noConfusion
  | testTrue p k hpc htrue =>
    rw [hpc] at hplace
    refine h.move rfl rfl rfl rfl rfl rfl rfl rfl ⟨fun p k hw => (by cases hw), fun k' hk => ?_, hplace.bound⟩
      EmuPc.noConfusion EmuPc.noConfusion
    cases hk
    exact (hplace.awaited p k rfl).granted htrue
  | wakeBatched k hpc | wakeAwake k hpc | wakeUnlock k hpc =>
    rw [hpc] at hplace
    refine h.move rfl rfl rfl rfl rfl rfl rfl rfl (Placed.resumeWake ?_) ?_ ?_
    · cases k <;> exact ⟨hplace.awaited, hplace.granted, hplace.bound⟩
    all_goals cases k <;> exact EmuPc.noConfusion
  | wakeSleeping k hpc | wakeLock k hpc | wakeBroadcast k hpc =>
    rw [hpc] at hplace
    refine h.move rfl rfl rfl rfl rfl rfl rfl rfl ?_ EmuPc.noConfusion EmuPc.noConfusion
    cases k <;> exact ⟨hplace.awaited, hplace.granted, hplace.bound⟩
  | fill i b hpc hpending hi =>
    refine ⟨⟨fun p k hw => ?_, fun k hk => ?_, h.bound⟩, fun hm => EmuPc.noConfusion (hpc.symm.trans hm),
      fun hm => EmuPc.noConfusion (hpc.symm.trans hm), fun _ => (h.pended hpending).fill hring.laid.le hi b⟩
    · change s.emu.waiting = _ at hw
      rw [hpc] at hw
      cases hw
    · change s.emu.granted = _ at hk
      rw [hpc] at hk
      cases hk
  | commit hpc =>
    rw [hpc] at hplace
    exact ⟨⟨fun p k hw => (by cases hw), fun k hk => (by cases hk), fun _ => hplace.bound rfl⟩, EmuPc.noConfusion,
      EmuPc.noConfusion, fun hp => Bool.noConfusion hp⟩
  | frameEnd hpc hpending =>
    refine ⟨⟨fun p k hw => ?_, fun k hk => (by cases hk), fun hf => (by cases hf)⟩, EmuPc.noConfusion, EmuPc.noConfusion,
      fun hp => absurd (hpending.symm.trans hp) Bool.noConfusion⟩
    cases hw
    exact ⟨hpending, rfl⟩
  | frameEndHeld hpc hpending =>
    rw [hpc] at hplace
    have hbound := hplace.bound rfl
    refine ⟨⟨fun p k hw => (by cases hw), fun k hk => (by cases hk), fun hf => (by cases hf)⟩, EmuPc.noConfusion,
      fun _ => ?_, fun hp => absurd (hpending.symm.trans hp) Bool.noConfusion⟩
    show s.framesProduced + 1 ≤ s.framesConsumed + cfg.maxFrames + 1
    omega
  | countHeld hpc =>
    have hcounted := h.counted hpc
    refine ⟨⟨fun p k hw => (by cases hw), fun k hk => (by cases hk), fun _ => ?_⟩, EmuPc.noConfusion, EmuPc.noConfusion,
      fun hp => ?_⟩
    · show s.framesProduced ≤ s.framesConsumed + 1 + cfg.maxFrames
      omega
    · have hold := h.pended hp
      exact ⟨hold.filler, hold.room, hold.whole, hold.header, hold.fits, hold.aligned, hold.command⟩
  | writeCmd op flags payload hpc =>
    rw [hpc] at hplace
    exact ⟨⟨fun p k hw => (by cases hw), fun k hk => (by cases hk), fun _ => hplace.bound rfl⟩, EmuPc.noConfusion,
      EmuPc.noConfusion, fun _ => (begun_pended (hplace.granted _ rfl) hring.laid.le (hring.laid.aligned hring.aligned)).1⟩
  | writeMarker hpc =>
    rw [hpc] at hplace
    obtain ⟨hpending, hroom⟩ := hplace.granted _ rfl
    exact ⟨⟨fun p k hw => (by cases hw), fun k hk => (by cases hk), fun hf => (by cases hf)⟩,
      fun _ => ⟨hpending, hroom, s.seq, RtCmd.load_store ..⟩, EmuPc.noConfusion,
      fun hp => absurd (hpending.symm.trans hp) Bool.noConfusion⟩
  | publishMarker hpc =>
    obtain ⟨hpending, -⟩ := h.marker hpc
    exact ⟨⟨fun p k hw => (by cases hw), fun k hk => (by cases hk), fun hf => (by cases hf)⟩, EmuPc.noConfusion,
      EmuPc.noConfusion, fun hp => absurd (hpending.symm.trans hp) Bool.noConfusion⟩
  | _ =>
    rw [‹s.emu = _›] at hplace
    exact h.move rfl rfl rfl rfl rfl rfl rfl rfl ⟨hplace.awaited, hplace.granted, hplace.bound⟩
      EmuPc.noConfusion EmuPc.noConfusion

theorem reading_append {r : RenderPc} (h : Reading items r) (more : List Item) : Reading (items ++ more) r := by
  cases r with
  | fetch => exact List.append_ne_nil_of_left_ne_nil h more
  | exec c =>
    obtain ⟨p, rest, rfl⟩ := h
    exact ⟨p, rest ++ more, rfl⟩
  | marker c =>
    obtain ⟨seq, rest, rfl, hc⟩ := h
    exact ⟨seq, rest ++ more, rfl, hc⟩
  | advance n =>
    obtain ⟨it, rest, rfl, hn⟩ := h
    exact ⟨it, rest ++ more, rfl, hn⟩
  | _ => trivial

theorem left_append (h : Reading items s.render) (more : List Item) :
    s.left (items ++ more) = s.left items ++ more := by
  unfold State.left
  cases hpc : s.render with
  | advance n =>
    rw [hpc] at h
    obtain ⟨it, rest, rfl, -⟩ := h
    rfl
  | _ => rfl

theorem reading_woken {r : RenderPc} (h : Reading items r) : Reading items r.woken := by
  cases r <;> exact h

theorem left_woken (hr : s'.render = s.render.woken) : s'.left items = s.left items := by
  unfold State.left
  rw [hr]
  cases s.render <;> rfl

/-- Some items more at the end. -/
theorem Ring.extend (h : Ring cfg s items) {more : List Item} (hmem : s'.mem = s.mem)
    (hmore : Laid cfg.cap s.mem s.wpos more s'.wpos) (hvalid : ∀ it ∈ more, it.Valid) (hr : s'.rpos = s.rpos)
    (hrender : s'.render = s.render) (hc : s'.committed = s.committed ++ Item.commands more)
    (he : s'.executed = s.executed)
    (hp : s'.framesProduced = s.framesProduced) (hcons : s'.framesConsumed = s.framesConsumed)
    (hf : s.emu.marking = Item.frames more + s'.emu.marking) : Ring cfg s' (items ++ more) := by
  have hleft : s'.left (items ++ more) = s.left items ++ more := by
    rw [show s'.left (items ++ more) = s.left (items ++ more) by unfold State.left; rw [hrender]]
    exact left_append h.reading more
  have hframes := h.frames
  refine ⟨by rw [hmem, hr]; exact h.laid.append hmore, hr ▸ h.aligned, fun it hit => ?_,
    hrender ▸ reading_append h.reading more, ?_, ?_⟩
  · rcases List.mem_append.1 hit with hit | hit
    · exact h.valid it hit
    · exact hvalid it hit
  · rw [hc, he, hleft, Item.commands_append, h.delivered, List.append_assoc]
  · rw [hleft, Item.frames_append]
    omega

/-- No byte between the positions is overwritten. -/
theorem Ring.unread (h : Ring cfg s items) (hprod : Producer cfg s) (hs : EmuStep cfg s s') {x : ℕ} (hx : s.rpos ≤ x)
    (hlt : x < s.wpos) : s'.mem (x % cfg.cap) = s.mem (x % cfg.cap) := by
  have hle := h.laid.le
  have haligned := h.laid.aligned h.aligned
  cases hs with
  | fill i b hpc hpending hi =>
    have hp := hprod.pended hpending
    have hstart := hp.le
    have hroom := hp.room
    have hwhole := hp.whole
    have hfits := hp.fits
    show store s.mem (s.pendStart % cfg.cap + 16 + i) [b] (x % cfg.cap) = _
    rw [← hp.fill_place hi]
    refine store_ahead (by omega) ?_ ?_
    · rw [List.length_singleton]
      omega
    · rw [hp.fill_place hi, List.length_singleton]
      omega
  | writeCmd op flags payload hpc =>
    exact (begun_pended (hprod.granted _ (by rw [hpc]; rfl)) hle haligned).2 x hx hlt
  | writeMarker hpc =>
    obtain ⟨-, hroom⟩ := hprod.granted .writeMarker (by rw [hpc]; rfl)
    have hoff := (Nat.dvd_mod_iff cfg.cap_dvd).2 haligned
    have hcap := cfg.cap_dvd
    have hmod : s.wpos % cfg.cap < cfg.cap := Nat.mod_lt _ (by have := cfg.cap_bounds; omega)
    refine store_ahead hlt ?_ ?_
    all_goals rw [RtCmd.emit_length]; omega
  | _ => rfl

theorem Ring.emu_step (h : Ring cfg s items) (hprod : Producer cfg s) (hs : EmuStep cfg s s') :
    ∃ items', Ring cfg s' items' := by
  have hlaid : Laid cfg.cap s'.mem s.rpos items s.wpos := h.laid.congr fun x h1 h2 => h.unread hprod hs h1 h2
  cases hs with
  | fill => exact ⟨items, h.move hlaid rfl h.reading rfl rfl rfl rfl⟩
  | writeCmd _ _ _ hpc | writeMarker hpc =>
    exact ⟨items, h.move hlaid rfl h.reading rfl rfl rfl (by rw [hpc]; rfl)⟩
  | commit hpc hpending =>
    have hp := hprod.pended hpending
    obtain ⟨pads, hlaid, hcommands, hframes, hvalid⟩ := hp.filler
    refine ⟨items ++ (pads ++ [s.pended cfg]), h.extend rfl (hlaid.snoc hp.stored) ?_ rfl rfl ?_ rfl rfl rfl ?_⟩
    · intro it hit
      rcases List.mem_append.1 hit with hit | hit
      · exact hvalid it hit
      · rw [List.mem_singleton.1 hit]
        exact ⟨hp.command, load_length ..⟩
    · rw [Item.commands_append, hcommands]
      rfl
    · rw [hpc, Item.frames_append, hframes]
      rfl
  | publishMarker hpc =>
    obtain ⟨-, hroom, seq, hload⟩ := hprod.marker hpc
    have hcap := cfg.cap_dvd
    have hoff := (Nat.dvd_mod_iff hcap).2 (h.laid.aligned h.aligned)
    have hlt : s.wpos % cfg.cap < cfg.cap := Nat.mod_lt _ (by have := cfg.cap_bounds; omega)
    have hstored : (Item.frame seq).Stored cfg.cap s.mem (s.wpos % cfg.cap) :=
      ⟨show s.wpos % cfg.cap + 16 ≤ cfg.cap by omega, le_rfl, ⟨1, rfl⟩, hload, rfl⟩
    have hmarker : Laid cfg.cap s.mem s.wpos [.frame seq] (s.wpos + 16) := ⟨hstored, rfl⟩
    refine ⟨items ++ [.frame seq], h.extend rfl hmarker ?_ rfl rfl ?_ rfl rfl rfl ?_⟩
    · simp [Item.Valid]
    · exact (List.append_nil _).symm
    · rw [hpc]
      rfl
  | frameEnd hpc | frameEndHeld hpc =>
    refine ⟨items, h.move h.laid rfl h.reading rfl rfl rfl ?_⟩
    rw [hpc]
    show s.framesProduced + 1 + s.framesConsumed + 0 = s.framesProduced + s.framesConsumed + 1
    omega
  | countHeld hpc =>
    refine ⟨items, h.move h.laid rfl h.reading rfl rfl rfl ?_⟩
    rw [hpc]
    show s.framesProduced + s.framesConsumed + 1 = s.framesProduced + (s.framesConsumed + 1) + 0
    omega
  | wakeBroadcast k hpc =>
    refine ⟨items, h.move h.laid rfl (reading_woken h.reading) (left_woken rfl) rfl rfl ?_⟩
    rw [hpc]
    cases k <;> rfl
  | requestBroadcast hpc | giveBroadcast hpc =>
    refine ⟨items, h.move h.laid rfl (reading_woken h.reading) (left_woken rfl) rfl rfl ?_⟩
    rw [hpc]
    rfl
  | checkTrue p k hpc | enterTrue p k hpc | unlock k hpc | wakeBatched k hpc | wakeAwake k hpc | wakeSleeping k hpc | wakeLock k hpc | wakeUnlock k hpc =>
    refine ⟨items, h.move h.laid rfl h.reading rfl rfl rfl ?_⟩
    rw [hpc]
    cases k <;> rfl
  | _ => exact ⟨items, h.move h.laid rfl h.reading rfl rfl rfl (by rw [‹s.emu = _›]; rfl)⟩

end Emu

end PsxRecomp.RenderThread
