import PsxRecomp.Library.RegionLog

/-! The VRAM journal of a render pass: the policy that clips a write and decides it, the rows that
are backed up, and the rollback. Whatever is written, what lies outside the pass comes back. -/
namespace PsxRecomp.PassJournal
set_option autoImplicit false

/-! ## Rectangles and rows -/

structure Rect where
  x : ℤ
  y : ℤ
  w : ℤ
  h : ℤ
deriving DecidableEq

def Rect.has (r : Rect) (px py : ℤ) : Prop := r.x ≤ px ∧ px < r.x + r.w ∧ r.y ≤ py ∧ py < r.y + r.h

instance (r : Rect) (px py : ℤ) : Decidable (r.has px py) := inferInstanceAs (Decidable (_ ∧ _))

/-- The comparison of the policy, of corners only. -/
def Rect.within (r s : Rect) : Prop := s.x ≤ r.x ∧ s.y ≤ r.y ∧ r.x + r.w ≤ s.x + s.w ∧ r.y + r.h ≤ s.y + s.h

instance (r s : Rect) : Decidable (r.within s) := inferInstanceAs (Decidable (_ ∧ _))

/-- Halfwords by their index. -/
abbrev Halfwords := ℕ → BitVec 16

/-- `memcpy(dst + d, src + s, n * sizeof(uint16_t))` -/
def memcpy (dst : Halfwords) (d : ℕ) (src : Halfwords) (s n : ℕ) : Halfwords :=
  fun k => if d ≤ k ∧ k < d + n then src (s + (k - d)) else dst k

/-- Rows of `w` halfwords, the row number `row` from `sAt row` to `dAt row`. -/
def copyRows (dAt sAt : ℕ → ℕ) (w n : ℕ) (src dst : Halfwords) : Halfwords :=
  (List.range n).foldl (fun dst row => memcpy dst (dAt row) src (sAt row) w) dst

/-- `(size_t)(y + row) * (size_t)vram_w + (size_t)x` -/
def vramRow (vramW : ℕ) (r : Rect) (row : ℕ) : ℕ := (r.y + row).toNat * vramW + r.x.toNat

/-! ## The journal -/

/-- `RENDER_PASS_JOURNAL_MAX` -/
def journalMax : ℕ := 64

structure Entry where
  rect : Rect
  rows : Halfwords

/-- The entries below `n`, oldest first. -/
abbrev Journal := List Entry

inductive Policy | allow | journal | refuse
deriving DecidableEq

def clip (vramW vramH : ℕ) (r : Rect) : Rect :=
  let r := if r.x < 0 then { r with w := r.w + r.x, x := 0 } else r
  let r := if r.y < 0 then { r with h := r.h + r.y, y := 0 } else r
  let r := if (vramW : ℤ) < r.x + r.w then { r with w := vramW - r.x } else r
  if (vramH : ℤ) < r.y + r.h then { r with h := vramH - r.y } else r

/-- The answer, and the rectangle as it is returned through the pointers. -/
def vramPolicy (j : Journal) (pass : Rect) (vramW vramH : ℕ) (canJournal : Bool) (r : Rect) : Policy × Rect :=
  if r.w ≤ 0 ∨ r.h ≤ 0 then (.allow, r)
  else
    let c := clip vramW vramH r
    if c.w ≤ 0 ∨ c.h ≤ 0 then (.allow, c)
    else if c.within pass then (.allow, c)
    else if !canJournal then (.refuse, c)
    else if j.any (fun e => decide (c.within e.rect)) then (.allow, c)
    else if journalMax ≤ j.length then (.refuse, c)
    -- the last entry is kept for a spill of the whole VRAM
    else if j.length = journalMax - 1 then (.journal, ⟨0, 0, vramW, vramH⟩)
    else (.journal, c)

/-- `none` is the return value -1; `room` tells whether the entry's buffer is there or could be
allocated. The new rows overwrite what the buffer held. -/
def journalAdd (room : Bool) (buffer : Halfwords) (j : Journal) (vram : Halfwords) (vramW : ℕ) (r : Rect) :
    Option Journal :=
  if journalMax ≤ j.length ∨ r.w ≤ 0 ∨ r.h ≤ 0 then none
  else if !room then none
  else some (j ++ [⟨r, copyRows (fun row => row * r.w.toNat) (vramRow vramW r) r.w.toNat r.h.toNat vram buffer⟩])

def putBack (vramW : ℕ) (e : Entry) (vram : Halfwords) : Halfwords :=
  copyRows (vramRow vramW e.rect) (fun row => row * e.rect.w.toNat) e.rect.w.toNat e.rect.h.toNat e.rows vram

/-- Newest first; the journal is empty afterwards. -/
def rollback (j : Journal) (vram : Halfwords) (vramW : ℕ) : Journal × Halfwords :=
  ([], j.reverse.foldl (fun v e => putBack vramW e v) vram)

/-! ## Runs of writes -/

/-- A pass over a VRAM of `vramW` by `vramH` pixels. -/
structure Pass where
  vramW : ℕ
  vramH : ℕ
  rect : Rect

structure State where
  journal : Journal
  vram : Halfwords

/-- A write of a rectangle: what it puts into each pixel, and what the journal finds when it has to
back the rectangle up. -/
structure Write where
  rect : Rect
  pixels : Halfwords
  canJournal : Bool
  room : Bool
  buffer : Halfwords

/-- The pixels of the rectangle that exist. -/
def paint (p : Pass) (w : Write) (vram : Halfwords) : Halfwords :=
  fun k => if k < p.vramW * p.vramH ∧ w.rect.has ↑(k % p.vramW) ↑(k / p.vramW) then w.pixels k else vram k

/-- A write happens after the answer ALLOW, or after JOURNAL and the backup of the returned rectangle. -/
def write (p : Pass) (s : State) (w : Write) : State :=
  match vramPolicy s.journal p.rect p.vramW p.vramH w.canJournal w.rect with
  | (.allow, _) => { s with vram := paint p w s.vram }
  | (.journal, r) =>
    match journalAdd w.room w.buffer s.journal s.vram p.vramW r with
    | some j => ⟨j, paint p w s.vram⟩
    | none => s
  | (.refuse, _) => s

def run (p : Pass) (vram : Halfwords) (ws : List Write) : State := ws.foldl (write p) ⟨[], vram⟩

/-! ## What the row copies do -/

theorem memcpy_inside {dst src : Halfwords} {d s n k : ℕ} (hk : k < n) :
    memcpy dst d src s n (d + k) = src (s + k) := by
  simp [memcpy, hk]

theorem memcpy_outside {dst src : Halfwords} {d s n k : ℕ} (hk : ¬(d ≤ k ∧ k < d + n)) :
    memcpy dst d src s n k = dst k := by
  simp only [memcpy, if_neg hk]

section Rows

variable {dAt sAt : ℕ → ℕ} {w n : ℕ} {src dst : Halfwords}

theorem copyRows_succ :
    copyRows dAt sAt w (n + 1) src dst = memcpy (copyRows dAt sAt w n src dst) (dAt n) src (sAt n) w := by
  simp [copyRows, List.range_succ]

theorem copyRows_outside {k : ℕ} (hk : ∀ row < n, ¬(dAt row ≤ k ∧ k < dAt row + w)) :
    copyRows dAt sAt w n src dst k = dst k := by
  induction n with
  | zero => rfl
  | succ n ih =>
    rw [copyRows_succ, memcpy_outside (hk n (Nat.lt_succ_self n))]
    exact ih fun row hrow => hk row (Nat.lt_succ_of_lt hrow)

/-- Rows that do not run into a later one keep what they were given. -/
theorem copyRows_inside {row col : ℕ} (hrow : row < n) (hcol : col < w)
    (hapart : ∀ later < n, row < later → dAt row + w ≤ dAt later) :
    copyRows dAt sAt w n src dst (dAt row + col) = src (sAt row + col) := by
  induction n with
  | zero => omega
  | succ n ih =>
    rw [copyRows_succ]
    rcases Nat.lt_succ_iff_lt_or_eq.1 hrow with hlt | rfl
    · have hend := hapart n (Nat.lt_succ_self n) hlt
      rw [memcpy_outside (by omega)]
      exact ih hlt fun later hlater => hapart later (Nat.lt_succ_of_lt hlater)
    · exact memcpy_inside hcol

end Rows

/-! ## Clipping and the policy -/

/-- A nonempty rectangle of existing pixels. -/
structure Rect.Inside (r : Rect) (vramW vramH : ℕ) : Prop where
  left : 0 ≤ r.x
  top : 0 ≤ r.y
  width : 0 < r.w
  height : 0 < r.h
  right : r.x + r.w ≤ vramW
  bottom : r.y + r.h ≤ vramH

variable {vramW vramH : ℕ} {r pass : Rect} {j : Journal} {canJournal : Bool}

theorem clip_has {px py : ℕ} (hx : px < vramW) (hy : py < vramH) :
    (clip vramW vramH r).has px py ↔ r.has px py := by
  simp only [clip, Rect.has]
  split_ifs <;> (try dsimp only at *) <;> omega

theorem clip_inside (hw : 0 < (clip vramW vramH r).w) (hh : 0 < (clip vramW vramH r).h) :
    (clip vramW vramH r).Inside vramW vramH := by
  revert hw hh
  simp only [clip]
  split_ifs <;> (try dsimp only at *) <;> intro hw hh <;> constructor <;> (try dsimp only) <;> omega

theorem Rect.within.has (h : r.within pass) {px py : ℤ} (hp : r.has px py) : pass.has px py := by
  simp only [Rect.within, Rect.has] at *
  omega

/-- What the policy says is said of every pixel of the write that exists. -/
inductive Decided (j : Journal) (pass : Rect) (vramW vramH : ℕ) (r : Rect) : Policy × Rect → Prop
  | allow (c : Rect) (covered : ∀ px py : ℕ, px < vramW → py < vramH → r.has px py →
      pass.has px py ∨ ∃ e ∈ j, e.rect.has px py) : Decided j pass vramW vramH r (.allow, c)
  | journal (c : Rect) (inside : c.Inside vramW vramH)
      (covers : ∀ px py : ℕ, px < vramW → py < vramH → r.has px py → c.has px py) :
      Decided j pass vramW vramH r (.journal, c)
  | refuse (c : Rect) : Decided j pass vramW vramH r (.refuse, c)

theorem vramPolicy_decided : Decided j pass vramW vramH r (vramPolicy j pass vramW vramH canJournal r) := by
  simp only [vramPolicy]
  split_ifs with hempty hclipped hpass hcan hheld hfull hlast
  · refine .allow _ fun px py _ _ hp => ?_
    simp only [Rect.has] at hp
    omega
  · refine .allow _ fun px py hx hy hp => ?_
    have hc := (clip_has hx hy).2 hp
    simp only [Rect.has] at hc
    omega
  · exact .allow _ fun px py hx hy hp => .inl (hpass.has ((clip_has hx hy).2 hp))
  · exact .refuse _
  · refine .allow _ fun px py hx hy hp => .inr ?_
    obtain ⟨e, he, hin⟩ := List.any_eq_true.1 hheld
    exact ⟨e, he, (of_decide_eq_true hin).has ((clip_has hx hy).2 hp)⟩
  · exact .refuse _
  · have hin : (clip vramW vramH r).Inside vramW vramH := clip_inside (by omega) (by omega)
    have hw : (0 : ℤ) < vramW := by have := hin.left; have := hin.width; have := hin.right; omega
    have hh : (0 : ℤ) < vramH := by have := hin.top; have := hin.height; have := hin.bottom; omega
    refine .journal _ ⟨le_rfl, le_rfl, hw, hh, by simp, by simp⟩ fun px py hx hy _ => ?_
    simp only [Rect.has]
    omega
  · have hin : (clip vramW vramH r).Inside vramW vramH := clip_inside (by omega) (by omega)
    exact .journal _ hin fun px py hx hy hp => (clip_has hx hy).2 hp

/-- A whole-VRAM entry covers whatever the clipping leaves. -/
theorem spilled_not_refused (hspill : ∃ e ∈ j, e.rect = ⟨0, 0, vramW, vramH⟩) :
    (vramPolicy j pass vramW vramH true r).1 ≠ .refuse := by
  obtain ⟨e, he, hrect⟩ := hspill
  simp only [vramPolicy]
  split_ifs with hempty hclipped hpass hcan hheld hfull hlast <;> try simp
  · simp at hcan
  · have hin := @clip_inside vramW vramH r (by omega) (by omega)
    refine hheld (List.any_eq_true.2 ⟨e, he, decide_eq_true ?_⟩)
    rw [hrect]
    exact ⟨hin.left, hin.top, by simpa using hin.right, by simpa using hin.bottom⟩

/-! ## Entries as copied regions -/

/-- The pixel `q` of the VRAM. -/
def view (vramW : ℕ) (v : Halfwords) (q : ℕ × ℕ) : BitVec 16 := v (q.2 * vramW + q.1)

def Entry.copy (e : Entry) : RegionLog.Copy (ℕ × ℕ) (BitVec 16) where
  region q := decide (e.rect.has q.1 q.2)
  content q := e.rows ((q.2 - e.rect.y.toNat) * e.rect.w.toNat + (q.1 - e.rect.x.toNat))

theorem vramRow_eq (vramW : ℕ) (x y w h row : ℕ) : vramRow vramW ⟨x, y, w, h⟩ row = (y + row) * vramW + x := by
  simp only [vramRow]
  norm_cast

theorem putBack_view {e : Entry} (he : e.rect.Inside vramW vramH) (v : Halfwords) {q : ℕ × ℕ}
    (hq : q.1 < vramW) : view vramW (putBack vramW e v) q = e.copy.giveBack (view vramW v) q := by
  obtain ⟨px, py⟩ := q
  obtain ⟨⟨x, y, w, h⟩, rows⟩ := e
  obtain ⟨hleft, htop, hw, hh, hright, -⟩ := he
  dsimp only at *
  lift x to ℕ using hleft
  lift y to ℕ using htop
  lift w to ℕ using hw.le
  lift h to ℕ using hh.le
  simp only [view, RegionLog.Copy.giveBack, Entry.copy, putBack, decide_eq_true_eq, Int.toNat_natCast]
  split_ifs with hin <;> simp only [Rect.has] at hin
  · have hk : py * vramW + px = vramRow vramW ⟨x, y, w, h⟩ (py - y) + (px - x) := by
      rw [vramRow_eq, show y + (py - y) = py by omega]
      omega
    rw [hk, copyRows_inside (by omega) (by omega)]
    intro later _ hlater
    have hnext := Nat.mul_le_mul_right vramW (show y + (py - y) + 1 ≤ y + later by omega)
    rw [vramRow_eq, vramRow_eq]
    rw [Nat.add_mul _ 1, Nat.one_mul] at hnext
    omega
  · apply copyRows_outside
    intro row hrow hk
    rw [vramRow_eq] at hk
    -- an index in a row of the rectangle is a pixel of the rectangle
    have hrows : py = y + row := by
      rcases Nat.lt_trichotomy py (y + row) with hlt | heq | hgt
      · have := Nat.mul_le_mul_right vramW (show py + 1 ≤ y + row from hlt)
        rw [Nat.add_mul _ 1, Nat.one_mul] at this
        omega
      · exact heq
      · have := Nat.mul_le_mul_right vramW (show y + row + 1 ≤ py from hgt)
        rw [Nat.add_mul _ 1, Nat.one_mul] at this
        omega
    rw [hrows] at hk
    omega

theorem journalAdd_eq {room : Bool} {buffer vram : Halfwords} {j' : Journal}
    (h : journalAdd room buffer j vram vramW r = some j') :
    j.length < journalMax ∧ ∃ e : Entry, e.rect = r ∧ j' = j ++ [e] ∧
      ∀ row col : ℕ, row < r.h.toNat → col < r.w.toNat →
        e.rows (row * r.w.toNat + col) = vram (vramRow vramW r row + col) := by
  simp only [journalAdd] at h
  split_ifs at h with hfull hroom
  refine ⟨by omega, _, rfl, (Option.some.inj h).symm, fun row col hrow hcol => ?_⟩
  apply copyRows_inside hrow hcol
  intro later _ hlater
  have hnext := Nat.mul_le_mul_right r.w.toNat hlater
  rw [Nat.succ_mul] at hnext
  exact hnext

/-- A new entry holds the pixels as they are. -/
theorem added_view {e : Entry} {vram : Halfwords} (he : e.rect.Inside vramW vramH)
    (hrows : ∀ row col : ℕ, row < e.rect.h.toNat → col < e.rect.w.toNat →
      e.rows (row * e.rect.w.toNat + col) = vram (vramRow vramW e.rect row + col))
    {q : ℕ × ℕ} (hq : e.copy.region q = true) : e.copy.content q = view vramW vram q := by
  obtain ⟨px, py⟩ := q
  obtain ⟨⟨x, y, w, h⟩, rows⟩ := e
  obtain ⟨hleft, htop, hw, hh, -, -⟩ := he
  dsimp only at *
  lift x to ℕ using hleft
  lift y to ℕ using htop
  lift w to ℕ using hw.le
  lift h to ℕ using hh.le
  have hin := of_decide_eq_true hq
  simp only [Rect.has] at hin
  simp only [Int.toNat_natCast] at hrows
  simp only [Entry.copy, view, Int.toNat_natCast]
  rw [hrows _ _ (by omega) (by omega), vramRow_eq, show y + (py - y) = py by omega]
  congr 1
  omega

/-! ## The invariant -/

/-- What every run keeps: few entries, all inside the VRAM, and the VRAM from before the first write
is what the journal gives back outside the pass. -/
structure Backed (p : Pass) (before : Halfwords) (s : State) : Prop where
  bounded : s.journal.length ≤ journalMax
  inside : ∀ e ∈ s.journal, e.rect.Inside p.vramW p.vramH
  gives : ∀ q : ℕ × ℕ, q.1 < p.vramW → q.2 < p.vramH → ¬ p.rect.has q.1 q.2 →
    RegionLog.restore (s.journal.reverse.map Entry.copy) (view p.vramW s.vram) q = view p.vramW before q

variable {p : Pass} {before : Halfwords} {s : State} {w : Write}

theorem rollback_view {j : Journal} (hj : ∀ e ∈ j, e.rect.Inside vramW vramH) (vram : Halfwords) {q : ℕ × ℕ}
    (hq : q.1 < vramW) : view vramW (rollback j vram vramW).2 q =
      RegionLog.restore (j.reverse.map Entry.copy) (view vramW vram) q := by
  have hall : ∀ log : List Entry, (∀ e ∈ log, e.rect.Inside vramW vramH) → ∀ vram : Halfwords,
      view vramW (log.foldl (fun v e => putBack vramW e v) vram) q =
        RegionLog.restore (log.map Entry.copy) (view vramW vram) q := by
    intro log hlog
    induction log with
    | nil => exact fun _ => rfl
    | cons e log ih =>
      intro vram
      rw [List.foldl_cons, ih (fun d hd => hlog d (List.mem_cons_of_mem e hd)), List.map_cons,
        RegionLog.restore_cons]
      apply RegionLog.restore_congr
      exact fun _ => putBack_view (hlog e List.mem_cons_self) vram hq
  exact hall j.reverse (fun e he => hj e (List.mem_reverse.1 he)) vram

theorem paint_outside {vram : Halfwords} {q : ℕ × ℕ} (hq : q.1 < p.vramW) (hout : ¬ w.rect.has q.1 q.2) :
    view p.vramW (paint p w vram) q = view p.vramW vram q := by
  have hcol : (q.2 * p.vramW + q.1) % p.vramW = q.1 := by
    rw [Nat.mul_add_mod', Nat.mod_eq_of_lt hq]
  have hrow : (q.2 * p.vramW + q.1) / p.vramW = q.2 := by
    rw [Nat.mul_comm, Nat.mul_add_div (by omega), Nat.div_eq_of_lt hq, Nat.add_zero]
  simp only [view, paint, hcol, hrow]
  exact if_neg fun h => hout h.2

/-- Cells that the log holds, or that the write leaves alone, come back as before. -/
theorem paint_restored {vram : Halfwords} {q : ℕ × ℕ} (hq : q.1 < p.vramW) {log : List Entry}
    (hheld : w.rect.has q.1 q.2 → ∃ e ∈ log, e.rect.has q.1 q.2) :
    RegionLog.restore (log.map Entry.copy) (view p.vramW (paint p w vram)) q =
      RegionLog.restore (log.map Entry.copy) (view p.vramW vram) q := by
  apply RegionLog.restore_congr
  intro hnone
  apply paint_outside hq
  intro hin
  obtain ⟨e, he, hhas⟩ := hheld hin
  have := hnone e.copy (List.mem_map_of_mem he)
  simp [Entry.copy, hhas] at this

theorem Backed.write (hs : Backed p before s) (w : Write) : Backed p before (write p s w) := by
  have hdecided := @vramPolicy_decided p.vramW p.vramH w.rect p.rect s.journal w.canJournal
  simp only [PassJournal.write]
  generalize vramPolicy s.journal p.rect p.vramW p.vramH w.canJournal w.rect = answer at hdecided
  cases hdecided with
  | allow c covered =>
    refine ⟨hs.bounded, hs.inside, fun q hx hy hout => ?_⟩
    dsimp only
    rw [paint_restored hx, hs.gives q hx hy hout]
    intro hin
    obtain ⟨e, he, hhas⟩ := (covered q.1 q.2 hx hy hin).resolve_left hout
    exact ⟨e, List.mem_reverse.2 he, hhas⟩
  | journal c inside covers =>
    dsimp only
    cases hadd : journalAdd w.room w.buffer s.journal s.vram p.vramW c with
    | none => exact hs
    | some j' =>
      obtain ⟨hroom, e, rfl, rfl, hrows⟩ := journalAdd_eq hadd
      refine ⟨?_, ?_, fun q hx hy hout => ?_⟩
      · simp only [List.length_append, List.length_singleton]
        omega
      · intro d hd
        rcases List.mem_append.1 hd with hold | hnew
        · exact hs.inside d hold
        · rw [List.mem_singleton.1 hnew]
          exact inside
      · dsimp only
        rw [paint_restored hx fun hin => ⟨e, by simp, covers q.1 q.2 hx hy hin⟩, List.reverse_append,
          List.reverse_singleton, List.singleton_append, List.map_cons,
          RegionLog.restore_copy (added_view inside hrows), hs.gives q hx hy hout]
  | refuse c => exact hs

theorem run_backed (p : Pass) (vram : Halfwords) (ws : List Write) : Backed p vram (run p vram ws) := by
  have hstart : Backed p vram ⟨[], vram⟩ := ⟨Nat.zero_le _, by simp, fun q _ _ _ => rfl⟩
  unfold run
  generalize (⟨[], vram⟩ : State) = s at hstart
  induction ws generalizing s with
  | nil => exact hstart
  | cons w ws ih => exact ih _ (hstart.write w)

/-- After any run of writes the rollback gives back every pixel outside the pass, the journal has at
most its limit of entries, and once it holds the whole VRAM no write that may be journaled is refused. -/
theorem rollback_exact (p : Pass) (vram : Halfwords) (ws : List Write) :
    (∀ px py : ℕ, px < p.vramW → py < p.vramH → ¬ p.rect.has px py →
      (rollback (run p vram ws).journal (run p vram ws).vram p.vramW).2 (py * p.vramW + px)
        = vram (py * p.vramW + px)) ∧
      (run p vram ws).journal.length ≤ journalMax ∧
      ((∃ e ∈ (run p vram ws).journal, e.rect = ⟨0, 0, p.vramW, p.vramH⟩) →
        ∀ r, (vramPolicy (run p vram ws).journal p.rect p.vramW p.vramH true r).1 ≠ .refuse) := by
  have hbacked := run_backed p vram ws
  refine ⟨fun px py hx hy hout => ?_, hbacked.bounded, fun hspill r => spilled_not_refused hspill⟩
  exact (rollback_view (q := (px, py)) hbacked.inside _ hx).trans (hbacked.gives (px, py) hx hy hout)

end PsxRecomp.PassJournal
