import Mathlib

/-! A circular store read as a list: the window of `n` cells from `start` on, round its end. -/
namespace PsxRecomp.RingWindow
set_option autoImplicit false

variable {α : Type*} {cap : ℕ}

def window (cells : ℕ → α) (cap start n : ℕ) : List α :=
  (List.range n).map fun i => cells ((start + i) % cap)

/-- Each value goes where the position stands, and the position goes round. -/
def writeAll (cap : ℕ) (cells : ℕ → α) (pos : ℕ) (values : List α) : (ℕ → α) × ℕ :=
  values.foldl (fun s x => (Function.update s.1 s.2 x, (s.2 + 1) % cap)) (cells, pos)

@[simp] theorem window_zero (cells : ℕ → α) (cap start : ℕ) : window cells cap start 0 = [] := rfl

@[simp] theorem window_length (cells : ℕ → α) (cap start n : ℕ) :
    (window cells cap start n).length = n := by
  simp [window]

theorem window_snoc (cells : ℕ → α) (cap start n : ℕ) :
    window cells cap start (n + 1) = window cells cap start n ++ [cells ((start + n) % cap)] := by
  simp [window, List.range_succ]

theorem window_cons (cells : ℕ → α) (cap start n : ℕ) :
    window cells cap start (n + 1) = cells (start % cap) :: window cells cap (start + 1) n := by
  simp only [window, List.range_succ_eq_map, List.map_cons, List.map_map, Nat.add_zero]
  congr 1
  refine List.map_congr_left fun i _ => ?_
  simp only [Function.comp, Nat.succ_eq_add_one]
  congr 2
  omega

/-- Where a window starts matters only round the store. -/
theorem window_mod (cells : ℕ → α) (cap start n : ℕ) :
    window cells cap (start % cap) n = window cells cap start n := by
  unfold window
  refine List.map_congr_left fun i _ => ?_
  rw [Nat.mod_add_mod]

theorem window_drop (cells : ℕ → α) (cap start n k : ℕ) :
    (window cells cap start n).drop k = window cells cap (start + k) (n - k) := by
  induction k generalizing start n with
  | zero => rfl
  | succ k ih =>
    cases n with
    | zero => simp
    | succ n =>
      rw [window_cons, List.drop_succ_cons, ih, Nat.succ_sub_succ,
        show start + 1 + k = start + (k + 1) by omega]

theorem window_congr {cells cells' : ℕ → α} {cap start n : ℕ}
    (h : ∀ i < n, cells ((start + i) % cap) = cells' ((start + i) % cap)) :
    window cells cap start n = window cells' cap start n :=
  List.map_congr_left fun i hi => h i (List.mem_range.1 hi)

/-- Fewer than `cap` places apart, two places are two cells. -/
theorem place_ne (start : ℕ) {i n : ℕ} (hi : i < n) (hn : n < cap) :
    (start + i) % cap ≠ (start + n) % cap := by
  intro heq
  have hdvd : cap ∣ (start + n) - (start + i) :=
    Nat.dvd_of_mod_eq_zero (Nat.sub_mod_eq_zero_of_mod_eq heq.symm)
  have hzero := Nat.eq_zero_of_dvd_of_lt hdvd (by omega)
  omega

/-- A write behind a window that leaves a cell free makes it one longer. -/
theorem window_write (cells : ℕ → α) (start : ℕ) {n : ℕ} (hn : n < cap) (x : α) :
    window (Function.update cells ((start + n) % cap) x) cap start (n + 1) =
      window cells cap start n ++ [x] := by
  rw [window_snoc, Function.update_self]
  congr 1
  exact window_congr fun i hi => Function.update_of_ne (place_ne start hi hn) _ _

theorem writeAll_window (cells : ℕ → α) (start : ℕ) {n pos : ℕ} {values : List α}
    (hroom : n + values.length ≤ cap) (hpos : pos = (start + n) % cap) :
    window (writeAll cap cells pos values).1 cap start (n + values.length) =
        window cells cap start n ++ values ∧
      (writeAll cap cells pos values).2 = (start + n + values.length) % cap := by
  induction values generalizing cells n pos with
  | nil => exact ⟨by simp [writeAll], by simp [writeAll, hpos]⟩
  | cons x values ih =>
    rw [List.length_cons] at hroom
    obtain ⟨hwindow, hend⟩ := @ih (Function.update cells pos x) (n + 1) ((pos + 1) % cap)
      (by omega) (by rw [hpos, Nat.mod_add_mod, Nat.add_assoc])
    have hstep : writeAll cap cells pos (x :: values) =
        writeAll cap (Function.update cells pos x) ((pos + 1) % cap) values := rfl
    rw [hstep, List.length_cons, show n + (values.length + 1) = n + 1 + values.length by omega]
    refine ⟨?_, ?_⟩
    · rw [hwindow, hpos, window_write cells start (by omega), List.append_assoc]
      rfl
    · rw [hend]
      congr 1
      omega

end PsxRecomp.RingWindow
