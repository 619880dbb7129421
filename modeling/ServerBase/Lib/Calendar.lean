import Mathlib.Order.SuccPred.IntervalSucc
import Mathlib.Data.Int.SuccPred

/-!
# The calendar

Days are counted from the first of January 1970, and every day has a Gregorian date.

**Counting** (`ofDays`). The date of a day is reached from the first one by going to the next date,
or to the one before, once for each day.

**The order** (`ofDays_strictMono`). A later day has a later date, so that no two days share one.
-/

namespace Calendar

structure Date where
  year : ℤ
  month : ℕ
  day : ℕ
  deriving DecidableEq

def isLeap (year : ℤ) : Bool := year % 4 = 0 && (year % 100 != 0 || year % 400 = 0)

def monthLength (year : ℤ) : ℕ → ℕ
  | 2 => if isLeap year then 29 else 28
  | 4 => 30
  | 6 => 30
  | 9 => 30
  | 11 => 30
  | _ => 31

namespace Date

def next (d : Date) : Date :=
  if d.day < monthLength d.year d.month then { d with day := d.day + 1 }
  else if d.month < 12 then { d with month := d.month + 1, day := 1 }
  else { year := d.year + 1, month := 1, day := 1 }

def prev (d : Date) : Date :=
  if 1 < d.day then { d with day := d.day - 1 }
  else if 1 < d.month then
    { d with month := d.month - 1, day := monthLength d.year (d.month - 1) }
  else { year := d.year - 1, month := 12, day := 31 }

end Date

/-- The first day. -/
def epoch : Date := { year := 1970, month := 1, day := 1 }

/-- The date of a day. -/
def ofDays : ℤ → Date
  | .ofNat n => Date.next^[n] epoch
  | .negSucc n => Date.prev^[n + 1] epoch

example : ofDays (-1) = { year := 1969, month := 12, day := 31 } := by decide

/-- The days of the week from Sunday on. -/
def weekday (z : ℤ) : ℕ := ((z + 4) % 7).toNat

/-! ## Dates -/

theorem monthLength_range (year : ℤ) (month : ℕ) :
    1 ≤ monthLength year month ∧ monthLength year month ≤ 31 := by
  unfold monthLength
  split
  · split <;> decide
  all_goals decide

namespace Date

/-- A month of the year and a day of the month. -/
structure Valid (d : Date) : Prop where
  month : 1 ≤ d.month ∧ d.month ≤ 12
  day : 1 ≤ d.day ∧ d.day ≤ monthLength d.year d.month

/-- The earlier date. -/
def Before (d e : Date) : Prop :=
  d.year < e.year ∨ d.year = e.year ∧ (d.month < e.month ∨ d.month = e.month ∧ d.day < e.day)

variable {d e f : Date}

theorem Before.trans (hde : d.Before e) (hef : e.Before f) : d.Before f := by
  unfold Before at *
  omega

theorem not_before_self (d : Date) : ¬d.Before d := by
  unfold Before
  omega

theorem before_next (d : Date) : d.Before d.next := by
  unfold next
  split
  · exact .inr ⟨rfl, .inr ⟨rfl, Nat.lt_succ_self _⟩⟩
  · split
    · exact .inr ⟨rfl, .inl (Nat.lt_succ_self _)⟩
    · exact .inl (Int.lt_succ _)

theorem Valid.next (h : d.Valid) : d.next.Valid := by
  obtain ⟨hmonth, hday⟩ := h
  unfold Date.next
  split
  · next hlt => exact ⟨hmonth, Nat.succ_pos _, hlt⟩
  · split
    · next hlt => exact ⟨⟨Nat.succ_pos _, hlt⟩, Nat.le_refl _, (monthLength_range _ _).1⟩
    · exact ⟨⟨Nat.le_refl 1, Nat.le_add_left 1 11⟩, Nat.le_refl _, (monthLength_range _ _).1⟩

theorem Valid.prev (h : d.Valid) : d.prev.Valid := by
  obtain ⟨hmonth, hday⟩ := h
  unfold Date.prev
  split
  · next hlt => exact ⟨hmonth, Nat.le_sub_one_of_lt hlt, Nat.le_trans (Nat.sub_le _ _) hday.2⟩
  · split
    · next hlt =>
      exact ⟨⟨Nat.le_sub_one_of_lt hlt, Nat.le_trans (Nat.sub_le _ _) hmonth.2⟩,
        (monthLength_range _ _).1, Nat.le_refl _⟩
    · exact ⟨⟨Nat.le_add_left 1 11, Nat.le_refl _⟩, Nat.le_add_left 1 30, Nat.le_refl 31⟩

/-- The date behind the one before is the same again. -/
theorem Valid.next_prev (h : d.Valid) : d.prev.next = d := by
  obtain ⟨year, month, day⟩ := d
  obtain ⟨hmonth, hday⟩ := h
  dsimp only at hmonth hday
  unfold Date.prev
  dsimp only
  split
  · next hlt =>
    rw [Date.next, if_pos (by dsimp only; omega)]
    simp only [Date.mk.injEq, true_and]
    omega
  · next hfirst =>
    split
    · next hlt =>
      rw [Date.next, if_neg (Nat.lt_irrefl _), if_pos (by dsimp only; omega)]
      simp only [Date.mk.injEq, true_and]
      omega
    · next hjanuary =>
      have hlast : (⟨year - 1, 12, 31⟩ : Date).next = ⟨year - 1 + 1, 1, 1⟩ := rfl
      rw [hlast]
      simp only [Date.mk.injEq]
      omega

theorem year_next (d : Date) : d.year ≤ d.next.year ∧ d.next.year ≤ d.year + 1 := by
  unfold next
  split
  · exact ⟨Int.le_refl _, by dsimp only; omega⟩
  · split
    · exact ⟨Int.le_refl _, by dsimp only; omega⟩
    · exact ⟨by dsimp only; omega, Int.le_refl _⟩

end Date

/-! ## Days -/

theorem valid_ofDays (z : ℤ) : (ofDays z).Valid := by
  have hepoch : epoch.Valid := ⟨by decide, by decide⟩
  cases z with
  | ofNat n =>
      change (Date.next^[n] epoch).Valid
      induction n with
      | zero => exact hepoch
      | succ n ih =>
          rw [Function.iterate_succ_apply']
          exact ih.next
  | negSucc n =>
      change (Date.prev^[n + 1] epoch).Valid
      induction n with
      | zero => exact hepoch.prev
      | succ n ih =>
          rw [Function.iterate_succ_apply']
          exact ih.prev

/-- **The next day has the next date.** -/
theorem ofDays_succ (z : ℤ) : ofDays (z + 1) = (ofDays z).next := by
  cases z with
  | ofNat n => exact Function.iterate_succ_apply' Date.next n epoch
  | negSucc n =>
      have hprev : ofDays (.negSucc n) = (ofDays (.negSucc n + 1)).prev := by
        cases n with
        | zero => rfl
        | succ n => exact Function.iterate_succ_apply' Date.prev (n + 1) epoch
      rw [hprev, (valid_ofDays _).next_prev]

theorem ofDays_before {y z : ℤ} (h : y < z) : (ofDays y).Before (ofDays z) := by
  induction z, h using Int.leInduction with
  | base =>
      rw [ofDays_succ]
      exact Date.before_next _
  | succ z _ ih =>
      rw [ofDays_succ]
      exact ih.trans (Date.before_next _)

/-- **No two days share a date.** -/
theorem ofDays_injective : Function.Injective ofDays := by
  intro y z heq
  rcases lt_trichotomy y z with hlt | rfl | hlt
  · exact absurd (heq ▸ ofDays_before hlt) (Date.not_before_self _)
  · rfl
  · exact absurd (heq ▸ ofDays_before hlt) (Date.not_before_self _)

/-- The year goes on by at most one a day. -/
theorem year_ofDays {y z : ℤ} (h : y ≤ z) :
    (ofDays y).year ≤ (ofDays z).year ∧ (ofDays z).year ≤ (ofDays y).year + (z - y) := by
  induction z, h using Int.leInduction with
  | base => omega
  | succ z _ ih =>
      have hnext := Date.year_next (ofDays z)
      rw [← ofDays_succ] at hnext
      omega

end Calendar
