import Mathlib.Data.List.Basic

/-!
# Histories

A history is the list of the events so far, newest first. What may happen next often depends on what
has happened since something else did.

**Since** (`Since p q`). An event with `p` has happened since the last event with `q`.

**At each event** (`AtEach h`). Every event of the history stands in the relation `h` to what had
happened before it.

**Forgetting.** Both can be read off a history from which only irrelevant events were filtered out.
-/

namespace History

variable {α : Type*} {p q f : α → Bool} {h : α → List α → Prop} {e : α} {es es' : List α}

/-- `p` has been seen since the last `q`. -/
def Since (p q : α → Bool) : List α → Bool
  | [] => false
  | e :: es => p e || (!q e && Since p q es)

theorem since_cons_of_seen (he : p e = true) : Since p q (e :: es) = true := by
  simp [Since, he]

/-- An event that is neither changes nothing. -/
theorem since_cons_of_other (hp : p e = false) (hq : q e = false) :
    Since p q (e :: es) = Since p q es := by
  simp [Since, hp, hq]

theorem since_append (hp : ∀ e ∈ es, p e = false) (hq : ∀ e ∈ es, q e = false) :
    Since p q (es ++ es') = Since p q es' := by
  induction es with
  | nil => rfl
  | cons e es ih =>
      rw [List.cons_append, since_cons_of_other (hp e (by simp)) (hq e (by simp))]
      exact ih (fun e he => hp e (List.mem_cons_of_mem _ he))
        fun e he => hq e (List.mem_cons_of_mem _ he)

theorem since_filter (hp : ∀ e, p e = true → f e = true) (hq : ∀ e, q e = true → f e = true)
    (es : List α) : Since p q (es.filter f) = Since p q es := by
  induction es with
  | nil => rfl
  | cons e es ih =>
      by_cases he : f e = true
      · rw [List.filter_cons_of_pos he, Since, Since, ih]
      · rw [List.filter_cons_of_neg he, ih, since_cons_of_other]
        · exact Bool.eq_false_iff.2 fun h => he (hp e h)
        · exact Bool.eq_false_iff.2 fun h => he (hq e h)

/-- `h` holds of every event and the history before it. -/
def AtEach (h : α → List α → Prop) : List α → Prop
  | [] => True
  | e :: es => h e es ∧ AtEach h es

theorem AtEach.append (hes : ∀ e ∈ es, ∀ before, h e before) (hes' : AtEach h es') :
    AtEach h (es ++ es') := by
  induction es with
  | nil => exact hes'
  | cons e es ih =>
      exact ⟨hes e (by simp) _, ih fun e he => hes e (List.mem_cons_of_mem _ he)⟩

theorem AtEach.of_filter (hf : ∀ e es, f e = true → h e (es.filter f) → h e es)
    (hother : ∀ e es, f e = false → h e es) (hes : AtEach h (es.filter f)) : AtEach h es := by
  induction es with
  | nil => trivial
  | cons e es ih =>
      by_cases he : f e = true
      · rw [List.filter_cons_of_pos he] at hes
        exact ⟨hf e es he hes.1, ih hes.2⟩
      · rw [List.filter_cons_of_neg he] at hes
        exact ⟨hother e es (Bool.eq_false_iff.2 he), ih hes⟩

/-- What holds at each event holds wherever the history is cut. -/
theorem AtEach.at {after before : List α} (hes : AtEach h (after ++ e :: before)) :
    h e before := by
  induction after with
  | nil => exact hes.1
  | cons e' after ih => exact ih hes.2

end History
