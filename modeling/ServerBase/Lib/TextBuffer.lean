import Mathlib.Data.List.TakeWhile

/-!
# Text in a buffer of fixed size

A text is printed into a buffer piece by piece. Each piece is written behind the ones before, as
far as it fits, and a terminator behind it.

**Holding a text** (`Holds`). The buffer begins with the text and a terminator, or with as much of
the text as leaves room for one.

**Printing** (`holds_overwrite`). A buffer with room for the terminator of a text holds it together
with the next piece once that has been printed, even when the piece is cut.

**Printing while there is room** (`fill_spec`). Where pieces are left out once the buffer is full,
what has been printed is the beginning of the whole.
-/

namespace TextBuffer

variable {α : Type*} {nul : α} {buf text piece : List α} {n : ℕ}

/-- `bs` is written over the buffer from `n` on; what would lie behind the end is lost. -/
def overwrite (buf : List α) (n : ℕ) (bs : List α) : List α :=
  buf.take n ++ (bs.take (buf.length - n) ++ buf.drop (n + bs.length))

/-- What is printed where `room` cells are left. -/
def cut (nul : α) (room : ℕ) (piece : List α) : List α :=
  if room = 0 then [] else piece.take (room - 1) ++ [nul]

/-- The buffer begins with the text, as far as it fits, and a terminator. -/
def Holds (nul : α) (buf text : List α) : Prop :=
  ∃ rest, buf = text.take (buf.length - 1) ++ nul :: rest

theorem length_overwrite (buf : List α) (n : ℕ) (bs : List α) :
    (overwrite buf n bs).length = buf.length := by
  simp only [overwrite, List.length_append, List.length_take, List.length_drop]
  omega

theorem length_cut (nul : α) {room : ℕ} (hroom : 0 < room) (piece : List α) :
    (cut nul room piece).length = min piece.length (room - 1) + 1 := by
  rw [cut, if_neg (Nat.ne_of_gt hroom), List.length_append, List.length_take, List.length_singleton,
    Nat.min_comm]

/-- What is cut stays in the room there is. -/
theorem length_cut_le (nul : α) (room : ℕ) (piece : List α) :
    (cut nul room piece).length ≤ room := by
  rcases Nat.eq_zero_or_pos room with rfl | hroom
  · exact Nat.le_refl 0
  · rw [length_cut nul hroom]
    omega

/-- Whatever is printed, a terminator is written. -/
theorem mem_overwrite_cut (nul : α) (hroom : n < buf.length) (piece : List α) :
    nul ∈ overwrite buf n (cut nul (buf.length - n) piece) := by
  have hpos : 0 < buf.length - n := Nat.sub_pos_of_lt hroom
  have hcut : nul ∈ cut nul (buf.length - n) piece := by
    rw [cut, if_neg (Nat.ne_of_gt hpos)]
    exact List.mem_append_right _ (List.mem_singleton.2 rfl)
  rw [overwrite, List.take_of_length_le (length_cut_le nul _ piece)]
  exact List.mem_append_right _ (List.mem_append_left _ hcut)

/-- The text in front of the place where the next piece goes. -/
theorem Holds.take (h : Holds nul buf text) (hroom : text.length < buf.length) :
    buf.take text.length = text := by
  obtain ⟨rest, hbuf⟩ := h
  have htext : text.take (buf.length - 1) = text :=
    List.take_of_length_le (Nat.le_sub_one_of_lt hroom)
  rw [htext] at hbuf
  rw [hbuf]
  exact List.take_left

/-- **A piece is printed** behind the text. -/
theorem holds_overwrite (hroom : text.length < buf.length) (h : buf.take text.length = text) :
    Holds nul (overwrite buf text.length (cut nul (buf.length - text.length) piece))
      (text ++ piece) := by
  have hpos : 0 < buf.length - text.length := Nat.sub_pos_of_lt hroom
  have htext : text.take (buf.length - 1) = text :=
    List.take_of_length_le (Nat.le_sub_one_of_lt hroom)
  have hsub : buf.length - 1 - text.length = buf.length - text.length - 1 := by omega
  refine ⟨buf.drop (text.length + (cut nul (buf.length - text.length) piece).length), ?_⟩
  rw [length_overwrite, List.take_append, htext, hsub, overwrite, h,
    List.take_of_length_le (length_cut_le nul _ piece)]
  generalize buf.drop (text.length + (cut nul (buf.length - text.length) piece).length) = rest
  rw [cut, if_neg (Nat.ne_of_gt hpos), List.append_assoc, List.append_assoc,
    List.singleton_append]

/-! ## Printing while there is room -/

/-- What has been printed when the pieces from where there is no room on are left out. -/
def fill (room : ℕ) (text : List α) (pieces : List (List α)) : List α :=
  pieces.foldl (fun text piece => if room ≤ text.length then text else text ++ piece) text

theorem fill_cons (room : ℕ) (text piece : List α) (pieces : List (List α)) :
    fill room text (piece :: pieces) =
      fill room (if room ≤ text.length then text else text ++ piece) pieces := rfl

theorem fill_of_le {room : ℕ} (h : room ≤ text.length) (pieces : List (List α)) :
    fill room text pieces = text := by
  induction pieces with
  | nil => rfl
  | cons piece pieces ih => rw [fill_cons, if_pos h, ih]

/-- Pieces are only left out when there is no room. -/
theorem fill_spec (room : ℕ) (text : List α) (pieces : List (List α)) :
    ∃ rest, text ++ pieces.flatten = fill room text pieces ++ rest ∧
      (rest = [] ∨ room ≤ (fill room text pieces).length) := by
  induction pieces generalizing text with
  | nil => exact ⟨[], rfl, .inl rfl⟩
  | cons piece pieces ih =>
      by_cases h : room ≤ text.length
      · rw [fill_of_le h]
        exact ⟨(piece :: pieces).flatten, rfl, .inr h⟩
      · rw [fill_cons, if_neg h, List.flatten_cons, ← List.append_assoc]
        exact ih (text ++ piece)

end TextBuffer
