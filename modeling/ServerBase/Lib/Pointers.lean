import Mathlib.Data.List.Basic

/-!
# Rings of nodes

Nodes that point to each other, as addresses of any type and a function that gives the next one.

**Segments** (`Seg`). The nodes that are passed on the way from one address to another.

**Rings** (`Ring`). The way leads back to its first node. A segment can be put in behind the last
node (`Ring.splice`).
-/

namespace Pointers

variable {α : Type} {next next' : α → α} {a b c x : α} {L M : List α}

/-- From `a`, the way over the nodes `L` ends at `b`. -/
def Seg (next : α → α) : α → List α → α → Prop
  | a, [], b => a = b
  | a, x :: L, b => a = x ∧ Seg next (next x) L b

theorem seg_append : Seg next a (L ++ M) c ↔ ∃ b, Seg next a L b ∧ Seg next b M c := by
  induction L generalizing a with
  | nil => exact ⟨fun h => ⟨a, rfl, h⟩, fun ⟨_, hb, h⟩ => hb ▸ h⟩
  | cons x L ih =>
      constructor
      · rintro ⟨rfl, h⟩
        obtain ⟨b, hL, hM⟩ := ih.1 h
        exact ⟨b, ⟨rfl, hL⟩, hM⟩
      · rintro ⟨b, ⟨rfl, hL⟩, hM⟩
        exact ⟨rfl, ih.2 ⟨b, hL, hM⟩⟩

theorem seg_concat : Seg next a (L ++ [x]) c ↔ Seg next a L x ∧ next x = c := by
  rw [seg_append]
  constructor
  · rintro ⟨b, hL, rfl, hx⟩
    exact ⟨hL, hx⟩
  · rintro ⟨hL, hx⟩
    exact ⟨x, hL, rfl, hx⟩

/-- **Frame.** Only the pointers of the nodes count. -/
theorem Seg.congr (h : Seg next a L b) (heq : ∀ x ∈ L, next' x = next x) : Seg next' a L b := by
  induction L generalizing a with
  | nil => exact h
  | cons x L ih =>
      obtain ⟨rfl, h⟩ := h
      refine ⟨rfl, ?_⟩
      rw [heq a (by simp)]
      exact ih h fun y hy => heq y (by simp [hy])

/-- The way over `L` leads back to its first node. -/
def Ring (next : α → α) (L : List α) : Prop := ∀ a ∈ L.head?, Seg next a L a

theorem Ring.congr (h : Ring next L) (heq : ∀ x ∈ L, next' x = next x) : Ring next' L :=
  fun a ha => (h a ha).congr heq

/-- **A segment is put in** behind the last node. -/
theorem Ring.splice (h : Ring next (L ++ [x])) (heq : ∀ a ∈ L, next' a = next a)
    (hM : Seg next' (next' x) M (next x)) : Ring next' (L ++ [x] ++ M) := by
  intro a ha
  have hne : L ++ [x] ≠ [] := List.concat_ne_nil _ _
  rw [List.head?_append_of_ne_nil _ hne] at ha
  obtain ⟨hL, hx⟩ := seg_concat.1 (h a ha)
  rw [hx] at hM
  exact seg_append.2 ⟨next' x, seg_concat.2 ⟨hL.congr heq, rfl⟩, hM⟩

end Pointers
