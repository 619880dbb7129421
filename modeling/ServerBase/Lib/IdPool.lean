import Mathlib.Data.List.Nodup

/-!
# Pools of numbered slots

A pool hands out numbers. It counts how many it has handed out so far, keeps those that were given
back on a stack, and hands out from the stack first. A number can also be reserved, which moves the
counter behind it.

**Used numbers** (`Used`). Those below the counter that are not on the stack. What each operation
does to them is all a client needs: `grant` hands out a number that was not used, and only it
becomes used.

**Valid pools** (`Valid`). The stack holds numbers below the counter, each once.
-/

structure IdPool where
  next : ℕ
  free : List ℕ

namespace IdPool

def empty : IdPool := ⟨0, []⟩

/-- The number `grant` hands out. -/
def granted (p : IdPool) : ℕ := p.free.getLast?.getD p.next

def grant (p : IdPool) : IdPool :=
  if p.free = [] then ⟨p.next + 1, []⟩ else ⟨p.next, p.free.dropLast⟩

def release (p : IdPool) (i : ℕ) : IdPool := ⟨p.next, p.free ++ [i]⟩

def reserve (p : IdPool) (i : ℕ) : IdPool := if p.next ≤ i then ⟨i + 1, p.free⟩ else p

/-- Handed out and not given back. -/
def Used (p : IdPool) (i : ℕ) : Prop := i < p.next ∧ i ∉ p.free

instance (p : IdPool) (i : ℕ) : Decidable (p.Used i) := instDecidableAnd

structure Valid (p : IdPool) : Prop where
  lt : ∀ i ∈ p.free, i < p.next
  nodup : p.free.Nodup

variable {p : IdPool} {i j : ℕ}

theorem valid_empty : empty.Valid := ⟨by simp [empty], List.nodup_nil⟩

theorem granted_of_nil (h : p.free = []) : p.granted = p.next := by simp [granted, h]

theorem granted_of_concat {l : List ℕ} (h : p.free = l ++ [i]) : p.granted = i := by
  simp [granted, h]

theorem grant_of_nil (h : p.free = []) : p.grant = ⟨p.next + 1, []⟩ := if_pos h

theorem grant_of_concat {l : List ℕ} (h : p.free = l ++ [i]) : p.grant = ⟨p.next, l⟩ := by
  rw [grant, if_neg (by simp [h]), h, List.dropLast_concat]

@[simp] theorem free_reserve : (p.reserve i).free = p.free := by
  unfold reserve
  split <;> rfl

theorem next_le_reserve : p.next ≤ (p.reserve i).next := by
  unfold reserve
  split
  · next h => exact Nat.le_succ_of_le h
  · exact Nat.le_refl _

theorem lt_reserve : i < (p.reserve i).next := by
  unfold reserve
  split
  · exact Nat.lt_succ_self i
  · next h => exact Nat.lt_of_not_le h

/-- The two ways a pool can look like before a grant. -/
theorem nil_or_concat (p : IdPool) : p.free = [] ∨ ∃ l i, p.free = l ++ [i] :=
  (List.eq_nil_or_concat p.free).imp_right fun ⟨l, i, h⟩ => ⟨l, i, by simpa using h⟩

/-- A grant makes one more number used. -/
theorem grant_count : p.grant.next + p.free.length = p.next + p.grant.free.length + 1 := by
  rcases p.nil_or_concat with hf | ⟨l, i, hf⟩
  · simp [grant_of_nil hf, hf]
  · simp [grant_of_concat hf, hf, Nat.add_assoc]

theorem next_le_grant : p.next ≤ p.grant.next := by
  rcases p.nil_or_concat with hf | ⟨l, i, hf⟩
  · rw [grant_of_nil hf]
    exact Nat.le_succ _
  · exact Nat.le_of_eq (by rw [grant_of_concat hf])

/-- What is handed out was not used. -/
theorem not_used_granted : ¬p.Used p.granted := by
  rcases p.nil_or_concat with hf | ⟨l, i, hf⟩
  · rw [granted_of_nil hf]
    exact fun hu => Nat.lt_irrefl _ hu.1
  · rw [granted_of_concat hf]
    exact fun hu => hu.2 (by simp [hf])

namespace Valid

theorem grant (h : p.Valid) : p.grant.Valid := by
  rcases p.nil_or_concat with hf | ⟨l, i, hf⟩
  · rw [grant_of_nil hf]
    exact ⟨by simp, List.nodup_nil⟩
  · rw [grant_of_concat hf]
    exact ⟨fun j hj => h.lt j (by simp [hf, hj]), (List.nodup_append.1 (hf ▸ h.nodup)).1⟩

theorem release (h : p.Valid) (hi : p.Used i) : (p.release i).Valid := by
  constructor
  · intro j hj
    rcases List.mem_append.1 hj with hj | hj
    · exact h.lt j hj
    · exact List.mem_singleton.1 hj ▸ hi.1
  · refine List.nodup_append.2 ⟨h.nodup, List.nodup_singleton i, ?_⟩
    intro j hj k hk hjk
    exact hi.2 (List.mem_singleton.1 hk ▸ hjk ▸ hj)

theorem reserve (h : p.Valid) : (p.reserve i).Valid :=
  ⟨fun j hj => Nat.lt_of_lt_of_le (h.lt j (by simpa using hj)) next_le_reserve,
    by simpa using h.nodup⟩

/-- Only what is handed out becomes used. -/
theorem used_grant (h : p.Valid) : p.grant.Used j ↔ j = p.granted ∨ p.Used j := by
  rcases p.nil_or_concat with hf | ⟨l, i, hf⟩
  · rw [granted_of_nil hf, grant_of_nil hf]
    simp only [Used, hf, List.not_mem_nil, not_false_eq_true, and_true]
    omega
  · rw [granted_of_concat hf, grant_of_concat hf]
    have hlt : i < p.next := h.lt i (by simp [hf])
    have hi : i ∉ l := fun hi =>
      (List.nodup_append.1 (hf ▸ h.nodup)).2.2 i hi i (by simp) rfl
    simp only [Used, hf, List.mem_append, List.mem_singleton, not_or]
    by_cases hj : j = i
    · simp [hj, hlt, hi]
    · simp [hj]

end Valid

theorem used_release : (p.release i).Used j ↔ p.Used j ∧ j ≠ i := by
  simp only [Used, release, List.mem_append, List.mem_singleton, not_or, and_assoc]

/-- Reserving takes nothing away. -/
theorem Used.reserve (h : p.Used j) : (p.reserve i).Used j :=
  ⟨Nat.lt_of_lt_of_le h.1 next_le_reserve, by simpa using h.2⟩

theorem used_reserve_self (h : i ∉ p.free) : (p.reserve i).Used i :=
  ⟨lt_reserve, by simpa using h⟩

end IdPool
