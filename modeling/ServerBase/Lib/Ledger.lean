import Mathlib.Data.List.Nodup

/-!
# Ledgers of resources

Resources are created, held somewhere, and released. A ledger is balanced when what is held and what
was released are together what was created, each resource once.

**Rules.** `Balanced.create`, `Balanced.release` and `Balanced.move` say what the three operations
do to a balanced ledger. They are about lists up to order, so that the places which hold the
resources can be read off in any order.

**Slots** (`filterMap_set_perm`, `filterMap_update_perm`). What a list or a table of places holds
after one of them was written.
-/

namespace Ledger

variable {α β : Type*} {created held held' released : List α} {x : α}

/-- Everything created is held or was released, once. -/
def Balanced (created held released : List α) : Prop := (held ++ released).Perm created

theorem balanced_nil : Balanced ([] : List α) [] [] := List.Perm.refl _

namespace Balanced

/-- Something new is held. -/
theorem create (h : Balanced created held released) (hheld : held'.Perm (x :: held)) :
    Balanced (created ++ [x]) held' released := by
  have hnew : (held' ++ released).Perm (x :: (held ++ released)) := hheld.append_right released
  exact hnew.trans ((h.cons x).trans (List.perm_append_singleton x created).symm)

/-- Resources named by the order of their creation. -/
theorem create_range {n : ℕ} {held held' released : List ℕ}
    (h : Balanced (List.range n) held released) (hheld : held'.Perm (n :: held)) :
    Balanced (List.range (n + 1)) held' released := by
  rw [List.range_succ]
  exact h.create hheld

/-- Something held is released. -/
theorem release (h : Balanced created held released) (hheld : held.Perm (x :: held')) :
    Balanced created held' (x :: released) := by
  have hmove : (held' ++ x :: released).Perm (x :: held' ++ released) := List.perm_middle
  exact hmove.trans ((hheld.symm.append_right released).trans h)

/-- What is held changes its places. -/
theorem move (h : Balanced created held released) (hheld : held'.Perm held) :
    Balanced created held' released :=
  (hheld.append_right released).trans h

theorem nodup (h : Balanced created held released) (hc : created.Nodup) :
    (held ++ released).Nodup :=
  h.nodup_iff.2 hc

/-- Nothing is released twice. -/
theorem released_nodup (h : Balanced created held released) (hc : created.Nodup) :
    released.Nodup :=
  (List.nodup_append.1 (h.nodup hc)).2.1

/-- Nothing is held in two places. -/
theorem held_nodup (h : Balanced created held released) (hc : created.Nodup) : held.Nodup :=
  (List.nodup_append.1 (h.nodup hc)).1

/-- What is held was not released. -/
theorem not_released (h : Balanced created held released) (hc : created.Nodup) (hx : x ∈ held) :
    x ∉ released :=
  fun hr => (List.nodup_append.1 (h.nodup hc)).2.2 x hx x hr rfl

theorem mem_created (h : Balanced created held released) :
    x ∈ created ↔ x ∈ held ∨ x ∈ released := by
  rw [← h.mem_iff, List.mem_append]

theorem length_eq (h : Balanced created held released) :
    held.length + released.length = created.length := by
  rw [← List.length_append]
  exact List.Perm.length_eq h

/-- When nothing is held, everything was released. -/
theorem released_perm (h : Balanced created [] released) : released.Perm created := h

end Balanced

/-! ## Slots -/

variable {f : β → Option α} {l : List β} {i : ℕ} {b b' : β}

theorem filterMap_cons_toList (b : β) (l : List β) :
    (b :: l).filterMap f = (f b).toList ++ l.filterMap f := by
  cases h : f b <;> simp [h]

/-- Writing a slot exchanges what it holds. -/
theorem filterMap_set_perm (hi : l[i]? = some b) :
    ((l.set i b').filterMap f ++ (f b).toList).Perm (l.filterMap f ++ (f b').toList) := by
  induction l generalizing i with
  | nil => simp at hi
  | cons c l ih =>
      cases i with
      | zero =>
          obtain rfl : c = b := by simpa using hi
          rw [List.set_cons_zero, filterMap_cons_toList, filterMap_cons_toList]
          have hfront : ((f b').toList ++ l.filterMap f).Perm (l.filterMap f ++ (f b').toList) :=
            List.perm_append_comm
          have hback := (hfront.append_right (f c).toList).trans List.perm_append_comm
          rw [List.append_assoc (f c).toList]
          exact hback
      | succ i =>
          have hperm := ih (by simpa using hi)
          rw [List.set_cons_succ, filterMap_cons_toList, filterMap_cons_toList,
            List.append_assoc, List.append_assoc]
          exact hperm.append_left _

/-- An empty slot is filled. -/
theorem filterMap_fill_perm (hi : l[i]? = some b) (hb : f b = none) (hb' : f b' = some x) :
    ((l.set i b').filterMap f).Perm (x :: l.filterMap f) := by
  have hperm : ((l.set i b').filterMap f ++ (f b).toList).Perm
      (l.filterMap f ++ (f b').toList) := filterMap_set_perm hi
  rw [hb, hb', Option.toList_none, List.append_nil] at hperm
  exact hperm.trans (List.perm_append_singleton x _)

/-- A slot is emptied. -/
theorem filterMap_clear_perm (hi : l[i]? = some b) (hb : f b = some x) (hb' : f b' = none) :
    (l.filterMap f).Perm (x :: (l.set i b').filterMap f) := by
  have hperm : ((l.set i b').filterMap f ++ (f b).toList).Perm
      (l.filterMap f ++ (f b').toList) := filterMap_set_perm hi
  rw [hb, hb', Option.toList_none, List.append_nil] at hperm
  exact hperm.symm.trans (List.perm_append_singleton x _)

/-- Of a table of slots one is written. -/
theorem filterMap_update_perm {κ : Type*} [DecidableEq κ] {ks : List κ} {k : κ} (hks : ks.Nodup)
    (hk : k ∈ ks) (f : κ → Option α) (y : Option α) :
    (ks.filterMap (Function.update f k y) ++ (f k).toList).Perm
      (ks.filterMap f ++ y.toList) := by
  have hslots : ∀ g : κ → Option α, ks.filterMap g = (ks.map g).filterMap id :=
    fun g => (List.filterMap_map (f := g) (g := id)).symm
  have hset : ks.map (Function.update f k y) = (ks.map f).set (ks.idxOf k) y := by
    rw [hks.map_update, if_pos hk]
  have hi : (ks.map f)[ks.idxOf k]? = some (f k) := by
    rw [List.getElem?_map, List.getElem?_idxOf hk, Option.map_some]
  rw [hslots f, hslots (Function.update f k y), hset]
  exact filterMap_set_perm hi

theorem mem_filterMap_of_getElem? (hi : l[i]? = some b) (hb : f b = some x) :
    x ∈ l.filterMap f :=
  List.mem_filterMap.2 ⟨b, List.mem_of_getElem? hi, hb⟩

/-- When nothing is held twice, two slots that hold the same are the same. -/
theorem slot_ext {j : ℕ} (hl : (l.filterMap f).Nodup) (hi : l[i]? = some b) (hb : f b = some x)
    (hj : l[j]? = some b') (hb' : f b' = some x) : i = j := by
  induction l generalizing i j with
  | nil => simp at hi
  | cons c l ih =>
      rw [filterMap_cons_toList] at hl
      have hnot : ∀ {k : ℕ} {d : β}, f c = some x → l[k]? = some d → f d ≠ some x :=
        fun hc hk hd => (List.nodup_append.1 hl).2.2 x (by simp [hc]) x
          (mem_filterMap_of_getElem? hk hd) rfl
      cases i with
      | zero =>
          obtain rfl : c = b := by simpa using hi
          cases j with
          | zero => rfl
          | succ j => exact absurd hb' (hnot hb (by simpa using hj))
      | succ i =>
          cases j with
          | zero =>
              obtain rfl : c = b' := by simpa using hj
              exact absurd hb (hnot hb' (by simpa using hi))
          | succ j =>
              have hij := ih (List.nodup_append.1 hl).2.1 (by simpa using hi) (by simpa using hj)
              rw [hij]

/-- A place is taken away. -/
theorem filterMap_eraseIdx_perm (hi : l[i]? = some b) :
    (l.filterMap f).Perm ((f b).toList ++ (l.eraseIdx i).filterMap f) := by
  induction l generalizing i with
  | nil => simp at hi
  | cons c l ih =>
      cases i with
      | zero =>
          obtain rfl : c = b := by simpa using hi
          rw [filterMap_cons_toList, List.eraseIdx_cons_zero]
      | succ i =>
          have hperm := (ih (by simpa using hi)).append_left (f c).toList
          rw [filterMap_cons_toList, List.eraseIdx_cons_succ, filterMap_cons_toList]
          exact hperm.trans ((List.perm_append_comm_assoc ..))

end Ledger
