import Mathlib.Data.List.Basic
import Mathlib.Data.List.TakeWhile

/-!
# Incremental scanners

A scanner reads a prefix of a token list and answers `done` (with a value and the rest of the
input), `fail`, or `more` (the input ended before it could decide).

**Verdicts are final.** `done` and `fail` may not change when more input arrives, and `done`
leaves a suffix of its input. Both are fields of `Scanner`, so they hold of every scanner
that the combinators below can build, whatever it scans.

**What can still happen.** On an undecided input, `Refuses bad` says that the token `bad` makes
the scanner fail, and `Extendable` that some continuation of each length does not. Both compose
along `bind`; for a part in the middle `Refuses` weakens to `StopsAt`, and `Stretchable` says that
the part can be kept waiting. `Passes` says that no decision comes late: what was undecided and is
then accepted is read beyond its end.
-/

/-- The answer of a scanner. -/
inductive Answer (τ α : Type)
  | done (a : α) (rest : List τ)
  | fail
  | more

namespace Answer

variable {τ α β : Type}

def map (f : α → β) : Answer τ α → Answer τ β
  | done a rest => done (f a) rest
  | fail => fail
  | more => more

@[simp] theorem map_eq_done {f : α → β} {A : Answer τ α} {b : β} {rest : List τ} :
    A.map f = done b rest ↔ ∃ a, A = done a rest ∧ f a = b := by
  cases A <;> simp [map, and_comm]

@[simp] theorem map_eq_fail {f : α → β} {A : Answer τ α} : A.map f = fail ↔ A = fail := by
  cases A <;> simp [map]

@[simp] theorem map_eq_more {f : α → β} {A : Answer τ α} : A.map f = more ↔ A = more := by
  cases A <;> simp [map]

end Answer

/-- A scanner whose verdicts are final. -/
structure Scanner (τ α : Type) where
  run : List τ → Answer τ α
  suffix : ∀ {xs a rest}, run xs = .done a rest → ∃ used, xs = used ++ rest
  done_append : ∀ {xs a rest} (ys : List τ), run xs = .done a rest →
    run (xs ++ ys) = .done a (rest ++ ys)
  fail_append : ∀ {xs} (ys : List τ), run xs = .fail → run (xs ++ ys) = .fail

namespace Scanner

variable {τ α β : Type}

/-! ## Primitive scanners -/

/-- Answer without reading. -/
protected def pure (a : α) : Scanner τ α where
  run xs := .done a xs
  suffix h := by cases h; exact ⟨[], rfl⟩
  done_append ys h := by cases h; rfl
  fail_append _ h := by cases h

/-- Refuse without reading. -/
def fail : Scanner τ α where
  run _ := .fail
  suffix h := by cases h
  done_append _ h := by cases h
  fail_append _ _ := rfl

/-- The next token, left in place. -/
def peek : Scanner τ τ where
  run
    | [] => .more
    | x :: xs => .done x (x :: xs)
  suffix {xs _ _} h := by cases xs <;> cases h; exact ⟨[], rfl⟩
  done_append {xs _ _} _ h := by cases xs <;> cases h; rfl
  fail_append {xs} _ h := by cases xs <;> cases h

/-- The next token, consumed. -/
def next : Scanner τ τ where
  run
    | [] => .more
    | x :: xs => .done x xs
  suffix {xs _ _} h := by cases xs <;> cases h; exact ⟨[_], rfl⟩
  done_append {xs _ _} _ h := by cases xs <;> cases h; rfl
  fail_append {xs} _ h := by cases xs <;> cases h

/-- Wait until `k` tokens are there; reads none of them. -/
def atLeast (k : ℕ) : Scanner τ Unit where
  run xs := if xs.length < k then .more else .done () xs
  suffix {xs a rest} h := by
    split at h
    · cases h
    · cases h; exact ⟨[], rfl⟩
  done_append {xs a rest} ys h := by
    split at h
    · cases h
    · cases h
      rw [if_neg (by simp only [List.length_append]; omega)]
  fail_append {xs} ys h := by split at h <;> cases h

/-- Read tokens up to one that satisfies `stop`, which stays in place; a token before it that
does not satisfy `ok` is refused. -/
def spanRun (stop ok : τ → Bool) : List τ → Answer τ (List τ)
  | [] => .more
  | x :: xs =>
      if stop x then .done [] (x :: xs)
      else if ok x then (spanRun stop ok xs).map (x :: ·)
      else .fail

/-- What a span reads: accepted tokens that do not stop it, and then one that does. -/
theorem spanRun_eq_done {stop ok : τ → Bool} {xs tok rest : List τ} :
    spanRun stop ok xs = .done tok rest ↔
      xs = tok ++ rest ∧ (∃ x xs', rest = x :: xs' ∧ stop x = true) ∧
        ∀ y ∈ tok, stop y = false ∧ ok y = true := by
  induction xs generalizing tok with
  | nil =>
      simp only [spanRun, reduceCtorEq, false_iff]
      rintro ⟨h, ⟨x, xs', rfl, -⟩, -⟩
      simp at h
  | cons x xs ih =>
      simp only [spanRun]
      by_cases hs : stop x = true
      · rw [if_pos hs]
        constructor
        · intro h
          cases h
          exact ⟨rfl, ⟨x, xs, rfl, hs⟩, by simp⟩
        · rintro ⟨h, -, htok⟩
          cases tok with
          | nil => rw [h]; rfl
          | cons y tok =>
              obtain ⟨rfl, -⟩ := List.cons.inj h
              simp [(htok x (by simp)).1] at hs
      · rw [if_neg hs]
        by_cases hk : ok x = true
        · rw [if_pos hk, Answer.map_eq_done]
          constructor
          · rintro ⟨tok', h, rfl⟩
            obtain ⟨rfl, hrest, htok⟩ := ih.1 h
            refine ⟨rfl, hrest, ?_⟩
            intro y hy
            rcases List.mem_cons.1 hy with rfl | hy
            · exact ⟨by simpa using hs, hk⟩
            · exact htok y hy
          · rintro ⟨h, hrest, htok⟩
            cases tok with
            | nil =>
                obtain ⟨y, ys, rfl, hy⟩ := hrest
                obtain ⟨rfl, -⟩ := List.cons.inj h
                exact absurd hy hs
            | cons y tok =>
                obtain ⟨rfl, htail⟩ := List.cons.inj h
                exact ⟨tok, ih.2 ⟨htail, hrest, fun z hz => htok z (by simp [hz])⟩, rfl⟩
        · rw [if_neg hk]
          constructor
          · intro h; cases h
          · rintro ⟨h, hrest, htok⟩
            cases tok with
            | nil =>
                obtain ⟨y, ys, rfl, hy⟩ := hrest
                obtain ⟨rfl, -⟩ := List.cons.inj h
                exact absurd hy hs
            | cons y tok =>
                obtain ⟨rfl, -⟩ := List.cons.inj h
                exact absurd (htok x (by simp)).2 hk

theorem spanRun_append {stop ok : τ → Bool} {xs : List τ} (ys : List τ)
    (h : spanRun stop ok xs = .fail) : spanRun stop ok (xs ++ ys) = .fail := by
  induction xs with
  | nil => cases h
  | cons x xs ih =>
      simp only [spanRun, List.cons_append] at h ⊢
      split
      · next hs => rw [if_pos hs] at h; cases h
      · next hs =>
        rw [if_neg hs] at h
        split
        · next hk => rw [if_pos hk, Answer.map_eq_fail] at h; simp [ih h]
        · rfl

def span (stop ok : τ → Bool) : Scanner τ (List τ) where
  run := spanRun stop ok
  suffix h := ⟨_, (spanRun_eq_done.1 h).1⟩
  done_append {xs tok rest} ys h := by
    obtain ⟨rfl, ⟨x, xs', rfl, hx⟩, htok⟩ := spanRun_eq_done.1 h
    exact spanRun_eq_done.2 ⟨by simp, ⟨x, xs' ++ ys, rfl, hx⟩, htok⟩
  fail_append ys h := spanRun_append ys h

/-! ## Sequencing -/

protected def bind (p : Scanner τ α) (f : α → Scanner τ β) : Scanner τ β where
  run xs :=
    match p.run xs with
    | .done a rest => (f a).run rest
    | .fail => .fail
    | .more => .more
  suffix {xs b rest} h := by
    split at h
    · next a mid hp =>
      obtain ⟨u, rfl⟩ := p.suffix hp
      obtain ⟨v, rfl⟩ := (f a).suffix h
      exact ⟨u ++ v, by simp⟩
    · cases h
    · cases h
  done_append {xs b rest} ys h := by
    split at h
    · next a mid hp => rw [p.done_append ys hp]; exact (f a).done_append ys h
    · cases h
    · cases h
  fail_append {xs} ys h := by
    split at h
    · next a mid hp => rw [p.done_append ys hp]; exact (f a).fail_append ys h
    · next hp => rw [p.fail_append ys hp]
    · cases h

instance : Monad (Scanner τ) where
  pure := Scanner.pure
  bind := Scanner.bind

@[simp] theorem run_pure (a : α) (xs : List τ) :
    (pure a : Scanner τ α).run xs = .done a xs := rfl

@[simp] theorem run_fail (xs : List τ) : (fail : Scanner τ α).run xs = .fail := rfl

theorem run_bind (p : Scanner τ α) (f : α → Scanner τ β) (xs : List τ) :
    (p >>= f).run xs =
      match p.run xs with
      | .done a rest => (f a).run rest
      | .fail => .fail
      | .more => .more := rfl

theorem run_bind_of_done {p : Scanner τ α} {f : α → Scanner τ β} {xs rest : List τ} {a : α}
    (h : p.run xs = .done a rest) : (p >>= f).run xs = (f a).run rest := by
  rw [run_bind, h]

theorem run_bind_of_fail {p : Scanner τ α} {f : α → Scanner τ β} {xs : List τ}
    (h : p.run xs = .fail) : (p >>= f).run xs = .fail := by
  rw [run_bind, h]

theorem run_bind_of_more {p : Scanner τ α} {f : α → Scanner τ β} {xs : List τ}
    (h : p.run xs = .more) : (p >>= f).run xs = .more := by
  rw [run_bind, h]

/-- A sequence is done when both parts are, one after the other. -/
theorem run_bind_eq_done {p : Scanner τ α} {f : α → Scanner τ β} {xs rest : List τ} {b : β} :
    (p >>= f).run xs = .done b rest ↔
      ∃ a mid, p.run xs = .done a mid ∧ (f a).run mid = .done b rest := by
  rw [run_bind]
  cases p.run xs <;> simp

theorem run_bind_eq_more {p : Scanner τ α} {f : α → Scanner τ β} {xs : List τ} :
    (p >>= f).run xs = .more ↔
      p.run xs = .more ∨ ∃ a mid, p.run xs = .done a mid ∧ (f a).run mid = .more := by
  rw [run_bind]
  cases p.run xs <;> simp

/-- Exactly the token `c`. -/
def expect [DecidableEq τ] (c : τ) : Scanner τ Unit := do
  let x ← next
  if x = c then pure () else fail

/-- Skip the tokens that satisfy `p`; waits for one that does not. -/
def skipWhile (p : τ → Bool) : Scanner τ Unit := do
  let _ ← span (fun x => !p x) (fun _ => true)
  pure ()

/-! ## What the scanners read -/

theorem run_span_eq_done {stop ok : τ → Bool} {xs tok rest : List τ} :
    (span stop ok).run xs = .done tok rest ↔
      xs = tok ++ rest ∧ (∃ x xs', rest = x :: xs' ∧ stop x = true) ∧
        ∀ y ∈ tok, stop y = false ∧ ok y = true :=
  spanRun_eq_done

theorem run_peek_eq_done {xs rest : List τ} {x : τ} :
    peek.run xs = .done x rest ↔ xs = rest ∧ ∃ xs', rest = x :: xs' := by
  cases xs with
  | nil =>
      simp only [peek, reduceCtorEq, false_iff]
      rintro ⟨rfl, xs', h⟩
      cases h
  | cons y ys =>
      simp only [peek, Answer.done.injEq]
      constructor
      · rintro ⟨rfl, rfl⟩; exact ⟨rfl, ys, rfl⟩
      · rintro ⟨rfl, xs', h⟩; exact ⟨(List.cons.inj h).1, rfl⟩

theorem run_next_eq_done {xs rest : List τ} {x : τ} :
    next.run xs = .done x rest ↔ xs = x :: rest := by
  cases xs <;> simp [next]

theorem run_expect_eq_done [DecidableEq τ] {c : τ} {xs rest : List τ} :
    (expect c).run xs = .done () rest ↔ xs = c :: rest := by
  rw [expect, run_bind_eq_done]
  constructor
  · rintro ⟨x, mid, hx, h⟩
    rw [run_next_eq_done] at hx
    split at h
    · next hc => cases h; rw [hx, hc]
    · cases h
  · rintro rfl
    exact ⟨c, rest, rfl, by simp⟩

/-- Skipping leaves what `dropWhile` leaves. -/
theorem run_skipWhile_eq_done {p : τ → Bool} {xs rest : List τ} :
    (skipWhile p).run xs = .done () rest ↔ rest ≠ [] ∧ rest = xs.dropWhile p := by
  rw [skipWhile, run_bind_eq_done]
  constructor
  · rintro ⟨tok, mid, h, hmid⟩
    obtain ⟨rfl, ⟨x, xs', rfl, hx⟩, htok⟩ := run_span_eq_done.1 h
    cases hmid
    have hall : ∀ y ∈ tok, p y = true := fun y hy => by simpa using (htok y hy).1
    refine ⟨by simp, ?_⟩
    rw [List.dropWhile_append_of_pos hall, List.dropWhile_cons_of_neg (by simpa using hx)]
  · rintro ⟨hne, hrest⟩
    refine ⟨xs.takeWhile p, rest, run_span_eq_done.2 ⟨?_, ?_, ?_⟩, rfl⟩
    · rw [hrest, List.takeWhile_append_dropWhile]
    · obtain ⟨x, xs', hx⟩ := List.exists_cons_of_ne_nil hne
      refine ⟨x, xs', hx, ?_⟩
      have hhead := List.head?_dropWhile_not p xs
      rw [← hrest, hx] at hhead
      simpa using hhead
    · intro y hy
      simpa using List.mem_takeWhile_imp hy

/-! ## Refusing an undecided input -/

/-- Fed `bad`, an undecided scanner fails. -/
def Refuses (bad : τ) (p : Scanner τ α) : Prop :=
  ∀ xs zs, p.run xs = .more → p.run (xs ++ bad :: zs) = .fail

/-- Fed `bad`, an undecided scanner fails or stops in front of it. -/
def StopsAt (bad : τ) (p : Scanner τ α) : Prop :=
  ∀ xs zs, p.run xs = .more →
    p.run (xs ++ bad :: zs) = .fail ∨ ∃ a, p.run (xs ++ bad :: zs) = .done a (bad :: zs)

theorem Refuses.stopsAt {bad : τ} {p : Scanner τ α} (h : p.Refuses bad) : p.StopsAt bad :=
  fun xs zs hm => .inl (h xs zs hm)

theorem stopsAt_pure (bad : τ) (a : α) : (pure a : Scanner τ α).StopsAt bad := by
  intro xs zs hm
  cases hm

theorem refuses_fail (bad : τ) : (fail : Scanner τ α).Refuses bad := by
  intro xs zs hm
  cases hm

theorem stopsAt_peek (bad : τ) : (peek : Scanner τ τ).StopsAt bad := by
  intro xs zs hm
  cases xs with
  | nil => exact .inr ⟨bad, rfl⟩
  | cons x xs => cases hm

theorem refuses_expect [DecidableEq τ] {bad c : τ} (h : bad ≠ c) : (expect c).Refuses bad := by
  intro xs zs hm
  cases xs with
  | nil => simp [expect, run_bind, next, h]
  | cons x xs =>
      simp only [expect, run_bind, next] at hm
      split at hm <;> cases hm

theorem run_span_eq_more {stop ok : τ → Bool} {xs : List τ} :
    (span stop ok).run xs = .more ↔ ∀ y ∈ xs, stop y = false ∧ ok y = true := by
  show spanRun stop ok xs = .more ↔ _
  induction xs with
  | nil => simp [spanRun]
  | cons x xs ih =>
      simp only [spanRun, List.mem_cons, forall_eq_or_imp]
      by_cases hs : stop x = true
      · simp [hs]
      · by_cases hk : ok x = true
        · simp [hs, hk, ih]
        · simp [hs, hk]

theorem run_span_append {stop ok : τ → Bool} {xs ys : List τ}
    (h : ∀ y ∈ xs, stop y = false ∧ ok y = true) :
    (span stop ok).run (xs ++ ys) = ((span stop ok).run ys).map (xs ++ ·) := by
  show spanRun stop ok (xs ++ ys) = (spanRun stop ok ys).map (xs ++ ·)
  induction xs with
  | nil =>
      rw [List.nil_append]
      cases spanRun stop ok ys <;> simp [Answer.map]
  | cons x xs ih =>
      obtain ⟨hs, hk⟩ := h x (by simp)
      rw [List.cons_append, spanRun, if_neg (by simp [hs]), if_pos hk,
        ih fun y hy => h y (by simp [hy])]
      cases spanRun stop ok ys <;> rfl

/-- A token that does not stop the span and is not accepted by it. -/
theorem refuses_span {stop ok : τ → Bool} {bad : τ} (hs : stop bad = false)
    (hk : ok bad = false) : (span stop ok).Refuses bad := by
  intro xs zs hm
  rw [run_span_append (run_span_eq_more.1 hm)]
  show (spanRun stop ok (bad :: zs)).map _ = _
  simp [spanRun, hs, hk]

/-- A token that stops the span. -/
theorem stopsAt_span {stop ok : τ → Bool} {bad : τ} (h : stop bad = true) :
    (span stop ok).StopsAt bad := by
  intro xs zs hm
  rw [run_span_append (run_span_eq_more.1 hm)]
  show _ ∨ ∃ a, (spanRun stop ok (bad :: zs)).map _ = _
  exact .inr ⟨xs, by simp [spanRun, h]⟩

theorem StopsAt.bind {bad : τ} {p : Scanner τ α} {f : α → Scanner τ β} (hp : p.StopsAt bad)
    (hf : ∀ a, (f a).StopsAt bad) : (p >>= f).StopsAt bad := by
  intro xs zs hm
  rcases run_bind_eq_more.1 hm with hm | ⟨a, mid, ha, hm⟩
  · rcases hp xs zs hm with h | ⟨a, h⟩
    · exact .inl (run_bind_of_fail h)
    · rw [run_bind_of_done h]
      cases hnil : (f a).run [] with
      | done b rest =>
          obtain ⟨used, hused⟩ := (f a).suffix hnil
          obtain ⟨rfl, rfl⟩ := List.append_eq_nil_iff.1 hused.symm
          exact .inr ⟨b, (f a).done_append (bad :: zs) hnil⟩
      | fail => exact .inl ((f a).fail_append (bad :: zs) hnil)
      | more => exact hf a [] zs hnil
  · rw [run_bind_of_done (p.done_append (bad :: zs) ha)]
    exact hf a mid zs hm

theorem Refuses.bind {bad : τ} {p : Scanner τ α} {f : α → Scanner τ β} (hp : p.StopsAt bad)
    (hf : ∀ a, (f a).Refuses bad) (hnil : ∀ a b rest, (f a).run [] ≠ .done b rest) :
    (p >>= f).Refuses bad := by
  intro xs zs hm
  rcases run_bind_eq_more.1 hm with hm | ⟨a, mid, ha, hm⟩
  · rcases hp xs zs hm with h | ⟨a, h⟩
    · exact run_bind_of_fail h
    · rw [run_bind_of_done h]
      cases hn : (f a).run [] with
      | done b rest => exact absurd hn (hnil a b rest)
      | fail => exact (f a).fail_append (bad :: zs) hn
      | more => exact hf a [] zs hn
  · rw [run_bind_of_done (p.done_append (bad :: zs) ha)]
    exact hf a mid zs hm

/-- What follows a refusing scanner without reading refuses as well. -/
theorem Refuses.bind_pure {bad : τ} {p : Scanner τ α} {g : α → β} (hp : p.Refuses bad) :
    (p >>= fun a => pure (g a)).Refuses bad := by
  intro xs zs hm
  rcases run_bind_eq_more.1 hm with hm | ⟨a, mid, -, hm⟩
  · exact run_bind_of_fail (hp xs zs hm)
  · cases hm

theorem stopsAt_skipWhile {p : τ → Bool} {bad : τ} (h : p bad = false) :
    (skipWhile p).StopsAt bad :=
  StopsAt.bind (stopsAt_span (by simp [h])) fun _ => stopsAt_pure bad ()

/-! ## Continuing an undecided input -/

/-- An undecided input has a continuation of every length that is still undecided. -/
def Stretchable (p : Scanner τ α) : Prop :=
  ∀ xs k, p.run xs = .more → ∃ ys, ys.length = k ∧ p.run (xs ++ ys) = .more

/-- An undecided input has a continuation of every length that is still undecided, or one that
is not longer and with which the scanner has read everything. -/
def Extendable (p : Scanner τ α) : Prop :=
  ∀ xs k, p.run xs = .more → ∃ ys, ys.length ≤ k ∧
    ((ys.length = k ∧ p.run (xs ++ ys) = .more) ∨ ∃ a, p.run (xs ++ ys) = .done a [])

theorem Stretchable.extendable {p : Scanner τ α} (h : p.Stretchable) : p.Extendable := by
  intro xs k hm
  obtain ⟨ys, hlen, hmore⟩ := h xs k hm
  exact ⟨ys, hlen.le, .inl ⟨hlen, hmore⟩⟩

/-- An extendable scanner can be kept from failing. -/
theorem Extendable.exists_ne_fail {p : Scanner τ α} (h : p.Extendable) (xs : List τ)
    (hm : p.run xs = .more) (x : τ) (k : ℕ) :
    ∃ ys, ys.length = k ∧ p.run (xs ++ ys) ≠ .fail := by
  obtain ⟨ys, hle, ⟨hlen, hmore⟩ | ⟨a, hdone⟩⟩ := h xs k hm
  · exact ⟨ys, hlen, by simp [hmore]⟩
  · refine ⟨ys ++ List.replicate (k - ys.length) x, by simp; omega, ?_⟩
    rw [← List.append_assoc, p.done_append _ hdone]
    simp

theorem stretchable_pure (a : α) : (pure a : Scanner τ α).Stretchable := by
  intro xs k hm
  cases hm

theorem extendable_pure (a : α) : (pure a : Scanner τ α).Extendable :=
  (stretchable_pure a).extendable

theorem extendable_fail : (fail : Scanner τ α).Extendable := by
  intro xs k hm
  cases hm

theorem extendable_expect [DecidableEq τ] (c : τ) : (expect c).Extendable := by
  intro xs k hm
  cases xs with
  | nil =>
      cases k with
      | zero => exact ⟨[], le_rfl, .inl ⟨rfl, rfl⟩⟩
      | succ k => exact ⟨[c], by simp, .inr ⟨(), run_expect_eq_done.2 rfl⟩⟩
  | cons x xs =>
      simp only [expect, run_bind, next] at hm
      split at hm <;> cases hm

/-- A span can be stretched with an accepted token that does not stop it. -/
theorem stretchable_span {stop ok : τ → Bool} (good : τ) (hs : stop good = false)
    (hk : ok good = true) : (span stop ok).Stretchable := by
  intro xs k hm
  refine ⟨List.replicate k good, List.length_replicate, run_span_eq_more.2 ?_⟩
  intro y hy
  rcases List.mem_append.1 hy with hy | hy
  · exact run_span_eq_more.1 hm y hy
  · obtain ⟨-, rfl⟩ := List.mem_replicate.1 hy
    exact ⟨hs, hk⟩

theorem Stretchable.bind {p : Scanner τ α} {f : α → Scanner τ β} (hp : p.Stretchable)
    (hf : ∀ a, (f a).Stretchable) : (p >>= f).Stretchable := by
  intro xs k hm
  rcases run_bind_eq_more.1 hm with hm | ⟨a, mid, ha, hm⟩
  · obtain ⟨ys, hlen, hmore⟩ := hp xs k hm
    exact ⟨ys, hlen, run_bind_of_more hmore⟩
  · obtain ⟨ys, hlen, hmore⟩ := hf a mid k hm
    exact ⟨ys, hlen, by rw [run_bind_of_done (p.done_append ys ha), hmore]⟩

theorem Stretchable.bind_extendable {p : Scanner τ α} {f : α → Scanner τ β} (hp : p.Stretchable)
    (hf : ∀ a, (f a).Extendable) : (p >>= f).Extendable := by
  intro xs k hm
  rcases run_bind_eq_more.1 hm with hm | ⟨a, mid, ha, hm⟩
  · obtain ⟨ys, hlen, hmore⟩ := hp xs k hm
    exact ⟨ys, hlen.le, .inl ⟨hlen, run_bind_of_more hmore⟩⟩
  · obtain ⟨ys, hle, h⟩ := hf a mid k hm
    refine ⟨ys, hle, ?_⟩
    rwa [run_bind_of_done (p.done_append ys ha)]

theorem Extendable.bind {p : Scanner τ α} {f : α → Scanner τ β} (hp : p.Extendable)
    (hf : ∀ a, (f a).Extendable) (hnil : ∀ a, (f a).run [] ≠ .fail) : (p >>= f).Extendable := by
  intro xs k hm
  rcases run_bind_eq_more.1 hm with hm | ⟨a, mid, ha, hm⟩
  · obtain ⟨ys, hle, ⟨hlen, hmore⟩ | ⟨a, hdone⟩⟩ := hp xs k hm
    · exact ⟨ys, hle, .inl ⟨hlen, run_bind_of_more hmore⟩⟩
    · cases hn : (f a).run [] with
      | done b rest =>
          obtain ⟨used, hused⟩ := (f a).suffix hn
          obtain ⟨rfl, rfl⟩ := List.append_eq_nil_iff.1 hused.symm
          exact ⟨ys, hle, .inr ⟨b, by rw [run_bind_of_done hdone, hn]⟩⟩
      | fail => exact absurd hn (hnil a)
      | more =>
          obtain ⟨zs, hzs, h⟩ := hf a [] (k - ys.length) hn
          refine ⟨ys ++ zs, by simp only [List.length_append]; omega, ?_⟩
          rw [← List.append_assoc, run_bind_of_done (p.done_append zs hdone)]
          rcases h with ⟨hlen, hmore⟩ | hdone
          · exact .inl ⟨by simp only [List.length_append]; omega, hmore⟩
          · exact .inr hdone
  · obtain ⟨ys, hle, h⟩ := hf a mid k hm
    refine ⟨ys, hle, ?_⟩
    rwa [run_bind_of_done (p.done_append ys ha)]

/-- Looking at the next token extends when some first token does. -/
theorem extendable_peek_bind {f : τ → Scanner τ β} (hf : ∀ c, (f c).Extendable) {c : τ}
    (hc : (f c).run [c] = .more) : (peek >>= f).Extendable := by
  intro xs k hm
  cases xs with
  | nil =>
      cases k with
      | zero => exact ⟨[], le_rfl, .inl ⟨rfl, rfl⟩⟩
      | succ k =>
          obtain ⟨ys, hle, h⟩ := hf c [c] k hc
          refine ⟨c :: ys, by simp only [List.length_cons]; omega, ?_⟩
          rcases h with ⟨hlen, hmore⟩ | hdone
          · exact .inl ⟨by simp [hlen], hmore⟩
          · exact .inr hdone
  | cons x xs => exact hf x (x :: xs) k hm

theorem stretchable_skipWhile {p : τ → Bool} (good : τ) (h : p good = true) :
    (skipWhile p).Stretchable :=
  (stretchable_span good (by simp [h]) rfl).bind fun _ => stretchable_pure ()

/-! ## How far a decision reaches -/

/-- An undecided input that becomes accepted is read to its end. -/
def Reaches (p : Scanner τ α) : Prop :=
  ∀ xs ys a rest, p.run xs = .more → p.run (xs ++ ys) = .done a rest → rest.length ≤ ys.length

/-- An undecided input that becomes accepted is read beyond its end. -/
def Passes (p : Scanner τ α) : Prop :=
  ∀ xs ys a rest, p.run xs = .more → p.run (xs ++ ys) = .done a rest → rest.length < ys.length

theorem Passes.reaches {p : Scanner τ α} (h : p.Passes) : p.Reaches :=
  fun xs ys a rest hm hd => (h xs ys a rest hm hd).le

theorem passes_pure (a : α) : (pure a : Scanner τ α).Passes := by
  intro xs ys b rest hm
  cases hm

theorem passes_fail : (fail : Scanner τ α).Passes := by
  intro xs ys b rest hm
  cases hm

theorem length_le_of_done {p : Scanner τ α} {xs rest : List τ} {a : α}
    (h : p.run xs = .done a rest) : rest.length ≤ xs.length := by
  obtain ⟨used, rfl⟩ := p.suffix h
  simp

/-- A scanner that needs input and passes the end of what it has reads some. -/
theorem Passes.length_lt {p : Scanner τ α} (h : p.Passes)
    (hnil : ∀ a rest, p.run [] ≠ .done a rest) {xs rest : List τ} {a : α}
    (hd : p.run xs = .done a rest) : rest.length < xs.length := by
  cases hn : p.run [] with
  | done b r => exact absurd hn (hnil b r)
  | fail =>
      have hfail := p.fail_append xs hn
      rw [List.nil_append, hd] at hfail
      cases hfail
  | more => exact h [] xs a rest hn hd

theorem reaches_peek : (peek : Scanner τ τ).Reaches := by
  intro xs ys a rest hm hd
  cases xs with
  | nil => exact length_le_of_done hd
  | cons x xs => cases hm

theorem passes_expect [DecidableEq τ] (c : τ) : (expect c).Passes := by
  intro xs ys a rest hm hd
  cases xs with
  | nil =>
      rw [List.nil_append] at hd
      rw [run_expect_eq_done.1 hd]
      simp
  | cons x xs =>
      simp only [expect, run_bind, next] at hm
      split at hm <;> cases hm

theorem reaches_span {stop ok : τ → Bool} : (span stop ok).Reaches := by
  intro xs ys a rest hm hd
  rw [run_span_append (run_span_eq_more.1 hm), Answer.map_eq_done] at hd
  obtain ⟨tok, hd, -⟩ := hd
  exact length_le_of_done hd

theorem Reaches.bind {p : Scanner τ α} {f : α → Scanner τ β} (hp : p.Reaches)
    (hf : ∀ a, (f a).Reaches) : (p >>= f).Reaches := by
  intro xs ys b rest hm hd
  obtain ⟨a, mid, ha, hb⟩ := run_bind_eq_done.1 hd
  rcases run_bind_eq_more.1 hm with hm | ⟨a', mid', ha', hm⟩
  · exact (length_le_of_done hb).trans (hp xs ys a mid hm ha)
  · rw [p.done_append ys ha'] at ha
    cases ha
    exact hf a mid' ys b rest hm hb

theorem Passes.bind {p : Scanner τ α} {f : α → Scanner τ β} (hp : p.Reaches)
    (hf : ∀ a, (f a).Passes) (hnil : ∀ a b rest, (f a).run [] ≠ .done b rest) :
    (p >>= f).Passes := by
  intro xs ys b rest hm hd
  obtain ⟨a, mid, ha, hb⟩ := run_bind_eq_done.1 hd
  rcases run_bind_eq_more.1 hm with hm | ⟨a', mid', ha', hm⟩
  · exact ((hf a).length_lt (hnil a) hb).trans_le (hp xs ys a mid hm ha)
  · rw [p.done_append ys ha'] at ha
    cases ha
    exact hf a mid' ys b rest hm hb

/-- What follows without reading passes as well. -/
theorem Passes.bind_pure {p : Scanner τ α} {g : α → β} (hp : p.Passes) :
    (p >>= fun a => pure (g a)).Passes := by
  intro xs ys b rest hm hd
  obtain ⟨a, mid, ha, hb⟩ := run_bind_eq_done.1 hd
  cases hb
  rcases run_bind_eq_more.1 hm with hm | ⟨a', mid', -, hm⟩
  · exact hp xs ys a rest hm ha
  · cases hm

theorem reaches_skipWhile {p : τ → Bool} : (skipWhile p).Reaches :=
  reaches_span.bind fun _ => (passes_pure ()).reaches

end Scanner
