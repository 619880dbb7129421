import ServerBase.RequestLine

/-!
# Requests that are cut off

What `phr_parse_request` can still answer when the bytes it has are not enough.

**Every part refuses a control character.** Fed the byte 1, a request that is cut off anywhere but
inside the HTTP version is malformed (`refuses_requestTarget`, `refuses_headerLines`).

**Every part can be kept waiting.** A request that is cut off has a continuation of each length
that is not malformed (`requestTarget_stretch`, `extendable_headerLines`).

**No decision comes late** (`passes_parseRequest`). A head is accepted when its last byte is there.

**The version field** is looked at only when nine bytes of it are there (`run_parseHttpVersion`), so
what can still happen depends on how many more bytes there will be.
-/

namespace ServerBase

open Scanner

/-! ## The parts of the request line -/

theorem refuses_endOfLine : endOfLine.Refuses 1 := by
  intro xs zs hm
  cases xs with
  | nil => rfl
  | cons x xs =>
      simp only [endOfLine, run_bind, next] at hm
      rw [List.cons_append, endOfLine, run_bind_of_done (run_next_eq_done.2 rfl)]
      split at hm
      · next hcr =>
        rw [if_pos hcr]
        exact refuses_expect (by decide) xs zs hm
      · split at hm <;> cases hm

theorem extendable_endOfLine : endOfLine.Extendable := by
  intro xs k hm
  cases xs with
  | nil =>
      cases k with
      | zero => exact ⟨[], le_rfl, .inl ⟨rfl, rfl⟩⟩
      | succ k => exact ⟨[lf], by simp, .inr ⟨(), rfl⟩⟩
  | cons x xs =>
      simp only [endOfLine, run_bind, next] at hm
      split at hm
      · next hcr =>
        obtain ⟨ys, hle, h⟩ := extendable_expect lf xs k hm
        refine ⟨ys, hle, ?_⟩
        rw [List.cons_append, endOfLine, run_bind_of_done (run_next_eq_done.2 rfl), if_pos hcr]
        exact h
      · split at hm <;> cases hm

theorem stopsAt_skipEmptyLine : skipEmptyLine.StopsAt 1 := by
  apply (stopsAt_peek 1).bind
  intro c
  split
  · exact refuses_endOfLine.stopsAt
  · exact stopsAt_pure 1 ()

theorem extendable_skipEmptyLine : skipEmptyLine.Extendable := by
  refine extendable_peek_bind (c := cr) ?_ rfl
  intro c
  split
  · exact extendable_endOfLine
  · exact extendable_pure ()

theorem refuses_parseToken {nextChar : UInt8} (h : nextChar ≠ 1) :
    (parseToken nextChar).Refuses 1 :=
  refuses_span (by simpa using Ne.symm h) (by decide)

theorem stretchable_parseToken {nextChar : UInt8} (h : nextChar ≠ 97) :
    (parseToken nextChar).Stretchable :=
  stretchable_span 97 (by simpa using Ne.symm h) (by decide)

theorem stopsAt_skipSpaces : skipSpaces.StopsAt 1 :=
  (refuses_expect (by decide)).stopsAt.bind fun _ => stopsAt_skipWhile (by decide)

theorem run_skipSpaces_eq_more {xs : Bytes} : skipSpaces.run xs = .more ↔ ∀ c ∈ xs, c = sp := by
  cases xs with
  | nil => exact iff_of_true rfl (by simp)
  | cons x xs =>
      by_cases hx : x = sp
      · subst hx
        rw [skipSpaces, run_bind_of_done (run_expect_eq_done.2 rfl), skipWhile, run_bind_eq_more,
          run_span_eq_more]
        simp
      · simp [skipSpaces, expect, run_bind, next, hx]

theorem stretchable_skipSpaces : skipSpaces.Stretchable := by
  intro xs k hm
  refine ⟨List.replicate k sp, List.length_replicate, run_skipSpaces_eq_more.2 ?_⟩
  intro c hc
  rcases List.mem_append.1 hc with hc | hc
  · exact run_skipSpaces_eq_more.1 hm c hc
  · exact (List.mem_replicate.1 hc).2

theorem refuses_requestTarget : requestTarget.Refuses 1 := by
  refine Refuses.bind stopsAt_skipEmptyLine ?_ fun _ _ _ h => by cases h
  intro _
  refine Refuses.bind (refuses_parseToken (by decide)).stopsAt ?_
    fun _ _ _ h => by cases h
  intro method
  refine Refuses.bind stopsAt_skipSpaces ?_ fun _ _ _ h => by cases h
  intro _
  exact Refuses.bind_pure (refuses_span (by decide) (by decide))

theorem extendable_requestTarget : requestTarget.Extendable := by
  refine extendable_skipEmptyLine.bind (fun _ => Stretchable.extendable ?_) fun _ h => by cases h
  apply (stretchable_parseToken (by decide)).bind
  intro method
  apply stretchable_skipSpaces.bind
  intro _
  exact (stretchable_span 97 (by decide) (by decide)).bind fun path => stretchable_pure _

/-- The path has stopped at a space, which stays in place. -/
theorem requestTarget_rest {buf rest : Bytes} {target : Bytes × Bytes}
    (h : requestTarget.run buf = .done target rest) : ∃ tail, rest = sp :: tail := by
  simp only [requestTarget, run_bind_eq_done] at h
  obtain ⟨_, _, _, _, _, _, _, _, _, _, _, hpath, h⟩ := h
  cases h
  obtain ⟨-, ⟨c, tail, rfl, hc⟩, -⟩ := run_span_eq_done.1 hpath
  exact ⟨tail, by simpa using hc⟩

/-- A request line that is cut off before the end of the path can stay so. -/
theorem requestTarget_stretch {received : Bytes} (h : requestTarget.run received = .more)
    (k : Nat) : ∃ ys, ys.length = k ∧ requestTarget.run (received ++ ys) = .more := by
  obtain ⟨ys, -, ⟨hlen, hmore⟩ | ⟨target, hdone⟩⟩ := extendable_requestTarget received k h
  · exact ⟨ys, hlen, hmore⟩
  · obtain ⟨tail, htail⟩ := requestTarget_rest hdone
    cases htail

/-! ## The headers -/

theorem stopsAt_headerName : headerName.StopsAt 1 := by
  apply (refuses_parseToken (by decide)).stopsAt.bind
  intro name
  split
  · exact (refuses_fail 1).stopsAt
  · apply (refuses_expect (by decide)).stopsAt.bind
    intro _
    exact (stopsAt_skipWhile (by decide)).bind fun _ => stopsAt_pure 1 name

theorem extendable_headerName : headerName.Extendable := by
  apply (stretchable_parseToken (by decide)).bind_extendable
  intro name
  split
  · exact extendable_fail
  · refine (extendable_expect colon).bind (fun _ => Stretchable.extendable ?_)
      fun _ h => by cases h
    exact (stretchable_skipWhile sp (by decide)).bind fun _ => stretchable_pure name

theorem refuses_getTokenToEol : getTokenToEol.Refuses 1 := by
  refine Refuses.bind (stopsAt_span (by decide)) ?_ fun _ _ _ h => by cases h
  intro token
  exact Refuses.bind_pure refuses_endOfLine

theorem extendable_getTokenToEol : getTokenToEol.Extendable := by
  apply (stretchable_span 97 (by decide) rfl).bind_extendable
  intro token
  exact extendable_endOfLine.bind (fun _ => extendable_pure token) fun _ h => by cases h

theorem run_parseHeaders_nil (room : Nat) (headers : List PhrHeader) :
    (parseHeaders room headers).run [] = .more := by
  cases room <;> rfl

theorem refuses_parseHeaders (room : Nat) (headers : List PhrHeader) :
    (parseHeaders room headers).Refuses 1 := by
  induction room generalizing headers with
  | zero =>
      unfold parseHeaders
      refine Refuses.bind (stopsAt_peek 1) ?_ ?_
      · intro c
        split
        · exact Refuses.bind_pure refuses_endOfLine
        · exact refuses_fail 1
      · intro c b rest h
        split at h <;> cases h
  | succ room ih =>
      have hline : ∀ name, Refuses 1 (do
          let value ← getTokenToEol
          parseHeaders room (headers ++ [⟨name, trimRight value⟩])) := fun name => by
        apply Refuses.bind refuses_getTokenToEol.stopsAt (fun value => ih _)
        intro a b rest h
        rw [run_parseHeaders_nil] at h
        cases h
      unfold parseHeaders
      refine Refuses.bind (stopsAt_peek 1) ?_ ?_
      · intro c
        split
        · exact Refuses.bind_pure refuses_endOfLine
        · dsimp only
          split
          · exact hline none
          · refine Refuses.bind stopsAt_headerName (fun name => hline (some name))
              fun _ _ _ h => by cases h
      · intro c b rest h
        split at h
        · cases h
        · dsimp only at h
          split at h <;> cases h

theorem extendable_parseHeaders (room : Nat) (headers : List PhrHeader) :
    (parseHeaders room headers).Extendable := by
  induction room generalizing headers with
  | zero =>
      unfold parseHeaders
      refine extendable_peek_bind (c := cr) ?_ rfl
      intro c
      split
      · exact extendable_endOfLine.bind (fun _ => extendable_pure headers) fun _ h => by cases h
      · exact extendable_fail
  | succ room ih =>
      have hline : ∀ name, Extendable (do
          let value ← getTokenToEol
          parseHeaders room (headers ++ [⟨name, trimRight value⟩])) := fun name => by
        apply extendable_getTokenToEol.bind (fun value => ih _)
        intro value h
        rw [run_parseHeaders_nil] at h
        cases h
      unfold parseHeaders
      refine extendable_peek_bind (c := cr) ?_ rfl
      intro c
      split
      · exact extendable_endOfLine.bind (fun _ => extendable_pure headers) fun _ h => by cases h
      · dsimp only
        split
        · exact hline none
        · exact extendable_headerName.bind (fun name => hline (some name)) fun _ h => by cases h

/-- The request from the end of the version on. -/
def headerLines (method path : Bytes) (minorVersion : Nat) : Scanner UInt8 PhrRequest := do
  endOfLine
  let headers ← parseHeaders maxHeaders []
  pure ⟨method, path, minorVersion, headers⟩

theorem refuses_headerLines (method path : Bytes) (minorVersion : Nat) :
    (headerLines method path minorVersion).Refuses 1 := by
  refine Refuses.bind refuses_endOfLine.stopsAt ?_ ?_
  · intro _
    exact Refuses.bind_pure (refuses_parseHeaders maxHeaders [])
  · intro _ _ _ h
    rw [run_bind_of_more (run_parseHeaders_nil _ _)] at h
    cases h

theorem extendable_headerLines (method path : Bytes) (minorVersion : Nat) :
    (headerLines method path minorVersion).Extendable := by
  refine extendable_endOfLine.bind ?_ ?_
  · intro _
    exact (extendable_parseHeaders maxHeaders []).bind (fun _ => extendable_pure _)
      fun _ h => by cases h
  · intro _ h
    rw [run_bind_of_more (run_parseHeaders_nil _ _)] at h
    cases h

/-- A method and a path that are not empty are followed by the version and the headers. -/
theorem requestRest_eq {method path : Bytes} (hm : method ≠ []) (hp : path ≠ []) :
    requestRest method path = parseHttpVersion >>= headerLines method path := by
  rw [requestRest, if_neg (by simp [hm, hp])]
  rfl

/-! ## The version field -/

/-- What is there of the version field can become `HTTP/1.` and a digit. -/
def versionMatches (field : Bytes) : Bool :=
  (field.take 7).isPrefixOf (bytes "HTTP/1.") && (field[7]?).all fun c => 48 ≤ c && c ≤ 57

theorem run_expect_bind {α : Type} {c x : UInt8} {xs : Bytes} {p : Scanner UInt8 α} :
    (expect c >>= fun _ => p).run (x :: xs) = if x = c then p.run xs else .fail := by
  rw [run_bind, expect, run_bind_of_done (run_next_eq_done.2 rfl)]
  by_cases h : x = c
  · rw [if_pos h, if_pos h]
    rfl
  · rw [if_neg h, if_neg h]
    rfl

theorem versionMatches_cons {a b c d e f g i : UInt8} {tail : Bytes} :
    versionMatches (a :: b :: c :: d :: e :: f :: g :: i :: tail) = true ↔
      a = 72 ∧ b = 84 ∧ c = 84 ∧ d = 80 ∧ e = 47 ∧ f = 49 ∧ g = 46 ∧ 48 ≤ i ∧ i ≤ 57 := by
  have hlit : bytes "HTTP/1." = [72, 84, 84, 80, 47, 49, 46] := by decide
  simp [versionMatches, hlit, and_assoc]

/-- **The version check** reads eight bytes once there are nine. -/
theorem run_parseHttpVersion {xs : Bytes} (h : 9 ≤ xs.length) :
    parseHttpVersion.run xs =
      if versionMatches xs then .done ((xs.getD 7 0).toNat - 48) (xs.drop 8) else .fail := by
  obtain ⟨a, b, c, d, e, f, g, i, tail, rfl⟩ : ∃ a b c d e f g i tail,
      xs = a :: b :: c :: d :: e :: f :: g :: i :: tail := by
    match xs, h with
    | a :: b :: c :: d :: e :: f :: g :: i :: tail, _ => exact ⟨a, b, c, d, e, f, g, i, tail, rfl⟩
  have hwait : (atLeast 9 : Scanner UInt8 Unit).run
      (a :: b :: c :: d :: e :: f :: g :: i :: tail) =
        .done () (a :: b :: c :: d :: e :: f :: g :: i :: tail) := if_neg (by omega)
  have hdigit : ∀ x : UInt8, (do
      let c ← next
      if 48 ≤ c ∧ c ≤ 57 then pure (c.toNat - 48) else fail : Scanner UInt8 Nat).run (x :: tail) =
        if 48 ≤ x ∧ x ≤ 57 then .done (x.toNat - 48) tail else .fail := fun x => by
    rw [run_bind_of_done (run_next_eq_done.2 rfl)]
    split <;> rfl
  rw [parseHttpVersion, run_bind_of_done hwait]
  simp only [run_expect_bind, hdigit, versionMatches_cons]
  split_ifs with h1 h2 h3 h4 h5 h6 h7 h8 hall hall <;> simp_all

/-! ## No decision comes late -/

theorem passes_endOfLine : endOfLine.Passes := by
  intro xs ys a rest hm hd
  cases xs with
  | nil =>
      rcases run_endOfLine_eq_done.1 hd with rfl | rfl
      · exact Nat.lt_add_of_pos_right (n := rest.length) (k := 2) (by omega)
      · exact Nat.lt_succ_self _
  | cons x xs =>
      simp only [endOfLine, run_bind, next] at hm
      rw [List.cons_append, endOfLine, run_bind_of_done (run_next_eq_done.2 rfl)] at hd
      split at hm
      · next hcr =>
        rw [if_pos hcr] at hd
        exact passes_expect lf xs ys a rest hm hd
      · split at hm <;> cases hm

theorem reaches_requestTarget : requestTarget.Reaches := by
  refine Reaches.bind ?_ fun _ => reaches_span.bind ?_
  · apply reaches_peek.bind
    intro c
    split
    · exact passes_endOfLine.reaches
    · exact (passes_pure ()).reaches
  · intro method
    refine Reaches.bind ?_ fun _ => reaches_span.bind fun path => (passes_pure _).reaches
    exact (passes_expect sp).reaches.bind fun _ => reaches_skipWhile

theorem reaches_headerName : headerName.Reaches := by
  apply reaches_span.bind
  intro name
  split
  · exact passes_fail.reaches
  · exact (passes_expect colon).reaches.bind fun _ =>
      reaches_skipWhile.bind fun _ => (passes_pure name).reaches

theorem passes_getTokenToEol : getTokenToEol.Passes :=
  Passes.bind reaches_span (fun _ => passes_endOfLine.bind_pure) fun _ _ _ h => by cases h

theorem passes_parseHeaders (room : Nat) (headers : List PhrHeader) :
    (parseHeaders room headers).Passes := by
  induction room generalizing headers with
  | zero =>
      unfold parseHeaders
      refine Passes.bind reaches_peek ?_ ?_
      · intro c
        split
        · exact passes_endOfLine.bind_pure
        · exact passes_fail
      · intro c b rest h
        split at h <;> cases h
  | succ room ih =>
      have hline : ∀ name, Passes (do
          let value ← getTokenToEol
          parseHeaders room (headers ++ [⟨name, trimRight value⟩])) := fun name => by
        apply Passes.bind passes_getTokenToEol.reaches (fun value => ih _)
        intro a b rest h
        rw [run_parseHeaders_nil] at h
        cases h
      unfold parseHeaders
      refine Passes.bind reaches_peek ?_ ?_
      · intro c
        split
        · exact passes_endOfLine.bind_pure
        · dsimp only
          split
          · exact hline none
          · exact Passes.bind reaches_headerName (fun name => hline (some name))
              fun _ _ _ h => by cases h
      · intro c b rest h
        split at h
        · cases h
        · dsimp only at h
          split at h <;> cases h

theorem passes_headerLines (method path : Bytes) (minorVersion : Nat) :
    (headerLines method path minorVersion).Passes := by
  refine Passes.bind passes_endOfLine.reaches ?_ ?_
  · intro _
    exact (passes_parseHeaders maxHeaders []).bind_pure
  · intro _ _ _ h
    rw [run_bind_of_more (run_parseHeaders_nil _ _)] at h
    cases h

/-- The version check waits for a byte behind the version, which the end of the line consumes. -/
theorem passes_requestRest (method path : Bytes) : (requestRest method path).Passes := by
  by_cases hempty : method = [] ∨ path = []
  · rw [requestRest, if_pos hempty]
    exact passes_fail
  · rw [requestRest_eq (not_or.1 hempty).1 (not_or.1 hempty).2]
    intro xs ys req rest hm hd
    obtain ⟨v, mid, hv, hlines⟩ := run_bind_eq_done.1 hd
    rcases run_bind_eq_more.1 hm with hm | ⟨v', mid', hv', hm⟩
    · have hshort : xs.length < 9 := by
        by_contra hlong
        rw [run_parseHttpVersion (by omega)] at hm
        split at hm <;> cases hm
      have hlong : 9 ≤ (xs ++ ys).length := by
        by_contra hshort
        rw [parseHttpVersion, run_bind_of_more (if_pos (by omega))] at hv
        cases hv
      rw [run_parseHttpVersion hlong] at hv
      split at hv
      · cases hv
        have hread := (passes_headerLines _ _ _).length_lt (fun _ _ h => by cases h) hlines
        rw [List.length_drop] at hread
        rw [List.length_append] at hread hlong
        omega
      · cases hv
    · rw [parseHttpVersion.done_append ys hv'] at hv
      cases hv
      exact passes_headerLines _ _ _ mid' ys req rest hm hlines

/-- **The parser decides as soon as the head is there.** -/
theorem passes_parseRequest : parseRequest.Passes := by
  refine Passes.bind reaches_requestTarget ?_ ?_
  · intro target
    refine Passes.bind ((passes_expect sp).reaches.bind fun _ => reaches_skipWhile)
      (fun _ => passes_requestRest _ _) ?_
    intro _ _ _ h
    rw [requestRest] at h
    split at h <;> cases h
  · intro target _ _ h
    cases h

end ServerBase
