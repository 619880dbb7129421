import ServerBase.Network

/-!
# What the request parser accepts

The parts of the request line as functions of the bytes: the path that `phr_parse_request` reports
is the second word of the request line, whatever follows it.
-/

namespace ServerBase

open Scanner

/-! ## The path -/

/-- The buffer without the empty line it may start with. -/
def dropEmptyLine : Bytes → Bytes
  | 13 :: 10 :: rest => rest
  | 10 :: rest => rest
  | buf => buf

/-- The second word of the request line: what stands between the spaces behind the method and the
next space. -/
def secondWord (buf : Bytes) : Bytes :=
  (((dropEmptyLine buf).dropWhile (· ≠ sp)).dropWhile (· = sp)).takeWhile (· ≠ sp)

theorem run_endOfLine_eq_done {xs rest : Bytes} :
    endOfLine.run xs = .done () rest ↔ xs = cr :: lf :: rest ∨ xs = lf :: rest := by
  rw [endOfLine, run_bind_eq_done]
  constructor
  · rintro ⟨c, mid, hc, h⟩
    rw [run_next_eq_done] at hc
    split at h
    · next hcr =>
      rw [run_expect_eq_done] at h
      exact .inl (by rw [hc, hcr, h])
    · split at h
      · next hlf => cases h; exact .inr (by rw [hc, hlf])
      · cases h
  · rintro (rfl | rfl)
    · exact ⟨cr, lf :: rest, rfl, by simp [run_expect_eq_done]⟩
    · exact ⟨lf, rest, rfl, by simp [cr, lf]⟩

theorem run_skipEmptyLine_eq_done {xs rest : Bytes}
    (h : skipEmptyLine.run xs = .done () rest) : rest = dropEmptyLine xs := by
  rw [skipEmptyLine, run_bind_eq_done] at h
  obtain ⟨c, mid, hc, h⟩ := h
  obtain ⟨rfl, xs', rfl⟩ := run_peek_eq_done.1 hc
  split at h
  · rcases run_endOfLine_eq_done.1 h with h | h <;> rw [h] <;> rfl
  · next hne =>
    cases h
    simp only [not_or, cr, lf] at hne
    unfold dropEmptyLine
    split
    · next heq => exact absurd (List.cons.inj heq).1 hne.1
    · next heq => exact absurd (List.cons.inj heq).1 hne.2
    · rfl

theorem run_skipSpaces_eq_done {xs rest : Bytes}
    (h : skipSpaces.run (sp :: xs) = .done () rest) : rest = xs.dropWhile (· = sp) := by
  rw [skipSpaces, run_bind_of_done (run_expect_eq_done.2 rfl)] at h
  exact (run_skipWhile_eq_done.1 h).2

/-- The method stops at the first space, the path is the second word, and neither of its bytes is
a control character or a space. -/
theorem requestTarget_done {buf method path rest : Bytes}
    (h : requestTarget.run buf = .done (method, path) rest) :
    path = secondWord buf ∧ ∀ c ∈ path, c ≠ sp ∧ isCtl c = false := by
  simp only [requestTarget, run_bind_eq_done] at h
  obtain ⟨_, line, hline, _, atSpace, hmethod, _, atPath, hspaces, _, atEnd, hpath, h⟩ := h
  cases h
  obtain ⟨hline', ⟨c, tail, rfl, hc⟩, hm⟩ := run_span_eq_done.1 hmethod
  obtain ⟨hpath', ⟨d, end', rfl, hd⟩, hp⟩ := run_span_eq_done.1 hpath
  obtain rfl : c = sp := by simpa using hc
  obtain rfl : d = sp := by simpa using hd
  have hbytes : ∀ y ∈ path, y ≠ sp ∧ isCtl y = false := fun y hy => by
    simpa using hp y hy
  refine ⟨?_, hbytes⟩
  have hskip : ∀ y ∈ method, decide (y ≠ sp) = true := fun y hy => by simpa using (hm y hy).1
  have hpos : ∀ y ∈ path, decide (y ≠ sp) = true := fun y hy => by simpa using (hbytes y hy).1
  rw [secondWord, ← run_skipEmptyLine_eq_done hline, hline', List.dropWhile_append_of_pos hskip,
    List.dropWhile_cons_of_neg (by simp), List.dropWhile_cons_of_pos (by simp),
    ← run_skipSpaces_eq_done hspaces, hpath', List.takeWhile_append_of_pos hpos,
    List.takeWhile_cons_of_neg (by simp), List.append_nil]

/-- A parsed request comes from a decided request line and a decided rest. -/
theorem parseRequest_done {buf rest : Bytes} {req : PhrRequest}
    (h : parseRequest.run buf = .done req rest) :
    ∃ method path atSpace mid, requestTarget.run buf = .done (method, path) atSpace ∧
      skipSpaces.run atSpace = .done () mid ∧ (requestRest method path).run mid = .done req rest ∧
      req.method = method ∧ req.path = path := by
  simp only [parseRequest, run_bind_eq_done] at h
  obtain ⟨⟨method, path⟩, atSpace, htarget, _, mid, hspaces, h⟩ := h
  refine ⟨method, path, atSpace, mid, htarget, hspaces, h, ?_⟩
  rw [requestRest] at h
  split at h
  · cases h
  · simp only [run_bind_eq_done] at h
    obtain ⟨_, _, _, _, _, _, _, _, _, h⟩ := h
    cases h
    exact ⟨rfl, rfl⟩

theorem phrParseRequest_eq_success {buf : Bytes} {pret : Nat} {req : PhrRequest} :
    phrParseRequest buf = .success pret req ↔
      ∃ rest, parseRequest.run buf = .done req rest ∧ pret = buf.length - rest.length := by
  unfold phrParseRequest
  cases parseRequest.run buf with
  | done a rest => simp [and_comm, eq_comm]
  | fail => simp
  | more => simp

/-- **The path of a parsed request** is the second word of its request line, and it has no NUL. -/
theorem phrParseRequest_path {buf : Bytes} {pret : Nat} {req : PhrRequest}
    (h : phrParseRequest buf = .success pret req) :
    req.path = secondWord buf ∧ ∀ c ∈ req.path, c ≠ 0 := by
  obtain ⟨rest, hrun, -⟩ := phrParseRequest_eq_success.1 h
  obtain ⟨method, path, atSpace, mid, htarget, -, -, -, rfl⟩ := parseRequest_done hrun
  obtain ⟨hpath, hbytes⟩ := requestTarget_done htarget
  refine ⟨hpath, ?_⟩
  intro c hc h0
  have := (hbytes c hc).2
  simp [h0, isCtl] at this

end ServerBase
