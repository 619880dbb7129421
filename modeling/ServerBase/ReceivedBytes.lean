import Mathlib.Data.List.GetD
import Mathlib.Data.List.Infix
import ServerBase.Dispatch
import ServerBase.Undecided

/-!
# What the rest of the receive buffer decides

`http_on_read` hands the parser the whole buffer of `MAX_PACKET_SIZE` bytes, of which only the first
`nread` were received.

**When the rest does not matter** (`onlyReceivedMatters_iff`). The received bytes decide the parser
alone, or they fill the buffer, or they end in the version field and the rest of the buffer is too
short for it or comes too late to make it right. Otherwise one content of the rest makes the
request malformed and another does not.
-/

namespace ServerBase

open Scanner

variable {P R : Type}

/-! ## Requests cut off at the version -/

/-- What was received of the HTTP version field, when the request line has got that far. -/
def versionField (received : Bytes) : Option Bytes :=
  match requestTarget.run received with
  | .done (method, path) atSpace =>
      if method = [] ∨ path = [] then none else some (atSpace.dropWhile fun c => c = sp)
  | _ => none

/-- The received bytes end in the version field, and `room` more bytes cannot complete it or
cannot make it right. -/
def VersionSettled (room : Nat) (received : Bytes) : Prop :=
  ∃ field, versionField received = some field ∧ field.length < 9 ∧
    (field.length + room < 9 ∨ versionMatches field = false)

theorem versionField_eq_some {received field : Bytes} :
    versionField received = some field ↔
      ∃ method path tail, requestTarget.run received = .done (method, path) (sp :: tail) ∧
        method ≠ [] ∧ path ≠ [] ∧ field = tail.dropWhile fun c => c = sp := by
  unfold versionField
  cases h : requestTarget.run received with
  | done target atSpace =>
      obtain ⟨method, path⟩ := target
      obtain ⟨tail, rfl⟩ := requestTarget_rest h
      simp only [Option.ite_none_left_eq_some, not_or, Option.some.injEq, Answer.done.injEq,
        Prod.mk.injEq, List.cons.injEq, true_and]
      constructor
      · rintro ⟨⟨hm, hp⟩, rfl⟩
        exact ⟨method, path, tail, ⟨⟨rfl, rfl⟩, rfl⟩, hm, hp, by simp⟩
      · rintro ⟨_, _, _, ⟨⟨rfl, rfl⟩, rfl⟩, hm, hp, rfl⟩
        exact ⟨⟨hm, hp⟩, by simp⟩
  | fail => simp
  | more => simp

theorem run_skipSpaces (xs : Bytes) :
    skipSpaces.run (sp :: xs) =
      if xs.dropWhile (fun c => c = sp) = [] then .more
      else .done () (xs.dropWhile fun c => c = sp) := by
  split
  · next h =>
    rw [run_skipSpaces_eq_more]
    simpa [List.dropWhile_eq_nil_iff] using h
  · next h =>
    rw [skipSpaces, run_bind_of_done (run_expect_eq_done.2 rfl)]
    exact run_skipWhile_eq_done.2 ⟨h, rfl⟩

/-- The parser behind a request line that has got to the version field. -/
theorem run_parseRequest_append {received method path tail : Bytes}
    (h : requestTarget.run received = .done (method, path) (sp :: tail)) (ys : Bytes) :
    parseRequest.run (received ++ ys) =
      (skipSpaces >>= fun _ => requestRest method path).run (sp :: (tail ++ ys)) := by
  rw [parseRequest, run_bind_of_done (requestTarget.done_append ys h)]
  rfl

theorem run_requestRest_of_short {method path field : Bytes} (hm : method ≠ []) (hp : path ≠ [])
    (h : field.length < 9) : (requestRest method path).run field = .more := by
  rw [requestRest_eq hm hp, parseHttpVersion]
  exact run_bind_of_more (run_bind_of_more (if_pos h))

theorem run_requestRest_of_long {method path field : Bytes} (hm : method ≠ []) (hp : path ≠ [])
    (h : 9 ≤ field.length) :
    (requestRest method path).run field =
      if versionMatches field then
        (headerLines method path ((field.getD 7 0).toNat - 48)).run (field.drop 8)
      else .fail := by
  rw [requestRest_eq hm hp, run_bind, run_parseHttpVersion h]
  split_ifs <;> rfl

/-- A version field that is wrong from the start stays wrong. -/
theorem versionMatches_of_append {field ys : Bytes} (h : versionMatches (field ++ ys) = true) :
    versionMatches field = true := by
  simp only [versionMatches, Bool.and_eq_true, List.isPrefixOf_iff_prefix] at h ⊢
  obtain ⟨hpre, hdigit⟩ := h
  refine ⟨(List.IsPrefix.take (List.prefix_append field ys) 7).trans hpre, ?_⟩
  by_cases hlen : 7 < field.length
  · rwa [List.getElem?_append_left hlen] at hdigit
  · rw [List.getElem?_eq_none (by omega)]
    rfl

/-- Only the first eight bytes of the field are looked at. -/
theorem versionMatches_append {field : Bytes} (h : 8 ≤ field.length) (ys : Bytes) :
    versionMatches (field ++ ys) = versionMatches field := by
  simp only [versionMatches, List.take_append_of_le_length (show 7 ≤ field.length by omega),
    List.getElem?_append_left (show 7 < field.length by omega)]

/-- A version field that starts right, completed to eight bytes. -/
def completeVersion (field : Bytes) : Bytes := field ++ (bytes "HTTP/1.1").drop field.length

theorem length_completeVersion {field : Bytes} (h : field.length ≤ 8) :
    (completeVersion field).length = 8 := by
  have hlit : (bytes "HTTP/1.1").length = 8 := by decide
  rw [completeVersion, List.length_append, List.length_drop]
  omega

theorem versionMatches_completeVersion {field : Bytes} (h : versionMatches field = true) :
    versionMatches (completeVersion field) = true := by
  by_cases h8 : 8 ≤ field.length
  · rwa [completeVersion, versionMatches_append h8]
  · simp only [versionMatches, Bool.and_eq_true, List.isPrefixOf_iff_prefix] at h
    have hpre := h.1
    rw [List.take_of_length_le (by omega)] at hpre
    obtain ⟨more, hmore⟩ := hpre
    have hlit : bytes "HTTP/1.1" = bytes "HTTP/1." ++ [49] := by decide
    have hcomplete : completeVersion field = bytes "HTTP/1.1" := by
      rw [completeVersion, hlit, ← hmore, List.append_assoc, List.drop_left]
    rw [hcomplete]
    decide

/-- More bytes behind the field do not reach it; in front of an empty one they are not spaces. -/
theorem dropWhile_spaces_append (tail ys : Bytes)
    (h : tail.dropWhile (fun c => c = sp) = [] → ∀ y ys', ys = y :: ys' → y ≠ sp) :
    (tail ++ ys).dropWhile (fun c => c = sp) = tail.dropWhile (fun c => c = sp) ++ ys := by
  rw [List.dropWhile_append]
  split
  · next hnil =>
    rw [List.isEmpty_iff.1 hnil, List.nil_append]
    cases ys with
    | nil => rfl
    | cons y ys =>
        have hy := h (List.isEmpty_iff.1 hnil) y ys rfl
        exact List.dropWhile_cons_of_neg (by simpa using hy)
  · rfl

theorem length_dropWhile_append_le (p : UInt8 → Bool) (tail ys : Bytes) :
    ((tail ++ ys).dropWhile p).length ≤ (tail.dropWhile p).length + ys.length := by
  rw [List.dropWhile_append]
  split
  · exact (List.length_dropWhile_le p ys).trans (Nat.le_add_left _ _)
  · rw [List.length_append]

/-- **A settled version field** leaves the request incomplete for every rest of the buffer, or
makes it malformed for every rest. -/
theorem parse_settled {room : Nat} {received : Bytes} (h : VersionSettled room received) :
    (∀ stale, stale.length = room → parseRequest.run (received ++ stale) = .more) ∨
      ∀ stale, stale.length = room → parseRequest.run (received ++ stale) = .fail := by
  obtain ⟨field, hfield, hlen, hsettled⟩ := h
  obtain ⟨method, path, tail, htarget, hm, hp, rfl⟩ := versionField_eq_some.1 hfield
  by_cases hroom : (tail.dropWhile fun c => c = sp).length + room < 9
  · left
    intro stale hstale
    have hshort := length_dropWhile_append_le (fun c => c = sp) tail stale
    rw [run_parseRequest_append htarget, run_bind, run_skipSpaces]
    by_cases hnil : (tail ++ stale).dropWhile (fun c => c = sp) = []
    · rw [if_pos hnil]
    · rw [if_neg hnil]
      exact run_requestRest_of_short hm hp (by omega)
  · have hwrong := hsettled.resolve_left hroom
    right
    intro stale hstale
    have hne : (tail.dropWhile fun c => c = sp) ≠ [] := by
      intro hnil
      rw [hnil] at hwrong
      cases hwrong
    have happend : (tail ++ stale).dropWhile (fun c => c = sp) =
        tail.dropWhile (fun c => c = sp) ++ stale := by
      rw [List.dropWhile_append, if_neg (by simpa using hne)]
    rw [run_parseRequest_append htarget, run_bind, run_skipSpaces, happend,
      if_neg (by simp [hne])]
    show (requestRest method path).run _ = _
    rw [run_requestRest_of_long hm hp (by rw [List.length_append]; omega), if_neg]
    intro hright
    rw [versionMatches_of_append hright] at hwrong
    cases hwrong

/-- What the rest of the buffer can do to an undecided request: make it malformed, or keep it
from being malformed. -/
def Swayed (room : Nat) (received : Bytes) : Prop :=
  (∃ stale, stale.length = room ∧ parseRequest.run (received ++ stale) = .fail) ∧
    ∃ stale, stale.length = room ∧ parseRequest.run (received ++ stale) ≠ .fail

theorem replicate_ne_sp (k : Nat) :
    ∀ y ys', List.replicate k (1 : UInt8) = y :: ys' → y ≠ sp := by
  intro y ys' h
  have hy : y ∈ List.replicate k (1 : UInt8) := by rw [h]; exact List.mem_cons_self
  rw [(List.mem_replicate.1 hy).2]
  decide

/-- Cut off before the end of the path. -/
theorem swayed_of_requestTarget {received : Bytes} (h : requestTarget.run received = .more)
    (room : Nat) : Swayed (room + 1) received := by
  constructor
  · exact ⟨1 :: List.replicate room 1, by simp,
      run_bind_of_fail (refuses_requestTarget received _ h)⟩
  · obtain ⟨ys, hlen, hmore⟩ := requestTarget_stretch h (room + 1)
    exact ⟨ys, hlen, by rw [parseRequest, run_bind_of_more hmore]; simp⟩

section
variable {received method path tail : Bytes}

/-- Cut off in front of the version, with an empty method or path. -/
theorem swayed_of_empty (h : requestTarget.run received = .done (method, path) (sp :: tail))
    (hempty : method = [] ∨ path = []) (hm : skipSpaces.run (sp :: tail) = .more) (room : Nat) :
    Swayed (room + 1) received := by
  constructor
  · refine ⟨1 :: List.replicate room 1, by simp, ?_⟩
    rw [run_parseRequest_append h]
    rcases stopsAt_skipSpaces (sp :: tail) (List.replicate room 1) hm with hfail | ⟨a, hdone⟩
    · exact run_bind_of_fail hfail
    · refine (run_bind_of_done hdone).trans ?_
      rw [requestRest, if_pos hempty]
      rfl
  · obtain ⟨ys, hlen, hmore⟩ := stretchable_skipSpaces (sp :: tail) (room + 1) hm
    refine ⟨ys, hlen, ?_⟩
    rw [run_parseRequest_append h, ← List.cons_append, run_bind_of_more hmore]
    simp

/-- Cut off behind the version. -/
theorem swayed_of_headers (h : requestTarget.run received = .done (method, path) (sp :: tail))
    (hm : method ≠ []) (hp : path ≠ []) (hlen : 9 ≤ (tail.dropWhile fun c => c = sp).length)
    (hmore : (skipSpaces >>= fun _ => requestRest method path).run (sp :: tail) = .more)
    (room : Nat) : Swayed (room + 1) received := by
  have hne : (tail.dropWhile fun c => c = sp) ≠ [] := List.ne_nil_of_length_pos (by omega)
  have hspaces : ∀ ys, skipSpaces.run (sp :: (tail ++ ys)) =
      .done () (tail.dropWhile (fun c => c = sp) ++ ys) := fun ys => by
    rw [run_skipSpaces, dropWhile_spaces_append tail ys fun hnil => absurd hnil hne,
      if_neg (by simp [hne])]
  have hspaces' := hspaces []
  rw [List.append_nil, List.append_nil] at hspaces'
  have hrun : ∀ ys, parseRequest.run (received ++ ys) =
      if versionMatches (tail.dropWhile fun c => c = sp) then
        (headerLines method path
          (((tail.dropWhile fun c => c = sp).getD 7 0).toNat - 48)).run
            ((tail.dropWhile (fun c => c = sp)).drop 8 ++ ys)
      else .fail := fun ys => by
    rw [run_parseRequest_append h, run_bind, hspaces]
    show (requestRest method path).run _ = _
    rw [run_requestRest_of_long hm hp (by rw [List.length_append]; omega),
      versionMatches_append (by omega), List.getD_append _ _ _ _ (by omega),
      List.drop_append_of_le_length (by omega)]
  rw [run_bind, hspaces'] at hmore
  change (requestRest method path).run _ = _ at hmore
  rw [run_requestRest_of_long hm hp hlen] at hmore
  by_cases hright : versionMatches (tail.dropWhile fun c => c = sp) = true
  · rw [if_pos hright] at hmore
    simp only [if_pos hright] at hrun
    constructor
    · exact ⟨1 :: List.replicate room 1, by simp,
        (hrun _).trans (refuses_headerLines _ _ _ _ _ hmore)⟩
    · obtain ⟨ys, hys, hgood⟩ := (extendable_headerLines _ _ _).exists_ne_fail _ hmore 0 (room + 1)
      exact ⟨ys, hys, by rw [hrun]; exact hgood⟩
  · rw [if_neg hright] at hmore
    cases hmore

/-- Cut off inside a version field that can still come right. -/
theorem swayed_of_version (h : requestTarget.run received = .done (method, path) (sp :: tail))
    (hm : method ≠ []) (hp : path ≠ []) {room : Nat}
    (hlen : (tail.dropWhile fun c => c = sp).length < 9)
    (hroom : 9 ≤ (tail.dropWhile fun c => c = sp).length + room)
    (hright : versionMatches (tail.dropWhile fun c => c = sp) = true) :
    Swayed room received := by
  have hrun : ∀ ys, (tail.dropWhile (fun c => c = sp) = [] → ∀ y ys', ys = y :: ys' → y ≠ sp) →
      ys.length = room → parseRequest.run (received ++ ys) =
        if versionMatches (tail.dropWhile (fun c => c = sp) ++ ys) then
          (headerLines method path
            (((tail.dropWhile (fun c => c = sp) ++ ys).getD 7 0).toNat - 48)).run
              ((tail.dropWhile (fun c => c = sp) ++ ys).drop 8)
        else .fail := by
    intro ys hys hlen'
    have hlong : 9 ≤ (tail.dropWhile (fun c => c = sp) ++ ys).length := by
      rw [List.length_append]; omega
    rw [run_parseRequest_append h, run_bind, run_skipSpaces, dropWhile_spaces_append tail ys hys,
      if_neg (List.ne_nil_of_length_pos (by omega))]
    exact run_requestRest_of_long hm hp hlong
  generalize tail.dropWhile (fun c => c = sp) = field at hlen hroom hright hrun
  constructor
  · refine ⟨List.replicate room 1, List.length_replicate, ?_⟩
    rw [hrun _ (fun _ => replicate_ne_sp room) List.length_replicate]
    split
    · -- the ninth byte is wrong: a version is followed by the end of the line
      rw [List.drop_append, List.drop_of_length_le (by omega), List.drop_replicate,
        List.nil_append]
      obtain ⟨k, hk⟩ : ∃ k, room - (8 - field.length) = k + 1 :=
        ⟨room - (8 - field.length) - 1, by omega⟩
      rw [hk]
      exact refuses_headerLines _ _ _ [] (List.replicate k 1) rfl
    · rfl
  · have hversion := @length_completeVersion field (by omega)
    obtain ⟨ys, hys, hgood⟩ := (extendable_headerLines method path
      (((completeVersion field).getD 7 0).toNat - 48)).exists_ne_fail [] rfl 0
        (room - (8 - field.length))
    have hcat : field ++ ((bytes "HTTP/1.1").drop field.length ++ ys) =
        completeVersion field ++ ys := by rw [completeVersion, List.append_assoc]
    have hlen' : ((bytes "HTTP/1.1").drop field.length ++ ys).length = room := by
      have hlit : (bytes "HTTP/1.1").length = 8 := by decide
      rw [List.length_append, List.length_drop]
      omega
    have hstart : field = [] → ∀ y ys', (bytes "HTTP/1.1").drop field.length ++ ys = y :: ys' →
        y ≠ sp := by
      rintro rfl y ys' h
      have hH : y = 72 := (List.cons.inj h).1.symm
      rw [hH]
      decide
    refine ⟨(bytes "HTTP/1.1").drop field.length ++ ys, hlen', ?_⟩
    rw [hrun _ hstart hlen', hcat, versionMatches_append hversion.ge,
      if_pos (versionMatches_completeVersion hright), List.getD_append _ _ _ _ (by omega),
      List.drop_left' hversion]
    exact hgood

end

/-- **An undecided request is swayed** by what lies behind it, unless its version field is
settled. -/
theorem parse_swayed {room : Nat} {received : Bytes} (h : parseRequest.run received = .more)
    (hroom : 0 < room) (hs : ¬ VersionSettled room received) : Swayed room received := by
  obtain ⟨k, rfl⟩ : ∃ k, room = k + 1 := ⟨room - 1, by omega⟩
  rcases run_bind_eq_more.1 h with hm | ⟨⟨method, path⟩, atSpace, htarget, hm⟩
  · exact swayed_of_requestTarget hm k
  · obtain ⟨tail, rfl⟩ := requestTarget_rest htarget
    change (skipSpaces >>= fun _ => requestRest method path).run (sp :: tail) = .more at hm
    by_cases hempty : method = [] ∨ path = []
    · rcases run_bind_eq_more.1 hm with hm | ⟨_, mid, -, hm⟩
      · exact swayed_of_empty htarget hempty hm k
      · rw [requestRest, if_pos hempty] at hm
        cases hm
    · obtain ⟨hmethod, hpath⟩ := not_or.1 hempty
      by_cases hlen : (tail.dropWhile fun c => c = sp).length < 9
      · by_contra hne
        refine hs ⟨_, versionField_eq_some.2 ⟨method, path, tail, htarget, hmethod, hpath, rfl⟩,
          hlen, ?_⟩
        by_contra hopen
        obtain ⟨hroom, hright⟩ := not_or.1 hopen
        exact hne (swayed_of_version htarget hmethod hpath hlen (by omega) (by simpa using hright))
      · exact swayed_of_headers htarget hmethod hpath (by omega) hm k

/-! ## Two buffers with the same received bytes -/

/-- What `http_on_read` dispatches: the method, the path and the body. -/
def dispatched (nread : Int) (buf : Bytes) : Option (Bytes × Bytes × Bytes) :=
  match phrParseRequest buf with
  | .success pret req => some (req.method, req.path, (buf.drop pret).take (bodyLength nread pret))
  | _ => none

/-- Only the received bytes matter to `http_on_read`: whatever the rest of the buffer holds, it
dispatches and does the same, and a JSON-RPC body is what was received behind the head. -/
structure OnlyReceivedMatters (env : Env R) (settings : HTTPServerSettings P R)
    (received : Bytes) : Prop where
  same : ∀ stale stale' : Bytes, received.length + stale.length = MAX_PACKET_SIZE →
    received.length + stale'.length = MAX_PACKET_SIZE →
    dispatched received.length (received ++ stale) =
        dispatched received.length (received ++ stale') ∧
      httpOnRead env settings received.length (received ++ stale) =
        httpOnRead env settings received.length (received ++ stale')
  body : ∀ (stale : Bytes) (pret bodyLen : Nat),
    received.length + stale.length = MAX_PACKET_SIZE →
    .jsonrpcRequest pret bodyLen ∈ httpOnRead env settings received.length (received ++ stale) →
    pret ≤ received.length ∧ bodyLen = received.length - pret ∧
      ((received ++ stale).drop pret).take bodyLen = received.drop pret

section
variable {env : Env R} {settings : HTTPServerSettings P R} {received : Bytes}

theorem phrParseRequest_eq_malformed {buf : Bytes} :
    phrParseRequest buf = .malformed ↔ parseRequest.run buf = .fail := by
  unfold phrParseRequest
  cases parseRequest.run buf <;> simp

theorem phrParseRequest_eq_incomplete {buf : Bytes} :
    phrParseRequest buf = .incomplete ↔ parseRequest.run buf = .more := by
  unfold phrParseRequest
  cases parseRequest.run buf <;> simp

/-- The length of the head is at most the length of what it was parsed from. -/
theorem pret_le {buf : Bytes} {pret : Nat} {req : PhrRequest}
    (h : phrParseRequest buf = .success pret req) : pret ≤ buf.length := by
  obtain ⟨rest, -, rfl⟩ := phrParseRequest_eq_success.1 h
  exact Nat.sub_le _ _

/-- A head that was received is parsed the same with anything behind it. -/
theorem phrParseRequest_append {pret : Nat} {req : PhrRequest}
    (h : phrParseRequest received = .success pret req) (stale : Bytes) :
    phrParseRequest (received ++ stale) = .success pret req := by
  obtain ⟨rest, hrun, rfl⟩ := phrParseRequest_eq_success.1 h
  refine phrParseRequest_eq_success.2 ⟨rest ++ stale, parseRequest.done_append stale hrun, ?_⟩
  rw [List.length_append, List.length_append]
  omega

theorem bodyLength_of_le {nread pret : Nat} (h : pret ≤ nread) (hn : nread ≤ MAX_PACKET_SIZE) :
    bodyLength nread pret = nread - pret := by
  unfold bodyLength
  unfold MAX_PACKET_SIZE at hn
  omega

/-- The body is what was received behind the head. -/
theorem take_body {pret : Nat} (h : pret ≤ received.length)
    (hn : received.length ≤ MAX_PACKET_SIZE) (stale : Bytes) :
    ((received ++ stale).drop pret).take (bodyLength received.length pret) =
      received.drop pret := by
  rw [bodyLength_of_le h hn, List.drop_append_of_le_length h,
    List.take_append_of_le_length (by rw [List.length_drop]), List.take_of_length_le (by simp)]

/-- `handle_jsonrpc_request` reads `bodyLen` bytes of the body. -/
theorem handleJsonrpcRequest_congr {body body' : Bytes} {bodyLen : Nat} (h : bodyLen ≤ body.length)
    (h' : bodyLen ≤ body'.length) (heq : body.take bodyLen = body'.take bodyLen) :
    handleJsonrpcRequest env settings body bodyLen =
      handleJsonrpcRequest env settings body' bodyLen := by
  simp only [handleJsonrpcRequest, yyjsonRead, if_pos h, if_pos h', heq]

theorem dispatchRequest_append {pret : Nat} {req : PhrRequest} (h : pret ≤ received.length)
    (hn : received.length ≤ MAX_PACKET_SIZE) (stale : Bytes) :
    dispatchRequest env settings received.length (received ++ stale) pret req =
      dispatchRequest env settings received.length received pret req := by
  have hbody := take_body h hn
  have hsame : handleJsonrpcRequest env settings ((received ++ stale).drop pret)
      (bodyLength received.length pret) =
        handleJsonrpcRequest env settings (received.drop pret)
          (bodyLength received.length pret) := by
    refine handleJsonrpcRequest_congr ?_ ?_ ?_
    · rw [bodyLength_of_le h hn, List.length_drop, List.length_append]; omega
    · rw [bodyLength_of_le h hn, List.length_drop]
    · have hall := hbody []
      rw [List.append_nil] at hall
      rw [hbody, hall]
  simp only [dispatchRequest, hsame]

/-- `handle_jsonrpc_request` is called on what lies behind a parsed head. -/
theorem jsonrpcRequest_mem {nread : Int} {buf : Bytes} {pret bodyLen : Nat}
    (h : .jsonrpcRequest pret bodyLen ∈ httpOnRead env settings nread buf) :
    (∃ req, phrParseRequest buf = .success pret req) ∧ bodyLen = bodyLength nread pret := by
  simp only [httpOnRead, List.mem_append, List.mem_singleton, reduceCtorEq, or_false] at h
  split at h
  · cases hparse : phrParseRequest buf with
    | success pret' req =>
        simp only [hparse, dispatchRequest] at h
        split at h
        · simp at h
        · split at h
          · simp at h
          · simp at h
          · split at h
            · rcases List.mem_cons.1 h with h | h
              · obtain ⟨rfl, rfl⟩ := Action.jsonrpcRequest.inj h
                exact ⟨⟨req, rfl⟩, rfl⟩
              · rcases mem_handleJsonrpcRequest h with ⟨_, h⟩ | ⟨_, _, _, _, h⟩ | h | h <;> cases h
            · simp at h
    | malformed => simp [hparse] at h
    | incomplete => simp [hparse] at h
  · split at h
    · simp at h
    · cases h

/-- The answer to a malformed request is given to no other. -/
theorem httpOnRead_ne_malformed {nread : Int} {buf : Bytes} (hn : 0 < nread)
    (h : phrParseRequest buf ≠ .malformed) :
    httpOnRead env settings nread buf ≠
      [.send (.error kJsonRpcParseError "Parse error" none), .close, .freeBuf] := by
  simp only [httpOnRead, if_pos hn]
  cases hparse : phrParseRequest buf with
  | success pret req =>
      simp only [dispatchRequest]
      split
      · simp
      · split
        · simp
        · simp
        · split
          · simp
          · simp [kJsonRpcMethodNotFound, kJsonRpcParseError]
  | malformed => exact absurd hparse h
  | incomplete => simp [kJsonRpcServerError, kJsonRpcParseError]

/-- Received bytes that are a head, and more, decide everything. -/
theorem onlyReceivedMatters_of_success {pret : Nat} {req : PhrRequest}
    (hn : received.length ≤ MAX_PACKET_SIZE) (h : phrParseRequest received = .success pret req) :
    OnlyReceivedMatters env settings received := by
  have hpret := pret_le h
  have happend := phrParseRequest_append h
  refine ⟨fun stale stale' _ _ => ⟨?_, ?_⟩, ?_⟩
  · simp only [dispatched, happend, take_body hpret hn]
  · simp only [httpOnRead, happend, dispatchRequest_append hpret hn]
  · intro stale p l _ hmem
    obtain ⟨⟨req', hreq'⟩, rfl⟩ := jsonrpcRequest_mem hmem
    obtain ⟨rfl, rfl⟩ := PhrResult.success.inj ((happend stale).symm.trans hreq')
    exact ⟨hpret, bodyLength_of_le hpret hn, take_body hpret hn stale⟩

/-- Received bytes that stay malformed, or incomplete, are answered with the same error. -/
theorem onlyReceivedMatters_of_error (answer : PhrResult)
    (hne : ∀ pret req, answer ≠ .success pret req)
    (h : ∀ stale : Bytes, received.length + stale.length = MAX_PACKET_SIZE →
      phrParseRequest (received ++ stale) = answer) :
    OnlyReceivedMatters env settings received := by
  refine ⟨fun stale stale' hs hs' => ⟨?_, ?_⟩, ?_⟩
  · simp only [dispatched, h stale hs, h stale' hs']
  · simp only [httpOnRead, h stale hs, h stale' hs']
    cases answer with
    | success pret req => exact absurd rfl (hne pret req)
    | malformed => rfl
    | incomplete => rfl
  · intro stale p l hs hmem
    obtain ⟨⟨req, hreq⟩, -⟩ := jsonrpcRequest_mem hmem
    exact absurd ((h stale hs).symm.trans hreq) (hne p req)

theorem not_onlyReceivedMatters_of_swayed (hn : 1 ≤ received.length)
    (hle : received.length ≤ MAX_PACKET_SIZE)
    (h : Swayed (MAX_PACKET_SIZE - received.length) received) :
    ¬ OnlyReceivedMatters env settings received := by
  obtain ⟨⟨bad, hbad, hfail⟩, good, hgood, hne⟩ := h
  intro honly
  have hpos : (0 : Int) < received.length := by omega
  have hsame := (honly.same bad good (by omega) (by omega)).2
  refine httpOnRead_ne_malformed hpos (mt phrParseRequest_eq_malformed.1 hne) (hsame.symm.trans ?_)
  simp only [httpOnRead, if_pos hpos, phrParseRequest_eq_malformed.2 hfail]
  rfl

/-- **Only received bytes matter** exactly when they decide the parser, or fill the buffer, or end
in a settled version field. -/
theorem onlyReceivedMatters_iff (env : Env R) (settings : HTTPServerSettings P R)
    (received : Bytes) (hn : 1 ≤ received.length) (hle : received.length ≤ MAX_PACKET_SIZE) :
    OnlyReceivedMatters env settings received ↔
      phrParseRequest received ≠ .incomplete ∨ received.length = MAX_PACKET_SIZE ∨
        VersionSettled (MAX_PACKET_SIZE - received.length) received := by
  constructor
  · intro honly
    by_contra hopen
    obtain ⟨hundecided, hopen⟩ := not_or.1 hopen
    obtain ⟨hroom, hs⟩ := not_or.1 hopen
    refine not_onlyReceivedMatters_of_swayed hn hle (parse_swayed ?_ (by omega) hs) honly
    exact phrParseRequest_eq_incomplete.1 (not_not.1 hundecided)
  · intro h
    by_cases hundecided : phrParseRequest received = .incomplete
    · rcases h.resolve_left (not_not.2 hundecided) with hfull | hs
      · apply onlyReceivedMatters_of_error .incomplete (by simp)
        intro stale hstale
        rw [List.eq_nil_of_length_eq_zero (show stale.length = 0 by omega), List.append_nil,
          hundecided]
      · rcases parse_settled hs with hmore | hfail
        · exact onlyReceivedMatters_of_error .incomplete (by simp) fun stale hstale =>
            phrParseRequest_eq_incomplete.2 (hmore stale (by omega))
        · exact onlyReceivedMatters_of_error .malformed (by simp) fun stale hstale =>
            phrParseRequest_eq_malformed.2 (hfail stale (by omega))
    · cases hparse : phrParseRequest received with
      | success pret req => exact onlyReceivedMatters_of_success hle hparse
      | malformed =>
          apply onlyReceivedMatters_of_error .malformed (by simp)
          intro stale _
          exact phrParseRequest_eq_malformed.2
            (parseRequest.fail_append stale (phrParseRequest_eq_malformed.1 hparse))
      | incomplete => exact absurd hparse hundecided

end

/-- A login request that is received whole. -/
theorem onlyReceivedMatters_login :
    OnlyReceivedMatters (loginEnv (bytes "login")) (namedSettings (bytes "/auth") [bytes "/stats"]
      [bytes "login", bytes "register"])
      (bytes "POST /auth HTTP/1.1\r\n\r\n" ++ loginBody (bytes "login")) := by
  refine (onlyReceivedMatters_iff _ _ _ (by decide +kernel) (by decide +kernel)).2 (.inl ?_)
  obtain ⟨pret, req, hreq, -⟩ := PhrResult.exists_of_any
    (r := phrParseRequest (bytes "POST /auth HTTP/1.1\r\n\r\n" ++ loginBody (bytes "login")))
    (q := fun _ _ => true) (by decide +kernel)
  rw [hreq]
  simp

/-- What a buffer still holds of an earlier request ends the head of this one: the body starts
behind the received bytes and its length wraps around. -/
theorem staleBytes_end_head :
    let received := bytes "POST /auth HTTP/1.1\r\n"
    let settings := namedSettings (bytes "/auth") [bytes "/stats"] [bytes "login"]
    (∃ stale, received.length + stale.length = MAX_PACKET_SIZE ∧
      .jsonrpcRequest 23 (2 ^ 64 - 2) ∈
        httpOnRead (loginEnv (bytes "login")) settings 21 (received ++ stale)) ∧
      ¬ OnlyReceivedMatters (loginEnv (bytes "login")) settings received := by
  intro received settings
  have hwrap : .jsonrpcRequest 23 (2 ^ 64 - 2) ∈ httpOnRead (loginEnv (bytes "login")) settings 21
      (received ++ (bytes "\r\n" ++ List.replicate 1001 0)) := by
    obtain ⟨pret, req, hreq, hq⟩ := PhrResult.exists_of_any
      (r := phrParseRequest (received ++ (bytes "\r\n" ++ List.replicate 1001 0)))
      (q := fun pret req => pret = 23 ∧ req.path = bytes "/auth") (by decide +kernel)
    obtain ⟨rfl, hpath⟩ := of_decide_eq_true hq
    rw [httpOnRead_of_success (by decide) hreq,
      dispatchRequest_of_short (phrParseRequest_path hreq).2 (by rw [hpath]; decide +kernel),
      routed, namedSettings_lookupPath, hpath]
    have hnone : ([bytes "/stats"].find? fun s => hash s = hash (bytes "/auth")) = none := by
      decide +kernel
    rw [hnone, namedSettings_pathHash]
    exact List.mem_append_left _ List.mem_cons_self
  refine ⟨⟨_, by decide +kernel, hwrap⟩, ?_⟩
  intro honly
  have hle := (honly.body _ 23 (2 ^ 64 - 2) (by decide +kernel) hwrap).1
  revert hle
  decide +kernel

end ServerBase
