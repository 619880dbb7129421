import ServerBase.ReceivedBytes

/-!
# A request in several reads

`http_on_read` keeps nothing between two reads: each one is parsed from scratch and answered on its
own, until one of them closes the connection. A partial request is refused with an error reply.

**What survives a split** (`segmented_reads`). A request whose head is in the first chunk is
routed as in one read. On the JSON-RPC path the callback sees the part of the body that came with
the head. A request whose head is cut is answered with one error and the rest of it is not read.
-/

namespace ServerBase

variable {P R : Type}

/-! ## Reading chunk by chunk -/

def Action.isClose : Action P R → Bool
  | .close => true
  | _ => false

/-- The read asks for the close of the connection; no read follows. -/
def closes (actions : List (Action P R)) : Bool := actions.any Action.isClose

/-- The reads of a connection: what was received, and what the rest of its buffer holds. -/
def readChunks (env : Env R) (settings : HTTPServerSettings P R) :
    List (Bytes × Bytes) → List (Action P R)
  | [] => []
  | (received, stale) :: chunks =>
      let actions := httpOnRead env settings received.length (received ++ stale)
      if closes actions then actions else actions ++ readChunks env settings chunks

/-- The responses and the callbacks of a list of actions, in order. -/
def observed (actions : List (Action P R)) : List (Action P R) :=
  actions.filter fun
    | .send _ | .pathCallback _ | .rpcCallback _ _ _ _ => true
    | _ => false

/-- The number in the `Content-Length` header, 0 without one. -/
def contentLength (headers : List PhrHeader) : Nat :=
  match headers.find? fun h => h.name = some (bytes "Content-Length") with
  | some h => h.value.foldl (fun n c => 10 * n + (c.toNat - 48)) 0
  | none => 0

/-- A request line, headers, and as many bytes behind them as the headers say. -/
def CompleteRequest (whole : Bytes) : Prop :=
  ∃ pret req, phrParseRequest whole = .success pret req ∧
    whole.length = pret + contentLength req.headers

section
variable {env : Env R} {settings : HTTPServerSettings P R}

theorem readChunks_of_closes {received stale : Bytes} {chunks : List (Bytes × Bytes)}
    (h : closes (httpOnRead env settings received.length (received ++ stale)) = true) :
    readChunks env settings ((received, stale) :: chunks) =
      httpOnRead env settings received.length (received ++ stale) := by
  simp only [readChunks, h, if_true]

theorem readChunks_single (received stale : Bytes) :
    readChunks env settings [(received, stale)] =
      httpOnRead env settings received.length (received ++ stale) := by
  simp only [readChunks, List.append_nil, ite_self]

/-! ## The first chunk -/

/-- **A part of a request** is parsed like the whole when it holds the head, and undecided when it
does not. -/
theorem phrParseRequest_part {first more : Bytes} {pret : Nat} {req : PhrRequest}
    (h : phrParseRequest (first ++ more) = .success pret req) :
    phrParseRequest first = if pret ≤ first.length then .success pret req else .incomplete := by
  cases hfirst : phrParseRequest first with
  | success pret' req' =>
      obtain ⟨rfl, rfl⟩ :=
        PhrResult.success.inj ((phrParseRequest_append hfirst more).symm.trans h)
      rw [if_pos (pret_le hfirst)]
  | malformed =>
      have hfail := parseRequest.fail_append more (phrParseRequest_eq_malformed.1 hfirst)
      rw [phrParseRequest_eq_malformed.2 hfail] at h
      cases h
  | incomplete =>
      obtain ⟨rest, hrun, rfl⟩ := phrParseRequest_eq_success.1 h
      have hpass := passes_parseRequest first more req rest
        (phrParseRequest_eq_incomplete.1 hfirst) hrun
      rw [if_neg]
      rw [List.length_append]
      omega

/-- A read of a whole head and a part of the body, whatever the rest of the buffer holds. -/
theorem httpOnRead_of_head {received : Bytes} {pret : Nat} {req : PhrRequest}
    (h : phrParseRequest received = .success pret req) (hn : 0 < received.length)
    (hle : received.length ≤ MAX_PACKET_SIZE) (hlen : req.path.length ≤ 63) (stale : Bytes) :
    httpOnRead env settings received.length (received ++ stale) =
      routed settings (hash req.path) (.jsonrpcRequest pret (received.length - pret) ::
        handleJsonrpcRequest env settings (received.drop pret) (received.length - pret)) ++
          [.freeBuf] := by
  rw [httpOnRead_of_success (by omega) (phrParseRequest_append h stale),
    dispatchRequest_append (pret_le h) hle,
    dispatchRequest_of_short (phrParseRequest_path h).2 hlen, bodyLength_of_le (pret_le h) hle]

/-- A read that the parser does not accept gets one error reply. -/
theorem httpOnRead_of_error (env : Env R) (settings : HTTPServerSettings P R)
    {received stale : Bytes} (hn : 0 < received.length)
    (h : ∀ pret req, phrParseRequest (received ++ stale) ≠ .success pret req) :
    ∃ code message, httpOnRead env settings received.length (received ++ stale) =
      [.send (.error code message none), .close, .freeBuf] := by
  simp only [httpOnRead, if_pos (show (0 : Int) < received.length by omega)]
  cases hparse : phrParseRequest (received ++ stale) with
  | success pret req => exact absurd hparse (h pret req)
  | malformed => exact ⟨_, _, rfl⟩
  | incomplete => exact ⟨_, _, rfl⟩

theorem handleJsonrpcRequest_of_parse {body body' : Bytes}
    (h : env.parse body = env.parse body') :
    handleJsonrpcRequest env settings body body.length =
      handleJsonrpcRequest env settings body' body'.length := by
  simp only [handleJsonrpcRequest, yyjsonRead, le_refl, if_true, List.take_length, h]

end

/-! ## The reads of a split request -/

section
variable (env : Env R) (mJsonRpcPath : Bytes) (paths : List (Bytes × P)) (rpcs : List (Bytes × R))
  {pret : Nat} {req : PhrRequest} {first stale stale' : Bytes} {chunks : List (Bytes × Bytes)}

theorem register_lookupPath (key : UInt32) :
    (HTTPServerSettings.register mJsonRpcPath paths rpcs).mPathCallbacks.lookup key =
      (firstWithHash paths key).map some :=
  lookup_emplaceAll paths key

/-- The request goes to `handle_jsonrpc_request`. -/
def IsJsonrpc (mJsonRpcPath : Bytes) (paths : List (Bytes × P)) (path : Bytes) : Prop :=
  firstWithHash paths (hash path) = none ∧ hash mJsonRpcPath = hash path

/-- A registered path callback, and `Wrong Path`, close the connection and look at the head only. -/
theorem httpOnRead_of_notJsonrpc {received : Bytes}
    (h : phrParseRequest received = .success pret req) (hn : 0 < received.length)
    (hle : received.length ≤ MAX_PACKET_SIZE) (hlen : req.path.length ≤ 63)
    (hroute : ¬ IsJsonrpc mJsonRpcPath paths req.path) (stale : Bytes) :
    httpOnRead env (.register mJsonRpcPath paths rpcs) received.length (received ++ stale) =
      [match firstWithHash paths (hash req.path) with
        | some cb => .pathCallback cb
        | none => .send (.error kJsonRpcMethodNotFound "Wrong Path" none), .close, .freeBuf] := by
  rw [httpOnRead_of_head h hn hle hlen, routed, register_lookupPath]
  cases hcb : firstWithHash paths (hash req.path) with
  | some cb => rfl
  | none =>
      have hkey : hash mJsonRpcPath ≠ hash req.path := fun hkey => hroute ⟨hcb, hkey⟩
      simp [HTTPServerSettings.register, hkey]

theorem httpOnRead_of_jsonrpc {received : Bytes}
    (h : phrParseRequest received = .success pret req) (hn : 0 < received.length)
    (hle : received.length ≤ MAX_PACKET_SIZE) (hlen : req.path.length ≤ 63)
    (hroute : IsJsonrpc mJsonRpcPath paths req.path) (stale : Bytes) :
    httpOnRead env (.register mJsonRpcPath paths rpcs) received.length (received ++ stale) =
      .jsonrpcRequest pret (received.length - pret) ::
        handleJsonrpcRequest env (.register mJsonRpcPath paths rpcs) (received.drop pret)
          (received.drop pret).length ++ [.freeBuf] := by
  rw [httpOnRead_of_head h hn hle hlen, routed, register_lookupPath, hroute.1]
  simp [HTTPServerSettings.register, hroute.2]

/-- What the client sees of a request that arrives in chunks. -/
def seenInChunks (chunks : List (Bytes × Bytes)) : List (Action P R) :=
  observed (readChunks env (.register mJsonRpcPath paths rpcs) chunks)

/-- What the client sees of a request that arrives in one read. -/
def seenInOne (whole stale : Bytes) : List (Action P R) :=
  observed (httpOnRead env (.register mJsonRpcPath paths rpcs) whole.length (whole ++ stale))

/-- What the client sees of `handle_jsonrpc_request` on a body. -/
def seenOfBody (body : Bytes) : List (Action P R) :=
  observed (handleJsonrpcRequest env (.register mJsonRpcPath paths rpcs) body body.length)

/-- `handle_jsonrpc_request` closes the connection after a body. -/
def bodyCloses (body : Bytes) : Bool :=
  closes (handleJsonrpcRequest env (.register mJsonRpcPath paths rpcs) body body.length)

/-- A head in the first chunk that is routed past the body. -/
theorem seenInChunks_of_notJsonrpc (h : phrParseRequest first = .success pret req)
    (hn : 0 < first.length) (hle : first.length ≤ MAX_PACKET_SIZE) (hlen : req.path.length ≤ 63)
    (hroute : ¬ IsJsonrpc mJsonRpcPath paths req.path) :
    seenInChunks env mJsonRpcPath paths rpcs ((first, stale) :: chunks) =
      [match firstWithHash paths (hash req.path) with
        | some cb => .pathCallback cb
        | none => .send (.error kJsonRpcMethodNotFound "Wrong Path" none)] := by
  have hread := httpOnRead_of_notJsonrpc env mJsonRpcPath paths rpcs h hn hle hlen hroute stale
  rw [seenInChunks, readChunks_of_closes (by rw [hread]; simp [closes, Action.isClose]), hread]
  cases firstWithHash paths (hash req.path) <;> rfl

/-- A head in the first chunk that is routed to `handle_jsonrpc_request`. -/
theorem seenInChunks_of_jsonrpc (h : phrParseRequest first = .success pret req)
    (hn : 0 < first.length) (hle : first.length ≤ MAX_PACKET_SIZE) (hlen : req.path.length ≤ 63)
    (hroute : IsJsonrpc mJsonRpcPath paths req.path) :
    seenInChunks env mJsonRpcPath paths rpcs ((first, stale) :: chunks) =
      seenOfBody env mJsonRpcPath paths rpcs (first.drop pret) ++
        if bodyCloses env mJsonRpcPath paths rpcs (first.drop pret) then []
        else seenInChunks env mJsonRpcPath paths rpcs chunks := by
  have hread := httpOnRead_of_jsonrpc env mJsonRpcPath paths rpcs h hn hle hlen hroute stale
  have hcloses : closes (httpOnRead env (.register mJsonRpcPath paths rpcs) first.length
      (first ++ stale)) = bodyCloses env mJsonRpcPath paths rpcs (first.drop pret) := by
    rw [hread]
    simp [closes, bodyCloses, Action.isClose]
  have hseen : observed (httpOnRead env (.register mJsonRpcPath paths rpcs) first.length
      (first ++ stale)) = seenOfBody env mJsonRpcPath paths rpcs (first.drop pret) := by
    rw [hread]
    simp [observed, seenOfBody]
  by_cases hclose : bodyCloses env mJsonRpcPath paths rpcs (first.drop pret) = true
  · rw [if_pos hclose, List.append_nil, seenInChunks,
      readChunks_of_closes (hcloses.trans hclose), hseen]
  · rw [if_neg hclose, seenInChunks, readChunks, if_neg (by rwa [hcloses]), observed,
      List.filter_append]
    exact congrArg (· ++ _) hseen

theorem seenInOne_eq (whole stale : Bytes) :
    seenInOne env mJsonRpcPath paths rpcs whole stale =
      seenInChunks env mJsonRpcPath paths rpcs [(whole, stale)] := by
  rw [seenInOne, seenInChunks, readChunks_single]

theorem seenOfBody_of_parse {body body' : Bytes} (h : env.parse body = env.parse body') :
    seenOfBody env mJsonRpcPath paths rpcs body = seenOfBody env mJsonRpcPath paths rpcs body' ∧
      bodyCloses env mJsonRpcPath paths rpcs body =
        bodyCloses env mJsonRpcPath paths rpcs body' := by
  rw [seenOfBody, bodyCloses, handleJsonrpcRequest_of_parse h]
  exact ⟨rfl, rfl⟩

/-- A body that is not JSON gets one error reply. -/
theorem seenOfBody_of_none {body : Bytes} (h : env.parse body = none) :
    seenOfBody env mJsonRpcPath paths rpcs body =
        [.send (.error kJsonRpcParseError "Parse error" none)] ∧
      bodyCloses env mJsonRpcPath paths rpcs body = true := by
  simp only [seenOfBody, bodyCloses, handleJsonrpcRequest, yyjsonRead, le_refl, if_true,
    List.take_length, h]
  exact ⟨rfl, rfl⟩

/-- **A request in several reads.** Each read is answered on its own until one closes the
connection. With the head in the first chunk the request is routed as in one read: a path callback
and `Wrong Path` do not look at the rest, `handle_jsonrpc_request` takes the part of the body
that is there for the whole. Without the head there, and nothing behind it in the buffer that
completes it, one error reply closes the connection. -/
theorem segmented_reads {whole : Bytes} (hwhole : whole = first ++ (chunks.map (·.1)).flatten)
    (hreq : phrParseRequest whole = .success pret req) (hsize : whole.length ≤ MAX_PACKET_SIZE)
    (hlen : req.path.length ≤ 63) (hfirst : first ≠ []) :
    (pret ≤ first.length → ¬ IsJsonrpc mJsonRpcPath paths req.path →
      seenInChunks env mJsonRpcPath paths rpcs ((first, stale) :: chunks) =
        seenInOne env mJsonRpcPath paths rpcs whole stale') ∧
    (pret ≤ first.length → IsJsonrpc mJsonRpcPath paths req.path →
      seenInChunks env mJsonRpcPath paths rpcs ((first, stale) :: chunks) =
          seenOfBody env mJsonRpcPath paths rpcs (first.drop pret) ++
            (if bodyCloses env mJsonRpcPath paths rpcs (first.drop pret) then []
            else seenInChunks env mJsonRpcPath paths rpcs chunks) ∧
        (env.parse (first.drop pret) = env.parse (whole.drop pret) →
          chunks = [] ∨ bodyCloses env mJsonRpcPath paths rpcs (whole.drop pret) = true →
          seenInChunks env mJsonRpcPath paths rpcs ((first, stale) :: chunks) =
            seenInOne env mJsonRpcPath paths rpcs whole stale') ∧
        (env.parse (first.drop pret) = none →
          seenInChunks env mJsonRpcPath paths rpcs ((first, stale) :: chunks) =
            [.send (.error kJsonRpcParseError "Parse error" none)])) ∧
    (first.length < pret →
      (∀ pret' req', phrParseRequest (first ++ stale) ≠ .success pret' req') →
      (∃ code message, seenInChunks env mJsonRpcPath paths rpcs ((first, stale) :: chunks) =
        [.send (.error code message none)]) ∧
      closes (readChunks env (.register mJsonRpcPath paths rpcs) ((first, stale) :: chunks)) =
        true) := by
  have hpos : 0 < first.length := List.length_pos_iff.2 hfirst
  have hle : first.length ≤ whole.length := by rw [hwhole, List.length_append]; omega
  have hpart := phrParseRequest_part (hwhole ▸ hreq)
  refine ⟨?_, ?_, ?_⟩
  · intro hhead hroute
    rw [if_pos hhead] at hpart
    rw [seenInOne_eq,
      seenInChunks_of_notJsonrpc env mJsonRpcPath paths rpcs hpart hpos (hle.trans hsize) hlen
        hroute,
      seenInChunks_of_notJsonrpc env mJsonRpcPath paths rpcs hreq (hpos.trans_le hle) hsize hlen
        hroute]
  · intro hhead hroute
    rw [if_pos hhead] at hpart
    have hsplit : seenInChunks env mJsonRpcPath paths rpcs ((first, stale) :: chunks) = _ :=
      seenInChunks_of_jsonrpc env mJsonRpcPath paths rpcs hpart hpos (hle.trans hsize) hlen hroute
    refine ⟨hsplit, ?_, ?_⟩
    · intro hbody hclose
      obtain ⟨hseen, hcloses⟩ := seenOfBody_of_parse env mJsonRpcPath paths rpcs hbody
      rw [hsplit, seenInOne_eq, seenInChunks_of_jsonrpc env mJsonRpcPath paths rpcs hreq
        (hpos.trans_le hle) hsize hlen hroute, hseen, hcloses]
      rcases hclose with rfl | hclose
      · rfl
      · rw [if_pos hclose, if_pos hclose]
    · intro hbody
      obtain ⟨hseen, hcloses⟩ := seenOfBody_of_none env mJsonRpcPath paths rpcs hbody
      rw [hsplit, hseen, hcloses]
      rfl
  · intro hcut hstale
    obtain ⟨code, message, hread⟩ :=
      httpOnRead_of_error env (.register mJsonRpcPath paths rpcs) hpos hstale
    have hreads : readChunks env (.register mJsonRpcPath paths rpcs) ((first, stale) :: chunks) =
        [.send (.error code message none), .close, .freeBuf] := by
      rw [readChunks_of_closes (by rw [hread]; rfl), hread]
    refine ⟨⟨code, message, ?_⟩, ?_⟩
    · rw [seenInChunks, hreads]
      rfl
    · rw [hreads]
      rfl

end

/-! ## Examples of splits -/

/-- A request for `/stats` with a body of four bytes. -/
def statsRequest : Bytes := bytes "GET /stats HTTP/1.1\r\nContent-Length: 4\r\n\r\nbody"

theorem statsRequest_parses :
    ∃ req, phrParseRequest statsRequest = .success 42 req ∧ req.path = bytes "/stats" ∧
      contentLength req.headers = 4 := by
  obtain ⟨pret, req, hreq, hq⟩ := PhrResult.exists_of_any (r := phrParseRequest statsRequest)
    (q := fun pret req => pret = 42 ∧ req.path = bytes "/stats" ∧ contentLength req.headers = 4)
    (by decide +kernel)
  obtain ⟨rfl, hpath, hlength⟩ := of_decide_eq_true hq
  exact ⟨req, hreq, hpath, hlength⟩

theorem stats_notJsonrpc :
    ¬ IsJsonrpc (bytes "/auth") [(bytes "/stats", ())] (bytes "/stats") := by
  rintro ⟨hnone, -⟩
  revert hnone
  decide +kernel

/-- A split behind the head. -/
theorem segmented_reads_stats :
    seenInChunks (loginEnv (bytes "login")) (bytes "/auth") [(bytes "/stats", ())] []
        [(statsRequest.take 44, List.replicate 980 0),
          (statsRequest.drop 44, List.replicate 1022 0)] =
      seenInOne (loginEnv (bytes "login")) (bytes "/auth") [(bytes "/stats", ())] []
        statsRequest (List.replicate 978 0) := by
  obtain ⟨req, hreq, hpath, -⟩ := statsRequest_parses
  refine (segmented_reads _ _ _ _ ?_ hreq (by decide +kernel) (by rw [hpath]; decide +kernel)
    (by decide +kernel)).1 (by decide +kernel) (by rw [hpath]; exact stats_notJsonrpc)
  decide +kernel

/-- **A split in the method.** In one read the path callback runs; with the first byte alone the
client gets an error and is disconnected. -/
theorem split_in_method :
    CompleteRequest statsRequest ∧ statsRequest.length ≤ MAX_PACKET_SIZE ∧
      seenInChunks (loginEnv (bytes "login")) (bytes "/auth") [(bytes "/stats", ())] []
          [(statsRequest.take 1, List.replicate 1023 0),
            (statsRequest.drop 1, List.replicate 979 0)] ≠
        seenInOne (loginEnv (bytes "login")) (bytes "/auth") [(bytes "/stats", ())] []
          statsRequest (List.replicate 978 0) := by
  obtain ⟨req, hreq, hpath, hlength⟩ := statsRequest_parses
  refine ⟨⟨42, req, hreq, by rw [hlength]; decide +kernel⟩, by decide +kernel, ?_⟩
  have hrefused : (phrParseRequest (statsRequest.take 1 ++ List.replicate 1023 0)).any
      (fun _ _ => true) = false := by decide +kernel
  have hstale : ∀ pret req,
      phrParseRequest (statsRequest.take 1 ++ List.replicate 1023 0) ≠ .success pret req := by
    intro pret req h
    rw [h] at hrefused
    cases hrefused
  obtain ⟨code, message, hread⟩ := httpOnRead_of_error (loginEnv (bytes "login"))
    (.register (bytes "/auth") [(bytes "/stats", ())] []) (by decide +kernel) hstale
  rw [seenInOne_eq, seenInChunks_of_notJsonrpc _ _ _ _ hreq (by decide +kernel) (by decide +kernel)
    (by rw [hpath]; decide +kernel) (by rw [hpath]; exact stats_notJsonrpc), seenInChunks,
    readChunks_of_closes (by rw [hread]; rfl), hread, hpath]
  have hroute : firstWithHash [(bytes "/stats", ())] (hash (bytes "/stats")) = some () := by
    decide +kernel
  rw [hroute]
  simp [observed]

end ServerBase
