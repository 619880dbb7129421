import ServerBase.Network
import ServerBase.Lib.Http

/-!
# The bytes of a reply

`send_jsonrpc_error` and `send_jsonrpc_response` print a head and a JSON text into a buffer of fixed
size, and pass on as many bytes as the whole would have had.

**Parameters.** `yyjson_mut_write` is taken as a function from values to texts; it fails with a null
pointer.

**The result** (`framing_iff`). The bytes are an HTTP message with the JSON text as its body exactly
when the text leaves room for the head in the buffer.
-/

namespace ServerBase

/-! ## What is sent -/

/-- `b = malloc(len + 1); strncpy(b, buf, len + 1); uv_buf_init(b, len + 1)` -/
def sendbuf (buf : Bytes) (len : Int) : Bytes :=
  let sz := (len + 1).toNat
  (strncpy (List.replicate sz 0) buf sz).getD []

/-! ## The two functions -/

/-- The output of the format: the head, `%zu` for `jsonLen` and `%s` for `json`. -/
def printReply (statusLine : String) (jsonLen : Nat) (json : Bytes) : Bytes :=
  bytes (statusLine ++ "\r\nContent-Type: application/json\r\nContent-Length: ") ++
    Decimal.digits jsonLen ++ bytes "\r\nConnection: close\r\n\r\n" ++ json ++ bytes "\r\n"

/-- A document is written and sent; a null pointer is printed as `(null)`. -/
def sendDoc (write : YyjsonVal → Option Bytes) (size : Nat) (statusLine : String)
    (root : YyjsonVal) : Bytes :=
  let (json, jsonLen) :=
    match write root with
    | some json => (cstr json, json.length)
    | none => (bytes "(null)", 0)
  let (buf, len) := snprintf size (printReply statusLine jsonLen json)
  sendbuf buf len

def idValue : Option Int → YyjsonVal
  | none => .null
  | some id => .num id

/-- The root of `send_jsonrpc_error` -/
def errorRoot (code : Int) (message : String) (id : Option Int) : YyjsonVal :=
  .obj [(bytes "jsonrpc", .str (bytes "2.0")),
    (bytes "error", .obj [(bytes "code", .num code), (bytes "message", .str (bytes message))]),
    (bytes "id", idValue id)]

/-- The root of `send_jsonrpc_response` -/
def responseRoot (id : Option Int) (result : YyjsonVal) : YyjsonVal :=
  .obj [(bytes "jsonrpc", .str (bytes "2.0")), (bytes "result", result), (bytes "id", idValue id)]

/-- The bytes that `send_jsonrpc_error` hands to `uv_write`. -/
def sendJsonrpcError (write : YyjsonVal → Option Bytes) (code : Int) (message : String)
    (id : Option Int) : Bytes :=
  sendDoc write 512 "HTTP/1.1 400 Bad Request" (errorRoot code message id)

/-- The bytes that `send_jsonrpc_response` hands to `uv_write`. -/
def sendJsonrpcResponse (write : YyjsonVal → Option Bytes) (id : Option Int) (result : YyjsonVal) :
    Bytes :=
  sendDoc write 1024 "HTTP/1.1 200 OK" (responseRoot id result)

/-! ## What fits into the buffer -/

/-- **What is sent**: the output up to the end of the buffer, and NULs up to its length and one
more. -/
theorem sendbuf_snprintf {size : Nat} {out : Bytes} (h : ∀ c ∈ out, c ≠ 0)
    (hlen : out.length ≤ INT_MAX) :
    sendbuf (snprintf size out).1 (snprintf size out).2 =
      out.take (size - 1) ++
        List.replicate (out.length + 1 - (out.take (size - 1)).length) 0 := by
  have hsz : ((out.length : Int) + 1).toNat = out.length + 1 := by omega
  have hcopied : ∀ k, cstr ((out.take (size - 1) ++ List.replicate k 0).take (out.length + 1)) =
      out.take (size - 1) := by
    intro k
    have hle : (out.take (size - 1)).length ≤ out.length + 1 := by
      rw [List.length_take]
      omega
    rw [List.take_append, List.take_of_length_le hle, List.take_replicate]
    exact cstr_append_zeros (fun c hc => h c (List.mem_of_mem_take hc)) _
  simp only [sendbuf, snprintf, if_pos hlen, hsz, strncpy, List.length_replicate, le_refl, if_true,
    hcopied, List.drop_replicate, Nat.sub_self, List.replicate_zero, List.append_nil,
    Option.getD_some]

/-- An output that is too long for an `int` is not sent. -/
theorem sendbuf_overflow {size : Nat} {out : Bytes} (hlen : INT_MAX < out.length) :
    sendbuf (snprintf size out).1 (snprintf size out).2 = [] := by
  simp only [snprintf, if_neg (Nat.not_le.2 hlen)]
  rfl

/-- A text is what it was before the buffer ended, or it has become NULs. -/
theorem take_cut_eq_iff {json tail : Bytes} (h : ∀ c ∈ json, c ≠ 0) {m k : Nat}
    (hk : json.length ≤ m + k) :
    ((json ++ tail).take m ++ List.replicate k 0).take json.length = json ↔ json.length ≤ m := by
  constructor
  · intro heq
    by_contra hm
    have hm : m < json.length := Nat.not_le.1 hm
    have hcut := congrArg (fun l => l[m]?) heq
    have hlen : ((json ++ tail).take m).length = m := by
      rw [List.length_take, List.length_append]
      omega
    obtain ⟨k, rfl⟩ : ∃ j, k = j + 1 := ⟨k - 1, by omega⟩
    simp only [List.getElem?_take_of_lt hm] at hcut
    rw [List.getElem?_append_right hlen.le, hlen, Nat.sub_self, List.replicate_succ,
      List.getElem?_cons_zero, List.getElem?_eq_getElem hm, Option.some.injEq] at hcut
    exact h _ (List.getElem_mem hm) hcut.symm
  · intro hm
    rw [List.take_append_of_le_length (by simp; omega), List.take_take, Nat.min_eq_left hm]
    exact List.take_left

/-! ## The head -/

def replyHeaders (jsonLen : Nat) : List Http.Header :=
  [⟨bytes "Content-Type", bytes "application/json"⟩,
    ⟨bytes "Content-Length", Decimal.digits jsonLen⟩, ⟨bytes "Connection", bytes "close"⟩]

theorem bytes_append (s t : String) : bytes (s ++ t) = bytes s ++ bytes t := by
  simp [bytes]

/-- The output is a written head, the text and one more line end. -/
theorem printReply_eq (statusLine : String) (jsonLen : Nat) (json : Bytes) :
    printReply statusLine jsonLen json =
      Http.writeHead (bytes statusLine) (replyHeaders jsonLen) ++ (json ++ [13, 10]) := by
  have htype : bytes "\r\nContent-Type: application/json\r\nContent-Length: " =
      [13, 10] ++ (bytes "Content-Type" ++ 58 :: 32 :: (bytes "application/json" ++ [13, 10])) ++
        (bytes "Content-Length" ++ [58, 32]) := by decide
  have hclose : bytes "\r\nConnection: close\r\n\r\n" =
      [13, 10] ++ (bytes "Connection" ++ 58 :: 32 :: (bytes "close" ++ [13, 10])) ++ [13, 10] := by
    decide
  have hend : bytes "\r\n" = [13, 10] := by decide
  rw [printReply, bytes_append, htype, hclose, hend]
  simp [Http.writeHead, Http.writeHeader, replyHeaders]

theorem length_writeHead (statusLine : String) (jsonLen : Nat) :
    (Http.writeHead (bytes statusLine) (replyHeaders jsonLen)).length =
      (bytes statusLine).length + 73 + (Decimal.digits jsonLen).length := by
  have hlengths : (bytes "Content-Type").length = 12 ∧ (bytes "application/json").length = 16 ∧
      (bytes "Content-Length").length = 14 ∧ (bytes "Connection").length = 10 ∧
      (bytes "close").length = 5 := by decide
  obtain ⟨h1, h2, h3, h4, h5⟩ := hlengths
  simp only [Http.writeHead, Http.writeHeader, replyHeaders, List.flatMap_cons, List.flatMap_nil,
    List.length_append, List.length_cons, List.length_nil, h1, h2, h3, h4, h5]
  omega

theorem plain_replyHeaders (jsonLen : Nat) : ∀ header ∈ replyHeaders jsonLen, header.Plain := by
  intro header hheader
  simp only [replyHeaders, List.mem_cons, List.not_mem_nil, or_false] at hheader
  rcases hheader with rfl | rfl | rfl
  · exact .of_solid (by decide) (forall_of_all (by decide)) (forall_of_all (by decide))
  · exact .of_digits (by decide) (forall_of_all (by decide)) jsonLen
  · exact .of_solid (by decide) (forall_of_all (by decide)) (forall_of_all (by decide))

theorem contentLength_replyHeaders (jsonLen : Nat) :
    Http.contentLength (replyHeaders jsonLen) = some jsonLen := by
  refine Http.contentLength_digits [_] (fun header hheader => ?_) (by decide) jsonLen
  rw [List.mem_singleton.1 hheader]
  decide

theorem noNul_printReply {statusLine : String} (hstatus : ∀ c ∈ bytes statusLine, c ≠ 0)
    {json : Bytes} (hnul : ∀ c ∈ json, c ≠ 0) (jsonLen : Nat) :
    ∀ c ∈ printReply statusLine jsonLen json, c ≠ 0 := by
  intro c hc
  rw [printReply, bytes_append] at hc
  simp only [List.mem_append] at hc
  rcases hc with ((((hc | hc) | hc) | hc) | hc) | hc
  · exact hstatus c hc
  · exact forall_of_all (p := (· ≠ 0)) (by decide) c hc
  · rintro rfl
    exact absurd (Decimal.isDigit_of_mem_digits hc) (by decide)
  · exact forall_of_all (p := (· ≠ 0)) (by decide) c hc
  · exact hnul c hc
  · exact forall_of_all (p := (· ≠ 0)) (by decide) c hc

/-! ## Decoding -/

section
variable {write : YyjsonVal → Option Bytes} {size : Nat} {statusLine : String} {root : YyjsonVal}
  {json : Bytes}

theorem sendDoc_eq (hjson : write root = some json) (hnul : ∀ c ∈ json, c ≠ 0) :
    sendDoc write size statusLine root =
      sendbuf (snprintf size (printReply statusLine json.length json)).1
        (snprintf size (printReply statusLine json.length json)).2 := by
  simp only [sendDoc, hjson, cstr_of_noNul hnul]

/-- What is sent begins with the whole head. -/
theorem sendDoc_head (hjson : write root = some json) (hnul : ∀ c ∈ json, c ≠ 0)
    (hstatus : ∀ c ∈ bytes statusLine, c ≠ 0)
    (hlen : (printReply statusLine json.length json).length ≤ INT_MAX)
    (hhead : (Http.writeHead (bytes statusLine) (replyHeaders json.length)).length ≤ size - 1) :
    sendDoc write size statusLine root =
      Http.writeHead (bytes statusLine) (replyHeaders json.length) ++
        ((json ++ [13, 10]).take (size - 1 -
            (Http.writeHead (bytes statusLine) (replyHeaders json.length)).length) ++
          List.replicate (json.length + 3 - ((json ++ [13, 10]).take (size - 1 -
            (Http.writeHead (bytes statusLine) (replyHeaders json.length)).length)).length) 0) := by
  have hprinted := printReply_eq statusLine json.length json
  rw [sendDoc_eq hjson hnul, sendbuf_snprintf (noNul_printReply hstatus hnul _) hlen, hprinted,
    List.take_append, List.take_of_length_le hhead, List.append_assoc]
  congr 3
  simp only [List.length_append, List.length_take, List.length_cons, List.length_nil]
  omega

/-- **A document arrives** exactly when the head and the text fit into the buffer. -/
theorem decode_sendDoc_iff (hjson : write root = some json) (hnul : ∀ c ∈ json, c ≠ 0)
    (hstatus : ∀ c ∈ bytes statusLine, c ≠ 0 ∧ c ≠ Http.CR)
    (hline : Http.isStatusLine (bytes statusLine) = true)
    (hsize : (bytes statusLine).length + 84 ≤ size) (hint : size + 2 ≤ INT_MAX) :
    (Http.decode (sendDoc write size statusLine root)).map Http.Message.body = some json ↔
      (bytes statusLine).length + 73 + (Decimal.digits json.length).length + json.length ≤
        size - 1 := by
  have hstatus0 : ∀ c ∈ bytes statusLine, c ≠ 0 := fun c hc => (hstatus c hc).1
  have hhead := length_writeHead statusLine json.length
  have hprinted : (printReply statusLine json.length json).length =
      (Http.writeHead (bytes statusLine) (replyHeaders json.length)).length + json.length + 2 := by
    rw [printReply_eq]
    simp
    omega
  rcases Nat.lt_or_ge INT_MAX (printReply statusLine json.length json).length with hlong | hlen
  · -- nothing is sent
    rw [sendDoc_eq hjson hnul, sendbuf_overflow hlong]
    refine iff_of_false (by simp [Http.decode, Http.readLine]) ?_
    omega
  · have hdigits : (Decimal.digits json.length).length ≤ 10 := by
      rw [Decimal.length_digits_le_iff (by decide)]
      unfold INT_MAX at hlen
      omega
    rw [sendDoc_head hjson hnul hstatus0 hlen (by omega),
      Http.decode_append hline (fun c hc => (hstatus c hc).2) (plain_replyHeaders _)
        (contentLength_replyHeaders _)]
    generalize hm : size - 1 -
      (Http.writeHead (bytes statusLine) (replyHeaders json.length)).length = m
    have hcut : ((json ++ [13, 10]).take m).length ≤ json.length + 2 := by
      rw [List.length_take, List.length_append]
      exact Nat.min_le_right _ _
    rw [if_pos (by simp only [List.length_append, List.length_replicate]; omega), Option.map_some,
      Option.some.injEq]
    have hfits := @take_cut_eq_iff json [13, 10] hnul m
      (json.length + 3 - ((json ++ [13, 10]).take m).length) ?_
    · refine hfits.trans ?_
      omega
    · have htake : ((json ++ [13, 10]).take m).length ≤ m := List.length_take_le _ _
      omega

end

/-- The text that `reply` is written to fits. -/
def replyLimit : Reply → Nat
  | .error _ _ _ => 411
  | .response _ _ => 932

/-- The bytes of a reply. -/
def replyBytes (write : YyjsonVal → Option Bytes) : Reply → Bytes
  | .error code message id => sendJsonrpcError write code message id
  | .response id result => sendJsonrpcResponse write id result

def replyRoot : Reply → YyjsonVal
  | .error code message id => errorRoot code message id
  | .response id result => responseRoot id result

/-- The text of an error arrives if it fits behind the head. -/
theorem decode_sendJsonrpcError (write : YyjsonVal → Option Bytes) (code : Int) (message : String)
    (id : Option Int) {json : Bytes} (hjson : write (errorRoot code message id) = some json)
    (hnul : ∀ c ∈ json, c ≠ 0) :
    (Http.decode (sendJsonrpcError write code message id)).map Http.Message.body = some json ↔
      json.length ≤ 411 := by
  have htwo := Decimal.length_digits_le_iff (k := json.length) (m := 2) (by decide)
  have hthree := Decimal.length_digits_le_iff (k := json.length) (m := 3) (by decide)
  have hlength : (bytes "HTTP/1.1 400 Bad Request").length = 24 := by decide
  have hstatus : ∀ c ∈ bytes "HTTP/1.1 400 Bad Request", c ≠ 0 ∧ c ≠ Http.CR :=
    forall_of_all (by decide)
  have hline : Http.isStatusLine (bytes "HTTP/1.1 400 Bad Request") = true := by decide
  have hfits := @decode_sendDoc_iff write 512 _ _ json hjson hnul hstatus hline
    (by rw [hlength]; decide) (by decide)
  rw [hlength] at hfits
  refine hfits.trans ?_
  omega

/-- The text of a response arrives if it fits behind the head. -/
theorem decode_sendJsonrpcResponse (write : YyjsonVal → Option Bytes) (id : Option Int)
    (result : YyjsonVal) {json : Bytes} (hjson : write (responseRoot id result) = some json)
    (hnul : ∀ c ∈ json, c ≠ 0) :
    (Http.decode (sendJsonrpcResponse write id result)).map Http.Message.body = some json ↔
      json.length ≤ 932 := by
  have htwo := Decimal.length_digits_le_iff (k := json.length) (m := 2) (by decide)
  have hthree := Decimal.length_digits_le_iff (k := json.length) (m := 3) (by decide)
  have hlength : (bytes "HTTP/1.1 200 OK").length = 15 := by decide
  have hstatus : ∀ c ∈ bytes "HTTP/1.1 200 OK", c ≠ 0 ∧ c ≠ Http.CR :=
    forall_of_all (by decide)
  have hline : Http.isStatusLine (bytes "HTTP/1.1 200 OK") = true := by decide
  have hfits := @decode_sendDoc_iff write 1024 _ _ json hjson hnul hstatus hline
    (by rw [hlength]; decide) (by decide)
  rw [hlength] at hfits
  refine hfits.trans ?_
  omega

/-- **Response framing.** The bytes of a reply are an HTTP message whose body is the JSON text of
its document exactly when the text has at most 932 bytes, 411 in an error. -/
theorem framing_iff (write : YyjsonVal → Option Bytes) (reply : Reply) {json : Bytes}
    (hjson : write (replyRoot reply) = some json) (hnul : ∀ c ∈ json, c ≠ 0) :
    (Http.decode (replyBytes write reply)).map Http.Message.body = some json ↔
      json.length ≤ replyLimit reply := by
  cases reply with
  | error code message id => exact decode_sendJsonrpcError write code message id hjson hnul
  | response id result => exact decode_sendJsonrpcResponse write id result hjson hnul

/-- The response to `subtract` in the comment of the sample server. -/
def subtractText : Bytes :=
  bytes "\x7b\"jsonrpc\":\"2.0\",\"result\":\x7b\"difference\":19.0\x7d,\"id\":1\x7d"

theorem framing_subtract :
    (Http.decode (replyBytes (fun _ => some subtractText)
      (.response (some 1) (.obj [(bytes "difference", .num 19)])))).map Http.Message.body =
        some subtractText :=
  (framing_iff (fun _ => some subtractText)
    (.response (some 1) (.obj [(bytes "difference", .num 19)])) rfl
    (forall_of_all (by decide +kernel))).2 (by decide +kernel)

/-- A result of 897 letters. -/
def longResult : Bytes := List.replicate 897 97

/-- The text of a response with this result has 933 bytes. -/
def longText : Bytes :=
  bytes "\x7b\"jsonrpc\":\"2.0\",\"result\":\"" ++ longResult ++ bytes "\",\"id\":1\x7d"

/-- **The last byte is lost.** A response of 933 bytes does not fit behind its head: the body that
is sent ends in a NUL. -/
theorem framing_cut :
    (Http.decode (replyBytes (fun _ => some longText)
      (.response (some 1) (.str longResult)))).map Http.Message.body ≠ some longText := by
  have hlength : (bytes "HTTP/1.1 200 OK").length + 73 + (Decimal.digits longText.length).length +
      longText.length = 1024 := by decide +kernel
  have hfits := @decode_sendDoc_iff (fun _ => some longText) 1024 "HTTP/1.1 200 OK"
    (responseRoot (some 1) (.str longResult)) longText rfl
    (forall_of_all (by decide +kernel)) (forall_of_all (by decide +kernel)) (by decide +kernel)
    (by decide +kernel) (by decide)
  rw [hlength] at hfits
  intro hbody
  exact absurd (hfits.1 hbody) (by decide)

end ServerBase
