import ServerBase.Response
import ServerBase.Stats.Metrics
import ServerBase.Stats.Page

/-!
# The replies with statistics

`metrics_func` of `prometheus_test/main.cpp` and `stats_func` of `auth_server/main.cpp` render into
one buffer, and print a head and the buffer into a second one. The head announces the length that
the renderer has returned.

**The result** (`replies_announce_iff`). The statistics page is announced as it is sent. The metrics
are exactly when all of them have room in the first buffer.
-/

namespace ServerBase

/-! ## What is sent -/

/-- The format of both functions, with `%d` for `len` and `%s` for the buffer. -/
def printTextReply (contentType : Bytes) (len : Int) (text : Bytes) : Bytes :=
  bytes "HTTP/1.1 200 OK\r\n" ++ (bytes "Content-Type: " ++ contentType ++ bytes "\r\n") ++
    (bytes "Content-Length: " ++ printInt len ++ bytes "\r\n") ++ bytes "Connection: close\r\n" ++
    bytes "\r\n" ++ text ++ bytes "\r\n"

/-- The bytes that are handed to `uv_write` for a buffer with a text. -/
def textReply (contentType : Bytes) (len : Int) (buffer : Buffer) : Bytes :=
  let (response, responseLen) :=
    snprintf 9216 (printTextReply contentType len (cstr buffer.bytes))
  let sz := (responseLen + 1).toNat
  let sz := if 9216 < sz then 9216 else sz
  (strncpy (List.replicate sz 0) response sz).getD []

section
variable {δ : Type*} (fixed3 : δ → Bytes) (gPerfRecords : List (PerfRecord δ))

/-- `metrics_func` -/
def metricsFunc : Bytes :=
  let s := generatePrometheusMetricsText fixed3 gPerfRecords zeroedBuffer
  textReply (bytes "text/plain; version=0.0.4; charset=utf-8") s.n s.buffer

/-- `stats_func` -/
def statsFunc : Bytes :=
  let s := generateStatsHTMLPage fixed3 gPerfRecords zeroedBuffer
  textReply (bytes "text/html") s.n s.buffer

end

/-- The bytes are a message that announces the length of the text in the buffer and has this text as
its body. -/
def Announces (sent : Bytes) (buffer : Buffer) : Prop :=
  ∃ m, Http.decode sent = some m ∧
    Http.contentLength m.headers = some (cstr buffer.bytes).length ∧ m.body = cstr buffer.bytes

/-! ## The head -/

def textHeaders (contentType : Bytes) (len : ℕ) : List Http.Header :=
  [⟨bytes "Content-Type", contentType⟩, ⟨bytes "Content-Length", Decimal.digits len⟩,
    ⟨bytes "Connection", bytes "close"⟩]

theorem printInt_natCast (k : ℕ) : printInt k = Decimal.digits k := by
  rw [printInt, if_neg (Int.not_lt.2 (Int.natCast_nonneg k)), List.nil_append, Int.natAbs_natCast]

/-- The output is a written head, the text and one more line end. -/
theorem printTextReply_eq (contentType : Bytes) (len : ℕ) (text : Bytes) :
    printTextReply contentType len text =
      Http.writeHead (bytes "HTTP/1.1 200 OK") (textHeaders contentType len) ++
        (text ++ [13, 10]) := by
  have hstatus : bytes "HTTP/1.1 200 OK\r\n" = bytes "HTTP/1.1 200 OK" ++ [13, 10] := by decide
  have htype : bytes "Content-Type: " = bytes "Content-Type" ++ [58, 32] := by decide
  have hlength : bytes "Content-Length: " = bytes "Content-Length" ++ [58, 32] := by decide
  have hclose : bytes "Connection: close\r\n" =
      bytes "Connection" ++ 58 :: 32 :: (bytes "close" ++ [13, 10]) := by decide
  have hend : bytes "\r\n" = [13, 10] := by decide
  rw [printTextReply, hstatus, htype, hlength, hclose, hend, printInt_natCast]
  simp [Http.writeHead, Http.writeHeader, textHeaders]

section
variable {contentType : Bytes} {len : ℕ} {buffer : Buffer}

theorem plain_textHeaders (hplain : (⟨bytes "Content-Type", contentType⟩ : Http.Header).Plain) :
    ∀ header ∈ textHeaders contentType len, header.Plain := by
  intro header hheader
  simp only [textHeaders, List.mem_cons, List.not_mem_nil, or_false] at hheader
  rcases hheader with rfl | rfl | rfl
  · exact hplain
  · exact .of_digits (by decide) (forall_of_all (by decide)) len
  · exact .of_solid (by decide) (forall_of_all (by decide)) (forall_of_all (by decide))

theorem contentLength_textHeaders :
    Http.contentLength (textHeaders contentType len) = some len := by
  have htype : (bytes "Content-Type").map Http.lower ≠ Http.contentLengthName := by decide
  refine Http.contentLength_digits [_] (fun header hheader => ?_) (by decide) len
  rw [List.mem_singleton.1 hheader]
  exact htype

variable (contentType len) in
theorem length_textHead : (Http.writeHead (bytes "HTTP/1.1 200 OK")
    (textHeaders contentType len)).length = 72 + contentType.length +
      (Decimal.digits len).length := by
  have hlengths : (bytes "HTTP/1.1 200 OK").length = 15 ∧ (bytes "Content-Type").length = 12 ∧
      (bytes "Content-Length").length = 14 ∧ (bytes "Connection").length = 10 ∧
      (bytes "close").length = 5 := by decide
  simp only [Http.writeHead, Http.writeHeader, textHeaders, List.flatMap_cons, List.flatMap_nil,
    List.length_append, List.length_cons, List.length_nil, hlengths]
  omega

theorem noNul_printTextReply (hnul : ∀ c ∈ contentType, c ≠ 0) {text : Bytes}
    (htext : ∀ c ∈ text, c ≠ 0) (len : Int) : ∀ c ∈ printTextReply contentType len text, c ≠ 0 := by
  have htype : ∀ c ∈ bytes "Content-Type: " ++ contentType ++ bytes "\r\n", c ≠ 0 :=
    noNul_append (noNul_append (forall_of_all (by decide)) hnul) (forall_of_all (by decide))
  have hlength : ∀ c ∈ bytes "Content-Length: " ++ printInt len ++ bytes "\r\n", c ≠ 0 :=
    noNul_append (noNul_append (forall_of_all (by decide)) (noNul_printInt len))
      (forall_of_all (by decide))
  have hheaders := noNul_append (noNul_append (forall_of_all (p := (· ≠ 0))
    (b := bytes "HTTP/1.1 200 OK\r\n") (by decide)) htype) hlength
  have hhead := noNul_append (noNul_append hheaders (forall_of_all (p := (· ≠ 0))
    (b := bytes "Connection: close\r\n") (by decide)))
    (forall_of_all (p := (· ≠ 0)) (b := bytes "\r\n") (by decide))
  exact noNul_append (noNul_append hhead htext) (forall_of_all (by decide))

/-- The whole output is sent, and a NUL. -/
theorem textReply_eq (hnul : ∀ c ∈ contentType, c ≠ 0) (hshort : contentType.length ≤ 100)
    (htext : (cstr buffer.bytes).length ≤ 8192) (hlen : len < 2 ^ 31) :
    textReply contentType len buffer =
      Http.writeHead (bytes "HTTP/1.1 200 OK") (textHeaders contentType len) ++
        (cstr buffer.bytes ++ [13, 10, 0]) := by
  have hout := printTextReply_eq contentType len (cstr buffer.bytes)
  have hhead := length_textHead contentType len
  have hdigits := (Decimal.length_digits_le_iff (k := len) (m := 10) (by decide)).2
    (Nat.lt_of_lt_of_le hlen (by decide))
  have hlength : (printTextReply contentType len (cstr buffer.bytes)).length < 9216 := by
    rw [hout]
    simp only [List.length_append, List.length_cons, List.length_nil, hhead]
    omega
  have hint : (printTextReply contentType len (cstr buffer.bytes)).length ≤ INT_MAX :=
    Nat.le_trans (Nat.le_of_lt hlength) (by decide)
  have hclamp : textReply contentType len buffer =
      sendbuf (snprintf 9216 (printTextReply contentType len (cstr buffer.bytes))).1
        (snprintf 9216 (printTextReply contentType len (cstr buffer.bytes))).2 := by
    have hsz : ¬9216 <
        ((snprintf 9216 (printTextReply contentType len (cstr buffer.bytes))).2 + 1).toNat := by
      rw [snprintf, if_pos hint]
      omega
    simp only [textReply, sendbuf, if_neg hsz]
  rw [hclamp, sendbuf_snprintf (noNul_printTextReply hnul (cstr_noNul _) len) hint,
    List.take_of_length_le (Nat.le_sub_one_of_lt hlength), Nat.add_sub_cancel_left, hout]
  simp

/-- **The reply announces the length** that has been returned, and the text when that is its
length. -/
theorem announces_iff (hplain : (⟨bytes "Content-Type", contentType⟩ : Http.Header).Plain)
    (hnul : ∀ c ∈ contentType, c ≠ 0) (hshort : contentType.length ≤ 100)
    (htext : (cstr buffer.bytes).length ≤ 8192) (hlen : len < 2 ^ 31) :
    Announces (textReply contentType len buffer) buffer ↔ len = (cstr buffer.bytes).length := by
  have hstatus : ∀ c ∈ bytes "HTTP/1.1 200 OK", c ≠ Http.CR := forall_of_all (by decide)
  have hheaders : ∀ header ∈ textHeaders contentType len, header.Plain := plain_textHeaders hplain
  have hdecode := Http.decode_append (by decide) hstatus hheaders contentLength_textHeaders
    (cstr buffer.bytes ++ [13, 10, 0])
  rw [Announces, textReply_eq hnul hshort htext hlen, hdecode]
  constructor
  · rintro ⟨m, hm, hannounced, -⟩
    split at hm
    · rw [← Option.some.inj hm, contentLength_textHeaders] at hannounced
      exact Option.some.inj hannounced
    · cases hm
  · rintro rfl
    rw [if_pos (by rw [List.length_append]; omega), List.take_left]
    exact ⟨_, rfl, contentLength_textHeaders, rfl⟩

end

/-! ## The two replies -/

section
variable {δ : Type*} (fmt : DoubleFormat δ) (gPerfRecords : List (PerfRecord δ))

/-- The type of the metrics has blanks, but none around it. -/
theorem plain_metricsType : (⟨bytes "Content-Type",
    bytes "text/plain; version=0.0.4; charset=utf-8"⟩ : Http.Header).Plain := by
  have hfirst : (bytes "text/plain; version=0.0.4; charset=utf-8").head? = some 116 := by decide
  have hlast : (bytes "text/plain; version=0.0.4; charset=utf-8").getLast? = some 56 := by decide
  refine ⟨by decide, forall_of_all (by decide), forall_of_all (by decide), fun c hc => ?_,
    fun c hc => ?_⟩
  · obtain rfl := Option.some.inj (hfirst.symm.trans hc)
    decide
  · obtain rfl := Option.some.inj (hlast.symm.trans hc)
    decide

theorem announces_metricsFunc_iff :
    Announces (metricsFunc fmt.print gPerfRecords)
        (generatePrometheusMetricsText fmt.print gPerfRecords zeroedBuffer).buffer ↔
      metricsLength fmt.print gPerfRecords ≤ 8191 := by
  have hlength := length_metricsText fmt.print gPerfRecords
  obtain ⟨hfits, hlong⟩ := n_metrics fmt gPerfRecords zeroedBuffer
  have hcstr := cstr_metrics_zeroed fmt gPerfRecords
  have hlt : (generatePrometheusMetricsText fmt.print gPerfRecords zeroedBuffer).n < 2 ^ 31 := by
    rw [generatePrometheusMetricsText, printRecords_eq]
    exact Rendering.n_printWhile_lt (by decide) _
  have hcut := congrArg List.length hcstr
  rw [List.length_take] at hcut
  obtain ⟨len, hn⟩ : ∃ len : ℕ,
      (generatePrometheusMetricsText fmt.print gPerfRecords zeroedBuffer).n = len :=
    Int.eq_ofNat_of_zero_le (by omega)
  rw [metricsFunc, hn, announces_iff ?_ (forall_of_all (by decide)) (by decide) (by omega)
    (by omega)]
  · omega
  · exact plain_metricsType

theorem announces_statsFunc (h : pageLength fmt.print gPerfRecords ≤ 8191) :
    Announces (statsFunc fmt.print gPerfRecords)
      (generateStatsHTMLPage fmt.print gPerfRecords zeroedBuffer).buffer := by
  have hlength := length_pageText fmt.print gPerfRecords
  have hcstr := cstr_page fmt gPerfRecords zeroedBuffer h
  rw [statsFunc, (printed_page fmt gPerfRecords zeroedBuffer h).n]
  rw [announces_iff ?_ (forall_of_all (by decide)) (by decide) (by rw [hcstr]; omega) (by omega),
    hcstr]
  exact .of_solid (by decide) (forall_of_all (by decide)) (forall_of_all (by decide))

/-- Both replies announce what they send, the one with the page while that fits into its buffer. -/
structure RepliesAnnounce : Prop where
  metrics : Announces (metricsFunc fmt.print gPerfRecords)
    (generatePrometheusMetricsText fmt.print gPerfRecords zeroedBuffer).buffer
  stats : pageLength fmt.print gPerfRecords ≤ 8191 →
    Announces (statsFunc fmt.print gPerfRecords)
      (generateStatsHTMLPage fmt.print gPerfRecords zeroedBuffer).buffer

/-- **What is announced is sent** exactly when all of the metrics fit into their buffer. -/
theorem replies_announce_iff :
    RepliesAnnounce fmt gPerfRecords ↔ metricsLength fmt.print gPerfRecords ≤ 8191 :=
  ⟨fun h => (announces_metricsFunc_iff fmt gPerfRecords).1 h.metrics, fun h =>
    ⟨(announces_metricsFunc_iff fmt gPerfRecords).2 h, announces_statsFunc fmt gPerfRecords⟩⟩

end

/-- Eight records are announced with more than is sent. -/
theorem replies_not_announced :
    ¬RepliesAnnounce finiteFormat (List.replicate 8 (newPerfRecord loginName)) := by
  intro h
  have hrecord : recordLength finiteFormat.print (newPerfRecord loginName) = 1040 := by
    decide +kernel
  have hlength := (announces_metricsFunc_iff finiteFormat _).1 h.metrics
  rw [metricsLength, List.map_replicate, List.sum_replicate, hrecord] at hlength
  exact absurd hlength (by decide)

end ServerBase
