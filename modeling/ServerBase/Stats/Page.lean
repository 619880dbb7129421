import Mathlib.Algebra.Order.BigOperators.Group.List
import ServerBase.Stats.PerfRecord
import ServerBase.Stats.Rendering

/-!
# The statistics page

`GenerateStatsHTMLPage` prints a table of the records and looks at no length in between.

**The result** (`stats_page_iff`). The page stays in its buffer exactly when it is shorter than the
buffer.
-/

namespace ServerBase

/-! ## `GenerateStatsHTMLPage` -/

namespace TimingBuckets

/-- `bucketnames` -/
def name : TimingBuckets → String
  | perfSub1ms => "<1ms"
  | perf1to2ms => "1-2ms"
  | perf2to5ms => "2-5ms"
  | perf5to10ms => "5-10ms"
  | perf10to50ms => "10-50ms"
  | perfOver50ms => ">50ms"

end TimingBuckets

/-- `header`; it is printed with `%s`. -/
def header : Bytes :=
  bytes "<!DOCTYPE html>" ++ bytes "<html>" ++ bytes "<head>" ++
    bytes "<title>Server Performance Statistics</title>" ++ bytes "<style>" ++
    bytes "body \x7b font-family: Arial, sans-serif; margin: 40px; \x7d" ++
    bytes "table \x7b border-collapse: collapse; width: 100%%; \x7d" ++
    bytes "th, td \x7b border: 1px solid #ddd; padding: 8px; text-align: left; \x7d" ++
    bytes "th \x7b background-color: #f2f2f2; \x7d" ++
    bytes "tr:nth-child(even) \x7b background-color: #f9f9f9; \x7d" ++ bytes "</style>" ++
    bytes "</head>" ++ bytes "<body>" ++ bytes "<h1>Server Performance Statistics</h1>"

def tableHead : Bytes :=
  bytes "<table>" ++ bytes "<tr>" ++ bytes "<th>API</th>" ++ bytes "<th>Calls</th>" ++
    bytes "<th>Avg time</th>" ++ bytes "<th>Max time</th>" ++ bytes "<th>Total time</th>"

/-- `<th>%s</th>` -/
def bucketHead (b : TimingBuckets) : Bytes := bytes "<th>" ++ bytes b.name ++ bytes "</th>"

/-- `<td>%.3f ms</td>` -/
def timeCell (time : Bytes) : Bytes := bytes "<td>" ++ time ++ bytes " ms</td>"

/-- `<td>%d</td>` -/
def countCell (count : BitVec 32) : Bytes := bytes "<td>" ++ printInt count.toInt ++ bytes "</td>"

/-- What is printed in front of the records. -/
def pageHead : List Bytes :=
  [header, tableHead] ++ TimingBuckets.all.map bucketHead ++ [bytes "</tr>"]

section
variable {δ : Type*} (fixed3 : δ → Bytes)

/-- A row up to the buckets. -/
def rowHead (r : PerfRecord δ) : Bytes :=
  bytes "<tr>" ++ (bytes "<td>" ++ r.mName.bytes ++ bytes "</td>") ++ countCell r.mCalls ++
    timeCell (fixed3 r.mAverage) ++ timeCell (fixed3 r.mMax) ++ timeCell (fixed3 r.mSum)

/-- The loop over the records: a row. -/
def printRow (s : Rendering) (r : PerfRecord δ) : Rendering :=
  let s := s.print (rowHead fixed3 r)
  let s := TimingBuckets.all.foldl (fun s b => s.print (countCell (r.mHistogram b))) s
  s.print (bytes "</tr>")

/-- `GenerateStatsHTMLPage`; it returns `n`. -/
def generateStatsHTMLPage (gPerfRecords : List (PerfRecord δ)) (buffer : Buffer) : Rendering :=
  let s : Rendering := { buffer }
  let s := s.print header
  let s := s.print tableHead
  let s := TimingBuckets.all.foldl (fun s b => s.print (bucketHead b)) s
  let s := s.print (bytes "</tr>")
  let s := gPerfRecords.foldl (printRow fixed3) s
  let s := s.print (bytes "</table>")
  s.print (bytes "</body></html>\r\n")

/-! ### The pieces -/

def rowPieces (r : PerfRecord δ) : List Bytes :=
  rowHead fixed3 r :: (TimingBuckets.all.map fun b => countCell (r.mHistogram b)) ++
    [bytes "</tr>"]

/-- All pieces but the last. -/
def pagePieces (gPerfRecords : List (PerfRecord δ)) : List Bytes :=
  pageHead ++ gPerfRecords.flatMap (rowPieces fixed3) ++ [bytes "</table>"]

/-- The whole page. -/
def pageText (gPerfRecords : List (PerfRecord δ)) : Bytes :=
  (pagePieces fixed3 gPerfRecords ++ [bytes "</body></html>\r\n"]).flatten

/-- How long a row is. -/
def rowLength (r : PerfRecord δ) : ℕ :=
  117 + r.mName.bytes.length + (printInt r.mCalls.toInt).length +
    (fixed3 r.mAverage).length + (fixed3 r.mMax).length + (fixed3 r.mSum).length +
    (TimingBuckets.all.map fun b => (printInt (r.mHistogram b).toInt).length).sum

/-- How long the page is. -/
def pageLength (gPerfRecords : List (PerfRecord δ)) : ℕ :=
  594 + (gPerfRecords.map (rowLength fixed3)).sum

theorem generateStatsHTMLPage_eq (gPerfRecords : List (PerfRecord δ)) (buffer : Buffer) :
    generateStatsHTMLPage fixed3 gPerfRecords buffer =
      (({ buffer } : Rendering).printAll (pagePieces fixed3 gPerfRecords)).print
        (bytes "</body></html>\r\n") := by
  have hrow : printRow fixed3 = fun s r => s.printAll (rowPieces fixed3 r) := by
    funext s r
    rw [rowPieces, List.cons_append, Rendering.printAll, List.foldl_cons, ← Rendering.printAll,
      Rendering.printAll_append, Rendering.printAll_map]
    rfl
  rw [generateStatsHTMLPage, hrow]
  simp only [pagePieces, pageHead, Rendering.printAll_append, Rendering.printAll_map,
    Rendering.printAll_flatMap]
  rfl

/-- The literals of a row. -/
theorem length_rowLiterals : (bytes "<tr>").length = 4 ∧ (bytes "<td>").length = 4 ∧
    (bytes "</td>").length = 5 ∧ (bytes " ms</td>").length = 8 ∧ (bytes "</tr>").length = 5 := by
  decide

theorem length_rowPieces (r : PerfRecord δ) :
    (rowPieces fixed3 r).flatten.length = rowLength fixed3 r := by
  simp only [rowPieces, rowHead, timeCell, countCell, TimingBuckets.all, rowLength,
    List.map_cons, List.map_nil, List.cons_append, List.nil_append, List.flatten_cons,
    List.flatten_nil, List.length_append, List.length_nil, List.sum_cons, List.sum_nil,
    length_rowLiterals]
  omega

theorem length_rows (gPerfRecords : List (PerfRecord δ)) :
    (gPerfRecords.flatMap (rowPieces fixed3)).flatten.length =
      (gPerfRecords.map (rowLength fixed3)).sum := by
  induction gPerfRecords with
  | nil => rfl
  | cons r rs ih =>
      rw [List.flatMap_cons, List.flatten_append, List.length_append, length_rowPieces, ih,
        List.map_cons, List.sum_cons]

/-- What stands in front of the rows. -/
theorem pageHead_spec : pageHead.flatten.length = 570 ∧
    pageHead.flatten.all (fun c => decide (c ≠ 0)) = true := by
  decide +kernel

theorem length_pageText (gPerfRecords : List (PerfRecord δ)) :
    (pageText fixed3 gPerfRecords).length = pageLength fixed3 gPerfRecords := by
  have hback : (bytes "</table>").length = 8 ∧ (bytes "</body></html>\r\n").length = 16 := by
    decide
  simp only [pageText, pagePieces, List.flatten_append, List.flatten_cons, List.flatten_nil,
    List.append_nil, List.length_append, length_rows, hback, pageHead_spec.1]
  rw [pageLength]
  omega

section
variable (fmt : DoubleFormat δ)

theorem rowLength_le (r : PerfRecord δ) : rowLength fmt.print r ≤ 1199 := by
  have hname := r.mName.fits
  have hcalls := length_printInt r.mCalls
  have haverage := fmt.length_le r.mAverage
  have hmax := fmt.length_le r.mMax
  have hsum := fmt.length_le r.mSum
  have hcounts : (TimingBuckets.all.map fun b => (printInt (r.mHistogram b).toInt).length).sum ≤
      6 * 11 := by
    refine List.sum_le_card_nsmul _ 11 fun x hx => ?_
    obtain ⟨b, -, rfl⟩ := List.mem_map.1 hx
    exact length_printInt _
  rw [rowLength]
  omega

/-- No piece is long. -/
theorem length_of_mem_pagePieces (gPerfRecords : List (PerfRecord δ)) {out : Bytes}
    (hout : out ∈ pagePieces fmt.print gPerfRecords) : out.length ≤ 4096 := by
  rw [pagePieces, List.mem_append, List.mem_append, List.mem_flatMap, List.mem_singleton] at hout
  rcases hout with (hout | ⟨r, -, hout⟩) | rfl
  · have hle := (List.sublist_flatten_of_mem hout).length_le
    rw [pageHead_spec.1] at hle
    omega
  · have hle := (List.sublist_flatten_of_mem hout).length_le
    have hrow := rowLength_le fmt r
    rw [length_rowPieces] at hle
    omega
  · decide

theorem noNul_countCell (count : BitVec 32) : ∀ c ∈ countCell count, c ≠ 0 :=
  noNul_append (noNul_append (forall_of_all (by decide)) (noNul_printInt _))
    (forall_of_all (by decide))

theorem noNul_timeCell (x : δ) : ∀ c ∈ timeCell (fmt.print x), c ≠ 0 :=
  noNul_append (noNul_append (forall_of_all (by decide)) (fmt.noNul x)) (forall_of_all (by decide))

theorem noNul_rowHead (r : PerfRecord δ) : ∀ c ∈ rowHead fmt.print r, c ≠ 0 := by
  have hname : ∀ c ∈ bytes "<td>" ++ r.mName.bytes ++ bytes "</td>", c ≠ 0 :=
    noNul_append (noNul_append (forall_of_all (by decide)) r.mName.noNul)
      (forall_of_all (by decide))
  have hcalls := noNul_append (noNul_append (forall_of_all (b := bytes "<tr>") (by decide)) hname)
    (noNul_countCell r.mCalls)
  exact noNul_append (noNul_append (noNul_append hcalls (noNul_timeCell fmt _))
    (noNul_timeCell fmt _)) (noNul_timeCell fmt _)

/-- The page is text. -/
theorem noNul_pageText (gPerfRecords : List (PerfRecord δ)) :
    ∀ c ∈ pageText fmt.print gPerfRecords, c ≠ 0 := by
  intro c hc
  obtain ⟨out, hout, hc⟩ := List.mem_flatten.1 hc
  simp only [pagePieces, List.mem_append, List.mem_flatMap, List.mem_singleton] at hout
  rcases hout with ((hout | ⟨r, -, hout⟩) | rfl) | rfl
  · exact forall_of_all pageHead_spec.2 c (List.mem_flatten_of_mem hout hc)
  · rw [rowPieces, List.cons_append, List.mem_cons, List.mem_append, List.mem_map,
      List.mem_singleton] at hout
    rcases hout with rfl | ⟨b, -, rfl⟩ | rfl
    · exact noNul_rowHead fmt r c hc
    · exact noNul_countCell _ c hc
    · exact forall_of_all (p := (· ≠ 0)) (by decide) c hc
  · exact forall_of_all (p := (· ≠ 0)) (by decide) c hc
  · exact forall_of_all (p := (· ≠ 0)) (by decide) c hc

end

/-! ### Staying in the buffer -/

/-- Every `snprintf` is given the size that is left, and the length that is returned is that of the
text in the buffer. -/
structure StaysInBuffer (s : Rendering) : Prop where
  calls : ∀ c ∈ s.calls, 0 ≤ c.n ∧ c.n ≤ 8192 ∧ (c.size : Int) = 8192 - c.n
  length : s.n = (cstr s.buffer.bytes).length

section
variable (fmt : DoubleFormat δ) (gPerfRecords : List (PerfRecord δ)) (buffer : Buffer)

/-- All of the page is printed while it is shorter than the buffer. -/
theorem printed_page (h : pageLength fmt.print gPerfRecords ≤ 8191) :
    Printed (generateStatsHTMLPage fmt.print gPerfRecords buffer)
      (pageText fmt.print gPerfRecords) := by
  have htext := length_pageText fmt.print gPerfRecords
  have hlast : (bytes "</body></html>\r\n").length = 16 := by decide
  rw [pageText, List.flatten_append, List.length_append, List.flatten_singleton] at htext
  have hfront := (Printed.start buffer).printAll
    (fun out hout => length_of_mem_pagePieces fmt gPerfRecords hout) (by
      rw [List.length_nil]
      omega)
  rw [List.nil_append] at hfront
  have hpage := hfront.print (by omega) (hlast.trans_le (by decide))
  rw [generateStatsHTMLPage_eq, pageText, List.flatten_append, List.flatten_singleton]
  exact hpage

/-- The page in the buffer. -/
theorem cstr_page (h : pageLength fmt.print gPerfRecords ≤ 8191) :
    cstr (generateStatsHTMLPage fmt.print gPerfRecords buffer).buffer.bytes =
      pageText fmt.print gPerfRecords := by
  have htext := length_pageText fmt.print gPerfRecords
  have hcstr := (printed_page fmt gPerfRecords buffer h).cstr_eq
    (by simp [generateStatsHTMLPage_eq, Rendering.print]) (noNul_pageText fmt gPerfRecords)
  rw [hcstr, List.take_of_length_le (htext.trans_le h)]

/-- Positions in the buffer make the last one the length of the page. -/
theorem n_generateStatsHTMLPage
    (hcalls : ∀ c ∈ (generateStatsHTMLPage fmt.print gPerfRecords buffer).calls,
      0 ≤ c.n ∧ c.n ≤ 8192) :
    (generateStatsHTMLPage fmt.print gPerfRecords buffer).n =
      pageLength fmt.print gPerfRecords := by
  have hlast : (bytes "</body></html>\r\n").length ≤ 4096 := by decide
  rw [generateStatsHTMLPage_eq] at hcalls ⊢
  have hfront := Rendering.n_printAll (s := { buffer })
    (fun c hc => hcalls c (List.mem_cons_of_mem _ hc))
    (fun out hout => length_of_mem_pagePieces fmt gPerfRecords hout)
  obtain ⟨h0, hn⟩ := hcalls _ (List.mem_cons_self ..)
  rw [Rendering.n_print h0 hn hlast, hfront, ← length_pageText, pageText, List.flatten_append,
    List.length_append, List.flatten_singleton, Int.natCast_add]
  exact congrArg (· + _) (Int.zero_add _)

/-- A length that the buffer has room for is that of a page that fits. -/
theorem pageLength_le
    (h : StaysInBuffer (generateStatsHTMLPage fmt.print gPerfRecords buffer)) :
    pageLength fmt.print gPerfRecords ≤ 8191 := by
  have hcalls : ∀ c ∈ (generateStatsHTMLPage fmt.print gPerfRecords buffer).calls,
      0 ≤ c.n ∧ c.n ≤ 8192 := fun c hc => ⟨(h.calls c hc).1, (h.calls c hc).2.1⟩
  have hlength := h.length
  have htotal := n_generateStatsHTMLPage fmt gPerfRecords buffer hcalls
  have hlast : (bytes "</body></html>\r\n").length = 16 := by decide
  rw [htotal] at hlength
  rw [generateStatsHTMLPage_eq] at hcalls hlength htotal
  obtain ⟨h0, hn⟩ := hcalls _ (List.mem_cons_self ..)
  dsimp only at h0 hn
  rw [Rendering.n_print h0 hn (hlast.trans_le (by decide)), hlast] at htotal
  rw [← Nat.lt_succ_iff]
  -- the last piece ends in a terminator, or begins behind the buffer
  rcases Int.lt_or_eq_of_le hn with hlt | heq
  · have hnul : 0 ∈ ((({ buffer } : Rendering).printAll (pagePieces fmt.print gPerfRecords)).print
        (bytes "</body></html>\r\n")).buffer.bytes := by
      rw [Rendering.bytes_print h0 hlt]
      refine TextBuffer.mem_overwrite_cut 0 ?_ _
      rw [Buffer.length_eq]
      omega
    have hcstr := length_cstr_lt hnul
    rw [Buffer.length_eq] at hcstr
    omega
  · have hcstr := length_cstr_le ((({ buffer } : Rendering).printAll
      (pagePieces fmt.print gPerfRecords)).print (bytes "</body></html>\r\n")).buffer.bytes
    rw [Buffer.length_eq] at hcstr
    omega

end

/-- **The page stays in its buffer** exactly when it is shorter than the buffer. -/
theorem stats_page_iff {δ : Type*} (fmt : DoubleFormat δ) (gPerfRecords : List (PerfRecord δ))
    (buffer : Buffer) :
    StaysInBuffer (generateStatsHTMLPage fmt.print gPerfRecords buffer) ↔
      pageLength fmt.print gPerfRecords ≤ 8191 := by
  refine ⟨pageLength_le fmt gPerfRecords buffer, fun h => ?_⟩
  have hprinted := printed_page fmt gPerfRecords buffer h
  refine ⟨fun c hc => ?_, ?_⟩
  · obtain ⟨h0, hn, hsize⟩ := hprinted.calls c hc
    exact ⟨h0, Int.le_of_lt hn, hsize⟩
  · rw [cstr_page fmt gPerfRecords buffer h, hprinted.n]

end

/-- Sixty records are too many. -/
theorem stats_page_leaves_buffer :
    ¬ StaysInBuffer (generateStatsHTMLPage finiteFormat.print
      (List.replicate 60 (newPerfRecord loginName)) zeroedBuffer) := by
  intro h
  have hrow : rowLength finiteFormat.print (newPerfRecord loginName) = 144 := by decide +kernel
  have hlength := pageLength_le finiteFormat _ _ h
  rw [pageLength, List.map_replicate, List.sum_replicate, hrow] at hlength
  exact absurd hlength (by decide)

end ServerBase
