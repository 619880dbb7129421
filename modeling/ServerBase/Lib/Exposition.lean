import Mathlib.Data.List.Nodup

/-!
# The text format for metrics

A reader of texts in the Prometheus exposition format, as far as its rules on the order of lines go:
`HELP` and `TYPE` lines, and samples with the name of their metric. Blank lines and comments are
skipped.

**Reading line by line** (`parse_append`). Texts that end in a newline are read one after the other.
-/

namespace Exposition

abbrev LF : UInt8 := 10
abbrev HASH : UInt8 := 35

inductive Line
  | help (metric : List UInt8)
  | type (metric : List UInt8)
  | sample (metric : List UInt8)
  deriving DecidableEq

/-! ## Reading -/

def isBlank (c : UInt8) : Bool := c == 32 || c == 9

/-- `[a-zA-Z0-9_:]` -/
def isNameChar (c : UInt8) : Bool :=
  (97 ≤ c && c ≤ 122) || (65 ≤ c && c ≤ 90) || (48 ≤ c && c ≤ 57) || c == 95 || c == 58

/-- The first word, and what follows it. -/
def readWord (text : List UInt8) : List UInt8 × List UInt8 :=
  (text.dropWhile isBlank).span fun c => !isBlank c

/-- What follows a `#` -/
def readComment (text : List UInt8) : Option Line :=
  let (keyword, rest) := readWord text
  let metric := (readWord rest).1
  if keyword = [72, 69, 76, 80] then some (.help metric)
  else if keyword = [84, 89, 80, 69] then some (.type metric)
  else none

/-- A line; nothing when it is blank or a comment. -/
def readLine (line : List UInt8) : Option Line :=
  match line.dropWhile isBlank with
  | [] => none
  | c :: rest =>
      if c = HASH then readComment rest else some (.sample ((c :: rest).takeWhile isNameChar))

/-- The lines of a text. -/
def parse (text : List UInt8) : List Line := (text.splitOn LF).filterMap readLine

/-! ## Rules -/

/-- The lines that equal `line` follow one another. -/
def Contiguous (line : Line) (lines : List Line) : Prop :=
  ∃ front k back, lines = front ++ List.replicate k line ++ back ∧ line ∉ front ∧ line ∉ back

/-- The rules on the order of lines. -/
structure WellFormed (lines : List Line) : Prop where
  help_once : ∀ metric, lines.count (.help metric) ≤ 1
  type_once : ∀ metric, lines.count (.type metric) ≤ 1
  type_first : ∀ metric front back, lines = front ++ .type metric :: back →
    .sample metric ∉ front
  grouped : ∀ metric, Contiguous (.sample metric) lines

/-! ## Checking the rules -/

def Line.isHead : Line → Bool
  | .sample _ => false
  | _ => true

/-- A sample does not stand in front of the type of its metric. -/
def Line.MayPrecede : Line → Line → Prop
  | .sample metric, .type metric' => metric ≠ metric'
  | _, _ => True

instance : DecidableRel Line.MayPrecede
  | .sample metric, .type metric' => inferInstanceAs (Decidable (metric ≠ metric'))
  | .sample _, .help _ => .isTrue trivial
  | .sample _, .sample _ => .isTrue trivial
  | .help _, _ => .isTrue trivial
  | .type _, _ => .isTrue trivial

theorem contiguous_of_not_mem {line : Line} {lines : List Line} (h : line ∉ lines) :
    Contiguous line lines :=
  ⟨lines, 0, [], by simp, h, List.not_mem_nil⟩

/-- The rules for given lines. -/
theorem WellFormed.of_check {lines : List Line} (hheads : (lines.filter Line.isHead).Nodup)
    (horder : lines.Pairwise Line.MayPrecede)
    (hgroups : ∀ metric, .sample metric ∈ lines → Contiguous (.sample metric) lines) :
    WellFormed lines where
  help_once metric := by
    rw [← List.count_filter (p := Line.isHead) rfl]
    exact List.nodup_iff_count_le_one.1 hheads _
  type_once metric := by
    rw [← List.count_filter (p := Line.isHead) rfl]
    exact List.nodup_iff_count_le_one.1 hheads _
  type_first metric front back hlines hmem := by
    rw [hlines, List.pairwise_append] at horder
    exact horder.2.2 _ hmem _ (List.mem_cons_self ..) rfl
  grouped metric := by
    by_cases hmem : .sample metric ∈ lines
    · exact hgroups metric hmem
    · exact contiguous_of_not_mem hmem

/-! ## Reading line by line -/

theorem parse_cons (front back : List UInt8) :
    parse (front ++ LF :: back) = parse front ++ parse back := by
  rw [parse, List.splitOn_append_cons_self, List.filterMap_append]
  rfl

/-- **Texts one after the other.** -/
theorem parse_append (front : List UInt8) (h : front.getLast? = some LF) (back : List UInt8) :
    parse (front ++ back) = parse front ++ parse back := by
  obtain ⟨front, rfl⟩ := List.getLast?_eq_some_iff.1 h
  have hnil : parse [] = [] := rfl
  rw [List.append_assoc, List.singleton_append, parse_cons, parse_cons, hnil, List.append_nil]

theorem readLine_sample {metric rest : List UInt8} {c : UInt8} (hne : metric ≠ [])
    (hmetric : metric.all isNameChar = true) (hc : isNameChar c = false) :
    readLine (metric ++ c :: rest) = some (.sample metric) := by
  have htake : (metric ++ c :: rest).takeWhile isNameChar = metric := by
    rw [List.takeWhile_append_of_pos fun x hx => List.all_eq_true.1 hmetric x hx,
      List.takeWhile_cons_of_neg (by simp [hc]), List.append_nil]
  obtain ⟨d, metric, rfl⟩ := List.exists_cons_of_ne_nil hne
  have hd : isNameChar d = true := List.all_eq_true.1 hmetric d (List.mem_cons_self ..)
  have hhash : d ≠ HASH := by
    rintro rfl
    exact absurd hd (by decide)
  have hblank : ¬isBlank d = true := by
    intro hblank
    rcases Bool.or_eq_true_iff.1 hblank with h | h
    · rw [eq_of_beq h] at hd
      exact absurd hd (by decide)
    · rw [eq_of_beq h] at hd
      exact absurd hd (by decide)
  rw [List.cons_append] at htake ⊢
  rw [readLine, List.dropWhile_cons_of_neg hblank]
  simp only [if_neg hhash, htake]

/-- A line with a sample. -/
theorem parse_sample {metric rest : List UInt8} {c : UInt8} (hne : metric ≠ [])
    (hmetric : metric.all isNameChar = true) (hc : isNameChar c = false)
    (hrest : LF ∉ c :: rest) : parse (metric ++ c :: rest ++ [LF]) = [.sample metric] := by
  have hnil : parse [] = [] := rfl
  have hline : LF ∉ metric ++ c :: rest := by
    intro h
    rcases List.mem_append.1 h with h | h
    · exact absurd (List.all_eq_true.1 hmetric LF h) (by decide)
    · exact hrest h
  rw [parse_cons, hnil, List.append_nil, parse, List.splitOn_eq_singleton hline,
    List.filterMap_cons_some (readLine_sample hne hmetric hc), List.filterMap_nil]

end Exposition
