import Mathlib.Algebra.Ring.Int.Defs
import ServerBase.Lib.TextBuffer
import ServerBase.Printf

/-!
# Rendering into a buffer

The two renderers of `utils/server_stats.cpp` print into a buffer of 8192 bytes, one `snprintf`
behind the other.

**Printing** (`Rendering.print`). Every `snprintf` is recorded with its position and its size
argument. The position goes on by the length the whole piece would have had.

**What was printed** (`Printed`). While the position is in the buffer, the buffer holds the text, as
far as it fits.
-/

namespace ServerBase

theorem length_cstr_le (b : Bytes) : (cstr b).length ≤ b.length :=
  (List.takeWhile_prefix _).length_le

/-- A terminator ends the C string. -/
theorem length_cstr_lt {b : Bytes} (h : 0 ∈ b) : (cstr b).length < b.length := by
  refine Nat.lt_of_le_of_ne (length_cstr_le b) fun hlength => ?_
  have hb : cstr b = b := (List.takeWhile_prefix _).eq_of_length hlength
  exact cstr_noNul b 0 (hb.symm ▸ h) rfl

/-! ## Printing into the buffer -/

/-- `char (&buffer)[8192]` -/
structure Buffer where
  bytes : Bytes
  length_eq : bytes.length = 8192

/-- `char buffer[8192] = {}` -/
def zeroedBuffer : Buffer := ⟨List.replicate 8192 0, List.length_replicate⟩

/-- `bs` is written from `n` on; what lies outside is not part of the buffer. -/
def Buffer.write (b : Buffer) (n : Int) (bs : Bytes) : Buffer where
  bytes := TextBuffer.overwrite b.bytes n.toNat (bs.drop (-n).toNat)
  length_eq := (TextBuffer.length_overwrite ..).trans b.length_eq

/-- A call of `snprintf`: its position, its size argument and all that it prints. -/
structure PrintCall where
  n : Int
  size : ℕ
  out : Bytes

/-- At a position in the buffer, with the size that is left. -/
def PrintCall.InBuffer (c : PrintCall) : Prop :=
  0 ≤ c.n ∧ c.n < 8192 ∧ (c.size : Int) = 8192 - c.n

structure Rendering where
  buffer : Buffer
  n : Int := 0
  /-- Newest first. -/
  calls : List PrintCall := []

namespace Rendering

/-- `n += snprintf(buffer + n, sizeof(buffer) - (size_t)n, ...)` -/
def print (s : Rendering) (out : Bytes) : Rendering :=
  let size := ((8192 - s.n) % 2 ^ 64).toNat
  { buffer := s.buffer.write s.n (TextBuffer.cut 0 size out)
    n := int32 (s.n + (snprintf size out).2)
    calls := { n := s.n, size, out } :: s.calls }

/-- One piece after the other. -/
def printAll (s : Rendering) (outs : List Bytes) : Rendering := outs.foldl print s

/-- One piece after the other, each while the position is in the buffer. -/
def printWhile (s : Rendering) (outs : List Bytes) : Rendering :=
  outs.foldl (fun s out => if 8192 ≤ s.n then s else s.print out) s

variable {s : Rendering} {text out : Bytes} {outs : List Bytes}

theorem printAll_append (s : Rendering) (outs outs' : List Bytes) :
    s.printAll (outs ++ outs') = (s.printAll outs).printAll outs' :=
  List.foldl_append ..

theorem printAll_map {β : Type*} (s : Rendering) (f : β → Bytes) (l : List β) :
    s.printAll (l.map f) = l.foldl (fun s b => s.print (f b)) s :=
  List.foldl_map ..

theorem printAll_flatMap {β : Type*} (s : Rendering) (f : β → List Bytes) (l : List β) :
    s.printAll (l.flatMap f) = l.foldl (fun s b => s.printAll (f b)) s :=
  List.foldl_flatMap ..

theorem printWhile_append (s : Rendering) (outs outs' : List Bytes) :
    s.printWhile (outs ++ outs') = (s.printWhile outs).printWhile outs' :=
  List.foldl_append ..

theorem printWhile_cons (s : Rendering) (out : Bytes) (outs : List Bytes) :
    s.printWhile (out :: outs) = (if 8192 ≤ s.n then s else s.print out).printWhile outs := rfl

/-- Behind the end nothing is printed any more. -/
theorem printWhile_of_le (h : 8192 ≤ s.n) (outs : List Bytes) : s.printWhile outs = s := by
  induction outs with
  | nil => rfl
  | cons out outs ih => rw [printWhile_cons, if_pos h, ih]

/-- The position is an `int`. -/
theorem n_printWhile_lt (h : s.n < 2 ^ 31) (outs : List Bytes) :
    (s.printWhile outs).n < 2 ^ 31 := by
  induction outs generalizing s with
  | nil => exact h
  | cons out outs ih =>
      rw [printWhile_cons]
      split
      · exact ih h
      · exact ih (Int.bmod_lt (m := 2 ^ 32) (by decide))

/-- A piece that is printed makes a call. -/
theorem calls_printWhile_ne_nil (h : s.calls ≠ [] ∨ s.n < 8192 ∧ outs ≠ []) :
    (s.printWhile outs).calls ≠ [] := by
  induction outs generalizing s with
  | nil => exact h.elim id fun h => absurd rfl h.2
  | cons out outs ih =>
      rw [printWhile_cons]
      by_cases hn : 8192 ≤ s.n
      · rw [if_pos hn]
        exact ih (.inl (h.resolve_right fun h => absurd h.1 (Int.not_lt.2 hn)))
      · rw [if_neg hn]
        exact ih (.inl (List.cons_ne_nil _ _))

/-- The position goes on by the length of the piece. -/
theorem n_print (h0 : 0 ≤ s.n) (hn : s.n ≤ 8192) (hout : out.length ≤ 4096) :
    (s.print out).n = s.n + out.length := by
  have hmax : (INT_MAX : Int) = 2147483647 := rfl
  have hint : out.length ≤ INT_MAX := Nat.le_trans hout (by decide)
  change int32 (s.n + (snprintf _ out).2) = _
  rw [snprintf, if_pos hint]
  exact int32_of_le (by omega) (by omega)

/-- At a position in the buffer the piece is written there. -/
theorem bytes_print (h0 : 0 ≤ s.n) (hn : s.n < 8192) :
    (s.print out).buffer.bytes = TextBuffer.overwrite s.buffer.bytes s.n.toNat
      (TextBuffer.cut 0 (s.buffer.bytes.length - s.n.toNat) out) := by
  have hsize : ((8192 - s.n) % 2 ^ 64).toNat = s.buffer.bytes.length - s.n.toNat := by
    rw [s.buffer.length_eq]
    omega
  have hpos : (-s.n).toNat = 0 := by omega
  rw [← hsize]
  change TextBuffer.overwrite _ s.n.toNat (List.drop _ _) = _
  rw [hpos, List.drop_zero]

/-- `calls` only grows. -/
theorem mem_calls_printAll {c : PrintCall} (h : c ∈ s.calls) : c ∈ (s.printAll outs).calls := by
  induction outs generalizing s with
  | nil => exact h
  | cons out outs ih => exact ih (List.mem_cons_of_mem _ h)

/-- While no call is behind the end, the position goes on by the length of the text. -/
theorem n_printAll (hcalls : ∀ c ∈ (s.printAll outs).calls, 0 ≤ c.n ∧ c.n ≤ 8192)
    (hout : ∀ out ∈ outs, out.length ≤ 4096) :
    (s.printAll outs).n = s.n + outs.flatten.length := by
  induction outs generalizing s with
  | nil => exact (Int.add_zero _).symm
  | cons out outs ih =>
      obtain ⟨h0, hn⟩ := hcalls _ (mem_calls_printAll (s := s.print out) (List.mem_cons_self ..))
      have hrest := ih (s := s.print out) hcalls fun o ho => hout o (List.mem_cons_of_mem _ ho)
      change ((s.print out).printAll outs).n = _
      rw [hrest, n_print h0 hn (hout out (List.mem_cons_self ..)), List.flatten_cons,
        List.length_append, Int.natCast_add, Int.add_assoc]

end Rendering

/-! ## The text printed so far -/

/-- The text went behind the beginning of the buffer, and nothing else was written. -/
structure Printed (s : Rendering) (text : Bytes) : Prop where
  n : s.n = text.length
  before : text.length < 8192 → s.buffer.bytes.take text.length = text
  holds : s.calls ≠ [] → TextBuffer.Holds 0 s.buffer.bytes text
  calls : ∀ c ∈ s.calls, c.InBuffer

namespace Printed

variable {s : Rendering} {text out : Bytes} {outs : List Bytes}

theorem start (buffer : Buffer) : Printed { buffer } [] where
  n := rfl
  before _ := rfl
  holds h := absurd rfl h
  calls c hc := by cases hc

/-- **A piece is printed** behind the text. -/
theorem print (h : Printed s text) (hroom : text.length < 8192) (hout : out.length ≤ 4096) :
    Printed (s.print out) (text ++ out) := by
  have hpos := h.n
  have h0 : 0 ≤ s.n := by omega
  have hn : s.n < 8192 := by omega
  have hholds : TextBuffer.Holds 0 (s.print out).buffer.bytes (text ++ out) := by
    rw [Rendering.bytes_print h0 hn, hpos, Int.toNat_natCast]
    exact TextBuffer.holds_overwrite (s.buffer.length_eq ▸ hroom) (h.before hroom)
  refine ⟨?_, fun hroom' => hholds.take ?_, fun _ => hholds, fun c hc => ?_⟩
  · rw [Rendering.n_print h0 (Int.le_of_lt hn) hout, hpos, List.length_append, Int.natCast_add]
  · rw [(s.print out).buffer.length_eq]
    exact hroom'
  · rcases List.mem_cons.1 hc with rfl | hc
    · refine ⟨h0, hn, ?_⟩
      dsimp only
      omega
    · exact h.calls c hc

/-- Pieces that all fit. -/
theorem printAll (h : Printed s text) (hout : ∀ out ∈ outs, out.length ≤ 4096)
    (hroom : text.length + outs.flatten.length < 8192) :
    Printed (s.printAll outs) (text ++ outs.flatten) := by
  induction outs generalizing s text with
  | nil =>
      rw [List.flatten_nil, List.append_nil]
      exact h
  | cons out outs ih =>
      rw [List.flatten_cons, List.length_append] at hroom
      have hprinted := h.print (by omega) (hout out (by simp))
      have hrest := ih hprinted (fun o ho => hout o (List.mem_cons_of_mem _ ho))
        (by rw [List.length_append]; omega)
      rw [List.flatten_cons, ← List.append_assoc]
      exact hrest

/-- Pieces that are printed while there is room. -/
theorem printWhile (h : Printed s text) (hout : ∀ out ∈ outs, out.length ≤ 4096) :
    Printed (s.printWhile outs) (TextBuffer.fill 8192 text outs) := by
  induction outs generalizing s text with
  | nil => exact h
  | cons out outs ih =>
      have hn := h.n
      rw [Rendering.printWhile_cons, TextBuffer.fill_cons]
      by_cases hroom : 8192 ≤ text.length
      · rw [if_pos hroom, if_pos (by omega)]
        exact ih h fun o ho => hout o (List.mem_cons_of_mem _ ho)
      · rw [if_neg hroom, if_neg (by omega)]
        exact ih (h.print (Nat.not_le.1 hroom) (hout out (List.mem_cons_self ..)))
          fun o ho => hout o (List.mem_cons_of_mem _ ho)

/-- The buffer holds the text as a C string. -/
theorem cstr_eq (h : Printed s text) (hcalls : s.calls ≠ []) (hnul : ∀ c ∈ text, c ≠ 0) :
    cstr s.buffer.bytes = text.take 8191 := by
  obtain ⟨rest, hrest⟩ := h.holds hcalls
  rw [s.buffer.length_eq] at hrest
  rw [hrest]
  exact cstr_append_nul (fun c hc => hnul c (List.mem_of_mem_take hc)) rest

end Printed

end ServerBase
