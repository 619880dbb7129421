import ServerBase.Yyjson.Integers
import ServerBase.Yyjson.StringWriter
import ServerBase.Yyjson.Writer

/-!
# The buffer of the document writer

**Lengths.** `write_str` writes at most six bytes for one and two quotes (`length_writeStr`), and a
number has room in `FP_BUF_LEN` bytes (`length_writeNum`).

**The invariant** (`Room`). The text and the stack of open containers do not meet. Behind a value
one byte more is free, which `ctn_end` writes without asking for room.

**The result** (`run_ne_overflow`). No write leaves the space between the text and the stack,
whatever the values and their pointers are.
-/

namespace ServerBase.Yyjson

variable {F : Type}

/-! ## Lengths -/

theorem length_byteOut : ∀ b : UInt8, (byteOut b).length ≤ 6 :=
  forall_byte (by decide)

theorem length_charOut (c : Char) : (charOut c).length ≤ 6 * (String.utf8EncodeChar c).length := by
  have hlen := Utf8.encode_length c
  unfold charOut
  split_ifs with hascii
  · have hbyte := length_byteOut (.ofNat c.toNat)
    omega
  · omega

theorem length_charsOut (cs : List Char) :
    (cs.flatMap charOut).length ≤ 6 * (Json.utf8 cs).length := by
  induction cs with
  | nil => exact Nat.le_refl _
  | cons c cs ih =>
      have hc := length_charOut c
      rw [List.flatMap_cons, Json.utf8_cons, List.length_append, List.length_append]
      omega

theorem length_writeStr {str t : Bytes} (h : writeStr str = some t) :
    t.length ≤ str.length * 6 + 2 := by
  obtain ⟨cs, rfl, rfl⟩ := writeStr_eq_some_iff.1 h
  have hcs := length_charsOut cs
  simp only [List.length_cons, List.length_append, List.length_nil]
  omega

theorem length_writeU64 (v : UInt64) : (writeU64 v.toNat).length ≤ 20 := by
  have hv := v.toNat_lt
  rw [writeU64_eq hv]
  exact (Decimal.length_digits_le_iff (by decide)).2 (by omega)

theorem length_writeNum {double : DoubleWriter F} {n : YyjsonNum F} {t : Bytes}
    (h : writeNum double n = some t) : t.length < FP_BUF_LEN := by
  cases n with
  | int i =>
      obtain rfl := Option.some.inj h
      have hpos := length_writeU64 (.ofInt i.val)
      have hneg := length_writeU64 (~~~(UInt64.ofInt i.val) + 1)
      rw [FP_BUF_LEN]
      split
      · rw [List.length_cons]
        omega
      · omega
  | real f =>
      obtain ⟨l, hl, rfl⟩ := Option.map_eq_some_iff.1 h
      exact double.write_length f l hl

namespace Writer

/-! ## Room -/

/-- The bytes that are free for what the label writes without asking. -/
def slack : WriterLabel → Nat
  | .valBegin => 0
  | .valEnd => 1
  | .ctnEnd => 1

structure Room (label : WriterLabel) (w : Writer) : Prop where
  fits : w.cur.length + slack label + 16 * w.ctx.length ≤ w.alcLen
  large : 64 ≤ w.alcLen
  nonempty : 0 < w.cur.length

/-- What an outcome leaves room for. -/
def Safe : WriterNext → Prop
  | .goto label w => Room label w
  | .docEnd _ => True
  | .fail => True
  | .overflow => False

variable {w : Writer} {label : WriterLabel}

@[simp] theorem incrLen_cur (w : Writer) (ext : Nat) : (w.incrLen ext).cur = w.cur := by
  unfold incrLen
  split <;> rfl

@[simp] theorem incrLen_val (w : Writer) (ext : Nat) : (w.incrLen ext).val = w.val := by
  unfold incrLen
  split <;> rfl

@[simp] theorem incrLen_ctn (w : Writer) (ext : Nat) : (w.incrLen ext).ctn = w.ctn := by
  unfold incrLen
  split <;> rfl

@[simp] theorem incrLen_ctnLen (w : Writer) (ext : Nat) : (w.incrLen ext).ctnLen = w.ctnLen := by
  unfold incrLen
  split <;> rfl

@[simp] theorem incrLen_ctnObj (w : Writer) (ext : Nat) : (w.incrLen ext).ctnObj = w.ctnObj := by
  unfold incrLen
  split <;> rfl

@[simp] theorem incrLen_ctx (w : Writer) (ext : Nat) : (w.incrLen ext).ctx = w.ctx := by
  unfold incrLen
  split <;> rfl

/-- **`incr_len`.** There is room for `ext` bytes, and for one more if `ext` is small or no multiple
of the alignment. -/
theorem incrLen_fits (h : Room .valBegin w) (ext : Nat) :
    64 ≤ (w.incrLen ext).alcLen ∧
      w.cur.length + ext + 16 * w.ctx.length ≤ (w.incrLen ext).alcLen ∧
      (ext < 32 ∨ ext % 16 ≠ 0 →
        w.cur.length + ext + 16 * w.ctx.length < (w.incrLen ext).alcLen) := by
  have hfits := h.fits
  have hlarge := h.large
  have hpos := h.nonempty
  rw [slack] at hfits
  unfold incrLen ctxPos sizeAlignUp
  split_ifs with hfull
  · dsimp only
    omega
  · omega

/-- Bytes are written into the room that there is. -/
theorem safe_put {text : Bytes} {extent : Nat} (hlarge : 64 ≤ w.alcLen) (hne : text ≠ [])
    (hextent : w.cur.length + extent + 16 * w.ctx.length ≤ w.alcLen)
    (htext : w.cur.length + text.length + slack label + 16 * w.ctx.length ≤ w.alcLen) :
    Safe (w.put text extent label) := by
  have hlen := List.length_pos_of_ne_nil hne
  rw [put, if_pos (by rw [ctxPos]; omega)]
  refine ⟨?_, hlarge, ?_⟩
  · rw [List.length_append]
    exact htext
  · rw [List.length_append]
    omega

section
variable (double : DoubleWriter F) (heap : Heap F)

theorem safe_putLiteral {text : Bytes} (h : Room .valBegin w) (htext : text.length ≤ 5) :
    Safe (w.putLiteral text) := by
  obtain ⟨hlarge, -, hfits⟩ := incrLen_fits h 16
  have hfits := hfits (.inl (by decide))
  refine safe_put hlarge (List.concat_ne_nil _ _) ?_ ?_
  · rw [incrLen_cur, incrLen_ctx]
    omega
  · rw [incrLen_cur, incrLen_ctx, List.length_append, List.length_singleton, slack]
    omega

theorem safe_putStr (s : MutStr) (h : Room .valBegin w) : Safe (putStr w s) := by
  obtain ⟨hlarge, hfits, -⟩ := incrLen_fits h (s.bytes.length * 6 + 16)
  unfold putStr
  dsimp only
  split
  · trivial
  · next text htext =>
    have hlen : text.length ≤ s.bytes.length * 6 + 2 := by
      split_ifs at htext with hnoesc
      · obtain rfl := Option.some.inj htext
        simp only [writeStrNoesc, List.length_cons, List.length_append, List.length_nil]
        omega
      · exact length_writeStr htext
    refine safe_put hlarge (List.concat_ne_nil _ _) ?_ ?_
    · rw [incrLen_cur, incrLen_ctx]
      omega
    · rw [incrLen_cur, incrLen_ctx, List.length_append, List.length_singleton, slack]
      omega

theorem safe_putNum (n : YyjsonNum F) (h : Room .valBegin w) : Safe (putNum double w n) := by
  obtain ⟨hlarge, -, hfits⟩ := incrLen_fits h FP_BUF_LEN
  have hfits := hfits (.inr (by decide))
  unfold putNum
  split
  · trivial
  · next text htext =>
    have hlen := length_writeNum htext
    refine safe_put hlarge (List.concat_ne_nil _ _) ?_ ?_
    · rw [incrLen_cur, incrLen_ctx]
      omega
    · rw [incrLen_cur, incrLen_ctx, List.length_append, List.length_singleton, slack]
      omega

theorem safe_putCtn (kind : Json.Kind) (len : Nat) (tail : Addr) (h : Room .valBegin w) :
    Safe (putCtn heap w kind len tail) := by
  obtain ⟨hlarge, -, hfits⟩ := incrLen_fits h 16
  have hfits := hfits (.inl (by decide))
  unfold putCtn
  dsimp only
  split_ifs with hempty hpush
  · refine safe_put hlarge (List.cons_ne_nil _ _) ?_ ?_
    · rw [incrLen_cur, incrLen_ctx]
      omega
    · rw [incrLen_cur, incrLen_ctx, slack]
      simp only [List.length_cons, List.length_nil]
      omega
  · -- the new entry of the stack takes the 16 bytes, and the bracket one more
    refine safe_put hlarge (List.cons_ne_nil _ _) ?_ ?_
    · simp only [enter, incrLen_cur, incrLen_ctx, List.length_cons]
      omega
    · simp only [enter, incrLen_cur, incrLen_ctx, slack, List.length_cons, List.length_nil]
      omega
  · rw [ctxPos, incrLen_cur, incrLen_ctx] at hpush
    omega

theorem safe_valBegin (h : Room .valBegin w) : Safe (valBegin double heap w) := by
  unfold valBegin
  split
  · exact safe_putStr _ h
  · exact safe_putNum double _ h
  · exact safe_putCtn heap _ _ _ h
  · exact safe_putLiteral h (by decide)
  · exact safe_putLiteral h (by decide)
  · exact safe_putLiteral h (by decide)

theorem safe_valEnd (h : Room .valEnd w) : Safe (valEnd heap w) := by
  obtain ⟨hfits, hlarge, hpos⟩ := h
  rw [slack] at hfits
  unfold valEnd
  dsimp only
  split_ifs
  · exact ⟨hfits, hlarge, hpos⟩
  · exact ⟨by dsimp only [slack]; omega, hlarge, hpos⟩

/-- The bracket takes the place of the comma, and an entry of the stack is given back. -/
theorem safe_ctnEnd (h : Room .ctnEnd w) : Safe (ctnEnd heap w) := by
  obtain ⟨hfits, hlarge, hpos⟩ := h
  rw [slack] at hfits
  unfold ctnEnd put ctxPos
  dsimp only
  rw [List.length_dropLast, if_pos (by omega)]
  dsimp only
  split
  · trivial
  · next ctn ctnLen ctnObj ctx hctx =>
    rw [hctx, List.length_cons] at hfits
    split_ifs
    · refine ⟨?_, hlarge, ?_⟩
      · simp only [List.length_append, List.length_dropLast, List.length_cons, List.length_nil,
          slack]
        omega
      · simp
    · refine ⟨?_, hlarge, ?_⟩
      · simp only [List.length_append, List.length_dropLast, List.length_cons, List.length_nil,
          slack]
        omega
      · simp

/-- **One label.** -/
theorem safe_step (h : Room label w) : Safe (step double heap label w) := by
  cases label with
  | valBegin => exact safe_valBegin double heap h
  | valEnd => exact safe_valEnd heap h
  | ctnEnd => exact safe_ctnEnd heap h

/-- **A run.** -/
theorem run_ne_overflow {fuel : Nat} (h : Room label w) :
    run double heap fuel label w ≠ some .overflow := by
  induction fuel generalizing label w with
  | zero => exact fun h => by cases h
  | succ fuel ih =>
      have hsafe := safe_step double heap h
      rw [run]
      cases hstep : step double heap label w with
      | goto label' w' =>
          rw [hstep] at hsafe
          exact ih hsafe
      | docEnd text => exact fun h => by cases h
      | fail => exact fun h => by cases h
      | overflow =>
          rw [hstep] at hsafe
          exact hsafe.elim

theorem room_begin (root : Addr) (kind : Json.Kind) (len : Nat) (tail : Addr) (est : Nat) :
    Room .valBegin (begin heap root kind len tail est) := by
  refine ⟨?_, ?_, Nat.one_pos⟩
  · simp only [begin, sizeAlignUp, slack, List.length_cons, List.length_nil]
    omega
  · simp only [begin, sizeAlignUp]
    omega

end

end Writer

/-- **The buffer is never left**, whatever the values point to. -/
theorem yyjsonMutWrite_ne_overflow (double : DoubleWriter F) (heap : Heap F) (fuel : Nat)
    (root : Addr) (estimatedValNum : Nat) :
    yyjsonMutWrite double heap fuel root estimatedValNum ≠ some .overflow := by
  unfold yyjsonMutWrite
  split
  · exact Writer.run_ne_overflow double heap (Writer.room_begin heap root _ _ _ _)
  · unfold writeSingle
    split
    · split <;> exact fun h => by cases h
    · split <;> exact fun h => by cases h
    · exact fun h => by cases h
    · exact fun h => by cases h
    · exact fun h => by cases h
    · exact fun h => by cases h

end ServerBase.Yyjson
