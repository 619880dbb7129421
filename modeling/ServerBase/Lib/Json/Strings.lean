import ServerBase.Lib.Json.Spelling
import ServerBase.Lib.Json.Utf8

/-!
# The inside of a JSON string

**Unique reading** (`CharText.unique`). Of the ways to write characters none is the beginning of
another one.

**Reading** (`Continues`). What remains to be read of a string. A reader that takes one character
away (`continues_char`) never changes what is accepted.
-/

namespace Json

/-! ## UTF-8 -/

theorem utf8_cons (c : Char) (cs : List Char) :
    utf8 (c :: cs) = String.utf8EncodeChar c ++ utf8 cs :=
  List.flatMap_cons

/-- No encoding is the beginning of another one. -/
theorem encode_unique {c d : Char} {x y : List UInt8}
    (h : String.utf8EncodeChar c ++ x = String.utf8EncodeChar d ++ y) : c = d ∧ x = y := by
  have hdecode : ∀ (e : Char) (z : List UInt8),
      ByteArray.utf8DecodeChar? (String.utf8EncodeChar e ++ z).toByteArray 0 = some e := by
    intro e z
    rw [List.toByteArray_append]
    exact ByteArray.utf8DecodeChar?_utf8EncodeChar_append
  have hc := hdecode c x
  rw [h, hdecode d y] at hc
  obtain rfl := Option.some.inj hc
  exact ⟨rfl, List.append_cancel_left h⟩

/-- The first byte of a character that is no ASCII character. -/
theorem encode_head (c : Char) :
    ∃ b t, String.utf8EncodeChar c = b :: t ∧
      (b.toNat < 0x80 → b.toNat = c.toNat ∧ t = []) := by
  rcases Utf8.encode_length c with ⟨h, -⟩ | ⟨h, h', -⟩ | ⟨h, h', -⟩ | ⟨h, -⟩
  · refine ⟨_, _, Utf8.encode_one h, fun _ => ⟨?_, rfl⟩⟩
    exact Utf8.toNat_ofNat (by omega)
  · refine ⟨_, _, Utf8.encode_two h h', fun hb => ?_⟩
    rw [Utf8.toNat_ofNat (by omega)] at hb
    omega
  · refine ⟨_, _, Utf8.encode_three h h', fun hb => ?_⟩
    rw [Utf8.toNat_ofNat (by omega)] at hb
    omega
  · refine ⟨_, _, Utf8.encode_four h, fun hb => ?_⟩
    rw [Utf8.toNat_ofNat (by omega)] at hb
    omega

/-- A character whose encoding begins with an ASCII byte is that byte. -/
theorem encode_eq_of_head {c : Char} {b : UInt8} {t : List UInt8} (hb : b.toNat < 0x80)
    (h : String.utf8EncodeChar c = b :: t) : c.toNat = b.toNat := by
  obtain ⟨b', t', heq, hhead⟩ := encode_head c
  obtain ⟨rfl, rfl⟩ := List.cons.inj (h.symm.trans heq)
  exact (hhead hb).1.symm

/-! ## Characters -/

theorem hex4_length {h : List UInt8} {n : Nat} (hh : hex4 h = some n) : h.length = 4 := by
  unfold hex4 at hh
  split at hh
  · rfl
  · cases hh

/-- No character is escaped with the letter `u`. -/
theorem escapes_u : escapes 0x75 = none := by decide

/-- A character is written with a plain byte, or with a backslash and a letter. -/
theorem CharText.head {c : Char} {x : List UInt8} (h : CharText c x) :
    (0x20 ≤ c.toNat ∧ c ≠ '"' ∧ c ≠ '\\' ∧ x = String.utf8EncodeChar c) ∨
      ∃ e t, x = 0x5C :: e :: t := by
  cases h with
  | plain hc hquote hback => exact .inl ⟨hc, hquote, hback, rfl⟩
  | escape => exact .inr ⟨_, _, rfl⟩
  | unicode => exact .inr ⟨_, _, rfl⟩
  | pair => exact .inr ⟨_, _, rfl⟩

/-- A plain character does not begin with a given ASCII byte. -/
theorem plain_head_ne {c : Char} {b : UInt8} {t : List UInt8} (d : Char) (hd : d.toNat < 0x80)
    (hne : c ≠ d) (h : String.utf8EncodeChar c = b :: t) : b.toNat ≠ d.toNat := by
  intro hb
  have hcode := encode_eq_of_head (hb ▸ hd) h
  exact hne (Char.toNat_inj.1 (hcode.trans hb))

theorem CharText.ne_nil {c : Char} {x : List UInt8} (h : CharText c x) : x ≠ [] := by
  rcases h.head with ⟨-, -, -, rfl⟩ | ⟨e, t, rfl⟩
  · exact String.utf8EncodeChar_ne_nil
  · exact List.cons_ne_nil _ _

/-- A character never begins with the quote. -/
theorem CharText.ne_quote {c : Char} {x : List UInt8} (h : CharText c x) {b : UInt8}
    {t : List UInt8} (hx : x = b :: t) : b ≠ 0x22 := by
  rcases h.head with ⟨-, hquote, -, rfl⟩ | ⟨e, t', rfl⟩
  · rintro rfl
    exact plain_head_ne '"' (by decide) hquote hx rfl
  · obtain ⟨rfl, -⟩ := List.cons.inj hx
    decide

/-- A plain character does not begin with a backslash. -/
theorem plain_ne_backslash {c : Char} {t r : List UInt8} (hback : c ≠ '\\') :
    String.utf8EncodeChar c ++ r ≠ 0x5C :: t := by
  intro h
  obtain ⟨b, t', heq, -⟩ := encode_head c
  rw [heq, List.cons_append] at h
  obtain ⟨rfl, -⟩ := List.cons.inj h
  exact plain_head_ne '\\' (by decide) hback heq rfl

/-- What is written with a backslash. -/
inductive Escaped : Char → List UInt8 → Prop
  | letter {c : Char} {e : UInt8} (h : escapes e = some c) : Escaped c [e]
  | unicode {c : Char} {h : List UInt8} (hh : hex4 h = some c.toNat) : Escaped c (0x75 :: h)
  | pair {c : Char} {h l : List UInt8} {hi lo : Nat} (hh : hex4 h = some hi) (hl : hex4 l = some lo)
      (hhi : 0xD800 ≤ hi ∧ hi < 0xDC00) (hlo : 0xDC00 ≤ lo ∧ lo < 0xE000)
      (hc : c.toNat = 0x10000 + (hi - 0xD800) * 0x400 + (lo - 0xDC00)) :
      Escaped c (0x75 :: (h ++ 0x5C :: 0x75 :: l))

theorem charText_iff {c : Char} {x : List UInt8} :
    CharText c x ↔
      (0x20 ≤ c.toNat ∧ c ≠ '"' ∧ c ≠ '\\' ∧ x = String.utf8EncodeChar c) ∨
        ∃ e, x = 0x5C :: e ∧ Escaped c e := by
  constructor
  · intro h
    cases h with
    | plain hc hquote hback => exact .inl ⟨hc, hquote, hback, rfl⟩
    | escape h => exact .inr ⟨_, rfl, .letter h⟩
    | unicode hh => exact .inr ⟨_, rfl, .unicode hh⟩
    | pair hh hl hhi hlo hc => exact .inr ⟨_, rfl, .pair hh hl hhi hlo hc⟩
  · rintro (⟨hc, hquote, hback, rfl⟩ | ⟨e, rfl, he⟩)
    · exact .plain hc hquote hback
    · cases he with
      | letter h => exact .escape h
      | unicode hh => exact .unicode hh
      | pair hh hl hhi hlo hc => exact .pair hh hl hhi hlo hc

/-- Four digits in front are the same four digits. -/
theorem hex4_unique {g h x y : List UInt8} {m n : Nat} (hg : hex4 g = some m)
    (hh : hex4 h = some n) (heq : g ++ x = h ++ y) : g = h ∧ m = n ∧ x = y := by
  obtain ⟨rfl, rfl⟩ := List.append_inj heq ((hex4_length hg).trans (hex4_length hh).symm)
  rw [hg] at hh
  exact ⟨rfl, Option.some.inj hh, rfl⟩

theorem Escaped.unique {c d : Char} {x y r s : List UInt8} (hc : Escaped c x) (hd : Escaped d y)
    (h : x ++ r = y ++ s) : c = d ∧ x = y := by
  have hnot_surrogate : ∀ (e : Char) {hi : Nat}, 0xD800 ≤ hi ∧ hi < 0xDC00 → e.toNat ≠ hi := by
    intro e hi hrange heq
    have hcode := Utf8.code_range e
    omega
  cases hc with
  | letter he =>
      cases hd with
      | letter he' =>
          obtain ⟨rfl, -⟩ := List.cons.inj h
          rw [he] at he'
          exact ⟨Option.some.inj he', rfl⟩
      | unicode =>
          obtain ⟨rfl, -⟩ := List.cons.inj h
          rw [escapes_u] at he
          cases he
      | pair =>
          obtain ⟨rfl, -⟩ := List.cons.inj h
          rw [escapes_u] at he
          cases he
  | @unicode g hh =>
      cases hd with
      | letter he' =>
          obtain ⟨rfl, -⟩ := List.cons.inj h
          rw [escapes_u] at he'
          cases he'
      | unicode hh' =>
          obtain ⟨rfl, hcode, -⟩ := hex4_unique hh hh' (List.cons.inj h).2
          exact ⟨Char.toNat_inj.1 hcode, rfl⟩
      | @pair g' l' _ _ hh' _ hhi' =>
          have htail : g ++ r = (g' ++ 0x5C :: 0x75 :: l') ++ s := (List.cons.inj h).2
          rw [List.append_assoc] at htail
          obtain ⟨-, hcode, -⟩ := hex4_unique hh hh' htail
          exact absurd hcode (hnot_surrogate c hhi')
  | @pair g l _ _ hh hl hhi _ hc =>
      cases hd with
      | letter he' =>
          obtain ⟨rfl, -⟩ := List.cons.inj h
          rw [escapes_u] at he'
          cases he'
      | @unicode g' hh' =>
          have htail : (g ++ 0x5C :: 0x75 :: l) ++ r = g' ++ s := (List.cons.inj h).2
          rw [List.append_assoc] at htail
          obtain ⟨-, hcode, -⟩ := hex4_unique hh hh' htail
          exact absurd hcode.symm (hnot_surrogate d hhi)
      | @pair g' l' _ _ hh' hl' _ _ hc' =>
          have htail : (g ++ 0x5C :: 0x75 :: l) ++ r = (g' ++ 0x5C :: 0x75 :: l') ++ s :=
            (List.cons.inj h).2
          rw [List.append_assoc, List.append_assoc] at htail
          obtain ⟨rfl, rfl, hrest⟩ := hex4_unique hh hh' htail
          obtain ⟨rfl, rfl, -⟩ := hex4_unique hl hl' (List.cons.inj (List.cons.inj hrest).2).2
          exact ⟨Char.toNat_inj.1 (hc.trans hc'.symm), rfl⟩

/-- **Unique reading.** -/
theorem CharText.unique {c d : Char} {x y r s : List UInt8} (hc : CharText c x)
    (hd : CharText d y) (h : x ++ r = y ++ s) : c = d ∧ x = y := by
  rcases charText_iff.1 hc with ⟨-, -, hback, rfl⟩ | ⟨e, rfl, he⟩
  · rcases charText_iff.1 hd with ⟨-, -, -, rfl⟩ | ⟨e', rfl, -⟩
    · obtain ⟨rfl, -⟩ := encode_unique h
      exact ⟨rfl, rfl⟩
    · exact absurd h (plain_ne_backslash hback)
  · rcases charText_iff.1 hd with ⟨-, -, hback, rfl⟩ | ⟨e', rfl, he'⟩
    · exact absurd h.symm (plain_ne_backslash hback)
    · obtain ⟨rfl, rfl⟩ := he.unique he' (List.cons.inj h).2
      exact ⟨rfl, rfl⟩

/-! ## Reading -/

/-- Behind the bytes `dst` of the string, `src` is the rest of its text, the quote and `rest`. -/
def Continues (dst src s rest : List UInt8) : Prop :=
  ∃ cs t, CharsText cs t ∧ src = t ++ 0x22 :: rest ∧ s = dst ++ utf8 cs

theorem continues_nil_iff {src s rest : List UInt8} :
    Continues [] src s rest ↔ ∃ body, StrText s body ∧ src = body ++ 0x22 :: rest := by
  constructor
  · rintro ⟨cs, t, hcs, hsrc, hs⟩
    exact ⟨t, ⟨cs, hs.symm, hcs⟩, hsrc⟩
  · rintro ⟨t, ⟨cs, hs, hcs⟩, hsrc⟩
    exact ⟨cs, t, hcs, hsrc, hs.symm⟩

/-- At the quote the string is complete. -/
theorem continues_quote {dst src s rest : List UInt8} :
    Continues dst (0x22 :: src) s rest ↔ s = dst ∧ rest = src := by
  constructor
  · rintro ⟨cs, t, hcs, hsrc, hs⟩
    cases hcs with
    | nil =>
        rw [utf8, List.flatMap_nil, List.append_nil] at hs
        exact ⟨hs, (List.cons.inj hsrc).2.symm⟩
    | cons hc hcs =>
        obtain ⟨b, x, rfl⟩ := List.exists_cons_of_ne_nil hc.ne_nil
        exact absurd (List.cons.inj hsrc).1.symm (hc.ne_quote rfl)
  · rintro ⟨rfl, rfl⟩
    exact ⟨[], [], .nil, rfl, (List.append_nil _).symm⟩

/-- **A character can be taken away.** -/
theorem continues_char {c : Char} {x dst src s rest : List UInt8} (hc : CharText c x) :
    Continues dst (x ++ src) s rest ↔ Continues (dst ++ String.utf8EncodeChar c) src s rest := by
  constructor
  · rintro ⟨cs, t, hcs, hsrc, hs⟩
    cases hcs with
    | nil =>
        obtain ⟨b, x', rfl⟩ := List.exists_cons_of_ne_nil hc.ne_nil
        exact absurd (List.cons.inj hsrc).1 (hc.ne_quote rfl)
    | cons hd hcs =>
        rw [List.append_assoc] at hsrc
        obtain ⟨rfl, rfl⟩ := hc.unique hd hsrc
        refine ⟨_, _, hcs, List.append_cancel_left hsrc, ?_⟩
        rw [hs, utf8_cons, List.append_assoc]
  · rintro ⟨cs, t, hcs, rfl, rfl⟩
    refine ⟨c :: cs, x ++ t, .cons hc hcs, (List.append_assoc _ _ _).symm, ?_⟩
    rw [utf8_cons, List.append_assoc]

/-- Where neither the quote nor a character begins the string cannot be read. -/
theorem not_continues {dst src s rest : List UInt8} (hquote : src.head? ≠ some 0x22)
    (hchar : ∀ c x src', CharText c x → src ≠ x ++ src') : ¬ Continues dst src s rest := by
  rintro ⟨cs, t, hcs, rfl, -⟩
  cases hcs with
  | nil => exact hquote rfl
  | cons hc hcs => exact hchar _ _ _ hc (List.append_assoc _ _ _)

end Json
