import Mathlib.Tactic.SplitIfs
import PinballBoard.Json.Writer

/-!
# What a string of a JSON text says

A string may be spelled in many ways: every character but three kinds may stand for itself, some
have an escape by letter, and all can be given by the numbers of their UTF-16 code units. `Quoted`
is the grammar of what stands between the quotes, written down without a reader. What it says is a
sequence of code units, for an escape by number gives a unit and not a character; the string holds a
text if the units are those of a text, and else it holds none.

The reader does not work on units. It makes pieces of the string, a character or half of a surrogate
pair each, and joins the halves afterwards. Both sides meet in the units of the pieces
(`Piece.units`): the scanner keeps them (`Quoted.scan`), and joining succeeds just if they are those
of a text (`joinPieces_eq_some_iff`), which is then the text that comes out.

`quoted_flatMap_writeChar` says that the writer keeps to the grammar.
-/

namespace PinballBoard.Json

/-! ## Code units -/

/-- The UTF-16 code units of a character. -/
def utf16Char (c : Char) : List Nat :=
  if c.toNat < 0x10000 then [c.toNat]
  else [0xd800 + (c.toNat - 0x10000) / 0x400, 0xdc00 + (c.toNat - 0x10000) % 0x400]

/-- The UTF-16 code units of a text. -/
def utf16 (cs : List Char) : List Nat := cs.flatMap utf16Char

@[simp]
theorem utf16_nil : utf16 [] = [] := rfl

theorem utf16_cons (c : Char) (cs : List Char) : utf16 (c :: cs) = utf16Char c ++ utf16 cs := rfl

theorem toNat_lt_or (c : Char) : c.toNat < 0xd800 ∨ 0xe000 ≤ c.toNat ∧ c.toNat < 0x110000 := by
  rcases c.valid with h | ⟨hlow, hhigh⟩
  · exact .inl h
  · exact .inr ⟨Nat.succ_le_of_lt hlow, hhigh⟩

theorem toNat_ofNat_of_valid {n : Nat} (h : n < 0xd800 ∨ 0xe000 ≤ n ∧ n < 0x110000) :
    (Char.ofNat n).toNat = n := by
  have hvalid : n.isValidChar := h.imp_right fun ⟨hlow, hhigh⟩ ↦ ⟨hlow, hhigh⟩
  rw [Char.ofNat, dif_pos hvalid]
  rfl

/-! ## The grammar -/

/-- A hexadecimal digit in either case, and its value. -/
def IsHexDigit (c : Char) (n : Nat) : Prop :=
  n < 16 ∧ (c = n.digitChar ∨ c = n.digitChar.toUpper)

/-- The escapes by letter. -/
def letterEscapes : List (Char × Char) :=
  [('"', '"'), ('\\', '\\'), ('/', '/'), ('b', '\x08'), ('f', '\x0c'), ('n', '\n'), ('r', '\r'),
    ('t', '\t')]

/-- What may stand between the quotes of a string, and the code units that it denotes. -/
inductive Quoted : List Char → List Nat → Prop where
  | nil : Quoted [] []
  /-- A character stands for itself. -/
  | plain {c : Char} {cs : List Char} {us : List Nat} (hc : 0x20 ≤ c.toNat) (hquote : c ≠ '"')
      (hslash : c ≠ '\\') (h : Quoted cs us) : Quoted (c :: cs) (utf16Char c ++ us)
  | letter {e c : Char} {cs : List Char} {us : List Nat} (he : (e, c) ∈ letterEscapes)
      (h : Quoted cs us) : Quoted ('\\' :: e :: cs) (utf16Char c ++ us)
  | number {a b c d : Char} {i j k l : Nat} {cs : List Char} {us : List Nat}
      (ha : IsHexDigit a i) (hb : IsHexDigit b j) (hc : IsHexDigit c k) (hd : IsHexDigit d l)
      (h : Quoted cs us) :
      Quoted ('\\' :: 'u' :: a :: b :: c :: d :: cs)
        ((0x1000 * i + 0x100 * j + 0x10 * k + l) :: us)

/-! ## Pieces -/

namespace Piece

/-- The code units of a piece. -/
def units : Piece → List Nat
  | char c => utf16Char c
  | half u => [u]

/-- What is called half of a pair is one. -/
def IsProper : Piece → Prop
  | char _ => True
  | half u => 0xd800 ≤ u ∧ u < 0xe000

theorem units_ofUnit {u : Nat} (hu : u < 0x10000) : (ofUnit u).units = [u] := by
  unfold ofUnit
  split
  · rfl
  · rename_i hwhole
    have htoNat : (Char.ofNat u).toNat = u := toNat_ofNat_of_valid (by omega)
    rw [units, utf16Char, htoNat, if_pos hu]

theorem isProper_ofUnit (u : Nat) : (ofUnit u).IsProper := by
  unfold ofUnit
  split
  · assumption
  · trivial

end Piece

/-- A character begins with a unit that no other character begins with in the same way. -/
private theorem utf16Char_append_inj {c d : Char} {us vs : List Nat}
    (h : utf16Char c ++ us = utf16Char d ++ vs) : c = d ∧ us = vs := by
  have hc := toNat_lt_or c
  have hd := toNat_lt_or d
  have hnat : c.toNat = d.toNat ∧ us = vs := by
    unfold utf16Char at h
    split at h <;> split at h <;>
      simp only [List.cons_append, List.nil_append, List.cons.injEq] at h
    · exact ⟨h.1, h.2⟩
    · omega
    · omega
    · exact ⟨by omega, h.2.2⟩
  exact ⟨Char.toNat_inj.mp hnat.1, hnat.2⟩

/-- A half that begins the units of a text is the first one of a pair. -/
private theorem cons_eq_utf16 {u : Nat} {us : List Nat} {cs : List Char}
    (hu : 0xd800 ≤ u ∧ u < 0xe000) (h : u :: us = utf16 cs) :
    ∃ v c rest, us = v :: utf16 rest ∧ cs = c :: rest ∧ u < 0xdc00 ∧ 0xdc00 ≤ v ∧ v < 0xe000 ∧
      c.toNat = 0x10000 + (u - 0xd800) * 0x400 + (v - 0xdc00) := by
  cases cs with
  | nil => cases h
  | cons c rest =>
    have hc := toNat_lt_or c
    rw [utf16_cons, utf16Char] at h
    split at h
    · simp only [List.cons_append, List.cons.injEq] at h
      omega
    · simp only [List.cons_append, List.nil_append, List.cons.injEq] at h
      obtain ⟨hhigh, hus⟩ := h
      exact ⟨_, c, rest, hus, rfl, by omega, by omega, by omega, by omega⟩

private theorem utf16Char_pair {u v : Nat} (hu : 0xd800 ≤ u ∧ u < 0xdc00)
    (hv : 0xdc00 ≤ v ∧ v < 0xe000) :
    utf16Char (Char.ofNat (0x10000 + (u - 0xd800) * 0x400 + (v - 0xdc00))) = [u, v] := by
  have htoNat : (Char.ofNat (0x10000 + (u - 0xd800) * 0x400 + (v - 0xdc00))).toNat =
      0x10000 + (u - 0xd800) * 0x400 + (v - 0xdc00) := toNat_ofNat_of_valid (by omega)
  rw [utf16Char, htoNat, if_neg (by omega)]
  simp only [List.cons.injEq, and_true]
  omega

/-- **Pieces make a text just if their units are those of the text.** -/
theorem joinPieces_eq_some_iff {ps : List Piece} (hproper : ∀ p ∈ ps, p.IsProper)
    {cs : List Char} : joinPieces ps = some cs ↔ ps.flatMap Piece.units = utf16 cs := by
  fun_induction joinPieces ps generalizing cs with
  | case1 =>
    cases cs with
    | nil => simp
    | cons c cs =>
      refine iff_of_false nofun fun h ↦ ?_
      rw [utf16_cons, utf16Char] at h
      split at h <;> cases h
  | case2 c ps ih =>
    have ih := @ih fun p hp ↦ hproper p (List.mem_cons_of_mem _ hp)
    rw [Option.map_eq_some_iff, List.flatMap_cons, Piece.units]
    constructor
    · rintro ⟨rest, hrest, rfl⟩
      rw [ih.mp hrest, utf16_cons]
    · intro h
      cases cs with
      | nil =>
        rw [utf16Char] at h
        split at h <;> cases h
      | cons d rest =>
        obtain ⟨rfl, hrest⟩ := utf16Char_append_inj h
        exact ⟨rest, ih.mpr hrest, rfl⟩
  | case3 a b ps hpair ih =>
    have hb := hproper (.half b) (by simp)
    have ha := hproper (.half a) (by simp)
    have ih := @ih fun p hp ↦ hproper p (List.mem_cons_of_mem _ (List.mem_cons_of_mem _ hp))
    rw [Option.map_eq_some_iff, List.flatMap_cons, List.flatMap_cons, Piece.units, Piece.units]
    constructor
    · rintro ⟨rest, hrest, rfl⟩
      rw [ih.mp hrest, utf16_cons, utf16Char_pair ⟨ha.1, hpair.1⟩ ⟨hpair.2, hb.2⟩]
      rfl
    · intro h
      obtain ⟨v, c, rest, hus, rfl, -, -, -, hc⟩ := cons_eq_utf16 ha h
      obtain ⟨rfl, hrest⟩ := List.cons.inj hus
      exact ⟨rest, ih.mpr hrest, by rw [← hc, Char.ofNat_toNat]⟩
  | case4 a b ps hpair =>
    have ha := hproper (.half a) (by simp)
    refine iff_of_false nofun fun h ↦ hpair ?_
    obtain ⟨v, c, rest, hus, -, hlow, hhigh, -⟩ := cons_eq_utf16 ha h
    obtain ⟨rfl, -⟩ := List.cons.inj hus
    exact ⟨hlow, hhigh⟩
  | case5 a ps hsingle =>
    have ha := hproper (.half a) (by simp)
    refine iff_of_false nofun fun h ↦ ?_
    obtain ⟨v, c, rest, hus, -, -, hlow, hhigh, -⟩ := cons_eq_utf16 ha h
    cases ps with
    | nil => cases hus
    | cons p ps =>
      cases p with
      | half b => exact hsingle b ps rfl
      | char d =>
        have hd := toNat_lt_or d
        change utf16Char d ++ ps.flatMap Piece.units = v :: utf16 rest at hus
        unfold utf16Char at hus
        split at hus <;> simp only [List.cons_append, List.cons.injEq] at hus <;> omega

/-! ## The scanner -/

theorem hexDigit?_of_isHexDigit {c : Char} {n : Nat} (h : IsHexDigit c n) :
    hexDigit? c = some n := by
  obtain ⟨hn, hc⟩ := h
  have hall : ∀ n < 16, hexDigit? n.digitChar = some n ∧
      hexDigit? n.digitChar.toUpper = some n := by decide
  rcases hc with rfl | rfl
  · exact (hall n hn).1
  · exact (hall n hn).2

theorem hexUnit?_of_isHexDigit {a b c d : Char} {i j k l : Nat} (ha : IsHexDigit a i)
    (hb : IsHexDigit b j) (hc : IsHexDigit c k) (hd : IsHexDigit d l) :
    hexUnit? a b c d = some (0x1000 * i + 0x100 * j + 0x10 * k + l) := by
  simp only [hexUnit?, hexDigit?_of_isHexDigit ha, hexDigit?_of_isHexDigit hb,
    hexDigit?_of_isHexDigit hc, hexDigit?_of_isHexDigit hd, Option.pure_def, Option.bind_eq_bind,
    Option.bind_some, Option.some.injEq]
  omega

private theorem escape?_of_mem {e c : Char} (h : (e, c) ∈ letterEscapes) :
    escape? e = some c ∧ e ≠ 'u' := by
  revert h
  simp only [letterEscapes, List.mem_cons, Prod.mk.injEq, List.not_mem_nil, or_false]
  rintro (⟨rfl, rfl⟩ | ⟨rfl, rfl⟩ | ⟨rfl, rfl⟩ | ⟨rfl, rfl⟩ | ⟨rfl, rfl⟩ | ⟨rfl, rfl⟩ |
    ⟨rfl, rfl⟩ | ⟨rfl, rfl⟩) <;> decide

/-- **The scanner finds the end of a string, and loses no unit on the way.** -/
theorem Quoted.scan {cs : List Char} {us : List Nat} (h : Quoted cs us) :
    ∃ ps : List Piece, ps.flatMap Piece.units = us ∧ (∀ p ∈ ps, p.IsProper) ∧
      ∀ rest, scanString (cs ++ '"' :: rest) = some (ps, rest) := by
  induction h with
  | nil => exact ⟨[], rfl, nofun, fun rest ↦ by rw [List.nil_append, scanString]⟩
  | @plain c cs us hc hquote hslash _ ih =>
    obtain ⟨ps, rfl, hproper, hscan⟩ := ih
    refine ⟨.char c :: ps, rfl, List.forall_mem_cons.mpr ⟨trivial, hproper⟩, fun rest ↦ ?_⟩
    rw [List.cons_append, scanString]
    · simp [hscan, Nat.not_lt_of_le hc, hslash]
    · exact hquote
    · intro a b c' d rest' heq _
      exact hslash heq
    · intro e rest' heq _
      exact hslash heq
  | @letter e c cs us he _ ih =>
    obtain ⟨ps, rfl, hproper, hscan⟩ := ih
    obtain ⟨hescape, hne⟩ := escape?_of_mem he
    refine ⟨.char c :: ps, rfl, List.forall_mem_cons.mpr ⟨trivial, hproper⟩, fun rest ↦ ?_⟩
    rw [List.cons_append, List.cons_append, scanString]
    · rw [hescape, Option.bind_some, hscan]
      rfl
    · intro a b c' d rest' heq _
      exact hne heq
  | @number a b c d i j k l cs us ha hb hc hd _ ih =>
    obtain ⟨ps, rfl, hproper, hscan⟩ := ih
    have hlt : 0x1000 * i + 0x100 * j + 0x10 * k + l < 0x10000 := by
      have hi : i < 16 := ha.1
      have hj : j < 16 := hb.1
      have hk : k < 16 := hc.1
      have hl : l < 16 := hd.1
      omega
    refine ⟨Piece.ofUnit (0x1000 * i + 0x100 * j + 0x10 * k + l) :: ps, ?_,
      List.forall_mem_cons.mpr ⟨Piece.isProper_ofUnit _, hproper⟩, fun rest ↦ ?_⟩
    · rw [List.flatMap_cons, Piece.units_ofUnit hlt]
      rfl
    · simp only [List.cons_append]
      rw [scanString, hexUnit?_of_isHexDigit ha hb hc hd, Option.bind_some, hscan]
      rfl

/-! ## The writer -/

theorem Quoted.append {cs ds : List Char} {us vs : List Nat} (h : Quoted cs us)
    (h' : Quoted ds vs) : Quoted (cs ++ ds) (us ++ vs) := by
  induction h with
  | nil => exact h'
  | plain hc hquote hslash _ ih =>
    rw [List.append_assoc]
    exact .plain hc hquote hslash ih
  | letter he _ ih =>
    rw [List.append_assoc]
    exact .letter he ih
  | number ha hb hc hd _ ih => exact .number ha hb hc hd ih

private theorem isHexDigit_digitChar {n : Nat} (h : n < 16) : IsHexDigit n.digitChar n :=
  ⟨h, .inl rfl⟩

private theorem utf16Char_of_control {c : Char} (h : c.toNat < 0x20) : utf16Char c = [c.toNat] :=
  if_pos (by omega)

theorem quoted_writeChar (c : Char) : Quoted (writeChar c) (utf16Char c) := by
  have hletter : ∀ {e : Char}, (e, c) ∈ letterEscapes → Quoted ['\\', e] (utf16Char c) := by
    intro e he
    simpa using Quoted.letter he .nil
  -- the escapes by letter come first, and what is left below the space is given by number
  unfold writeChar
  split_ifs with hquote hslash hback htab hline hform hreturn hlow hcontrol
  · exact hletter (by simp [letterEscapes, hquote])
  · exact hletter (by simp [letterEscapes, hslash])
  · exact hletter (by simp [letterEscapes, hback])
  · exact hletter (by simp [letterEscapes, htab])
  · exact hletter (by simp [letterEscapes, hline])
  · exact hletter (by simp [letterEscapes, hform])
  · exact hletter (by simp [letterEscapes, hreturn])
  · have hzero : IsHexDigit '0' 0 := isHexDigit_digitChar (by decide)
    have hlast := isHexDigit_digitChar hlow
    rw [Text.hex, Nat.toDigits_of_lt_base hlow, utf16Char_of_control (by omega)]
    simpa using Quoted.number hzero hzero hzero hlast .nil
  · have hzero : IsHexDigit '0' 0 := isHexDigit_digitChar (by decide)
    have htens := isHexDigit_digitChar (show c.toNat / 16 < 16 by omega)
    have hunits := isHexDigit_digitChar (show c.toNat % 16 < 16 by omega)
    have hvalue : 0x10 * (c.toNat / 16) + c.toNat % 16 = c.toNat := Nat.div_add_mod _ _
    rw [Text.hex, Nat.toDigits_of_base_le (by decide) (by omega),
      Nat.toDigits_of_lt_base (show c.toNat / 16 < 16 by omega), utf16Char_of_control hcontrol]
    simpa [hvalue] using Quoted.number hzero hzero htens hunits .nil
  · simpa using Quoted.plain (by omega) hquote hslash .nil

/-- **The writer keeps to the grammar.** -/
theorem quoted_flatMap_writeChar (cs : List Char) : Quoted (cs.flatMap writeChar) (utf16 cs) := by
  induction cs with
  | nil => exact .nil
  | cons c cs ih => exact (quoted_writeChar c).append ih

end PinballBoard.Json
