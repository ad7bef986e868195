import Mathlib.Algebra.Order.Field.Rat
import Mathlib.Data.Nat.Digits.Lemmas
import PinballBoard.Json.Writer

/-!
# What a number of a JSON text says

`Numeral` is the grammar of number literals, written down without a reader: a minus sign or nothing,
digits that do not begin with a zero unless this is the only one, and perhaps a fraction and an
exponent. A literal keeps its digits, and `Literal.value` is what they are worth, exactly.

A literal has no end mark. It ends where the text cannot go on as a literal, so the scanner reads
one back (`Numeral.scan`) if what follows does not look like more of it (`Stops`).

Every natural number has one literal without sign, fraction and exponent (`Literal.ofNat`). The
reader of natural numbers takes these and no others, and never takes one for another number
(`value_of_natural?`).
-/

namespace PinballBoard.Json

open Decimal

/-! ## The grammar -/

/-- One or more decimal digits. -/
def IsDigits (ds : List Nat) : Prop := ds ≠ [] ∧ ∀ d ∈ ds, d < 10

/-- Decimal digits, written. -/
def spellDigits (ds : List Nat) : List Char := ds.map Nat.digitChar

/-- The fraction of a literal. -/
inductive FractionText : List Nat → List Char → Prop where
  | absent : FractionText [] []
  | present {ds : List Nat} (hds : IsDigits ds) : FractionText ds ('.' :: spellDigits ds)

/-- The exponent of a literal. -/
inductive ExponentText : Option (Bool × List Nat) → List Char → Prop where
  | absent : ExponentText none []
  | present {e : Char} {sign : List Char} {negative : Bool} {ds : List Nat} (he : e = 'e' ∨ e = 'E')
      (hsign : (sign, negative) ∈ [([], false), (['+'], false), (['-'], true)])
      (hds : IsDigits ds) : ExponentText (some (negative, ds)) (e :: (sign ++ spellDigits ds))

/-- A literal, written. -/
inductive Numeral : Literal → List Char → Prop where
  | intro {negative : Bool} {whole fraction : List Nat} {exponent : Option (Bool × List Nat)}
      {cs ds : List Char} (hwhole : IsDigits whole) (hzero : whole.head? = some 0 → whole = [0])
      (hfraction : FractionText fraction cs) (hexponent : ExponentText exponent ds) :
      Numeral ⟨negative, whole, fraction, exponent⟩
        ((if negative then ['-'] else []) ++ (spellDigits whole ++ (cs ++ ds)))

/-- What follows cannot belong to a literal. -/
def Stops (rest : List Char) : Prop :=
  ∀ c ∈ rest.head?, Text.digit? c = none ∧ c ≠ '.' ∧ c ≠ 'e' ∧ c ≠ 'E'

/-! ## The scanner -/

variable {ds : List Nat} {cs rest : List Char}

theorem digit?_digitChar {d : Nat} (h : d < 10) : Text.digit? d.digitChar = some d := by
  have hall : ∀ d < 10, Text.digit? d.digitChar = some d := by decide
  exact hall d h

theorem takeDigits_append (hds : ∀ d ∈ ds, d < 10)
    (hrest : ∀ c ∈ rest.head?, Text.digit? c = none) :
    takeDigits (spellDigits ds ++ rest) = (ds, rest) := by
  induction ds with
  | nil =>
    cases rest with
    | nil => rfl
    | cons c rest =>
      change takeDigits (c :: rest) = ([], c :: rest)
      rw [takeDigits, hrest c rfl]
  | cons d ds ih =>
    obtain ⟨hd, hds⟩ := List.forall_mem_cons.mp hds
    change takeDigits (d.digitChar :: (spellDigits ds ++ rest)) = (d :: ds, rest)
    rw [takeDigits, digit?_digitChar hd, ih hds]

theorem someDigits?_append (hds : IsDigits ds)
    (hrest : ∀ c ∈ rest.head?, Text.digit? c = none) :
    someDigits? (spellDigits ds ++ rest) = some (ds, rest) := by
  obtain ⟨d, ds, rfl⟩ := List.exists_cons_of_ne_nil hds.1
  rw [someDigits?, takeDigits_append hds.2 hrest]

private theorem scanWhole_append (hds : IsDigits ds) (hzero : ds.head? = some 0 → ds = [0])
    (hrest : ∀ c ∈ rest.head?, Text.digit? c = none) :
    scanWhole (spellDigits ds ++ rest) = some (ds, rest) := by
  obtain ⟨d, ds, rfl⟩ := List.exists_cons_of_ne_nil hds.1
  by_cases hd : d = 0
  · subst hd
    rw [hzero rfl]
    rfl
  · rw [scanWhole]
    · exact someDigits?_append hds hrest
    · rintro rest' heq
      have hchar : d.digitChar = '0' := (List.cons.inj heq).1
      exact hd (Nat.digitChar_eq_zero.mp hchar)

private theorem ExponentText.head_append {exponent : Option (Bool × List Nat)}
    (h : ExponentText exponent cs) (hrest : Stops rest) :
    ∀ c ∈ (cs ++ rest).head?, Text.digit? c = none ∧ c ≠ '.' := by
  cases h with
  | absent => exact fun c hc ↦ ⟨(hrest c hc).1, (hrest c hc).2.1⟩
  | present he =>
    rintro c ⟨⟩
    rcases he with rfl | rfl <;> decide

private theorem FractionText.head_append {fraction : List Nat} (h : FractionText fraction cs)
    (hrest : ∀ c ∈ rest.head?, Text.digit? c = none) :
    ∀ c ∈ (cs ++ rest).head?, Text.digit? c = none := by
  cases h with
  | absent => exact hrest
  | present =>
    rintro c ⟨⟩
    rfl

private theorem FractionText.scan {fraction : List Nat} (h : FractionText fraction cs)
    (hrest : ∀ c ∈ rest.head?, Text.digit? c = none ∧ c ≠ '.') :
    scanFraction (cs ++ rest) = some (fraction, rest) := by
  cases h with
  | absent =>
    rw [List.nil_append, scanFraction]
    rintro rest' rfl
    exact (hrest '.' rfl).2 rfl
  | present hds =>
    rw [List.cons_append, scanFraction]
    exact someDigits?_append hds fun c hc ↦ (hrest c hc).1

private theorem scanSign_append {sign : List Char} {negative : Bool} (rest : List Char)
    (hds : IsDigits ds)
    (hsign : (sign, negative) ∈ [([], false), (['+'], false), (['-'], true)]) :
    scanSign (sign ++ spellDigits ds ++ rest) = (negative, spellDigits ds ++ rest) := by
  simp only [List.mem_cons, Prod.mk.injEq, List.not_mem_nil, or_false] at hsign
  rcases hsign with ⟨rfl, rfl⟩ | ⟨rfl, rfl⟩ | ⟨rfl, rfl⟩
  · -- a digit is no sign
    obtain ⟨d, ds, rfl⟩ := List.exists_cons_of_ne_nil hds.1
    have hd : d < 10 := hds.2 d List.mem_cons_self
    rw [List.nil_append, scanSign]
    all_goals
      rintro rest' heq
      have hchar := digit?_digitChar hd
      rw [(List.cons.inj heq).1] at hchar
      cases hchar
  · rfl
  · rfl

private theorem ExponentText.scan {exponent : Option (Bool × List Nat)}
    (h : ExponentText exponent cs) (hrest : Stops rest) :
    scanExponent (cs ++ rest) = some (exponent, rest) := by
  cases h with
  | absent =>
    rw [List.nil_append, scanExponent]
    · rintro rest' rfl
      exact (hrest 'e' rfl).2.2.1 rfl
    · rintro rest' rfl
      exact (hrest 'E' rfl).2.2.2 rfl
  | @present e sign negative ds he hsign hds =>
    have hdigits := someDigits?_append hds fun c hc ↦ (hrest c hc).1
    have hscan := scanSign_append rest hds hsign
    rcases he with rfl | rfl <;>
      rw [List.cons_append, scanExponent, hscan, hdigits, Option.map_some]

/-- **The scanner reads a literal back.** -/
theorem Numeral.scan {l : Literal} (h : Numeral l cs) (hrest : Stops rest) :
    scanNumber (cs ++ rest) = some (l, rest) := by
  obtain @⟨negative, whole, fraction, exponent, cs, ds, hwhole, hzero, hfraction, hexponent⟩ := h
  have hafter := hexponent.head_append hrest
  have hdigits := hfraction.head_append fun c hc ↦ (hafter c hc).1
  have hscanWhole := scanWhole_append hwhole hzero hdigits
  have hscanFraction := hfraction.scan hafter
  have hscanExponent := hexponent.scan hrest
  cases negative with
  | true => simp [scanNumber, hscanWhole, hscanFraction, hscanExponent]
  | false =>
    -- the first digit is no sign
    obtain ⟨d, whole, rfl⟩ := List.exists_cons_of_ne_nil hwhole.1
    have hd : d < 10 := hwhole.2 d List.mem_cons_self
    have hminus : d.digitChar ≠ '-' := by
      intro heq
      have hchar := digit?_digitChar hd
      rw [heq] at hchar
      cases hchar
    rw [spellDigits, List.map_cons, List.cons_append] at hscanWhole
    simp [scanNumber, spellDigits, hminus, hscanWhole, hscanFraction, hscanExponent]

end PinballBoard.Json

namespace PinballBoard.Decimal

/-! ## Values -/

namespace Literal

/-- What a literal is worth. -/
def value (l : Literal) : ℚ :=
  (if l.negative then -1 else 1) *
    ((Nat.ofDigits 10 l.whole.reverse : ℕ) +
      (Nat.ofDigits 10 l.fraction.reverse : ℕ) / 10 ^ l.fraction.length) *
    10 ^ (match l.exponent with
      | none => (0 : ℤ)
      | some (false, ds) => (Nat.ofDigits 10 ds.reverse : ℕ)
      | some (true, ds) => -(Nat.ofDigits 10 ds.reverse : ℕ))

/-- The digits of a natural number, the first one in front. -/
def digitsOf (n : Nat) : List Nat := if n = 0 then [0] else (Nat.digits 10 n).reverse

/-- The literal of a natural number. -/
def ofNat (n : Nat) : Literal := ⟨false, digitsOf n, [], none⟩

end Literal

theorem valueOf_eq (ds : List Nat) : valueOf ds = Nat.ofDigits 10 ds.reverse := by
  rw [valueOf, Nat.ofDigits_eq_foldr, List.foldr_reverse]
  congr 1
  funext acc d
  simp [Nat.add_comm]

namespace Literal

variable {l : Literal} {n : Nat}

theorem digitsOf_of_lt (h : n < 10) : digitsOf n = [n] := by
  unfold digitsOf
  split
  · rw [‹n = 0›]
  · rw [Nat.digits_of_lt 10 n ‹_› h, List.reverse_singleton]

theorem digitsOf_of_ge (h : 10 ≤ n) : digitsOf n = digitsOf (n / 10) ++ [n % 10] := by
  rw [digitsOf, if_neg (by omega), Nat.digits_def' (by decide) (by omega), List.reverse_cons,
    digitsOf, if_neg (by omega)]

theorem spellDigits_digitsOf (n : Nat) : Json.spellDigits (digitsOf n) = Nat.toDigits 10 n := by
  induction n using Nat.strongRecOn with
  | ind n ih =>
    by_cases h : n < 10
    · rw [digitsOf_of_lt h, Nat.toDigits_of_lt_base h]
      rfl
    · have hge : 10 ≤ n := Nat.le_of_not_lt h
      rw [digitsOf_of_ge hge, Nat.toDigits_of_base_le (by decide) hge, ← ih (n / 10) (by omega)]
      simp [Json.spellDigits]

theorem valueOf_digitsOf (n : Nat) : valueOf (digitsOf n) = n := by
  rw [valueOf_eq, digitsOf]
  split
  · rw [‹n = 0›]
    rfl
  · rw [List.reverse_reverse, Nat.ofDigits_digits]

@[simp]
theorem natural?_ofNat (n : Nat) : (ofNat n).natural? = some n := by
  simp [natural?, isPlain, ofNat, valueOf_digitsOf]

/-- **No literal is read as a number that it is not worth.** -/
theorem value_of_natural? (h : l.natural? = some n) : l.value = n := by
  obtain ⟨negative, whole, fraction, exponent⟩ := l
  simp only [natural?, isPlain, Bool.and_eq_true, List.isEmpty_iff, Option.isNone_iff_eq_none,
    Bool.not_eq_true', Option.ite_none_right_eq_some, Option.some.injEq] at h
  obtain ⟨⟨⟨rfl, rfl⟩, rfl⟩, rfl⟩ := h
  simp [value, valueOf_eq]

end Literal

end PinballBoard.Decimal

namespace PinballBoard.Json

open Decimal

theorem numeral_writeNat (n : Nat) : Numeral (.ofNat n) (writeNat n) := by
  have hdigits : IsDigits (Literal.digitsOf n) := by
    unfold Literal.digitsOf
    split
    · exact ⟨by simp, by simp⟩
    · exact ⟨by simpa using Nat.digits_ne_nil_iff_ne_zero.mpr ‹_›,
        fun d hd ↦ Nat.digits_lt_base (by decide) (List.mem_reverse.mp hd)⟩
  have hzero : (Literal.digitsOf n).head? = some 0 → Literal.digitsOf n = [0] := by
    unfold Literal.digitsOf
    split
    · exact fun _ ↦ rfl
    · rename_i hn
      intro hhead
      rw [List.head?_reverse, List.getLast?_eq_some_getLast (Nat.digits_ne_nil_iff_ne_zero.mpr hn)]
        at hhead
      exact absurd (Option.some.inj hhead) (Nat.getLast_digit_ne_zero 10 hn)
  have htext : writeNat n = spellDigits (Literal.digitsOf n) := by
    rw [Literal.spellDigits_digitsOf]
    exact Nat.toList_repr
  rw [htext, Literal.ofNat]
  have h : Numeral ⟨false, Literal.digitsOf n, [], none⟩ _ := .intro hdigits hzero .absent .absent
  simpa using h

end PinballBoard.Json
