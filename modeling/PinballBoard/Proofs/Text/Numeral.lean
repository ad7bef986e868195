import Mathlib.Data.List.TakeWhile
import PinballBoard.Text.Numeral

/-!
# What a typed number is

Somebody types the number of a device. `Text.Denotes` is the grammar of what he may type, written
down without a reader: white space, perhaps one plus sign, digits, white space. The value of the
digits is the value of a decimal numeral, whatever number of zeros it begins with, and has to be a
byte.

`Text.byte?_eq_some_iff` says that the reader reads this grammar and nothing else. It comes in three
layers, as the grammar does: the digits, the sign in front of them, the white space around both. The
white space can be told from what it surrounds because no digit and no sign is white, so that a text
is cut in one way only (`Text.trim_append`).
-/

namespace PinballBoard.Text

/-- A text denotes a byte: white space, at most one plus sign, at least one digit, white space, and
the digits have this value. -/
inductive Denotes (text : String) (n : UInt8) : Prop where
  | intro (before sign digits after : List Char)
      (htext : text.toList = before ++ (sign ++ digits) ++ after)
      (hbefore : ∀ c ∈ before, isBlank c = true) (hafter : ∀ c ∈ after, isBlank c = true)
      (hsign : sign = [] ∨ sign = ['+'])
      (hdigits : digits ≠ [] ∧ ∀ c ∈ digits, c.isDigit = true)
      (hvalue : n.toNat = Nat.ofDigitChars 10 digits 0)

/-! ## Digits -/

variable {s cs : List Char} {v : Nat}

theorem digit?_eq (c : Char) :
    digit? c = if c.isDigit then some (c.toNat - '0'.toNat) else none := by
  have hdigit : ('0' ≤ c ∧ c ≤ '9') ↔ c.isDigit = true := by
    rw [Char.isDigit, Bool.and_eq_true, decide_eq_true_iff, decide_eq_true_iff]
    exact Iff.rfl
  rw [digit?]
  exact if_congr hdigit rfl rfl

theorem digits?_eq_some_iff {acc : Nat} :
    digits? acc cs = some v ↔
      (∀ c ∈ cs, c.isDigit = true) ∧ v = Nat.ofDigitChars 10 cs acc := by
  induction cs generalizing acc with
  | nil => exact ⟨fun h ↦ ⟨nofun, (Option.some.inj h).symm⟩, fun h ↦ congrArg some h.2.symm⟩
  | cons c cs ih =>
    rw [digits?, digit?_eq, Nat.ofDigitChars_cons, List.forall_mem_cons]
    by_cases hc : c.isDigit = true
    · rw [if_pos hc, Option.bind_some, ih]
      simp [hc]
    · rw [if_neg hc]
      simp [hc]

theorem natural?_eq_some_iff :
    natural? cs = some v ↔
      (cs ≠ [] ∧ ∀ c ∈ cs, c.isDigit = true) ∧ v = Nat.ofDigitChars 10 cs 0 := by
  cases cs with
  | nil => simp [natural?]
  | cons c cs =>
    rw [natural?, digits?_eq_some_iff]
    · simp
    · simp

/-- A plus sign is no digit, so it can be told whether there is one. -/
theorem signedNatural?_eq_some_iff :
    signedNatural? cs = some v ↔ ∃ sign digits, cs = sign ++ digits ∧
      (sign = [] ∨ sign = ['+']) ∧ (digits ≠ [] ∧ ∀ c ∈ digits, c.isDigit = true) ∧
        v = Nat.ofDigitChars 10 digits 0 := by
  constructor
  · intro h
    unfold signedNatural? at h
    split at h
    · rename_i digits
      exact ⟨['+'], digits, rfl, .inr rfl, natural?_eq_some_iff.mp h⟩
    · exact ⟨[], cs, rfl, .inl rfl, natural?_eq_some_iff.mp h⟩
  · rintro ⟨sign, digits, rfl, rfl | rfl, hdigits, hvalue⟩
    · have hnatural := natural?_eq_some_iff.mpr ⟨hdigits, hvalue⟩
      rw [List.nil_append, signedNatural?]
      · exact hnatural
      · rintro rest rfl
        have hplus := hdigits.2 '+' List.mem_cons_self
        cases hplus
    · exact natural?_eq_some_iff.mpr ⟨hdigits, hvalue⟩

/-! ## White space -/

theorem not_isBlank_of_isDigit {c : Char} (h : c.isDigit = true) : isBlank c = false := by
  have hrange : 48 ≤ c.toNat ∧ c.toNat ≤ 57 := by
    rw [Char.isDigit, Bool.and_eq_true, decide_eq_true_iff, decide_eq_true_iff] at h
    exact h
  simp only [isBlank, Bool.or_eq_false_iff, Bool.and_eq_false_iff, decide_eq_false_iff_not,
    beq_eq_false_iff_ne]
  omega

theorem dropWhile_isBlank_append {before mid : List Char} (hbefore : ∀ c ∈ before, isBlank c = true)
    (hne : mid ≠ []) (hmid : ∀ c ∈ mid, isBlank c = false) (after : List Char) :
    (before ++ (mid ++ after)).dropWhile isBlank = mid ++ after := by
  rw [List.dropWhile_append_of_pos hbefore]
  cases mid with
  | nil => exact absurd rfl hne
  | cons c mid =>
    rw [List.cons_append, List.dropWhile_cons_of_neg]
    simp [hmid c List.mem_cons_self]

theorem trim_append {before mid after : List Char} (hbefore : ∀ c ∈ before, isBlank c = true)
    (hafter : ∀ c ∈ after, isBlank c = true) (hne : mid ≠ [])
    (hmid : ∀ c ∈ mid, isBlank c = false) : trim (before ++ mid ++ after) = mid := by
  rw [trim, List.append_assoc, dropWhile_isBlank_append hbefore hne hmid, List.reverse_append]
  have hback : (after.reverse ++ (mid.reverse ++ [])).dropWhile isBlank = mid.reverse ++ [] :=
    dropWhile_isBlank_append (fun c hc ↦ hafter c (List.mem_reverse.mp hc))
      (mt List.reverse_eq_nil_iff.mp hne) (fun c hc ↦ hmid c (List.mem_reverse.mp hc)) []
  rw [List.append_nil] at hback
  rw [hback, List.reverse_reverse]

theorem eq_append_trim (s : List Char) : ∃ before after, s = before ++ trim s ++ after ∧
    (∀ c ∈ before, isBlank c = true) ∧ ∀ c ∈ after, isBlank c = true := by
  refine ⟨s.takeWhile isBlank, ((s.dropWhile isBlank).reverse.takeWhile isBlank).reverse, ?_,
    fun c hc ↦ List.mem_takeWhile_imp hc,
    fun c hc ↦ List.mem_takeWhile_imp (List.mem_reverse.mp hc)⟩
  rw [trim, List.append_assoc, ← List.reverse_append, List.takeWhile_append_dropWhile,
    List.reverse_reverse, List.takeWhile_append_dropWhile]

/-! ## The reader -/

/-- **The reader reads the grammar.** -/
theorem byte?_eq_some_iff {text : String} {n : UInt8} : byte? text = some n ↔ Denotes text n := by
  rw [byte?, Option.bind_eq_some_iff]
  constructor
  · rintro ⟨v, hv, hn⟩
    obtain ⟨hlt, hofNat⟩ := Option.ite_none_right_eq_some.mp hn
    obtain ⟨sign, digits, htrim, hsign, hdigits, rfl⟩ := signedNatural?_eq_some_iff.mp hv
    obtain ⟨before, after, htext, hbefore, hafter⟩ := eq_append_trim text.toList
    rw [htrim] at htext
    refine ⟨before, sign, digits, after, htext, hbefore, hafter, hsign, hdigits, ?_⟩
    rw [← Option.some.inj hofNat, UInt8.toNat_ofNat', Nat.mod_eq_of_lt hlt]
  · rintro ⟨before, sign, digits, after, htext, hbefore, hafter, hsign, hdigits, hvalue⟩
    have hmid : ∀ c ∈ sign ++ digits, isBlank c = false := by
      intro c hc
      rcases List.mem_append.mp hc with hc | hc
      · rcases hsign with rfl | rfl
        · cases hc
        · rw [List.mem_singleton.mp hc]
          decide
      · exact not_isBlank_of_isDigit (hdigits.2 c hc)
    have hne : sign ++ digits ≠ [] := List.append_ne_nil_of_right_ne_nil _ hdigits.1
    refine ⟨n.toNat, ?_, ?_⟩
    · rw [htext, trim_append hbefore hafter hne hmid]
      exact signedNatural?_eq_some_iff.mpr ⟨sign, digits, rfl, hsign, hdigits, hvalue⟩
    · rw [if_pos n.toNat_lt, UInt8.ofNat_toNat]

theorem Denotes.unique {text : String} {n m : UInt8} (hn : Denotes text n) (hm : Denotes text m) :
    n = m :=
  Option.some.inj ((byte?_eq_some_iff.mpr hn).symm.trans (byte?_eq_some_iff.mpr hm))

end PinballBoard.Text
