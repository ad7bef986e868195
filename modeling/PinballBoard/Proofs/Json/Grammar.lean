import PinballBoard.Json.Document
import PinballBoard.Proofs.Json.Numeral
import PinballBoard.Proofs.Json.Quotation

/-!
# JSON texts

A document is a sequence of tokens (`Document.tokens`), and a text of it is these tokens one after
the other, each spelled in one of its ways, with any white space between them and around them
(`Document.IsWritten`). This is the grammar of JSON without a reader: the reader has no part in it,
and one document has many texts.

`Document.parse?_eq` says that the reader finds the document in each of its texts. It goes in the
two layers in which the reader works.

* The scanner finds the tokens. White space could be missing between two tokens without which they
  would run together, but the tokens of a document never need it: the only tokens without an end
  mark are literals, and behind a literal there is a comma or a closing bracket (`Apart`).
* The reader of tokens finds the document. Its fuel is enough because every call of it has a token
  of its own.
-/

namespace PinballBoard.Json

/-! ## The tokens of a document -/

mutual

/-- The tokens of a document, in order. -/
def Document.tokens : Document → List Token
  | .null => [.null]
  | .bool b => [.bool b]
  | .number l => [.number l]
  | .string s => [.string s]
  | .array items => .openBracket :: (itemTokens items ++ [.closeBracket])
  | .object members => .openBrace :: (memberTokens members ++ [.closeBrace])

/-- The tokens of some values with commas between them. -/
def itemTokens : List Document → List Token
  | [] => []
  | [item] => item.tokens
  | item :: items => item.tokens ++ .comma :: itemTokens items

/-- The tokens of some members with commas between them. -/
def memberTokens : List (Option String × Document) → List Token
  | [] => []
  | [(name, item)] => .string name :: .colon :: item.tokens
  | (name, item) :: members =>
    .string name :: .colon :: (item.tokens ++ .comma :: memberTokens members)

end

/-! ## Texts -/

/-- How a token is written. -/
inductive Spelling : Token → List Char → Prop where
  | openBrace : Spelling .openBrace ['\x7b']
  | closeBrace : Spelling .closeBrace ['\x7d']
  | openBracket : Spelling .openBracket ['[']
  | closeBracket : Spelling .closeBracket [']']
  | comma : Spelling .comma [',']
  | colon : Spelling .colon [':']
  | null : Spelling .null ['n', 'u', 'l', 'l']
  | yes : Spelling (.bool true) ['t', 'r', 'u', 'e']
  | no : Spelling (.bool false) ['f', 'a', 'l', 's', 'e']
  | number {l : Decimal.Literal} {cs : List Char} (h : Numeral l cs) : Spelling (.number l) cs
  /-- The units of the string are those of a text. -/
  | text {s : String} {cs : List Char} (h : Quoted cs (utf16 s.toList)) :
      Spelling (.string (some s)) ('"' :: (cs ++ ['"']))
  /-- They are those of no text. -/
  | broken {cs : List Char} {us : List Nat} (h : Quoted cs us) (hus : ∀ text, us ≠ utf16 text) :
      Spelling (.string none) ('"' :: (cs ++ ['"']))

/-- White space. -/
def IsGap (cs : List Char) : Prop := ∀ c ∈ cs, c = ' ' ∨ c = '\t' ∨ c = '\n' ∨ c = '\r'

/-- Some tokens with any white space between them. -/
inductive Spaced : List Token → List Char → Prop where
  | nil {gap : List Char} (hgap : IsGap gap) : Spaced [] gap
  | cons {t : Token} {ts : List Token} {gap cs rest : List Char} (hgap : IsGap gap)
      (ht : Spelling t cs) (hts : Spaced ts rest) : Spaced (t :: ts) (gap ++ (cs ++ rest))

/-- The text is one of the texts of the document. -/
def Document.IsWritten (d : Document) (text : String) : Prop := Spaced d.tokens text.toList

/-! ## Scanning a token -/

section Scanner

variable {t : Token} {ts : List Token} {cs rest : List Char}

theorem isSpace_iff {c : Char} :
    isSpace c = true ↔ c = ' ' ∨ c = '\t' ∨ c = '\n' ∨ c = '\r' := by
  simp [isSpace, or_assoc]

private theorem Numeral.scanToken_eq {l : Decimal.Literal} (h : Numeral l cs)
    (rest : List Char) :
    (∃ c cs', cs = c :: cs' ∧ isSpace c = false) ∧
      scanToken (cs ++ rest) =
        (scanNumber (cs ++ rest)).map fun (l, rest) ↦ (.number l, rest) := by
  obtain @⟨negative, whole, fraction, exponent, cs, ds, hwhole, -, -, -⟩ := h
  cases negative with
  | true => exact ⟨⟨'-', _, rfl, rfl⟩, rfl⟩
  | false =>
    obtain ⟨d, whole, rfl⟩ := List.exists_cons_of_ne_nil hwhole.1
    have hd : d < 10 := hwhole.2 d List.mem_cons_self
    have hspace : ∀ d < 10, isSpace d.digitChar = false := by decide
    refine ⟨⟨d.digitChar, _, rfl, hspace d hd⟩, ?_⟩
    simp only [Bool.false_eq_true, if_false, List.nil_append, spellDigits, List.map_cons,
      List.cons_append]
    generalize List.map Nat.digitChar whole ++ (cs ++ ds) ++ rest = more
    have hcases : d = 0 ∨ d = 1 ∨ d = 2 ∨ d = 3 ∨ d = 4 ∨ d = 5 ∨ d = 6 ∨ d = 7 ∨ d = 8 ∨
        d = 9 := by
      omega
    rcases hcases with rfl | rfl | rfl | rfl | rfl | rfl | rfl | rfl | rfl | rfl <;> rfl

/-- No token begins with white space. -/
theorem Spelling.head (h : Spelling t cs) : ∃ c cs', cs = c :: cs' ∧ isSpace c = false := by
  cases h with
  | number h => exact (h.scanToken_eq []).1
  | _ => exact ⟨_, _, rfl, rfl⟩

private theorem scanToken_of_quoted {us : List Nat} (h : Quoted cs us) (rest : List Char) :
    ∃ text : Option (List Char), (∀ s, text = some s ↔ us = utf16 s) ∧
      scanToken ('"' :: (cs ++ '"' :: rest)) = some (.string (text.map String.ofList), rest) := by
  obtain ⟨ps, rfl, hproper, hscan⟩ := h.scan
  exact ⟨joinPieces ps, fun s ↦ joinPieces_eq_some_iff hproper, by
    rw [scanToken, hscan, Option.map_some]⟩

/-- A token is found at the front. A literal must come to its end. -/
theorem Spelling.scan (h : Spelling t cs) (hrest : (∃ l, t = .number l) → Stops rest) :
    scanToken (cs ++ rest) = some (t, rest) := by
  cases h with
  | number h => rw [(h.scanToken_eq rest).2, h.scan (hrest ⟨_, rfl⟩), Option.map_some]
  | @text s cs h =>
    obtain ⟨text, htext, hscan⟩ := scanToken_of_quoted h rest
    obtain rfl := (htext s.toList).mpr rfl
    simpa using hscan
  | @broken cs us h hus =>
    obtain ⟨text, htext, hscan⟩ := scanToken_of_quoted h rest
    obtain rfl : text = none := Option.eq_none_iff_forall_ne_some.mpr fun s hs ↦
      hus s ((htext s).mp hs)
    simpa using hscan
  | _ => rfl

/-! ## Scanning all tokens -/

/-- A literal ends where one of these stands. -/
def Closes (t : Token) : Prop := t = .comma ∨ t = .closeBracket ∨ t = .closeBrace

/-- No tokens run together. -/
def Apart (ts : List Token) : Prop := ts.IsChain fun t u ↦ (∃ l, t = .number l) → Closes u

theorem stops_of_isSpace {c : Char} (h : isSpace c = true) : Stops (c :: cs) := by
  rintro c' ⟨⟩
  rcases isSpace_iff.mp h with rfl | rfl | rfl | rfl <;> decide

theorem Spaced.stops (h : Spaced ts cs) (hhead : ∀ t ∈ ts.head?, Closes t) : Stops cs := by
  have hspace : ∀ {gap rest : List Char}, IsGap gap → Stops rest → Stops (gap ++ rest) := by
    intro gap rest hgap hrest
    cases gap with
    | nil => exact hrest
    | cons c gap => exact stops_of_isSpace (isSpace_iff.mpr (hgap c List.mem_cons_self))
  cases h with
  | @nil gap hgap =>
    rw [← List.append_nil cs]
    exact hspace hgap nofun
  | cons hgap ht hts =>
    refine hspace hgap ?_
    obtain rfl | rfl | rfl := hhead _ rfl <;> cases ht <;> rintro c ⟨⟩ <;> decide

private theorem scanAll_gap {gap : List Char} (hgap : IsGap gap) (fuel : Nat) (rest : List Char) :
    scanAll (gap.length + fuel) (gap ++ rest) = scanAll fuel rest := by
  induction gap with
  | nil => rw [List.length_nil, Nat.zero_add, List.nil_append]
  | cons c gap ih =>
    obtain ⟨hc, hgap⟩ := List.forall_mem_cons.mp hgap
    rw [List.length_cons, Nat.add_right_comm, List.cons_append, scanAll,
      if_pos (isSpace_iff.mpr hc), ih hgap]

private theorem scanAll_nil (fuel : Nat) : scanAll fuel [] = some [] := by
  cases fuel <;> rfl

/-- **The scanner finds the tokens, whatever white space stands between them.** -/
theorem Spaced.scanAll_eq (h : Spaced ts cs) (hapart : Apart ts) {fuel : Nat}
    (hfuel : cs.length ≤ fuel) : scanAll fuel cs = some ts := by
  induction h generalizing fuel with
  | @nil gap hgap =>
    obtain ⟨fuel, rfl⟩ := Nat.exists_eq_add_of_le hfuel
    have hscan := scanAll_gap hgap fuel []
    rwa [List.append_nil, scanAll_nil] at hscan
  | @cons t ts gap cs rest hgap ht hts ih =>
    obtain ⟨hnext, hapart⟩ := List.isChain_cons.mp hapart
    have hscan := ht.scan fun hnumber ↦ hts.stops fun u hu ↦ hnext u hu hnumber
    obtain ⟨c, cs', rfl, hspace⟩ := ht.head
    simp only [List.length_append, List.length_cons] at hfuel
    obtain ⟨fuel, rfl⟩ : ∃ more, fuel = gap.length + (more + 1) :=
      ⟨fuel - gap.length - 1, by omega⟩
    rw [scanAll_gap hgap, List.cons_append, scanAll, hspace]
    rw [List.cons_append] at hscan
    simp only [Bool.false_eq_true, if_false]
    rw [hscan, Option.bind_some, ih hapart (by omega)]
    rfl

end Scanner

/-! ## Tokens of a document are apart -/

private theorem apart_cons {t : Token} {ts : List Token} (ht : ∀ l, t ≠ .number l)
    (hts : Apart ts) : Apart (t :: ts) :=
  List.isChain_cons.mpr ⟨fun _ _ ⟨l, hl⟩ ↦ absurd hl (ht l), hts⟩

mutual

theorem Document.apart_tokens_append (d : Document) {rest : List Token} (hrest : Apart rest)
    (hhead : ∀ t ∈ rest.head?, Closes t) : Apart (d.tokens ++ rest) := by
  match d with
  | .null | .bool _ | .string _ => exact apart_cons (by simp) hrest
  | .number _ => exact List.isChain_cons.mpr ⟨fun t ht _ ↦ hhead t ht, hrest⟩
  | .array items =>
    rw [Document.tokens, List.cons_append, List.append_assoc]
    exact apart_cons (by simp) (apart_itemTokens_append items hrest)
  | .object members =>
    rw [Document.tokens, List.cons_append, List.append_assoc]
    exact apart_cons (by simp) (apart_memberTokens_append members hrest)

theorem apart_itemTokens_append (items : List Document) {rest : List Token} (hrest : Apart rest) :
    Apart (itemTokens items ++ .closeBracket :: rest) := by
  have hclose : Apart (.closeBracket :: rest) := apart_cons (by simp) hrest
  match items with
  | [] => exact hclose
  | [item] => exact item.apart_tokens_append hclose (by simp [Closes])
  | item :: next :: items =>
    rw [itemTokens, List.append_assoc]
    · exact item.apart_tokens_append
        (apart_cons (by simp) (apart_itemTokens_append (next :: items) hrest)) (by simp [Closes])
    · simp

theorem apart_memberTokens_append (members : List (Option String × Document)) {rest : List Token}
    (hrest : Apart rest) : Apart (memberTokens members ++ .closeBrace :: rest) := by
  have hclose : Apart (.closeBrace :: rest) := apart_cons (by simp) hrest
  match members with
  | [] => exact hclose
  | [(name, item)] =>
    exact apart_cons (by simp) (apart_cons (by simp)
      (item.apart_tokens_append hclose (by simp [Closes])))
  | (name, item) :: next :: members =>
    rw [memberTokens, List.cons_append, List.cons_append, List.append_assoc]
    · exact apart_cons (by simp) (apart_cons (by simp) (item.apart_tokens_append
        (apart_cons (by simp) (apart_memberTokens_append (next :: members) hrest))
        (by simp [Closes])))
    · simp

end

/-! ## Reading tokens -/

private theorem Document.head_tokens (d : Document) :
    ∃ t ts, d.tokens = t :: ts ∧ t ≠ .closeBracket := by
  cases d <;> exact ⟨_, _, rfl, by simp⟩

private theorem head_itemTokens (item : Document) (items : List Document) :
    ∃ t ts, itemTokens (item :: items) = t :: ts ∧ t ≠ .closeBracket := by
  obtain ⟨t, ts, htokens, ht⟩ := item.head_tokens
  cases items with
  | nil => exact ⟨t, ts, htokens, ht⟩
  | cons next items =>
    refine ⟨t, ts ++ .comma :: itemTokens (next :: items), ?_, ht⟩
    rw [itemTokens, htokens, List.cons_append]
    simp

private theorem head_memberTokens (member : Option String × Document)
    (members : List (Option String × Document)) :
    ∃ name ts, memberTokens (member :: members) = .string name :: ts := by
  cases members with
  | nil => exact ⟨member.1, _, rfl⟩
  | cons next members => exact ⟨member.1, _, by rw [memberTokens]; simp⟩

mutual

/-- **The reader of tokens finds the document.** Each of its calls has a token of its own. -/
theorem Document.value?_tokens (d : Document) (rest : List Token) (fuel : Nat)
    (hfuel : d.tokens.length ≤ fuel) : value? fuel (d.tokens ++ rest) = some (d, rest) := by
  have hpos : 0 < fuel := by
    obtain ⟨t, ts, htokens, -⟩ := d.head_tokens
    rw [htokens, List.length_cons] at hfuel
    omega
  obtain ⟨fuel, rfl⟩ := Nat.exists_eq_succ_of_ne_zero (Nat.ne_of_gt hpos)
  match d with
  | .null | .bool _ | .number _ | .string _ => rfl
  | .array [] => rfl
  | .object [] => rfl
  | .array (item :: items) =>
    rw [Document.tokens, List.length_cons, List.length_append, List.length_singleton] at hfuel
    have hitems := items?_itemTokens item items rest fuel (by omega)
    obtain ⟨t, ts, htokens, ht⟩ := head_itemTokens item items
    rw [Document.tokens, List.cons_append, List.append_assoc, List.singleton_append]
    rw [htokens, List.cons_append] at hitems ⊢
    rw [value?, hitems]
    · rfl
    · rintro more heq
      exact ht (List.cons.inj heq).1
  | .object (member :: members) =>
    rw [Document.tokens, List.length_cons, List.length_append, List.length_singleton] at hfuel
    have hmembers := members?_memberTokens member members rest fuel (by omega)
    obtain ⟨name, ts, htokens⟩ := head_memberTokens member members
    rw [Document.tokens, List.cons_append, List.append_assoc, List.singleton_append]
    rw [htokens, List.cons_append] at hmembers ⊢
    rw [value?, hmembers]
    · rfl
    · exact nofun
termination_by fuel

theorem items?_itemTokens (item : Document) (items : List Document) (rest : List Token)
    (fuel : Nat) (hfuel : (itemTokens (item :: items)).length + 1 ≤ fuel) :
    items? fuel (itemTokens (item :: items) ++ .closeBracket :: rest) =
      some (item :: items, rest) := by
  obtain ⟨fuel, rfl⟩ := Nat.exists_eq_succ_of_ne_zero (show fuel ≠ 0 by omega)
  match items with
  | [] =>
    have hitem := item.value?_tokens (.closeBracket :: rest) fuel
      (Nat.le_of_succ_le_succ hfuel)
    change items? (fuel + 1) (item.tokens ++ .closeBracket :: rest) = _
    rw [items?, hitem]
    rfl
  | next :: items =>
    have htokens : itemTokens (item :: next :: items) =
        item.tokens ++ .comma :: itemTokens (next :: items) := by
      rw [itemTokens]
      simp
    rw [htokens, List.length_append, List.length_cons] at hfuel
    have hitem := item.value?_tokens
      (.comma :: (itemTokens (next :: items) ++ .closeBracket :: rest)) fuel (by omega)
    have hitems := items?_itemTokens next items rest fuel (by omega)
    rw [htokens, List.append_assoc, List.cons_append, items?, hitem, Option.bind_some]
    simp only [hitems, Option.map_some]
termination_by fuel

theorem members?_memberTokens (member : Option String × Document)
    (members : List (Option String × Document)) (rest : List Token) (fuel : Nat)
    (hfuel : (memberTokens (member :: members)).length + 1 ≤ fuel) :
    members? fuel (memberTokens (member :: members) ++ .closeBrace :: rest) =
      some (member :: members, rest) := by
  obtain ⟨fuel, rfl⟩ := Nat.exists_eq_succ_of_ne_zero (show fuel ≠ 0 by omega)
  match member, members with
  | (name, item), [] =>
    have htokens : memberTokens [(name, item)] = .string name :: .colon :: item.tokens := rfl
    rw [htokens, List.length_cons, List.length_cons] at hfuel
    have hitem := item.value?_tokens (.closeBrace :: rest) fuel (by omega)
    rw [htokens, List.cons_append, List.cons_append, members?, hitem]
    rfl
  | (name, item), next :: members =>
    have htokens : memberTokens ((name, item) :: next :: members) =
        .string name :: .colon :: (item.tokens ++ .comma :: memberTokens (next :: members)) := by
      rw [memberTokens]
      simp
    rw [htokens, List.length_cons, List.length_cons, List.length_append, List.length_cons] at hfuel
    have hitem := item.value?_tokens
      (.comma :: (memberTokens (next :: members) ++ .closeBrace :: rest)) fuel (by omega)
    have hmembers := members?_memberTokens next members rest fuel (by omega)
    rw [htokens, List.cons_append, List.cons_append, List.append_assoc, List.cons_append, members?,
      hitem, Option.bind_some]
    simp only [hmembers, Option.map_some]
termination_by fuel

end

/-! ## Reading texts -/

/-- **The reader finds the document in each of its texts.** -/
theorem Document.parse?_eq {d : Document} {text : String} (h : d.IsWritten text) :
    Document.parse? text = some d := by
  have hapart : Apart d.tokens := by
    have happend := d.apart_tokens_append .nil nofun
    rwa [List.append_nil] at happend
  have htokens : tokens? text = some d.tokens :=
    Spaced.scanAll_eq h hapart (Nat.le_succ text.toList.length)
  have hvalue := d.value?_tokens [] (2 * d.tokens.length + 1) (by omega)
  rw [List.append_nil] at hvalue
  rw [parse?, htokens, Option.bind_some, hvalue]

end PinballBoard.Json
