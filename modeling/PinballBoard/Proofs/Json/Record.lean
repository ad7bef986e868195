import PinballBoard.Json.Record
import PinballBoard.Proofs.Json.Grammar

/-!
# Records and their texts

The two sides of a record that no record decides for itself.

* What the writer makes of some members is a text of the object with these members
  (`isWritten_writeObject`), so that nothing has to be shown about the compact form beyond this: the
  reader reads it because it reads every text.
* The reader of an object finds the value of each listed name in whatever order the members stand
  and whatever else stands between them (`fields?_of_perm`); and it never passes a value over, so a
  value that a document gives to a field is the one that the field is read from
  (`Gives.exists_field`).
-/

namespace PinballBoard.Json

/-! ## Writing -/

section Writer

variable {ts us : List Token} {cs ds gap : List Char}

theorem Spaced.gap_append (hgap : IsGap gap) (h : Spaced ts cs) : Spaced ts (gap ++ cs) := by
  have happend : ∀ {more : List Char}, IsGap more → IsGap (gap ++ more) := fun hmore c hc ↦
    (List.mem_append.mp hc).elim (hgap c) (hmore c)
  cases h with
  | nil hmore => exact .nil (happend hmore)
  | cons hmore ht hts =>
    rw [← List.append_assoc]
    exact .cons (happend hmore) ht hts

theorem Spaced.append (h : Spaced ts cs) (h' : Spaced us ds) : Spaced (ts ++ us) (cs ++ ds) := by
  induction h with
  | nil hgap => exact h'.gap_append hgap
  | cons hgap ht _ ih =>
    rw [List.append_assoc, List.append_assoc]
    exact .cons hgap ht ih

theorem Spelling.spaced {t : Token} (h : Spelling t cs) : Spaced [t] cs := by
  have hempty : IsGap [] := nofun
  have hspaced := Spaced.cons hempty h (.nil hempty)
  rwa [List.nil_append, List.append_nil] at hspaced

theorem spelling_writeString (s : String) : Spelling (.string (some s)) (writeString s) :=
  .text (quoted_flatMap_writeChar s.toList)

theorem spelling_writeNat (n : Nat) : Spelling (.number (.ofNat n)) (writeNat n) :=
  .number (numeral_writeNat n)

variable {ι : Type} {name : ι → String} {document : ι → Document} {write : ι → List Char}

private theorem spaced_members (name : ι → String) (xs : List ι)
    (h : ∀ x ∈ xs, Spaced (document x).tokens (write x)) :
    Spaced (memberTokens (xs.map fun x ↦ (some (name x), document x)))
      (List.intercalate [',']
        (xs.map fun x ↦ writeString (name x) ++ ':' :: write x)) := by
  induction xs with
  | nil => exact .nil nofun
  | cons x xs ih =>
    obtain ⟨hx, hxs⟩ := List.forall_mem_cons.mp h
    have hmember : Spaced (.string (some (name x)) :: .colon :: (document x).tokens)
        (writeString (name x) ++ ':' :: write x) :=
      (spelling_writeString _).spaced.append (Spelling.colon.spaced.append hx)
    cases xs with
    | nil => simpa [memberTokens, List.intercalate] using hmember
    | cons y xs =>
      have hrest := hmember.append (Spelling.comma.spaced.append (ih hxs))
      simpa [memberTokens, List.intercalate] using hrest

/-- **What the writer makes of some members is a text of the object.** -/
theorem isWritten_writeObject (xs : List ι)
    (h : ∀ x ∈ xs, Spaced (document x).tokens (write x)) :
    (Document.object (xs.map fun x ↦ (some (name x), document x))).IsWritten
      (String.ofList (writeObject (xs.map fun x ↦ (name x, write x)))) := by
  have hopen := Spelling.openBrace.spaced.append
    ((spaced_members name xs h).append Spelling.closeBrace.spaced)
  rw [Document.IsWritten, Document.tokens, String.toList_ofList, writeObject, List.map_map]
  exact hopen

end Writer

/-! ## Reading members -/

section Reader

variable {members others : List (Option String × Document)} {names : List String} {name : String}
  {defaults : Bool} {d : Document} {values : List (Option Document)}

theorem atMostOnce_iff :
    atMostOnce members name = true ↔ (members.map Prod.fst).count (some name) ≤ 1 := by
  rw [atMostOnce, decide_eq_true_iff, List.count, List.countP_map, List.countP_eq_length_filter]
  rfl

theorem member?_eq_head? :
    member? members name = ((members.filter (·.1 == some name)).head?).map (·.2) := by
  rw [member?, List.head?_filter]

private theorem filter_listed {listed : List (String × Document)}
    (hnodup : (listed.map Prod.fst).Nodup) :
    (listed.map fun m ↦ (some m.1, m.2)).filter (·.1 == some name) =
      ((listed.lookup name).map fun d ↦ (some name, d)).toList := by
  induction listed with
  | nil => rfl
  | cons m listed ih =>
    obtain ⟨other, d⟩ := m
    obtain ⟨hother, hnodup⟩ := List.nodup_cons.mp hnodup
    by_cases hname : other = name
    · have hnone : listed.lookup name = none := by
        rw [List.lookup_eq_none_iff]
        rintro m hm
        have hmem : m.1 ∈ listed.map Prod.fst := List.mem_map_of_mem hm
        exact bne_iff_ne.mpr fun heq ↦ hother (hname.trans heq ▸ hmem)
      rw [hnone] at ih
      simp [ih hnodup, hname]
    · have hne : (name == other) = false := beq_false_of_ne fun heq ↦ hname heq.symm
      simp [List.lookup_cons, ih hnodup, hname, hne]

/-- **The fields of a record are found in any order and among any other members.** -/
theorem fields?_of_perm {listed : List (String × Document)} (hnodup : (listed.map Prod.fst).Nodup)
    (hothers : ∀ m ∈ others, ∃ other, m.1 = some other ∧ other ∉ names)
    (hperm : members.Perm (listed.map (fun m ↦ (some m.1, m.2)) ++ others)) :
    fields? defaults names (.object members) = some (names.map fun name ↦ listed.lookup name) := by
  have hfilter : ∀ name ∈ names, members.filter (·.1 == some name) =
      ((listed.lookup name).map fun d ↦ (some name, d)).toList := by
    intro name hname
    have hnone : others.filter (·.1 == some name) = [] := by
      rw [List.filter_eq_nil_iff]
      rintro m hm heq
      obtain ⟨other, hother, hnot⟩ := hothers m hm
      rw [hother, beq_iff_eq, Option.some.injEq] at heq
      exact hnot (heq ▸ hname)
    have h := hperm.filter (·.1 == some name)
    rw [List.filter_append, hnone, List.append_nil, filter_listed hnodup] at h
    cases hlookup : listed.lookup name with
    | none => simpa [hlookup] using h
    | some d => simpa [hlookup] using h
  have htexts : members.all (·.1.isSome) = true := by
    rw [List.all_eq_true]
    intro m hm
    obtain hlisted | hother := List.mem_append.mp (hperm.mem_iff.mp hm)
    · obtain ⟨m', -, rfl⟩ := List.mem_map.mp hlisted
      rfl
    · obtain ⟨other, hother, -⟩ := hothers m hother
      rw [hother]
      rfl
  have honce : names.all (atMostOnce members) = true := by
    rw [List.all_eq_true]
    intro name hname
    rw [atMostOnce, decide_eq_true_iff, hfilter name hname]
    cases listed.lookup name <;> simp
  rw [fields?, htexts, honce, Bool.and_self, if_pos rfl]
  congr 1
  refine List.map_congr_left fun name hname ↦ ?_
  rw [member?_eq_head?, hfilter name hname]
  cases listed.lookup name <;> rfl

theorem fields?_of_repeated (hname : name ∈ names)
    (hcount : 1 < (members.map Prod.fst).count (some name)) :
    fields? defaults names (.object members) = none := by
  have hall : names.all (atMostOnce members) = false := by
    rw [List.all_eq_false]
    exact ⟨name, hname, mt atMostOnce_iff.mp (Nat.not_le_of_lt hcount)⟩
  rw [fields?, hall, Bool.and_false]
  rfl

/-- A document gives the field of a name this value: as a member with the name, or as the item in
the place of the field. -/
inductive Gives (names : List String) (name : String) : Document → Document → Prop where
  | member {members : List (Option String × Document)} {d : Document}
      (h : (some name, d) ∈ members) : Gives names name (.object members) d
  | item {items : List Document} {d : Document} {i : ℕ} (hname : names[i]? = some name)
      (h : items[i]? = some d) : Gives names name (.array items) d

/-- **A value that is given to a field is what the field is read from.** -/
theorem Gives.exists_field {document : Document} (h : Gives names name document d)
    (hname : name ∈ names) (hfields : fields? defaults names document = some values) :
    ∃ i : ℕ, names[i]? = some name ∧ values[i]? = some (some d) := by
  cases h with
  | @member members d hmem =>
    rw [fields?] at hfields
    split_ifs at hfields with hread
    obtain rfl := Option.some.inj hfields
    have honce := List.all_eq_true.mp (Bool.and_eq_true_iff.mp hread).2 name hname
    obtain ⟨i, hi⟩ := List.mem_iff_getElem?.mp hname
    have hmem : (some name, d) ∈ members.filter (·.1 == some name) := by simpa using hmem
    rw [atMostOnce, decide_eq_true_iff] at honce
    have hfilter : members.filter (·.1 == some name) = [(some name, d)] := by
      obtain ⟨m, hm⟩ := List.length_eq_one_iff.mp
        (Nat.le_antisymm honce (List.length_pos_of_mem hmem))
      rw [hm, List.mem_singleton] at hmem
      rw [hm, hmem]
    refine ⟨i, hi, ?_⟩
    rw [List.getElem?_map, hi, Option.map_some, member?_eq_head?, hfilter]
    rfl
  | @item items d i hi hitem =>
    rw [fields?] at hfields
    split_ifs at hfields with hread
    obtain rfl := Option.some.inj hfields
    refine ⟨i, hi, ?_⟩
    rw [List.getElem?_append_left, List.getElem?_map, hitem, Option.map_some]
    simpa using (List.getElem?_eq_some_iff.mp hitem).1

end Reader

end PinballBoard.Json
