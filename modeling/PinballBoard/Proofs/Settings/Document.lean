import PinballBoard.Proofs.Json.Record
import PinballBoard.Settings.Json

/-!
# Documents of the settings

What a document may say about the settings, and what is made of it.

A document of some settings lists some of the fields with the values that they have there
(`Settings.document`), in any order and among members with other names, and it may be spelled in any
way. It is read as these settings in the fields that it lists and as the defaults in the others
(`Settings.taking`). The compact form is the one case in which all fields are listed in declared
order and nothing else is, so reading it back needs no argument of its own.

Two kinds of documents are refused. A known name that repeats is found before any value is read. A
number that a field cannot hold is found by its reader: a reader takes a literal only for what it is
worth, so there is nothing that it could take a negative, a fractional or too great a literal for
(`value_of_read?`).
-/

namespace PinballBoard

open Json

/-! ## Fields -/

namespace Settings

/-- The fields of the settings. -/
inductive Field where
  | connection
  | port
  | baud
  | networkHost
  | networkPort
  | eventCapacity
  | pollIntervalMs
deriving DecidableEq, Repr

namespace Field

/-- All fields, in declared order. -/
def all : List Field :=
  [connection, port, baud, networkHost, networkPort, eventCapacity, pollIntervalMs]

/-- The name of a field in a document. -/
def name : Field → String
  | connection => "connection"
  | port => "port"
  | baud => "baud"
  | networkHost => "network_host"
  | networkPort => "network_port"
  | eventCapacity => "event_capacity"
  | pollIntervalMs => "poll_interval_ms"

/-- The greatest number that a numeric field holds. -/
def limit? : Field → Option ℕ
  | baud => some (UInt32.size - 1)
  | networkPort => some (UInt16.size - 1)
  | eventCapacity | pollIntervalMs => some (UInt64.size - 1)
  | _ => none

theorem mem_all (f : Field) : f ∈ all := by cases f <;> decide

theorem name_injective {f g : Field} (h : f.name = g.name) : f = g := by
  cases f <;> cases g <;> first | rfl | exact absurd h (by decide)

theorem names_eq : fieldNames = all.map name := rfl

theorem name_mem (f : Field) : f.name ∈ fieldNames := List.mem_map_of_mem f.mem_all

end Field

variable {f : Field} {fields : List Field} {s : Settings}

/-! ## Documents of fields -/

/-- The value of an optional text in a document. -/
def optionalText : Option String → Document
  | some t => .string (some t)
  | none => .null

/-- The value of a field in a document. -/
def document (s : Settings) : Field → Document
  | .connection => .string (some (match s.attachment with
    | .serial => "serial"
    | .network => "network"))
  | .port => optionalText s.port
  | .baud => .number (.ofNat s.baud.toNat)
  | .networkHost => optionalText s.networkHost
  | .networkPort => .number (.ofNat s.networkPort.toNat)
  | .eventCapacity => .number (.ofNat s.eventCapacity.toNat)
  | .pollIntervalMs => .number (.ofNat s.pollIntervalMs.toNat)

/-- The member of a field in a document. -/
def member (s : Settings) (f : Field) : Option String × Document := (some f.name, s.document f)

/-- The settings in some fields and the defaults in the others. -/
def taking (s : Settings) (fields : List Field) : Settings where
  attachment := if .connection ∈ fields then s.attachment else default.attachment
  port := if .port ∈ fields then s.port else default.port
  baud := if .baud ∈ fields then s.baud else default.baud
  networkHost := if .networkHost ∈ fields then s.networkHost else default.networkHost
  networkPort := if .networkPort ∈ fields then s.networkPort else default.networkPort
  eventCapacity := if .eventCapacity ∈ fields then s.eventCapacity else default.eventCapacity
  pollIntervalMs := if .pollIntervalMs ∈ fields then s.pollIntervalMs else default.pollIntervalMs

@[simp]
theorem taking_all (s : Settings) : s.taking Field.all = s := by
  simp [taking, Field.all]

/-! ## Reading fields -/

theorem read_connection (s : Settings) :
    JsonForm.read? (s.document .connection) = some s.attachment := by
  cases hattachment : s.attachment <;> rw [document, hattachment] <;> rfl

theorem read_optionalText (t : Option String) : nullable? text? (optionalText t) = some t := by
  cases t <;> rfl

theorem natural?_ofNat_of_lt {n size : ℕ} (h : n < size) :
    natural? (size - 1) (.number (.ofNat n)) = some n := by
  rw [natural?, Decimal.Literal.natural?_ofNat, Option.bind_some, if_pos (Nat.le_sub_one_of_lt h)]

theorem long?_ofNat (n : UInt32) : long? (.number (.ofNat n.toNat)) = some n := by
  rw [long?, natural?_ofNat_of_lt n.toNat_lt, Option.map_some, UInt32.ofNat_toNat]

theorem word?_ofNat (n : UInt16) : word? (.number (.ofNat n.toNat)) = some n := by
  have hnatural : natural? 65535 (.number (.ofNat n.toNat)) = some n.toNat :=
    natural?_ofNat_of_lt n.toNat_lt
  rw [word?, hnatural, Option.map_some, UInt16.ofNat_toNat]

theorem quad?_ofNat (n : UInt64) : quad? (.number (.ofNat n.toNat)) = some n := by
  rw [quad?, natural?_ofNat_of_lt n.toNat_lt, Option.map_some, UInt64.ofNat_toNat]

private theorem withDefault_ite {α : Type} {read : Document → Option α} {d : Document} {v : α}
    (hread : read d = some v) (p : Prop) [Decidable p] (value : α) :
    withDefault value read (if p then some d else none) = some (if p then v else value) := by
  split
  · exact hread
  · rfl

/-- **The values of some fields are read as these fields.** -/
theorem ofFields?_document (s : Settings) (fields : List Field) :
    ofFields? (Field.all.map fun f ↦ if f ∈ fields then some (s.document f) else none) =
      some (s.taking fields) := by
  simp only [Field.all, List.map_cons, List.map_nil, ofFields?]
  have hport : nullable? text? (s.document .port) = some s.port := read_optionalText s.port
  have hbaud : long? (s.document .baud) = some s.baud := long?_ofNat s.baud
  have hhost : nullable? text? (s.document .networkHost) = some s.networkHost :=
    read_optionalText s.networkHost
  have hword : word? (s.document .networkPort) = some s.networkPort := word?_ofNat s.networkPort
  have hcapacity : quad? (s.document .eventCapacity) = some s.eventCapacity :=
    quad?_ofNat s.eventCapacity
  have hinterval : quad? (s.document .pollIntervalMs) = some s.pollIntervalMs :=
    quad?_ofNat s.pollIntervalMs
  rw [withDefault_ite s.read_connection, withDefault_ite hport, withDefault_ite hbaud,
    withDefault_ite hhost, withDefault_ite hword, withDefault_ite hcapacity,
    withDefault_ite hinterval]
  rfl

private theorem lookup_members (s : Settings) (f : Field) :
    (fields.map fun f ↦ (f.name, s.document f)).lookup f.name =
      if f ∈ fields then some (s.document f) else none := by
  induction fields with
  | nil => rfl
  | cons g fields ih =>
    by_cases hname : f = g
    · simp [hname]
    · have hne : (f.name == g.name) = false :=
        beq_false_of_ne fun h ↦ hname (Field.name_injective h)
      simp [List.lookup_cons, hne, hname, ih]

/-- **An object that lists some fields is read as these fields.** -/
theorem read?_of_perm {members others : List (Option String × Document)} (hfields : fields.Nodup)
    (hothers : ∀ m ∈ others, ∃ other, m.1 = some other ∧ ∀ f : Field, other ≠ f.name)
    (hperm : members.Perm (fields.map s.member ++ others)) :
    JsonForm.read? (Document.object members) = some (s.taking fields) := by
  have hnodup : ((fields.map fun f ↦ (f.name, s.document f)).map Prod.fst).Nodup := by
    rw [List.map_map]
    exact hfields.map fun _ _ h ↦ Field.name_injective h
  have hnames : ∀ m ∈ others, ∃ other, m.1 = some other ∧ other ∉ fieldNames := by
    intro m hm
    obtain ⟨other, hother, hne⟩ := hothers m hm
    refine ⟨other, hother, fun hmem ↦ ?_⟩
    rw [Field.names_eq] at hmem
    obtain ⟨f, -, hf⟩ := List.mem_map.mp hmem
    exact hne f hf.symm
  have hvalues : fields? true fieldNames (.object members) = _ :=
    fields?_of_perm hnodup hnames (by rwa [List.map_map])
  change (fields? true fieldNames (.object members)).bind ofFields? = _
  rw [hvalues, Option.bind_some, Field.names_eq, List.map_map]
  simp only [Function.comp_def, lookup_members]
  exact ofFields?_document s fields

/-! ## The compact form -/

/-- The value of a field in the compact form. -/
def fieldText (s : Settings) : Field → List Char
  | .connection => JsonForm.write s.attachment
  | .port => writeOption writeString s.port
  | .baud => writeNat s.baud.toNat
  | .networkHost => writeOption writeString s.networkHost
  | .networkPort => writeNat s.networkPort.toNat
  | .eventCapacity => writeNat s.eventCapacity.toNat
  | .pollIntervalMs => writeNat s.pollIntervalMs.toNat

private theorem spaced_optionalText (t : Option String) :
    Spaced (optionalText t).tokens (writeOption writeString t) := by
  cases t with
  | none => exact Spelling.null.spaced
  | some t => exact (spelling_writeString t).spaced

theorem spaced_fieldText (s : Settings) (f : Field) :
    Spaced (s.document f).tokens (s.fieldText f) := by
  cases f with
  | connection =>
    rw [document, fieldText]
    cases s.attachment <;> exact (spelling_writeString _).spaced
  | port => exact spaced_optionalText s.port
  | networkHost => exact spaced_optionalText s.networkHost
  | _ => exact (spelling_writeNat _).spaced

theorem isWritten_render (s : Settings) :
    (Document.object (Field.all.map s.member)).IsWritten (render s) := by
  have hwrite : JsonForm.write s =
      writeObject (Field.all.map fun f ↦ (f.name, s.fieldText f)) := rfl
  rw [render, hwrite]
  exact isWritten_writeObject Field.all fun f _ ↦ s.spaced_fieldText f

/-! ## Refused documents -/

private theorem Field.index {i : ℕ} (h : fieldNames[i]? = some f.name) :
    Field.all[i]? = some f := by
  rw [Field.names_eq, List.getElem?_map, Option.map_eq_some_iff] at h
  obtain ⟨g, hg, hname⟩ := h
  rw [hg, Field.name_injective hname]

/-- Settings are read from seven values, each in its own way. -/
private theorem ofFields?_eq_some {values : List (Option Document)}
    (h : ofFields? values = some s) :
    ∃ attachment port baud networkHost networkPort eventCapacity pollIntervalMs,
      values = [attachment, port, baud, networkHost, networkPort, eventCapacity, pollIntervalMs] ∧
        withDefault default.baud long? baud = some s.baud ∧
        withDefault default.networkPort word? networkPort = some s.networkPort ∧
        withDefault default.eventCapacity quad? eventCapacity = some s.eventCapacity ∧
        withDefault default.pollIntervalMs quad? pollIntervalMs = some s.pollIntervalMs := by
  unfold ofFields? at h
  split at h
  · rename_i attachment port baud networkHost networkPort eventCapacity pollIntervalMs
    simp only [Option.bind_eq_bind, Option.bind_eq_some_iff, Option.pure_def,
      Option.some.injEq] at h
    obtain ⟨_, -, _, -, _, hbaud, _, -, _, hport, _, hcapacity, _, hinterval, rfl⟩ := h
    exact ⟨_, _, _, _, _, _, _, rfl, hbaud, hport, hcapacity, hinterval⟩
  · cases h

/-- What a numeric field is read from is a number that it holds. -/
private theorem natural?_of_ofFields? {values : List (Option Document)} {limit i : ℕ} {d : Document}
    (h : ofFields? values = some s) (hlimit : f.limit? = some limit)
    (hi : Field.all[i]? = some f) (hd : values[i]? = some (some d)) :
    ∃ n, natural? limit d = some n := by
  obtain ⟨_, _, _, _, _, _, _, rfl, hbaud, hport, hcapacity, hinterval⟩ := ofFields?_eq_some h
  have hmap : ∀ {α : Type} {read : ℕ → α} {limit : ℕ} {v : α},
      (natural? limit d).map read = some v → ∃ n, natural? limit d = some n := fun h ↦
    (Option.map_eq_some_iff.mp h).imp fun _ hn ↦ hn.1
  match i with
  | 0 | 1 | 3 =>
    cases hi
    cases hlimit
  | 2 =>
    cases hi
    cases hlimit
    cases hd
    exact hmap hbaud
  | 4 =>
    cases hi
    cases hlimit
    cases hd
    exact hmap hport
  | 5 =>
    cases hi
    cases hlimit
    cases hd
    exact hmap hcapacity
  | 6 =>
    cases hi
    cases hlimit
    cases hd
    exact hmap hinterval
  | _ + 7 => cases hi

/-- **A number that is read is the one that the document gives.** -/
theorem value_of_read? {document : Document} {limit : ℕ} {l : Decimal.Literal}
    (h : JsonForm.read? document = some s) (hlimit : f.limit? = some limit)
    (hgives : Gives fieldNames f.name document (.number l)) : ∃ n ≤ limit, l.value = n := by
  obtain ⟨values, hvalues, hfields⟩ := Option.bind_eq_some_iff.mp h
  obtain ⟨i, hi, hvalue⟩ := hgives.exists_field f.name_mem hvalues
  obtain ⟨n, hn⟩ := natural?_of_ofFields? hfields hlimit (Field.index hi) hvalue
  obtain ⟨m, hm, hle⟩ := Option.bind_eq_some_iff.mp hn
  split_ifs at hle with hle'
  exact ⟨m, hle', l.value_of_natural? hm⟩

/-! ## Texts -/

private theorem ofText_of_isWritten {document : Document} {text : String}
    (h : document.IsWritten text) : parse? Settings text = JsonForm.read? document := by
  rw [parse?, document.parse?_eq h, Option.bind_some]

/-- **The settings survive their documents.** A text with some fields of the settings, in any order,
among any other members and in any spelling, is read as these fields and the defaults of the others;
so the compact form is read back. A text that repeats a field, or gives a numeric field a number
that is not a natural one up to its limit, is refused. -/
theorem ofText_document (s : Settings) :
    (∀ (fields : List Field) (others members : List (Option String × Document)) (text : String),
      fields.Nodup → (∀ m ∈ others, ∃ other, m.1 = some other ∧ ∀ f : Field, other ≠ f.name) →
      members.Perm (fields.map s.member ++ others) → (Document.object members).IsWritten text →
      ofText text = .ok (s.taking fields)) ∧
    ofText (render s) = .ok s ∧
    (∀ (f : Field) (members : List (Option String × Document)) (text : String),
      1 < (members.map Prod.fst).count (some f.name) → (Document.object members).IsWritten text →
      ofText text = .error (.configuration "invalid LISY config")) ∧
    ∀ (f : Field) (limit : ℕ) (l : Decimal.Literal) (document : Document) (text : String),
      f.limit? = some limit → Gives fieldNames f.name document (.number l) →
      (∀ n : ℕ, n ≤ limit → l.value ≠ n) → document.IsWritten text →
      ofText text = .error (.configuration "invalid LISY config") := by
  have hlisted : ∀ (fields : List Field) (others members : List (Option String × Document))
      (text : String), fields.Nodup →
      (∀ m ∈ others, ∃ other, m.1 = some other ∧ ∀ f : Field, other ≠ f.name) →
      members.Perm (fields.map s.member ++ others) → (Document.object members).IsWritten text →
      ofText text = .ok (s.taking fields) := by
    intro fields others members text hfields hothers hperm htext
    rw [ofText, ofText_of_isWritten htext, read?_of_perm hfields hothers hperm]
  refine ⟨hlisted, ?_, ?_, ?_⟩
  · have hall := hlisted Field.all [] (Field.all.map s.member) (render s) (by decide) nofun
      (by rw [List.append_nil]) s.isWritten_render
    rwa [taking_all] at hall
  · intro f members text hcount htext
    have hread : (JsonForm.read? (Document.object members) : Option Settings) = none := by
      change (fields? true fieldNames (.object members)).bind ofFields? = none
      rw [fields?_of_repeated f.name_mem hcount, Option.bind_none]
    rw [ofText, ofText_of_isWritten htext, hread]
  · intro f limit l document text hlimit hgives hvalue htext
    have hread : (JsonForm.read? document : Option Settings) = none := by
      rw [Option.eq_none_iff_forall_ne_some]
      intro s' hs'
      obtain ⟨n, hn, heq⟩ := value_of_read? hs' hlimit hgives
      exact hvalue n hn heq
    rw [ofText, ofText_of_isWritten htext, hread]

private theorem spaced_baud {l : Decimal.Literal} {cs : List Char} (h : Numeral l cs) :
    Spaced [.string (some "baud"), .colon, .number l] ("\"baud\":".toList ++ cs) :=
  (spelling_writeString "baud").spaced.append
    (Spelling.colon.spaced.append (Spelling.number h).spaced)

/-- A rate among other members, a rate that is given twice, and a negative one. -/
theorem ofText_document_baud :
    ofText "\x7b \"note\": [] ,\"baud\":9600\x7d" = .ok { default with baud := 9600 } ∧
      ofText "\x7b\"baud\":9600,\"baud\":9600\x7d" =
        .error (.configuration "invalid LISY config") ∧
      ofText "\x7b\"baud\":-1\x7d" = .error (.configuration "invalid LISY config") := by
  have hblank : IsGap [' '] := by simp [IsGap]
  have hrate := spaced_baud (numeral_writeNat 9600)
  have hminus : Numeral ⟨true, [1], [], none⟩ ['-', '1'] :=
    .intro ⟨by decide, by decide⟩ (by decide) .absent .absent
  have hnote : Spaced [.string (some "note"), .colon, .openBracket, .closeBracket, .comma]
      " \"note\": [] ,".toList :=
    ((spelling_writeString "note").spaced.gap_append hblank).append
      (Spelling.colon.spaced.append (((Spelling.openBracket.spaced.append
        Spelling.closeBracket.spaced).gap_append hblank).append
          (Spelling.comma.spaced.gap_append hblank)))
  have hclose := Spelling.closeBrace.spaced
  obtain ⟨hlisted, -, hrepeated, hwrong⟩ := ofText_document { default with baud := 9600 }
  refine ⟨?_, ?_, ?_⟩
  · have hother : ∀ f : Field, "note" ≠ f.name := by
      intro f
      cases f <;> decide
    exact hlisted [.baud] [(some "note", .array [])]
      [(some "note", .array []), (some "baud", .number (.ofNat 9600))] _ (by decide)
      (List.forall_mem_singleton.mpr ⟨"note", rfl, hother⟩) (.swap _ _ _)
      (Spelling.openBrace.spaced.append (hnote.append (hrate.append hclose)))
  · exact hrepeated .baud
      [(some "baud", .number (.ofNat 9600)), (some "baud", .number (.ofNat 9600))] _ (by decide)
      (Spelling.openBrace.spaced.append
        (hrate.append (Spelling.comma.spaced.append (hrate.append hclose))))
  · refine hwrong .baud (UInt32.size - 1) ⟨true, [1], [], none⟩
      (.object [(some "baud", .number ⟨true, [1], [], none⟩)]) _ rfl
      (.member List.mem_cons_self) (fun n _ hvalue ↦ ?_)
      (Spelling.openBrace.spaced.append ((spaced_baud hminus).append hclose))
    have hnonneg : (0 : ℚ) ≤ n := n.cast_nonneg
    rw [← hvalue] at hnonneg
    norm_num [Decimal.Literal.value, Nat.ofDigits] at hnonneg

end Settings

end PinballBoard
