-- SUMMARY: Which texts a defect is read from, and that writing it again gives one text for all of them.
import DocLint.Proofs.Records

/-! # One text for each defect

A defect can be read from many texts. They may be an object or an array, with keys in any order
and more keys than the two, with blanks and with any escapes. The path that is read is always
text, so nothing gets lost when the defect is written, and what has been written is read as the
same defect. A line number has only one spelling to begin with.
-/

namespace DocLint

namespace Json

/-! ## Counts -/

theorem Value.digit?_eq_some {c : Char} {d : Nat} (h : digit? c = some d) :
    d < 10 ∧ d.digitChar = c ∧ isDigit c = true := by
  unfold digit? at h
  split at h
  · rename_i hc
    obtain rfl := Option.some.inj h
    have hlower : '0'.toNat ≤ c.toNat := hc.1
    have hupper : c.toNat ≤ '9'.toNat := hc.2
    have hzero : '0'.toNat = 48 := rfl
    have hnine : '9'.toNat = 57 := rfl
    have hlt : c.toNat - '0'.toNat < 10 := by omega
    refine ⟨hlt, ?_, by simp [isDigit, hc]⟩
    rw [← Char.toNat_inj, Nat.toNat_digitChar_of_lt_ten hlt]
    omega
  · cases h

/-- The digits of a count are those that it is written with, unless they start with a zero. -/
theorem Value.eq_toDigits_of_natOfDigits? {digits : List Char} {n : Nat} (hne : digits ≠ [])
    (hhead : digits.head? ≠ some '0') (h : natOfDigits? digits = some n) :
    digits = Nat.toDigits 10 n := by
  induction digits using List.reverseRecOn generalizing n with
  | nil => exact absurd rfl hne
  | append_singleton front c ih =>
    rw [natOfDigits?_concat, Option.bind_eq_some_iff] at h
    obtain ⟨m, hm, h⟩ := h
    obtain ⟨d, hd, rfl⟩ := Option.map_eq_some_iff.mp h
    obtain ⟨hlt, rfl, _⟩ := digit?_eq_some hd
    by_cases hfront : front = []
    · subst hfront
      obtain rfl : 0 = m := Option.some.inj hm
      rw [Nat.zero_mul, Nat.zero_add, Nat.toDigits_of_lt_base hlt, List.nil_append]
    · have hfrontHead : front.head? ≠ some '0' := by
        rwa [List.head?_append_of_ne_nil _ hfront] at hhead
      obtain rfl := ih hfront hfrontHead hm
      have hpos : 0 < m := by
        refine Nat.pos_of_ne_zero ?_
        rintro rfl
        exact hfrontHead rfl
      have hdigits := Nat.toDigits_append_toDigits (b := 10) (by decide) hpos hlt
      rwa [Nat.toDigits_of_lt_base hlt, Nat.mul_comm] at hdigits

theorem Value.isDigit_of_natOfDigits? {digits : List Char} {n : Nat}
    (h : natOfDigits? digits = some n) : ∀ c ∈ digits, isDigit c = true := by
  induction digits using List.reverseRecOn generalizing n with
  | nil => exact List.forall_mem_nil _
  | append_singleton front c ih =>
    rw [natOfDigits?_concat, Option.bind_eq_some_iff] at h
    obtain ⟨m, hm, h⟩ := h
    obtain ⟨d, hd, _⟩ := Option.map_eq_some_iff.mp h
    simpa [or_imp, forall_and, (digit?_eq_some hd).2.2] using ih hm

/-- A number of digits only is a whole part. -/
theorem IsNumber.isWhole {literal : List Char} (h : IsNumber literal)
    (hdigits : ∀ c ∈ literal, isDigit c = true) : IsWhole literal := by
  cases h with
  | negative _ => exact absurd (hdigits '-' List.mem_cons_self) (by decide)
  | positive h =>
    obtain @⟨whole, fraction, exponent, hwhole, hfraction, hexponent⟩ := h
    cases hfraction with
    | digits _ => exact absurd (hdigits '.' (by simp)) (by decide)
    | none =>
      cases hexponent with
      | none => simpa using hwhole
      | digits he _ _ =>
        rcases he with rfl | rfl
        · exact absurd (hdigits 'e' (by simp)) (by decide)
        · exact absurd (hdigits 'E' (by simp)) (by decide)

/-- A count has one spelling. -/
theorem IsNumber.natOfDigits?_eq_some_iff {literal : List Char} (h : IsNumber literal) {n : Nat} :
    Value.natOfDigits? literal = some n ↔ literal = Nat.toDigits 10 n := by
  constructor
  · intro hn
    cases h.isWhole (Value.isDigit_of_natOfDigits? hn) with
    | zero =>
      obtain rfl : 0 = n := Option.some.inj hn
      rfl
    | digits hdigits hhead => exact Value.eq_toDigits_of_natOfDigits? hdigits.ne_nil hhead hn
  · rintro rfl
    exact Value.natOfDigits?_toDigits n

/-- What is read as a number is a number in its only spelling: no sign, no leading zero, no
    fraction. -/
theorem natBelow?_eq_some_iff {v : Value} {text : List Char} (h : Spelled v text) {bound n : Nat} :
    v.natBelow? bound = some n ↔ v = .ofNat n ∧ n < bound := by
  constructor
  · intro hn
    cases spelled_iff_level.mp h with
    | number hliteral =>
      obtain ⟨hn, hlt⟩ := Option.filter_eq_some_iff.mp hn
      rw [hliteral.natOfDigits?_eq_some_iff] at hn
      exact ⟨congrArg Value.number hn, by simpa using hlt⟩
    | _ => cases hn
  · rintro ⟨rfl, hlt⟩
    exact Value.natBelow?_ofNat hlt

/-! ## Values inside values -/

theorem Enclosed.exists_of_mem {α : Type} {Part : α → List Char → Prop} {as : List α}
    {text : List Char} (h : Enclosed Part as text) : ∀ a ∈ as, ∃ inner, Part a inner := by
  have hpadded {a : α} {text : List Char} (h : Padded Part a text) : ∃ inner, Part a inner := by
    obtain ⟨_, inner, _, _, hinner, _⟩ := h
    exact ⟨inner, hinner⟩
  cases h with
  | none _ => exact List.forall_mem_nil _
  | parts h =>
    induction h with
    | last h => exact List.forall_mem_singleton.mpr (hpadded h)
    | cons h _ ih => exact List.forall_mem_cons.mpr ⟨hpadded h, ih⟩

theorem Spelled.of_mem_array {elements : List Value} {text : List Char}
    (h : Spelled (.array elements) text) {v : Value} (hv : v ∈ elements) :
    ∃ inner, Spelled v inner := by
  cases spelled_iff_level.mp h with
  | array helements => exact helements.exists_of_mem v hv

theorem Spelled.of_mem_object {entries : List (List Item × Value)} {text : List Char}
    (h : Spelled (.object entries) text) {e : List Item × Value} (he : e ∈ entries) :
    ∃ inner, Spelled e.2 inner := by
  cases spelled_iff_level.mp h with
  | object hentries =>
    obtain ⟨_, hentry⟩ := hentries.exists_of_mem e he
    cases hentry with
    | intro _ _ _ hinner => exact ⟨_, hinner⟩

/-- The key has the value in the object, and no other one. -/
def Only (key : String) (entries : List (List Item × Value)) (v : Value) : Prop :=
  ∃ items, entries.filter (fun e => Item.text? e.1 = some key.toList) = [(items, v)]

theorem Only.exists_mem {key : String} {entries : List (List Item × Value)} {v : Value}
    (h : Only key entries v) : ∃ e ∈ entries, e.2 = v := by
  obtain ⟨items, hfilter⟩ := h
  have hmem : (items, v) ∈ entries.filter fun e => Item.text? e.1 = some key.toList := by
    simp [hfilter]
  exact ⟨_, (List.mem_filter.mp hmem).1, rfl⟩

end Json

/-! ## Values that a defect is read from -/

/-- The value is a string that denotes the text of the path. -/
inductive Path.Denoted (p : Path) : Json.Value → Prop where
  | string {items : List Json.Item} {name : List Char} : Json.Item.text? items = some name →
    p.bytes = Text.Utf8.encode name → Denoted p (.string items)

namespace Defect

/-- The value is an array of file and line, or an object that has both and maybe more. -/
inductive Denoted (d : Defect) : Json.Value → Prop where
  | array {file : Json.Value} : d.file.Denoted file → Denoted d (.array [file, .ofNat d.line])
  | object {entries : List (List Json.Item × Json.Value)} {file : Json.Value} :
    d.file.Denoted file → Json.Only "file" entries file →
    Json.Only "line" entries (.ofNat d.line) →
    (∀ e ∈ entries, (Json.Item.text? e.1).isSome = true) → Denoted d (.object entries)

theorem text?_eq_some_iff {file : Json.Value} {p : Path} :
    (∃ name, file.text? = some name ∧ Path.ofString name = p) ↔ p.Denoted file := by
  constructor
  · rintro ⟨name, hname, rfl⟩
    cases file with
    | string items =>
      obtain ⟨text, htext, rfl⟩ := Option.map_eq_some_iff.mp hname
      exact .string htext (by rw [Path.ofString, String.toList_ofList])
    | _ => cases hname
  · rintro ⟨htext, hbytes⟩
    refine ⟨_, congrArg (Option.map String.ofList) htext, ?_⟩
    rw [Path.ofString, String.toList_ofList, ← hbytes]

/-- A file and a line make a defect if the one denotes a path and the other is a number in range. -/
theorem ofParts?_eq_some_iff {file line : Json.Value} {text : List Char}
    (hline : Json.Spelled line text) {d : Defect} :
    ofParts? file line = some d ↔
      d.file.Denoted file ∧ line = .ofNat d.line ∧ d.line < lineBound := by
  rw [← text?_eq_some_iff, ← Json.natBelow?_eq_some_iff hline]
  simp only [ofParts?, Option.pure_def, Option.bind_eq_bind, Option.bind_eq_some_iff]
  constructor
  · rintro ⟨name, hname, n, hn, heq⟩
    cases heq
    exact ⟨⟨name, hname, rfl⟩, hn⟩
  · rintro ⟨⟨name, hname, hfile⟩, hn⟩
    exact ⟨name, hname, d.line, hn, by rw [hfile]⟩

section

variable {key : String} {entries : List (List Json.Item × Json.Value)}
  {fields : List (String × Json.Value)} {v : Json.Value}

theorem exists_fields_iff :
    (∃ fields, entries.mapM keyed? = some fields) ↔
      ∀ e ∈ entries, (Json.Item.text? e.1).isSome = true := by
  have hentry (e : List Json.Item × Json.Value) :
      (keyed? e).isSome = (Json.Item.text? e.1).isSome := Option.isSome_map
  simp only [Text.mapM_eq_some_iff, ← hentry]
  constructor
  · rintro ⟨fields, hfields⟩ e he
    have hmem : keyed? e ∈ fields.map some := hfields ▸ List.mem_map_of_mem he
    obtain ⟨field, _, hfield⟩ := List.mem_map.mp hmem
    rw [← hfield]
    rfl
  · intro h
    induction entries with
    | nil => exact ⟨[], rfl⟩
    | cons e entries ih =>
      obtain ⟨hfirst, hlater⟩ := List.forall_mem_cons.mp h
      obtain ⟨field, hfield⟩ := Option.isSome_iff_exists.mp hfirst
      obtain ⟨fields, hfields⟩ := ih hlater
      exact ⟨field :: fields, by rw [List.map_cons, hfield, hfields, List.map_cons]⟩

theorem map_keyed?_filter (key : String) (h : entries.map keyed? = fields.map some) :
    (entries.filter fun e => Json.Item.text? e.1 = some key.toList).map keyed? =
      (fields.filter (·.1 = key)).map some := by
  induction entries generalizing fields with
  | nil =>
    obtain rfl := List.map_eq_nil_iff.mp h.symm
    rfl
  | cons e entries ih =>
    cases fields with
    | nil => cases h
    | cons field fields =>
      obtain ⟨hfield, hrest⟩ := List.cons.inj h
      obtain ⟨text, htext, rfl⟩ := Option.map_eq_some_iff.mp hfield
      have hkey : text = key.toList ↔ String.ofList text = key := by
        constructor
        · rintro rfl
          exact String.ofList_toList
        · rintro rfl
          exact String.toList_ofList.symm
      by_cases hsame : String.ofList text = key
      · simp [htext, hkey, hsame, hfield, ih hrest]
      · simp [htext, hkey, hsame, ih hrest]

/-- A field is found exactly if its key stands in the object once. -/
theorem field?_eq_some_iff (h : entries.map keyed? = fields.map some) :
    field? key fields = some v ↔ Json.Only key entries v := by
  have hfilter := map_keyed?_filter key h
  have hfield : field? key fields = some v ↔ ∃ k, fields.filter (·.1 = key) = [(k, v)] := by
    rw [field?]
    split <;> simp_all
  rw [hfield]
  constructor
  · rintro ⟨k, hk⟩
    rw [hk] at hfilter
    obtain ⟨⟨items, v'⟩, he, hentry⟩ := List.map_eq_singleton_iff.mp hfilter
    obtain ⟨_, _, heq⟩ := Option.map_eq_some_iff.mp hentry
    cases heq
    exact ⟨items, he⟩
  · rintro ⟨items, hitems⟩
    rw [hitems] at hfilter
    obtain ⟨⟨k, v'⟩, hk, hentry⟩ := List.map_eq_singleton_iff.mp hfilter.symm
    obtain ⟨_, _, heq⟩ := Option.map_eq_some_iff.mp hentry.symm
    cases heq
    exact ⟨_, hk⟩

end

/-- What a value has to be to be read as a defect. -/
theorem ofJson?_eq_some_iff {v : Json.Value} {text : List Char} (hv : Json.Spelled v text)
    {d : Defect} : ofJson? v = some d ↔ d.line < lineBound ∧ d.Denoted v := by
  constructor
  · intro h
    cases v with
    | array elements =>
      rcases elements with _ | ⟨file, _ | ⟨line, _ | ⟨more, elements⟩⟩⟩
      · cases h
      · cases h
      · obtain ⟨_, hline⟩ := hv.of_mem_array (v := line) (by simp)
        obtain ⟨hfile, rfl, hlt⟩ := (ofParts?_eq_some_iff hline).mp h
        exact ⟨hlt, .array hfile⟩
      · cases h
    | object entries =>
      simp only [ofJson?_object, Option.bind_eq_some_iff] at h
      obtain ⟨fields, hfields, file, hfile, line, hline, h⟩ := h
      have hkeys := exists_fields_iff.mp ⟨fields, hfields⟩
      rw [Text.mapM_eq_some_iff] at hfields
      rw [field?_eq_some_iff hfields] at hfile hline
      obtain ⟨e, he, rfl⟩ := hline.exists_mem
      obtain ⟨_, hspelled⟩ := hv.of_mem_object he
      obtain ⟨hpath, hcount, hlt⟩ := (ofParts?_eq_some_iff hspelled).mp h
      rw [hcount] at hline
      exact ⟨hlt, .object hpath hfile hline hkeys⟩
    | _ => cases h
  · rintro ⟨hlt, h⟩
    cases h with
    | array hfile =>
      obtain ⟨_, hline⟩ := hv.of_mem_array (v := .ofNat d.line) (by simp)
      exact (ofParts?_eq_some_iff hline).mpr ⟨hfile, rfl, hlt⟩
    | @object entries file hpath hfile hline hkeys =>
      obtain ⟨fields, hread⟩ := exists_fields_iff.mpr hkeys
      have hfields := Text.mapM_eq_some_iff.mp hread
      obtain ⟨e, he, heq⟩ := hline.exists_mem
      obtain ⟨_, hspelled⟩ := hv.of_mem_object he
      rw [heq] at hspelled
      simp only [ofJson?_object, Option.bind_eq_some_iff]
      exact ⟨fields, hread, file, (field?_eq_some_iff hfields).mpr hfile, _,
        (field?_eq_some_iff hfields).mpr hline,
        (ofParts?_eq_some_iff hspelled).mpr ⟨hpath, rfl, hlt⟩⟩

/-! ## Texts that a defect is read from -/

/-- What a text has to be to be read as a defect. -/
theorem parse?_eq_some_iff {text : String} {d : Defect} :
    parse? text = some d ↔
      d.line < lineBound ∧ ∃ v, Json.Padded Json.Spelled v text.toList ∧ d.Denoted v := by
  rw [parse?, Option.bind_eq_some_iff]
  simp only [Json.parse?_eq_some_iff]
  have hvalue {v : Json.Value} (h : Json.Padded Json.Spelled v text.toList) :
      ofJson? v = some d ↔ d.line < lineBound ∧ d.Denoted v := by
    obtain ⟨_, inner, _, _, hinner, _⟩ := h
    exact ofJson?_eq_some_iff hinner
  constructor
  · rintro ⟨v, hv, h⟩
    obtain ⟨hlt, hdenoted⟩ := (hvalue hv).mp h
    exact ⟨hlt, v, hv, hdenoted⟩
  · rintro ⟨hlt, v, hv, hdenoted⟩
    exact ⟨v, hv, (hvalue hv).mpr ⟨hlt, hdenoted⟩⟩

/-- A path that JSON can denote is UTF-8. -/
theorem Denoted.exists_encode {d : Defect} {v : Json.Value} (h : d.Denoted v) :
    ∃ name, d.file.bytes = Text.Utf8.encode name := by
  have hfile {file : Json.Value} (h : d.file.Denoted file) :
      ∃ name, d.file.bytes = Text.Utf8.encode name := by
    obtain ⟨_, hbytes⟩ := h
    exact ⟨_, hbytes⟩
  cases h with
  | array h => exact hfile h
  | object h _ _ _ => exact hfile h

theorem plain_toJson (d : Defect) : Json.Plain d.toJson := by
  apply Json.Plain.ofFields
  simp only [List.forall_mem_cons]
  exact ⟨.ofText _, .ofNat _, by simp⟩

/-- A defect whose path is text is read back from what is written. -/
theorem parse?_render {d : Defect} {name : List Char} (hname : d.file.bytes = Text.Utf8.encode name)
    (hline : d.line < lineBound) : parse? d.toJson.render = some d := by
  have htext : Path.ofString d.file.text = d.file := by
    rw [Path.text, hname, Text.Utf8.lossy_encode, Path.ofString, String.toList_ofList, ← hname]
  rw [parse?, Json.Value.render, String.toList_ofList, Json.parse?_write d.plain_toJson,
    Option.bind_some, toJson, ofJson?_ofFields]
  simp [field?, ofParts?, Json.Value.natBelow?_ofNat hline, htext]

/-- A defect whose path is text is read back from what is written. The texts that it is read from
    are the spellings of an array of file and line, or of an object that has both and maybe more.
    From whichever of them it has been read, writing and reading it again gives the same defect,
    and writing it once more the same text. -/
theorem parse?_canonical :
    (∀ (d : Defect) (name : List Char), Text.Utf8.decode? d.file.bytes = some name →
      d.line < lineBound → parse? d.toJson.render = some d) ∧
    (∀ (text : String) (d : Defect), parse? text = some d ↔
      d.line < lineBound ∧ ∃ v, Json.Padded Json.Spelled v text.toList ∧ d.Denoted v) ∧
    ∀ (text : String) (d : Defect), parse? text = some d →
      parse? d.toJson.render = some d ∧
        (parse? d.toJson.render).map (fun again => again.toJson.render) = some d.toJson.render := by
  refine ⟨?_, fun text d => parse?_eq_some_iff, ?_⟩
  · intro d name hname hline
    exact parse?_render (Text.Utf8.decode?_eq_some_iff.mp hname) hline
  · intro text d h
    obtain ⟨hline, v, _, hdenoted⟩ := parse?_eq_some_iff.mp h
    obtain ⟨name, hname⟩ := hdenoted.exists_encode
    have hread := parse?_render hname hline
    exact ⟨hread, by rw [hread, Option.map_some]⟩

/-- The greatest line number, and a path with a line feed and a character that takes two escapes.
    The first text is an object with its keys in another order, one of them escaped and one more
    than the two, and the second text is an array. -/
theorem parse?_canonical_spellings :
    let d : Defect := ⟨.ofString "/😀\n", 18446744073709551615⟩
    let object := " \x7b\"line\" : 18446744073709551615 , \"x\":[\x7b\"file\":null\x7d],\r\n\t" ++
      "\"f\\u0069le\": \"\\/\\uD83D\\ude00\\u000a\"\x7d\n"
    let array := "[\"/😀\\n\",18446744073709551615]"
    parse? object = some d ∧ parse? array = some d ∧
    d.toJson.render = "\x7b\"file\":\"/😀\\n\",\"line\":18446744073709551615\x7d" ∧
    parse? d.toJson.render = some d := by
  intro d object array
  have hobject : parse? object = some d := by decide +kernel
  exact ⟨hobject, by decide +kernel, by decide +kernel, (parse?_canonical.2.2 object d hobject).1⟩

end Defect

end DocLint
