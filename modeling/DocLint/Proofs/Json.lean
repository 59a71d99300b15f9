-- SUMMARY: Reading undoes writing: values made of texts, counts, truth values, arrays and objects come back from their compact text.
import DocLint.Proofs.JsonGrammar

/-! # JSON that is written and read

The compact text of a value is one of its spellings, so it is read back as that value, whatever
characters its strings have. It has no blanks outside strings, and inside them line feeds are
escaped, so it is one line.
-/

namespace DocLint.Json

/-! ## Strings -/

theorem hexValue?_hexDigit : ∀ n < 16, hexValue? (hexDigit n) = some n := by
  decide

theorem code?_unicodeEscape {code : Nat} (h : code < 0x20) :
    code? (hexDigit (code / 4096 % 16)) (hexDigit (code / 256 % 16)) (hexDigit (code / 16 % 16))
      (hexDigit (code % 16)) = some code := by
  have hdigit (n : Nat) : hexValue? (hexDigit (n % 16)) = some (n % 16) :=
    hexValue?_hexDigit _ (Nat.mod_lt _ (by decide))
  simp only [code?, hdigit, Option.pure_def, Option.bind_eq_bind, Option.bind_some,
    Option.some.injEq]
  omega

/-- However a character is written, that spells it. -/
theorem spelled_escapeChar (c : Char) : (Item.char c).Spelled (escapeChar c) := by
  by_cases hquote : c = '"'
  · subst hquote
    exact .letter (e := '"') rfl
  by_cases hslash : c = '\\'
  · subst hslash
    exact .letter (e := '\\') rfl
  unfold escapeChar
  rw [if_neg hquote, if_neg hslash]
  split
  · subst c
    exact .letter (e := 'b') rfl
  split
  · subst c
    exact .letter (e := 't') rfl
  split
  · subst c
    exact .letter (e := 'n') rfl
  split
  · subst c
    exact .letter (e := 'f') rfl
  split
  · subst c
    exact .letter (e := 'r') rfl
  split
  · rename_i hcode
    have hitem : Item.ofCode c.toNat = .char c := by
      rw [Item.ofCode, if_neg (by omega), Char.ofNat_toNat]
    rw [← hitem]
    exact .code (code?_unicodeEscape hcode)
  · rename_i hcode
    exact .plain hquote hslash hcode

/-- Every character is spelled, as itself or by an escape. -/
theorem spelledItems_write (text : List Char) :
    SpelledItems (text.map Item.char) ((text.map Item.char).flatMap Item.write) := by
  induction text with
  | nil => exact .nil
  | cons c text ih => exact .cons (spelled_escapeChar c) ih

theorem newline_notMem_escapeChar (c : Char) : '\n' ∉ escapeChar c := by
  have hdigit : ∀ n < 16, hexDigit n ≠ '\n' := by decide
  have hdigit (n : Nat) : '\n' ≠ hexDigit (n % 16) :=
    (hdigit _ (Nat.mod_lt _ (by decide))).symm
  unfold escapeChar unicodeEscape
  repeat' split
  all_goals simp_all [eq_comm]

/-- A newline in a text is escaped, so none is written. -/
theorem newline_notMem_writeString (text : List Char) :
    '\n' ∉ writeString (text.map Item.char) := by
  simp [writeString, Item.write, newline_notMem_escapeChar]

/-! ## Counts -/

theorem isDigit_of_mem_toDigits {n : Nat} {c : Char} (h : c ∈ Nat.toDigits 10 n) :
    isDigit c = true := by
  have hdigit := Nat.isDigit_of_mem_toDigits (by decide) (by decide) h
  simpa [isDigit, Char.isDigit, Char.le_def] using hdigit

/-- A count does not start with a zero unless it is zero. -/
theorem head?_toDigits_ne_zero {n : Nat} (h : 0 < n) :
    (Nat.toDigits 10 n).head? ≠ some '0' := by
  have hdigit : ∀ n < 10, 0 < n → n.digitChar ≠ '0' := by decide
  induction n using Nat.strongRecOn with
  | ind n ih =>
    rw [Nat.toDigits_eq_if (by decide)]
    split
    · rename_i hlt
      simpa using hdigit n hlt h
    · rw [List.head?_append, List.head?_eq_some_head Nat.toDigits_ne_nil, Option.some_or,
        ← List.head?_eq_some_head]
      exact ih (n / 10) (by omega) (by omega)

/-- The digits of a count are a number of the grammar: no zero in front. -/
theorem isNumber_toDigits (n : Nat) : IsNumber (Nat.toDigits 10 n) := by
  have hwhole : IsWhole (Nat.toDigits 10 n) := by
    cases n with
    | zero => exact .zero
    | succ n =>
      exact .digits ⟨Nat.toDigits_ne_nil, fun _ => isDigit_of_mem_toDigits⟩
        (head?_toDigits_ne_zero (Nat.succ_pos n))
  have hliteral := IsUnsigned.intro hwhole .none .none
  rw [List.append_nil, List.append_nil] at hliteral
  exact .positive hliteral

/-! ## Parts divided by commas -/

section Parts

variable {α : Type} {Part : α → List Char → Prop} {write : α → List Char}

theorem padded_self {a : α} {text : List Char} (h : Part a text) : Padded Part a text :=
  ⟨[], text, [], List.forall_mem_nil _, h, List.forall_mem_nil _, by simp⟩

/-- Parts divided by commas are parts between brackets, as the grammar has them. -/
theorem enclosed_intercalate {parts : List α} (h : ∀ a ∈ parts, Part a (write a)) :
    Enclosed Part parts ([','].intercalate (parts.map write)) := by
  cases parts with
  | nil => exact .none (List.forall_mem_nil _)
  | cons a parts =>
    refine .parts ?_
    induction parts generalizing a with
    | nil =>
      rw [List.map_singleton, List.intercalate_singleton]
      exact .last (padded_self (h a List.mem_cons_self))
    | cons b parts ih =>
      obtain ⟨ha, hlater⟩ := List.forall_mem_cons.mp h
      rw [List.map_cons, List.map_cons, List.intercalate_cons_cons, List.append_assoc,
        List.singleton_append, ← List.map_cons]
      exact .cons (padded_self ha) (ih b hlater)

theorem mem_intercalate {pieces : List (List Char)} {sep c : Char}
    (h : c ∈ [sep].intercalate pieces) : c = sep ∨ ∃ piece ∈ pieces, c ∈ piece := by
  induction pieces with
  | nil => simp at h
  | cons first pieces ih =>
    cases pieces with
    | nil => exact .inr ⟨first, by simp, by simpa using h⟩
    | cons second pieces =>
      rw [List.intercalate_cons_cons, List.append_assoc, List.mem_append, List.mem_append,
        List.mem_singleton] at h
      rcases h with h | h | h
      · exact .inr ⟨first, by simp, h⟩
      · exact .inl h
      · rcases ih h with h | ⟨piece, hpiece, h⟩
        · exact .inl h
        · exact .inr ⟨piece, List.mem_cons_of_mem _ hpiece, h⟩

end Parts

theorem writeElements_eq (elements : List Value) :
    writeElements elements = [','].intercalate (elements.map Value.write) := by
  induction elements with
  | nil => rfl
  | cons v rest ih =>
    cases rest with
    | nil => simp [writeElements]
    | cons w rest => simp [writeElements, ih, List.intercalate_cons_cons]

/-- How an entry of an object is written. -/
def writeEntry (e : List Item × Value) : List Char :=
  writeString e.1 ++ ':' :: e.2.write

theorem writeEntries_eq (entries : List (List Item × Value)) :
    writeEntries entries = [','].intercalate (entries.map writeEntry) := by
  induction entries with
  | nil => rfl
  | cons e rest ih =>
    cases rest with
    | nil => simp [writeEntries, writeEntry]
    | cons e' rest => simp [writeEntries, writeEntry, ih, List.intercalate_cons_cons]

/-! ## Values -/

/-- Values that records are made of: strings denote texts, and numbers are counts. -/
inductive Plain : Value → Prop where
  | bool (b : Bool) : Plain (.bool b)
  | ofNat (n : Nat) : Plain (.ofNat n)
  | ofText (text : String) : Plain (.ofText text)
  | array {elements : List Value} : (∀ v ∈ elements, Plain v) → Plain (.array elements)
  | ofFields {fields : List (String × Value)} :
    (∀ field ∈ fields, Plain field.2) → Plain (.ofFields fields)

/-- What is written for a plain value is a spelling of it. -/
theorem Plain.spelled_write {v : Value} (hv : Plain v) : Spelled v v.write := by
  rw [spelled_iff_level]
  induction hv with
  | bool b =>
    cases b with
    | false => exact .false
    | true => exact .true
  | ofNat n => exact .number (isNumber_toDigits n)
  | ofText text => exact .string (spelledItems_write text.toList)
  | array _ ih =>
    rw [Value.write, writeElements_eq]
    exact .array (enclosed_intercalate fun v hv => spelled_iff_level.mpr (ih v hv))
  | ofFields _ ih =>
    rw [Value.ofFields, Value.write, writeEntries_eq]
    refine .object (enclosed_intercalate fun e he => ?_)
    obtain ⟨⟨key, v⟩, hfield, rfl⟩ := List.mem_map.mp he
    have hentry := SpelledEntry.intro (spelledItems_write key.toList) (List.forall_mem_nil _)
      (List.forall_mem_nil _) (spelled_iff_level.mpr (ih _ hfield))
    simpa [writeEntry, writeString] using hentry

/-- A value is read back from its compact text. -/
theorem parse?_write {v : Value} (hv : Plain v) : parse? v.write = some v :=
  parse?_eq_some_iff.mpr (padded_self hv.spelled_write)

/-- The compact text of a value is one line. -/
theorem newline_notMem_write {v : Value} (hv : Plain v) : '\n' ∉ v.write := by
  induction hv with
  | bool b => cases b <;> decide
  | ofNat n => exact fun h => absurd (isDigit_of_mem_toDigits h) (by decide)
  | ofText text => exact newline_notMem_writeString _
  | @array elements _ ih =>
    rw [Value.write, writeElements_eq]
    intro h
    have h : '\n' ∈ [','].intercalate (elements.map Value.write) := by simpa using h
    rcases mem_intercalate h with h | ⟨piece, hpiece, h⟩
    · exact absurd h (by decide)
    · obtain ⟨v, hv, rfl⟩ := List.mem_map.mp hpiece
      exact ih v hv h
  | @ofFields fields _ ih =>
    rw [Value.ofFields, Value.write, writeEntries_eq]
    intro h
    have h := (List.mem_append.mp ((List.mem_cons.mp h).resolve_left (by decide))).resolve_right
      (by decide)
    rcases mem_intercalate h with h | ⟨piece, hpiece, h⟩
    · exact absurd h (by decide)
    · obtain ⟨e, he, rfl⟩ := List.mem_map.mp hpiece
      obtain ⟨⟨key, v⟩, hfield, rfl⟩ := List.mem_map.mp he
      rcases List.mem_append.mp h with h | h
      · exact newline_notMem_writeString _ h
      · exact ih _ hfield ((List.mem_cons.mp h).resolve_left (by decide))

end DocLint.Json
