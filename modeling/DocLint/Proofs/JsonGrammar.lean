-- SUMMARY: The grammar of JSON: which texts spell a value, and that the reader takes exactly these.
import DocLint.Json.Reader

/-! # The grammar of JSON

One value has many spellings: blanks may stand around its parts, and a character of a string may
be escaped in several ways. The grammar says which texts spell a value, level by level, since a
value is made of values that nest less deep. The reader follows it. What it takes off the front of
a text spells the value that it returns, and if a text that spells a value is followed by
something that cannot go on with it, the reader takes all of that text.
-/

namespace DocLint.Json

variable {α : Type}

/-! ## The grammar -/

/-- The text is blank. -/
def Blank (text : List Char) : Prop :=
  ∀ c ∈ text, isBlank c = true

/-- The texts that spell an item of a string. -/
inductive Item.Spelled : Item → List Char → Prop where
  | plain {c : Char} : c ≠ '"' → c ≠ '\\' → ¬ c.toNat < 0x20 → Spelled (.char c) [c]
  | letter {e c : Char} : simpleEscape? e = some c → Spelled (.char c) ['\\', e]
  | code {a b c d : Char} {code : Nat} :
    code? a b c d = some code → Spelled (.ofCode code) ['\\', 'u', a, b, c, d]

/-- The texts that spell items one after another. -/
inductive SpelledItems : List Item → List Char → Prop where
  | nil : SpelledItems [] []
  | cons {item : Item} {items : List Item} {front text : List Char} :
    item.Spelled front → SpelledItems items text → SpelledItems (item :: items) (front ++ text)

/-- One or more digits. -/
structure IsDigits (text : List Char) : Prop where
  ne_nil : text ≠ []
  all_isDigit : ∀ c ∈ text, isDigit c = true

/-- The whole part of a number. -/
inductive IsWhole : List Char → Prop where
  | zero : IsWhole ['0']
  | digits {text : List Char} : IsDigits text → text.head? ≠ some '0' → IsWhole text

/-- The fraction of a number. -/
inductive IsFraction : List Char → Prop where
  | none : IsFraction []
  | digits {text : List Char} : IsDigits text → IsFraction ('.' :: text)

/-- The exponent of a number. -/
inductive IsExponent : List Char → Prop where
  | none : IsExponent []
  | digits {e : Char} {sign text : List Char} : e = 'e' ∨ e = 'E' →
    sign = [] ∨ sign = ['+'] ∨ sign = ['-'] → IsDigits text → IsExponent (e :: (sign ++ text))

/-- A number without its sign. -/
inductive IsUnsigned : List Char → Prop where
  | intro {whole fraction exponent : List Char} : IsWhole whole → IsFraction fraction →
    IsExponent exponent → IsUnsigned (whole ++ fraction ++ exponent)

/-- A number. -/
inductive IsNumber : List Char → Prop where
  | positive {literal : List Char} : IsUnsigned literal → IsNumber literal
  | negative {literal : List Char} : IsUnsigned literal → IsNumber ('-' :: literal)

section

variable (Part : α → List Char → Prop)

/-- A part with blanks around it. -/
def Padded (a : α) (text : List Char) : Prop :=
  ∃ before inner after, Blank before ∧ Part a inner ∧ Blank after ∧
    text = before ++ (inner ++ after)

/-- One or more parts divided by commas. -/
inductive Parts : List α → List Char → Prop where
  | last {a : α} {text : List Char} : Padded Part a text → Parts [a] text
  | cons {a : α} {as : List α} {text rest : List Char} :
    Padded Part a text → Parts as rest → Parts (a :: as) (text ++ ',' :: rest)

/-- What stands between brackets: parts or nothing. -/
inductive Enclosed : List α → List Char → Prop where
  | none {gap : List Char} : Blank gap → Enclosed [] gap
  | parts {as : List α} {text : List Char} : Parts Part as text → Enclosed as text

end

section

variable (Inner : Value → List Char → Prop)

/-- The texts that spell an entry of an object, given those that spell its value. -/
inductive SpelledEntry : List Item × Value → List Char → Prop where
  | intro {key : List Item} {name gap gap' text : List Char} {v : Value} :
    SpelledItems key name → Blank gap → Blank gap' → Inner v text →
    SpelledEntry (key, v) ('"' :: (name ++ '"' :: (gap ++ ':' :: (gap' ++ text))))

/-- The texts that spell a value, given those that spell the values inside it. -/
inductive Level : Value → List Char → Prop where
  | null : Level .null ['n', 'u', 'l', 'l']
  | true : Level (.bool true) ['t', 'r', 'u', 'e']
  | false : Level (.bool false) ['f', 'a', 'l', 's', 'e']
  | number {literal : List Char} : IsNumber literal → Level (.number literal) literal
  | string {items : List Item} {text : List Char} : SpelledItems items text →
    Level (.string items) ('"' :: (text ++ ['"']))
  | array {elements : List Value} {text : List Char} : Enclosed Inner elements text →
    Level (.array elements) ('[' :: (text ++ [']']))
  | object {entries : List (List Item × Value)} {text : List Char} :
    Enclosed (SpelledEntry Inner) entries text →
    Level (.object entries) ('\x7b' :: (text ++ ['\x7d']))

end

/-- The texts that spell a value which nests at most as deep as the given number. -/
def SpelledWithin : Nat → Value → List Char → Prop
  | 0 => fun _ _ => False
  | depth + 1 => Level (SpelledWithin depth)

/-- The texts that spell a value. -/
def Spelled (v : Value) (text : List Char) : Prop :=
  ∃ depth, SpelledWithin depth v text

/-! ## Where parts start and end -/

/-- What may come after a part: nothing, a blank, a comma or a closing bracket. -/
def Ends (rest : List Char) : Prop :=
  ∀ c ∈ rest.head?, isBlank c = true ∨ c = ',' ∨ c = ']' ∨ c = '\x7d'

/-- What a part starts with: neither a blank nor what may come after a part. -/
def Opens (text : List Char) : Prop :=
  ∃ c tail, text = c :: tail ∧ isBlank c = false ∧ c ≠ ',' ∧ c ≠ ']' ∧ c ≠ '\x7d'

theorem exists_blank_skipBlank (text : List Char) :
    ∃ blank, Blank blank ∧ text = blank ++ skipBlank text := by
  refine ⟨text.takeWhile isBlank, ?_, List.takeWhile_append_dropWhile.symm⟩
  exact List.all_eq_true.mp List.all_takeWhile

theorem Blank.skipBlank_append {blank : List Char} (h : Blank blank) (rest : List Char) :
    skipBlank (blank ++ rest) = skipBlank rest :=
  List.dropWhile_append_of_pos h

theorem Opens.skipBlank_append {text : List Char} (h : Opens text) (rest : List Char) :
    skipBlank (text ++ rest) = text ++ rest := by
  obtain ⟨c, tail, rfl, hblank, _⟩ := h
  simp [skipBlank, hblank]

theorem ends_nil : Ends [] := by
  simp [Ends]

theorem ends_cons {c : Char} (h : c = ',' ∨ c = ']' ∨ c = '\x7d') (rest : List Char) :
    Ends (c :: rest) := by
  simpa [Ends] using .inr h

/-- Blanks in front change nothing about where a value ends. -/
theorem Ends.blank_append {blank rest : List Char} (hblank : Blank blank) (h : Ends rest) :
    Ends (blank ++ rest) := by
  cases blank with
  | nil => exact h
  | cons c blank =>
    intro d hd
    obtain rfl : c = d := by simpa using hd
    exact .inl (hblank c List.mem_cons_self)

/-- Nothing that may come after a part goes on with a number. -/
theorem Ends.stops {rest : List Char} (h : Ends rest) :
    ∀ c ∈ rest.head?, isDigit c = false ∧ c ≠ '.' ∧ c ≠ 'e' ∧ c ≠ 'E' := by
  intro c hc
  rcases h c hc with hblank | rfl | rfl | rfl
  · have hcases : ((c = ' ' ∨ c = '\t') ∨ c = '\n') ∨ c = '\r' := by simpa [isBlank] using hblank
    rcases hcases with ((rfl | rfl) | rfl) | rfl <;> decide
  · decide
  · decide
  · decide

theorem opens_of_isDigit {c : Char} (h : isDigit c = true) (tail : List Char) :
    Opens (c :: tail) := by
  have hne {d : Char} (hd : isDigit d = false) : c ≠ d := by
    rintro rfl
    rw [h] at hd
    cases hd
  refine ⟨c, tail, rfl, ?_, hne rfl, hne rfl, hne rfl⟩
  simp [isBlank, hne (d := ' ') rfl, hne (d := '\t') rfl, hne (d := '\n') rfl,
    hne (d := '\r') rfl]

/-- The reader takes a part off the front of a text exactly if the text starts with one. -/
structure Takes (part : Reader α) (Part : α → List Char → Prop) : Prop where
  opens {a : α} {text : List Char} : Part a text → Opens text
  sound {text rest : List Char} {a : α} :
    part text = some (a, rest) → ∃ front, Part a front ∧ text = front ++ rest
  complete {a : α} {front rest : List Char} :
    Part a front → Ends rest → part (front ++ rest) = some (a, rest)

/-! ## Numbers -/

theorem readDigits_sound {text digits rest : List Char}
    (h : readDigits text = some (digits, rest)) : IsDigits digits ∧ text = digits ++ rest := by
  rw [readDigits] at h
  split at h
  · cases h
  · rename_i hne
    cases h
    exact ⟨⟨hne, List.all_eq_true.mp List.all_takeWhile⟩, List.takeWhile_append_dropWhile.symm⟩

theorem IsDigits.readDigits_append {digits rest : List Char} (h : IsDigits digits)
    (hrest : ∀ c ∈ rest.head?, isDigit c = false) :
    readDigits (digits ++ rest) = some (digits, rest) := by
  have hstop : rest.takeWhile isDigit = [] ∧ rest.dropWhile isDigit = rest := by
    cases rest with
    | nil => exact ⟨rfl, rfl⟩
    | cons c rest =>
      have hc := hrest c rfl
      simp [hc]
  rw [readDigits, List.takeWhile_append_of_pos h.all_isDigit, List.dropWhile_append_of_pos h.all_isDigit,
    hstop.1, hstop.2, List.append_nil]
  split
  · exact absurd rfl h.ne_nil
  · rfl

/-- What is taken for the whole part of a number is one, so it has no zero in front. -/
theorem readWhole_sound {text whole rest : List Char} (h : readWhole text = some (whole, rest)) :
    IsWhole whole ∧ text = whole ++ rest := by
  rw [readWhole.eq_def] at h
  split at h
  · cases h
    exact ⟨.zero, rfl⟩
  · rename_i hzero
    obtain ⟨hdigits, rfl⟩ := readDigits_sound h
    refine ⟨.digits hdigits ?_, rfl⟩
    intro hhead
    obtain ⟨tail, rfl⟩ := List.head?_eq_some_iff.mp hhead
    exact hzero (tail ++ rest) rfl

theorem IsWhole.readWhole_append {whole rest : List Char} (h : IsWhole whole)
    (hrest : ∀ c ∈ rest.head?, isDigit c = false) :
    readWhole (whole ++ rest) = some (whole, rest) := by
  cases h with
  | zero => rfl
  | digits hdigits hhead =>
    rw [readWhole]
    · exact hdigits.readDigits_append hrest
    · intro tail heq
      cases whole with
      | nil => exact absurd rfl hdigits.ne_nil
      | cons c whole => simp_all

/-- A fraction that is taken has a digit after its point. -/
theorem readFraction_sound {text fraction rest : List Char}
    (h : readFraction text = some (fraction, rest)) :
    IsFraction fraction ∧ text = fraction ++ rest := by
  rw [readFraction.eq_def] at h
  split at h
  · obtain ⟨⟨digits, tail⟩, hread, heq⟩ := Option.map_eq_some_iff.mp h
    cases heq
    obtain ⟨hdigits, rfl⟩ := readDigits_sound hread
    exact ⟨.digits hdigits, rfl⟩
  · cases h
    exact ⟨.none, rfl⟩

theorem IsFraction.readFraction_append {fraction rest : List Char} (h : IsFraction fraction)
    (hrest : ∀ c ∈ rest.head?, isDigit c = false ∧ c ≠ '.') :
    readFraction (fraction ++ rest) = some (fraction, rest) := by
  cases h with
  | none =>
    rw [List.nil_append, readFraction]
    rintro tail rfl
    exact (hrest '.' rfl).2 rfl
  | digits hdigits =>
    rw [List.cons_append, readFraction, hdigits.readDigits_append fun c hc => (hrest c hc).1]
    rfl

theorem readSign_sound {text sign rest : List Char} (h : readSign text = (sign, rest)) :
    (sign = [] ∨ sign = ['+'] ∨ sign = ['-']) ∧ text = sign ++ rest := by
  rw [readSign.eq_def] at h
  split at h <;> cases h <;> simp

theorem readSign_append {sign text : List Char} (hsign : sign = [] ∨ sign = ['+'] ∨ sign = ['-'])
    (htext : IsDigits text) (rest : List Char) :
    readSign (sign ++ (text ++ rest)) = (sign, text ++ rest) := by
  rcases hsign with rfl | rfl | rfl
  · cases text with
    | nil => exact absurd rfl htext.ne_nil
    | cons c text =>
      have hdigit := htext.all_isDigit c List.mem_cons_self
      rw [List.nil_append, List.cons_append, readSign]
      · rintro tail heq
        cases heq
        cases hdigit
      · rintro tail heq
        cases heq
        cases hdigit
  · rfl
  · rfl

/-- An exponent that is taken has a digit after its sign. -/
theorem readExponent_sound {text exponent rest : List Char}
    (h : readExponent text = some (exponent, rest)) :
    IsExponent exponent ∧ text = exponent ++ rest := by
  rw [readExponent.eq_def] at h
  split at h
  · split at h
    · rename_i c tail he
      cases hread : readSign tail with
      | mk sign tail' =>
        obtain ⟨hsign, rfl⟩ := readSign_sound hread
        rw [hread] at h
        obtain ⟨⟨digits, rest'⟩, hread, heq⟩ := Option.map_eq_some_iff.mp h
        cases heq
        obtain ⟨hdigits, rfl⟩ := readDigits_sound hread
        exact ⟨.digits he hsign hdigits, by simp⟩
    · cases h
      exact ⟨.none, rfl⟩
  · cases h
    exact ⟨.none, rfl⟩

theorem IsExponent.readExponent_append {exponent rest : List Char} (h : IsExponent exponent)
    (hrest : ∀ c ∈ rest.head?, isDigit c = false ∧ c ≠ 'e' ∧ c ≠ 'E') :
    readExponent (exponent ++ rest) = some (exponent, rest) := by
  cases h with
  | none =>
    cases rest with
    | nil => rfl
    | cons c rest =>
      obtain ⟨_, hlower, hupper⟩ := hrest c rfl
      simp [readExponent, hlower, hupper]
  | digits he hsign htext =>
    rw [List.cons_append, List.append_assoc, readExponent, if_pos he,
      readSign_append hsign htext]
    simp [htext.readDigits_append fun c hc => (hrest c hc).1]

theorem readUnsigned_sound {text literal rest : List Char}
    (h : readUnsigned text = some (literal, rest)) :
    IsUnsigned literal ∧ text = literal ++ rest := by
  simp only [readUnsigned, Option.bind_eq_bind, Option.bind_eq_some_iff] at h
  obtain ⟨⟨whole, _⟩, hread₁, ⟨fraction, _⟩, hread₂, ⟨exponent, _⟩, hread₃, heq⟩ := h
  cases heq
  obtain ⟨hwhole, rfl⟩ := readWhole_sound hread₁
  obtain ⟨hfraction, rfl⟩ := readFraction_sound hread₂
  obtain ⟨hexponent, rfl⟩ := readExponent_sound hread₃
  exact ⟨.intro hwhole hfraction hexponent, by simp⟩

/-- A number is taken whole if what follows can end a value. -/
theorem IsUnsigned.readUnsigned_append {literal rest : List Char} (h : IsUnsigned literal)
    (hrest : Ends rest) : readUnsigned (literal ++ rest) = some (literal, rest) := by
  obtain @⟨whole, fraction, exponent, hwhole, hfraction, hexponent⟩ := h
  have hafterFraction : ∀ c ∈ (exponent ++ rest).head?, isDigit c = false ∧ c ≠ '.' := by
    cases hexponent with
    | none => exact fun c hc => ⟨(hrest.stops c hc).1, (hrest.stops c hc).2.1⟩
    | digits he _ _ => rcases he with rfl | rfl <;> simp [isDigit]
  have hafterWhole : ∀ c ∈ (fraction ++ (exponent ++ rest)).head?, isDigit c = false := by
    cases hfraction with
    | none => exact fun c hc => (hafterFraction c hc).1
    | digits _ => simp [isDigit]
  have hstops : ∀ c ∈ rest.head?, isDigit c = false ∧ c ≠ 'e' ∧ c ≠ 'E' :=
    fun c hc => ⟨(hrest.stops c hc).1, (hrest.stops c hc).2.2⟩
  simp [readUnsigned, hwhole.readWhole_append hafterWhole,
    hfraction.readFraction_append hafterFraction, hexponent.readExponent_append hstops]

theorem IsUnsigned.exists_digit {literal : List Char} (h : IsUnsigned literal) :
    ∃ c tail, literal = c :: tail ∧ isDigit c = true := by
  obtain @⟨whole, _, _, hwhole, _, _⟩ := h
  cases hwhole with
  | zero => exact ⟨'0', _, rfl, rfl⟩
  | digits hdigits _ =>
    cases whole with
    | nil => exact absurd rfl hdigits.ne_nil
    | cons c tail => exact ⟨c, _, rfl, hdigits.all_isDigit c List.mem_cons_self⟩

theorem readNumber_sound {text rest : List Char} {v : Value}
    (h : readNumber text = some (v, rest)) :
    ∃ literal, v = .number literal ∧ IsNumber literal ∧ text = literal ++ rest := by
  rw [readNumber.eq_def] at h
  split at h
  · obtain ⟨⟨literal, _⟩, hread, heq⟩ := Option.map_eq_some_iff.mp h
    cases heq
    obtain ⟨hliteral, rfl⟩ := readUnsigned_sound hread
    exact ⟨_, rfl, .negative hliteral, rfl⟩
  · obtain ⟨⟨literal, _⟩, hread, heq⟩ := Option.map_eq_some_iff.mp h
    cases heq
    obtain ⟨hliteral, rfl⟩ := readUnsigned_sound hread
    exact ⟨_, rfl, .positive hliteral, rfl⟩

theorem IsNumber.readNumber_append {literal rest : List Char} (h : IsNumber literal)
    (hrest : Ends rest) : readNumber (literal ++ rest) = some (.number literal, rest) := by
  cases h with
  | positive hliteral =>
    rw [readNumber, hliteral.readUnsigned_append hrest]
    · rfl
    · intro tail heq
      obtain ⟨c, digits, rfl, hdigit⟩ := hliteral.exists_digit
      cases heq
      cases hdigit
  | negative hliteral =>
    rw [List.cons_append, readNumber, hliteral.readUnsigned_append hrest]
    rfl

/-! ## Strings -/

/-- What is taken for the inside of a string is one, up to its quotation mark. -/
theorem readItems_sound {text rest : List Char} {items : List Item}
    (h : readItems text = some (items, rest)) :
    ∃ front, SpelledItems items front ∧ text = front ++ '"' :: rest := by
  fun_induction readItems text generalizing items rest with
  | case1 tail =>
    cases h
    exact ⟨[], .nil, rfl⟩
  | case2 a b c d tail ih =>
    simp only [Option.bind_eq_bind, Option.bind_eq_some_iff] at h
    obtain ⟨code, hcode, ⟨items, _⟩, hread, heq⟩ := h
    cases heq
    obtain ⟨front, hfront, rfl⟩ := ih hread
    exact ⟨_, .cons (.code hcode) hfront, rfl⟩
  | case3 e tail _ ih =>
    simp only [Option.bind_eq_bind, Option.bind_eq_some_iff] at h
    obtain ⟨c, hletter, ⟨items, _⟩, hread, heq⟩ := h
    cases heq
    obtain ⟨front, hfront, rfl⟩ := ih hread
    exact ⟨_, .cons (.letter hletter) hfront, rfl⟩
  | case4 c tail => cases h
  | case5 c tail hquote _ _ hplain ih =>
    obtain ⟨⟨items, _⟩, hread, heq⟩ := Option.map_eq_some_iff.mp h
    cases heq
    obtain ⟨front, hfront, rfl⟩ := ih hread
    obtain ⟨hcode, hslash⟩ := not_or.mp hplain
    exact ⟨_, .cons (.plain hquote hslash hcode) hfront, rfl⟩
  | case6 => cases h

/-- One item of a string is taken in one step, whatever follows it. -/
theorem Item.Spelled.readItems_append {item : Item} {front : List Char} (h : item.Spelled front)
    (rest : List Char) :
    readItems (front ++ rest) =
      (readItems rest).map fun (items, rest) => (item :: items, rest) := by
  cases h with
  | plain hquote hslash hcode =>
    rw [List.singleton_append, readItems]
    · simp [hcode, hslash]
    · exact hquote
    · exact fun _ _ _ _ _ heq => absurd heq hslash
    · exact fun _ _ heq => absurd heq hslash
  | @letter e c hletter =>
    have hu : e ≠ 'u' := by
      rintro rfl
      cases hletter
    rw [List.cons_append, List.singleton_append, readItems]
    · rw [hletter]
      cases readItems rest <;> rfl
    · exact fun _ _ _ _ _ heq => absurd heq hu
  | code hcode =>
    simp only [List.cons_append, List.nil_append, readItems, hcode, Option.bind_eq_bind,
      Option.bind_some]
    cases readItems rest <;> rfl

/-- A string of the grammar is taken up to its quotation mark. -/
theorem SpelledItems.readItems_append {items : List Item} {text : List Char}
    (h : SpelledItems items text) (rest : List Char) :
    readItems (text ++ '"' :: rest) = some (items, rest) := by
  induction h with
  | nil => rfl
  | cons hitem _ ih =>
    rw [List.append_assoc, hitem.readItems_append, ih]
    rfl

/-! ## Parts divided by commas -/

section Parts

variable {part : Reader α} {Part : α → List Char → Prop} {close : Char} {as : List α}

/-- A reader of parts may skip the blanks around a part. -/
theorem Takes.exists_padded (hpart : Takes part Part) {text rest : List Char} {a : α}
    (h : part (skipBlank text) = some (a, rest)) :
    ∃ front, Padded Part a front ∧ text = front ++ skipBlank rest := by
  obtain ⟨before, hbefore, htext⟩ := exists_blank_skipBlank text
  obtain ⟨inner, hinner, hskip⟩ := hpart.sound h
  obtain ⟨after, hafter, hrest⟩ := exists_blank_skipBlank rest
  refine ⟨_, ⟨before, inner, after, hbefore, hinner, hafter, rfl⟩, ?_⟩
  rw [List.append_assoc, List.append_assoc, ← hrest, ← hskip, ← htext]

theorem Takes.read_padded (hpart : Takes part Part) {a : α} {front : List Char}
    (h : Padded Part a front) {rest : List Char} (hrest : Ends rest)
    (hskip : skipBlank rest = rest) :
    ∃ tail, part (skipBlank (front ++ rest)) = some (a, tail) ∧ skipBlank tail = rest := by
  obtain ⟨before, inner, after, hbefore, hinner, hafter, rfl⟩ := h
  refine ⟨after ++ rest, ?_, ?_⟩
  · rw [List.append_assoc, List.append_assoc, hbefore.skipBlank_append,
      (hpart.opens hinner).skipBlank_append]
    exact hpart.complete hinner (hrest.blank_append hafter)
  · rw [hafter.skipBlank_append, hskip]

/-- The parts that are taken one by one are parts divided by commas. -/
theorem readParts_sound (hpart : Takes part Part) {n : Nat} {text rest : List Char}
    (h : readParts part close n text = some (as, rest)) :
    ∃ front, Parts Part as front ∧ text = front ++ close :: rest := by
  induction n generalizing text as with
  | zero => cases h
  | succ n ih =>
    simp only [readParts, Option.bind_eq_bind, Option.bind_eq_some_iff] at h
    obtain ⟨⟨a, tail⟩, hread, h⟩ := h
    obtain ⟨front, hfront, rfl⟩ := hpart.exists_padded hread
    cases hskip : skipBlank tail with
    | nil =>
      rw [hskip] at h
      cases h
    | cons c tail =>
      simp only [hskip] at h
      split at h
      · rename_i hclose
        cases h
        exact ⟨front, .last hfront, by rw [hclose]⟩
      · split at h
        · rename_i hcomma
          obtain ⟨⟨later, _⟩, hlater, heq⟩ := Option.bind_eq_some_iff.mp h
          cases heq
          obtain ⟨second, hsecond, rfl⟩ := ih hlater
          exact ⟨_, .cons hfront hsecond, by simp [hcomma]⟩
        · cases h

/-- Parts divided by commas are all taken, if there are turns enough. -/
theorem Parts.readParts_append (hpart : Takes part Part) (hclose : close = ']' ∨ close = '\x7d')
    {text : List Char} (h : Parts Part as text) {n : Nat} (hn : as.length ≤ n)
    (rest : List Char) : readParts part close n (text ++ close :: rest) = some (as, rest) := by
  have hskip : skipBlank (close :: rest) = close :: rest := by
    rcases hclose with rfl | rfl <;> rfl
  have hcomma : ',' ≠ close := by
    rcases hclose with rfl | rfl <;> decide
  induction h generalizing n with
  | last hfront =>
    obtain ⟨n, rfl⟩ := Nat.exists_eq_add_of_le' hn
    obtain ⟨tail, hread, htail⟩ :=
      hpart.read_padded hfront (ends_cons (.inr hclose) rest) hskip
    simp [readParts, hread, htail]
  | @cons a as front text hfront _ ih =>
    obtain ⟨n, rfl⟩ := Nat.exists_eq_add_of_le' (Nat.le_trans (by simp) hn : 1 ≤ n)
    obtain ⟨tail, hread, htail⟩ :=
      hpart.read_padded hfront (ends_cons (.inl rfl) (text ++ close :: rest)) rfl
    have hlater := ih (Nat.le_of_succ_le_succ hn)
    simp [readParts, hread, htail, hcomma, hlater]

/-- Parts that are not empty are at most as many as their characters. -/
theorem Parts.length_le (hopens : ∀ {a text}, Part a text → Opens text) {text : List Char}
    (h : Parts Part as text) : as.length ≤ text.length := by
  have hone {a : α} {text : List Char} (h : Padded Part a text) : 1 ≤ text.length := by
    obtain ⟨before, inner, after, _, hinner, _, rfl⟩ := h
    obtain ⟨c, tail, rfl, _⟩ := hopens hinner
    simp only [List.length_append, List.length_cons]
    omega
  induction h with
  | last hfront => exact hone hfront
  | cons hfront _ ih =>
    have := hone hfront
    simp only [List.length_append, List.length_cons]
    omega

theorem Parts.exists_skipBlank (hopens : ∀ {a text}, Part a text → Opens text) {text : List Char}
    (h : Parts Part as text) (rest : List Char) :
    ∃ c tail, skipBlank (text ++ rest) = c :: tail ∧ c ≠ ']' ∧ c ≠ '\x7d' := by
  have hfirst {a : α} {text : List Char} (h : Padded Part a text) (rest : List Char) :
      ∃ c tail, skipBlank (text ++ rest) = c :: tail ∧ c ≠ ']' ∧ c ≠ '\x7d' := by
    obtain ⟨before, inner, after, hbefore, hinner, _, rfl⟩ := h
    have hskip := (hopens hinner).skipBlank_append (after ++ rest)
    obtain ⟨c, tail, rfl, _, _, hsquare, hbrace⟩ := hopens hinner
    refine ⟨c, tail ++ (after ++ rest), ?_, hsquare, hbrace⟩
    rw [List.append_assoc, hbefore.skipBlank_append, List.append_assoc, hskip, List.cons_append]
  cases h with
  | last h => exact hfirst h rest
  | cons h _ =>
    rw [List.append_assoc]
    exact hfirst h _

/-- What is taken up to the closing bracket is nothing, or parts divided by commas. -/
theorem readClosed_eq_some_iff (hpart : Takes part Part) (hclose : close = ']' ∨ close = '\x7d')
    {text rest : List Char} :
    readClosed part close text = some (as, rest) ↔
      ∃ front, Enclosed Part as front ∧ text = front ++ close :: rest := by
  constructor
  · intro h
    rw [readClosed] at h
    split at h
    · cases h
    · rename_i c tail hskip
      split at h
      · rename_i hclose
        cases h
        obtain ⟨gap, hgap, heq⟩ := exists_blank_skipBlank text
        exact ⟨gap, .none hgap, by rw [heq, hskip, hclose]⟩
      · obtain ⟨front, hfront, rfl⟩ := readParts_sound hpart h
        exact ⟨front, .parts hfront, rfl⟩
  · rintro ⟨front, hfront, rfl⟩
    cases hfront with
    | none hgap =>
      have hskip : skipBlank (close :: rest) = close :: rest := by
        rcases hclose with rfl | rfl <;> rfl
      simp [readClosed, hgap.skipBlank_append, hskip]
    | parts hparts =>
      obtain ⟨c, tail, hskip, hsquare, hbrace⟩ :=
        hparts.exists_skipBlank hpart.opens (close :: rest)
      have hne : c ≠ close := by
        rcases hclose with rfl | rfl <;> assumption
      have hlength := hparts.length_le hpart.opens
      simp only [readClosed, hskip, if_neg hne]
      apply hparts.readParts_append hpart hclose
      simp only [List.length_append, List.length_cons]
      omega

end Parts

/-! ## Values -/

theorem readWord_eq_some_iff {word : String} {v value : Value} {text rest : List Char} :
    readWord word value text = some (v, rest) ↔ v = value ∧ text = word.toList ++ rest := by
  rw [readWord, ← String.length_toList]
  constructor
  · intro h
    split at h
    · rename_i hword
      cases h
      obtain ⟨tail, rfl⟩ := List.isPrefixOf_iff_prefix.mp hword
      exact ⟨rfl, by rw [List.drop_left]⟩
    · cases h
  · rintro ⟨rfl, rfl⟩
    rw [if_pos (List.isPrefixOf_iff_prefix.mpr (List.prefix_append _ _)), List.drop_left]

/-- If values are read by their grammar, so are the entries of an object. -/
theorem Takes.entry {value : Reader Value} {Inner : Value → List Char → Prop}
    (hvalue : Takes value Inner) : Takes (readEntry value) (SpelledEntry Inner) where
  opens := by
    rintro _ _ ⟨_, _, _, _⟩
    exact ⟨'"', _, rfl, by decide⟩
  sound := by
    intro text rest e h
    rw [readEntry.eq_def] at h
    split at h
    · rename_i tail
      simp only [Option.bind_eq_bind, Option.bind_eq_some_iff] at h
      obtain ⟨⟨key, afterKey⟩, hkey, h⟩ := h
      obtain ⟨name, hname, rfl⟩ := readItems_sound hkey
      obtain ⟨gap, hgap, hafterKey⟩ := exists_blank_skipBlank afterKey
      split at h
      · rename_i afterColon hcolon
        obtain ⟨⟨v, _⟩, hread, heq⟩ := Option.bind_eq_some_iff.mp h
        cases heq
        obtain ⟨gap', hgap', hafterColon⟩ := exists_blank_skipBlank afterColon
        obtain ⟨inner, hinner, hvalueText⟩ := hvalue.sound hread
        refine ⟨_, .intro hname hgap hgap' hinner, ?_⟩
        rw [hafterKey, hcolon, hafterColon, hvalueText]
        simp
      · cases h
    · cases h
  complete := by
    rintro _ _ rest ⟨hname, hgap, hgap', hinner⟩ hrest
    have hskip (tail : List Char) : skipBlank (':' :: tail) = ':' :: tail := rfl
    simp only [List.cons_append, List.append_assoc, readEntry, hname.readItems_append,
      Option.bind_eq_bind, Option.bind_some, hgap.skipBlank_append, hskip,
      hgap'.skipBlank_append, (hvalue.opens hinner).skipBlank_append,
      hvalue.complete hinner hrest, Option.pure_def]

theorem readValue_number {c : Char} (h : isDigit c = true ∨ c = '-') (depth : Nat)
    (rest : List Char) : readValue (depth + 1) (c :: rest) = readNumber (c :: rest) := by
  have hne {d : Char} (hd : isDigit d = false) (hminus : d ≠ '-') (tail : List Char) :
      c :: rest ≠ d :: tail := by
    intro heq
    obtain ⟨rfl, _⟩ := List.cons.inj heq
    rcases h with h | h
    · rw [h] at hd
      cases hd
    · exact hminus h
  rw [readValue]
  all_goals exact hne rfl (by decide)

theorem IsNumber.exists_head {literal : List Char} (h : IsNumber literal) :
    ∃ c tail, literal = c :: tail ∧ (isDigit c = true ∨ c = '-') := by
  cases h with
  | positive h =>
    obtain ⟨c, tail, heq, hdigit⟩ := h.exists_digit
    exact ⟨c, tail, heq, .inl hdigit⟩
  | negative h => exact ⟨'-', _, rfl, .inr rfl⟩

/-- If the reader takes what is inside a value, it takes the value. -/
theorem Takes.level {depth : Nat} {Inner : Value → List Char → Prop}
    (hinner : Takes (readValue depth) Inner) : Takes (readValue (depth + 1)) (Level Inner) where
  opens := by
    intro v text h
    cases h with
    | number hliteral =>
      obtain ⟨c, tail, rfl, hdigit | rfl⟩ := hliteral.exists_head
      · exact opens_of_isDigit hdigit tail
      · exact ⟨_, _, rfl, by decide⟩
    | _ => exact ⟨_, _, rfl, by decide⟩
  sound := by
    intro text rest v h
    rw [readValue.eq_def] at h
    simp only at h
    split at h
    · obtain ⟨⟨items, _⟩, hread, heq⟩ := Option.map_eq_some_iff.mp h
      cases heq
      obtain ⟨front, hfront, rfl⟩ := readItems_sound hread
      exact ⟨_, .string hfront, by simp⟩
    · obtain ⟨⟨elements, _⟩, hread, heq⟩ := Option.map_eq_some_iff.mp h
      cases heq
      obtain ⟨front, hfront, rfl⟩ := (readClosed_eq_some_iff hinner (.inl rfl)).mp hread
      exact ⟨_, .array hfront, by simp⟩
    · obtain ⟨⟨entries, _⟩, hread, heq⟩ := Option.map_eq_some_iff.mp h
      cases heq
      obtain ⟨front, hfront, rfl⟩ := (readClosed_eq_some_iff hinner.entry (.inr rfl)).mp hread
      exact ⟨_, .object hfront, by simp⟩
    · obtain ⟨rfl, heq⟩ := readWord_eq_some_iff.mp h
      exact ⟨_, .null, heq⟩
    · obtain ⟨rfl, heq⟩ := readWord_eq_some_iff.mp h
      exact ⟨_, .true, heq⟩
    · obtain ⟨rfl, heq⟩ := readWord_eq_some_iff.mp h
      exact ⟨_, .false, heq⟩
    · obtain ⟨literal, rfl, hliteral, rfl⟩ := readNumber_sound h
      exact ⟨literal, .number hliteral, rfl⟩
  complete := by
    intro v text rest h hrest
    cases h with
    | null => exact readWord_eq_some_iff.mpr ⟨rfl, rfl⟩
    | true => exact readWord_eq_some_iff.mpr ⟨rfl, rfl⟩
    | false => exact readWord_eq_some_iff.mpr ⟨rfl, rfl⟩
    | number hliteral =>
      have hread := hliteral.readNumber_append hrest
      obtain ⟨c, tail, rfl, hhead⟩ := hliteral.exists_head
      rw [List.cons_append, readValue_number hhead]
      exact hread
    | string hitems => simp [readValue, hitems.readItems_append]
    | array h =>
      rw [List.cons_append, List.append_assoc, List.singleton_append, readValue,
        (readClosed_eq_some_iff hinner (.inl rfl)).mpr ⟨_, h, rfl⟩]
      rfl
    | object h =>
      rw [List.cons_append, List.append_assoc, List.singleton_append, readValue,
        (readClosed_eq_some_iff hinner.entry (.inr rfl)).mpr ⟨_, h, rfl⟩]
      rfl

/-- By induction on the depth: values that nest no deeper are read by their grammar. -/
theorem takes_readValue (depth : Nat) : Takes (readValue depth) (SpelledWithin depth) := by
  induction depth with
  | zero => exact ⟨False.elim, fun h => absurd h (by simp [readValue]), False.elim⟩
  | succ depth ih => exact ih.level

/-! ## Depth

A value is spelled with fewer characters inside than in all, so the length of its text bounds how
deep it nests.
-/

theorem Padded.imp {Part Part' : α → List Char → Prop} {a : α} {text : List Char}
    (h : Padded Part a text)
    (himp : ∀ inner, inner.length ≤ text.length → Part a inner → Part' a inner) :
    Padded Part' a text := by
  obtain ⟨before, inner, after, hbefore, hinner, hafter, rfl⟩ := h
  refine ⟨before, inner, after, hbefore, himp inner ?_ hinner, hafter, rfl⟩
  simp only [List.length_append]
  omega

theorem Parts.imp {Part Part' : α → List Char → Prop} {as : List α} {text : List Char}
    (h : Parts Part as text)
    (himp : ∀ a inner, inner.length ≤ text.length → Part a inner → Part' a inner) :
    Parts Part' as text := by
  induction h with
  | last h => exact .last (h.imp (himp _))
  | @cons a as text rest h _ ih =>
    simp only [List.length_append, List.length_cons] at himp
    refine .cons (h.imp fun inner hle => himp a inner (by omega)) (ih fun b inner hle => ?_)
    exact himp b inner (by omega)

theorem Enclosed.imp {Part Part' : α → List Char → Prop} {as : List α} {text : List Char}
    (h : Enclosed Part as text)
    (himp : ∀ a inner, inner.length ≤ text.length → Part a inner → Part' a inner) :
    Enclosed Part' as text := by
  cases h with
  | none h => exact .none h
  | parts h => exact .parts (h.imp himp)

/-- One level of the grammar is monotone in the level below, of which only shorter texts matter. -/
theorem Level.imp {Inner Inner' : Value → List Char → Prop} {v : Value} {text : List Char}
    (h : Level Inner v text)
    (himp : ∀ v inner, inner.length < text.length → Inner v inner → Inner' v inner) :
    Level Inner' v text := by
  cases h with
  | null => exact .null
  | true => exact .true
  | false => exact .false
  | number h => exact .number h
  | string h => exact .string h
  | array h =>
    simp only [List.length_append, List.length_cons] at himp
    exact .array (h.imp fun v inner hle => himp v inner (by omega))
  | object h =>
    simp only [List.length_append, List.length_cons] at himp
    refine .object (h.imp ?_)
    rintro _ _ hle ⟨hname, hgap, hgap', hinner⟩
    simp only [List.length_append, List.length_cons] at hle
    exact .intro hname hgap hgap' (himp _ _ (by omega) hinner)

/-- A text nests no deeper than it is long, so the bound on depth can be the length. -/
theorem SpelledWithin.of_length_le {depth n : Nat} {v : Value} {text : List Char}
    (h : SpelledWithin depth v text) (hn : text.length ≤ n) : SpelledWithin n v text := by
  induction depth generalizing n v text with
  | zero => exact h.elim
  | succ depth ih =>
    obtain ⟨c, tail, heq, _⟩ := (takes_readValue (depth + 1)).opens h
    obtain ⟨n, rfl⟩ := Nat.exists_eq_add_of_le' (Nat.le_trans (by simp [heq]) hn : 1 ≤ n)
    exact Level.imp h fun v inner hlt hinner => ih hinner (by omega)

/-- A value is spelled level by level. -/
theorem spelled_iff_level {v : Value} {text : List Char} :
    Spelled v text ↔ Level Spelled v text := by
  constructor
  · rintro ⟨depth, h⟩
    cases depth with
    | zero => exact h.elim
    | succ depth => exact Level.imp h fun _ _ _ hinner => ⟨depth, hinner⟩
  · intro h
    refine ⟨text.length + 1, Level.imp h fun v inner hlt hinner => ?_⟩
    obtain ⟨depth, hinner⟩ := hinner
    exact hinner.of_length_le (Nat.le_of_lt hlt)

/-- The reader accepts a text exactly if it spells a value, with blanks around it. -/
theorem parse?_eq_some_iff {text : List Char} {v : Value} :
    parse? text = some v ↔ Padded Spelled v text := by
  constructor
  · intro h
    simp only [parse?, Option.bind_eq_bind, Option.bind_eq_some_iff] at h
    obtain ⟨⟨v', rest⟩, hread, h⟩ := h
    split at h
    · rename_i hend
      cases h
      obtain ⟨front, hfront, rfl⟩ := (takes_readValue _).exists_padded hread
      rw [List.isEmpty_iff.mp hend, List.append_nil]
      exact hfront.imp fun inner _ hinner => ⟨_, hinner⟩
    · cases h
  · intro h
    have hwithin : Padded (SpelledWithin (text.length + 1)) v text := by
      refine h.imp fun inner hle hinner => ?_
      obtain ⟨depth, hinner⟩ := hinner
      exact hinner.of_length_le (by omega)
    obtain ⟨tail, hread, htail⟩ := (takes_readValue _).read_padded hwithin ends_nil rfl
    rw [List.append_nil] at hread
    simp [parse?, hread, htail]

end DocLint.Json
