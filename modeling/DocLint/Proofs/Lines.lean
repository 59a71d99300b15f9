-- SUMMARY: The one way to cut a text into lines with their terminators, and that physical lines are cut that way.
import DocLint.Text.Lines

/-! # Cutting a text into lines

A text is lines with terminators between them. Where a carriage return has a line feed
after it the two are one terminator, so there is only one way to cut a text. The last
line may lack a terminator, but then it is not empty.
-/

namespace DocLint.Text

/-- The text is cut into the given lines. -/
inductive CutsInto : List Char → List (List Char) → Prop where
  | nil : CutsInto [] []
  /-- The last line, without a terminator. -/
  | last {line : List Char} :
      (∀ c ∈ line, IsInline c) → line ≠ [] → CutsInto line [line]
  /-- A line and its terminator, which takes in a line feed if one follows. -/
  | line {line rest : List Char} {lines : List (List Char)} (ending : Terminator) :
      (∀ c ∈ line, IsInline c) → (ending = .carriage → rest.head? ≠ some '\n') →
      CutsInto rest lines → CutsInto (line ++ ending.chars ++ rest) (line :: lines)

/-! ## Reading physical lines off a cut -/

/-- The relation leaves no choice: if a text can be cut into lines, these are its lines. -/
theorem CutsInto.physicalLines_eq {text : List Char} {lines : List (List Char)}
    (h : CutsInto text lines) : physicalLines text = lines := by
  induction h with
  | nil => rfl
  | last hline hne =>
    rw [physicalLines_of_takeLine? hne (takeLine?_inline hline), physicalLines_nil]
  | @line line rest _ ending hline hend _ ih =>
    have hne : line ++ ending.chars ++ rest ≠ [] := by
      have hpos := ending.length_chars_pos
      apply List.ne_nil_of_length_pos
      simp only [List.length_append]
      omega
    rw [physicalLines_of_takeLine? hne (takeLine?_terminator hline ending hend), ih]

/-! ## Physical lines are a cut -/

/-- The line that is taken off a text can be put in front of any cut of the rest. -/
theorem CutsInto.of_takeLine? {text line rest : List Char} {lines : List (List Char)}
    (hne : text ≠ []) (h : takeLine? text = some (line, rest)) (hrest : CutsInto rest lines) :
    CutsInto text (line :: lines) := by
  obtain ⟨hline, ⟨rfl, rfl⟩ | ⟨ending, rfl, hend⟩⟩ := takeLine?_cases h
  · obtain rfl : [] = lines := hrest.physicalLines_eq
    exact .last hline hne
  · exact .line ending hline hend hrest

/-- Every text is cut into its lines. -/
theorem cutsInto_physicalLines (text : List Char) : CutsInto text (physicalLines text) := by
  induction text using turn_induction with
  | nil => exact .nil
  | turn text line rest hne htake ih =>
    rw [physicalLines_of_takeLine? hne htake]
    exact ih.of_takeLine? hne htake

/-- There is exactly one way to cut a text, and it gives the physical lines. -/
theorem cutsInto_iff {text : List Char} {lines : List (List Char)} :
    CutsInto text lines ↔ lines = physicalLines text := by
  constructor
  · intro h
    exact h.physicalLines_eq.symm
  · rintro rfl
    exact cutsInto_physicalLines text

/-! ## What stands in front of a text -/

/-- Puts a character in front of the first line. -/
def consLine (c : Char) : List (List Char) → List (List Char)
  | [] => [[c]]
  | line :: rest => (c :: line) :: rest

/-- A character that ends no line can be put in front of any cut. -/
theorem CutsInto.cons {c : Char} (hc : IsInline c) {text : List Char} {lines : List (List Char)}
    (h : CutsInto text lines) : CutsInto (c :: text) (consLine c lines) := by
  cases h with
  | nil => exact .last (by simpa using hc) (List.cons_ne_nil _ _)
  | last hline _ =>
    exact .last (List.forall_mem_cons.mpr ⟨hc, hline⟩) (List.cons_ne_nil _ _)
  | line ending hline hend hrest =>
    exact .line ending (List.forall_mem_cons.mpr ⟨hc, hline⟩) hend hrest

/-- An empty line with its terminator can be put in front of any cut. -/
theorem CutsInto.cons_empty (ending : Terminator) {rest : List Char} {lines : List (List Char)}
    (hend : ending = .carriage → rest.head? ≠ some '\n') (h : CutsInto rest lines) :
    CutsInto (ending.chars ++ rest) ([] :: lines) :=
  .line ending (fun _ hc => absurd hc List.not_mem_nil) hend h

theorem physicalLines_cons_inline {c : Char} (hc : IsInline c) (text : List Char) :
    physicalLines (c :: text) = consLine c (physicalLines text) :=
  ((cutsInto_physicalLines text).cons hc).physicalLines_eq

/-- A terminator at the start ends an empty line. -/
theorem physicalLines_terminator (ending : Terminator) {rest : List Char}
    (hend : ending = .carriage → rest.head? ≠ some '\n') :
    physicalLines (ending.chars ++ rest) = [] :: physicalLines rest :=
  ((cutsInto_physicalLines rest).cons_empty ending hend).physicalLines_eq

/-- Characters that end no line go in front of the first line. -/
theorem physicalLines_inline_append {line first : List Char} {rest : List (List Char)}
    {text : List Char} (hline : ∀ c ∈ line, IsInline c)
    (htext : physicalLines text = first :: rest) :
    physicalLines (line ++ text) = (line ++ first) :: rest := by
  induction line with
  | nil => exact htext
  | cons c line ih =>
    have hrest := ih fun x hx => hline x (List.mem_cons_of_mem _ hx)
    rw [List.cons_append, physicalLines_cons_inline (hline c List.mem_cons_self), hrest]
    rfl

/-- A line that no terminator ends is the only one. -/
theorem physicalLines_inline {line : List Char} (hline : ∀ c ∈ line, IsInline c)
    (hne : line ≠ []) : physicalLines line = [line] :=
  (CutsInto.last hline hne).physicalLines_eq

/-! ## How many lines there are -/

theorem CutsInto.length_le {text : List Char} {lines : List (List Char)} (h : CutsInto text lines) :
    lines.length ≤ text.length := by
  induction h with
  | nil => exact Nat.le_refl 0
  | last _ hne => exact List.length_pos_iff.mpr hne
  | line ending _ _ _ ih =>
    have hpos := ending.length_chars_pos
    simp only [List.length_cons, List.length_append]
    omega

theorem length_physicalLines_le (text : List Char) : (physicalLines text).length ≤ text.length :=
  (cutsInto_physicalLines text).length_le

end DocLint.Text
