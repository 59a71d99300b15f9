-- SUMMARY: Colour in styled text: without its escape sequences the plain text is left, and no colour runs on past a line.
import DocLint.Command.Check
import Mathlib

/-! # Colour

A reader of coloured text can take the escape sequences out without knowing where they were put.
What is left is the plain text, unless the text itself has something in it that looks like the
start of a sequence.
-/

namespace DocLint

/-! ## Taking sequences out -/

namespace Text

/-- What comes after the escape sequence that a text starts with. A sequence is the escape
    character, a bracket, digits and `m`. -/
def afterSequence? : List Char → Option (List Char)
  | '\x1b' :: '[' :: rest =>
    match rest.dropWhile Char.isDigit with
    | 'm' :: after => some after
    | _ => none
  | _ => none

theorem length_afterSequence? {text after : List Char} (h : afterSequence? text = some after) :
    after.length < text.length := by
  unfold afterSequence? at h
  split at h
  · rename_i rest
    split at h
    · rename_i found hfound
      obtain rfl := Option.some.inj h
      have hsuffix := (List.dropWhile_suffix Char.isDigit (l := rest)).length_le
      rw [hfound, List.length_cons] at hsuffix
      simp only [List.length_cons]
      omega
    · cases h
  · cases h

/-- The text without its escape sequences. -/
def uncoloured : List Char → List Char
  | [] => []
  | c :: rest =>
    match _h : afterSequence? (c :: rest) with
    | some after => uncoloured after
    | none => c :: uncoloured rest
termination_by text => text.length
decreasing_by
  · exact length_afterSequence? ‹_›
  · simp

theorem uncoloured_nil : uncoloured [] = [] := by
  rw [uncoloured]

theorem uncoloured_cons_of_ne {c : Char} (h : c ≠ '\x1b') (rest : List Char) :
    uncoloured (c :: rest) = c :: uncoloured rest := by
  have hnone : afterSequence? (c :: rest) = none := by
    unfold afterSequence?
    split
    · rename_i heq
      exact absurd (List.cons.inj heq).1 h
    · rfl
  rw [uncoloured]
  split
  · rename_i after hsome
    rw [hnone] at hsome
    cases hsome
  · rfl

/-- A text without the escape character is left as it is. -/
theorem uncoloured_append {text : List Char} (h : '\x1b' ∉ text) (rest : List Char) :
    uncoloured (text ++ rest) = text ++ uncoloured rest := by
  induction text with
  | nil => rfl
  | cons c text ih =>
    obtain ⟨hc, htext⟩ := not_or.mp (mt List.mem_cons.mpr h)
    rw [List.cons_append, uncoloured_cons_of_ne (Ne.symm hc), ih htext, List.cons_append]

/-- An escape sequence is taken out whole. -/
theorem uncoloured_escape {code : String} (h : ∀ c ∈ code.toList, c.isDigit = true)
    (rest : List Char) : uncoloured ((Piece.escape code).toList ++ rest) = uncoloured rest := by
  have htext : (Piece.escape code).toList ++ rest =
      '\x1b' :: '[' :: (code.toList ++ 'm' :: rest) := by
    simp [Piece.escape]
  have hdrop : (code.toList ++ 'm' :: rest).dropWhile Char.isDigit = 'm' :: rest := by
    rw [List.dropWhile_append_of_pos h, List.dropWhile_cons_of_neg (by decide)]
  have hafter : afterSequence? ('\x1b' :: '[' :: (code.toList ++ 'm' :: rest)) = some rest := by
    simp only [afterSequence?, hdrop]
  rw [htext, uncoloured]
  split
  · rename_i after hsome
    rw [hafter] at hsome
    cases hsome
    rfl
  · rename_i hnone
    rw [hafter] at hnone
    cases hnone

end Text

/-! ## Coloured and plain -/

namespace Piece

/-- The piece brings no escape character of its own. -/
def IsBare : Piece → Prop
  | .text s => '\x1b' ∉ s.toList
  | _ => True

theorem isDigit_code (colour : Colour) : ∀ c ∈ colour.code.toList, c.isDigit = true := by
  cases colour <;> simp [Colour.code]

theorem uncoloured_render {piece : Piece} (h : piece.IsBare) (coloured : Bool) (rest : List Char) :
    Text.uncoloured ((piece.render coloured).toList ++ rest) =
      (piece.render false).toList ++ Text.uncoloured rest := by
  have hzero : ∀ c ∈ "0".toList, c.isDigit = true := by simp
  have hone : ∀ c ∈ "1".toList, c.isDigit = true := by simp
  cases piece with
  | text s => exact Text.uncoloured_append h rest
  | start colour bold =>
    cases coloured with
    | false => rfl
    | true =>
      cases bold <;>
        simp [render, List.append_assoc, Text.uncoloured_escape hzero, Text.uncoloured_escape hone,
          Text.uncoloured_escape (isDigit_code colour)]
  | reset =>
    cases coloured with
    | false => rfl
    | true => simp [render, Text.uncoloured_escape hzero]

end Piece

namespace Command

/-- Text without its sequences is the plain text, coloured or not. -/
theorem uncoloured_render {pieces : List Piece} (h : ∀ p ∈ pieces, p.IsBare) (coloured : Bool) :
    Text.uncoloured ((render coloured pieces).flatMap String.toList) =
      (render false pieces).flatMap String.toList := by
  induction pieces with
  | nil => exact Text.uncoloured_nil
  | cons p pieces ih =>
    obtain ⟨hp, hpieces⟩ := List.forall_mem_cons.mp h
    have hcons (coloured : Bool) : (render coloured (p :: pieces)).flatMap String.toList =
        (p.render coloured).toList ++ (render coloured pieces).flatMap String.toList := rfl
    rw [hcons, hcons, Piece.uncoloured_render hp, ih hpieces]

end Command

/-! ## Colour that ends in time -/

namespace Piece

/-- A reset comes, and before it only text that does not end a line. -/
def Closes (pieces : List Piece) : Prop :=
  ∃ inside rest, pieces = inside ++ .reset :: rest ∧
    ∀ p ∈ inside, ∃ s, p = .text s ∧ s.toList.getLast? ≠ some '\n'

/-- Wherever a colour is set, it is reset before a line ends. -/
def Tidy (pieces : List Piece) : Prop :=
  ∀ before colour bold after, pieces = before ++ .start colour bold :: after → Closes after

variable {pieces more : List Piece}

theorem Closes.append (h : Closes pieces) (more : List Piece) : Closes (pieces ++ more) := by
  obtain ⟨inside, rest, rfl, hinside⟩ := h
  exact ⟨inside, rest ++ more, by simp, hinside⟩

/-- A text that does not end a line and is then reset is closed. -/
theorem closes_text {s : String} (h : s.toList.getLast? ≠ some '\n') (rest : List Piece) :
    Closes (.text s :: .reset :: rest) :=
  ⟨[.text s], rest, rfl, fun _ hp => ⟨s, List.mem_singleton.mp hp, h⟩⟩

theorem tidy_nil : Tidy [] := by
  intro before colour bold after h
  simp at h

/-- Tidy pieces after tidy pieces are tidy, so a page is made of tidy parts. -/
theorem Tidy.append (h : Tidy pieces) (h' : Tidy more) : Tidy (pieces ++ more) := by
  intro before colour bold after heq
  rcases List.append_eq_append_iff.mp heq with ⟨between, rfl, hmore⟩ | ⟨between, rfl, hrest⟩
  · exact h' between colour bold after hmore
  · cases between with
    | nil => exact h' [] colour bold after hrest.symm
    | cons p between =>
      obtain ⟨rfl, rfl⟩ := List.cons.inj hrest
      exact (h before colour bold between rfl).append more

theorem Tidy.flatMap {α : Type} {items : List α} {f : α → List Piece}
    (h : ∀ a ∈ items, Tidy (f a)) : Tidy (items.flatMap f) := by
  induction items with
  | nil => exact tidy_nil
  | cons a items ih =>
    obtain ⟨ha, hitems⟩ := List.forall_mem_cons.mp h
    exact ha.append (ih hitems)

/-- Where no colour is set, none has to be reset. -/
theorem tidy_plain (h : ∀ p ∈ pieces, ∀ colour bold, p ≠ .start colour bold) : Tidy pieces := by
  rintro before colour bold after rfl
  exact absurd rfl (h _ (by simp) colour bold)

/-- A line in colour: the text, the reset and then the end of the line. -/
theorem tidy_line {s t : String} (colour : Colour) (bold : Bool)
    (h : s.toList.getLast? ≠ some '\n') :
    Tidy [.start colour bold, .text s, .reset, .text t] := by
  intro before colour' bold' after heq
  cases before with
  | nil =>
    obtain ⟨_, rfl⟩ := List.cons.inj heq
    exact closes_text h _
  | cons p before =>
    have hmem : Piece.start colour' bold' ∈ [.text s, .reset, .text t] := by
      rw [(List.cons.inj heq).2]
      simp
    simp at hmem

end Piece

end DocLint
