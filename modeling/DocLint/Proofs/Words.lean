-- SUMMARY: Trimming and words, said by where they stand in a text.
import DocLint.Text.Split
import DocLint.Text.WhiteSpace
import Mathlib.Data.List.TakeWhile

/-! # Trimmed texts and words

Trimming and splitting are functions that cut. Here is what they find, said without
cutting: the trimmed text is what stands between two margins of white space, and a word
is what stands between two separators or ends of the text.
-/

namespace DocLint.Text

/-! ## Trimming -/

/-- The text stands in the line between margins of white space, and has none at its own
    ends. -/
structure TrimsTo (line text : List Char) : Prop where
  margins : ∃ left right, line = left ++ text ++ right ∧
    (∀ c ∈ left, isWhiteSpace c = true) ∧ (∀ c ∈ right, isWhiteSpace c = true)
  head : ∀ c, text.head? = some c → isWhiteSpace c = false
  last : ∀ c, text.getLast? = some c → isWhiteSpace c = false

/-- The margin at the start is dropped, up to what is no white space. -/
theorem dropWhile_margin {p : Char → Bool} {left text : List Char} (hleft : ∀ c ∈ left, p c = true)
    (hhead : ∀ c, text.head? = some c → p c = false) :
    (left ++ text).dropWhile p = text := by
  rw [List.dropWhile_append_of_pos hleft]
  cases text with
  | nil => rfl
  | cons c text => simp [hhead c rfl]

/-- There is one way to trim a line. -/
theorem TrimsTo.eq_trim {line text : List Char} (h : TrimsTo line text) : text = trim line := by
  obtain ⟨left, right, rfl, hleft, hright⟩ := h.margins
  cases text with
  | nil =>
    -- the two margins meet, so the start takes away both
    have hstart : trimStart (left ++ [] ++ right) = [] := by
      rw [trimStart, List.append_nil, List.dropWhile_append_of_pos hleft]
      exact List.dropWhile_eq_nil_iff.mpr hright
    rw [trim, hstart]
    rfl
  | cons c text =>
    have hstart : trimStart (left ++ (c :: text) ++ right) = (c :: text) ++ right := by
      rw [List.append_assoc]
      exact dropWhile_margin hleft (by simpa using h.head c rfl)
    have hend : trimEnd ((c :: text) ++ right) = c :: text := by
      have hback : (right.reverse ++ (c :: text).reverse).dropWhile isWhiteSpace =
          (c :: text).reverse := by
        apply dropWhile_margin
        · exact fun x hx => hright x (List.mem_reverse.mp hx)
        · exact fun x hx => h.last x (List.head?_reverse ▸ hx)
      rw [trimEnd, List.reverse_append, hback, List.reverse_reverse]
    rw [trim, hstart, hend]

/-- What is left after dropping from the start does not start with what is dropped. -/
theorem head?_dropWhile_eq_false (p : Char → Bool) (l : List Char) (c : Char)
    (h : (l.dropWhile p).head? = some c) : p c = false := by
  have hnot := List.head?_dropWhile_not p l
  rw [h] at hnot
  simpa using hnot

/-- And there is always that one. -/
theorem trimsTo_trim (line : List Char) : TrimsTo line (trim line) := by
  have hstart : line = line.takeWhile isWhiteSpace ++ trimStart line :=
    List.takeWhile_append_dropWhile.symm
  have hend : trimStart line =
      trim line ++ ((trimStart line).reverse.takeWhile isWhiteSpace).reverse := by
    rw [trim, trimEnd, ← List.reverse_append, List.takeWhile_append_dropWhile, List.reverse_reverse]
  constructor
  · refine ⟨line.takeWhile isWhiteSpace,
      ((trimStart line).reverse.takeWhile isWhiteSpace).reverse, ?_, ?_, ?_⟩
    · rw [List.append_assoc, ← hend]
      exact hstart
    · exact fun c hc => List.mem_takeWhile_imp hc
    · exact fun c hc => List.mem_takeWhile_imp (List.mem_reverse.mp hc)
  · intro c hc
    -- a text that is not empty keeps its first character when its end is trimmed
    have hsame : (trimStart line).head? = some c := by
      rw [hend, List.head?_append, hc]
      rfl
    exact head?_dropWhile_eq_false _ _ _ hsame
  · intro c hc
    rw [trim, trimEnd, List.getLast?_reverse] at hc
    exact head?_dropWhile_eq_false _ _ _ hc

theorem trimsTo_iff {line text : List Char} : TrimsTo line text ↔ text = trim line := by
  constructor
  · exact TrimsTo.eq_trim
  · rintro rfl
    exact trimsTo_trim line

/-- Where there is no white space at the ends, nothing is trimmed. -/
theorem trim_eq_self {text : List Char} (hhead : ∀ c, text.head? = some c → isWhiteSpace c = false)
    (hlast : ∀ c, text.getLast? = some c → isWhiteSpace c = false) : trim text = text :=
  (TrimsTo.eq_trim ⟨⟨[], [], by simp, by simp, by simp⟩, hhead, hlast⟩).symm

/-! ## Words -/

section Words

variable {α : Type}

/-- The word stands in the text with a separator, or an end of the text, on either side. -/
def HasWord (sep : α) (word text : List α) : Prop :=
  ∃ before after, text = before ++ word ++ after ∧
    (before = [] ∨ before.getLast? = some sep) ∧ (after = [] ∨ after.head? = some sep)

theorem sep_notMem_of_mem_splitOn [DecidableEq α] {sep : α} {l piece : List α}
    (h : piece ∈ l.splitOn sep) : sep ∉ piece := by
  induction l generalizing piece with
  | nil =>
    obtain rfl : piece = [] := by simpa using h
    exact List.not_mem_nil
  | cons a l ih =>
    rw [List.splitOn_cons_eq_if_modifyHead] at h
    split at h
    · rcases List.mem_cons.mp h with rfl | h
      · exact List.not_mem_nil
      · exact ih h
    · rename_i hne
      have hne : sep ≠ a := fun heq => hne (by simp [heq])
      cases hl : l.splitOn sep with
      | nil => exact absurd hl (List.splitOn_ne_nil sep l)
      | cons first rest =>
        simp only [hl, List.modifyHead_cons, List.mem_cons] at h ih
        rcases h with rfl | h
        · have hfirst := ih (.inl rfl)
          simp [hne, hfirst]
        · exact ih (.inr h)

/-- Pieces with separators between them: what stands before and after one of them. -/
theorem hasWord_intercalate (sep : α) (before : List (List α)) (word : List α)
    (after : List (List α)) :
    HasWord sep word ([sep].intercalate (before ++ word :: after)) := by
  induction before with
  | nil =>
    cases after with
    | nil => exact ⟨[], [], by simp, .inl rfl, .inl rfl⟩
    | cons piece after =>
      refine ⟨[], sep :: [sep].intercalate (piece :: after), ?_, .inl rfl, .inr rfl⟩
      simp [List.intercalate_cons_cons]
  | cons piece before ih =>
    obtain ⟨left, right, htext, hleft, hright⟩ := ih
    refine ⟨piece ++ sep :: left, right, ?_, .inr ?_, hright⟩
    · have hcons : ∃ first rest, before ++ word :: after = first :: rest := by
        cases before with
        | nil => exact ⟨_, _, rfl⟩
        | cons first rest => exact ⟨_, _, rfl⟩
      obtain ⟨first, rest, hcons⟩ := hcons
      rw [List.cons_append, hcons, List.intercalate_cons_cons, ← hcons, htext]
      simp
    · rcases hleft with rfl | hlast
      · simp
      · simp [List.getLast?_append, List.getLast?_cons, hlast]

variable [DecidableEq α]

/-- A piece between separators is a word. -/
theorem HasWord.of_mem_splitOn {sep : α} {word text : List α} (h : word ∈ text.splitOn sep) :
    HasWord sep word text := by
  obtain ⟨before, after, hsplit⟩ := List.append_of_mem h
  have htext : [sep].intercalate (text.splitOn sep) = text := List.intercalate_splitOn sep
  rw [hsplit] at htext
  rw [← htext]
  exact hasWord_intercalate sep before word after

/-- A word without separators that stands somewhere is one of the pieces. -/
theorem HasWord.mem_splitOn {sep : α} {word text : List α} (hword : sep ∉ word)
    (h : HasWord sep word text) : word ∈ text.splitOn sep := by
  obtain ⟨before, after, rfl, hbefore, hafter⟩ := h
  have hright : word ∈ (word ++ after).splitOn sep := by
    rcases hafter with rfl | hafter
    · simp [List.splitOn_eq_singleton hword]
    · obtain ⟨after, rfl⟩ := List.head?_eq_some_iff.mp hafter
      simp [List.splitOn_append_cons_self, List.splitOn_eq_singleton hword]
  rcases hbefore with rfl | hbefore
  · exact hright
  · obtain ⟨before, rfl⟩ := List.getLast?_eq_some_iff.mp hbefore
    have htext : before ++ [sep] ++ word ++ after = before ++ sep :: (word ++ after) := by simp
    rw [htext, List.splitOn_append_cons_self]
    exact List.mem_append_right _ hright

/-! ## After the last separator -/

theorem sep_notMem_afterLast (sep : α) (l : List α) : sep ∉ afterLast sep l := by
  unfold afterLast
  intro h
  have hne := List.mem_takeWhile_imp (List.mem_reverse.mp h)
  simp at hne

/-- What is after the last separator starts right behind it. -/
theorem afterLast_append_sep {sep : α} {l : List α} (h : sep ∉ l) (before : List α) :
    afterLast sep (before ++ sep :: l) = l := by
  have hback : (before ++ sep :: l).reverse = l.reverse ++ sep :: before.reverse := by simp
  have hkept : ∀ a ∈ l.reverse, decide (a ≠ sep) = true := by
    intro a ha
    rw [decide_eq_true_eq]
    rintro rfl
    exact h (List.mem_reverse.mp ha)
  unfold afterLast
  rw [hback, List.takeWhile_append_of_pos hkept]
  simp

theorem afterLast_of_notMem {sep : α} {l : List α} (h : sep ∉ l) : afterLast sep l = l := by
  have hkept : ∀ a ∈ l.reverse, decide (a ≠ sep) = true := by
    intro a ha
    rw [decide_eq_true_eq]
    rintro rfl
    exact h (List.mem_reverse.mp ha)
  unfold afterLast
  rw [List.takeWhile_eq_self_iff.mpr hkept, List.reverse_reverse]

omit [DecidableEq α] in
/-- A list with a separator in it is cut at the last one. -/
theorem exists_last_sep {sep : α} {l : List α} (h : sep ∈ l) :
    ∃ before after, l = before ++ sep :: after ∧ sep ∉ after := by
  obtain ⟨after, before, hback, hafter⟩ := List.eq_append_cons_of_mem (List.mem_reverse.mpr h)
  refine ⟨before.reverse, after.reverse, ?_, ?_⟩
  · rw [← l.reverse_reverse, hback]
    simp
  · simpa using hafter

end Words

end DocLint.Text
