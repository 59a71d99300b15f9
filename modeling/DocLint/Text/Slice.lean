-- SUMMARY: Slices of a text at byte offsets, which are there only if the offset falls between two characters.
import DocLint.Text.Utf8

/-! # Slices

A text is kept as its bytes, and where a slice of it starts or ends is counted in bytes.
There is no slice at an offset inside a character or past the end of the text.
-/

namespace DocLint.Text

def byteSize (text : List Char) : Nat :=
  (Utf8.encode text).length

@[simp] theorem byteSize_nil : byteSize [] = 0 := rfl

@[simp] theorem byteSize_cons (c : Char) (text : List Char) :
    byteSize (c :: text) = (Utf8.encodeChar c).length + byteSize text := by
  simp [byteSize, Utf8.encode]

@[simp] theorem byteSize_append (s t : List Char) :
    byteSize (s ++ t) = byteSize s + byteSize t := by
  simp [byteSize]

theorem length_encodeChar_pos (c : Char) : 0 < (Utf8.encodeChar c).length := by
  unfold Utf8.encodeChar
  simp only
  repeat' split
  all_goals simp

/-- The parts of a text before and from a byte offset. -/
def splitAt? : List Char → Nat → Option (List Char × List Char)
  | text, 0 => some ([], text)
  | [], _ + 1 => none
  | c :: rest, n + 1 =>
    if (Utf8.encodeChar c).length ≤ n + 1 then
      (splitAt? rest (n + 1 - (Utf8.encodeChar c).length)).map fun parts =>
        (c :: parts.1, parts.2)
    else none

@[simp] theorem splitAt?_zero (text : List Char) : splitAt? text 0 = some ([], text) := by
  cases text <;> rfl

/-- At the end of a first part, the text is split into that part and the rest. -/
theorem splitAt?_append (before rest : List Char) :
    splitAt? (before ++ rest) (byteSize before) = some (before, rest) := by
  induction before with
  | nil => simp
  | cons c before ih =>
    have hpos := length_encodeChar_pos c
    obtain ⟨n, hn⟩ : ∃ n, byteSize (c :: before) = n + 1 :=
      ⟨byteSize (c :: before) - 1, by rw [byteSize_cons]; omega⟩
    have hsize : n + 1 - (Utf8.encodeChar c).length = byteSize before := by
      rw [← hn, byteSize_cons, Nat.add_sub_cancel_left]
    have hle : (Utf8.encodeChar c).length ≤ n + 1 := by
      rw [← hn, byteSize_cons]
      exact Nat.le_add_right _ _
    rw [List.cons_append, hn, splitAt?, if_pos hle, hsize, ih]
    rfl

end DocLint.Text
