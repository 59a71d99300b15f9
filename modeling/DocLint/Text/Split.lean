-- SUMMARY: What follows the last separator in a list, and occurrences of one list inside another.

/-! # Splitting and searching -/

namespace DocLint.Text

variable {α : Type} [DecidableEq α]

/-- What stands after the last `sep`, or the whole list if there is none. -/
def afterLast (sep : α) (l : List α) : List α :=
  (l.reverse.takeWhile (· ≠ sep)).reverse

/-- `part` stands somewhere in the list, without a gap. -/
def occursIn (part : List α) : List α → Bool
  | [] => part.isEmpty
  | a :: rest => part.isPrefixOf (a :: rest) || occursIn part rest

theorem occursIn_iff (part l : List α) : occursIn part l = true ↔ part <:+: l := by
  induction l with
  | nil => simp [occursIn]
  | cons a rest ih =>
    simp [occursIn, ih, List.infix_cons_iff, List.isPrefixOf_iff_prefix]

end DocLint.Text
