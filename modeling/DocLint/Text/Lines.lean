-- SUMMARY: The physical lines of a text: a line ends in a line feed, a carriage return, or both in this order.
import DocLint.Text.Slice

/-! # Physical lines

A terminator belongs to no line. A text that ends in a terminator has no empty line
after it, so the empty text has no line at all.

Lines are taken off the text one by one: it is searched for the first character of a
terminator, and sliced before and behind the terminator. The slices are always there,
since the search stops at a character, and those of terminators take one byte each.
-/

namespace DocLint.Text

-- ---------------------------------------------------------------------------
-- Terminators
-- ---------------------------------------------------------------------------

/-- What ends a line. -/
inductive Terminator where
  | feed
  | both
  | carriage
  deriving DecidableEq, Repr

def Terminator.chars : Terminator → List Char
  | .feed => ['\n']
  | .both => ['\r', '\n']
  | .carriage => ['\r']

theorem Terminator.length_chars_pos (ending : Terminator) : 0 < ending.chars.length := by
  cases ending <;> decide

/-- The character is not one that terminators are made of. -/
def IsInline (c : Char) : Prop :=
  c ≠ '\n' ∧ c ≠ '\r'

instance (c : Char) : Decidable (IsInline c) :=
  inferInstanceAs (Decidable (c ≠ '\n' ∧ c ≠ '\r'))

-- ---------------------------------------------------------------------------
-- Taking one line
-- ---------------------------------------------------------------------------

/-- The offset of the first character that is not inline. -/
def lineEnd? : List Char → Option Nat
  | [] => none
  | c :: rest =>
    if IsInline c then (lineEnd? rest).map ((Utf8.encodeChar c).length + ·) else some 0

/-- How many bytes the terminator takes that a text starts with. -/
def terminatorSize (text : List Char) : Nat :=
  if ['\r', '\n'].isPrefixOf text then 2 else 1

/-- The first line of a text and what stands behind its terminator. A slice that is not
    there leaves no result. -/
def takeLine? (text : List Char) : Option (List Char × List Char) :=
  match lineEnd? text with
  | none => some (text, [])
  | some stop => do
    let atEnd ← splitAt? text stop
    let behind ← splitAt? text (stop + terminatorSize atEnd.2)
    return (atEnd.1, behind.2)

theorem lineEnd?_inline {line : List Char} (hline : ∀ c ∈ line, IsInline c) :
    lineEnd? line = none := by
  induction line with
  | nil => rfl
  | cons c line ih =>
    obtain ⟨hc, hrest⟩ := List.forall_mem_cons.mp hline
    rw [lineEnd?, if_pos hc, ih hrest, Option.map_none]

theorem lineEnd?_append {line : List Char} (hline : ∀ c ∈ line, IsInline c) {c : Char}
    (hc : ¬ IsInline c) (rest : List Char) :
    lineEnd? (line ++ c :: rest) = some (byteSize line) := by
  induction line with
  | nil => rw [List.nil_append, lineEnd?, if_neg hc, byteSize_nil]
  | cons d line ih =>
    obtain ⟨hd, hinline⟩ := List.forall_mem_cons.mp hline
    rw [List.cons_append, lineEnd?, if_pos hd, ih hinline, Option.map_some, byteSize_cons]

theorem terminatorSize_append (ending : Terminator) {rest : List Char}
    (hend : ending = .carriage → rest.head? ≠ some '\n') :
    terminatorSize (ending.chars ++ rest) = byteSize ending.chars := by
  cases ending with
  | feed => rfl
  | both => exact if_pos (List.isPrefixOf_iff_prefix.mpr (List.prefix_append _ _))
  | carriage =>
    refine if_neg fun hboth => hend rfl ?_
    obtain ⟨more, hmore⟩ := List.isPrefixOf_iff_prefix.mp hboth
    obtain rfl := (List.cons.inj hmore).2
    rfl

/-- Without a terminator in it, a text is one line. -/
theorem takeLine?_inline {line : List Char} (hline : ∀ c ∈ line, IsInline c) :
    takeLine? line = some (line, []) := by
  rw [takeLine?, lineEnd?_inline hline]

theorem takeLine?_terminator {line : List Char} (hline : ∀ c ∈ line, IsInline c)
    (ending : Terminator) {rest : List Char} (hend : ending = .carriage → rest.head? ≠ some '\n') :
    takeLine? (line ++ ending.chars ++ rest) = some (line, rest) := by
  have hstop : lineEnd? (line ++ ending.chars ++ rest) = some (byteSize line) := by
    rw [List.append_assoc]
    cases ending with
    | feed => exact lineEnd?_append hline (by decide) _
    | both => exact lineEnd?_append hline (by decide) _
    | carriage => exact lineEnd?_append hline (by decide) _
  have hatEnd : splitAt? (line ++ ending.chars ++ rest) (byteSize line) =
      some (line, ending.chars ++ rest) := by
    rw [List.append_assoc]
    exact splitAt?_append line _
  have hbehind : splitAt? (line ++ ending.chars ++ rest)
      (byteSize line + terminatorSize (ending.chars ++ rest)) =
        some (line ++ ending.chars, rest) := by
    rw [terminatorSize_append ending hend, ← byteSize_append]
    exact splitAt?_append _ rest
  simp only [takeLine?, hstop, Option.bind_eq_bind, hatEnd, Option.bind_some, hbehind,
    Option.pure_def]

/-- A text has a first line: all of it, or what stands before a terminator. -/
theorem inline_or_terminator (text : List Char) :
    (∀ c ∈ text, IsInline c) ∨
      ∃ line ending rest, text = line ++ Terminator.chars ending ++ rest ∧
        (∀ c ∈ line, IsInline c) ∧ (ending = .carriage → rest.head? ≠ some '\n') := by
  induction text with
  | nil => exact .inl (by simp)
  | cons c text ih =>
    by_cases hc : IsInline c
    · rcases ih with hline | ⟨line, ending, rest, rfl, hline, hend⟩
      · exact .inl (List.forall_mem_cons.mpr ⟨hc, hline⟩)
      · exact .inr ⟨c :: line, ending, rest, rfl, List.forall_mem_cons.mpr ⟨hc, hline⟩, hend⟩
    · obtain ⟨ending, rest, heq, hend⟩ : ∃ ending rest,
          c :: text = Terminator.chars ending ++ rest ∧
            (ending = .carriage → rest.head? ≠ some '\n') := by
        by_cases hfeed : c = '\n'
        · exact ⟨.feed, text, by rw [hfeed]; rfl, nofun⟩
        · have hcarriage : c = '\r' := Decidable.byContradiction fun h => hc ⟨hfeed, h⟩
          by_cases hboth : text.head? = some '\n'
          · obtain ⟨rest, rfl⟩ := List.head?_eq_some_iff.mp hboth
            exact ⟨.both, rest, by rw [hcarriage]; rfl, nofun⟩
          · exact ⟨.carriage, text, by rw [hcarriage]; rfl, fun _ => hboth⟩
      exact .inr ⟨[], ending, rest, heq, by simp, hend⟩

theorem exists_takeLine? (text : List Char) : ∃ line rest, takeLine? text = some (line, rest) := by
  rcases inline_or_terminator text with hline | ⟨line, ending, rest, rfl, hline, hend⟩
  · exact ⟨text, [], takeLine?_inline hline⟩
  · exact ⟨line, rest, takeLine?_terminator hline ending hend⟩

/-- What is taken is a line with its terminator, or the whole text if no terminator is in it. -/
theorem takeLine?_cases {text line rest : List Char} (h : takeLine? text = some (line, rest)) :
    (∀ c ∈ line, IsInline c) ∧ (text = line ∧ rest = [] ∨
      ∃ ending, text = line ++ Terminator.chars ending ++ rest ∧
        (ending = .carriage → rest.head? ≠ some '\n')) := by
  rcases inline_or_terminator text with hline | ⟨first, ending, behind, rfl, hline, hend⟩
  · obtain ⟨rfl, rfl⟩ := Prod.mk.inj (Option.some.inj ((takeLine?_inline hline).symm.trans h))
    exact ⟨hline, .inl ⟨rfl, rfl⟩⟩
  · obtain ⟨rfl, rfl⟩ := Prod.mk.inj
      (Option.some.inj ((takeLine?_terminator hline ending hend).symm.trans h))
    exact ⟨hline, .inr ⟨ending, rfl, hend⟩⟩

-- ---------------------------------------------------------------------------
-- Taking all lines
-- ---------------------------------------------------------------------------

/-- Taking a line leaves less of the text, since a terminator takes at least one byte. -/
theorem length_lt_of_takeLine? {text line rest : List Char} (hne : text ≠ [])
    (h : takeLine? text = some (line, rest)) : rest.length < text.length := by
  obtain ⟨_, ⟨rfl, rfl⟩ | ⟨ending, rfl, _⟩⟩ := takeLine?_cases h
  · exact List.length_pos_iff.mpr hne
  · have hpos := ending.length_chars_pos
    simp only [List.length_append]
    omega

/-- The lines that are taken off a text until nothing is left of it. -/
@[semireducible] def cutLines? (text : List Char) : Option (List (List Char)) :=
  if _ : text = [] then some []
  else
    match _ : takeLine? text with
    | none => none
    | some taken => (cutLines? taken.2).map (taken.1 :: ·)
termination_by text.length
decreasing_by exact length_lt_of_takeLine? ‹_› ‹_›

theorem cutLines?_of_takeLine? {text line rest : List Char} (hne : text ≠ [])
    (h : takeLine? text = some (line, rest)) :
    cutLines? text = (cutLines? rest).map (line :: ·) := by
  rw [cutLines?, dif_neg hne]
  split
  · next hnone => simp [h] at hnone
  · next taken htaken =>
    obtain rfl := Option.some.inj (h.symm.trans htaken)
    rfl

/-- Induction along the turns in which lines are taken. -/
@[elab_as_elim] theorem turn_induction {motive : List Char → Prop} (nil : motive [])
    (turn : ∀ text line rest, text ≠ [] → takeLine? text = some (line, rest) → motive rest →
      motive text) (text : List Char) : motive text := by
  fun_induction cutLines? text with
  | case1 => exact nil
  | case2 text _ hnone =>
    obtain ⟨line, rest, htake⟩ := exists_takeLine? text
    simp [htake] at hnone
  | case3 text hne taken htake ih => exact turn text taken.1 taken.2 hne htake ih

theorem isSome_cutLines? (text : List Char) : (cutLines? text).isSome := by
  induction text using turn_induction with
  | nil => rfl
  | turn text line rest hne htake ih => rwa [cutLines?_of_takeLine? hne htake, Option.isSome_map]

/-- The physical lines of a text, without their terminators. -/
def physicalLines (text : List Char) : List (List Char) :=
  (cutLines? text).get (isSome_cutLines? text)

theorem cutLines?_eq_some (text : List Char) : cutLines? text = some (physicalLines text) :=
  (Option.some_get _).symm

@[simp] theorem physicalLines_nil : physicalLines [] = [] := rfl

theorem physicalLines_of_takeLine? {text line rest : List Char} (hne : text ≠ [])
    (h : takeLine? text = some (line, rest)) : physicalLines text = line :: physicalLines rest := by
  have hcut := cutLines?_of_takeLine? hne h
  rw [cutLines?_eq_some, cutLines?_eq_some, Option.map_some] at hcut
  exact Option.some.inj hcut

theorem physicalLines_eq_nil_iff (text : List Char) : physicalLines text = [] ↔ text = [] := by
  constructor
  · intro h
    by_cases hne : text = []
    · exact hne
    · obtain ⟨line, rest, htake⟩ := exists_takeLine? text
      rw [physicalLines_of_takeLine? hne htake] at h
      cases h
  · rintro rfl
    rfl

end DocLint.Text
