-- SUMMARY: Taking lines off a text comes to an end, slices it between characters only, and finds the one way to read it as lines and terminators.
import DocLint.Proofs.Lines
import DocLint.Proofs.Utf8

/-! # Lines and terminators of a text

A text is sliced at offsets that count bytes, so it matters where its characters start. A byte
tells whether it starts a character or goes on with one, and slices are there exactly at the
offsets of bytes that start one, and at the end.

Lines and terminators can be told apart in only one way. Lines have no characters of terminators
in them, so a terminator starts where the first such character stands, and a carriage return with
a line feed behind it is no terminator by itself.
-/

namespace DocLint.Text

/-! ## Offsets between characters -/

namespace Utf8

/-- The byte goes on with a character. -/
def IsContinuation (b : UInt8) : Prop :=
  0x80 ≤ b.toNat ∧ b.toNat < 0xC0

/-- The offset is within the bytes or at their end, and not inside a character. -/
def IsBoundary (bytes : Bytes) (n : Nat) : Prop :=
  n ≤ bytes.length ∧ ∀ b, bytes[n]? = some b → ¬ IsContinuation b

theorem isContinuation_toUInt8 {n : Nat} (h : n < 64) : IsContinuation (0x80 + n).toUInt8 := by
  rw [IsContinuation, toNat_toUInt8 (by omega)]
  omega

theorem not_isContinuation_toUInt8 {n : Nat} (h : n < 0x80 ∨ 0xC0 ≤ n) (h' : n < 256) :
    ¬ IsContinuation n.toUInt8 := by
  rw [IsContinuation, toNat_toUInt8 h']
  omega

/-- All bytes of a character but the first go on with it. -/
theorem encodeChar_eq_cons (c : Char) :
    ∃ first more, encodeChar c = first :: more ∧ ¬ IsContinuation first ∧
      ∀ b ∈ more, IsContinuation b := by
  have hcode := toNat_cases c
  have hmod : ∀ n, IsContinuation (0x80 + n % 64).toUInt8 := fun n =>
    isContinuation_toUInt8 (by omega)
  have htwo := List.forall_mem_singleton.mpr (hmod c.toNat)
  have hthree := List.forall_mem_cons.mpr ⟨hmod (c.toNat / 64), htwo⟩
  have hfour := List.forall_mem_cons.mpr ⟨hmod (c.toNat / 4096), hthree⟩
  unfold encodeChar
  simp only
  split
  · exact ⟨_, _, rfl, not_isContinuation_toUInt8 (by omega) (by omega), by simp⟩
  split
  · exact ⟨_, _, rfl, not_isContinuation_toUInt8 (by omega) (by omega), htwo⟩
  split
  · exact ⟨_, _, rfl, not_isContinuation_toUInt8 (by omega) (by omega), hthree⟩
  · exact ⟨_, _, rfl, not_isContinuation_toUInt8 (by omega) (by omega), hfour⟩

theorem encode_cons (c : Char) (text : List Char) :
    encode (c :: text) = encodeChar c ++ encode text := rfl

theorem isBoundary_zero (text : List Char) : IsBoundary (encode text) 0 := by
  refine ⟨Nat.zero_le _, fun b hb => ?_⟩
  cases text with
  | nil => simp at hb
  | cons c text =>
    obtain ⟨first, more, heq, hfirst, _⟩ := encodeChar_eq_cons c
    rw [encode_cons, heq, List.cons_append, List.getElem?_cons_zero] at hb
    exact Option.some.inj hb ▸ hfirst

/-- Bytes in front shift the boundaries behind them. -/
theorem isBoundary_append_iff (bytes more : Bytes) (n : Nat) :
    IsBoundary (bytes ++ more) (bytes.length + n) ↔ IsBoundary more n := by
  rw [IsBoundary, IsBoundary, List.length_append, Nat.add_le_add_iff_left,
    List.getElem?_append_right (Nat.le_add_right _ _), Nat.add_sub_cancel_left]

/-- Inside a character there is no boundary. -/
theorem not_isBoundary_inside {c : Char} {n : Nat} (hpos : 0 < n) (hn : n < (encodeChar c).length)
    (more : Bytes) : ¬ IsBoundary (encodeChar c ++ more) n := by
  intro h
  obtain ⟨first, later, heq, _, hlater⟩ := encodeChar_eq_cons c
  obtain ⟨k, rfl⟩ := Nat.exists_eq_add_of_lt hpos
  rw [heq, Nat.zero_add] at h hn
  have hk : k < later.length := by simpa using hn
  have hbyte : (first :: later ++ more)[k + 1]? = some later[k] := by
    rw [List.cons_append, List.getElem?_cons_succ, List.getElem?_append_left hk,
      List.getElem?_eq_getElem hk]
  exact h.2 _ hbyte (hlater _ (List.getElem_mem hk))

end Utf8

/-- Slices are there exactly at the offsets between characters. -/
theorem isSome_splitAt?_iff (text : List Char) (n : Nat) :
    (splitAt? text n).isSome ↔ Utf8.IsBoundary (Utf8.encode text) n := by
  fun_induction splitAt? text n with
  | case1 text => simpa using Utf8.isBoundary_zero text
  | case2 n => simp [Utf8.IsBoundary]
  | case3 c text n hle ih =>
    have hshift := Utf8.isBoundary_append_iff (Utf8.encodeChar c) (Utf8.encode text)
      (n + 1 - (Utf8.encodeChar c).length)
    rw [Nat.add_sub_of_le hle] at hshift
    rw [Option.isSome_map, ih]
    exact hshift.symm
  | case4 c text n hlt =>
    have hinside := Utf8.not_isBoundary_inside (Nat.succ_pos n) (Nat.not_le.mp hlt)
      (Utf8.encode text)
    exact iff_of_false Bool.false_ne_true hinside

/-! ## Turns of the loop -/

/-- Some turns on `content` have taken the lines and left `rest`. -/
inductive Taken (content : List Char) : List (List Char) → List Char → Prop where
  | start : Taken content [] content
  | turn {lines : List (List Char)} {line rest next : List Char} :
      Taken content lines rest → rest ≠ [] → takeLine? rest = some (line, next) →
      Taken content (lines ++ [line]) next

/-- A turn slices the text at the offset. -/
inductive SlicedAt (text : List Char) : Nat → Prop where
  /-- Where the line ends. -/
  | stop {stop : Nat} : lineEnd? text = some stop → SlicedAt text stop
  /-- Behind the terminator. -/
  | behind {stop : Nat} {line ending : List Char} :
      lineEnd? text = some stop → splitAt? text stop = some (line, ending) →
      SlicedAt text (stop + terminatorSize ending)

/-- A text is only cut where a character starts. -/
theorem SlicedAt.isBoundary {text : List Char} {n : Nat} (h : SlicedAt text n) :
    Utf8.IsBoundary (Utf8.encode text) n := by
  -- the turn has a result, so both of its slices are there
  obtain ⟨line, rest, htake⟩ := exists_takeLine? text
  cases h with
  | stop hstop =>
    simp only [takeLine?, hstop, Option.bind_eq_bind, Option.bind_eq_some_iff] at htake
    obtain ⟨atEnd, hatEnd, _⟩ := htake
    exact (isSome_splitAt?_iff text _).mp (Option.isSome_of_mem hatEnd)
  | behind hstop hsplit =>
    simp only [takeLine?, hstop, Option.bind_eq_bind, hsplit, Option.bind_some,
      Option.bind_eq_some_iff] at htake
    obtain ⟨behind, hbehind, _⟩ := htake
    exact (isSome_splitAt?_iff text _).mp (Option.isSome_of_mem hbehind)

theorem suffix_of_takeLine? {text line rest : List Char} (h : takeLine? text = some (line, rest)) :
    rest <:+ text := by
  obtain ⟨_, ⟨_, rfl⟩ | ⟨ending, rfl, _⟩⟩ := takeLine?_cases h
  · exact List.nil_suffix
  · exact List.suffix_append _ _

section Turns

variable {content rest : List Char} {lines : List (List Char)}

theorem Taken.suffix (h : Taken content lines rest) : rest <:+ content := by
  induction h with
  | start => exact List.suffix_rfl
  | turn _ _ htake ih => exact (suffix_of_takeLine? htake).trans ih

/-- What has been taken and what is still to be taken are the physical lines. -/
theorem Taken.lines_append (h : Taken content lines rest) :
    lines ++ physicalLines rest = physicalLines content := by
  induction h with
  | start => rfl
  | @turn lines line rest next _ hne htake ih =>
    rw [List.append_assoc, List.singleton_append, ← physicalLines_of_takeLine? hne htake, ih]

/-- Turns go on until nothing is left. -/
theorem Taken.finish (h : Taken content lines rest) :
    Taken content (lines ++ physicalLines rest) [] := by
  induction rest using turn_induction generalizing lines with
  | nil => simpa using h
  | turn rest line next hne htake ih =>
    have hnext := ih (h.turn hne htake)
    rwa [List.append_assoc, List.singleton_append, ← physicalLines_of_takeLine? hne htake] at hnext

end Turns

/-! ## The one decomposition -/

/-- A line and what stands between it and the next one. -/
@[ext] structure Piece where
  line : List Char
  ending : List Char

/-- The characters of pieces in a row. -/
def joined (pieces : List Piece) : List Char :=
  pieces.flatMap fun piece => piece.line ++ piece.ending

/-- The pieces are a reading of the text as lines and terminators. -/
structure Decomposes (content : List Char) (pieces : List Piece) : Prop where
  content_eq : content = joined pieces
  /-- No line has a character of a terminator in it. -/
  inline : ∀ piece ∈ pieces, ∀ c ∈ piece.line, IsInline c
  /-- Every line has a terminator. It may be missing at the end, unless the line is empty. -/
  ending : ∀ before piece after, pieces = before ++ piece :: after →
    (∃ terminator : Terminator, piece.ending = terminator.chars) ∨
      piece.ending = [] ∧ after = [] ∧ piece.line ≠ []
  /-- A carriage return that is a terminator has no line feed behind it. -/
  carriage : ∀ before piece after, pieces = before ++ piece :: after →
    piece.ending = ['\r'] → (joined after).head? ≠ some '\n'

@[simp] theorem joined_nil : joined [] = [] := rfl

@[simp] theorem joined_cons (piece : Piece) (pieces : List Piece) :
    joined (piece :: pieces) = piece.line ++ piece.ending ++ joined pieces := rfl

/-- What holds at every place of a list holds at its first place and at every later one. -/
theorem forall_place_cons_iff {α : Type} {P : α → List α → Prop} {a : α} {l : List α} :
    (∀ before x after, a :: l = before ++ x :: after → P x after) ↔
      P a l ∧ ∀ before x after, l = before ++ x :: after → P x after := by
  constructor
  · intro h
    exact ⟨h [] a l rfl, fun before x after heq => h (a :: before) x after (by rw [heq]; rfl)⟩
  · rintro ⟨hfirst, hlater⟩ before x after heq
    rcases List.cons_eq_append_iff.mp heq with ⟨rfl, hcons⟩ | ⟨before, rfl, htail⟩
    · obtain ⟨rfl, rfl⟩ := List.cons.inj hcons
      exact hfirst
    · exact hlater before x after htail

section Decompositions

variable {content rest : List Char} {piece : Piece} {pieces other : List Piece}

theorem Decomposes.tail (h : Decomposes content (piece :: pieces)) :
    Decomposes (joined pieces) pieces where
  content_eq := rfl
  inline later hlater := h.inline later (List.mem_cons_of_mem _ hlater)
  ending := (forall_place_cons_iff.mp h.ending).2
  carriage := (forall_place_cons_iff.mp h.carriage).2

/-- A line with its terminator, if it has one, is what a turn takes off. -/
theorem Decomposes.takeLine?_eq (h : Decomposes content (piece :: pieces)) :
    takeLine? content = some (piece.line, joined pieces) := by
  have hline := h.inline piece List.mem_cons_self
  rw [h.content_eq, joined_cons]
  rcases (forall_place_cons_iff.mp h.ending).1 with ⟨ending, hending⟩ | ⟨hending, hafter, _⟩
  · rw [hending]
    refine takeLine?_terminator hline ending fun hcarriage => ?_
    exact (forall_place_cons_iff.mp h.carriage).1 (by rw [hending, hcarriage]; rfl)
  · rw [hending, hafter, joined_nil, List.append_nil, List.append_nil]
    exact takeLine?_inline hline

theorem Decomposes.ne_nil (h : Decomposes content (piece :: pieces)) : content ≠ [] := by
  rw [h.content_eq, joined_cons]
  rcases (forall_place_cons_iff.mp h.ending).1 with ⟨ending, hending⟩ | ⟨_, _, hline⟩
  · have hne : ending.chars ≠ [] := List.ne_nil_of_length_pos ending.length_chars_pos
    simp [hending, hne]
  · simp [hline]

/-- There is one way to decompose a text: both begin with the line that is taken off first. -/
theorem Decomposes.unique (h : Decomposes content pieces) (h' : Decomposes content other) :
    pieces = other := by
  induction pieces generalizing content other with
  | nil =>
    cases other with
    | nil => rfl
    | cons => exact absurd h.content_eq h'.ne_nil
  | cons piece pieces ih =>
    cases other with
    | nil => exact absurd h'.content_eq h.ne_nil
    | cons piece' other =>
      -- a turn takes off the first line of both, and the same is left of both
      obtain ⟨hline, hrest⟩ := Prod.mk.inj
        (Option.some.inj (h.takeLine?_eq.symm.trans h'.takeLine?_eq))
      have hending : piece.ending = piece'.ending := by
        have heq := h.content_eq.symm.trans h'.content_eq
        rw [joined_cons, joined_cons, hline, hrest] at heq
        exact List.append_cancel_left (List.append_cancel_right heq)
      rw [Piece.ext hline hending, ih h.tail (hrest ▸ h'.tail)]

theorem decomposes_nil : Decomposes [] [] where
  content_eq := rfl
  inline := by simp
  ending := by simp
  carriage := by simp

/-- A piece goes in front if its line is inline and its ending is whole. -/
theorem Decomposes.cons (h : Decomposes rest pieces) {line ending : List Char}
    (hline : ∀ c ∈ line, IsInline c)
    (hending : (∃ terminator : Terminator, ending = terminator.chars) ∨
      ending = [] ∧ pieces = [] ∧ line ≠ [])
    (hcarriage : ending = ['\r'] → rest.head? ≠ some '\n') :
    Decomposes (line ++ ending ++ rest) (⟨line, ending⟩ :: pieces) where
  content_eq := by rw [h.content_eq, joined_cons]
  inline := List.forall_mem_cons.mpr ⟨hline, h.inline⟩
  ending := forall_place_cons_iff.mpr ⟨hending, h.ending⟩
  carriage := forall_place_cons_iff.mpr ⟨h.content_eq ▸ hcarriage, h.carriage⟩

end Decompositions

/-- The lines of a cut, with their terminators. -/
theorem CutsInto.exists_decomposes {content : List Char} {lines : List (List Char)}
    (h : CutsInto content lines) :
    ∃ pieces, Decomposes content pieces ∧ pieces.map Piece.line = lines := by
  induction h with
  | nil => exact ⟨[], decomposes_nil, rfl⟩
  | @last line hline hne =>
    have hpiece : Decomposes (line ++ [] ++ []) [⟨line, []⟩] :=
      decomposes_nil.cons hline (.inr ⟨rfl, rfl, hne⟩) (by simp)
    exact ⟨[⟨line, []⟩], by simpa using hpiece, rfl⟩
  | @line line rest lines ending hline hend _ ih =>
    obtain ⟨pieces, hpieces, rfl⟩ := ih
    refine ⟨⟨line, ending.chars⟩ :: pieces, hpieces.cons hline (.inl ⟨ending, rfl⟩) ?_, rfl⟩
    intro hchars
    apply hend
    cases ending with
    | feed => simp [Terminator.chars] at hchars
    | both => simp [Terminator.chars] at hchars
    | carriage => rfl

/-- Taking lines off a text comes to an end with the physical lines. Whatever has been taken on
    the way, a further turn finds its slices and leaves less, it slices between characters only,
    and no line is taken that is not a physical one. There is exactly one way to read the text as
    lines and terminators, and its lines are the physical ones; only the empty text has none. -/
theorem physicalLines_unique_decomposition (content : List Char) :
    cutLines? content = some (physicalLines content) ∧
    Taken content (physicalLines content) [] ∧
    (∀ lines rest, Taken content lines rest →
      lines ++ physicalLines rest = physicalLines content ∧ rest <:+ content ∧
      (rest ≠ [] → ∃ line next, takeLine? rest = some (line, next) ∧ next.length < rest.length) ∧
      ∀ n, SlicedAt rest n → Utf8.IsBoundary (Utf8.encode rest) n) ∧
    (∃ pieces, pieces.map Piece.line = physicalLines content ∧
      ∀ other, Decomposes content other ↔ other = pieces) ∧
    ((physicalLines content).length = 0 ↔ content = []) := by
  obtain ⟨pieces, hpieces, hlines⟩ := (cutsInto_physicalLines content).exists_decomposes
  refine ⟨cutLines?_eq_some content, Taken.start.finish, fun lines rest h => ?_,
    ⟨pieces, hlines, fun other => ?_⟩, ?_⟩
  · refine ⟨h.lines_append, h.suffix, fun hne => ?_, fun n hn => hn.isBoundary⟩
    obtain ⟨line, next, htake⟩ := exists_takeLine? rest
    exact ⟨line, next, htake, length_lt_of_takeLine? hne htake⟩
  · constructor
    · intro hother
      exact hother.unique hpieces
    · rintro rfl
      exact hpieces
  · rw [List.length_eq_zero_iff, physicalLines_eq_nil_iff]

example : physicalLines "é\r\r\n\n\rx".toList = ["é".toList, [], [], [], "x".toList] := by decide

end DocLint.Text
