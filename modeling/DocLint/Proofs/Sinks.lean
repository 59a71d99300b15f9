-- SUMMARY: What writing to a sink leaves in it: a prefix of what was asked, all of it unless the sink refused.
import DocLint.Output.Sink

/-! # Writing to sinks

Whatever is written in a row, in one go or in several, goes the same way: a sink that
refuses nothing has taken all of it, and one that refuses something has taken the part
before, and is asked for nothing more.
-/

namespace DocLint.Sink

/-- The bytes of pieces of text in a row. -/
def bytesOf (pieces : List String) : Bytes :=
  pieces.flatMap fun piece => Text.Utf8.encode piece.toList

@[simp] theorem bytesOf_nil : bytesOf [] = [] := rfl

@[simp] theorem bytesOf_cons (piece : String) (pieces : List String) :
    bytesOf (piece :: pieces) = Text.Utf8.encode piece.toList ++ bytesOf pieces := rfl

theorem bytesOf_eq_encode (pieces : List String) :
    bytesOf pieces = Text.Utf8.encode (pieces.flatMap String.toList) := by
  induction pieces with
  | nil => rfl
  | cons piece pieces ih => simp [ih]

/-! ## One request -/

/-- What is taken of a piece is its start. -/
theorem write_bytes (sink : Sink) (piece : String) :
    (sink.write piece).1.bytes = sink.bytes ++ (Text.Utf8.encode piece.toList).take
      (sink.room sink.log (Text.Utf8.encode piece.toList)) := by
  simp [write, bytes, Request.taken]

theorem write_hasRefused (sink : Sink) (piece : String) :
    (sink.write piece).1.hasRefused = (sink.hasRefused || !(sink.write piece).2) := by
  simp [write, hasRefused, Bool.or_comm]

/-- What was refused stays refused. -/
theorem write_hasRefused_of_refused {sink : Sink} (h : sink.hasRefused = true) (piece : String) :
    (sink.write piece).1.hasRefused = true := by
  rw [write_hasRefused, h, Bool.true_or]

theorem write_snd_eq_true_iff (sink : Sink) (piece : String) :
    (sink.write piece).2 = true ↔ (Text.Utf8.encode piece.toList).length ≤
      sink.room sink.log (Text.Utf8.encode piece.toList) := by
  simp [write, Request.isRefused]

/-! ## Requests in a row -/

theorem writeOn_of_taken {result : Sink × Bool} (h : result.2 = true) (pieces : List String) :
    writeOn result pieces = result.1.writeAll pieces := by
  obtain ⟨next, ok⟩ := result
  obtain rfl : ok = true := h
  rfl

theorem writeOn_of_refused {result : Sink × Bool} (h : result.2 = false) (pieces : List String) :
    writeOn result pieces = result := by
  obtain ⟨next, ok⟩ := result
  obtain rfl : ok = false := h
  rfl

theorem writeAll_cons (sink : Sink) (piece : String) (rest : List String) :
    sink.writeAll (piece :: rest) = writeOn (sink.write piece) rest := by
  rw [writeAll]
  rcases sink.write piece with ⟨next, ok⟩
  cases ok <;> rfl

theorem writeAll_singleton (sink : Sink) (piece : String) :
    sink.writeAll [piece] = sink.write piece := by
  rw [writeAll_cons]
  rcases sink.write piece with ⟨next, ok⟩
  cases ok <;> rfl

/-- Writing pieces in a row is writing the first ones, and then the others if nothing was refused.
    -/
theorem writeAll_append (sink : Sink) (pieces more : List String) :
    sink.writeAll (pieces ++ more) = writeOn (sink.writeAll pieces) more := by
  induction pieces generalizing sink with
  | nil => rfl
  | cons piece pieces ih =>
    rw [List.cons_append, writeAll_cons, writeAll_cons]
    cases hok : (sink.write piece).2 with
    | false => simp only [writeOn_of_refused hok]
    | true => simp only [writeOn_of_taken hok, ih]

/-- Going on after each batch, unless a batch was refused, is writing the batches in a row. -/
theorem foldl_writeOn {α : Type} (batch : α → List String) (items : List α) (sink : Sink)
    (before : List String) :
    items.foldl (fun written item => writeOn written (batch item)) (sink.writeAll before) =
      sink.writeAll (before ++ items.flatMap batch) := by
  induction items generalizing before with
  | nil => simp
  | cons item items ih =>
    rw [List.foldl_cons, ← writeAll_append, ih]
    simp

/-- What writing leaves: the sink has taken all of the text, or a part of it up to a refusal,
    and gives the same reason for refusals as before. -/
structure Wrote (sink : Sink) (text : Bytes) (result : Sink × Bool) : Prop where
  refusal_eq : result.1.refusal = sink.refusal
  hasRefused_eq : result.1.hasRefused = (sink.hasRefused || !result.2)
  all : result.2 = true → result.1.bytes = sink.bytes ++ text
  part : ∃ taken, taken <+: text ∧ result.1.bytes = sink.bytes ++ taken

theorem wrote_write (sink : Sink) (piece : String) :
    Wrote sink (Text.Utf8.encode piece.toList) (sink.write piece) where
  refusal_eq := rfl
  hasRefused_eq := write_hasRefused sink piece
  all := by
    intro hok
    rw [write_bytes, List.take_of_length_le ((write_snd_eq_true_iff sink piece).mp hok)]
  part := ⟨_, List.take_prefix _ _, write_bytes sink piece⟩

/-- Writing more after something was written, if it was all taken. -/
theorem Wrote.writeOn {sink : Sink} {text more : Bytes} {result : Sink × Bool}
    (h : Wrote sink text result) {pieces : List String}
    (hmore : result.2 = true → Wrote result.1 more (result.1.writeAll pieces)) :
    Wrote sink (text ++ more) (Sink.writeOn result pieces) := by
  cases hok : result.2 with
  | false =>
    rw [writeOn_of_refused hok]
    obtain ⟨taken, hprefix, hbytes⟩ := h.part
    exact ⟨h.refusal_eq, h.hasRefused_eq, fun hall => absurd hall (by simp [hok]),
      taken, hprefix.trans (List.prefix_append _ _), hbytes⟩
  | true =>
    rw [writeOn_of_taken hok]
    have hnext := hmore hok
    have hbefore := h.all hok
    refine ⟨hnext.refusal_eq.trans h.refusal_eq, ?_, ?_, ?_⟩
    · rw [hnext.hasRefused_eq, h.hasRefused_eq, hok]
      simp
    · intro hall
      rw [hnext.all hall, hbefore, List.append_assoc]
    · obtain ⟨taken, hprefix, hbytes⟩ := hnext.part
      refine ⟨text ++ taken, (List.prefix_append_right_inj text).mpr hprefix, ?_⟩
      rw [hbytes, hbefore, List.append_assoc]

/-- By induction over the pieces: writing them leaves a sink as writing their bytes would. -/
theorem wrote_writeAll (sink : Sink) (pieces : List String) :
    Wrote sink (bytesOf pieces) (sink.writeAll pieces) := by
  induction pieces generalizing sink with
  | nil => exact ⟨rfl, by simp [writeAll], by simp [writeAll], [], by simp, by simp [writeAll]⟩
  | cons piece pieces ih =>
    rw [writeAll_cons, bytesOf_cons]
    exact (wrote_write sink piece).writeOn fun _ => ih _

/-- The same for a sink that was not written to before. -/
theorem writeAll_of_new {sink : Sink} (hnew : sink.log = []) (pieces : List String) :
    (sink.writeAll pieces).1.hasRefused = !(sink.writeAll pieces).2 ∧
      (sink.writeAll pieces).1.bytes <+: bytesOf pieces ∧
      ((sink.writeAll pieces).2 = true → (sink.writeAll pieces).1.bytes = bytesOf pieces) := by
  have hwrote := wrote_writeAll sink pieces
  have hclean : sink.hasRefused = false := by simp [hasRefused, hnew]
  have hnone : sink.bytes = [] := by simp [bytes, hnew]
  obtain ⟨taken, hprefix, hbytes⟩ := hwrote.part
  refine ⟨?_, ?_, ?_⟩
  · rw [hwrote.hasRefused_eq, hclean, Bool.false_or]
  · rw [hbytes, hnone, List.nil_append]
    exact hprefix
  · intro hok
    rw [hwrote.all hok, hnone, List.nil_append]

/-! ## Sinks that take everything -/

/-- The sink has room for whatever it is asked to take, at any time. -/
def TakesAll (sink : Sink) : Prop :=
  ∀ log asked, asked.length ≤ sink.room log asked

theorem takesAll_unlimited : unlimited.TakesAll :=
  fun _ _ => Nat.le_refl _

theorem TakesAll.write {sink : Sink} (h : sink.TakesAll) (piece : String) :
    (sink.write piece).2 = true :=
  (write_snd_eq_true_iff sink piece).mpr (h _ _)

theorem TakesAll.writeAll {sink : Sink} (h : sink.TakesAll) (pieces : List String) :
    (sink.writeAll pieces).2 = true := by
  induction pieces generalizing sink with
  | nil => rfl
  | cons piece pieces ih =>
    rw [writeAll_cons, writeOn_of_taken (h.write piece)]
    exact ih h

/-- A sink that takes everything has everything. -/
theorem TakesAll.writeAll_bytes {sink : Sink} (h : sink.TakesAll) (pieces : List String) :
    (sink.writeAll pieces).1.bytes = sink.bytes ++ bytesOf pieces :=
  (wrote_writeAll sink pieces).all (h.writeAll pieces)

/-! ## Sinks that take complete lines -/

/-- The cut is the text up to the end of its `k`-th line, or all of a text with fewer lines
    that are complete. -/
def CutAfterLine (k : Nat) (text cut : Bytes) : Prop :=
  cut <+: text ∧ (cut = text ∧ text.count newline < k ∨
    cut.count newline = k ∧ (cut = [] ∨ cut.getLast? = some newline))

/-- The room up to the end of a line is a cut after that line. -/
theorem cutAfterLine_take_lineRoom (k : Nat) (text : Bytes) :
    CutAfterLine k text (text.take (lineRoom k text)) := by
  refine ⟨List.take_prefix _ _, ?_⟩
  induction text generalizing k with
  | nil =>
    cases k with
    | zero => exact .inr ⟨rfl, .inl rfl⟩
    | succ k => exact .inl ⟨rfl, Nat.succ_pos k⟩
  | cons b rest ih =>
    cases k with
    | zero => exact .inr ⟨rfl, .inl rfl⟩
    | succ k =>
      have htake : (b :: rest).take (lineRoom (k + 1) (b :: rest)) =
          b :: rest.take (lineRoom (if b = newline then k else k + 1) rest) := by
        rw [lineRoom, Nat.add_comm, List.take_succ_cons]
      rw [htake]
      by_cases hb : b = newline
      · subst hb
        rw [if_pos rfl]
        rcases ih k with ⟨hall, hfew⟩ | ⟨hcount, hend⟩
        · refine .inl ⟨by rw [hall], ?_⟩
          rw [List.count_cons_self]
          omega
        · refine .inr ⟨by rw [List.count_cons_self, hcount], .inr ?_⟩
          rcases hend with hnil | hlast
          · rw [hnil]
            rfl
          · rw [List.getLast?_cons, hlast]
            rfl
      · rw [if_neg hb]
        rcases ih (k + 1) with ⟨hall, hfew⟩ | ⟨hcount, hend⟩
        · refine .inl ⟨by rw [hall], ?_⟩
          rwa [List.count_cons_of_ne hb]
        · refine .inr ⟨by rw [List.count_cons_of_ne hb, hcount], .inr ?_⟩
          rcases hend with hnil | hlast
          · rw [hnil] at hcount
            exact absurd hcount (by simp)
          · rw [List.getLast?_cons, hlast]
            rfl

/-- The room in a text that goes on after one that fits. -/
theorem lineRoom_append_of_fits {k : Nat} {text : Bytes} (h : text.length ≤ lineRoom k text)
    (more : Bytes) :
    lineRoom k (text ++ more) = text.length + lineRoom (k - text.count newline) more := by
  induction text generalizing k with
  | nil => simp
  | cons b rest ih =>
    cases k with
    | zero => exact absurd h (by simp [lineRoom])
    | succ k =>
      rw [lineRoom, List.length_cons] at h
      rw [List.cons_append, lineRoom, ih (by omega), List.length_cons]
      by_cases hb : b = newline
      · subst hb
        rw [if_pos rfl, List.count_cons_self]
        have hleft : k + 1 - (rest.count newline + 1) = k - rest.count newline := by omega
        rw [hleft]
        omega
      · rw [if_neg hb, List.count_cons_of_ne hb]
        omega

/-- Nothing is taken of what comes after a text that does not fit. -/
theorem lineRoom_append_of_not_fits {k : Nat} {text : Bytes} (h : lineRoom k text < text.length)
    (more : Bytes) : lineRoom k (text ++ more) = lineRoom k text := by
  induction text generalizing k with
  | nil => exact absurd h (by simp)
  | cons b rest ih =>
    cases k with
    | zero => rfl
    | succ k =>
      rw [lineRoom, List.length_cons] at h
      rw [List.cons_append, lineRoom, lineRoom, ih (by omega)]

theorem count_taken (sink : Sink) (b : UInt8) :
    (sink.log.flatMap Request.taken).count b = sink.bytes.count b :=
  ((List.reverse_perm sink.log).symm.flatMap_right Request.taken).count_eq b

/-- A sink for complete lines cuts all that is written to it, in however many pieces, at
    one place. -/
theorem writeAll_of_lines {limit : Nat} {reason : String} {sink : Sink}
    (hroom : sink.room = (lines limit reason).room) (pieces : List String) :
    (sink.writeAll pieces).1.bytes = sink.bytes ++ (bytesOf pieces).take
      (lineRoom (limit - sink.bytes.count newline) (bytesOf pieces)) := by
  induction pieces generalizing sink with
  | nil => simp [writeAll]
  | cons piece pieces ih =>
    have hasked : sink.room sink.log (Text.Utf8.encode piece.toList) =
        lineRoom (limit - sink.bytes.count newline) (Text.Utf8.encode piece.toList) := by
      rw [hroom, ← count_taken]
      rfl
    have hok := write_snd_eq_true_iff sink piece
    have hbytes := write_bytes sink piece
    rw [hasked] at hok hbytes
    rw [writeAll_cons, bytesOf_cons]
    generalize Text.Utf8.encode piece.toList = asked at hok hbytes
    by_cases hfits : asked.length ≤ lineRoom (limit - sink.bytes.count newline) asked
    · rw [List.take_of_length_le hfits] at hbytes
      have hnext : (sink.write piece).1.room = (lines limit reason).room := hroom
      rw [writeOn_of_taken (hok.mpr hfits), ih hnext, hbytes, lineRoom_append_of_fits hfits,
        List.count_append, Nat.sub_add_eq, List.take_length_add_append, List.append_assoc]
    · have hrefused : (sink.write piece).2 = false := by
        rw [← Bool.not_eq_true, hok]
        exact hfits
      have hshort := Nat.lt_of_not_le hfits
      rw [writeOn_of_refused hrefused, hbytes, lineRoom_append_of_not_fits hshort,
        List.take_append_of_le_length (Nat.le_of_lt hshort)]

/-- A sink for lines takes the first ones, however they are cut into pieces. -/
theorem lines_writeAll_bytes (limit : Nat) (reason : String) (pieces : List String) :
    ((lines limit reason).writeAll pieces).1.bytes =
      (bytesOf pieces).take (lineRoom limit (bytesOf pieces)) :=
  writeAll_of_lines rfl pieces

end DocLint.Sink
