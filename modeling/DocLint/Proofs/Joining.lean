-- SUMMARY: The physical lines of texts that are put together, and of a text whose terminators are changed.
import DocLint.Proofs.Lines

/-! # Putting texts together

The lines of two texts in a row are the lines of the first and then those of the second, if no
line and no terminator goes on across the border. Terminators behind a text do not keep to that:
the first of them may end a line that is there already, or be the second half of a terminator.
Even so they bring no other lines than empty ones.
-/

namespace DocLint.Text

/-- The text is empty or ends in a terminator. -/
def IsClosed (text : List Char) : Prop :=
  text = [] ∨ text.getLast? = some '\n' ∨ text.getLast? = some '\r'

instance (text : List Char) : Decidable (IsClosed text) :=
  inferInstanceAs
    (Decidable (text = [] ∨ text.getLast? = some '\n' ∨ text.getLast? = some '\r'))

/-- A terminator would reach from the one text into the other. -/
def Merges (text more : List Char) : Prop :=
  text.getLast? = some '\r' ∧ more.head? = some '\n'

instance (text more : List Char) : Decidable (Merges text more) :=
  inferInstanceAs (Decidable (text.getLast? = some '\r' ∧ more.head? = some '\n'))

theorem IsClosed.of_append {text rest : List Char} (h : IsClosed (text ++ rest)) :
    IsClosed rest := by
  by_cases hne : rest = []
  · exact .inl hne
  · have hlast : (text ++ rest).getLast? = rest.getLast? := by
      obtain ⟨c, hc⟩ := Option.ne_none_iff_exists'.mp (mt List.getLast?_eq_none_iff.mp hne)
      rw [List.getLast?_append, hc]
      rfl
    rw [IsClosed, hlast] at h
    exact .inr (h.resolve_left fun hnil => hne (List.append_eq_nil_iff.mp hnil).2)

theorem Merges.append_left {rest more : List Char} (h : Merges rest more) (text : List Char) :
    Merges (text ++ rest) more := by
  refine ⟨?_, h.2⟩
  rw [List.getLast?_append, h.1]
  rfl

/-! ## Lines in a row -/

theorem CutsInto.inline {text : List Char} {lines : List (List Char)} (h : CutsInto text lines) :
    ∀ line ∈ lines, ∀ c ∈ line, IsInline c := by
  induction h with
  | nil => nofun
  | last hline _ => simpa using hline
  | line _ hline _ _ ih => exact List.forall_mem_cons.mpr ⟨hline, ih⟩

/-- Lines of two texts in a row, where nothing runs over from one text into the other. -/
theorem CutsInto.append {text more : List Char} {lines moreLines : List (List Char)}
    (h : CutsInto text lines) (hmore : CutsInto more moreLines) (hclosed : IsClosed text)
    (hmeet : ¬ Merges text more) : CutsInto (text ++ more) (lines ++ moreLines) := by
  induction h with
  | nil => exact hmore
  | last hline hne =>
    -- the last character ends no line, so the text is not closed
    rcases hclosed with rfl | hlast | hlast
    · exact absurd rfl hne
    · exact absurd rfl (hline _ (List.mem_of_getLast? hlast)).1
    · exact absurd rfl (hline _ (List.mem_of_getLast? hlast)).2
  | @line line rest lines ending hline hend hrest ih =>
    rw [List.append_assoc]
    refine .line ending hline ?_
      (ih hclosed.of_append fun hrestMeet => hmeet (hrestMeet.append_left _))
    rintro rfl hhead
    cases rest with
    | nil => exact hmeet ⟨by simp [Terminator.chars], hhead⟩
    | cons c rest => exact hend rfl hhead

theorem physicalLines_append {text more : List Char} (hclosed : IsClosed text)
    (hmeet : ¬ Merges text more) :
    physicalLines (text ++ more) = physicalLines text ++ physicalLines more :=
  ((cutsInto_physicalLines text).append (cutsInto_physicalLines more) hclosed
    hmeet).physicalLines_eq

/-- A text with the given lines, each with a line feed after it. -/
def ofLines (lines : List (List Char)) : List Char :=
  lines.flatMap (· ++ ['\n'])

/-- Lines that are written out, each with its end, are read back. -/
theorem physicalLines_ofLines {lines : List (List Char)}
    (h : ∀ line ∈ lines, ∀ c ∈ line, IsInline c) : physicalLines (ofLines lines) = lines := by
  apply CutsInto.physicalLines_eq
  induction lines with
  | nil => exact .nil
  | cons line lines ih =>
    have hfirst := List.forall_mem_cons.mp h
    exact .line .feed hfirst.1 nofun (ih hfirst.2)

/-- A line can be put in at any place. -/
theorem physicalLines_insert {fix : List Char} (hfix : ∀ c ∈ fix, IsInline c) (text : List Char)
    (i : Nat) :
    let lines := physicalLines text
    physicalLines (ofLines (lines.take i ++ fix :: lines.drop i)) =
      lines.take i ++ fix :: lines.drop i := by
  have hinline := (cutsInto_physicalLines text).inline
  apply physicalLines_ofLines
  intro line hline
  rcases List.mem_append.mp hline with hline | hline
  · exact hinline line (List.mem_of_mem_take hline)
  · rcases List.mem_cons.mp hline with rfl | hline
    · exact hfix
    · exact hinline line (List.mem_of_mem_drop hline)

/-! ## Terminators alone -/

/-- Terminators in a row end nothing but empty lines. -/
theorem physicalLines_of_terminators {text : List Char} (h : ∀ c ∈ text, ¬ IsInline c) :
    ∃ k, physicalLines text = List.replicate k [] := by
  have hcut := cutsInto_physicalLines text
  generalize physicalLines text = lines at hcut ⊢
  induction hcut with
  | nil => exact ⟨0, rfl⟩
  | @last line hline hne =>
    obtain ⟨c, hc⟩ := List.exists_mem_of_ne_nil line hne
    exact absurd (hline c hc) (h c hc)
  | @line line rest lines ending hline _ _ ih =>
    -- the characters of a line would be inline ones in the text
    have hnil : line = [] := List.eq_nil_iff_forall_not_mem.mpr fun c hc =>
      h c (List.mem_append_left _ (List.mem_append_left _ hc)) (hline c hc)
    obtain ⟨k, rfl⟩ := ih fun c hc => h c (List.mem_append_right _ hc)
    exact ⟨k + 1, by rw [hnil, List.replicate_succ]⟩

/-- Line feeds in front of a text are as many empty lines. -/
theorem physicalLines_feeds_append (k : Nat) (text : List Char) :
    physicalLines (List.replicate k '\n' ++ text) = List.replicate k [] ++ physicalLines text := by
  induction k with
  | zero => rfl
  | succ k ih =>
    have hfeed : physicalLines ('\n' :: (List.replicate k '\n' ++ text)) =
        [] :: physicalLines (List.replicate k '\n' ++ text) := physicalLines_terminator .feed nofun
    rw [List.replicate_succ, List.cons_append, hfeed, ih]
    rfl

/-- Terminators behind a text add empty lines at most. The first of them may end the last line,
    or go with a carriage return that stands there. -/
theorem CutsInto.append_terminators {text more : List Char} {lines : List (List Char)}
    (h : CutsInto text lines) (hmore : ∀ c ∈ more, ¬ IsInline c) :
    ∃ k, physicalLines (text ++ more) = lines ++ List.replicate k [] := by
  induction h with
  | nil => exact physicalLines_of_terminators hmore
  | @last line hline hne =>
    obtain ⟨k, hk⟩ := physicalLines_of_terminators hmore
    cases k with
    | zero =>
      obtain rfl := (physicalLines_eq_nil_iff more).mp hk
      exact ⟨0, by rw [List.append_nil, physicalLines_inline hline hne]; rfl⟩
    | succ k => exact ⟨k, by rw [physicalLines_inline_append hline hk, List.append_nil]; rfl⟩
  | @line line rest lines ending hline hend hrest ih =>
    rw [List.append_assoc, List.append_assoc]
    by_cases hmeet : ending = .carriage ∧ (rest ++ more).head? = some '\n'
    · obtain ⟨rfl, hhead⟩ := hmeet
      cases rest with
      | cons c rest => exact absurd hhead (hend rfl)
      | nil =>
        obtain ⟨tail, rfl⟩ := List.head?_eq_some_iff.mp hhead
        obtain ⟨k, hk⟩ := physicalLines_of_terminators (List.forall_mem_cons.mp hmore).2
        obtain rfl := hrest.physicalLines_eq
        have hboth : physicalLines (Terminator.carriage.chars ++ ([] ++ '\n' :: tail)) =
            [] :: List.replicate k [] := by
          rw [← hk]
          exact physicalLines_terminator .both nofun
        exact ⟨k, by rw [physicalLines_inline_append hline hboth, List.append_nil]; rfl⟩
    · obtain ⟨k, hk⟩ := ih
      have hfirst : physicalLines (ending.chars ++ (rest ++ more)) =
          [] :: physicalLines (rest ++ more) :=
        physicalLines_terminator ending fun hcarriage hhead => hmeet ⟨hcarriage, hhead⟩
      exact ⟨k, by rw [physicalLines_inline_append hline hfirst, hk, List.append_nil]; rfl⟩

/-! ## One kind of terminator -/

/-- The text with a line feed for every terminator. -/
def withFeeds : List Char → List Char
  | [] => []
  | '\r' :: '\n' :: rest => '\n' :: withFeeds rest
  | '\r' :: rest => '\n' :: withFeeds rest
  | c :: rest => c :: withFeeds rest

/-- It does not matter which terminators there are. -/
theorem physicalLines_withFeeds (text : List Char) :
    physicalLines (withFeeds text) = physicalLines text := by
  have hfeed : ∀ rest, physicalLines ('\n' :: rest) = [] :: physicalLines rest :=
    fun _ => physicalLines_terminator .feed nofun
  fun_induction withFeeds text with
  | case1 => rfl
  | case2 rest ih =>
    rw [hfeed, ih]
    exact (physicalLines_terminator .both nofun).symm
  | case3 rest hne ih =>
    rw [hfeed, ih]
    refine (physicalLines_terminator .carriage fun _ hhead => ?_).symm
    obtain ⟨tail, rfl⟩ := List.head?_eq_some_iff.mp hhead
    exact hne tail rfl
  | case4 c rest _ hcarriage ih =>
    by_cases hc : c = '\n'
    · rw [hc, hfeed, hfeed, ih]
    · have hinline : IsInline c := ⟨hc, hcarriage⟩
      rw [physicalLines_cons_inline hinline, physicalLines_cons_inline hinline, ih]

example : withFeeds "a\r\nb\rc\n\r".toList = "a\nb\nc\n\n".toList := by decide

end DocLint.Text
