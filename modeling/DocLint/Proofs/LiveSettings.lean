-- SUMMARY: Which settings of a valid configuration can take effect: those that fit how texts and paths are cut.
import DocLint.Proofs.Joining
import DocLint.Proofs.Settings
import DocLint.Proofs.Utf8

/-! # Settings that can take effect

Each setting is compared with a part that was cut out of something: an extension with what comes
after the last dot of a path, a keyword with a word of a line, an ignore prefix with the start of a
trimmed line, the marker with a whole line. A setting that cannot be such a part has no effect on
anything. Validity rules out some of these settings, and here is what it leaves in.
-/

namespace DocLint

/-! ## Lines made for a purpose -/

namespace Text

theorem isInline_of_not_whiteSpace {c : Char} (h : isWhiteSpace c = false) : IsInline c := by
  constructor
  · rintro rfl
    exact absurd h (by decide)
  · rintro rfl
    exact absurd h (by decide)

/-- What occurs in a trimmed line has no terminators in it. -/
theorem inline_of_infix_trim {content line part : List Char} (hline : line ∈ physicalLines content)
    (h : part <:+: trim line) : ∀ c ∈ part, IsInline c := by
  obtain ⟨left, right, heq, _⟩ := (trimsTo_trim line).margins
  intro c hc
  apply (cutsInto_physicalLines content).inline line hline c
  rw [heq]
  exact List.mem_append_left _ (List.mem_append_right _ (h.subset hc))

/-- A line with a word in it, and marks on either side that keep the word away from the margins. -/
def wordLine (mark : Char) (word : List Char) : List Char :=
  mark :: ' ' :: (word ++ [' ', mark])

theorem hasWord_wordLine (mark : Char) (word : List Char) :
    HasWord ' ' word (wordLine mark word) :=
  ⟨[mark, ' '], [' ', mark], by simp [wordLine], .inr rfl, .inr rfl⟩

section

variable {mark : Char} (hmark : isWhiteSpace mark = false)
include hmark

/-- A text that starts and ends in a visible character has nothing to trim. -/
theorem trim_concat {text : List Char}
    (hhead : ∀ c, text.head? = some c → isWhiteSpace c = false) :
    trim (text ++ [mark]) = text ++ [mark] := by
  apply trim_eq_self
  · intro c hc
    cases text with
    | nil =>
      obtain rfl := Option.some.inj hc
      exact hmark
    | cons first text =>
      obtain rfl := Option.some.inj hc
      exact hhead first rfl
  · intro c hc
    rw [List.getLast?_concat] at hc
    obtain rfl := Option.some.inj hc
    exact hmark

theorem trim_wordLine (word : List Char) : trim (wordLine mark word) = wordLine mark word := by
  have hline : wordLine mark word = (mark :: ' ' :: (word ++ [' '])) ++ [mark] := by
    simp [wordLine]
  rw [hline]
  apply trim_concat hmark
  intro c hc
  obtain rfl := Option.some.inj hc
  exact hmark

theorem inline_wordLine {word : List Char} (hword : ∀ c ∈ word, IsInline c) :
    ∀ c ∈ wordLine mark word, IsInline c := by
  have hspace : IsInline ' ' := by simp [IsInline]
  have hends := isInline_of_not_whiteSpace hmark
  intro c hc
  simp only [wordLine, List.mem_cons, List.mem_append, List.not_mem_nil, or_false] at hc
  rcases hc with rfl | rfl | hc | rfl | rfl
  · exact hends
  · exact hspace
  · exact hword c hc
  · exact hspace
  · exact hends

theorem physicalLines_wordLine {word : List Char} (hword : ∀ c ∈ word, IsInline c) :
    physicalLines (wordLine mark word) = [wordLine mark word] :=
  physicalLines_inline (inline_wordLine hmark hword) (List.cons_ne_nil _ _)

end

end Text

namespace Rules

variable {rules : Rules}

/-! ## Extensions -/

/-- Some path is checked if the extension is the only one. -/
def ChecksSome (rules : Rules) (e : String) : Prop :=
  ∃ path, isCheckable { rules with extensions := [e] } path = true

/-- An extension is live exactly if there is no dot in it. -/
theorem checksSome_iff {e : String} : rules.ChecksSome e ↔ '.' ∉ e.toList := by
  constructor
  · rintro ⟨path, h⟩
    obtain rfl : path.extension = e := by simpa [isCheckable] using h
    rw [Path.extension, String.toList_ofList]
    exact Text.sep_notMem_afterLast '.' _
  · intro hdot
    have hlast : Text.afterLast '.' ('.' :: e.toList) = e.toList :=
      Text.afterLast_append_sep hdot []
    have hextension : (Path.mk (Text.Utf8.encode ('.' :: e.toList))).extension = e := by
      rw [Path.extension, Text.Utf8.lossy_encode, hlast, String.ofList_toList]
    refine ⟨⟨Text.Utf8.encode ('.' :: e.toList)⟩, ?_⟩
    simp [isCheckable, hextension]

/-! ## Keywords -/

/-- Some text has a defect if the keyword is the only one and nothing is ignored. -/
def ReportsSome (rules : Rules) (key : String) : Prop :=
  ∃ path content d,
    d ∈ checkSource { rules with keywords := [key], ignorePrefixes := [] } path content

/-- A keyword is live exactly if it fits on a line. -/
theorem reportsSome_iff {key : String} (hspace : ' ' ∉ key.toList) (hmarker : rules.docMarker ≠ "") :
    rules.ReportsSome key ↔ ∀ c ∈ key.toList, Text.IsInline c := by
  have hkeys : Spaceless { rules with keywords := [key], ignorePrefixes := [] } := by
    simpa [Spaceless] using hspace
  unfold ReportsSome
  simp only [mem_checkSource_iff hkeys]
  constructor
  · rintro ⟨path, content, d, _, _, above, line, _, hline, hdeclares, _⟩
    obtain ⟨_, _, hkey, before, after, htext, _⟩ := declares_iff_trim.mp hdeclares
    obtain rfl := List.mem_singleton.mp hkey
    apply Text.inline_of_infix_trim (List.mem_of_getElem? hline)
    exact ⟨before, after, htext.symm⟩
  · intro hinline
    have hmark : Text.isWhiteSpace 'x' = false := by decide
    -- the keyword in the first line, where nothing stands above
    refine ⟨⟨[]⟩, Text.wordLine 'x' key.toList, ⟨⟨[]⟩, 1⟩, rfl, Nat.le_refl 1, [],
      Text.wordLine 'x' key.toList, rfl, ?_, ?_, ?_⟩
    · rw [Text.physicalLines_wordLine hmark hinline]
      rfl
    · rw [declares_iff_trim, Text.trim_wordLine hmark]
      exact ⟨by simp, key, List.mem_singleton_self key, Text.hasWord_wordLine 'x' key.toList⟩
    · simpa using hmarker

/-! ## Ignore prefixes -/

/-- Some line of a text is ignored if the ignore prefix is the only one. -/
def IgnoresSome (rules : Rules) (start : String) : Prop :=
  ∃ content, ∃ line ∈ Text.physicalLines content,
    classify { rules with ignorePrefixes := [start] } line = .ignored

/-- An ignore prefix is live exactly if it fits on a line and is not trimmed away at its start. -/
theorem ignoresSome_iff {start : String} :
    rules.IgnoresSome start ↔
      (∀ c ∈ start.toList, Text.IsInline c) ∧
      ∀ c, start.toList.head? = some c → Text.isWhiteSpace c = false := by
  unfold IgnoresSome
  simp only [classify_eq_ignored_iff, List.mem_singleton, exists_eq_left]
  constructor
  · rintro ⟨content, line, hline, hstart⟩
    refine ⟨Text.inline_of_infix_trim hline hstart.isInfix, ?_⟩
    intro c hc
    -- the first character of the prefix is that of the trimmed line
    apply (Text.trimsTo_trim line).head c
    obtain ⟨rest, hrest⟩ := hstart
    rw [← hrest, List.head?_append, hc]
    rfl
  · rintro ⟨hinline, hhead⟩
    have hmark : Text.isWhiteSpace 'x' = false := by decide
    have hline : ∀ c ∈ start.toList ++ ['x'], Text.IsInline c := by
      intro c hc
      rcases List.mem_append.mp hc with hc | hc
      · exact hinline c hc
      · rw [List.mem_singleton.mp hc]
        exact Text.isInline_of_not_whiteSpace hmark
    refine ⟨start.toList ++ ['x'], start.toList ++ ['x'], ?_, ?_⟩
    · rw [Text.physicalLines_inline hline (by simp)]
      exact List.mem_singleton_self _
    · rw [Text.trim_concat hmark hhead]
      exact List.prefix_append _ _

/-! ## The marker -/

/-- Some line of a text is a declaration. -/
def DeclaresSome (rules : Rules) : Prop :=
  ∃ content, ∃ line ∈ Text.physicalLines content, rules.classify line = .declaration

/-- In some text a declaration stands right below a line that documents it. -/
def DocumentsSome (rules : Rules) : Prop :=
  ∃ content n above line, (Text.physicalLines content)[n]? = some above ∧
    (Text.physicalLines content)[n + 1]? = some line ∧
    rules.documents above = true ∧ rules.classify line = .declaration

/-- The marker is live exactly if it fits on a line and there is something to document. -/
theorem documentsSome_iff :
    rules.DocumentsSome ↔
      (∀ c ∈ rules.docMarker.toList, Text.IsInline c) ∧ rules.DeclaresSome := by
  constructor
  · rintro ⟨content, n, above, line, habove, hline, hdocuments, hkind⟩
    refine ⟨?_, content, line, List.mem_of_getElem? hline, hkind⟩
    intro c hc
    have hinline := (Text.cutsInto_physicalLines content).inline above (List.mem_of_getElem? habove)
    exact hinline c (((Text.occursIn_iff ..).mp hdocuments).subset hc)
  · rintro ⟨hmarker, content, line, hline, hkind⟩
    have hlines : Text.physicalLines (Text.ofLines [rules.docMarker.toList, line]) =
        [rules.docMarker.toList, line] := by
      apply Text.physicalLines_ofLines
      rw [List.forall_mem_cons, List.forall_mem_singleton]
      exact ⟨hmarker, (Text.cutsInto_physicalLines content).inline line hline⟩
    refine ⟨Text.ofLines [rules.docMarker.toList, line], 0, rules.docMarker.toList, line, ?_, ?_,
      (Text.occursIn_iff ..).mpr List.infix_rfl, hkind⟩
    · rw [hlines]
      rfl
    · rw [hlines]
      rfl

/-- A keyword without terminators makes a declaration, if a line can start with something that no
    ignore prefix starts with. -/
theorem declaresSome_of_keyword (hspaces : rules.Spaceless) (hempty : "" ∉ rules.ignorePrefixes)
    {key : String} (hkey : key ∈ rules.keywords) (hinline : ∀ c ∈ key.toList, Text.IsInline c)
    {mark : Char} (hmark : Text.isWhiteSpace mark = false)
    (hstarts : ∀ start ∈ rules.ignorePrefixes, start.toList.head? ≠ some mark) :
    rules.DeclaresSome := by
  refine ⟨Text.wordLine mark key.toList, Text.wordLine mark key.toList, ?_, ?_⟩
  · rw [Text.physicalLines_wordLine hmark hinline]
    exact List.mem_singleton_self _
  · rw [classify_eq_declaration_iff hspaces, declares_iff_trim, Text.trim_wordLine hmark]
    refine ⟨?_, key, hkey, Text.hasWord_wordLine mark key.toList⟩
    rintro start hstart ⟨rest, hrest⟩
    cases hchars : start.toList with
    | nil =>
      rw [String.toList_eq_nil_iff] at hchars
      exact hempty (hchars ▸ hstart)
    | cons c tail =>
      rw [hchars] at hrest
      obtain rfl := (List.cons.inj hrest).1
      exact hstarts start hstart (by rw [hchars]; rfl)

end Rules

/-! ## Valid settings -/

namespace Config

/-- Of valid settings, exactly these can take effect: extensions without a dot in them, keywords
    without a terminator, and ignore prefixes without a terminator that do not start with white
    space. The marker can, if it has no terminator and any line can be a declaration at all, which
    some line can be unless every keyword has a terminator or the ignore prefixes leave no
    character that a line could start with. -/
theorem isValid_live {config : Config} (h : config.IsValid) :
    (∀ e ∈ config.check.extensions, config.rules.ChecksSome e ↔ '.' ∉ e.toList) ∧
    (∀ key ∈ config.check.keywords,
      config.rules.ReportsSome key ↔ ∀ c ∈ key.toList, Text.IsInline c) ∧
    (∀ start ∈ config.check.ignorePrefixes,
      config.rules.IgnoresSome start ↔
        (∀ c ∈ start.toList, Text.IsInline c) ∧
        ∀ c, start.toList.head? = some c → Text.isWhiteSpace c = false) ∧
    (config.rules.DocumentsSome ↔
      (∀ c ∈ config.check.docMarker.toList, Text.IsInline c) ∧ config.rules.DeclaresSome) ∧
    ((∃ key ∈ config.check.keywords, ∀ c ∈ key.toList, Text.IsInline c) →
      (∃ mark, Text.isWhiteSpace mark = false ∧
        ∀ start ∈ config.check.ignorePrefixes, start.toList.head? ≠ some mark) →
      config.rules.DeclaresSome) := by
  obtain ⟨_, _, _, _, hempty, hmarker, _⟩ := isValid_iff.mp h
  refine ⟨?_, ?_, ?_, Rules.documentsSome_iff, ?_⟩
  · intro e _
    exact Rules.checksSome_iff
  · intro key hkey
    exact Rules.reportsSome_iff (h.spaceless key hkey) hmarker
  · intro start _
    exact Rules.ignoresSome_iff
  · rintro ⟨key, hkey, hinline⟩ ⟨mark, hmark, hstarts⟩
    exact Rules.declaresSome_of_keyword h.spaceless hempty hkey hinline hmark hstarts

/-- Settings that can take effect beside some that cannot. A keyword may start with white space,
    and so may the marker. -/
theorem isValid_live_beside_dead :
    let config : Config := { check :=
      { extensions := ["tar.gz", "gz"], keywords := ["a\nb", "\tfn"], ignorePrefixes := [" *", "*"],
        docMarker := " ///" } }
    config.IsValid ∧ config.rules.ChecksSome "gz" ∧ config.rules.ReportsSome "\tfn" ∧
      config.rules.IgnoresSome "*" ∧ config.rules.DocumentsSome := by
  intro config
  have hvalid : config.IsValid := by decide
  have hword : ∀ c ∈ "\tfn".toList, Text.IsInline c := by simp [Text.IsInline]
  obtain ⟨hextensions, hkeywords, hprefixes, hmarker, hdeclares⟩ := isValid_live hvalid
  refine ⟨hvalid, ?_, ?_, ?_, ?_⟩
  · exact (hextensions "gz" (by decide)).mpr (by decide)
  · exact (hkeywords "\tfn" (by decide)).mpr hword
  · refine (hprefixes "*" (by decide)).mpr ⟨by simp [Text.IsInline], ?_⟩
    intro c hc
    obtain rfl : '*' = c := by simpa using hc
    decide
  · refine hmarker.mpr ⟨by simp [config, Text.IsInline], hdeclares ⟨"\tfn", by decide, hword⟩ ?_⟩
    exact ⟨'x', by decide, by decide⟩

/-- Valid settings none of which is fit to take effect, but for one keyword. -/
theorem isValid_admits_dead_settings :
    let config : Config := { check :=
      { extensions := ["tar.gz"], keywords := ["fn", "a\nb"], ignorePrefixes := [" *"],
        docMarker := "///\n" } }
    config.IsValid ∧
    ¬ (∀ e ∈ config.check.extensions, config.rules.ChecksSome e) ∧
    ¬ (∀ key ∈ config.check.keywords, config.rules.ReportsSome key) ∧
    ¬ (∀ start ∈ config.check.ignorePrefixes, config.rules.IgnoresSome start) ∧
    ¬ config.rules.DocumentsSome := by
  intro config
  refine ⟨by decide, ?_, ?_, ?_, ?_⟩
  · intro h
    exact absurd (Rules.checksSome_iff.mp (h "tar.gz" (by decide))) (by decide)
  · intro h
    have hinline := (Rules.reportsSome_iff (by decide) (by decide)).mp (h "a\nb" (by decide))
    exact absurd rfl (hinline '\n' (by decide)).1
  · intro h
    have hhead := (Rules.ignoresSome_iff.mp (h " *" (by decide))).2 ' ' (by decide)
    exact absurd hhead (by decide)
  · intro h
    have hinline := (Rules.documentsSome_iff.mp h).1
    exact absurd rfl (hinline '\n' (by decide)).1

end Config

end DocLint
