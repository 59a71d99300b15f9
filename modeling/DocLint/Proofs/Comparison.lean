-- SUMMARY: Two scans side by side: of texts that differ in their margins only, and of one text by rules that report more.
import DocLint.Proofs.Edits
import Mathlib.Data.List.Forall2

/-! # Two scans side by side

A scan looks at one pair of lines after another. So two scans are compared pair by pair: if each
verdict of the first is a verdict of the second, its reports are among those of the second. The
lines of the two texts may differ as long as they correspond. Here they correspond if they are
equal apart from their margins, or equal outright with other rules for the second scan.
-/

namespace DocLint

/-! ## Margins -/

namespace Text

/-- The two lines have the same text between their margins. -/
def SameText (line other : List Char) : Prop :=
  ∃ text, TrimsTo line text ∧ TrimsTo other text

theorem sameText_iff {line other : List Char} :
    SameText line other ↔ trim line = trim other := by
  unfold SameText
  simp only [trimsTo_iff]
  constructor
  · rintro ⟨text, hline, hother⟩
    exact hline.symm.trans hother
  · intro h
    exact ⟨trim line, rfl, h⟩

instance (line other : List Char) : Decidable (SameText line other) :=
  decidable_of_iff _ sameText_iff.symm

theorem SameText.symm {line other : List Char} (h : SameText line other) :
    SameText other line :=
  sameText_iff.mpr (sameText_iff.mp h).symm

theorem sameText_nil : SameText [] [] :=
  sameText_iff.mpr rfl

section Margins

variable {part : List Char} (hpart : ∀ c ∈ part, isWhiteSpace c = false)
include hpart

/-- What has no white space in it does not reach into the margin at the start. -/
theorem infix_of_infix_left {left rest : List Char} (hleft : ∀ c ∈ left, isWhiteSpace c = true)
    (h : part <:+: left ++ rest) : part <:+: rest := by
  induction left with
  | nil => exact h
  | cons c left ih =>
    obtain ⟨hc, hleft⟩ := List.forall_mem_cons.mp hleft
    rcases List.infix_cons_iff.mp h with hhere | hlater
    · -- nothing but the empty text can stand right at the white space
      cases part with
      | nil => exact List.nil_infix
      | cons d part =>
        obtain ⟨rfl, _⟩ := List.cons_prefix_cons.mp hhere
        rw [hpart d List.mem_cons_self] at hc
        cases hc
    · exact ih hleft hlater

/-- A part without white space does not reach into the white space after a text. -/
theorem infix_of_infix_right {rest right : List Char} (hright : ∀ c ∈ right, isWhiteSpace c = true)
    (h : part <:+: rest ++ right) : part <:+: rest := by
  have hback : part.reverse <:+: right.reverse ++ rest.reverse := by
    rw [← List.reverse_append]
    exact List.reverse_infix.mpr h
  apply List.reverse_infix.mp
  apply infix_of_infix_left _ _ hback
  · intro c hc
    exact hpart c (List.mem_reverse.mp hc)
  · intro c hc
    exact hright c (List.mem_reverse.mp hc)

/-- So it occurs in a line exactly if it occurs between the margins. -/
theorem infix_trim_iff (line : List Char) : part <:+: trim line ↔ part <:+: line := by
  obtain ⟨left, right, hline, hleft, hright⟩ := (trimsTo_trim line).margins
  constructor
  · intro h
    rw [hline]
    exact h.trans ⟨left, right, rfl⟩
  · intro h
    rw [hline] at h
    exact infix_of_infix_left hpart hleft (infix_of_infix_right hpart hright h)

end Margins

end Text

namespace Rules

/-! ## Pair by pair -/

/-- If lines correspond and each verdict on a pair of lines is also one on the corresponding
    pair, then the reports of the first scan are among those of the second. -/
theorem undocumented_sublist {rules other : Rules} {R : List Char → List Char → Prop}
    (hverdict : ∀ {above above' line line'}, R above above' → R line line' →
      rules.isUndocumented above line = true → other.isUndocumented above' line' = true)
    {lines lines' : List (List Char)} (h : List.Forall₂ R lines lines') {above above' : List Char}
    (habove : R above above') (n : Nat) :
    (rules.undocumented above n lines).Sublist (other.undocumented above' n lines') := by
  induction h generalizing above above' n with
  | nil => exact .slnil
  | @cons line line' lines lines' hline _ ih =>
    rw [undocumented_cons, undocumented_cons]
    apply List.Sublist.append _ (ih hline (n + 1))
    cases hfirst : rules.isUndocumented above line with
    | false => exact List.nil_sublist _
    | true => rw [hverdict habove hline hfirst]

/-! ## Other margins -/

/-- The margins of a line have no say in what it is. -/
theorem classify_of_sameText (rules : Rules) {line other : List Char}
    (h : Text.SameText line other) : rules.classify line = rules.classify other := by
  unfold classify
  rw [Text.sameText_iff.mp h]

section Reindented

variable {rules : Rules} (hmarker : ∀ c ∈ rules.docMarker.toList, Text.isWhiteSpace c = false)
include hmarker

/-- Nor do they in what it documents, as there is no white space in the marker. -/
theorem documents_of_sameText {line other : List Char} (h : Text.SameText line other) :
    rules.documents line = rules.documents other := by
  unfold documents
  rw [Bool.eq_iff_iff, Text.occursIn_iff, Text.occursIn_iff, ← Text.infix_trim_iff hmarker line,
    ← Text.infix_trim_iff hmarker other, Text.sameText_iff.mp h]

/-- The one pair of lines that is looked at, with other margins. -/
theorem isUndocumented_of_sameText {above above' line line' : List Char}
    (habove : Text.SameText above above') (hline : Text.SameText line line')
    (h : rules.isUndocumented above line = true) : rules.isUndocumented above' line' = true := by
  unfold isUndocumented at h ⊢
  rw [← rules.classify_of_sameText hline, ← documents_of_sameText hmarker habove]
  exact h

theorem undocumented_reindented {lines lines' : List (List Char)}
    (h : List.Forall₂ Text.SameText lines lines') :
    (rules.undocumented [] 1 lines).Sublist (rules.undocumented [] 1 lines') :=
  undocumented_sublist (isUndocumented_of_sameText hmarker) h Text.sameText_nil 1

end Reindented

/-- The margins of lines are of no account, also where a line is looked at with its margins: a
    marker without white space cannot reach into them. Two texts whose lines are the same apart
    from white space around them have the same defects. -/
theorem checkSource_reindented (rules : Rules)
    (hmarker : ∀ c ∈ rules.docMarker.toList, Text.isWhiteSpace c = false) (path : Path)
    {content other : List Char}
    (h : List.Forall₂ Text.SameText (Text.physicalLines content) (Text.physicalLines other)) :
    rules.checkSource path content = rules.checkSource path other := by
  have hback : List.Forall₂ Text.SameText (Text.physicalLines other)
      (Text.physicalLines content) := h.flip.imp fun _ _ => Text.SameText.symm
  unfold checkSource
  congr 1
  exact (undocumented_reindented hmarker h).antisymm (undocumented_reindented hmarker hback)

/-- Margins of a next line character, a line separator, a vertical tab and others, none of which
    ends a line. -/
theorem checkSource_reindented_margins :
    let rules : Rules := ⟨["rs"], ["fn"], ["//"], "///"⟩
    let path := Path.ofString "a.rs"
    let content := "/// e\nfn e\n// f\nfn f".toList
    let other := "\t/// e\u0085\r\n\u2028fn e\r  // f\n\x0bfn f\u3000\n".toList
    (∀ c ∈ rules.docMarker.toList, Text.isWhiteSpace c = false) ∧
    List.Forall₂ Text.SameText (Text.physicalLines content) (Text.physicalLines other) ∧
    rules.checkSource path content = [⟨path, 4⟩] ∧
    rules.checkSource path other = [⟨path, 4⟩] := by
  intro rules path content other
  have hslash : Text.isWhiteSpace '/' = false := by decide
  have hmarker : ∀ c ∈ rules.docMarker.toList, Text.isWhiteSpace c = false := by
    simp [rules, hslash]
  have hlines : List.Forall₂ Text.SameText (Text.physicalLines content)
      (Text.physicalLines other) := by decide
  have hcontent : rules.checkSource path content = [⟨path, 4⟩] := by decide
  exact ⟨hmarker, hlines, hcontent,
    (rules.checkSource_reindented hmarker path hlines).symm.trans hcontent⟩

/-! ## Other rules -/

/-- The other rules can only report more: every keyword is one of theirs, every ignore prefix of
    theirs goes on from one that is here, and the marker stands in their marker. -/
structure Within (rules other : Rules) : Prop where
  keywords : ∀ key ∈ rules.keywords, key ∈ other.keywords
  ignorePrefixes : ∀ start ∈ other.ignorePrefixes,
    ∃ first ∈ rules.ignorePrefixes, first.toList <+: start.toList
  docMarker : rules.docMarker.toList <:+: other.docMarker.toList

/-- The two rule sets judge lines alike, and so report the same of every text. -/
structure Agrees (rules other : Rules) : Prop where
  classify : rules.classify = other.classify
  documents : rules.documents = other.documents
  checkSource : rules.checkSource = other.checkSource

section Within

variable {rules other : Rules} {line : List Char}

theorem Within.ignored (h : rules.Within other) (hline : other.classify line = .ignored) :
    rules.classify line = .ignored := by
  rw [classify_eq_ignored_iff] at hline ⊢
  obtain ⟨start, hstart, hhead⟩ := hline
  obtain ⟨first, hfirst, hgoesOn⟩ := h.ignorePrefixes start hstart
  exact ⟨first, hfirst, hgoesOn.trans hhead⟩

theorem Within.declaration (h : rules.Within other) (hline : rules.classify line = .declaration) :
    other.classify line = .declaration := by
  rw [classify_eq_declaration_iff_mem] at hline ⊢
  obtain ⟨hkept, key, hkey, hword⟩ := hline
  refine ⟨?_, key, h.keywords key hkey, hword⟩
  intro start hstart hhead
  obtain ⟨first, hfirst, hgoesOn⟩ := h.ignorePrefixes start hstart
  exact hkept first hfirst (hgoesOn.trans hhead)

/-- The marker stands in their marker, so it is found wherever theirs is. -/
theorem Within.documents (h : rules.Within other) (hline : other.documents line = true) :
    rules.documents line = true := by
  unfold Rules.documents at hline ⊢
  rw [Text.occursIn_iff] at hline ⊢
  exact h.docMarker.trans hline

theorem Within.isUndocumented (h : rules.Within other) {above : List Char}
    (hpair : rules.isUndocumented above line = true) :
    other.isUndocumented above line = true := by
  unfold Rules.isUndocumented at hpair ⊢
  rw [Bool.and_eq_true, decide_eq_true_eq, Bool.not_eq_true'] at hpair ⊢
  refine ⟨h.declaration hpair.1, ?_⟩
  cases hother : other.documents above with
  | false => rfl
  | true =>
    rw [h.documents hother] at hpair
    cases hpair.2

/-- The other rules find all the defects that these find, in the same order. -/
theorem Within.checkSource_sublist (h : rules.Within other) (path : Path) (content : List Char) :
    (rules.checkSource path content).Sublist (other.checkSource path content) := by
  unfold checkSource
  apply List.Sublist.map
  apply undocumented_sublist (R := Eq) _ (List.forall₂_refl _) rfl
  rintro above _ line _ rfl rfl hpair
  exact h.isUndocumented hpair

/-- Rules that report more than each other report the same, and they judge each line alike. -/
theorem Within.agrees (h : rules.Within other) (h' : other.Within rules) : rules.Agrees other where
  classify := by
    funext line
    have hignored : rules.classify line = .ignored ↔ other.classify line = .ignored :=
      ⟨h'.ignored, h.ignored⟩
    have hdeclaration : rules.classify line = .declaration ↔ other.classify line = .declaration :=
      ⟨h.declaration, h'.declaration⟩
    cases hkind : rules.classify line with
    | ignored => exact (hignored.mp hkind).symm
    | declaration => exact (hdeclaration.mp hkind).symm
    | plain =>
      -- the kinds are three, so a line that is neither of the other two is plain for both
      cases hother : other.classify line with
      | plain => rfl
      | ignored => exact hkind.symm.trans (hignored.mpr hother)
      | declaration => exact hkind.symm.trans (hdeclaration.mpr hother)
  documents := by
    funext line
    exact Bool.eq_iff_iff.mpr ⟨h'.documents, h.documents⟩
  checkSource := by
    funext path content
    exact (h.checkSource_sublist path content).antisymm (h'.checkSource_sublist path content)

theorem within_of_mem (hkeywords : ∀ key ∈ rules.keywords, key ∈ other.keywords)
    (hprefixes : ∀ start ∈ other.ignorePrefixes, start ∈ rules.ignorePrefixes)
    (hmarker : rules.docMarker = other.docMarker) : rules.Within other where
  keywords := hkeywords
  ignorePrefixes start hstart := ⟨start, hprefixes start hstart, List.prefix_rfl⟩
  docMarker := hmarker ▸ List.infix_rfl

/-- An ignore prefix that goes on from another one ignores nothing more. -/
theorem agrees_of_longer_start {start : String}
    (hstart : ∃ first ∈ rules.ignorePrefixes, first.toList <+: start.toList)
    {before after : List String} (hsplit : rules.ignorePrefixes = before ++ after) :
    Agrees { rules with ignorePrefixes := before ++ start :: after } rules := by
  apply Within.agrees
  · refine within_of_mem (fun _ => id) ?_ rfl
    intro first hfirst
    rw [hsplit] at hfirst
    exact List.mem_append.mpr ((List.mem_append.mp hfirst).imp_right (List.mem_cons_of_mem _))
  · refine ⟨fun _ => id, ?_, List.infix_rfl⟩
    intro first hfirst
    rcases List.mem_append.mp hfirst with hbefore | hrest
    · exact ⟨first, hsplit ▸ List.mem_append_left _ hbefore, List.prefix_rfl⟩
    · rcases List.mem_cons.mp hrest with rfl | hafter
      · exact hstart
      · exact ⟨first, hsplit ▸ List.mem_append_right _ hafter, List.prefix_rfl⟩

/-- Only which extensions there are counts, not their order. -/
theorem isCheckable_of_same_extensions
    (h : ∀ e, e ∈ rules.extensions ↔ e ∈ other.extensions) (path : Path) :
    rules.isCheckable path = other.isCheckable path := by
  unfold isCheckable
  rw [Bool.eq_iff_iff, List.contains_iff_mem, List.contains_iff_mem]
  exact h path.extension

end Within

/-- More keywords, ignore prefixes that go on from those before, and a longer marker only add to
    the reports. So neither the order of keywords and ignore prefixes nor how often they are there
    is of any account, nor is an ignore prefix that goes on from another one; and of the
    extensions only the set counts. -/
theorem checkSource_monotone (rules : Rules) :
    (∀ other : Rules, rules.Within other → ∀ path content,
      (rules.checkSource path content).Sublist (other.checkSource path content)) ∧
    (∀ other : Rules, (∀ key, key ∈ rules.keywords ↔ key ∈ other.keywords) →
      (∀ start, start ∈ rules.ignorePrefixes ↔ start ∈ other.ignorePrefixes) →
      rules.docMarker = other.docMarker → rules.Agrees other) ∧
    (∀ start : String, (∃ first ∈ rules.ignorePrefixes, first.toList <+: start.toList) →
      ∀ before after, rules.ignorePrefixes = before ++ after →
        Agrees { rules with ignorePrefixes := before ++ start :: after } rules) ∧
    (∀ other : Rules, (∀ e, e ∈ rules.extensions ↔ e ∈ other.extensions) →
      ∀ path, rules.isCheckable path = other.isCheckable path) := by
  refine ⟨?_, ?_, ?_, ?_⟩
  · intro other h
    exact h.checkSource_sublist
  · intro other hkeywords hprefixes hmarker
    apply Within.agrees
    · exact within_of_mem (fun key => (hkeywords key).mp) (fun start => (hprefixes start).mpr)
        hmarker
    · exact within_of_mem (fun key => (hkeywords key).mpr) (fun start => (hprefixes start).mp)
        hmarker.symm
  · intro start hstart before after hsplit
    exact agrees_of_longer_start hstart hsplit
  · intro other h
    exact isCheckable_of_same_extensions h

/-- Rules beside some that report more, some in another order and with repetitions, and some with
    one more ignore prefix. -/
theorem checkSource_monotone_beside :
    let rules : Rules := ⟨["rs", "b"], ["fn"], ["//", "*"], "//"⟩
    let more : Rules := ⟨["rs"], ["struct", "fn"], ["///", "*/"], "///"⟩
    let shuffled : Rules := ⟨["b", "rs", "b"], ["fn", "fn"], ["*", "//", "*"], "//"⟩
    let longer : Rules := ⟨["rs", "b"], ["fn"], ["//", "//!", "*"], "//"⟩
    let path := Path.ofString "a.rs"
    let content := "// d\nfn d\nfn e\n// f fn\nstruct f\n".toList
    rules.Within more ∧
    rules.checkSource path content = [⟨path, 3⟩] ∧
    more.checkSource path content = [⟨path, 2⟩, ⟨path, 3⟩, ⟨path, 4⟩, ⟨path, 5⟩] ∧
    (rules.checkSource path content).Sublist (more.checkSource path content) ∧
    rules.Agrees shuffled ∧ longer.Agrees rules ∧
    rules.isCheckable path = shuffled.isCheckable path := by
  intro rules more shuffled longer path content
  obtain ⟨hmore, hshuffled, hlonger, hextensions⟩ := rules.checkSource_monotone
  have hwithin : rules.Within more := ⟨by decide, by decide, by decide⟩
  refine ⟨hwithin, by decide, by decide, hmore more hwithin path content, ?_, ?_, ?_⟩
  · apply hshuffled shuffled
    · simp [rules, shuffled]
    · simp [rules, shuffled, or_comm]
    · rfl
  · exact hlonger "//!" (by decide) ["//"] ["*"] rfl
  · apply hextensions shuffled
    simp [rules, shuffled, or_comm]

end Rules

end DocLint
