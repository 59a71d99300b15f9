-- SUMMARY: Which lines the scan of a text reports, said by positions in the text.
import DocLint.Proofs.Lines
import DocLint.Proofs.Words
import DocLint.Scan

/-! # What a scan reports

The scan goes through the lines once and remembers the line above. What it reports can
be said of each line by itself, from the text of the line and the text of the line above.
-/

namespace DocLint.Rules

/-- The line is a declaration: without its margins it starts with no ignore prefix, and a
    keyword stands in it as a word. -/
def Declares (rules : Rules) (line : List Char) : Prop :=
  ∃ text, Text.TrimsTo line text ∧
    (∀ start ∈ rules.ignorePrefixes, ¬ start.toList <+: text) ∧
    ∃ key ∈ rules.keywords, Text.HasWord ' ' key.toList text

/-- Line `n`, counted from one, is a declaration, and the marker is nowhere in the line
    above it. Above the first line stands an empty one. -/
def LacksComment (rules : Rules) (lines : List (List Char)) (n : Nat) : Prop :=
  ∃ above line, ([] :: lines)[n - 1]? = some above ∧ lines[n - 1]? = some line ∧
    rules.Declares line ∧ ¬ rules.docMarker.toList <:+: above

/-- No keyword has a space in it. -/
def Spaceless (rules : Rules) : Prop :=
  ∀ key ∈ rules.keywords, ' ' ∉ key.toList

instance (rules : Rules) : Decidable rules.Spaceless :=
  inferInstanceAs (Decidable (∀ key ∈ rules.keywords, ' ' ∉ key.toList))

/-! ## One line -/

/-- To declare is a matter of the text between the margins. -/
theorem declares_iff_trim {rules : Rules} {line : List Char} :
    rules.Declares line ↔
      (∀ start ∈ rules.ignorePrefixes, ¬ start.toList <+: Text.trim line) ∧
      ∃ key ∈ rules.keywords, Text.HasWord ' ' key.toList (Text.trim line) := by
  simp only [Declares, Text.trimsTo_iff, exists_eq_left]

theorem classify_eq_ignored_iff (rules : Rules) (line : List Char) :
    rules.classify line = .ignored ↔
      ∃ start ∈ rules.ignorePrefixes, start.toList <+: Text.trim line := by
  have hany : (rules.ignorePrefixes.any fun start => start.toList.isPrefixOf (Text.trim line)) =
      true ↔ ∃ start ∈ rules.ignorePrefixes, start.toList <+: Text.trim line := by
    simp only [List.any_eq_true, List.isPrefixOf_iff_prefix]
  rw [← hany]
  unfold classify
  simp only
  split
  · rename_i hignored
    exact iff_of_true rfl hignored
  · rename_i hkept
    split <;> exact iff_of_false nofun hkept

/-- A line is a declaration if it is not ignored and one of its pieces is a keyword. -/
theorem classify_eq_declaration_iff_mem (rules : Rules) (line : List Char) :
    rules.classify line = .declaration ↔
      (∀ start ∈ rules.ignorePrefixes, ¬ start.toList <+: Text.trim line) ∧
      ∃ key ∈ rules.keywords, key.toList ∈ (Text.trim line).splitOn ' ' := by
  have hany : (((Text.trim line).splitOn ' ').any fun word =>
      rules.keywords.any fun key => key.toList = word) = true ↔
        ∃ key ∈ rules.keywords, key.toList ∈ (Text.trim line).splitOn ' ' := by
    simp only [List.any_eq_true, decide_eq_true_eq]
    constructor
    · rintro ⟨word, hword, key, hkey, rfl⟩
      exact ⟨key, hkey, hword⟩
    · rintro ⟨key, hkey, hword⟩
      exact ⟨key.toList, hword, key, hkey, rfl⟩
  have hignored : (∀ start ∈ rules.ignorePrefixes, ¬ start.toList <+: Text.trim line) ↔
      rules.classify line ≠ .ignored := by
    rw [Ne, classify_eq_ignored_iff]
    simp only [not_exists, not_and]
  rw [hignored, ← hany]
  unfold classify
  simp only
  split
  · exact iff_of_false nofun fun h => h.1 rfl
  · split
    · rename_i hword
      exact iff_of_true rfl ⟨nofun, hword⟩
    · rename_i hword
      exact iff_of_false nofun fun h => hword h.2

/-- Keywords without spaces are found as words. -/
theorem classify_eq_declaration_iff {rules : Rules} (hkeys : rules.Spaceless) (line : List Char) :
    rules.classify line = .declaration ↔ rules.Declares line := by
  rw [declares_iff_trim, classify_eq_declaration_iff_mem]
  refine and_congr_right fun _ => exists_congr fun key => and_congr_right fun hkey => ?_
  constructor
  · exact Text.HasWord.of_mem_splitOn
  · exact Text.HasWord.mem_splitOn (hkeys key hkey)

/-- A pair of lines counts if the lower one declares and the upper one lacks the marker. -/
theorem isUndocumented_iff {rules : Rules} (hkeys : rules.Spaceless) (above line : List Char) :
    rules.isUndocumented above line = true ↔
      rules.Declares line ∧ ¬ rules.docMarker.toList <:+: above := by
  simp only [isUndocumented, documents, Bool.and_eq_true, decide_eq_true_eq, Bool.not_eq_true',
    ← Bool.not_eq_true, Text.occursIn_iff, classify_eq_declaration_iff hkeys]

/-! ## All lines -/

/-- The scan looks at each line once, together with the one above. -/
theorem mem_undocumented_iff (rules : Rules) (above : List Char) (n m : Nat)
    (lines : List (List Char)) :
    m ∈ rules.undocumented above n lines ↔
      ∃ i prev line, m = n + i ∧ (above :: lines)[i]? = some prev ∧ lines[i]? = some line ∧
        rules.isUndocumented prev line = true := by
  induction lines generalizing above n with
  | nil => simp [undocumented]
  | cons first rest ih =>
    have hhead : m ∈ rules.undocumented above n (first :: rest) ↔
        (m = n ∧ rules.isUndocumented above first = true) ∨
          m ∈ rules.undocumented first (n + 1) rest := by
      simp only [undocumented]
      split <;> simp_all
    rw [hhead, ih]
    constructor
    · rintro (⟨rfl, hfirst⟩ | ⟨i, prev, line, rfl, hprev, hline, hlacks⟩)
      · exact ⟨0, above, first, rfl, rfl, rfl, hfirst⟩
      · exact ⟨i + 1, prev, line, by omega, hprev, hline, hlacks⟩
    · rintro ⟨i, prev, line, rfl, hprev, hline, hlacks⟩
      cases i with
      | zero =>
        obtain rfl := Option.some.inj hprev
        obtain rfl := Option.some.inj hline
        exact .inl ⟨rfl, hlacks⟩
      | succ i => exact .inr ⟨i, prev, line, by omega, hprev, hline, hlacks⟩

theorem bounds_of_mem_undocumented {rules : Rules} {above : List Char} {n m : Nat}
    {lines : List (List Char)} (h : m ∈ rules.undocumented above n lines) :
    n ≤ m ∧ m < n + lines.length := by
  obtain ⟨i, _, line, rfl, _, hline, _⟩ := (mem_undocumented_iff ..).mp h
  obtain ⟨hlt, _⟩ := List.getElem?_eq_some_iff.mp hline
  omega

/-- The numbers come in order, since each later line is numbered higher. -/
theorem undocumented_increasing (rules : Rules) (above : List Char) (n : Nat)
    (lines : List (List Char)) : (rules.undocumented above n lines).Pairwise (· < ·) := by
  induction lines generalizing above n with
  | nil => exact .nil
  | cons first rest ih =>
    simp only [undocumented]
    split
    · refine List.pairwise_cons.mpr ⟨fun m hm => ?_, ih first (n + 1)⟩
      exact (bounds_of_mem_undocumented hm).1
    · exact ih first (n + 1)

/-- Defects come in the order of lines, and each line once. -/
theorem checkSource_increasing (rules : Rules) (path : Path) (content : List Char) :
    (rules.checkSource path content).Pairwise (fun a b => a.line < b.line) :=
  List.pairwise_map.mpr (rules.undocumented_increasing [] 1 _)

theorem file_of_mem_checkSource {rules : Rules} {path : Path} {content : List Char} {d : Defect}
    (h : d ∈ rules.checkSource path content) : d.file = path := by
  obtain ⟨n, _, rfl⟩ := List.mem_map.mp h
  rfl

/-- The defects of a text, without the scan: the lines that lack a comment. -/
theorem mem_checkSource_iff {rules : Rules} (hkeys : rules.Spaceless) (path : Path)
    (content : List Char) (d : Defect) :
    d ∈ rules.checkSource path content ↔
      d.file = path ∧ 1 ≤ d.line ∧ rules.LacksComment (Text.physicalLines content) d.line := by
  simp only [checkSource, List.mem_map, mem_undocumented_iff, isUndocumented_iff hkeys]
  constructor
  · rintro ⟨_, ⟨i, prev, line, rfl, hprev, hline, hlacks⟩, rfl⟩
    refine ⟨rfl, by simp, prev, line, ?_, ?_, hlacks⟩
    · simpa using hprev
    · simpa using hline
  · rintro ⟨rfl, hpos, prev, line, hprev, hline, hlacks⟩
    exact ⟨d.line, ⟨d.line - 1, prev, line, by omega, hprev, hline, hlacks⟩, rfl⟩

/-- The scan of a text reports exactly the lines that are declarations and lack a comment
    above them, in order, at the path it was given. The lines are those of the one way to
    cut the text. -/
theorem checkSource_exact (rules : Rules) (hkeys : rules.Spaceless) (path : Path)
    (content : List Char) :
    ∃ lines, (∀ other, Text.CutsInto content other ↔ other = lines) ∧
      (∀ d, d ∈ rules.checkSource path content ↔
        d.file = path ∧ 1 ≤ d.line ∧ d.line ≤ lines.length ∧ rules.LacksComment lines d.line) ∧
      (rules.checkSource path content).Pairwise (fun a b => a.line < b.line) := by
  refine ⟨Text.physicalLines content, fun _ => Text.cutsInto_iff, fun d => ?_,
    rules.checkSource_increasing path content⟩
  rw [mem_checkSource_iff hkeys]
  constructor
  · rintro ⟨hfile, hpos, hlacks⟩
    obtain ⟨above, line, habove, hline, hrest⟩ := hlacks
    obtain ⟨hlt, _⟩ := List.getElem?_eq_some_iff.mp hline
    exact ⟨hfile, hpos, by omega, above, line, habove, hline, hrest⟩
  · rintro ⟨hfile, hpos, _, hlacks⟩
    exact ⟨hfile, hpos, hlacks⟩

/-- A text with all three terminators, a margin and a marker above the last line. -/
theorem checkSource_exact_mixed_terminators :
    (⟨["rs"], ["fn", "struct"], ["//"], "///"⟩ : Rules).Spaceless ∧
      ∃ lines,
        (∀ other, Text.CutsInto "x\r\n fn f\r/// y\nfn g".toList other ↔ other = lines) ∧
        (∀ d, d ∈ (⟨["rs"], ["fn", "struct"], ["//"], "///"⟩ : Rules).checkSource
            (.ofString "a.rs") "x\r\n fn f\r/// y\nfn g".toList ↔
          d.file = .ofString "a.rs" ∧ 1 ≤ d.line ∧ d.line ≤ lines.length ∧
            (⟨["rs"], ["fn", "struct"], ["//"], "///"⟩ : Rules).LacksComment lines d.line) ∧
        ((⟨["rs"], ["fn", "struct"], ["//"], "///"⟩ : Rules).checkSource (.ofString "a.rs")
          "x\r\n fn f\r/// y\nfn g".toList).Pairwise (fun a b => a.line < b.line) :=
  ⟨by decide, checkSource_exact _ (by decide) _ _⟩

end DocLint.Rules
