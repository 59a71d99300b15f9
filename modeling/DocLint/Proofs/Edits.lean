-- SUMMARY: What a scan reports of a text that was edited: a line put in, texts put together, terminators changed.
import DocLint.Proofs.Joining
import DocLint.Proofs.Scan

/-! # Edited texts

A line is judged by itself and the line above it. So an edit changes the verdict on the lines it
brings in and on the line right below them, and what comes later is only numbered anew.
-/

namespace DocLint

/-- The defect in a text that has `k` more lines in front. -/
def Defect.shift (k : Nat) (d : Defect) : Defect :=
  { d with line := d.line + k }

namespace Rules

/-! ## Runs of lines -/

section Runs

variable (rules : Rules) (above : List Char) (n : Nat)

theorem undocumented_cons (line : List Char) (rest : List (List Char)) :
    rules.undocumented above n (line :: rest) =
      (if rules.isUndocumented above line then [n] else []) ++
        rules.undocumented line (n + 1) rest := by
  rw [undocumented]
  split <;> rfl

/-- What comes after some lines is judged from the last of them on. -/
theorem undocumented_append (lines more : List (List Char)) :
    rules.undocumented above n (lines ++ more) =
      rules.undocumented above n lines ++
        rules.undocumented (lines.getLastD above) (n + lines.length) more := by
  induction lines generalizing above n with
  | nil => rfl
  | cons line lines ih =>
    rw [List.cons_append, undocumented_cons, undocumented_cons, ih, List.getLastD_cons,
      List.length_cons, List.append_assoc, Nat.add_right_comm, Nat.add_assoc n]

/-- Starting the count later only adds to each number. -/
theorem undocumented_shift (k : Nat) (lines : List (List Char)) :
    rules.undocumented above (n + k) lines = (rules.undocumented above n lines).map (· + k) := by
  induction lines generalizing above n with
  | nil => rfl
  | cons line lines ih =>
    rw [undocumented_cons, undocumented_cons, List.map_append, ← ih, Nat.add_right_comm]
    split <;> rfl

variable {rules above n}

/-- The reports on the lines before a place. -/
theorem undocumented_filter_before (before more : List (List Char)) :
    (rules.undocumented above n (before ++ more)).filter (· < n + before.length) =
      rules.undocumented above n before := by
  have hbefore : ∀ m ∈ rules.undocumented above n before, m < n + before.length :=
    fun m hm => (bounds_of_mem_undocumented hm).2
  have hmore : ∀ m ∈ rules.undocumented (before.getLastD above) (n + before.length) more,
      n + before.length ≤ m := fun m hm => (bounds_of_mem_undocumented hm).1
  rw [undocumented_append, List.filter_append, List.filter_eq_self.mpr (by simpa using hbefore),
    List.filter_eq_nil_iff.mpr (by simpa using hmore), List.append_nil]

/-- The reports on lines after line `k`, which is none of the first lines or the last of them. -/
theorem undocumented_filter_after {k : Nat} {before : List (List Char)}
    (hk : n + before.length ≤ k + 1) (more : List (List Char)) :
    (rules.undocumented above n (before ++ more)).filter (k < ·) =
      (rules.undocumented (before.getLastD above) (n + before.length) more).filter (k < ·) := by
  have hbefore : ∀ m ∈ rules.undocumented above n before, m ≤ k := by
    intro m hm
    have hlt := (bounds_of_mem_undocumented hm).2
    omega
  rw [undocumented_append, List.filter_append, List.filter_eq_nil_iff.mpr (by simpa using hbefore),
    List.nil_append]

end Runs

/-- Only the first line is judged by what stands above it. -/
theorem undocumented_below (rules : Rules) (above other : List Char) (n k : Nat)
    (lines : List (List Char)) :
    rules.undocumented above (n + k) lines =
      (if lines.head?.any (rules.isUndocumented above) then [n + k] else []) ++
        ((rules.undocumented other n lines).filter (n < ·)).map (· + k) := by
  cases lines with
  | nil => rfl
  | cons first rest =>
    have hrest : ∀ m ∈ rules.undocumented first (n + 1) rest, n < m :=
      fun m hm => (bounds_of_mem_undocumented hm).1
    have hlater : (rules.undocumented other n ([first] ++ rest)).filter (n < ·) =
        rules.undocumented first (n + 1) rest := by
      rw [undocumented_filter_after (Nat.le_refl _)]
      exact List.filter_eq_self.mpr (by simpa using hrest)
    rw [List.singleton_append] at hlater
    rw [hlater, ← undocumented_shift, undocumented_cons, Nat.add_right_comm]
    rfl

/-- So the verdict on a later line is the same whatever stands above the first. -/
theorem mem_undocumented_below {rules : Rules} {above other : List Char} {n m : Nat} (h : n < m)
    (k : Nat) (lines : List (List Char)) :
    m + k ∈ rules.undocumented above (n + k) lines ↔ m ∈ rules.undocumented other n lines := by
  rw [undocumented_below rules above other n k, List.mem_append]
  constructor
  · rintro (hfirst | hlater)
    · split at hfirst
      · have heq := List.mem_singleton.mp hfirst
        omega
      · cases hfirst
    · obtain ⟨i, hi, heq⟩ := List.mem_map.mp hlater
      obtain rfl : i = m := by omega
      exact (List.mem_filter.mp hi).1
  · intro hm
    exact .inr (List.mem_map.mpr ⟨m, List.mem_filter.mpr ⟨hm, decide_eq_true h⟩, rfl⟩)

/-- A line that documents, and is no declaration itself, takes away the report on the line it is
    put above and no other. -/
theorem undocumented_insert {rules : Rules} {fix : List Char}
    (hkind : rules.classify fix ≠ .declaration) (hdocuments : rules.documents fix = true)
    (above : List Char) (n : Nat) (before rest : List (List Char)) :
    let old := rules.undocumented above n (before ++ rest)
    rules.undocumented above n (before ++ fix :: rest) =
      old.filter (· < n + before.length) ++ (old.filter (n + before.length < ·)).map (· + 1) := by
  intro old
  have hfix : rules.isUndocumented (before.getLastD above) fix = false := by
    simp [isUndocumented, hkind]
  have hfirst : rest.head?.any (rules.isUndocumented fix) = false := by
    cases rest <;> simp [isUndocumented, hdocuments]
  rw [undocumented_filter_before, undocumented_filter_after (Nat.le_succ _), undocumented_append,
    undocumented_cons, hfix, undocumented_below rules fix (before.getLastD above), hfirst]
  rfl

/-! ## Defects of a text -/

section Texts

variable (rules : Rules) (path : Path)

theorem checkSource_filter (content : List Char) (p : Nat → Bool) :
    (rules.checkSource path content).filter (fun d => p d.line) =
      ((rules.undocumented [] 1 (Text.physicalLines content)).filter p).map (Defect.mk path) :=
  List.filter_map

theorem map_shift_mk (k : Nat) (numbers : List Nat) :
    (numbers.map (Defect.mk path)).map (Defect.shift k) =
      (numbers.map (· + k)).map (Defect.mk path) := by
  simp [Defect.shift]

theorem mem_map_mk_iff (numbers : List Nat) (n : Nat) :
    ⟨path, n⟩ ∈ numbers.map (Defect.mk path) ↔ n ∈ numbers := by
  simp

end Texts

/-! ## A line put in -/

/-- Where a defect is reported, a line with the marker that is no declaration is put above it. The
    text then has the defects it had before, those further down one line lower, and only the one
    that was repaired is gone. -/
theorem checkSource_repair {rules : Rules} {path : Path} {content : List Char} {n : Nat}
    (hdefect : ⟨path, n⟩ ∈ rules.checkSource path content) {fix : List Char}
    (hfix : ∀ c ∈ fix, Text.IsInline c) (hmarker : rules.docMarker.toList <:+: fix)
    (hkind : rules.classify fix ≠ .declaration) :
    let old := rules.checkSource path content
    let lines := Text.physicalLines content
    let repaired := Text.ofLines (lines.take (n - 1) ++ fix :: lines.drop (n - 1))
    rules.checkSource path repaired =
      old.filter (·.line < n) ++ (old.filter (n < ·.line)).map (Defect.shift 1) ∧
    (Text.physicalLines repaired)[n]? = lines[n - 1]? ∧
    ⟨path, n + 1⟩ ∉ rules.checkSource path repaired := by
  intro old lines repaired
  have hmem : n ∈ rules.undocumented [] 1 lines := by
    rwa [checkSource, mem_map_mk_iff] at hdefect
  obtain ⟨hpos, hlt⟩ := bounds_of_mem_undocumented hmem
  have hlength : (lines.take (n - 1)).length = n - 1 := by
    rw [List.length_take]
    omega
  have hlines : Text.physicalLines repaired = lines.take (n - 1) ++ fix :: lines.drop (n - 1) :=
    Text.physicalLines_insert hfix content (n - 1)
  have hdefects : rules.checkSource path repaired =
      old.filter (·.line < n) ++ (old.filter (n < ·.line)).map (Defect.shift 1) := by
    have hdocuments : rules.documents fix = true := (Text.occursIn_iff ..).mpr hmarker
    have hinsert :=
      undocumented_insert hkind hdocuments [] 1 (lines.take (n - 1)) (lines.drop (n - 1))
    simp only [List.take_append_drop, hlength, Nat.add_sub_cancel' hpos] at hinsert
    have hlow : old.filter (·.line < n) = _ := rules.checkSource_filter path content (· < n)
    have hhigh : old.filter (n < ·.line) = _ := rules.checkSource_filter path content (n < ·)
    rw [checkSource, hlines, hinsert, hlow, hhigh, map_shift_mk, List.map_append]
  refine ⟨hdefects, ?_, ?_⟩
  · rw [hlines, List.getElem?_append_right (by omega), hlength, Nat.sub_sub_self hpos,
      List.getElem?_cons_succ, List.getElem?_drop]
    rfl
  · intro hmem
    rw [hdefects, List.mem_append, List.mem_filter, List.mem_map] at hmem
    rcases hmem with ⟨_, hlow⟩ | ⟨d, hd, heq⟩
    · exact absurd (of_decide_eq_true hlow) (by simp)
    · have hline : d.line + 1 = n + 1 := congrArg Defect.line heq
      have hhigh : n < d.line := of_decide_eq_true (List.mem_filter.mp hd).2
      omega

/-- A line above the second of three declarations, in a text with all three terminators. -/
theorem checkSource_repair_between :
    let rules : Rules := ⟨["rs"], ["fn"], ["//"], "///"⟩
    let path := Path.ofString "a.rs"
    ⟨path, 2⟩ ∈ rules.checkSource path "fn e\r\nfn f\rfn g\n".toList ∧
    rules.checkSource path "fn e\n/// f\nfn f\nfn g\n".toList = [⟨path, 1⟩, ⟨path, 4⟩] := by
  intro rules path
  have hdefect : ⟨path, 2⟩ ∈ rules.checkSource path "fn e\r\nfn f\rfn g\n".toList := by decide
  have hfix : ∀ c ∈ "/// f".toList, Text.IsInline c := by simp [Text.IsInline]
  have hmarker : rules.docMarker.toList <:+: "/// f".toList := by decide
  refine ⟨hdefect, Eq.trans ?_ ((checkSource_repair hdefect hfix hmarker (by decide)).1.trans ?_)⟩
  · exact congrArg (rules.checkSource path) (by decide)
  · decide

/-! ## Texts put together -/

/-- If no line and no terminator reaches across the border of two texts, a scan of both reports
    what it reports of the first, and then what it reports of the second, numbered on. Only the
    first line of the second text is judged anew, below the last line of the first text. -/
theorem checkSource_append (rules : Rules) (path : Path) {text more : List Char}
    (hclosed : Text.IsClosed text) (hmeet : ¬ Text.Merges text more) :
    let lines := Text.physicalLines text
    let defects := rules.checkSource path (text ++ more)
    defects =
      rules.checkSource path text ++
        (if (Text.physicalLines more).head?.any (rules.isUndocumented (lines.getLastD [])) then
          [⟨path, lines.length + 1⟩] else []) ++
        ((rules.checkSource path more).filter (1 < ·.line)).map (Defect.shift lines.length) ∧
    ∀ n, 1 < n →
      (⟨path, lines.length + n⟩ ∈ defects ↔ ⟨path, n⟩ ∈ rules.checkSource path more) := by
  intro lines defects
  have hdefects : defects = (rules.undocumented [] 1 lines ++
      rules.undocumented (lines.getLastD []) (1 + lines.length) (Text.physicalLines more)).map
        (Defect.mk path) := by
    rw [← undocumented_append, ← Text.physicalLines_append hclosed hmeet]
    rfl
  constructor
  · have hlater : (rules.checkSource path more).filter (1 < ·.line) = _ :=
      rules.checkSource_filter path more (1 < ·)
    rw [hdefects, undocumented_below rules _ [] 1, hlater, map_shift_mk, List.map_append,
      List.map_append, List.append_assoc, Nat.add_comm 1]
    congr 2
    split <;> rfl
  · intro n hn
    rw [hdefects, mem_map_mk_iff, List.mem_append, checkSource, mem_map_mk_iff, Nat.add_comm,
      mem_undocumented_below hn]
    refine or_iff_right fun hfirst => ?_
    have hlt := (bounds_of_mem_undocumented hfirst).2
    omega

/-- A declaration below its comment in the text before, in texts with two kinds of terminators. -/
theorem checkSource_append_documented :
    let rules : Rules := ⟨["rs"], ["fn"], ["//"], "///"⟩
    let path := Path.ofString "a.rs"
    Text.IsClosed "fn e\r/// f\r".toList ∧
    ¬ Text.Merges "fn e\r/// f\r".toList "fn f\nfn g".toList ∧
    rules.checkSource path ("fn e\r/// f\r".toList ++ "fn f\nfn g".toList) =
      [⟨path, 1⟩, ⟨path, 4⟩] ∧
    rules.checkSource path "fn f\nfn g".toList = [⟨path, 1⟩, ⟨path, 2⟩] := by
  intro rules path
  have hclosed : Text.IsClosed "fn e\r/// f\r".toList := by decide
  have hmeet : ¬ Text.Merges "fn e\r/// f\r".toList "fn f\nfn g".toList := by decide
  exact ⟨hclosed, hmeet, (rules.checkSource_append path hclosed hmeet).1.trans (by decide),
    by decide⟩

/-! ## Terminators -/

section Blank

variable {rules : Rules} (hkeys : "" ∉ rules.keywords)
include hkeys

theorem isUndocumented_nil (above : List Char) : rules.isUndocumented above [] = false := by
  have hword : ((([] : List Char).splitOn ' ').any fun word => rules.keywords.any fun key =>
      key.toList = word) = false := by
    simp only [List.splitOn_nil, List.any_cons, List.any_nil, Bool.or_false, List.any_eq_false,
      decide_eq_true_eq, String.toList_eq_nil_iff]
    rintro key hkey rfl
    exact hkeys hkey
  have hkind : rules.classify [] ≠ .declaration := by
    simp only [classify, Text.trim_nil, hword]
    split <;> simp
  simp [isUndocumented, hkind]

/-- Empty lines are not reported, wherever they stand. -/
theorem undocumented_blank (above : List Char) (n k : Nat) :
    rules.undocumented above n (List.replicate k []) = [] := by
  induction k generalizing above n with
  | zero => rfl
  | succ k ih => rw [List.replicate_succ, undocumented_cons, isUndocumented_nil hkeys, ih]; rfl

end Blank

/-- Which terminators a text has is of no account. If the empty word is no keyword, neither are
    terminators behind the text, and line feeds in front of it only move the reports down. -/
theorem checkSource_terminators (rules : Rules) (path : Path) (content : List Char) :
    rules.checkSource path (Text.withFeeds content) = rules.checkSource path content ∧
    ("" ∉ rules.keywords →
      (∀ more : List Char, (∀ c ∈ more, c = '\n' ∨ c = '\r') →
        rules.checkSource path (content ++ more) = rules.checkSource path content) ∧
      ∀ k, rules.checkSource path (List.replicate k '\n' ++ content) =
        (rules.checkSource path content).map (Defect.shift k)) := by
  refine ⟨?_, fun hkeys => ⟨fun more hmore => ?_, fun k => ?_⟩⟩
  · rw [checkSource, Text.physicalLines_withFeeds, ← checkSource]
  · have hnone : ∀ c ∈ more, ¬ Text.IsInline c := by
      intro c hc hinline
      exact (hmore c hc).elim hinline.1 hinline.2
    obtain ⟨k, hlines⟩ := (Text.cutsInto_physicalLines content).append_terminators hnone
    rw [checkSource, hlines, undocumented_append, undocumented_blank hkeys, List.append_nil,
      ← checkSource]
  · have hlast : (List.replicate k ([] : List Char)).getLastD [] = [] := by
      rw [List.getLastD_eq_getLast?, List.getLast?_replicate]
      split <;> rfl
    rw [checkSource, Text.physicalLines_feeds_append, undocumented_append,
      undocumented_blank hkeys, hlast, List.length_replicate, undocumented_shift, List.nil_append,
      ← map_shift_mk, ← checkSource]

/-- A line feed behind a text that ends in a carriage return, and two in front of it. -/
theorem checkSource_terminators_around :
    let rules : Rules := ⟨["rs"], ["fn"], ["//"], "///"⟩
    let path := Path.ofString "a.rs"
    "" ∉ rules.keywords ∧
    rules.checkSource path "/// d\r\nfn d\rfn e\r".toList = [⟨path, 3⟩] ∧
    rules.checkSource path "/// d\nfn d\nfn e\n".toList = [⟨path, 3⟩] ∧
    rules.checkSource path ("/// d\r\nfn d\rfn e\r".toList ++ "\n\r".toList) = [⟨path, 3⟩] ∧
    rules.checkSource path (List.replicate 2 '\n' ++ "/// d\r\nfn d\rfn e\r".toList) =
      [⟨path, 5⟩] := by
  intro rules path
  have hkeys : "" ∉ rules.keywords := by decide
  have hcontent : rules.checkSource path "/// d\r\nfn d\rfn e\r".toList = [⟨path, 3⟩] := by decide
  obtain ⟨hfeeds, haround⟩ := rules.checkSource_terminators path "/// d\r\nfn d\rfn e\r".toList
  obtain ⟨hbehind, hfront⟩ := haround hkeys
  refine ⟨hkeys, hcontent, hfeeds.trans hcontent, ?_, ?_⟩
  · exact (hbehind "\n\r".toList (by simp)).trans hcontent
  · rw [hfront 2, hcontent]
    rfl

end Rules

end DocLint
