-- SUMMARY: The report for people word for word, and that its defects and their number can be read off the page.
import DocLint.Proofs.Records

/-! # Pages

The output for people is written in small pieces, with marks for colour between them. Here it is
spelled out line by line, as it is on the screen: for each root a header and its defects, and in the
end how many defects there were. A reader that knows only the wording of these lines finds the
defects and their number again, if no name breaks a line.
-/

namespace DocLint

theorem notMem_toDigits {c : Char} (h : c.isDigit = false) (n : Nat) : c ∉ Nat.toDigits 10 n := by
  intro hc
  have hdigit := Nat.isDigit_of_mem_toDigits (b := 10) (by decide) (by decide) hc
  rw [h] at hdigit
  cases hdigit

/-! ## The wording -/

namespace Page

/-- A text in the colour of the given codes. -/
def painted (coloured : Bool) (codes text : String) : String :=
  if coloured then "\x1b[0m" ++ codes ++ text ++ "\x1b[0m" else text

/-- What stands above the defects of a root. -/
def headerText (root : String) : String :=
  "Checking for missing comments in " ++ root ++ "..."

def defectText (file : String) (line : Nat) : String :=
  "Missing Comment: " ++ file ++ ", line " ++ toString line

/-- What stands at the end of the page. -/
def totalText (total : Nat) : String :=
  if total = 0 then "✅ No missing comments found!"
  else "🚨 " ++ toString total ++ " missing comments found!"

/-- The header comes after a blank line. -/
def headerLine (root : String) : String :=
  "\n" ++ headerText root ++ "\n"

/-- Defects are yellow. -/
def defectLine (coloured : Bool) (file : String) (line : Nat) : String :=
  painted coloured "\x1b[33m" (defectText file line) ++ "\n"

/-- A number of defects is bold and red, after a blank line. That there are none is green. -/
def totalLine (coloured : Bool) (total : Nat) : String :=
  if total = 0 then painted coloured "\x1b[32m" (totalText total) ++ "\n"
  else "\n" ++ painted coloured "\x1b[1m\x1b[31m" (totalText total) ++ "\n"

/-- The page for roots and their defects. -/
def lines (coloured : Bool) (sections : List (Path × List Defect)) : List String :=
  (sections.flatMap fun s =>
    headerLine s.1.text :: s.2.map fun d => defectLine coloured d.file.text d.line) ++
  [totalLine coloured (sections.flatMap (·.2)).length]

def warningLine (coloured : Bool) (message : String) : String :=
  painted coloured "\x1b[33m" "Warning:" ++ " " ++ message ++ "\n"

/-- What is said besides the page: the warnings, and with details also what was skipped and how
    many files were checked. -/
def sideLines (coloured verbose : Bool) (report : Report) : List String :=
  report.warnings.map (warningLine coloured) ++
    if verbose then
      (report.skipped.map fun s => "Skipped " ++ s.path.text ++ " (" ++ s.reason.text ++ ")\n") ++
        ["Checked " ++ toString report.filesChecked.toNat ++ " files\n"]
    else []

end Page

/-! ## Pieces and lines -/

/-- The roots, each with the defects that its walk reports. -/
def Walker.sections (w : Walker) (tree : FileTree) (roots : List Path) :
    List (Path × List Defect) :=
  roots.map fun root => (root, (w.reportOn tree root).defects)

theorem Walker.sections_roots (w : Walker) (tree : FileTree) (roots : List Path) :
    (w.sections tree roots).map (·.1) = roots := by
  simp [sections, Function.comp_def]

/-- All sections together have the defects of the report, in its order. -/
theorem Walker.sections_defects (w : Walker) (tree : FileTree) (roots : List Path) :
    (w.sections tree roots).flatMap (·.2) = (w.total tree roots).defects := by
  rw [sections, List.flatMap_map, total_defects]

/-- All pieces for people: for each root its header and its defects, and in the end the total. -/
def Human.page (sections : List (Path × List Defect)) (total : Nat) : List Piece :=
  sections.flatMap (fun s => rootHeader s.1 ++ s.2.flatMap defect) ++ summary total

namespace Command

/-- All pieces of what is said besides. -/
def sidePage (verbose : Bool) (report : Report) : List Piece :=
  report.warnings.flatMap Human.warning ++
    if verbose then
      (report.skipped.map skippedLine ++
        ["Checked " ++ toString report.filesChecked.toNat ++ " files\n"]).map .text
    else []

theorem flatMap_humanEvent (w : Walker) (tree : FileTree) (roots : List Path) :
    (roots.flatMap (w.toldOf tree)).flatMap humanEvent =
      (w.sections tree roots).flatMap fun s =>
        Human.rootHeader s.1 ++ s.2.flatMap Human.defect := by
  have htold (root : Path) : (w.toldOf tree root).flatMap humanEvent =
      Human.rootHeader root ++ (w.reportOn tree root).defects.flatMap Human.defect := by
    rw [Walker.toldOf, List.flatMap_cons, List.flatMap_map]
    rfl
  rw [List.flatMap_assoc, Walker.sections, List.flatMap_map]
  simp only [htold]

/-- For people a check writes the pieces of a page, root by root. -/
theorem outPieces_human {config : Config} (h : config.output.format = .human) (coloured : Bool)
    (w : Walker) (tree : FileTree) (roots : List Path) (report : Report) :
    outPieces config coloured (roots.flatMap (w.toldOf tree)) report =
      render coloured (Human.page (w.sections tree roots) report.defects.length) := by
  have hevent : eventPieces config coloured = fun event => render coloured (humanEvent event) := by
    funext event
    simp only [eventPieces, h]
  have hevents (events : List Event) : events.flatMap (eventPieces config coloured) =
      render coloured (events.flatMap humanEvent) := by
    rw [hevent]
    exact List.map_flatMap.symm
  have hsummary : summaryPieces config coloured report =
      render coloured (Human.summary report.defects.length) := by
    simp only [summaryPieces, h, Report.defectCount]
  rw [outPieces, hevents, hsummary, flatMap_humanEvent, Human.page]
  exact List.map_append.symm

/-- What a check writes to `err` does not depend on the format. -/
theorem errPieces_eq (verbose coloured : Bool) (report : Report) :
    errPieces verbose coloured report = render coloured (sidePage verbose report) := by
  cases verbose <;> simp [errPieces, sidePage, render, Function.comp_def]

/-- The text of pieces. -/
def textOf (coloured : Bool) (pieces : List Piece) : String :=
  String.join (render coloured pieces)

section

variable (coloured : Bool)

theorem textOf_nil : textOf coloured [] = "" := rfl

theorem textOf_cons (p : Piece) (pieces : List Piece) :
    textOf coloured (p :: pieces) = p.render coloured ++ textOf coloured pieces :=
  String.join_cons

theorem textOf_append (pieces more : List Piece) :
    textOf coloured (pieces ++ more) = textOf coloured pieces ++ textOf coloured more := by
  rw [textOf, render, List.map_append, String.join_append]
  rfl

theorem textOf_flatMap {α : Type} {f : α → List Piece} {line : α → String}
    (h : ∀ a, textOf coloured (f a) = line a) (items : List α) :
    textOf coloured (items.flatMap f) = String.join (items.map line) := by
  induction items with
  | nil => rfl
  | cons a items ih => rw [List.flatMap_cons, textOf_append, h, ih, List.map_cons, String.join_cons]

/-- A text between its marks is painted, or plain if there is no colour. -/
theorem textOf_painted (colour : Colour) (bold : Bool) (text : String) (rest : List Piece) :
    textOf coloured (.start colour bold :: .text text :: .reset :: rest) =
      Page.painted coloured ((if bold then "\x1b[1m" else "") ++ Piece.escape colour.code) text ++
        textOf coloured rest := by
  have hreset : Piece.escape "0" = "\x1b[0m" := rfl
  have hbold : Piece.escape "1" = "\x1b[1m" := rfl
  cases coloured <;>
    simp only [textOf_cons, Piece.render, Page.painted, hreset, hbold, String.append_assoc,
      Bool.false_eq_true, if_true, if_false, String.empty_append]

theorem textOf_rootHeader (root : Path) :
    textOf coloured (Human.rootHeader root) = Page.headerLine root.text := by
  have hdots : "...\n" = "..." ++ "\n" := rfl
  unfold Human.rootHeader Page.headerLine Page.headerText
  simp only [textOf_cons, textOf_nil, Piece.render_text, String.append_empty, String.append_assoc]
  exact congrArg (fun dots => "\n" ++ ("Checking for missing comments in " ++ (root.text ++ dots)))
    hdots

theorem textOf_defect (d : Defect) :
    textOf coloured (Human.defect d) = Page.defectLine coloured d.file.text d.line := by
  rw [Human.defect, textOf_painted, textOf_cons, textOf_nil, String.append_empty]
  rfl

theorem textOf_summary (total : Nat) :
    textOf coloured (Human.summary total) = Page.totalLine coloured total := by
  cases total with
  | zero =>
    rw [Human.summary, if_neg (Nat.lt_irrefl 0), textOf_painted, textOf_cons, textOf_nil,
      String.append_empty]
    rfl
  | succ n =>
    rw [Human.summary, if_pos (Nat.succ_pos n), textOf_cons, textOf_painted, textOf_cons,
      textOf_nil, String.append_empty, ← String.append_assoc]
    rfl

theorem textOf_warning (message : String) :
    textOf coloured (Human.warning message) = Page.warningLine coloured message := by
  rw [Human.warning, textOf_painted, textOf_cons, textOf_nil, String.append_empty,
    Piece.render_text, ← String.append_assoc, ← String.append_assoc]
  rfl

/-- By the wording of each kind of line: the pieces of a page make its lines. -/
theorem textOf_page (sections : List (Path × List Defect)) :
    textOf coloured (Human.page sections (sections.flatMap (·.2)).length) =
      String.join (Page.lines coloured sections) := by
  have hsection (s : Path × List Defect) :
      textOf coloured (Human.rootHeader s.1 ++ s.2.flatMap Human.defect) =
        String.join (Page.headerLine s.1.text ::
          s.2.map fun d => Page.defectLine coloured d.file.text d.line) := by
    rw [textOf_append, textOf_rootHeader, textOf_flatMap coloured (textOf_defect coloured),
      String.join_cons]
  rw [Human.page, textOf_append, textOf_flatMap coloured hsection, textOf_summary, Page.lines,
    String.join_append, String.join_cons, String.join_nil, String.append_empty]
  congr 1
  induction sections with
  | nil => rfl
  | cons s sections ih =>
    rw [List.map_cons, String.join_cons, ih, List.flatMap_cons, String.join_append]

theorem textOf_sidePage (verbose : Bool) (report : Report) :
    textOf coloured (sidePage verbose report) =
      String.join (Page.sideLines coloured verbose report) := by
  rw [sidePage, textOf_append, textOf_flatMap coloured (textOf_warning coloured), Page.sideLines,
    String.join_append]
  congr 1
  cases verbose with
  | false => rfl
  | true => simp [textOf, render, Function.comp_def, skippedLine]

theorem bytesOf_eq_encode_join (pieces : List String) :
    Sink.bytesOf pieces = Text.Utf8.encode (String.join pieces).toList := by
  rw [Sink.bytesOf_eq_encode, String.toList_join]

/-- What is written for people is the page. -/
theorem bytesOf_page (sections : List (Path × List Defect)) :
    Sink.bytesOf (render coloured (Human.page sections (sections.flatMap (·.2)).length)) =
      Sink.bytesOf (Page.lines coloured sections) := by
  rw [bytesOf_eq_encode_join, bytesOf_eq_encode_join, ← textOf_page]
  rfl

/-- What is written to `err` are the warnings, and the details if they are asked for. -/
theorem bytesOf_sidePage (verbose : Bool) (report : Report) :
    Sink.bytesOf (render coloured (sidePage verbose report)) =
      Sink.bytesOf (Page.sideLines coloured verbose report) := by
  rw [bytesOf_eq_encode_join, bytesOf_eq_encode_join, ← textOf_sidePage]
  rfl

end

/-- The bytes show a report in a format: to people as the page of its roots and their defects, to
    programs as records. -/
inductive Shows (roots : List Path) (coloured : Bool) (report : Report) :
    Format → Bytes → Prop where
  | human {sections : List (Path × List Defect)} :
    sections.map (·.1) = roots → sections.flatMap (·.2) = report.defects →
      Shows roots coloured report .human (Sink.bytesOf (Page.lines coloured sections))
  | jsonl {text : List Char} :
    Jsonl.Tells roots report text →
      Shows roots coloured report .jsonl (Text.Utf8.encode text)

/-- What a check writes to `out` shows its report, in either format. -/
theorem shows_outPieces (config : Config) (coloured : Bool) (w : Walker) (tree : FileTree) :
    Shows config.check.roots coloured (w.total tree config.check.roots) config.output.format
      (Sink.bytesOf (outPieces config coloured (config.check.roots.flatMap (w.toldOf tree))
        (w.total tree config.check.roots))) := by
  cases hformat : config.output.format with
  | human =>
    rw [outPieces_human hformat, ← w.sections_defects, bytesOf_page]
    exact .human (w.sections_roots tree _) (w.sections_defects tree _)
  | jsonl =>
    rw [outPieces_jsonl hformat, w.told_defects, Sink.bytesOf_eq_encode]
    exact .jsonl (Jsonl.tells_records config.check.roots (w.total tree config.check.roots))

end Command

/-! ## Reading a page -/

namespace Page

/-- Takes the number off the end of a line. -/
def splitNumber? (line : List Char) : Option (List Char × Nat) :=
  (Json.Value.natOfDigits? (line.rtakeWhile Char.isDigit)).map fun n =>
    (line.rdropWhile Char.isDigit, n)

/-- The file and the line of a defect. -/
def readDefect? (line : List Char) : Option (String × Nat) :=
  (line.dropPrefix? "Missing Comment: ".toList).bind fun place =>
    (splitNumber? place).bind fun split =>
      (split.1.dropSuffix? ", line ".toList).map fun file => (String.ofList file, split.2)

/-- The number of defects. -/
def readTotal? (line : List Char) : Option Nat :=
  if line = "✅ No missing comments found!".toList then some 0
  else
    ((line.dropPrefix? "🚨 ".toList).bind fun rest =>
      rest.dropSuffix? " missing comments found!".toList).bind Json.Value.natOfDigits?

/-- The defects on a page and the number in its last line. -/
def read? (text : List Char) : Option (List (String × Nat) × Nat) :=
  match (text.splitOn '\n').reverse with
  | [] :: last :: above => (readTotal? last).map fun n => (above.reverse.filterMap readDefect?, n)
  | _ => none

/-! ### Reading the lines of a page -/

/-- A number is taken off the end where no digit stands before it. -/
theorem splitNumber?_append {front : List Char} (h : ∀ c ∈ front.getLast?, c.isDigit = false)
    (n : Nat) : splitNumber? (front ++ (toString n).toList) = some (front, n) := by
  have hdigits : ∀ d ∈ (Nat.toDigits 10 n).reverse, d.isDigit = true :=
    fun d hd => Nat.isDigit_of_mem_toDigits (by decide) (by decide) (List.mem_reverse.mp hd)
  have htoList : (toString n).toList = Nat.toDigits 10 n := by simp
  have hfront : ∀ c ∈ front.reverse.head?, c.isDigit = false := by
    rwa [List.head?_reverse]
  rw [splitNumber?, htoList, List.rtakeWhile, List.rdropWhile, List.reverse_append,
    List.takeWhile_append_of_pos hdigits, List.dropWhile_append_of_pos hdigits]
  cases hreverse : front.reverse with
  | nil => simp_all [Json.Value.natOfDigits?_toDigits]
  | cons c rest =>
    have hc : c.isDigit = false := hfront c (by simp [hreverse])
    have hback : front = (c :: rest).reverse := by rw [← hreverse, List.reverse_reverse]
    simp [hc, Json.Value.natOfDigits?_toDigits, hback]

theorem toList_defectText (file : String) (line : Nat) :
    (defectText file line).toList = "Missing Comment: ".toList ++
      (file.toList ++ ", line ".toList ++ (toString line).toList) := by
  unfold defectText
  simp only [String.toList_append, List.append_assoc]

theorem toList_headerText (root : String) :
    (headerText root).toList =
      "Checking for missing comments in ".toList ++ (root.toList ++ "...".toList) := by
  unfold headerText
  simp only [String.toList_append, List.append_assoc]

theorem toList_totalText {total : Nat} (h : total ≠ 0) :
    (totalText total).toList = "🚨 ".toList ++
      ((toString total).toList ++ " missing comments found!".toList) := by
  unfold totalText
  simp only [if_neg h, String.toList_append, List.append_assoc]

/-- The line of a defect is read back, whatever the file is called. -/
theorem readDefect?_defectText (file : String) (line : Nat) :
    readDefect? (defectText file line).toList = some (file, line) := by
  have hlast : (file.toList ++ ", line ".toList).getLast? = some ' ' :=
    List.getLast?_append_of_ne_nil _ (by simp)
  have hfile : (file.toList ++ ", line ".toList).dropSuffix? ", line ".toList = some file.toList :=
    List.dropSuffix?_eq_some_iff.mpr ⟨_, rfl, BEq.rfl⟩
  rw [toList_defectText, readDefect?, List.dropPrefix?_append_of_beq _ BEq.rfl, Option.bind_some,
    splitNumber?_append (by rw [hlast]; simp), Option.bind_some, hfile, Option.map_some,
    String.ofList_toList]

/-- A line that starts otherwise is no defect. -/
theorem readDefect?_of_head {line : List Char} (h : line.head? ≠ some 'M') :
    readDefect? line = none := by
  unfold readDefect?
  cases hplace : line.dropPrefix? "Missing Comment: ".toList with
  | none => rfl
  | some place =>
    obtain ⟨start, rfl, hstart⟩ := List.dropPrefix?_eq_some_iff.mp hplace
    obtain rfl := eq_of_beq hstart
    exact absurd rfl h

theorem readDefect?_headerText (root : String) : readDefect? (headerText root).toList = none := by
  have hhead : "Checking for missing comments in ".toList.head? = some 'C' := rfl
  apply readDefect?_of_head
  rw [toList_headerText, List.head?_append, hhead]
  simp

/-- The number in the last line is read back. None is said without a digit. -/
theorem readTotal?_totalText (total : Nat) : readTotal? (totalText total).toList = some total := by
  by_cases h : total = 0
  · subst h
    rfl
  · have hsign : "🚨 ".toList.head? = some '🚨' ∧
        "✅ No missing comments found!".toList.head? = some '✅' := ⟨rfl, rfl⟩
    have hne : (totalText total).toList ≠ "✅ No missing comments found!".toList := by
      intro heq
      have hhead := congrArg List.head? heq
      rw [toList_totalText h, List.head?_append, hsign.1, hsign.2] at hhead
      simp at hhead
    have hdigits : ((toString total).toList ++ " missing comments found!".toList).dropSuffix?
        " missing comments found!".toList = some (toString total).toList :=
      List.dropSuffix?_eq_some_iff.mpr ⟨_, rfl, BEq.rfl⟩
    have htoList : (toString total).toList = Nat.toDigits 10 total := by simp
    rw [readTotal?, if_neg hne, toList_totalText h, List.dropPrefix?_append_of_beq _ BEq.rfl,
      Option.bind_some, hdigits, Option.bind_some, htoList, Json.Value.natOfDigits?_toDigits]

/-! ### Reading the page -/

/-- The lines of a page, without their ends. -/
def rows (sections : List (Path × List Defect)) : List (List Char) :=
  sections.flatMap (fun s => [] :: (headerText s.1.text).toList ::
    s.2.map fun d => (defectText d.file.text d.line).toList) ++
  if (sections.flatMap (·.2)).length = 0 then [] else [[]]

theorem toList_headerLine (root : String) :
    (headerLine root).toList = [] ++ ['\n'] ++ ((headerText root).toList ++ ['\n']) := by
  unfold headerLine
  rw [String.toList_append, String.toList_append, List.append_assoc]
  rfl

theorem toList_defectLine (file : String) (line : Nat) :
    (defectLine false file line).toList = (defectText file line).toList ++ ['\n'] := by
  unfold defectLine
  rw [String.toList_append]
  rfl

theorem toList_totalLine (total : Nat) :
    (totalLine false total).toList =
      ((if total = 0 then [] else [[]]) ++ [(totalText total).toList]).flatMap (· ++ ['\n']) := by
  unfold totalLine
  split
  · rw [String.toList_append, List.nil_append, List.flatMap_singleton]
    rfl
  · rw [String.toList_append, String.toList_append, List.append_assoc]
    simp [painted]

/-- A page is made of rows, each with its end. -/
theorem toList_lines (sections : List (Path × List Defect)) :
    (String.join (lines false sections)).toList =
      (rows sections ++ [(totalText (sections.flatMap (·.2)).length).toList]).flatMap
        (· ++ ['\n']) := by
  have hsection (s : Path × List Defect) :
      (headerLine s.1.text :: s.2.map fun d => defectLine false d.file.text d.line).flatMap
        String.toList =
      ([] :: (headerText s.1.text).toList ::
        s.2.map fun d => (defectText d.file.text d.line).toList).flatMap (· ++ ['\n']) := by
    simp only [List.flatMap_cons, List.flatMap_map, toList_headerLine, toList_defectLine,
      List.append_assoc]
  rw [String.toList_join, lines, rows, List.append_assoc, List.flatMap_append, List.flatMap_append,
    List.flatMap_singleton, toList_totalLine, List.flatMap_assoc, List.flatMap_assoc]
  simp only [hsection]

/-- No name on the page breaks a line. -/
structure Unbroken (roots : List Path) (defects : List Defect) : Prop where
  roots : ∀ root ∈ roots, '\n' ∉ root.text.toList
  defects : ∀ d ∈ defects, '\n' ∉ d.file.text.toList

/-- The rows have no newlines in them if no name has. -/
theorem newline_notMem_rows {sections : List (Path × List Defect)}
    (h : Unbroken (sections.map (·.1)) (sections.flatMap (·.2))) :
    ∀ row ∈ rows sections, '\n' ∉ row := by
  intro row hrow
  rcases List.mem_append.mp hrow with hrow | hrow
  · obtain ⟨s, hs, hrow⟩ := List.mem_flatMap.mp hrow
    have hroot := h.roots s.1 (List.mem_map_of_mem hs)
    rcases List.mem_cons.mp hrow with rfl | hrow
    · exact List.not_mem_nil
    rcases List.mem_cons.mp hrow with rfl | hrow
    · rw [toList_headerText]
      simp [hroot]
    · obtain ⟨d, hd, rfl⟩ := List.mem_map.mp hrow
      have hfile := h.defects d (List.mem_flatMap_of_mem hs hd)
      have hline := notMem_toDigits (c := '\n') (by decide) d.line
      rw [toList_defectText]
      simp [hfile, hline]
  · split at hrow
    · cases hrow
    · obtain rfl := List.mem_singleton.mp hrow
      exact List.not_mem_nil

theorem newline_notMem_totalText (total : Nat) : '\n' ∉ (totalText total).toList := by
  by_cases h : total = 0
  · subst h
    decide
  · have htotal := notMem_toDigits (c := '\n') (by decide) total
    rw [toList_totalText h]
    simp [htotal]

/-- Of all rows, those of defects are the ones that are read as such. -/
theorem filterMap_rows (sections : List (Path × List Defect)) :
    (rows sections).filterMap readDefect? =
      (sections.flatMap (·.2)).map fun d => (d.file.text, d.line) := by
  have hblank : readDefect? [] = none := readDefect?_of_head nofun
  have hend (n : Nat) : (if n = 0 then [] else [[]]).filterMap readDefect? = [] := by
    split
    · rfl
    · simp [hblank]
  rw [rows, List.filterMap_append, hend, List.append_nil]
  induction sections with
  | nil => rfl
  | cons s sections ih =>
    simp only [List.flatMap_cons, List.filterMap_append, List.map_append, ih, List.cons_append,
      List.filterMap_cons_none hblank, List.filterMap_cons_none (readDefect?_headerText _),
      List.filterMap_map, Function.comp_def, readDefect?_defectText]
    simp

/-- The reader finds the defects of a page, in their order, and their number. -/
theorem read?_lines {sections : List (Path × List Defect)}
    (h : Unbroken (sections.map (·.1)) (sections.flatMap (·.2))) :
    read? (String.join (lines false sections)).toList =
      some ((sections.flatMap (·.2)).map fun d => (d.file.text, d.line),
        (sections.flatMap (·.2)).length) := by
  have hsplit : (String.join (lines false sections)).toList.splitOn '\n' =
      rows sections ++ [(totalText (sections.flatMap (·.2)).length).toList, []] := by
    rw [toList_lines, Text.splitOn_lines, List.append_assoc]
    · rfl
    · intro row hrow
      rcases List.mem_append.mp hrow with hrow | hrow
      · exact newline_notMem_rows h row hrow
      · obtain rfl := List.mem_singleton.mp hrow
        exact newline_notMem_totalText _
  rw [read?, hsplit, List.reverse_append]
  simp [readTotal?_totalText, filterMap_rows]

end Page

end DocLint
