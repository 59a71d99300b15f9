-- SUMMARY: The report for programs can be read back: line by line it is the defects and then the summary.
import DocLint.Json.Defect
import DocLint.Proofs.Defects
import DocLint.Proofs.Json
import DocLint.Proofs.Refusals
import DocLint.Proofs.Words
import Mathlib

/-! # Reading records back

Names of files and roots are any bytes. Before they are written they become text, the text is
escaped, and the record is encoded again, so a reader has three layers to undo: it decodes the
bytes, cuts the text into lines, and parses each line. Line feeds in names do no harm because
they are never written as such.
-/

namespace DocLint

/-! ## Lines -/

/-- Lines without newlines, each with its end, are split up again. -/
theorem Text.splitOn_lines {α : Type} [DecidableEq α] {sep : α} {lines : List (List α)}
    (h : ∀ line ∈ lines, sep ∉ line) :
    (lines.flatMap (· ++ [sep])).splitOn sep = lines ++ [[]] := by
  induction lines with
  | nil => rfl
  | cons line lines ih =>
    obtain ⟨hline, hlines⟩ := List.forall_mem_cons.mp h
    rw [List.flatMap_cons, List.append_assoc, List.singleton_append,
      List.splitOn_append_cons_self, List.splitOn_eq_singleton hline, ih hlines]
    rfl

theorem Sink.decode?_bytesOf (pieces : List String) :
    Text.Utf8.decode? (bytesOf pieces) = some (pieces.flatMap String.toList) := by
  rw [bytesOf_eq_encode, Text.Utf8.decode?_encode]

namespace Jsonl

theorem plain_defect (d : Defect) : Json.Plain (defect d) := by
  apply Json.Plain.ofFields
  simp only [List.forall_mem_cons]
  exact ⟨.ofText _, .ofText _, .ofNat _, by simp⟩

theorem plain_summary (roots : List Path) (report : Report) : Json.Plain (summary roots report) := by
  have hroots : Json.Plain (.array (roots.map fun root => .ofText root.text)) := by
    apply Json.Plain.array
    intro v hv
    obtain ⟨root, _, rfl⟩ := List.mem_map.mp hv
    exact .ofText _
  apply Json.Plain.ofFields
  simp only [List.forall_mem_cons]
  exact ⟨.ofText _, hroots, .ofNat _, .ofNat _, .bool _, by simp⟩

/-- The records of a report: its defects, and then the summary. -/
def records (roots : List Path) (report : Report) : List Json.Value :=
  report.defects.map defect ++ [summary roots report]

theorem plain_of_mem_records {roots : List Path} {report : Report} :
    ∀ record ∈ records roots report, Json.Plain record := by
  intro record hrecord
  rcases List.mem_append.mp hrecord with hrecord | hrecord
  · obtain ⟨d, _, rfl⟩ := List.mem_map.mp hrecord
    exact plain_defect d
  · obtain rfl := List.mem_singleton.mp hrecord
    exact plain_summary _ _

/-- Lines of records that have been written come apart again. -/
theorem splitOn_records (roots : List Path) (report : Report) :
    (((records roots report).map line).flatMap String.toList).splitOn '\n' =
      report.defects.map (fun d => (defect d).write) ++ [(summary roots report).write, []] := by
  have hlines : ((records roots report).map line).flatMap String.toList =
      ((records roots report).map Json.Value.write).flatMap (· ++ ['\n']) := by
    simp [List.flatMap_map, line, Json.Value.render]
  have hplain : ∀ text ∈ (records roots report).map Json.Value.write, '\n' ∉ text := by
    intro text htext
    obtain ⟨record, hrecord, rfl⟩ := List.mem_map.mp htext
    exact Json.newline_notMem_write (plain_of_mem_records record hrecord)
  rw [hlines, Text.splitOn_lines hplain]
  simp [records, Function.comp_def]

/-- The record of a defect, as any reader of JSON finds it. -/
theorem parse?_defect (d : Defect) :
    Json.parse? (defect d).write = some (.ofFields
      [("type", .ofText "defect"), ("file", .ofText d.file.text), ("line", .ofNat d.line)]) :=
  Json.parse?_write (plain_defect d)

/-- The record of the summary, as any reader of JSON finds it. -/
theorem parse?_summary (roots : List Path) (report : Report) :
    Json.parse? (summary roots report).write = some (.ofFields
      [("type", .ofText "summary"),
       ("roots", .array (roots.map fun root => .ofText root.text)),
       ("files_checked", .ofNat report.filesChecked.toNat),
       ("defects", .ofNat report.defectCount),
       ("passed", .bool (decide (report.defectCount = 0)))]) := by
  have hpassed : report.passed = decide (report.defectCount = 0) :=
    Bool.eq_iff_iff.mpr (by simp [report.passed_iff_defectCount])
  rw [← hpassed]
  exact Json.parse?_write (plain_summary _ _)

/-- The text is a line for each defect of a report and then one for the summary, and each line
    parses as the record that it should be. -/
def Tells (roots : List Path) (report : Report) (text : List Char) : Prop :=
  ∃ lines last, text.splitOn '\n' = lines ++ [last, []] ∧
    List.Forall₂ (fun line (d : Defect) => Json.parse? line = some (.ofFields
      [("type", .ofText "defect"), ("file", .ofText d.file.text), ("line", .ofNat d.line)]))
      lines report.defects ∧
    Json.parse? last = some (.ofFields
      [("type", .ofText "summary"),
       ("roots", .array (roots.map fun root => .ofText root.text)),
       ("files_checked", .ofNat report.filesChecked.toNat),
       ("defects", .ofNat report.defects.length),
       ("passed", .bool (decide (report.defects.length = 0)))])

/-- The lines of the records tell of the report. -/
theorem tells_records (roots : List Path) (report : Report) :
    Tells roots report (((records roots report).map line).flatMap String.toList) := by
  refine ⟨_, _, splitOn_records roots report, ?_, parse?_summary roots report⟩
  rw [List.forall₂_map_left_iff, List.forall₂_same]
  exact fun d _ => parse?_defect d

end Jsonl

/-! ## Reading a defect from its record -/

namespace Json

theorem Item.text?_map_char (text : List Char) : Item.text? (text.map .char) = some text := by
  induction text with
  | nil => rfl
  | cons c text ih => simp [Item.text?, ih]

@[simp] theorem Value.text?_ofText (text : String) : (Value.ofText text).text? = some text := by
  simp [Value.ofText, Value.text?, Item.text?_map_char]

theorem Value.natOfDigits?_concat (front : List Char) (c : Char) :
    natOfDigits? (front ++ [c]) =
      (natOfDigits? front).bind fun n => (digit? c).map fun d => n * 10 + d := by
  unfold natOfDigits?
  rw [List.foldl_append, List.foldl_cons, List.foldl_nil]
  cases digit? c <;> rfl

theorem Value.natOfDigits?_toDigits (n : Nat) : natOfDigits? (Nat.toDigits 10 n) = some n := by
  have hdigit : ∀ n < 10, digit? n.digitChar = some n := by decide
  induction n using Nat.strongRecOn with
  | ind n ih =>
    rw [Nat.toDigits_eq_if (by decide)]
    split
    · rename_i hlt
      simp [natOfDigits?, hdigit n hlt]
    · have hfront : natOfDigits? (Nat.toDigits 10 (n / 10)) = some (n / 10) :=
        ih (n / 10) (by omega)
      rw [natOfDigits?_concat, hfront, hdigit _ (Nat.mod_lt n (by decide)), Option.bind_some,
        Option.map_some, Option.some.injEq]
      omega

theorem Value.natBelow?_ofNat {bound n : Nat} (h : n < bound) :
    (Value.ofNat n).natBelow? bound = some n := by
  simp [Value.ofNat, natBelow?, natOfDigits?_toDigits, h]

end Json

namespace Defect

/-- An entry of an object by the text of its key, if the key denotes one. -/
def keyed? (e : List Json.Item × Json.Value) : Option (String × Json.Value) :=
  (Json.Item.text? e.1).map fun text => (String.ofList text, e.2)

theorem ofJson?_object (entries : List (List Json.Item × Json.Value)) :
    ofJson? (.object entries) =
      (entries.mapM keyed?).bind fun fields =>
        (field? "file" fields).bind fun file =>
          (field? "line" fields).bind fun line => ofParts? file line :=
  rfl

/-- In an object whose keys are texts, only the two fields count. -/
theorem ofJson?_ofFields (fields : List (String × Json.Value)) :
    ofJson? (.ofFields fields) =
      (field? "file" fields).bind fun file =>
        (field? "line" fields).bind fun line => ofParts? file line := by
  have hfields : (fields.map fun field => (field.1.toList.map Json.Item.char, field.2)).mapM
      keyed? = some fields := by
    rw [Text.mapM_eq_some_iff, List.map_map]
    refine List.map_congr_left fun field _ => ?_
    simp [keyed?, Json.Item.text?_map_char]
  rw [Json.Value.ofFields, ofJson?_object, hfields, Option.bind_some]

/-- The record has one key more than a defect that is written by itself. It is passed over. -/
theorem ofJson?_record {d : Defect} (h : d.line < lineBound) :
    ofJson? (Jsonl.defect d) = some ⟨.ofString d.file.text, d.line⟩ := by
  rw [Jsonl.defect, ofJson?_ofFields]
  simp [field?, ofParts?, Json.Value.natBelow?_ofNat h]

/-- The record of a defect is itself a defect in JSON. The name of its file may have lost what was
    not UTF-8. -/
theorem parse?_record {d : Defect} (h : d.line < lineBound) :
    parse? (String.ofList (Jsonl.defect d).write) = some ⟨.ofString d.file.text, d.line⟩ := by
  rw [parse?, String.toList_ofList, Json.parse?_write (Jsonl.plain_defect d), Option.bind_some,
    ofJson?_record h]

end Defect

/-! ## The whole output -/

/-- No file of the tree is so large that its bytes cannot be counted. -/
def FileTree.Addressable (tree : FileTree) : Prop :=
  ∀ access content, tree.Holds (.file access content) → content.length < Defect.lineBound

/-- Contents that fit into memory have no more lines than can be counted. -/
theorem Walker.line_lt_of_mem_total {w : Walker} {tree : FileTree} (htree : tree.Addressable)
    {roots : List Path} {d : Defect} (h : d ∈ (w.total tree roots).defects) :
    d.line < Defect.lineBound := by
  rw [w.total_defects, List.mem_flatMap] at h
  obtain ⟨root, _, hd⟩ := h
  obtain ⟨access, content, hfile, hline⟩ := line_le_of_mem_report hd
  exact Nat.lt_of_le_of_lt hline (htree access content hfile)

namespace Command

/-- For programs a check writes records, and nothing about roots. -/
theorem outPieces_jsonl {config : Config} (h : config.output.format = .jsonl) (coloured : Bool)
    (events : List Event) (report : Report) :
    outPieces config coloured events report =
      ((events.filterMap Event.defect?).map Jsonl.defect ++
        [Jsonl.summary config.check.roots report]).map Jsonl.line := by
  have hevents : events.flatMap (eventPieces config coloured) =
      ((events.filterMap Event.defect?).map Jsonl.defect).map Jsonl.line := by
    induction events with
    | nil => rfl
    | cons event events ih =>
      cases event with
      | rootStarted root =>
        rw [List.filterMap_cons_none rfl, List.flatMap_cons, ih]
        simp [eventPieces, h, jsonlEvent]
      | defect d =>
        have hdefect : Event.defect? (.defect d) = some d := rfl
        rw [List.filterMap_cons_some hdefect, List.flatMap_cons, ih]
        simp [eventPieces, h, jsonlEvent]
  rw [outPieces, hevents]
  simp [summaryPieces, h]

/-- The report for programs is a line for each defect and one for the summary. Whatever is in
    the names of files and roots, each line parses as a record with the text of the name, and the
    reader of defects takes the line of a defect for that defect. -/
theorem execute_records (tree : FileTree) (config : Config) (verbose : Bool) (colour : Colouring)
    (hformat : config.output.format = .jsonl)
    (hroots : ∀ root ∈ config.check.roots, tree.isDir root = true) :
    let run := execute tree config verbose colour .unlimited .unlimited
    (∃ e, config.walker = .error e ∧ run.result = .error (.walk e) ∧ run.out.bytes = []) ∨
    ∃ events report text records summary,
      walked tree config = .ok (events, report) ∧ run.result = .ok report ∧
      Text.Utf8.decode? run.out.bytes = some text ∧
      text.splitOn '\n' = records ++ [summary, []] ∧
      List.Forall₂ (fun record (d : Defect) =>
        Json.parse? record = some (.ofFields
          [("type", .ofText "defect"), ("file", .ofText d.file.text), ("line", .ofNat d.line)]) ∧
        (tree.Addressable →
          Defect.parse? (String.ofList record) = some ⟨.ofString d.file.text, d.line⟩))
        records report.defects ∧
      Json.parse? summary = some (.ofFields
        [("type", .ofText "summary"),
         ("roots", .array (config.check.roots.map fun root => .ofText root.text)),
         ("files_checked", .ofNat report.filesChecked.toNat),
         ("defects", .ofNat report.defectCount),
         ("passed", .bool (decide (report.defectCount = 0)))]) := by
  intro run
  cases hw : config.walker with
  | error e =>
    have hwalk := walked_of_walker_failed hw tree
    simp only [run, execute_eq_of_walk_failed hwalk]
    exact .inl ⟨e, rfl, rfl, rfl⟩
  | ok w =>
    have hwalk := walked_of_isDir hw hroots
    obtain ⟨hresult, hbytes, _⟩ := execute_unlimited hwalk verbose colour
    rw [outPieces_jsonl hformat, w.told_defects] at hbytes
    generalize hreport : w.total tree config.check.roots = report at hwalk hresult hbytes
    refine .inr ⟨_, report, _, _, _, hwalk, hresult,
      (congrArg _ hbytes).trans (Sink.decode?_bytesOf _),
      Jsonl.splitOn_records config.check.roots report, ?_, Jsonl.parse?_summary _ _⟩
    rw [List.forall₂_map_left_iff, List.forall₂_same]
    intro d hd
    refine ⟨Jsonl.parse?_defect d, fun htree => Defect.parse?_record ?_⟩
    rw [← hreport] at hd
    exact Walker.line_lt_of_mem_total htree hd

end Command

/-- A file whose name has a quotation mark, a backslash, a line feed and a byte that is no text,
    in a directory whose name ends in a line feed. -/
def FileTree.ofAwkwardNames : FileTree where
  root := .dir .full
    [([97, 10], .dir .full [([34, 92, 10, 255, 46, 98], .file .full [10, 102, 110])])]
  cwd := []

/-- Settings for that file. -/
def Config.ofAwkwardNames : Config where
  check := { roots := [⟨[97, 10]⟩], extensions := ["b"], keywords := ["fn"] }
  output := { format := .jsonl }

theorem FileTree.addressable_ofAwkwardNames : FileTree.ofAwkwardNames.Addressable := by
  have hfiles : ∀ {node}, FileTree.ofAwkwardNames.Holds node →
      node = FileTree.ofAwkwardNames.root ∨
      node = .dir .full [([34, 92, 10, 255, 46, 98], .file .full [10, 102, 110])] ∨
      node = .file .full [10, 102, 110] := by
    intro node h
    induction h with
    | root => exact .inl rfl
    | entry _ he ih =>
      rcases ih with rfl | rfl | rfl
      · simp_all [ofAwkwardNames, Node.entries]
      · simp_all [Node.entries]
      · simp_all [Node.entries]
  intro access content h
  rcases hfiles h with h | h | h
  · cases h
  · cases h
  · cases h
    decide

theorem Command.execute_records_ofAwkwardNames :
    Config.ofAwkwardNames.output.format = .jsonl ∧
    (∀ root ∈ Config.ofAwkwardNames.check.roots, FileTree.ofAwkwardNames.isDir root = true) ∧
    ∃ text record summary,
      Text.Utf8.decode? (execute FileTree.ofAwkwardNames Config.ofAwkwardNames false .plain
        .unlimited .unlimited).out.bytes = some text ∧
      text.splitOn '\n' = [record, summary, []] ∧
      Defect.parse? (String.ofList record) = some ⟨.ofString "/a\n/\"\\\n\ufffd.b", 2⟩ := by
  have hroots : ∀ root ∈ Config.ofAwkwardNames.check.roots,
      FileTree.ofAwkwardNames.isDir root = true := by
    decide
  have hwalk : walked FileTree.ofAwkwardNames Config.ofAwkwardNames =
      .ok ([.rootStarted ⟨[97, 10]⟩, .defect ⟨⟨[47, 97, 10, 47, 34, 92, 10, 255, 46, 98]⟩, 2⟩],
        { defects := [⟨⟨[47, 97, 10, 47, 34, 92, 10, 255, 46, 98]⟩, 2⟩], filesChecked := 1 }) := by
    cbv
  refine ⟨rfl, hroots, ?_⟩
  rcases execute_records _ _ false .plain rfl hroots with
    ⟨e, hw, _⟩ | ⟨events, report, text, records, summary, hwalk', _, htext, hsplit, hrecords, _⟩
  · rw [walked, hw] at hwalk
    cases hwalk
  · rw [hwalk] at hwalk'
    cases hwalk'
    obtain ⟨record, _, hrecord, hnil, rfl⟩ := List.forall₂_cons_right_iff.mp hrecords
    obtain rfl := List.forall₂_nil_right_iff.mp hnil
    refine ⟨text, record, summary, htext, hsplit, ?_⟩
    rw [hrecord.2 FileTree.addressable_ofAwkwardNames]
    decide +kernel

end DocLint
