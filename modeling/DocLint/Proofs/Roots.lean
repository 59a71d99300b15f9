-- SUMMARY: Laws of walking several roots: all or nothing, root after root, and in any order the same up to order.
import DocLint.Proofs.Refusals
import DocLint.Proofs.WalkOrder
import Mathlib

/-! # Several roots

What is told of several roots is what is told of each, in a row, and their report is the sum
of the reports. So the order of the roots decides the order of what is found and nothing else.
A defect is found once for each root that leads to it, since one walk reports nothing twice.
-/

namespace DocLint

/-! ## Reports up to order -/

/-- The two reports hold the same, perhaps in another order. -/
structure Report.Reordered (r s : Report) : Prop where
  defects : r.defects.Perm s.defects
  filesChecked : r.filesChecked = s.filesChecked
  skipped : r.skipped.Perm s.skipped
  warnings : r.warnings.Perm s.warnings

namespace Report.Reordered

variable {r r' s t : Report}

theorem rfl {r : Report} : r.Reordered r :=
  ⟨.refl _, Eq.refl _, .refl _, .refl _⟩

theorem trans (h : r.Reordered s) (h' : s.Reordered t) : r.Reordered t where
  defects := h.defects.trans h'.defects
  filesChecked := h.filesChecked.trans h'.filesChecked
  skipped := h.skipped.trans h'.skipped
  warnings := h.warnings.trans h'.warnings

theorem merge_left (h : s.Reordered t) (r : Report) : (r.merge s).Reordered (r.merge t) where
  defects := h.defects.append_left r.defects
  filesChecked := congrArg (r.filesChecked + ·) h.filesChecked
  skipped := h.skipped.append_left r.skipped
  warnings := h.warnings.append_left r.warnings

/-- Two reports may change places, up to the order of what they list. -/
theorem merge_swap (r s t : Report) : (r.merge (s.merge t)).Reordered (s.merge (r.merge t)) where
  defects := List.perm_append_comm_assoc _ _ _
  filesChecked := by
    simp only [Report.merge, ← UInt64.add_assoc, UInt64.add_comm r.filesChecked]
  skipped := List.perm_append_comm_assoc _ _ _
  warnings := List.perm_append_comm_assoc _ _ _

theorem defectCount_eq (h : r.Reordered s) : r.defectCount = s.defectCount :=
  h.defects.length_eq

theorem passed_eq (h : r.Reordered s) : r.passed = s.passed := by
  rw [Bool.eq_iff_iff, passed_iff_defectCount, passed_iff_defectCount, h.defectCount_eq]

end Report.Reordered

/-- The roots in another order give the same total, up to the order of what it lists. -/
theorem Walker.total_reordered (w : Walker) (tree : FileTree) {roots roots' : List Path}
    (h : roots.Perm roots') : (w.total tree roots).Reordered (w.total tree roots') := by
  induction h with
  | nil => exact .rfl
  | cons root _ ih =>
    simp only [total_cons]
    exact ih.merge_left _
  | swap root root' rest =>
    simp only [total_cons]
    exact .merge_swap _ _ _
  | trans _ _ ih ih' => exact ih.trans ih'

/-! ## How often a defect is found -/

/-- Of elements in strict order at most one has a property that tells no two of them apart. -/
theorem countP_of_pairwise {α : Type} {R : α → α → Prop} {p : α → Bool}
    (hp : ∀ a b, p a = true → p b = true → ¬ R a b) {l : List α} (hl : l.Pairwise R) :
    l.countP p = (l.any p).toNat := by
  induction l with
  | nil => rfl
  | cons a l ih =>
    obtain ⟨hhead, htail⟩ := List.pairwise_cons.mp hl
    rw [List.countP_cons, List.any_cons, ih htail]
    cases ha : p a with
    | false => simp
    | true =>
      have hnone : l.any p = false := by
        rw [List.any_eq_false]
        intro b hb hpb
        exact hp a b ha hpb (hhead b hb)
      simp [hnone]

theorem Defect.compare_ne_lt_of_equiv {d a b : Defect} (ha : d.equiv a = true)
    (hb : d.equiv b = true) : ¬ a.compare b = .lt := by
  simp only [Defect.equiv, Path.equiv, Bool.and_eq_true, beq_iff_eq] at ha hb
  rw [Defect.compare, Path.compare, ← ha.1, ← hb.1, ← ha.2, ← hb.2]
  simp [Std.ReflOrd.compare_self]

namespace Walker

/-- The walk of a root reports a defect with the property. -/
def finds (w : Walker) (tree : FileTree) (p : Defect → Bool) (root : Path) : Bool :=
  match w.walk tree root with
  | .ok report => report.defects.any p
  | .error _ => false

variable {w : Walker} {tree : FileTree} {roots : List Path}

/-- The defects on one root are in order, and none is there twice. -/
theorem reportOn_defects_increasing (htree : tree.WellFormed) {root : Path}
    (h : tree.isDir root = true) :
    (w.reportOn tree root).defects.Pairwise fun a b => a.compare b = .lt := by
  obtain ⟨node, hnode, hdir⟩ := FileTree.isDir_iff_seenAt.mp h
  exact Report.defects_ofFindings_increasing w.rules (w.listed_increasing htree hnode hdir)

/-- A defect is found as often as there are roots whose walks find it. -/
theorem countP_total (htree : tree.WellFormed) (h : ∀ root ∈ roots, tree.isDir root = true)
    {p : Defect → Bool} (hp : ∀ a b, p a = true → p b = true → ¬ a.compare b = .lt) :
    (w.total tree roots).defects.countP p = roots.countP (w.finds tree p) := by
  induction roots with
  | nil => rfl
  | cons root rest ih =>
    obtain ⟨hroot, hrest⟩ := List.forall_mem_cons.mp h
    have hfinds : w.finds tree p root = (w.reportOn tree root).defects.any p := by
      rw [finds, w.walk_of_isDir hroot]
    have hone := countP_of_pairwise hp (w.reportOn_defects_increasing htree hroot)
    rw [total_cons, Report.merge, List.countP_append, List.countP_cons, ih hrest, hone, hfinds,
      Nat.add_comm]
    cases (w.reportOn tree root).defects.any p <;> rfl

/-! ## The laws -/

/-- It takes a root that is not there to fail. -/
theorem tellRoots_fails_iff (w : Walker) (tree : FileTree) (roots : List Path) :
    (∃ e, (w.tellRoots tree roots).result = .error e) ↔
      ∃ root ∈ roots, tree.isDir root = false := by
  rw [← exists_firstMissing_iff]
  constructor
  · rintro ⟨e, he⟩
    obtain ⟨_, root, hroot, _⟩ := tellRoots_eq_error he
    exact ⟨root, hroot⟩
  · rintro ⟨root, hroot⟩
    exact ⟨.rootNotFound root, by rw [w.tellRoots_of_firstMissing hroot]⟩

/-- A check with a missing root asks neither sink for anything. -/
theorem execute_of_tellRoots_failed {config : Config} (hw : config.walker = .ok w) {e : WalkError}
    (h : (w.tellRoots tree config.check.roots).result = .error e) (verbose : Bool)
    (colour : Colouring) (out err : Sink) :
    Command.execute tree config verbose colour out err = ⟨.error (.walk e), out, err⟩ := by
  apply Command.execute_eq_of_walk_failed
  rw [Command.walked, hw]
  exact walkRoots_eq_error_iff.mpr (tellRoots_eq_error h).1

/-- Roots told in a row are told one list after the other. -/
theorem tellRoots_append (w : Walker) {rs ss : List Path}
    (h : ∀ root ∈ rs ++ ss, tree.isDir root = true) :
    ∃ r s, (w.tellRoots tree rs).result = .ok r ∧ (w.tellRoots tree ss).result = .ok s ∧
      w.tellRoots tree (rs ++ ss) =
        ⟨(w.tellRoots tree rs).events ++ (w.tellRoots tree ss).events, .ok (r.merge s)⟩ := by
  obtain ⟨hrs, hss⟩ := List.forall_mem_append.mp h
  refine ⟨w.total tree rs, w.total tree ss, ?_, ?_, ?_⟩
  · rw [w.tellRoots_of_isDir hrs]
  · rw [w.tellRoots_of_isDir hss]
  · rw [w.tellRoots_of_isDir h, w.tellRoots_of_isDir hrs, w.tellRoots_of_isDir hss,
      List.flatMap_append, w.total_append]

theorem tellRoots_singleton (w : Walker) {root : Path} (h : tree.isDir root = true) :
    ∃ own, w.walk tree root = .ok own ∧
      w.tellRoots tree [root] = ⟨.rootStarted root :: own.defects.map Event.defect, .ok own⟩ := by
  refine ⟨w.reportOn tree root, w.walk_of_isDir h, ?_⟩
  rw [w.tellRoots_of_isDir (by simpa using h)]
  simp [toldOf]

/-- Walking several roots is all or nothing: it fails if a root is missing, with the first such
    root as the error, and then nothing is told and a check writes nothing. Else it goes root
    after root, and its report does not depend on the order of the roots but for order. A defect
    is in it once for each root whose walk reports the defect. -/
theorem tellRoots_laws (w : Walker) (tree : FileTree) (roots : List Path) :
    ((∃ e, (w.tellRoots tree roots).result = .error e) ↔
      ∃ root ∈ roots, tree.isDir root = false) ∧
    (∀ e, (w.tellRoots tree roots).result = .error e →
      (w.tellRoots tree roots).events = [] ∧
      (∃ root, FirstMissing tree roots root ∧ e = .rootNotFound root) ∧
      ∀ config : Config, config.walker = .ok w → config.check.roots = roots →
        ∀ verbose colour out err,
          Command.execute tree config verbose colour out err = ⟨.error (.walk e), out, err⟩) ∧
    ((∀ root ∈ roots, tree.isDir root = true) →
      ∃ report, (w.tellRoots tree roots).result = .ok report ∧
        (∀ rs ss, roots = rs ++ ss →
          ∃ r s, (w.tellRoots tree rs).result = .ok r ∧ (w.tellRoots tree ss).result = .ok s ∧
            w.tellRoots tree roots =
              ⟨(w.tellRoots tree rs).events ++ (w.tellRoots tree ss).events, .ok (r.merge s)⟩) ∧
        (∀ root ∈ roots, ∃ own, w.walk tree root = .ok own ∧
          w.tellRoots tree [root] =
            ⟨.rootStarted root :: own.defects.map Event.defect, .ok own⟩) ∧
        (w.tellRoots tree roots).events.filterMap Event.defect? = report.defects ∧
        (∀ roots', roots.Perm roots' →
          ∃ report', (w.tellRoots tree roots').result = .ok report' ∧ report.Reordered report' ∧
            report.defectCount = report'.defectCount ∧ report.passed = report'.passed) ∧
        (tree.WellFormed → ∀ d,
          report.defects.countP d.equiv = roots.countP (w.finds tree d.equiv) ∧
          report.defects.count d = roots.countP (w.finds tree (· == d)))) := by
  refine ⟨w.tellRoots_fails_iff tree roots, ?_, ?_⟩
  · intro e he
    obtain ⟨htell, hfirst⟩ := tellRoots_eq_error he
    refine ⟨by rw [htell], hfirst, ?_⟩
    rintro config hw rfl
    exact execute_of_tellRoots_failed hw he
  · intro h
    have htell := w.tellRoots_of_isDir h
    refine ⟨w.total tree roots, by rw [htell], ?_, ?_, ?_, ?_, ?_⟩
    · rintro rs ss rfl
      exact w.tellRoots_append h
    · intro root hroot
      exact w.tellRoots_singleton (h root hroot)
    · rw [htell]
      exact w.told_defects tree roots
    · intro roots' hperm
      have h' : ∀ root ∈ roots', tree.isDir root = true := by
        intro root hroot
        exact h root (hperm.mem_iff.mpr hroot)
      have hreordered := w.total_reordered tree hperm
      exact ⟨w.total tree roots', by rw [w.tellRoots_of_isDir h'], hreordered,
        hreordered.defectCount_eq, hreordered.passed_eq⟩
    · intro htree d
      refine ⟨countP_total htree h fun a b => Defect.compare_ne_lt_of_equiv, ?_⟩
      rw [List.count_eq_countP]
      refine countP_total htree h fun a b ha hb => ?_
      obtain rfl := eq_of_beq ha
      obtain rfl := eq_of_beq hb
      simp [Defect.compare_self]

end Walker

/-- A file in a directory below the working directory, so that both lead to it. -/
def FileTree.ofOneFile : FileTree where
  root := .dir .full
    [([114], .dir .full [([97], .dir .full [([102, 46, 98], .file .full [102, 110])])])]
  cwd := [[114]]

/-- A root that is given twice, and one below it: each is walked, and the file is reported three
    times. -/
theorem Walker.tellRoots_laws_overlapping :
    FileTree.ofOneFile.WellFormed ∧
    (∀ root ∈ [⟨Path.dot⟩, ⟨[97]⟩, ⟨Path.dot⟩], FileTree.ofOneFile.isDir root = true) ∧
    ∃ report : Report,
      ((⟨⟨["b"], ["fn"], [], "///"⟩, [], false⟩ : Walker).tellRoots FileTree.ofOneFile
        [⟨Path.dot⟩, ⟨[97]⟩, ⟨Path.dot⟩]).result = .ok report ∧
      report.defects.count ⟨⟨[47, 114, 47, 97, 47, 102, 46, 98]⟩, 1⟩ = 3 := by
  have hroots : ∀ root ∈ [⟨Path.dot⟩, ⟨[97]⟩, ⟨Path.dot⟩],
      FileTree.ofOneFile.isDir root = true := by
    decide
  obtain ⟨report, hresult, _, _, _, _, hcount⟩ :=
    (tellRoots_laws ⟨⟨["b"], ["fn"], [], "///"⟩, [], false⟩ FileTree.ofOneFile _).2.2 hroots
  refine ⟨by decide, hroots, report, hresult, ?_⟩
  rw [(hcount (by decide) _).2]
  cbv

end DocLint
