-- SUMMARY: What a walk of several roots tells: nothing if a root is missing, else every root with its defects.
import DocLint.Walk.Roots

/-! # Telling roots

The roots are gone through twice. First all of them are resolved, then each is walked. A walk
fails only where resolving the root fails, so in the second round nothing can fail any more,
and in the first one nothing is told.
-/

namespace DocLint

/-- The defect that an event tells. -/
def Event.defect? : Event → Option Defect
  | .defect d => some d
  | .rootStarted _ => none

variable {tree : FileTree} {root : Path} {roots : List Path}

/-! ## One root -/

theorem FileTree.resolveRoot_of_isDir (h : tree.isDir root = true) :
    tree.resolveRoot root = .ok (root.absolute tree.cwdPath) :=
  if_pos h

theorem FileTree.resolveRoot_of_missing (h : tree.isDir root = false) :
    tree.resolveRoot root = .error (.rootNotFound root) := by
  simp [resolveRoot, h]

/-- A root that resolves is a directory, and resolves to its absolute form. -/
theorem FileTree.resolveRoot_eq_ok {top : Path} (h : tree.resolveRoot root = .ok top) :
    tree.isDir root = true ∧ top = root.absolute tree.cwdPath := by
  cases hdir : tree.isDir root with
  | true =>
    rw [resolveRoot_of_isDir hdir] at h
    cases h
    exact ⟨rfl, rfl⟩
  | false =>
    rw [resolveRoot_of_missing hdir] at h
    cases h

namespace Walker

/-- The report on a root as it was given. -/
def reportOn (w : Walker) (tree : FileTree) (root : Path) : Report :=
  w.report tree (root.absolute tree.cwdPath)

/-- A walk of a directory has a report, whatever it meets. -/
theorem walk_of_isDir (w : Walker) (h : tree.isDir root = true) :
    w.walk tree root = .ok (w.reportOn tree root) := by
  rw [walk, FileTree.resolveRoot_of_isDir h]
  rfl

/-! ## The first round -/

theorem mapM_resolveRoot_of_isDir (h : ∀ root ∈ roots, tree.isDir root = true) :
    roots.mapM tree.resolveRoot = .ok (roots.map (·.absolute tree.cwdPath)) := by
  induction roots with
  | nil => rfl
  | cons root rest ih =>
    obtain ⟨hroot, hrest⟩ := List.forall_mem_cons.mp h
    rw [List.mapM_cons, FileTree.resolveRoot_of_isDir hroot, ih hrest]
    rfl

/-- The first root that is not there is the one that is named. -/
theorem mapM_resolveRoot_of_missing {before : List Path}
    (hbefore : ∀ root ∈ before, tree.isDir root = true) (hroot : tree.isDir root = false)
    (after : List Path) :
    (before ++ root :: after).mapM tree.resolveRoot = .error (.rootNotFound root) := by
  induction before with
  | nil =>
    rw [List.nil_append, List.mapM_cons, FileTree.resolveRoot_of_missing hroot]
    rfl
  | cons first before ih =>
    obtain ⟨hfirst, hbefore⟩ := List.forall_mem_cons.mp hbefore
    rw [List.cons_append, List.mapM_cons, FileTree.resolveRoot_of_isDir hfirst, ih hbefore]
    rfl

/-! ## The second round -/

/-- What is told of a root: the root, and then its defects. -/
def toldOf (w : Walker) (tree : FileTree) (root : Path) : List Event :=
  .rootStarted root :: (w.reportOn tree root).defects.map Event.defect

/-- The reports on roots, added up. -/
def total (w : Walker) (tree : FileTree) (roots : List Path) : Report :=
  roots.foldl (fun total root => total.merge (w.reportOn tree root)) .empty

/-- By induction over the roots: the second round tells of one after another and adds up their
    reports. -/
theorem tellEach_of_isDir (w : Walker) (h : ∀ root ∈ roots, tree.isDir root = true)
    (start : Report) :
    w.tellEach tree start roots =
      ⟨roots.flatMap (w.toldOf tree),
        .ok (roots.foldl (fun total root => total.merge (w.reportOn tree root)) start)⟩ := by
  induction roots generalizing start with
  | nil => rfl
  | cons root rest ih =>
    obtain ⟨hroot, hrest⟩ := List.forall_mem_cons.mp h
    rw [tellEach, w.walk_of_isDir hroot]
    simp only [ih hrest, List.flatMap_cons, List.foldl_cons, toldOf, List.cons_append]

/-! ## Adding up -/

theorem foldl_merge (report : Path → Report) (roots : List Path) (start : Report) :
    roots.foldl (fun total root => total.merge (report root)) start =
      start.merge (roots.foldl (fun total root => total.merge (report root)) .empty) := by
  induction roots generalizing start with
  | nil => simp
  | cons root rest ih =>
    rw [List.foldl_cons, ih, List.foldl_cons, Report.empty_merge, ih (report root),
      Report.merge_assoc]

@[simp] theorem total_nil (w : Walker) (tree : FileTree) : w.total tree [] = .empty := rfl

@[simp] theorem total_cons (w : Walker) (tree : FileTree) (root : Path) (rest : List Path) :
    w.total tree (root :: rest) = (w.reportOn tree root).merge (w.total tree rest) := by
  rw [total, List.foldl_cons, Report.empty_merge, foldl_merge]
  rfl

theorem total_append (w : Walker) (tree : FileTree) (rs ss : List Path) :
    w.total tree (rs ++ ss) = (w.total tree rs).merge (w.total tree ss) := by
  induction rs with
  | nil => simp
  | cons root rs ih => simp [ih, Report.merge_assoc]

/-- The defects of the total are those of the roots, in a row. -/
theorem total_defects (w : Walker) (tree : FileTree) (roots : List Path) :
    (w.total tree roots).defects = roots.flatMap fun root => (w.reportOn tree root).defects := by
  induction roots with
  | nil => rfl
  | cons root rest ih => simp [Report.merge, ih]

theorem toldOf_defects (w : Walker) (tree : FileTree) (root : Path) :
    (w.toldOf tree root).filterMap Event.defect? = (w.reportOn tree root).defects := by
  have hsome : Event.defect? ∘ Event.defect = some := rfl
  rw [toldOf, List.filterMap_cons_none rfl, List.filterMap_map, hsome, List.filterMap_some]

/-- The defects that are told are those of the report, in the same order. -/
theorem told_defects (w : Walker) (tree : FileTree) (roots : List Path) :
    (roots.flatMap (w.toldOf tree)).filterMap Event.defect? = (w.total tree roots).defects := by
  simp only [List.filterMap_flatMap, toldOf_defects, total_defects]

/-! ## Both rounds -/

theorem tellRoots_of_isDir (w : Walker) (h : ∀ root ∈ roots, tree.isDir root = true) :
    w.tellRoots tree roots = ⟨roots.flatMap (w.toldOf tree), .ok (w.total tree roots)⟩ := by
  rw [tellRoots, mapM_resolveRoot_of_isDir h]
  exact w.tellEach_of_isDir h .empty

/-- The root is the first of the roots that is missing. -/
def FirstMissing (tree : FileTree) (roots : List Path) (root : Path) : Prop :=
  ∃ before after, roots = before ++ root :: after ∧
    (∀ earlier ∈ before, tree.isDir earlier = true) ∧ tree.isDir root = false

theorem exists_firstMissing_iff :
    (∃ root, FirstMissing tree roots root) ↔ ∃ root ∈ roots, tree.isDir root = false := by
  constructor
  · rintro ⟨root, before, after, rfl, _, hroot⟩
    exact ⟨root, by simp, hroot⟩
  · intro h
    induction roots with
    | nil =>
      obtain ⟨root, hroot, _⟩ := h
      cases hroot
    | cons first rest ih =>
      cases hfirst : tree.isDir first with
      | false => exact ⟨first, [], rest, rfl, by simp, hfirst⟩
      | true =>
        obtain ⟨root, before, after, rfl, hbefore, hroot⟩ := ih (by simpa [hfirst] using h)
        exact ⟨root, first :: before, after, rfl,
          List.forall_mem_cons.mpr ⟨hfirst, hbefore⟩, hroot⟩

/-- If a root is missing, none is told. -/
theorem tellRoots_of_firstMissing (w : Walker) (h : FirstMissing tree roots root) :
    w.tellRoots tree roots = ⟨[], .error (.rootNotFound root)⟩ := by
  obtain ⟨before, after, rfl, hbefore, hroot⟩ := h
  rw [tellRoots, mapM_resolveRoot_of_missing hbefore hroot]

/-- All that a walk of several roots can come to. -/
theorem tellRoots_cases (w : Walker) (tree : FileTree) (roots : List Path) :
    (∃ root, FirstMissing tree roots root ∧
      w.tellRoots tree roots = ⟨[], .error (.rootNotFound root)⟩) ∨
    ((∀ root ∈ roots, tree.isDir root = true) ∧
      w.tellRoots tree roots = ⟨roots.flatMap (w.toldOf tree), .ok (w.total tree roots)⟩) := by
  by_cases h : ∃ root ∈ roots, tree.isDir root = false
  · obtain ⟨root, hroot⟩ := exists_firstMissing_iff.mpr h
    exact .inl ⟨root, hroot, w.tellRoots_of_firstMissing hroot⟩
  · have hall : ∀ root ∈ roots, tree.isDir root = true := by simpa using h
    exact .inr ⟨hall, w.tellRoots_of_isDir hall⟩

/-- The only way to fail is a missing root. -/
theorem tellRoots_eq_error {w : Walker} {e : WalkError}
    (h : (w.tellRoots tree roots).result = .error e) :
    w.tellRoots tree roots = ⟨[], .error e⟩ ∧
      ∃ root, FirstMissing tree roots root ∧ e = .rootNotFound root := by
  rcases w.tellRoots_cases tree roots with ⟨root, hroot, htell⟩ | ⟨_, htell⟩
  · rw [htell] at h
    cases h
    exact ⟨htell, root, hroot, rfl⟩
  · rw [htell] at h
    cases h

theorem walkRoots_eq_ok_iff {w : Walker} {events : List Event} {report : Report} :
    w.walkRoots tree roots = .ok (events, report) ↔
      w.tellRoots tree roots = ⟨events, .ok report⟩ := by
  rw [walkRoots]
  rcases w.tellRoots_cases tree roots with ⟨_, _, htell⟩ | ⟨_, htell⟩ <;>
    simp [htell, Except.map]

/-- Where there is no report, nothing has been told. -/
theorem walkRoots_eq_error_iff {w : Walker} {e : WalkError} :
    w.walkRoots tree roots = .error e ↔ w.tellRoots tree roots = ⟨[], .error e⟩ := by
  rw [walkRoots]
  rcases w.tellRoots_cases tree roots with ⟨_, _, htell⟩ | ⟨_, htell⟩ <;>
    simp [htell, Except.map]

end Walker

end DocLint
