-- SUMMARY: The absolute form of a root: spelled in one way only, and the same directory if it can be followed.
import DocLint.Proofs.Skipping

/-! # Resolved roots

The absolute form of a root is made from its text alone. It starts with one slash, or with two if
the root starts with exactly two, and then come segments with one slash between them. None of them
is empty or a dot, so making it absolute again changes nothing. It leads to the directory that the
root leads to, since what is left out leads nowhere else. But it may be longer than the root, and
a path that is too long leads nowhere at all. It may also come by directories that a relative root
leaves alone, those above the working directory, and there it may not be let through.
-/

namespace DocLint

namespace Path

/-! ## One slash at a time -/

theorem prefix_join (p : Path) (segment : Name) : p.bytes <+: (p.join segment).bytes := by
  unfold join
  split <;> exact List.prefix_append _ _

theorem prefix_under (p : Path) (names : List Name) : p.bytes <+: (p.under names).bytes := by
  induction names generalizing p with
  | nil => exact List.prefix_rfl
  | cons name names ih => exact (p.prefix_join name).trans (ih (p.join name))

/-- No slash comes after another one, unless they are what the path starts with. -/
def SingleSlashes (p : Path) : Prop :=
  p.bytes.tail.IsChain fun a b => a ≠ slash ∨ b ≠ slash

/-- Two slashes in a row stand at the start or not at all. -/
theorem SingleSlashes.eq_nil {p : Path} (h : p.SingleSlashes) {before after : Bytes}
    (heq : p.bytes = before ++ slash :: slash :: after) : before = [] := by
  cases before with
  | nil => rfl
  | cons b before =>
    rw [SingleSlashes, heq, List.cons_append, List.tail_cons] at h
    have hpair := (List.isChain_append.mp h).2.1
    simp at hpair

theorem isChain_of_slash_notMem {segment : Name} (h : slash ∉ segment) :
    segment.IsChain fun a b => a ≠ slash ∨ b ≠ slash := by
  refine (List.pairwise_of_forall_mem_list ?_).isChain
  intro a ha b _
  exact .inl fun heq => h (heq ▸ ha)

theorem singleSlashes_join {p : Path} (hp : p.bytes ≠ []) (h : p.SingleSlashes) {segment : Name}
    (hsegment : slash ∉ segment) : (p.join segment).SingleSlashes := by
  have hhead : ∀ b ∈ segment.head?, b ≠ slash := by
    intro b hb heq
    exact hsegment (heq ▸ List.mem_of_mem_head? hb)
  have hchain := isChain_of_slash_notMem hsegment
  unfold SingleSlashes join at *
  split
  · rw [List.tail_append_of_ne_nil hp]
    exact List.isChain_append.mpr ⟨h, hchain, fun _ _ b hb => .inr (hhead b hb)⟩
  · rename_i hend
    rw [List.tail_append_of_ne_nil hp]
    have hrest : (slash :: segment).IsChain fun a b => a ≠ slash ∨ b ≠ slash :=
      List.isChain_cons.mpr ⟨fun b hb => .inr (hhead b hb), hchain⟩
    refine List.isChain_append.mpr ⟨h, hrest, ?_⟩
    -- The slash that is put in comes after a byte that is not a slash.
    rintro a ha b _
    left
    rintro rfl
    have hlast : p.bytes.getLast? = some slash := by
      cases hbytes : p.bytes with
      | nil => exact absurd hbytes hp
      | cons first rest =>
        rw [hbytes] at ha
        exact List.mem_getLast?_cons ha
    simp [endsInSlash, hlast] at hend

/-- Names without slashes do not bring two slashes together. -/
theorem singleSlashes_under {p : Path} (hp : p.bytes ≠ []) (h : p.SingleSlashes)
    {names : List Name} (hnames : ∀ name ∈ names, slash ∉ name) :
    (p.under names).SingleSlashes := by
  induction names generalizing p with
  | nil => exact h
  | cons name names ih =>
    obtain ⟨hname, hnames⟩ := List.forall_mem_cons.mp hnames
    exact ih ((p.prefix_join name).ne_nil hp) (singleSlashes_join hp h hname) hnames

/-! ## The absolute form once more -/

/-- Where an absolute path starts: at one slash, or at exactly two. -/
inductive IsStart : Path → Prop where
  | one : IsStart rootPath
  | two : IsStart ⟨[slash, slash]⟩

/-- The segment is one that the absolute form of a path keeps. -/
structure IsKept (segment : Name) : Prop where
  ne_nil : segment ≠ []
  slash_notMem : slash ∉ segment
  ne_dot : segment ≠ dot

/-- The path is written as absolute forms are: some segments below where it starts, and maybe a
    slash after them. -/
inductive Straight : Path → Prop where
  | ofSegments {start : Path} {segments : List Name} (hstart : IsStart start)
      (hsegments : ∀ segment ∈ segments, IsKept segment) : Straight (start.under segments)
  | withSlash {start : Path} {segments : List Name} (hstart : IsStart start)
      (hsegments : ∀ segment ∈ segments, IsKept segment) :
      Straight ((start.under segments).join [])

theorem isKept_of_mem_segments {p : Path} {segment : Name}
    (h : segment ∈ p.segments.filter (· ≠ dot)) : IsKept segment := by
  obtain ⟨hne, hpiece⟩ := mem_splitOn_of_mem_segments h
  exact ⟨hne, Text.sep_notMem_of_mem_splitOn hpiece, by simpa using (List.mem_filter.mp h).2⟩

theorem filter_ne_dot_of_kept {segments : List Name}
    (h : ∀ segment ∈ segments, IsKept segment) : segments.filter (· ≠ dot) = segments := by
  rw [List.filter_eq_self]
  intro segment hmem
  simpa using (h segment hmem).ne_dot

theorem isStart_leadingSlashes (p : Path) : IsStart p.leadingSlashes := by
  rcases p.leadingSlashes_cases with h | h <;> rw [h]
  · exact .one
  · exact .two

/-- Every absolute form is straight. -/
theorem straight_absolute {names : List Name} (hnames : ∀ name ∈ names, IsName name) (p : Path) :
    (p.absolute (rootPath.under names)).Straight := by
  have hsegments : ∀ segment ∈ p.segments.filter (· ≠ dot), IsKept segment :=
    fun _ h => isKept_of_mem_segments h
  obtain ⟨start, segments, hstart, hkept, heq⟩ : ∃ start segments, IsStart start ∧
      (∀ segment ∈ segments, IsKept segment) ∧
      (if p.isAbsolute then p.leadingSlashes else rootPath.under names).under
        (p.segments.filter (· ≠ dot)) = start.under segments := by
    cases p.isAbsolute with
    | true => exact ⟨_, _, p.isStart_leadingSlashes, hsegments, rfl⟩
    | false =>
      refine ⟨rootPath, names ++ p.segments.filter (· ≠ dot), .one, ?_, ?_⟩
      · intro segment h
        rcases List.mem_append.mp h with h | h
        · have hname := hnames segment h
          exact ⟨hname.ne_nil, hname.slash_notMem, hname.ne_dot⟩
        · exact hsegments segment h
      · simp [under]
  rcases p.absolute_cases (rootPath.under names) with habs | habs
  · rw [habs, heq]
    exact .ofSegments hstart hkept
  · rw [habs, heq]
    exact .withSlash hstart hkept

namespace IsStart

variable {start : Path}

theorem isAbsolute (h : IsStart start) : start.isAbsolute = true := by
  cases h <;> rfl

theorem segments (h : IsStart start) : start.segments = [] := by
  cases h <;> rfl

theorem bytes_ne_nil (h : IsStart start) : start.bytes ≠ [] := by
  cases h <;> exact List.cons_ne_nil _ _

theorem singleSlashes (h : IsStart start) : start.SingleSlashes := by
  cases h
  · exact .nil
  · exact .singleton _

theorem join_nil (h : IsStart start) : start.join [] = start := by
  cases h <;> rfl

variable {segments : List Name} (hsegments : ∀ segment ∈ segments, IsKept segment)

include hsegments

theorem segments_under_kept (h : IsStart start) : (start.under segments).segments = segments := by
  rw [segments_under start fun segment hmem =>
    ⟨(hsegments segment hmem).ne_nil, (hsegments segment hmem).slash_notMem⟩, h.segments]
  rfl

theorem singleSlashes_under_kept (h : IsStart start) : (start.under segments).SingleSlashes :=
  singleSlashes_under h.bytes_ne_nil h.singleSlashes
    fun segment hmem => (hsegments segment hmem).slash_notMem

/-- Kept segments below a start leave it as it is, whatever comes after them. -/
theorem leadingSlashes_eq (h : IsStart start) {p : Path}
    (hfront : (start.under segments).bytes <+: p.bytes) (hnil : segments = [] → p = start) :
    p.leadingSlashes = start := by
  cases segments with
  | nil =>
    rw [hnil rfl]
    cases h <;> rfl
  | cons segment segments =>
    have hkept := hsegments segment List.mem_cons_self
    have hfirst := (prefix_under (start.join segment) segments).trans hfront
    cases segment with
    | nil => exact absurd rfl hkept.ne_nil
    | cons b segment =>
      have hb : b ≠ slash := fun heq => hkept.slash_notMem (heq ▸ List.mem_cons_self)
      obtain ⟨rest, hrest⟩ := hfirst
      cases h with
      | one => simp [leadingSlashes, ← hrest, join, rootPath, endsInSlash, hb]
      | two => simp [leadingSlashes, ← hrest, join, endsInSlash, hb]

end IsStart

theorem join_nil_of_endsInSlash {p : Path} (h : p.endsInSlash = true) : p.join [] = p := by
  simp [join, h]

namespace Straight

variable {p : Path}

theorem singleSlashes (h : p.Straight) : p.SingleSlashes := by
  cases h with
  | ofSegments hstart hsegments => exact hstart.singleSlashes_under_kept hsegments
  | withSlash hstart hsegments =>
    exact singleSlashes_join ((prefix_under _ _).ne_nil hstart.bytes_ne_nil)
      (hstart.singleSlashes_under_kept hsegments) List.not_mem_nil

theorem dot_notMem_segments (h : p.Straight) : dot ∉ p.segments := by
  cases h with
  | ofSegments hstart hsegments =>
    rw [hstart.segments_under_kept hsegments]
    exact fun hdot => (hsegments dot hdot).ne_dot rfl
  | withSlash hstart hsegments =>
    rw [segments_join_nil, hstart.segments_under_kept hsegments]
    exact fun hdot => (hsegments dot hdot).ne_dot rfl

/-- A path that is written like an absolute form is its own absolute form. -/
theorem absolute_eq (h : p.Straight) (cwd : Path) : p.absolute cwd = p := by
  cases h with
  | @ofSegments start segments hstart hsegments =>
    rw [absolute_eq_under, isAbsolute_under hstart.isAbsolute, if_pos rfl,
      hstart.segments_under_kept hsegments, filter_ne_dot_of_kept hsegments,
      hstart.leadingSlashes_eq hsegments List.prefix_rfl (by rintro rfl; rfl)]
    cases hend : (start.under segments).endsInSlash with
    | true => exact join_nil_of_endsInSlash hend
    | false => rfl
  | @withSlash start segments hstart hsegments =>
    have hwhole := isAbsolute_under hstart.isAbsolute segments
    rw [absolute_eq_under, isAbsolute_join hwhole, if_pos rfl, segments_join_nil,
      hstart.segments_under_kept hsegments, filter_ne_dot_of_kept hsegments,
      hstart.leadingSlashes_eq hsegments (prefix_join _ _)
        (by rintro rfl; exact hstart.join_nil),
      endsInSlash_join_nil ((prefix_under _ _).ne_nil hstart.bytes_ne_nil)]
    rfl

end Straight

/-! ## Other spellings -/

/-- The paths differ only in slashes that are repeated, other than at the start, and in dots that
    are a whole segment. -/
structure SpelledAlike (p q : Path) : Prop where
  leading : p.bytes.takeWhile (· = slash) = q.bytes.takeWhile (· = slash)
  segments : p.segments.filter (· ≠ dot) = q.segments.filter (· ≠ dot)
  endsInSlash : p.endsInSlash = q.endsInSlash

instance (p q : Path) : Decidable (p.SpelledAlike q) :=
  decidable_of_iff
    (p.bytes.takeWhile (· = slash) = q.bytes.takeWhile (· = slash) ∧
      p.segments.filter (· ≠ dot) = q.segments.filter (· ≠ dot) ∧
      p.endsInSlash = q.endsInSlash)
    ⟨fun ⟨h₁, h₂, h₃⟩ => ⟨h₁, h₂, h₃⟩, fun ⟨h₁, h₂, h₃⟩ => ⟨h₁, h₂, h₃⟩⟩

theorem isAbsolute_eq_takeWhile (p : Path) :
    p.isAbsolute = !(p.bytes.takeWhile (· = slash)).isEmpty := by
  rw [isAbsolute]
  cases p.bytes with
  | nil => rfl
  | cons a rest => by_cases ha : a = slash <;> simp [ha]

theorem leadingSlashes_eq_takeWhile (p : Path) :
    p.leadingSlashes =
      if p.bytes.takeWhile (· = slash) = [slash, slash] then ⟨[slash, slash]⟩ else rootPath := by
  rw [leadingSlashes]
  rcases p.bytes with _ | ⟨a, _ | ⟨b, _ | ⟨c, rest⟩⟩⟩
  · rfl
  · by_cases ha : a = slash <;> simp [ha]
  · by_cases ha : a = slash <;> by_cases hb : b = slash <;> simp [ha, hb]
  · by_cases ha : a = slash <;> by_cases hb : b = slash <;> by_cases hc : c = slash <;>
      simp [ha, hb, hc]

/-- Paths that are spelled alike have the same absolute form. -/
theorem SpelledAlike.absolute_eq {p q : Path} (h : p.SpelledAlike q) (cwd : Path) :
    p.absolute cwd = q.absolute cwd := by
  simp only [absolute_eq_under, isAbsolute_eq_takeWhile, leadingSlashes_eq_takeWhile, h.leading,
    h.segments, h.endsInSlash]

end Path

/-! ## Resolving twice -/

namespace FileTree

variable {tree : FileTree} {root top : Path} (htree : tree.WellFormed)
  (h : tree.resolveRoot root = .ok top)

include htree h

/-- What a root resolves to is straight. -/
theorem straight_of_resolveRoot : top.Straight := by
  obtain ⟨_, rfl⟩ := resolveRoot_eq_ok h
  exact Path.straight_absolute htree.cwd root

/-- A resolved root leads to where the root leads, unless it is too long or not let through. -/
theorem exists_resolve_of_resolveRoot :
    ∃ p : Position, tree.resolve root true = .ok (.found p) ∧ p.here.isDir = true ∧
      tree.resolve top true =
        if isTooLong top then .error .nameTooLong
        else if tree.reaches root then .ok (.found p) else .error .denied := by
  obtain ⟨hroot, rfl⟩ := resolveRoot_eq_ok h
  obtain ⟨node, hnode, hdir⟩ := isDir_iff.mp hroot
  obtain ⟨p, hresolve, rfl⟩ := node_eq_ok_iff.mp hnode
  exact ⟨p, hresolve, hdir, resolve_absolute htree hresolve hdir⟩

/-- A resolved root resolves to itself, unless it is too long or cannot be reached. -/
theorem resolveRoot_resolved :
    tree.resolveRoot top =
      if isTooLong top = false ∧ tree.reaches root = true then .ok top
      else .error (.rootNotFound top) := by
  obtain ⟨p, _, hdir, htop⟩ := exists_resolve_of_resolveRoot htree h
  split
  · rename_i hfollowed
    rw [hfollowed.1, hfollowed.2, if_neg Bool.false_ne_true, if_pos rfl] at htop
    have hnode : tree.node top true = .ok p.here := node_eq_ok_iff.mpr ⟨p, htop, rfl⟩
    rw [resolveRoot_of_isDir (isDir_iff.mpr ⟨_, hnode, hdir⟩),
      (straight_of_resolveRoot htree h).absolute_eq]
  · rename_i hlost
    have hfault : ∃ fault, tree.resolve top true = .error fault := by
      cases hlong : isTooLong top with
      | true => exact ⟨_, by simpa [hlong] using htop⟩
      | false =>
        have hreaches : tree.reaches root = false := Bool.eq_false_iff.mpr (hlost ⟨hlong, ·⟩)
        exact ⟨.denied, by simpa [hlong, hreaches] using htop⟩
    obtain ⟨fault, hfault⟩ := hfault
    exact resolveRoot_of_missing (by rw [isDir, node, hfault])

end FileTree

/-! ## The paths of a report -/

namespace Walker

section

variable {w : Walker} {tree : FileTree} {root : Path} {node : Node} (htree : tree.WellFormed)
  (hnode : tree.seenAt root = .ok node) (hdir : node.isDir = true)

include htree hnode hdir

/-- The file of a defect is below the resolved root. -/
theorem file_eq_under {d : Defect} (hd : d ∈ (w.reportOn tree root).defects) :
    ∃ trail, (∀ name ∈ trail, Path.IsName name) ∧
      d.file = (root.absolute tree.cwdPath).under trail := by
  have hscanned := file_mem_scanned hd
  rw [scanned_eq_below htree hnode hdir] at hscanned
  obtain ⟨f, hf, hfile⟩ := List.mem_filterMap.mp hscanned
  obtain ⟨e, he, hfinding⟩ := List.mem_filterMap.mp hf
  exact ⟨e.trail, isName_of_mem_entries htree hnode hdir he,
    Finding.listed?_finding? hfinding _ (Finding.scanned?_eq_some hfile).2⟩

/-- A path that is skipped stands below the root too, or is the root itself. -/
theorem path_eq_under {s : Skipped} (hs : s ∈ (w.reportOn tree root).skipped) :
    ∃ trail, (∀ name ∈ trail, Path.IsName name) ∧
      s.path = (root.absolute tree.cwdPath).under trail := by
  rw [skipped_eq_below htree hnode hdir] at hs
  rcases List.mem_append.mp hs with hs | hs
  · split at hs
    · rw [List.mem_singleton.mp hs]
      exact ⟨[], by simp, rfl⟩
    · cases hs
  · obtain ⟨f, hf, htrace⟩ := Report.mem_skipped_iff.mp hs
    obtain ⟨e, he, hfinding⟩ := List.mem_filterMap.mp hf
    exact ⟨e.trail, isName_of_mem_entries htree hnode hdir he,
      Finding.listed?_finding? hfinding _ (Finding.listed?_of_skipped?_trace w.rules f s htrace)⟩

end

end Walker

/-- A resolved root is an absolute path that has no dot in it and no slash after another one, two
    at the start apart. If it can be followed, it leads to the directory that the root leads to,
    and it is its own resolved root; if it is too long for that, or the directories above the
    working directory are not to be searched, it is refused as a root. Other
    spellings of the root are resolved to the same path and give the same report, and all paths of
    the report are absolute and within the resolved root. -/
theorem FileTree.resolveRoot_canonical {tree : FileTree} (htree : tree.WellFormed)
    {root top : Path} (h : tree.resolveRoot root = .ok top) :
    (top.isAbsolute = true ∧ Path.dot ∉ top.segments ∧
      ∀ before after, top.bytes = before ++ Path.slash :: Path.slash :: after → before = []) ∧
    (∃ p : Position, tree.resolve root true = .ok (.found p) ∧ p.here.isDir = true ∧
      (isTooLong top = false → tree.reaches root = true →
        tree.resolve top true = .ok (.found p))) ∧
    (isTooLong top = false → tree.reaches root = true → tree.resolveRoot top = .ok top) ∧
    (isTooLong top = true ∨ tree.reaches root = false →
      tree.resolveRoot top = .error (.rootNotFound top)) ∧
    (∀ other found, root.SpelledAlike other → tree.resolveRoot other = .ok found →
      found = top ∧ ∀ w : Walker, w.walk tree other = w.walk tree root) ∧
    ∀ w : Walker, ∃ report, w.walk tree root = .ok report ∧
      (∀ d ∈ report.defects, d.file.isAbsolute = true ∧ top.components <+: d.file.components) ∧
      ∀ s ∈ report.skipped, s.path.isAbsolute = true ∧ top.components <+: s.path.components := by
  have hstraight := straight_of_resolveRoot htree h
  have hresolved := resolveRoot_resolved htree h
  obtain ⟨p, hp, hpdir, htop⟩ := exists_resolve_of_resolveRoot htree h
  obtain ⟨hroot, rfl⟩ := resolveRoot_eq_ok h
  obtain ⟨node, hnode, hdir⟩ := isDir_iff_seenAt.mp hroot
  have habs := Path.isAbsolute_absolute tree.cwdPath_isAbsolute root
  have hwithin {path : Path} (hpath : ∃ trail, (∀ name ∈ trail, Path.IsName name) ∧
      path = (root.absolute tree.cwdPath).under trail) :
      path.isAbsolute = true ∧ (root.absolute tree.cwdPath).components <+: path.components := by
    obtain ⟨trail, htrail, rfl⟩ := hpath
    exact ⟨Path.isAbsolute_under habs trail,
      Path.components_under habs htrail ▸ List.prefix_append _ _⟩
  refine ⟨⟨habs, hstraight.dot_notMem_segments, fun _ _ heq => hstraight.singleSlashes.eq_nil heq⟩,
    ⟨p, hp, hpdir, ?_⟩, ?_, ?_, ?_, ?_⟩
  · intro hlong hreaches
    simpa [hlong, hreaches] using htop
  · intro hlong hreaches
    simpa [hlong, hreaches] using hresolved
  · intro hlost
    rcases hlost with hlost | hlost <;> simpa [hlost] using hresolved
  · intro other found halike hother
    obtain ⟨hotherDir, rfl⟩ := resolveRoot_eq_ok hother
    refine ⟨(halike.absolute_eq _).symm, fun w => ?_⟩
    rw [w.walk_of_isDir hotherDir, w.walk_of_isDir hroot, Walker.reportOn, Walker.reportOn,
      halike.absolute_eq]
  · intro w
    exact ⟨_, w.walk_of_isDir hroot,
      fun d hd => hwithin (Walker.file_eq_under htree hnode hdir hd),
      fun s hs => hwithin (Walker.path_eq_under htree hnode hdir hs)⟩

/-- The root is a link to a directory, between a dot and another one and with a slash too many. -/
theorem FileTree.resolveRoot_canonical_ofLinkedRoot :
    let root : Path := ⟨[46, 47, 108, 47, 47, 46]⟩
    let top : Path := ⟨[47, 108]⟩
    ofLinkedRoot.WellFormed ∧ ofLinkedRoot.resolveRoot root = .ok top ∧ isTooLong top = false ∧
    ofLinkedRoot.reaches root = true ∧ ofLinkedRoot.resolveRoot top = .ok top ∧
    (∃ p, ofLinkedRoot.resolve root true = .ok (.found p) ∧
      ofLinkedRoot.resolve top true = .ok (.found p)) ∧
    root.SpelledAlike ⟨[108]⟩ ∧ ofLinkedRoot.resolveRoot ⟨[108]⟩ = .ok top ∧
    ∀ w : Walker, w.walk ofLinkedRoot ⟨[108]⟩ = w.walk ofLinkedRoot root := by
  intro root top
  have htree : ofLinkedRoot.WellFormed := by decide
  have hroot : ofLinkedRoot.resolveRoot root = .ok top := rfl
  have halike : root.SpelledAlike ⟨[108]⟩ := by decide
  obtain ⟨_, ⟨p, hp, _, hsame⟩, hagain, _, hother, _⟩ := resolveRoot_canonical htree hroot
  exact ⟨htree, hroot, rfl, rfl, hagain rfl rfl, ⟨p, hp, hsame rfl rfl⟩, halike, rfl,
    (hother _ _ halike rfl).2⟩

/-- A working directory with one directory in it, whose name is long. -/
def FileTree.ofLongName : FileTree where
  root := .dir .full [([87], .dir .full [(List.replicate 101 100, .dir .full [])])]
  cwd := [[87]]

/-- A working directory with one directory in it, below a directory that may not be searched. -/
def FileTree.ofShutParent : FileTree where
  root := .dir .full
    [([117], .dir ⟨true, true, false⟩ [([87], .dir .full [([114], .dir .full [])])])]
  cwd := [[117], [87]]

/-- The first root goes into a directory and back again, over and over. It is as long as a path can
    be, so its absolute form is too long. The absolute form of the second one comes by the directory
    above the working directory. -/
theorem FileTree.resolveRoot_refuses_resolved :
    let back : Bytes := List.replicate 101 100 ++ [47, 46, 46, 47]
    let root : Path := ⟨(List.replicate 39 back).flatten⟩
    (ofLongName.WellFormed ∧ ∃ top, ofLongName.resolveRoot root = .ok top ∧
      ofLongName.isDir top = false ∧ ofLongName.resolveRoot top = .error (.rootNotFound top)) ∧
    ofShutParent.WellFormed ∧ ∃ top, ofShutParent.resolveRoot ⟨[114]⟩ = .ok top ∧
      ofShutParent.isDir top = false ∧
      ofShutParent.resolveRoot top = .error (.rootNotFound top) := by
  intro back root
  constructor
  · have htree : ofLongName.WellFormed := by decide +kernel
    have hroot : ofLongName.isDir root = true := by decide +kernel
    have hlong : isTooLong (root.absolute ofLongName.cwdPath) = true := by decide +kernel
    have hresolved := resolveRoot_resolved htree (resolveRoot_of_isDir hroot)
    rw [hlong] at hresolved
    refine ⟨htree, _, resolveRoot_of_isDir hroot, ?_, hresolved⟩
    rw [Bool.eq_false_iff]
    intro hdir
    rw [resolveRoot_of_isDir hdir] at hresolved
    cases hresolved
  · exact ⟨by decide, ⟨[47, 117, 47, 87, 47, 114]⟩, by rfl, by decide, by rfl⟩

end DocLint
