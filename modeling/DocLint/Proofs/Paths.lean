-- SUMMARY: The segments and components of paths below a root, their order, and the absolute form of a path.
import DocLint.Defect
import DocLint.Proofs.Words
import DocLint.Walk.Finding

/-! # Paths below a root

Joining names to an absolute path adds one component for each name, also if the path ends
in a slash. So paths below a root are ordered as the names are that lead to them. The
absolute form of a path has the segments of the path, apart from dots.
-/

namespace DocLint.Path

/-- The segment can be the name of an entry: it is a name to the file system, and nothing
    else. -/
structure IsName (segment : Name) : Prop where
  ne_nil : segment ≠ []
  slash_notMem : slash ∉ segment
  zero_notMem : 0 ∉ segment
  ne_dot : segment ≠ dot
  ne_dotDot : segment ≠ dotDot

instance (segment : Name) : Decidable (IsName segment) :=
  decidable_of_iff
    (segment ≠ [] ∧ slash ∉ segment ∧ 0 ∉ segment ∧ segment ≠ dot ∧ segment ≠ dotDot)
    ⟨fun ⟨h₁, h₂, h₃, h₄, h₅⟩ => ⟨h₁, h₂, h₃, h₄, h₅⟩,
      fun ⟨h₁, h₂, h₃, h₄, h₅⟩ => ⟨h₁, h₂, h₃, h₄, h₅⟩⟩

theorem IsName.ofSegment?_eq {segment : Name} (h : IsName segment) :
    Component.ofSegment? segment = some (.name segment) := by
  rw [Component.ofSegment?, if_neg (not_or.mpr ⟨h.ne_nil, h.ne_dot⟩), if_neg h.ne_dotDot]

/-! ## Absolute paths -/

theorem isAbsolute_iff {p : Path} : p.isAbsolute = true ↔ ∃ rest, p.bytes = slash :: rest := by
  rw [isAbsolute, beq_iff_eq, List.head?_eq_some_iff]

theorem isAbsolute_join {p : Path} (h : p.isAbsolute = true) (segment : Name) :
    (p.join segment).isAbsolute = true := by
  obtain ⟨rest, hp⟩ := isAbsolute_iff.mp h
  rw [isAbsolute_iff, join]
  split
  · exact ⟨rest ++ segment, by simp [hp]⟩
  · exact ⟨rest ++ slash :: segment, by simp [hp]⟩

theorem isAbsolute_under {root : Path} (h : root.isAbsolute = true) (trail : List Name) :
    (root.under trail).isAbsolute = true := by
  induction trail generalizing root with
  | nil => exact h
  | cons name trail ih => exact ih (isAbsolute_join h name)

/-! ## Segments and components

Both are read off the pieces between slashes, and an empty piece is nothing to either.
-/

/-- Joining a segment adds one piece, or fills the empty piece after a last slash. -/
theorem filterMap_splitOn_join {β : Type} {f : Name → Option β} (hf : f [] = none) (p : Path)
    {segment : Name} (hsegment : slash ∉ segment) :
    ((p.join segment).bytes.splitOn slash).filterMap f =
      (p.bytes.splitOn slash).filterMap f ++ (f segment).toList := by
  have hlast : (segment.splitOn slash).filterMap f = (f segment).toList := by
    rw [List.splitOn_eq_singleton hsegment]
    cases hs : f segment <;> simp [hs]
  rw [join]
  split
  · rename_i h
    rcases Bool.or_eq_true_iff.mp h with hnil | hslash
    · obtain hnil : p.bytes = [] := List.isEmpty_iff.mp hnil
      simp [hnil, hlast, hf]
    · rw [endsInSlash, beq_iff_eq, List.getLast?_eq_some_iff] at hslash
      obtain ⟨init, hinit⟩ := hslash
      simp [hinit, List.splitOn_append_cons_self, hlast, hf]
  · simp [List.splitOn_append_cons_self, hlast]

theorem segments_eq_filterMap (p : Path) :
    p.segments = (p.bytes.splitOn slash).filterMap (Option.guard (· ≠ [])) := by
  rw [segments, List.filterMap_eq_filter]

theorem segments_join (p : Path) {name : Name} (hne : name ≠ []) (hslash : slash ∉ name) :
    (p.join name).segments = p.segments ++ [name] := by
  rw [segments_eq_filterMap, segments_eq_filterMap, filterMap_splitOn_join rfl p hslash]
  simp [Option.guard, hne]

theorem segments_join_nil (p : Path) : (p.join []).segments = p.segments := by
  rw [segments_eq_filterMap, segments_eq_filterMap, filterMap_splitOn_join rfl p (by simp)]
  simp [Option.guard]

/-- The segments of a path below a root are those of the root and then the names. -/
theorem segments_under (root : Path) {trail : List Name}
    (htrail : ∀ name ∈ trail, name ≠ [] ∧ slash ∉ name) :
    (root.under trail).segments = root.segments ++ trail := by
  induction trail generalizing root with
  | nil => simp [under]
  | cons name trail ih =>
    obtain ⟨⟨hne, hslash⟩, htrail⟩ := List.forall_mem_cons.mp htrail
    have hrest := ih (root.join name) htrail
    rw [segments_join root hne hslash, List.append_assoc] at hrest
    exact hrest

theorem components_of_absolute {p : Path} (h : p.isAbsolute = true) :
    p.components = .root :: (p.bytes.splitOn slash).filterMap Component.ofSegment? := by
  obtain ⟨rest, hp⟩ := isAbsolute_iff.mp h
  have hnil : Component.ofSegment? [] = none := rfl
  simp [components, hp, List.splitOn_cons_eq_if_modifyHead, h, hnil]

theorem map_segment_ofSegment? (pieces : List Name) :
    ((pieces.filterMap Component.ofSegment?).filter
      fun c => c ≠ .root ∧ c ≠ .current).map Component.segment =
      (pieces.filter (· ≠ [])).filter (· ≠ dot) := by
  induction pieces with
  | nil => rfl
  | cons piece pieces ih =>
    by_cases hnil : piece = []
    · simpa [Component.ofSegment?, hnil] using ih
    by_cases hdot : piece = dot
    · simpa [Component.ofSegment?, hdot] using ih
    by_cases hdotDot : piece = dotDot
    · subst hdotDot
      simpa [Component.ofSegment?, hnil, hdot, Component.segment] using ih
    · simpa [Component.ofSegment?, hnil, hdot, hdotDot, Component.segment] using ih

/-- The components that name something are the segments that are not dots. -/
theorem map_segment_components (p : Path) :
    (p.components.filter fun c => c ≠ .root ∧ c ≠ .current).map Component.segment =
      p.segments.filter (· ≠ dot) := by
  rw [segments, ← map_segment_ofSegment?]
  congr 1
  by_cases habs : p.isAbsolute = true
  · simp [components_of_absolute habs]
  · rw [components]
    cases hsplit : p.bytes.splitOn slash with
    | nil => exact absurd hsplit (List.splitOn_ne_nil slash p.bytes)
    | cons first rest =>
      by_cases hdot : first = dot
      · simp [habs, hdot, Component.ofSegment?]
      · cases hfirst : Component.ofSegment? first <;> simp [habs, hdot, hfirst]

theorem components_join {p : Path} (h : p.isAbsolute = true) {name : Name} (hname : IsName name) :
    (p.join name).components = p.components ++ [.name name] := by
  rw [components_of_absolute h, components_of_absolute (isAbsolute_join h name),
    filterMap_splitOn_join rfl p hname.slash_notMem, hname.ofSegment?_eq]
  rfl

/-- The components of a path below a root are those of the root and then the names. -/
theorem components_under {root : Path} (h : root.isAbsolute = true) {trail : List Name}
    (htrail : ∀ name ∈ trail, IsName name) :
    (root.under trail).components = root.components ++ trail.map Component.name := by
  induction trail generalizing root with
  | nil => simp [under]
  | cons name trail ih =>
    obtain ⟨hname, htrail⟩ := List.forall_mem_cons.mp htrail
    have hrest := ih (isAbsolute_join h name) htrail
    rw [components_join h hname, List.append_assoc] at hrest
    exact hrest

/-! ## The absolute form -/

theorem leadingSlashes_cases (p : Path) :
    p.leadingSlashes = rootPath ∨ p.leadingSlashes = ⟨[slash, slash]⟩ := by
  rw [leadingSlashes]
  split
  · split
    · exact .inr rfl
    · exact .inl rfl
  · exact .inl rfl

/-- The absolute form of a path is its segments, without dots, below where it starts; a slash
    may come after them. -/
theorem absolute_eq_under (p cwd : Path) :
    p.absolute cwd =
      let whole := (if p.isAbsolute then p.leadingSlashes else cwd).under
        (p.segments.filter (· ≠ dot))
      if p.endsInSlash then whole.join [] else whole := by
  rw [absolute, map_segment_components]
  rfl

/-- The absolute form is made of the working directory and the segments that are not dots. A slash
    at the end stays. -/
theorem absolute_cases (p cwd : Path) :
    p.absolute cwd =
        (if p.isAbsolute then p.leadingSlashes else cwd).under (p.segments.filter (· ≠ dot)) ∨
      p.absolute cwd =
        ((if p.isAbsolute then p.leadingSlashes else cwd).under
          (p.segments.filter (· ≠ dot))).join [] := by
  rw [absolute_eq_under]
  cases p.endsInSlash with
  | true => exact .inr rfl
  | false => exact .inl rfl

theorem mem_splitOn_of_mem_segments {p : Path} {name : Name}
    (h : name ∈ p.segments.filter (· ≠ dot)) :
    name ≠ [] ∧ name ∈ p.bytes.splitOn slash := by
  have hpiece := List.mem_filter.mp (List.mem_filter.mp h).1
  exact ⟨by simpa using hpiece.2, hpiece.1⟩

theorem isAbsolute_absolute {cwd : Path} (h : cwd.isAbsolute = true) (p : Path) :
    (p.absolute cwd).isAbsolute = true := by
  have hbase : (if p.isAbsolute then p.leadingSlashes else cwd).isAbsolute = true := by
    split
    · rcases p.leadingSlashes_cases with hslashes | hslashes <;> rw [hslashes] <;> rfl
    · exact h
  have hwhole := isAbsolute_under hbase (p.segments.filter (· ≠ dot))
  rcases p.absolute_cases cwd with heq | heq
  · rw [heq]
    exact hwhole
  · rw [heq]
    exact isAbsolute_join hwhole []

theorem endsInSlash_join_nil {p : Path} (h : p.bytes ≠ []) : (p.join []).endsInSlash = true := by
  unfold join
  split
  · rename_i hjoin
    rcases Bool.or_eq_true_iff.mp hjoin with hnil | hslash
    · exact absurd (List.isEmpty_iff.mp hnil) h
    · simpa [endsInSlash] using hslash
  · simp [endsInSlash]

/-- A slash at the end stays there. -/
theorem endsInSlash_absolute {p cwd : Path} (hcwd : cwd.isAbsolute = true)
    (h : p.endsInSlash = true) : (p.absolute cwd).endsInSlash = true := by
  have habs := isAbsolute_absolute hcwd p
  unfold absolute at habs ⊢
  simp only [h, if_true] at habs ⊢
  apply endsInSlash_join_nil
  intro hnil
  obtain ⟨rest, hbytes⟩ := isAbsolute_iff.mp habs
  rw [join, hnil] at hbytes
  cases hbytes

/-- The absolute form drops dots and nothing else. -/
theorem segments_absolute (p cwd : Path) :
    (p.absolute cwd).segments =
      (if p.isAbsolute then [] else cwd.segments) ++ p.segments.filter (· ≠ dot) := by
  have hbase : (if p.isAbsolute then p.leadingSlashes else cwd).segments =
      if p.isAbsolute then [] else cwd.segments := by
    split
    · rcases p.leadingSlashes_cases with hslashes | hslashes <;> rw [hslashes] <;> rfl
    · rfl
  have hnames : ∀ name ∈ p.segments.filter (· ≠ dot), name ≠ [] ∧ slash ∉ name := by
    intro name hname
    obtain ⟨hne, hpiece⟩ := mem_splitOn_of_mem_segments hname
    exact ⟨hne, Text.sep_notMem_of_mem_splitOn hpiece⟩
  have hwhole := segments_under (if p.isAbsolute then p.leadingSlashes else cwd) hnames
  rw [hbase] at hwhole
  rcases p.absolute_cases cwd with heq | heq
  · rw [heq, hwhole]
  · rw [heq, segments_join_nil, hwhole]

theorem zero_notMem_join {p : Path} (hp : 0 ∉ p.bytes) {segment : Name} (h : 0 ∉ segment) :
    0 ∉ (p.join segment).bytes := by
  have hslash : (0 : UInt8) ≠ slash := by decide
  rw [join]
  split <;> simp [hp, h, hslash]

theorem zero_notMem_under {root : Path} (hroot : 0 ∉ root.bytes) {trail : List Name}
    (h : ∀ name ∈ trail, 0 ∉ name) : 0 ∉ (root.under trail).bytes := by
  induction trail generalizing root with
  | nil => exact hroot
  | cons name trail ih =>
    obtain ⟨hname, htrail⟩ := List.forall_mem_cons.mp h
    exact ih (zero_notMem_join hroot hname) htrail

theorem zero_notMem_absolute {p cwd : Path} (hp : 0 ∉ p.bytes) (hcwd : 0 ∉ cwd.bytes) :
    0 ∉ (p.absolute cwd).bytes := by
  have hbase : 0 ∉ (if p.isAbsolute then p.leadingSlashes else cwd).bytes := by
    split
    · rcases p.leadingSlashes_cases with hslashes | hslashes <;> rw [hslashes] <;> decide
    · exact hcwd
  have hnames : ∀ name ∈ p.segments.filter (· ≠ dot), 0 ∉ name := by
    intro name hname hzero
    obtain ⟨_, hpiece⟩ := mem_splitOn_of_mem_segments hname
    obtain ⟨before, after, hbytes, _⟩ := Text.HasWord.of_mem_splitOn hpiece
    exact hp (by simp [hbytes, hzero])
  have hwhole := zero_notMem_under hbase hnames
  rcases p.absolute_cases cwd with heq | heq
  · rw [heq]
    exact hwhole
  · rw [heq]
    exact zero_notMem_join hwhole List.not_mem_nil

/-! ## Order -/

/-- Components are ordered by kind and then by how they are written. -/
theorem Component.compare_eq_lex (a b : Component) :
    compare a b = (compare a.rank b.rank).then (compare a.segment b.segment) := by
  cases a <;> cases b <;> rfl

instance : Std.TransOrd Component := by
  have hlex : (compare : Component → Component → Ordering) =
      compareLex (compareOn Component.rank) (compareOn Component.segment) := by
    funext a b
    exact Component.compare_eq_lex a b
  unfold Std.TransOrd
  rw [hlex]
  infer_instance

theorem compare_append_left {α : Type} [Ord α] [Std.ReflOrd α] (start a b : List α) :
    compare (start ++ a) (start ++ b) = compare a b := by
  induction start with
  | nil => rfl
  | cons x start ih => simp [List.compare_cons_cons, ih, Std.ReflOrd.compare_self]

/-- Names compare as components as they do as names. -/
theorem compare_map_name (a b : List Name) :
    compare (a.map Component.name) (b.map Component.name) = compare a b := by
  induction a generalizing b with
  | nil => cases b <;> rfl
  | cons x a ih =>
    cases b with
    | nil => rfl
    | cons y b =>
      rw [List.map_cons, List.map_cons, List.compare_cons_cons, List.compare_cons_cons, ih]
      rfl

/-- Below one root the order of paths is the order of the names that lead there. -/
theorem compare_under {root : Path} (h : root.isAbsolute = true) {a b : List Name}
    (ha : ∀ name ∈ a, IsName name) (hb : ∀ name ∈ b, IsName name) :
    (root.under a).compare (root.under b) = compare a b := by
  rw [Path.compare, components_under h ha, components_under h hb, compare_append_left,
    compare_map_name]

end DocLint.Path
