-- SUMMARY: What following a path keeps: it stays in the tree, and at the same directory when a root is made absolute.
import DocLint.Proofs.Trees

/-! # Following paths

Whatever a path leads to stands in the tree, however many links are on the way, so in a
well-formed tree it is well-formed. The absolute form of a path to a directory leads to the same
directory: what it leaves out are segments that stand for the directory they are in. But it may be
too long, and it comes by the directories above the working directory, which need not let anyone
through.
-/

namespace DocLint

namespace FileTree

/-! ## What it takes to find a node -/

theorem node_eq_ok_iff {tree : FileTree} {path : Path} {follow : Bool} {node : Node} :
    tree.node path follow = .ok node ↔
      ∃ p, tree.resolve path follow = .ok (.found p) ∧ p.here = node := by
  rw [FileTree.node]
  split
  · rename_i p hresolve
    simp [hresolve]
  all_goals
    rename_i hresolve
    simp [hresolve]

theorem isDir_iff {tree : FileTree} {path : Path} :
    tree.isDir path = true ↔ ∃ node, tree.node path true = .ok node ∧ node.isDir = true := by
  rw [isDir]
  cases tree.node path true <;> simp

theorem resolve_eq_ok {tree : FileTree} {path : Path} {follow : Bool} {place : Place}
    (h : tree.resolve path follow = .ok place) :
    0 ∉ path.bytes ∧ ∃ start, tree.start? path = some start ∧
      followLinks tree.root follow maxLinks path.endsInSlash start path.segments = .ok place := by
  rw [resolve] at h
  split at h
  · exact absurd h nofun
  rename_i hzero
  split at h
  · exact absurd h nofun
  split at h
  · exact absurd h nofun
  split at h
  · exact absurd h nofun
  rename_i start hstart
  exact ⟨by simpa using hzero, start, hstart, h⟩

theorem resolve_of_absolute (tree : FileTree) {path : Path} (habs : path.isAbsolute = true)
    (hzero : 0 ∉ path.bytes) (follow : Bool) :
    tree.resolve path follow =
      if isTooLong path then .error .nameTooLong
      else
        followLinks tree.root follow maxLinks path.endsInSlash (.ofRoot tree.root)
          path.segments := by
  obtain ⟨rest, hbytes⟩ := Path.isAbsolute_iff.mp habs
  have hstart : tree.start? path = some (.ofRoot tree.root) := if_pos habs
  rw [resolve, if_neg (by simpa using hzero), if_neg (by simp [hbytes]), hstart]

/-- What following segments comes to, link by link. -/
theorem followLinks_eq_ok_iff {root : Node} {follow slash : Bool} {links : Nat} {p : Position}
    {segments : List Name} {place : Place} :
    followLinks root follow links slash p segments = .ok place ↔
      advance follow slash p segments = .stopped (.ok place) ∨
      ∃ n q target rest, links = n + 1 ∧ advance follow slash p segments = .link q target rest ∧
        target.bytes.isEmpty = false ∧
        followLinks root follow n (slash || (rest.isEmpty && target.endsInSlash))
          (if target.isAbsolute then .ofRoot root else q) (target.segments ++ rest) = .ok place := by
  cases links with
  | zero =>
    rw [followLinks]
    cases hadvance : advance follow slash p segments with
    | stopped result => simp
    | link q target rest => simp
  | succ n =>
    rw [followLinks]
    cases hadvance : advance follow slash p segments with
    | stopped result => simp
    | link q target rest =>
      by_cases hempty : target.bytes.isEmpty = true
      · have hnil : target.bytes = [] := List.isEmpty_iff.mp hempty
        simp [hnil]
      · simp only [if_neg hempty]
        rw [Bool.not_eq_true] at hempty
        constructor
        · exact fun h => .inr ⟨n, q, target, rest, rfl, rfl, hempty, h⟩
        · rintro (h | ⟨m, _, _, _, hm, h, _, hplace⟩)
          · cases h
          · cases hm
            cases h
            exact hplace

/-! ## Staying in the tree -/

/-- The property holds at the root, and every step of following a path keeps it. -/
structure Position.Invariant (root : Node) (P : Position → Prop) : Prop where
  ofRoot : P (.ofRoot root)
  parent {p : Position} : P p → P p.parent
  enter {p : Position} {name : Name} {node : Node} :
    P p → p.here.entries.lookup name = some node → P (p.enter name node)

/-- Every position in what was reached has the property, and a name that is missing is missing
    from a directory. -/
def Place.All (P : Position → Prop) : Place → Prop
  | .found p => P p
  | .slashed p => P p
  | .missing dir name _ =>
    P dir ∧ ∃ access entries, dir.here = .dir access entries ∧ entries.lookup name = none

/-- Wherever following segments stops, the position has the property. -/
def Progress.All (P : Position → Prop) : Progress → Prop
  | .stopped (.ok place) => place.All P
  | .stopped (.error _) => True
  | .link p _ _ => P p

namespace Position.Invariant

variable {root : Node} {P : Position → Prop} {p : Position}

/-- One run along the segments keeps what every step keeps. -/
theorem advance (hP : Invariant root P) (h : P p) (follow slash : Bool) (segments : List Name) :
    (advance follow slash p segments).All P := by
  induction segments generalizing p with
  | nil =>
    rw [FileTree.advance]
    split <;> exact h
  | cons segment rest ih =>
    rw [FileTree.advance]
    split
    · rename_i access entries hdir
      have henter {node : Node} (hnode : entries.lookup segment = some node) :
          P (p.enter segment node) :=
        hP.enter h (by rw [hdir]; exact hnode)
      split
      · trivial
      · split
        · exact ih h
        · split
          · exact ih (hP.parent h)
          · split
            · trivial
            · split
              · rename_i hnone
                split
                · exact ⟨h, access, entries, hdir, hnone⟩
                · trivial
              · rename_i target hnode
                split
                · exact henter hnode
                · exact h
              · rename_i node _ hnode
                exact ih (henter hnode)
    · trivial

theorem descend? (hP : Invariant root P) (h : P p) {names : List Name} {q : Position}
    (hq : p.descend? names = some q) : P q := by
  induction names generalizing p with
  | nil =>
    obtain rfl : p = q := Option.some.inj hq
    exact h
  | cons name rest ih =>
    rw [Position.descend?] at hq
    split at hq
    · rename_i access entries hdir
      obtain ⟨node, hnode, hq⟩ := Option.bind_eq_some_iff.mp hq
      exact ih (hP.enter h (by rw [hdir]; exact hnode)) hq
    · cases hq

theorem start? {tree : FileTree} (hP : Invariant tree.root P) {path : Path}
    (h : tree.start? path = some p) : P p := by
  unfold FileTree.start? at h
  split at h
  · cases h
    exact hP.ofRoot
  · exact hP.descend? hP.ofRoot h

/-- And so does a run over links, by induction on how many are left. -/
theorem followLinks (hP : Invariant root P) (follow : Bool) (links : Nat) {slash : Bool} (h : P p)
    {segments : List Name} {place : Place}
    (hplace : followLinks root follow links slash p segments = .ok place) : place.All P := by
  induction links using Nat.strongRecOn generalizing slash p segments with
  | ind links ih =>
    have hadvance := hP.advance h follow slash segments
    rcases followLinks_eq_ok_iff.mp hplace with hstop | ⟨n, q, target, rest, rfl, hlink, _, hnext⟩
    · rw [hstop] at hadvance
      exact hadvance
    · rw [hlink] at hadvance
      refine ih n (Nat.lt_succ_self n) ?_ hnext
      split
      · exact hP.ofRoot
      · exact hadvance

/-- What every step keeps holds where a path leads to. -/
theorem resolve {tree : FileTree} (hP : Invariant tree.root P) {path : Path} {follow : Bool}
    {place : Place} (h : tree.resolve path follow = .ok place) : place.All P := by
  obtain ⟨_, start, hstart, hfollow⟩ := resolve_eq_ok h
  exact hP.followLinks follow maxLinks (hP.start? hstart) hfollow

end Position.Invariant

/-- The node at a position and those on the way there stand in the tree. -/
structure Position.In (tree : FileTree) (p : Position) : Prop where
  here : tree.Holds p.here
  above : ∀ e ∈ p.above, tree.Holds e.2

section

variable {tree : FileTree} {p : Position}

theorem Position.In.parent (h : p.In tree) : p.parent.In tree := by
  rw [Position.parent]
  split
  · exact h
  · rename_i name node above heq
    obtain ⟨hnode, habove⟩ := List.forall_mem_cons.mp (heq ▸ h.above)
    exact ⟨hnode, habove⟩

/-- Following paths never leaves the tree. -/
theorem Position.invariant_in (tree : FileTree) : Position.Invariant tree.root (In tree) where
  ofRoot := ⟨.root, fun _ he => absurd he List.not_mem_nil⟩
  parent h := h.parent
  enter h hnode :=
    ⟨h.here.entry (Node.lookup_mem hnode), List.forall_mem_cons.mpr ⟨h.here, h.above⟩⟩

/-- What a path leads to stands in the tree. -/
theorem holds_node {path : Path} {follow : Bool} {node : Node}
    (h : tree.node path follow = .ok node) : tree.Holds node := by
  obtain ⟨p, hresolve, rfl⟩ := node_eq_ok_iff.mp h
  have hin : p.In tree := (Position.invariant_in tree).resolve hresolve
  exact hin.here

theorem node_isWellFormed (htree : tree.WellFormed) {path : Path} {follow : Bool} {node : Node}
    (h : tree.node path follow = .ok node) : node.isWellFormed = true :=
  (holds_node h).isWellFormed htree

end

/-! ## A slash at the end -/

theorem isDir_of_advance_slash {follow : Bool} {p q : Position} {segments : List Name}
    (h : advance follow true p segments = .stopped (.ok (.found q))) : q.here.isDir = true := by
  induction segments generalizing p with
  | nil =>
    cases hdir : p.here.isDir with
    | false => simp [advance, hdir] at h
    | true =>
      obtain rfl : p = q := by simpa [advance, hdir] using h
      exact hdir
  | cons segment rest ih =>
    rw [advance] at h
    split at h
    · split at h
      · cases h
      · split at h
        · exact ih h
        · split at h
          · exact ih h
          · split at h
            · cases h
            · split at h
              · split at h <;> cases h
              · -- a link is followed, for the slash comes after it
                simp at h
              · exact ih h
    · cases h

/-- A path with a slash at the end leads to a directory or nowhere. -/
theorem isDir_of_followLinks_slash {root : Node} {follow : Bool} {links : Nat} {p q : Position}
    {segments : List Name}
    (h : followLinks root follow links true p segments = .ok (.found q)) :
    q.here.isDir = true := by
  induction links using Nat.strongRecOn generalizing p segments with
  | ind links ih =>
    rcases followLinks_eq_ok_iff.mp h with hstop | ⟨n, _, target, rest, rfl, _, _, hnext⟩
    · exact isDir_of_advance_slash hstop
    · exact ih n (Nat.lt_succ_self n) hnext

/-- A path with a slash at the end leads to directories only, so it is never a link itself. -/
theorem isLink_of_endsInSlash {tree : FileTree} {path : Path} (h : path.endsInSlash = true) :
    tree.isLink path = false := by
  unfold isLink
  split
  · rename_i node hnode
    obtain ⟨p, hresolve, rfl⟩ := node_eq_ok_iff.mp hnode
    obtain ⟨_, start, _, hfollow⟩ := resolve_eq_ok hresolve
    rw [h] at hfollow
    obtain ⟨access, entries, hdir⟩ := Node.eq_dir_of_isDir (isDir_of_followLinks_slash hfollow)
    rw [hdir]
    rfl
  · rfl

/-! ## Leaving out dots -/

/-- The second list is the first one without some of its `.` segments. -/
inductive WithoutDots : List Name → List Name → Prop where
  | nil : WithoutDots [] []
  | keep (segment : Name) {a b : List Name} : WithoutDots a b → WithoutDots (segment :: a) (segment :: b)
  | drop {a b : List Name} : WithoutDots a b → WithoutDots (Path.dot :: a) b

theorem WithoutDots.append_left {a b : List Name} (h : WithoutDots a b) (start : List Name) :
    WithoutDots (start ++ a) (start ++ b) := by
  induction start with
  | nil => exact h
  | cons segment start ih => exact .keep segment ih

theorem withoutDots_filter (segments : List Name) :
    WithoutDots segments (segments.filter (· ≠ Path.dot)) := by
  induction segments with
  | nil => exact .nil
  | cons segment segments ih =>
    by_cases h : segment = Path.dot
    · subst h
      exact .drop ih
    · rw [List.filter_cons_of_pos (by simpa using h)]
      exact .keep segment ih

/-- What a segment can do when links are followed: go on somewhere, meet a link, or end the way
    at nothing that can be used. Neither what comes after it nor a last slash has a say. -/
theorem advance_cons_cases (p : Position) (segment : Name) :
    (∃ next, ∀ slash rest, advance true slash p (segment :: rest) = advance true slash next rest) ∨
    (∃ target, ∀ slash rest, advance true slash p (segment :: rest) = .link p target rest) ∨
    (∀ slash rest, ∃ result, advance true slash p (segment :: rest) = .stopped result ∧
      ∀ q, result ≠ .ok (.found q)) := by
  simp only [advance]
  split
  · rename_i access entries _
    by_cases hsearch : (!access.search) = true
    · exact .inr (.inr fun _ _ => ⟨_, if_pos hsearch, nofun⟩)
    simp only [if_neg hsearch]
    by_cases hdot : segment = Path.dot
    · exact .inl ⟨p, fun _ _ => by rw [if_pos hdot]⟩
    by_cases hdotDot : segment = Path.dotDot
    · exact .inl ⟨p.parent, fun _ _ => by rw [if_neg hdot, if_pos hdotDot]⟩
    simp only [if_neg hdot, if_neg hdotDot]
    by_cases hlong : maxName < segment.length
    · exact .inr (.inr fun _ _ => ⟨_, if_pos hlong, nofun⟩)
    simp only [if_neg hlong]
    cases entries.lookup segment with
    | none =>
      refine .inr (.inr fun _ rest => ⟨_, rfl, fun q => ?_⟩)
      split <;> nofun
    | some node =>
      cases node with
      | link target => exact .inr (.inl ⟨target, fun _ _ => by simp⟩)
      | file access content => exact .inl ⟨_, fun _ _ => rfl⟩
      | dir access entries => exact .inl ⟨_, fun _ _ => rfl⟩
      | fifo => exact .inl ⟨_, fun _ _ => rfl⟩
      | device d => exact .inl ⟨_, fun _ _ => rfl⟩
  · exact .inr (.inr fun _ _ => ⟨_, rfl, nofun⟩)

/-- A dot leads nowhere else. -/
theorem advance_dot (follow slash : Bool) (p : Position) (rest : List Name) :
    advance follow slash p (Path.dot :: rest) = advance follow slash p rest ∨
      ∃ fault, advance follow slash p (Path.dot :: rest) = .stopped (.error fault) := by
  rw [advance]
  split
  · split
    · exact .inr ⟨_, rfl⟩
    · exact .inl (if_pos rfl)
  · exact .inr ⟨_, rfl⟩

/-- Dots do not change which directory is reached. -/
theorem WithoutDots.advance_dir {a b : List Name} (h : WithoutDots a b) {p q : Position}
    {slash : Bool} (hq : q.here.isDir = true)
    (hadvance : advance true slash p a = .stopped (.ok (.found q))) (slash' : Bool) :
    advance true slash' p b = .stopped (.ok (.found q)) := by
  induction h generalizing p with
  | nil =>
    rw [advance] at hadvance ⊢
    split at hadvance
    · exact absurd hadvance (by simp)
    · obtain rfl : p = q := by simpa using hadvance
      simp [hq]
  | keep segment _ ih =>
    rcases advance_cons_cases p segment with ⟨next, hnext⟩ | ⟨target, hlink⟩ | hstop
    · rw [hnext] at hadvance ⊢
      exact ih hadvance
    · rw [hlink] at hadvance
      exact absurd hadvance (by simp)
    · obtain ⟨result, heq, hresult⟩ := hstop slash _
      rw [heq] at hadvance
      exact absurd (Progress.stopped.inj hadvance) (hresult q)
  | drop _ ih =>
    rcases advance_dot true slash p _ with hdot | ⟨fault, hdot⟩
    · exact ih (hdot ▸ hadvance)
    · rw [hdot] at hadvance
      exact absurd hadvance (by simp)

/-- Nor which link is met first. What is left after it has fewer dots, too. -/
theorem WithoutDots.advance_link {a b : List Name} (h : WithoutDots a b) {p q : Position}
    {slash : Bool} {target : Path} {rest : List Name}
    (hadvance : advance true slash p a = .link q target rest) (slash' : Bool) :
    ∃ rest', WithoutDots rest rest' ∧ advance true slash' p b = .link q target rest' := by
  induction h generalizing p with
  | nil => exact absurd hadvance (by simp [advance])
  | @keep segment a b h ih =>
    rcases advance_cons_cases p segment with ⟨next, hnext⟩ | ⟨found, hlink⟩ | hstop
    · rw [hnext] at hadvance ⊢
      exact ih hadvance
    · rw [hlink] at hadvance ⊢
      obtain ⟨rfl, rfl, rfl⟩ := Progress.link.inj hadvance
      exact ⟨b, h, rfl⟩
    · obtain ⟨result, heq, _⟩ := hstop slash a
      rw [heq] at hadvance
      exact absurd hadvance (by simp)
  | drop _ ih =>
    rcases advance_dot true slash p _ with hdot | ⟨fault, hdot⟩
    · exact ih (hdot ▸ hadvance)
    · rw [hdot] at hadvance
      exact absurd hadvance (by simp)

/-- A way to a directory leads there also without its dots, and whether or not a slash comes
    last. -/
theorem WithoutDots.followLinks_dir {root : Node} {links : Nat} {slash : Bool} {p q : Position}
    {a b : List Name} (h : WithoutDots a b) (hq : q.here.isDir = true)
    (hfollow : followLinks root true links slash p a = .ok (.found q)) (slash' : Bool) :
    followLinks root true links slash' p b = .ok (.found q) := by
  induction links using Nat.strongRecOn generalizing slash slash' p a b with
  | ind links ih =>
    rcases followLinks_eq_ok_iff.mp hfollow with hstop |
      ⟨n, link, target, rest, rfl, hlink, hne, hnext⟩
    · exact followLinks_eq_ok_iff.mpr (.inl (h.advance_dir hq hstop slash'))
    · -- a link's own segments come in whole, so not all dots are gone from here on
      obtain ⟨rest', hrest, hlink'⟩ := h.advance_link hlink slash'
      refine followLinks_eq_ok_iff.mpr (.inr ⟨n, link, target, rest', rfl, hlink', hne, ?_⟩)
      exact ih n (Nat.lt_succ_self n) (hrest.append_left target.segments) hnext _

/-! ## The absolute form -/

theorem cwdPath_segments {tree : FileTree} (htree : tree.WellFormed) :
    tree.cwdPath.segments = tree.cwd := by
  have hnames : ∀ name ∈ tree.cwd, name ≠ [] ∧ Path.slash ∉ name := fun name hname =>
    ⟨(htree.cwd name hname).ne_nil, (htree.cwd name hname).slash_notMem⟩
  exact Path.segments_under Path.rootPath hnames

theorem cwdPath_isAbsolute (tree : FileTree) : tree.cwdPath.isAbsolute = true :=
  Path.isAbsolute_under rfl tree.cwd

theorem zero_notMem_cwdPath {tree : FileTree} (htree : tree.WellFormed) :
    0 ∉ tree.cwdPath.bytes :=
  Path.zero_notMem_under (by decide) fun name hname => (htree.cwd name hname).zero_notMem

/-! ## From above the working directory -/

/-- Every directory that the names are looked up in may be searched. -/
def Position.admits (p : Position) : List Name → Bool
  | [] => true
  | name :: rest =>
    match p.here with
    | .dir access entries =>
      access.search && (entries.lookup name).any fun node => (p.enter name node).admits rest
    | _ => false

/-- There is only something below directories. -/
theorem Position.isDir_of_descend? {p q : Position} {names : List Name}
    (h : p.descend? names = some q) (hq : q.here.isDir = true) : p.here.isDir = true := by
  cases names with
  | nil =>
    obtain rfl : p = q := Option.some.inj h
    exact hq
  | cons name rest =>
    rw [Position.descend?] at h
    split at h
    · rename_i hdir
      rw [hdir]
      rfl
    · cases h

/-- Where names lead to a directory without being looked up, looking them up leads there too,
    unless a directory on the way cannot be searched. -/
theorem advance_descend? {p q : Position} {names : List Name} (h : p.descend? names = some q)
    (hq : q.here.isDir = true) (hnames : ∀ name ∈ names, Path.IsName name)
    (hlength : ∀ name ∈ names, name.length ≤ maxName) (follow slash : Bool) (rest : List Name) :
    advance follow slash p (names ++ rest) =
      if p.admits names then advance follow slash q rest else .stopped (.error .denied) := by
  induction names generalizing p with
  | nil =>
    obtain rfl : p = q := Option.some.inj h
    rfl
  | cons name names ih =>
    obtain ⟨hname, hnames⟩ := List.forall_mem_cons.mp hnames
    obtain ⟨hle, hlength⟩ := List.forall_mem_cons.mp hlength
    obtain ⟨access, entries, hdir⟩ := Node.eq_dir_of_isDir (Position.isDir_of_descend? h hq)
    simp only [Position.descend?, hdir] at h
    obtain ⟨node, hnode, h⟩ := Option.bind_eq_some_iff.mp h
    obtain ⟨access', entries', hchild⟩ := Node.eq_dir_of_isDir (Position.isDir_of_descend? h hq)
    obtain rfl : node = .dir access' entries' := hchild
    rw [List.cons_append, advance, hdir, Position.admits, hdir]
    cases hsearch : access.search with
    | false => simp [hsearch]
    | true =>
      simp [hsearch, hname.ne_dot, hname.ne_dotDot, Nat.not_lt.mpr hle, hnode,
        ih h hnames hlength]

/-- The absolute form of a root does not come by a directory that cannot be searched and that the
    root itself leaves alone: those above the working directory, if the root is relative. -/
def reaches (tree : FileTree) (root : Path) : Bool :=
  root.isAbsolute || (Position.ofRoot tree.root).admits tree.cwd

/-- A path leads to a directory only from a directory. -/
theorem isDir_of_followLinks_dir {root : Node} {links : Nat} {slash : Bool} {p q : Position}
    {segments : List Name} (h : followLinks root true links slash p segments = .ok (.found q))
    (hq : q.here.isDir = true) : p.here.isDir = true := by
  cases segments with
  | nil =>
    rcases followLinks_eq_ok_iff.mp h with hstop | ⟨_, _, _, _, _, hlink, _⟩
    · cases hdir : p.here.isDir with
      | true => rfl
      | false =>
        cases slash with
        | true => simp [advance, hdir] at hstop
        | false =>
          obtain rfl : p = q := by simpa [advance] using hstop
          exact absurd (hdir.symm.trans hq) Bool.false_ne_true
    · simp [advance] at hlink
  | cons segment rest =>
    cases hdir : p.here.isDir with
    | true => rfl
    | false =>
      have hstuck : advance true slash p (segment :: rest) = .stopped (.error .notDirectory) := by
        rw [advance]
        split
        · rename_i hhere
          rw [hhere] at hdir
          cases hdir
        · rfl
      rcases followLinks_eq_ok_iff.mp h with hstop | ⟨_, _, _, _, _, hlink, _⟩
      · cases hstuck.symm.trans hstop
      · cases hstuck.symm.trans hlink

/-- What comes of following links depends on the first run only. -/
theorem followLinks_congr {root : Node} {follow slash : Bool} {p q : Position} {a b : List Name}
    (h : advance follow slash p a = advance follow slash q b) (links : Nat) :
    followLinks root follow links slash p a = followLinks root follow links slash q b := by
  cases links <;> rw [followLinks, followLinks, h]

theorem followLinks_of_stopped {root : Node} {follow slash : Bool} {p : Position}
    {segments : List Name} {result : Except Fault Place}
    (h : advance follow slash p segments = .stopped result) (links : Nat) :
    followLinks root follow links slash p segments = result := by
  cases links <;> rw [followLinks, h]

/-- The absolute form of a path to a directory leads to that directory, if it can be followed. -/
theorem resolve_absolute {tree : FileTree} (htree : tree.WellFormed) {root : Path} {p : Position}
    (hresolve : tree.resolve root true = .ok (.found p)) (hdir : p.here.isDir = true) :
    tree.resolve (root.absolute tree.cwdPath) true =
      if isTooLong (root.absolute tree.cwdPath) then .error .nameTooLong
      else if tree.reaches root then .ok (.found p) else .error .denied := by
  obtain ⟨hzero, start, hstart, hfollow⟩ := resolve_eq_ok hresolve
  have hplain (slash : Bool) :
      followLinks tree.root true maxLinks slash start (root.segments.filter (· ≠ Path.dot)) =
        .ok (.found p) :=
    (withoutDots_filter root.segments).followLinks_dir hdir hfollow slash
  rw [tree.resolve_of_absolute (Path.isAbsolute_absolute (cwdPath_isAbsolute tree) root)
    (Path.zero_notMem_absolute hzero (zero_notMem_cwdPath htree)) true, Path.segments_absolute,
    cwdPath_segments htree]
  congr 1
  unfold start? at hstart
  cases habs : root.isAbsolute with
  | true =>
    rw [habs, if_pos rfl] at hstart
    cases hstart
    simpa [reaches, habs] using hplain _
  | false =>
    rw [habs, if_neg Bool.false_ne_true] at hstart
    have hadvance := advance_descend? hstart (isDir_of_followLinks_dir hfollow hdir) htree.cwd
      htree.cwd_length_le true (root.absolute tree.cwdPath).endsInSlash
      (root.segments.filter (· ≠ Path.dot))
    simp only [reaches, habs, Bool.false_or, Bool.false_eq_true, if_false]
    split
    · rename_i hadmits
      rw [if_pos hadmits] at hadvance
      rw [followLinks_congr hadvance, hplain]
    · rename_i hadmits
      rw [if_neg hadmits] at hadvance
      exact followLinks_of_stopped hadvance maxLinks

/-- The absolute form of a root leads to the same node, if it is not too long and no directory on
    its way is in the way. -/
theorem node_absolute {tree : FileTree} (htree : tree.WellFormed) {root : Path} {node : Node}
    (hnode : tree.node root true = .ok node) (hdir : node.isDir = true) :
    tree.node (root.absolute tree.cwdPath) true =
      if isTooLong (root.absolute tree.cwdPath) then .error .nameTooLong
      else if tree.reaches root then .ok node else .error .denied := by
  obtain ⟨p, hresolve, rfl⟩ := node_eq_ok_iff.mp hnode
  rw [FileTree.node, resolve_absolute htree hresolve hdir]
  cases isTooLong (root.absolute tree.cwdPath) <;> cases tree.reaches root <;> rfl

end FileTree

end DocLint
