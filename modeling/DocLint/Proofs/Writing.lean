-- SUMMARY: Writing through a path changes one file and nothing else, and afterwards the path leads to that file.
import DocLint.FileTree.Edit
import DocLint.Proofs.Resolution
import Mathlib

/-! # Writing a file

Before and after a write the tree is the same but for one file, which may be new. A path that
led to that file, or to the place where it was missing, takes the same way afterwards: every
directory and every link on the way is where it was.
-/

namespace DocLint

namespace Node

/-! ## The same but for one file -/

/-- The two nodes are the same but for the file that the names lead to. Its content was `was`, or
    it was not there, and is `now`. What may be done with it is `access`, as before. -/
inductive Rewritten (access : Access) (now : Bytes) :
    (was : Option Bytes) → List Name → Node → Node → Prop where
  /-- The file itself. -/
  | content (old : Bytes) :
    Rewritten access now (some old) [] (.file access old) (.file access now)
  /-- The directory that gets the file. -/
  | made {dirAccess : Access} {before after : List (Name × Node)} {name : Name} :
    name ∉ (before ++ after).map (·.1) →
      Rewritten access now none [name] (.dir dirAccess (before ++ after))
        (.dir dirAccess (before ++ (name, .file access now) :: after))
  /-- A directory above the file. -/
  | entry {was : Option Bytes} {dirAccess : Access} {before after : List (Name × Node)}
      {name : Name} {rest : List Name} {child child' : Node} :
    name ∉ (before ++ after).map (·.1) → Rewritten access now was rest child child' →
      Rewritten access now was (name :: rest) (.dir dirAccess (before ++ (name, child) :: after))
        (.dir dirAccess (before ++ (name, child') :: after))

section

variable {before after : List (Name × Node)} {name other : Name} {node : Node}

theorem lookup_middle (h : name ∉ (before ++ after).map (·.1)) :
    (before ++ (name, node) :: after).lookup name = some node := by
  refine List.lookup_eq_some_iff.mpr ⟨before, after, rfl, fun e he => ?_⟩
  have hne : e.1 ≠ name := fun heq => h (heq ▸ List.mem_map_of_mem (List.mem_append_left _ he))
  simpa [bne_iff_ne] using Ne.symm hne

/-- An entry in between is nothing to other names. -/
theorem lookup_other (h : other ≠ name) :
    (before ++ (name, node) :: after).lookup other = (before ++ after).lookup other := by
  rw [List.lookup_append, List.lookup_append, List.lookup_cons, beq_eq_false_iff_ne.mpr h]

theorem ne_of_lookup {found : Node} (h : name ∉ (before ++ after).map (·.1))
    (hfound : (before ++ after).lookup other = some found) : other ≠ name := by
  rintro rfl
  exact h (List.mem_map_of_mem (lookup_mem hfound))

end

variable {access : Access} {now : Bytes} {was : Option Bytes} {trail : List Name}
  {node node' : Node}

/-- Whatever names lead to, they still lead to it, and it is as it was unless the file is there or
    below. -/
theorem Rewritten.at? (h : Rewritten access now was trail node node')
    {names : List Name} {target : Node}
    (htarget : node.at? names = some target) :
    (∃ rest target', trail = names ++ rest ∧ node'.at? names = some target' ∧
      Rewritten access now was rest target target') ∨
    (¬ names <+: trail ∧ node'.at? names = some target) := by
  induction names generalizing trail node node' with
  | nil =>
    obtain rfl : node = target := Option.some.inj htarget
    exact .inl ⟨trail, node', rfl, rfl, h⟩
  | cons name names ih =>
    obtain ⟨child, hchild, hrest⟩ := at?_cons.mp htarget
    cases h with
    | content old => cases hchild
    | made hnew =>
      have hne := ne_of_lookup hnew hchild
      refine .inr ⟨by simp [hne], at?_cons.mpr ⟨child, ?_, hrest⟩⟩
      exact (lookup_other hne).trans hchild
    | @entry _ _ before after first rest old new hnew hrewritten =>
      by_cases hname : name = first
      · subst hname
        obtain rfl : old = child := Option.some.inj ((lookup_middle hnew).symm.trans hchild)
        rcases ih hrewritten hrest with ⟨after, target', rfl, htarget', hbelow⟩ | ⟨hnot, htarget'⟩
        · exact .inl ⟨after, target', rfl, at?_cons.mpr ⟨new, lookup_middle hnew, htarget'⟩, hbelow⟩
        · refine .inr ⟨?_, at?_cons.mpr ⟨new, lookup_middle hnew, htarget'⟩⟩
          simpa [List.cons_prefix_cons] using hnot
      · refine .inr ⟨by simp [List.cons_prefix_cons, hname], at?_cons.mpr ⟨child, ?_, hrest⟩⟩
        exact (lookup_other hname).trans ((lookup_other hname).symm.trans hchild)

theorem Rewritten.eq_file (h : Rewritten access now was [] node node') :
    ∃ old, node = .file access old ∧ node' = .file access now := by
  cases h with
  | content old => exact ⟨old, rfl, rfl⟩

/-- A file that was made is found by its name. -/
theorem Rewritten.lookup_made {name : Name} (h : Rewritten access now was [name] node node')
    (hnone : node.entries.lookup name = none) :
    node'.entries.lookup name = some (.file access now) := by
  cases h with
  | made hnew => exact lookup_middle hnew
  | entry hnew _ =>
    rw [entries, lookup_middle hnew] at hnone
    cases hnone

/-! ## Changing a node -/

end Node

namespace FileTree

/-! ## Where a path leads -/

/-- The position is one that names lead to from the root. -/
inductive Position.At (root : Node) : Position → Prop where
  | ofRoot : Position.At root (.ofRoot root)
  | enter {p : Position} {name : Name} {node : Node} :
    Position.At root p → p.here.entries.lookup name = some node →
      Position.At root (p.enter name node)

namespace Position

variable {root : Node} {p : Position}

theorem names_enter (p : Position) (name : Name) (node : Node) :
    (p.enter name node).names = p.names ++ [name] := by
  simp [names, enter]

theorem At.parent (h : p.At root) : p.parent.At root := by
  cases h with
  | ofRoot => exact .ofRoot
  | enter h _ => exact h

/-- The names of a position lead to its node. -/
theorem At.at? (h : p.At root) : root.at? p.names = some p.here := by
  induction h with
  | ofRoot => rfl
  | enter h hnode ih =>
    rw [names_enter, Node.at?_concat, ih]
    exact hnode

theorem names_parent (p : Position) : p.parent.names = p.names.dropLast := by
  rw [parent]
  split
  · rename_i habove
    simp [names, habove]
  · rename_i habove
    simp [names, habove]

/-- The same names lead to the two positions in two trees. -/
structure Abreast (root root' : Node) (p p' : Position) : Prop where
  left : p.At root
  right : p'.At root'
  names : p'.names = p.names

section

variable {root' : Node} {p' : Position} {access : Access} {now : Bytes} {was : Option Bytes}
  {trail : List Name}

theorem Abreast.parent (h : Abreast root root' p p') : Abreast root root' p.parent p'.parent :=
  ⟨h.left.parent, h.right.parent, by rw [names_parent, names_parent, h.names]⟩

/-- What stands there is the same in both trees, unless the file is there or below. -/
theorem Abreast.here (h : Abreast root root' p p')
    (hroot : Node.Rewritten access now was trail root root') :
    (∃ rest, trail = p.names ++ rest ∧ Node.Rewritten access now was rest p.here p'.here) ∨
    (¬ p.names <+: trail ∧ p'.here = p.here) := by
  have hafter := h.right.at?
  rw [h.names] at hafter
  rcases hroot.at? h.left.at? with ⟨rest, target', htrail, htarget, hrewritten⟩ | ⟨hnot, htarget⟩
  · obtain rfl : p'.here = target' := Option.some.inj (hafter.symm.trans htarget)
    exact .inl ⟨rest, htrail, hrewritten⟩
  · exact .inr ⟨hnot, Option.some.inj (hafter.symm.trans htarget)⟩

/-- Both go down by the same name. -/
theorem Abreast.enter (h : Abreast root root' p p')
    (hroot : Node.Rewritten access now was trail root root')
    {name : Name} {node : Node} (hnode : p.here.entries.lookup name = some node) :
    ∃ node', p'.here.entries.lookup name = some node' ∧
      Abreast root root' (p.enter name node) (p'.enter name node') := by
  have hbefore : root.at? (p.names ++ [name]) = some node := by
    rw [Node.at?_concat, h.left.at?]
    exact hnode
  have hafter : root'.at? (p.names ++ [name]) = p'.here.entries.lookup name := by
    rw [Node.at?_concat, ← h.names, h.right.at?]
    rfl
  obtain ⟨node', hnode'⟩ : ∃ node', root'.at? (p.names ++ [name]) = some node' := by
    rcases hroot.at? hbefore with ⟨_, node', _, hnode', _⟩ | ⟨_, hnode'⟩
    · exact ⟨node', hnode'⟩
    · exact ⟨node, hnode'⟩
  rw [hafter] at hnode'
  exact ⟨node', hnode', h.left.enter hnode, h.right.enter hnode',
    by rw [names_enter, names_enter, h.names]⟩

/-- A directory before is one after, with the same access. -/
theorem Abreast.dir (h : Abreast root root' p p')
    (hroot : Node.Rewritten access now was trail root root') {dirAccess : Access}
    {entries : List (Name × Node)} (hdir : p.here = .dir dirAccess entries) :
    ∃ entries', p'.here = .dir dirAccess entries' := by
  rcases h.here hroot with ⟨rest, _, hrewritten⟩ | ⟨_, heq⟩
  · rw [hdir] at hrewritten
    generalize p'.here = node' at hrewritten
    cases hrewritten with
    | made _ => exact ⟨_, rfl⟩
    | entry _ _ => exact ⟨_, rfl⟩
  · exact ⟨entries, heq.trans hdir⟩

/-- The links are the same before and after. -/
theorem Abreast.link_iff (h : Abreast root root' p p')
    (hroot : Node.Rewritten access now was trail root root') (target : Path) :
    p'.here = .link target ↔ p.here = .link target := by
  rcases h.here hroot with ⟨rest, _, hrewritten⟩ | ⟨_, heq⟩
  · generalize p.here = node, p'.here = node' at hrewritten
    cases hrewritten <;> simp
  · rw [heq]

/-- Going down along the same names, both arrive. -/
theorem Abreast.descend? (h : Abreast root root' p p')
    (hroot : Node.Rewritten access now was trail root root') {names : List Name} {q : Position}
    (hq : p.descend? names = some q) :
    ∃ q', p'.descend? names = some q' ∧ Abreast root root' q q' := by
  induction names generalizing p p' with
  | nil =>
    obtain rfl : p = q := Option.some.inj hq
    exact ⟨p', rfl, h⟩
  | cons name names ih =>
    rw [Position.descend?] at hq
    split at hq
    · rename_i dirAccess entries hdir
      obtain ⟨node, hnode, hq⟩ := Option.bind_eq_some_iff.mp hq
      obtain ⟨entries', hdir'⟩ := h.dir hroot hdir
      have hlookup : p.here.entries.lookup name = some node := by rwa [hdir]
      obtain ⟨node', hnode', henter⟩ := h.enter hroot hlookup
      rw [hdir'] at hnode'
      obtain ⟨q', hq', habreast⟩ := ih henter hq
      refine ⟨q', ?_, habreast⟩
      simp only [Position.descend?, hdir']
      exact Option.bind_eq_some_iff.mpr ⟨node', hnode', hq'⟩
    · cases hq

end

end Position

/-! ## Following the same path again -/

/-- The names that lead to the file that a path leads to, also if it is still to be made. -/
def Place.trail? : Place → Option (List Name)
  | .found p => some p.names
  | .slashed _ => none
  | .missing dir name slash => if slash then none else some (dir.names ++ [name])

/-- What following segments came to before the file was written, and what it comes to now. Where
    the way met a link it meets the link again, and where it ended at the file, it finds it. -/
def Progress.Again (root root' : Node) (trail : List Name) (file : Node) :
    Progress → Progress → Prop
  | .link p target rest, after =>
    ∃ p', after = .link p' target rest ∧ Position.Abreast root root' p p'
  | .stopped (.ok place), after =>
    place.trail? = some trail →
      ∃ p, after = .stopped (.ok (.found p)) ∧ p.names = trail ∧ p.here = file
  | .stopped (.error _), _ => True

/-! ## Looking up one name -/

/-- Nothing is looked up in what is no directory, or in one that may not be searched. -/
theorem advance_of_closed {p : Position}
    (h : ¬ ∃ access entries, p.here = .dir access entries ∧ access.search = true)
    (follow slash : Bool) (segment : Name) (rest : List Name) :
    ∃ fault, advance follow slash p (segment :: rest) = .stopped (.error fault) := by
  rw [advance]
  cases hhere : p.here with
  | dir access entries =>
    have hsearch : access.search = false := by
      rw [← Bool.not_eq_true]
      exact fun hsearch => h ⟨access, entries, hhere, hsearch⟩
    exact ⟨_, by simp only [hsearch]; rfl⟩
  | _ => exact ⟨_, rfl⟩

/-- The segment is looked up in a directory that may be searched, and neither stands for a directory
    nor is too long. -/
structure LooksUp (p : Position) (segment : Name) : Prop where
  isOpen : ∃ access entries, p.here = .dir access entries ∧ access.search = true
  ne_dot : segment ≠ Path.dot
  ne_dotDot : segment ≠ Path.dotDot
  le_maxName : ¬ maxName < segment.length

namespace LooksUp

variable {p : Position} {segment : Name} {node : Node}

/-- Where nothing has the name, the path ends, or leads to a place for something new. -/
theorem advance_missing (h : LooksUp p segment) (hnone : p.here.entries.lookup segment = none)
    (slash : Bool) (rest : List Name) :
    advance true slash p (segment :: rest) =
      .stopped (if rest.isEmpty then .ok (.missing p segment slash) else .error .notFound) := by
  obtain ⟨access, entries, hhere, hsearch⟩ := h.isOpen
  have hlookup : entries.lookup segment = none := by rwa [hhere] at hnone
  simp [advance, hhere, hsearch, h.ne_dot, h.ne_dotDot, h.le_maxName, hlookup]

theorem advance_link (h : LooksUp p segment) {target : Path}
    (hlink : p.here.entries.lookup segment = some (.link target)) (slash : Bool)
    (rest : List Name) :
    advance true slash p (segment :: rest) = .link p target rest := by
  obtain ⟨access, entries, hhere, hsearch⟩ := h.isOpen
  have hlookup : entries.lookup segment = some (.link target) := by rwa [hhere] at hlink
  simp [advance, hhere, hsearch, h.ne_dot, h.ne_dotDot, h.le_maxName, hlookup]

theorem advance_entry (h : LooksUp p segment)
    (hentry : p.here.entries.lookup segment = some node) (hnode : ∀ target, node ≠ .link target)
    (slash : Bool) (rest : List Name) :
    advance true slash p (segment :: rest) = advance true slash (p.enter segment node) rest := by
  obtain ⟨access, entries, hhere, hsearch⟩ := h.isOpen
  have hlookup : entries.lookup segment = some node := by rwa [hhere] at hentry
  simp [advance, hhere, hsearch, h.ne_dot, h.ne_dotDot, h.le_maxName, hlookup]

end LooksUp

/-! ## Taking the same way -/

section

variable {root root' : Node} {access : Access} {now : Bytes} {was : Option Bytes}
  {trail : List Name} (hroot : Node.Rewritten access now was trail root root')

include hroot

theorem advance_nil_again {p p' : Position} (h : Position.Abreast root root' p p') (slash : Bool) :
    Progress.Again root root' trail (.file access now) (advance true slash p [])
      (advance true slash p' []) := by
  rw [advance, advance]
  split
  · intro htrail
    cases htrail
  · rename_i hslash
    intro htrail
    obtain rfl : p.names = trail := Option.some.inj htrail
    rcases h.here hroot with ⟨rest, hrest, hrewritten⟩ | ⟨hnot, _⟩
    · obtain rfl : rest = [] := by simpa using hrest
      obtain ⟨old, hhere, hhere'⟩ := hrewritten.eq_file
      refine ⟨p', ?_, h.names, hhere'⟩
      have hplain : slash = false := by simpa [hhere, Node.isDir] using hslash
      simp [hplain]
    · exact absurd (List.prefix_refl _) hnot

/-- Where the file was missing, it is now found. -/
theorem advance_missing_again {p p' : Position} (h : Position.Abreast root root' p p')
    {segment : Name} (hlooks : LooksUp p' segment)
    (hnone : p.here.entries.lookup segment = none) (slash : Bool) :
    Progress.Again root root' trail (.file access now) (.stopped (.ok (.missing p segment slash)))
      (advance true slash p' [segment]) := by
  intro htrail
  cases slash with
  | true => cases htrail
  | false =>
    obtain rfl : p.names ++ [segment] = trail := Option.some.inj htrail
    rcases h.here hroot with ⟨rest, hrest, hrewritten⟩ | ⟨hnot, _⟩
    · obtain rfl : rest = [segment] := (List.append_cancel_left hrest).symm
      refine ⟨p'.enter segment (.file access now), ?_, ?_, rfl⟩
      · rw [hlooks.advance_entry (hrewritten.lookup_made hnone) nofun]
        rfl
      · rw [Position.names_enter, h.names]
    · exact absurd (List.prefix_append _ _) hnot

/-- Whatever has the name, both look it up and come to the same, if going on from there does. -/
theorem advance_lookup_again {p p' : Position} (h : Position.Abreast root root' p p')
    {segment : Name} (hlooks : LooksUp p segment) (hlooks' : LooksUp p' segment) (slash : Bool)
    {rest : List Name}
    (hrest : ∀ {q q' : Position}, Position.Abreast root root' q q' →
      Progress.Again root root' trail (.file access now) (advance true slash q rest)
        (advance true slash q' rest)) :
    Progress.Again root root' trail (.file access now) (advance true slash p (segment :: rest))
      (advance true slash p' (segment :: rest)) := by
  cases hentry : p.here.entries.lookup segment with
  | none =>
    rw [hlooks.advance_missing hentry]
    cases rest with
    | nil => exact advance_missing_again hroot h hlooks' hentry slash
    | cons next rest => trivial
  | some node =>
    obtain ⟨node', hentry', henter⟩ := h.enter hroot hentry
    have hlink := henter.link_iff hroot
    by_cases hnode : ∃ target, node = .link target
    · obtain ⟨target, rfl⟩ := hnode
      obtain rfl : node' = .link target := (hlink target).mpr rfl
      rw [hlooks.advance_link hentry, hlooks'.advance_link hentry']
      exact ⟨p', rfl, h⟩
    · have hnode' : ∀ target, node' ≠ .link target := fun target heq =>
        hnode ⟨target, (hlink target).mp heq⟩
      rw [hlooks.advance_entry hentry (not_exists.mp hnode),
        hlooks'.advance_entry hentry' hnode']
      exact hrest henter

/-- By induction over the segments: after the write a path gets as far as before, and at the end of
    the trail it finds the file. -/
theorem advance_again {p p' : Position} (h : Position.Abreast root root' p p') (slash : Bool)
    (segments : List Name) :
    Progress.Again root root' trail (.file access now) (advance true slash p segments)
      (advance true slash p' segments) := by
  induction segments generalizing p p' with
  | nil => exact advance_nil_again hroot h slash
  | cons segment rest ih =>
    by_cases hdir : ∃ dirAccess entries, p.here = .dir dirAccess entries ∧ dirAccess.search = true
    · obtain ⟨dirAccess, entries, hhere, hsearch⟩ := hdir
      obtain ⟨entries', hhere'⟩ := h.dir hroot hhere
      by_cases hdot : segment = Path.dot
      · simp only [advance, hhere, hhere', hsearch, if_pos hdot]
        exact ih h
      by_cases hdotDot : segment = Path.dotDot
      · simp only [advance, hhere, hhere', hsearch, if_neg hdot, if_pos hdotDot]
        exact ih h.parent
      by_cases hlong : maxName < segment.length
      · simp only [advance, hhere, hsearch, if_neg hdot, if_neg hdotDot, if_pos hlong]
        trivial
      exact advance_lookup_again hroot h ⟨⟨_, _, hhere, hsearch⟩, hdot, hdotDot, hlong⟩
        ⟨⟨_, _, hhere', hsearch⟩, hdot, hdotDot, hlong⟩ slash ih
    · obtain ⟨fault, hfault⟩ := advance_of_closed hdir true slash segment rest
      rw [hfault]
      trivial

/-- The same over links, by induction on how many are left. -/
theorem followLinks_again {p p' : Position} (h : Position.Abreast root root' p p') (links : Nat)
    {slash : Bool} {segments : List Name} {place : Place}
    (hplace : followLinks root true links slash p segments = .ok place)
    (htrail : place.trail? = some trail) :
    ∃ q, followLinks root' true links slash p' segments = .ok (.found q) ∧ q.names = trail ∧
      q.here = .file access now := by
  induction links using Nat.strongRecOn generalizing p p' slash segments with
  | ind links ih =>
    have hagain := advance_again hroot h slash segments
    rcases followLinks_eq_ok_iff.mp hplace with hstop |
      ⟨n, link, target, rest, rfl, hlink, hne, hnext⟩
    · rw [hstop] at hagain
      obtain ⟨q, hq, hnames, hfile⟩ := hagain htrail
      exact ⟨q, followLinks_eq_ok_iff.mpr (.inl hq), hnames, hfile⟩
    · rw [hlink] at hagain
      obtain ⟨link', hlink', habreast⟩ := hagain
      have hstart : Position.Abreast root root' (if target.isAbsolute then .ofRoot root else link)
          (if target.isAbsolute then .ofRoot root' else link') := by
        split
        · exact ⟨.ofRoot, .ofRoot, rfl⟩
        · exact habreast
      obtain ⟨q, hq, hfound⟩ := ih n (Nat.lt_succ_self n) hstart hnext
      exact ⟨q, followLinks_eq_ok_iff.mpr (.inr ⟨n, link', target, rest, rfl, hlink', hne, hq⟩),
        hfound⟩

end

/-! ## Writing through a path -/

/-- A path starts where it started. -/
theorem start?_again {tree : FileTree} {root' : Node} {access : Access} {now : Bytes}
    {was : Option Bytes} {trail : List Name}
    (hroot : Node.Rewritten access now was trail tree.root root') {path : Path} {start : Position}
    (hstart : tree.start? path = some start) :
    ∃ start', ({ tree with root := root' } : FileTree).start? path = some start' ∧
      Position.Abreast tree.root root' start start' := by
  have hofRoot : Position.Abreast tree.root root' (.ofRoot tree.root) (.ofRoot root') :=
    ⟨.ofRoot, .ofRoot, rfl⟩
  unfold start? at hstart ⊢
  split at hstart
  · rename_i habs
    cases hstart
    exact ⟨_, if_pos habs, hofRoot⟩
  · rename_i habs
    obtain ⟨start', hstart', habreast⟩ := hofRoot.descend? hroot hstart
    exact ⟨start', (if_neg habs).trans hstart', habreast⟩

/-- A path that led to the file, or to where it was missing, leads to it afterwards. -/
theorem resolve_again {tree : FileTree} {root' : Node} {access : Access} {now : Bytes}
    {was : Option Bytes} {trail : List Name}
    (hroot : Node.Rewritten access now was trail tree.root root') {path : Path} {place : Place}
    (hplace : tree.resolve path true = .ok place)
    (htrail : place.trail? = some trail) :
    ∃ q, ({ tree with root := root' } : FileTree).resolve path true = .ok (.found q) ∧
      q.names = trail ∧ q.here = .file access now := by
  obtain ⟨_, start, hstart, hresult⟩ := resolve_eq_ok hplace
  obtain ⟨start', hstart', habreast⟩ := start?_again hroot hstart
  obtain ⟨q, hfollow, hnames, hfile⟩ := followLinks_again hroot habreast maxLinks hresult htrail
  refine ⟨q, ?_, hnames, hfile⟩
  rw [resolve] at hplace ⊢
  split at hplace
  · cases hplace
  rename_i hzero
  split at hplace
  · cases hplace
  rename_i hempty
  split at hplace
  · cases hplace
  rename_i hlong
  rw [if_neg hzero, if_neg hempty, if_neg hlong, hstart']
  exact hfollow

/-- The two trees are the same but for the file that the path leads to, which the names in `trail`
    lead to from the root. -/
structure Overwrites (tree : FileTree) (path : Path) (trail : List Name) (access : Access)
    (was : Option Bytes) (now : Bytes) (after : FileTree) : Prop where
  leads : ∃ place, tree.resolve path true = .ok place ∧ place.trail? = some trail
  cwd : after.cwd = tree.cwd
  root : Node.Rewritten access now was trail tree.root after.root

/-- Something that what is written at a path goes into: a file that may be written, the place of a
    missing file in a directory that may be written, or a device that takes it. -/
inductive Takes (tree : FileTree) (path : Path) : Prop where
  | file {access : Access} {old : Bytes} :
    tree.node path true = .ok (.file access old) → access.write = true → Takes tree path
  | place {dir : Position} {name : Name} :
    tree.resolve path true = .ok (.missing dir name false) → dir.here.access.write = true →
    Takes tree path
  | device {d : Device} :
    tree.node path true = .ok (.device d) → d.onWrite = .ok () → Takes tree path

/-- The path leads to the file afterwards, at the same place. -/
theorem Overwrites.found {tree after : FileTree} {path : Path} {trail : List Name}
    {access : Access} {was : Option Bytes} {now : Bytes}
    (h : tree.Overwrites path trail access was now after) :
    ∃ p, after.resolve path true = .ok (.found p) ∧ p.names = trail ∧
      p.here = .file access now := by
  obtain ⟨place, hresolve, htrail⟩ := h.leads
  have hagain := resolve_again h.root hresolve htrail
  rwa [← h.cwd] at hagain

end FileTree

end DocLint
