-- SUMMARY: Paths with the same components differ only by slashes and dots that mean nothing.
import DocLint.Proofs.Paths
import Mathlib.Logic.Relation

/-! # Spellings of a path

One list of components can be written in many ways. What may be left out of a path without a
change of its components is said here on the bytes: a slash after another one or at the end, and a
dot between slashes or after the last one. Whatever path one starts from, leaving out all of that
ends at the shortest spelling of its components. So two paths have the same components exactly if
they can be shortened to the same bytes.
-/

namespace DocLint.Path

/-- The second path is the first one with one slash or dot left out that is no component. A dot
    that a path starts with is one, and stays. -/
inductive Drops : Bytes → Bytes → Prop where
  | slash (before after : Bytes) :
    Drops (before ++ Path.slash :: Path.slash :: after) (before ++ Path.slash :: after)
  | dot (before after : Bytes) :
    Drops (before ++ Path.slash :: (Path.dot ++ Path.slash :: after))
      (before ++ Path.slash :: after)
  | lastDot (before : Bytes) : Drops (before ++ Path.slash :: Path.dot) (before ++ [Path.slash])
  | lastSlash {before : Bytes} : before ≠ [] → Drops (before ++ [Path.slash]) before

/-- Leaving out slashes and dots that are no components can make both paths the same. -/
def Respells (p q : Path) : Prop :=
  ∃ short, Relation.ReflTransGen Drops p.bytes short ∧ Relation.ReflTransGen Drops q.bytes short

/-! ## What is left out is no component -/

/-- The components of two parts with a slash between them. -/
theorem components_append_slash (before after : Bytes) :
    components ⟨before ++ slash :: after⟩ =
      (if before = [] then [.root] else components ⟨before⟩) ++
        (after.splitOn slash).filterMap Component.ofSegment? := by
  cases before with
  | nil => exact components_of_absolute (p := ⟨slash :: after⟩) rfl
  | cons b before =>
    have habs : isAbsolute ⟨(b :: before) ++ slash :: after⟩ = isAbsolute ⟨b :: before⟩ := rfl
    rw [if_neg (List.cons_ne_nil b before), components, components, habs,
      List.splitOn_append_cons_self]
    cases hsplit : (b :: before).splitOn slash with
    | nil => exact absurd hsplit (List.splitOn_ne_nil slash _)
    | cons first rest =>
      simp only [List.cons_append, List.filterMap_append]
      split
      · rfl
      · split <;> simp

/-- Dropping a slash or a dot that says nothing leaves the components alone. -/
theorem components_eq_of_drops {a b : Bytes} (h : Drops a b) :
    components ⟨a⟩ = components ⟨b⟩ := by
  cases h with
  | slash before after =>
    rw [components_append_slash, components_append_slash]
    rfl
  | dot before after =>
    rw [components_append_slash, components_append_slash, List.splitOn_append_cons_self]
    rfl
  | lastDot before =>
    rw [components_append_slash, components_append_slash]
    rfl
  | lastSlash hne =>
    rw [components_append_slash, if_neg hne]
    exact List.append_nil _

theorem components_eq_of_shortened {a b : Bytes} (h : Relation.ReflTransGen Drops a b) :
    components ⟨a⟩ = components ⟨b⟩ := by
  induction h with
  | refl => rfl
  | tail _ hdrop ih => exact ih.trans (components_eq_of_drops hdrop)

/-! ## The shortest spelling -/

/-- Segments with a slash before each. -/
def chain (segments : List Name) : Bytes :=
  segments.flatMap (slash :: ·)

/-- The shortest path with the given components. -/
def spell : List Component → Bytes
  | [] => []
  | [.root] => [slash]
  | first :: rest => first.segment ++ chain (rest.map Component.segment)

/-- A segment says nothing, or it is a component that is written that way. -/
theorem Component.ofSegment?_cases (segment : Name) :
    (segment = [] ∨ segment = dot) ∧ ofSegment? segment = none ∨
      ∃ c, ofSegment? segment = some c ∧ c.segment = segment ∧ c ≠ .root := by
  by_cases hnone : segment = [] ∨ segment = dot
  · exact .inl ⟨hnone, if_pos hnone⟩
  · refine .inr ?_
    unfold ofSegment?
    rw [if_neg hnone]
    split
    · rename_i hparent
      exact ⟨.parent, rfl, hparent.symm, by simp⟩
    · exact ⟨.name segment, rfl, rfl, by simp⟩

/-- A segment that is no component is left out, if there is another one after it. -/
theorem drops_segment {segment : Name} (h : segment = [] ∨ segment = dot) (before : Bytes)
    (next : Name) (rest : List Name) :
    Drops (before ++ chain (segment :: next :: rest)) (before ++ chain (next :: rest)) := by
  rcases h with rfl | rfl
  · exact .slash before (next ++ chain rest)
  · have := Drops.dot before (next ++ chain rest)
    simpa [chain] using this

/-- Of what comes after a name, only components are left. -/
theorem shortens_chain {before : Bytes} (hne : before ≠ []) (segments : List Name) :
    Relation.ReflTransGen Drops (before ++ chain segments)
      (before ++ chain ((segments.filterMap Component.ofSegment?).map Component.segment)) := by
  induction segments generalizing before with
  | nil => exact .refl
  | cons segment rest ih =>
    rcases Component.ofSegment?_cases segment with ⟨hnone, heq⟩ | ⟨c, heq, hsegment, _⟩
    · rw [List.filterMap_cons_none heq]
      refine .trans ?_ (ih hne)
      cases rest with
      | cons next rest => exact .single (drops_segment hnone before next rest)
      | nil =>
        -- a last dot goes first, and then the slash before it
        have hslash : Relation.ReflTransGen Drops (before ++ [slash]) (before ++ chain []) := by
          rw [chain, List.flatMap_nil, List.append_nil]
          exact .single (.lastSlash hne)
        rcases hnone with rfl | rfl
        · exact hslash
        · exact .head (.lastDot before) hslash
    · rw [List.filterMap_cons_some heq, List.map_cons, hsegment]
      have hrest : Relation.ReflTransGen Drops ((before ++ slash :: segment) ++ chain rest) _ :=
        ih (by simp)
      simpa [chain] using hrest

/-- The same for what comes after the first slash of an absolute path, which itself stays. -/
theorem shortens_root {segments : List Name} (hne : segments ≠ []) :
    Relation.ReflTransGen Drops (chain segments)
      (spell (.root :: segments.filterMap Component.ofSegment?)) := by
  induction segments with
  | nil => exact absurd rfl hne
  | cons first rest ih =>
    rcases Component.ofSegment?_cases first with ⟨hnone, heq⟩ | ⟨c, heq, hsegment, _⟩
    · rw [List.filterMap_cons_none heq]
      cases rest with
      | cons next rest =>
        exact .head (drops_segment hnone [] next rest) (ih (List.cons_ne_nil next rest))
      | nil =>
        rcases hnone with rfl | rfl
        · exact .refl
        · exact .single (.lastDot [])
    · have hrest := shortens_chain (List.cons_ne_nil slash first) rest
      have hspell (cs : List Component) :
          spell (.root :: c :: cs) = (slash :: first) ++ chain (cs.map Component.segment) := by
        rw [← hsegment]
        rfl
      rw [List.filterMap_cons_some heq, hspell]
      exact hrest

theorem intercalate_eq_chain (first : Name) (rest : List Name) :
    [slash].intercalate (first :: rest) = first ++ chain rest := by
  induction rest generalizing first with
  | nil => simp [chain]
  | cons next rest ih => simp [List.intercalate_cons_cons, ih, chain]

/-- Components are written one after another, with slashes between them. -/
theorem spell_cons {first : Component} (h : first ≠ .root) (rest : List Component) :
    spell (first :: rest) = first.segment ++ chain (rest.map Component.segment) := by
  cases first with
  | root => exact absurd rfl h
  | current => rfl
  | parent => rfl
  | name bytes => rfl

/-- The components of a relative path start with what its first segment is. -/
theorem components_of_relative {p : Path} {first : Name} {rest : List Name}
    (hsplit : p.bytes.splitOn slash = first :: rest) (hne : first ≠ []) :
    ∃ c, p.components = c :: rest.filterMap Component.ofSegment? ∧ c.segment = first ∧
      c ≠ .root := by
  have habs : p.isAbsolute = false := by
    rw [Bool.eq_false_iff]
    intro habs
    obtain ⟨tail, hbytes⟩ := isAbsolute_iff.mp habs
    rw [hbytes, List.splitOn_cons_eq_if_modifyHead, if_pos BEq.rfl] at hsplit
    exact hne (List.cons.inj hsplit).1.symm
  unfold components
  rw [hsplit, habs]
  by_cases hdot : first = dot
  · exact ⟨.current, by simp [hdot], hdot.symm, by simp⟩
  · rcases Component.ofSegment?_cases first with ⟨hnone, _⟩ | ⟨c, heq, hsegment, hroot⟩
    · exact absurd hnone (not_or.mpr ⟨hne, hdot⟩)
    · exact ⟨c, by simp [hdot, heq], hsegment, hroot⟩

/-- Every path can be shortened to the shortest one with its components. -/
theorem shortens_spell (p : Path) :
    Relation.ReflTransGen Drops p.bytes (spell p.components) := by
  cases hsplit : p.bytes.splitOn slash with
  | nil => exact absurd hsplit (List.splitOn_ne_nil slash p.bytes)
  | cons first rest =>
    have hbytes : p.bytes = first ++ chain rest := by
      rw [← intercalate_eq_chain, ← hsplit]
      exact (List.intercalate_splitOn slash).symm
    by_cases hfirst : first = []
    · subst hfirst
      cases rest with
      | nil =>
        obtain ⟨bytes⟩ := p
        obtain rfl : bytes = [] := hbytes
        exact .refl
      | cons next rest =>
        have habs : p.isAbsolute = true := isAbsolute_iff.mpr ⟨_, hbytes⟩
        rw [components_of_absolute habs, hsplit, hbytes]
        exact shortens_root (List.cons_ne_nil next rest)
    · obtain ⟨c, hcomponents, hsegment, hroot⟩ := components_of_relative hsplit hfirst
      rw [hcomponents, spell_cons hroot, hsegment, hbytes]
      exact shortens_chain hfirst rest

/-- Paths have the same components exactly if they are spellings of one path. -/
theorem components_eq_iff_respells {p q : Path} :
    p.components = q.components ↔ p.Respells q := by
  constructor
  · intro h
    exact ⟨spell p.components, shortens_spell p, h ▸ shortens_spell q⟩
  · rintro ⟨short, hp, hq⟩
    exact (components_eq_of_shortened hp).trans (components_eq_of_shortened hq).symm

end DocLint.Path
