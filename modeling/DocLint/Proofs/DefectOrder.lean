-- SUMMARY: The order of defects: total on places, whatever the spelling of their files, and kept by sorting.
import DocLint.Proofs.Spelling

/-! # The order of defects

Defects are compared by the components of their files and then by their lines. So two defects are
equal exactly if they are the same place, however the file is spelled, and all laws of the order
come from those of lists, components and numbers. Sorting puts equal defects side by side, in the
order in which they came.
-/

namespace DocLint

/-- The order of lists is lexicographic. -/
theorem compare_eq_lt_iff_lex {α : Type} [Ord α] [Std.LawfulEqOrd α] {r : α → α → Prop}
    (hr : ∀ a b, compare a b = .lt ↔ r a b) (l m : List α) :
    compare l m = .lt ↔ List.Lex r l m := by
  induction l generalizing m with
  | nil => cases m <;> simp
  | cons x l ih =>
    cases m with
    | nil => simp
    | cons y m =>
      rw [List.compare_cons_cons, List.cons_lex_cons_iff, ← ih, ← hr, Ordering.then_eq_lt,
        Std.LawfulEqOrd.compare_eq_iff_eq]

/-! ## Components -/

namespace Path.Component

/-- The first component comes before the second one: it is of an earlier kind, or both are names
    and its bytes come first. -/
inductive Before : Component → Component → Prop where
  | kind {a b : Component} : a.rank < b.rank → Before a b
  | name {a b : Name} : List.Lex (· < ·) a b → Before (.name a) (.name b)

theorem eq_or_name_of_rank {a b : Component} (h : a.rank = b.rank) :
    a = b ∨ ∃ x y, a = .name x ∧ b = .name y := by
  cases a <;> cases b <;> simp_all [rank]

instance : Std.LawfulEqOrd Component where
  eq_of_compare {a b} h := by
    rw [compare_eq_lex, Ordering.then_eq_eq, Std.LawfulEqOrd.compare_eq_iff_eq,
      Std.LawfulEqOrd.compare_eq_iff_eq] at h
    rcases eq_or_name_of_rank h.1 with heq | ⟨x, y, rfl, rfl⟩
    · exact heq
    · exact congrArg name h.2

theorem compare_eq_lt_iff (a b : Component) : compare a b = .lt ↔ a.Before b := by
  have hnames (x y : Name) : compare x y = .lt ↔ List.Lex (· < ·) x y :=
    compare_eq_lt_iff_lex (fun _ _ => Std.compare_eq_lt) x y
  rw [compare_eq_lex, Ordering.then_eq_lt, Nat.compare_eq_lt, Nat.compare_eq_eq]
  constructor
  · rintro (hrank | ⟨hrank, hsegment⟩)
    · exact .kind hrank
    · -- of the same kind only names come one before the other
      rcases eq_or_name_of_rank hrank with rfl | ⟨x, y, rfl, rfl⟩
      · rw [Std.ReflOrd.compare_self] at hsegment
        cases hsegment
      · exact .name ((hnames x y).mp hsegment)
  · intro h
    cases h with
    | kind hrank => exact .inl hrank
    | name hlex => exact .inr ⟨rfl, (hnames _ _).mpr hlex⟩

end Path.Component

/-! ## Places -/

namespace Defect

variable {a b : Defect}

theorem equiv_iff :
    a.equiv b = true ↔ a.file.components = b.file.components ∧ a.line = b.line := by
  simp [equiv, Path.equiv]

/-- Defects compare equal if they are in the same place, however that is spelled. -/
theorem compare_eq_eq_iff :
    a.compare b = .eq ↔ a.file.components = b.file.components ∧ a.line = b.line := by
  rw [Defect.compare, Path.compare, Ordering.then_eq_eq, Std.LawfulEqOrd.compare_eq_iff_eq,
    Std.LawfulEqOrd.compare_eq_iff_eq]

theorem equiv_iff_compare : a.equiv b = true ↔ a.compare b = .eq :=
  equiv_iff.trans compare_eq_eq_iff.symm

theorem compare_eq_lt_iff :
    a.compare b = .lt ↔
      List.Lex Path.Component.Before a.file.components b.file.components ∨
        a.file.components = b.file.components ∧ a.line < b.line := by
  rw [Defect.compare, Path.compare, Ordering.then_eq_lt, Nat.compare_eq_lt,
    Std.LawfulEqOrd.compare_eq_iff_eq,
    compare_eq_lt_iff_lex Path.Component.compare_eq_lt_iff]

instance : Std.TransCmp Defect.compare :=
  inferInstanceAs (Std.TransCmp
    (compareLex (compareOn fun d : Defect => d.file.components) (compareOn Defect.line)))

/-! ## Sorting -/

theorem sort_perm (defects : List Defect) : (sort defects).Perm defects :=
  List.mergeSort_perm defects _

theorem isLE_trans (a b c : Defect) (hab : (a.compare b).isLE = true)
    (hbc : (b.compare c).isLE = true) : (a.compare c).isLE = true :=
  Std.TransCmp.isLE_trans hab hbc

theorem compare_swap (a b : Defect) : b.compare a = (a.compare b).swap :=
  Std.OrientedCmp.eq_swap

theorem isLE_total (a b : Defect) : ((a.compare b).isLE || (b.compare a).isLE) = true := by
  rw [compare_swap a b]
  cases a.compare b <;> rfl

/-- After sorting no defect comes before one that is less. -/
theorem sort_sorted (defects : List Defect) :
    (sort defects).Pairwise fun a b => (a.compare b).isLE = true :=
  List.pairwise_mergeSort isLE_trans isLE_total defects

/-- Defects that are the same place stay in their order. -/
theorem filter_sort (d : Defect) (defects : List Defect) :
    (sort defects).filter d.equiv = defects.filter d.equiv := by
  have hsame : (defects.filter d.equiv).Pairwise fun a b => (a.compare b).isLE = true := by
    apply List.pairwise_of_forall_mem_list
    intro a ha b hb
    have hda : d.compare a = .eq := equiv_iff_compare.mp (List.mem_filter.mp ha).2
    have hdb : d.compare b = .eq := equiv_iff_compare.mp (List.mem_filter.mp hb).2
    have hab : a.compare b = .eq := Std.TransCmp.eq_trans (Std.OrientedCmp.eq_symm hda) hdb
    rw [hab]
    rfl
  have hkept : (defects.filter d.equiv).Sublist (sort defects) :=
    List.sublist_mergeSort isLE_trans isLE_total hsame List.filter_sublist
  have hfiltered := hkept.filter d.equiv
  rw [List.filter_filter] at hfiltered
  simp only [Bool.and_self] at hfiltered
  exact (hfiltered.eq_of_length ((sort_perm defects).filter d.equiv).length_eq.symm).symm

/-- A sorted list is cut in three by any defect: what comes before it, what is the same place, and
    what comes after it. -/
theorem eq_append_of_sorted (d : Defect) {defects : List Defect}
    (h : defects.Pairwise fun a b => (a.compare b).isLE = true) :
    defects = defects.filter (fun a => d.compare a = .gt) ++ (defects.filter d.equiv ++
      defects.filter fun a => d.compare a = .lt) := by
  induction defects with
  | nil => rfl
  | cons x defects ih =>
    obtain ⟨hx, hsorted⟩ := List.pairwise_cons.mp h
    have hrest := ih hsorted
    have hequiv (a : Defect) : d.equiv a = decide (d.compare a = .eq) := by
      rw [Bool.eq_iff_iff, equiv_iff_compare, decide_eq_true_eq]
    simp only [funext hequiv] at hrest ⊢
    have hbefore (hle : (d.compare x).isLE = true) :
        defects.filter (fun a => d.compare a = .gt) = [] := by
      rw [List.filter_eq_nil_iff]
      intro b hb
      rw [decide_eq_true_eq, ← Ordering.isLE_iff_ne_gt]
      exact isLE_trans d x b hle (hx b hb)
    cases hd : d.compare x with
    | gt => simpa [hd] using hrest
    | eq => simpa [hd, hbefore (hd ▸ rfl)] using hrest
    | lt =>
      have hsame : defects.filter (fun a => d.compare a = .eq) = [] := by
        rw [List.filter_eq_nil_iff]
        intro b hb
        rw [Std.TransCmp.lt_of_lt_of_isLE hd (hx b hb)]
        decide
      simpa [hd, hbefore (hd ▸ rfl), hsame] using hrest

/-- Sorting leaves the defects that are one place side by side and in their order, between those
    that come before that place and those that come after it. -/
theorem exists_sort_eq (d : Defect) (defects : List Defect) :
    ∃ before after, sort defects = before ++ defects.filter d.equiv ++ after ∧
      (∀ a ∈ before, a.compare d = .lt) ∧ ∀ a ∈ after, d.compare a = .lt := by
  refine ⟨(sort defects).filter (fun a => d.compare a = .gt),
    (sort defects).filter (fun a => d.compare a = .lt), ?_, ?_, ?_⟩
  · rw [← filter_sort, List.append_assoc]
    exact eq_append_of_sorted d (sort_sorted defects)
  · intro a ha
    exact Std.OrientedCmp.gt_iff_lt.mp (of_decide_eq_true (List.mem_filter.mp ha).2)
  · intro a ha
    exact of_decide_eq_true (List.mem_filter.mp ha).2

/-! ## The laws -/

/-- Defects are equal exactly if neither comes before the other, which is if they are on the same
    line of files with the same components, however these are spelled. Their order is total and
    transitive: by components, where a path comes before those that extend it, and then by line.
    Sorting is a stable permutation, and all defects that are one place stand side by side in it. -/
theorem compare_lawful :
    (∀ a b : Defect,
      (a.equiv b = true ↔ a.compare b = .eq) ∧
      (a.compare b = .eq ↔ a.file.components = b.file.components ∧ a.line = b.line) ∧
      (a.file.components = b.file.components ↔ a.file.Respells b.file) ∧
      (a.compare b = .lt ↔
        List.Lex Path.Component.Before a.file.components b.file.components ∨
          a.file.components = b.file.components ∧ a.line < b.line) ∧
      b.compare a = (a.compare b).swap) ∧
    (∀ (a b c : Defect), (a.compare b).isLE = true → (b.compare c).isLE = true →
      (a.compare c).isLE = true) ∧
    ∀ defects : List Defect,
      (sort defects).Perm defects ∧
      (sort defects).Pairwise (fun a b => a.compare b ≠ .gt) ∧
      ∀ d, ∃ before after, sort defects = before ++ defects.filter d.equiv ++ after ∧
        (∀ a ∈ before, a.compare d = .lt) ∧ ∀ a ∈ after, d.compare a = .lt := by
  refine ⟨?_, isLE_trans, ?_⟩
  · intro a b
    exact ⟨equiv_iff_compare, compare_eq_eq_iff, Path.components_eq_iff_respells,
      compare_eq_lt_iff, compare_swap a b⟩
  · intro defects
    refine ⟨sort_perm defects, ?_, fun d => exists_sort_eq d defects⟩
    exact (sort_sorted defects).imp Ordering.isLE_iff_ne_gt.mp

/-- Two spellings of one file, and a file that comes after them by components, though as a text it
    would come first. -/
theorem compare_lawful_spellings :
    let a : Defect := ⟨⟨[47, 97, 47, 47, 120]⟩, 2⟩
    let b : Defect := ⟨⟨[47, 97, 47, 46, 47, 120, 47]⟩, 2⟩
    let c : Defect := ⟨⟨[47, 97, 45, 120]⟩, 1⟩
    ((a.compare b).isLE = true ∧ (b.compare c).isLE = true) ∧ (a.compare c).isLE = true ∧
      a.compare b = .eq ∧ a.file.Respells b.file ∧ a ≠ b := by
  intro a b c
  have hab : (a.compare b).isLE = true := by decide
  have hbc : (b.compare c).isLE = true := by decide
  have hsame : a.file.components = b.file.components := by decide
  obtain ⟨hpair, htrans, _⟩ := compare_lawful
  obtain ⟨_, heq, hspelled, _⟩ := hpair a b
  exact ⟨⟨hab, hbc⟩, htrans a b c hab hbc, heq.mpr ⟨hsame, rfl⟩, hspelled.mp hsame, by decide⟩

end Defect

end DocLint
