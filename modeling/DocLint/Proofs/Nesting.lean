-- SUMMARY: Globs of nested braces: all of them can be read, and from a certain depth on none of them can be in a set.
import DocLint.Glob.Lookup

/-! # Nested braces

Reading a glob has no limit on how deep braces nest, but its expression has one. So there are
globs that can be read and that no set can have.
-/

namespace DocLint.Glob

/-- A letter in the given number of braces, then something else. -/
def nestedChars (depth : Nat) (rest : List Char) : List Char :=
  match depth with
  | 0 => 'a' :: rest
  | depth + 1 => '\x7b' :: nestedChars depth ('\x7d' :: rest)

/-- A letter in the given number of braces. -/
def nestedPattern (depth : Nat) : String :=
  String.ofList (nestedChars depth [])

/-- What is read of it. -/
def nestedToken : Nat → Token
  | 0 => .literal 'a'
  | depth + 1 => .alternatives [[nestedToken depth]]

/-- The last character of it. -/
def nestedLast (depth : Nat) : Char :=
  if depth = 0 then 'a' else '\x7d'

/-- By induction on the depth: a nested group is read as one token. -/
theorem readTokens_nested (d : Dialect) (depth : Nat) (s : State) (rest : List Char) :
    readTokens d s (nestedChars depth rest) =
      readTokens d (s.push [nestedToken depth] (nestedLast depth)) rest := by
  induction depth generalizing s rest with
  | zero => simp [nestedChars, readTokens, nestedToken, nestedLast]
  | succ depth ih =>
    rw [nestedChars, readTokens, ih, readTokens]
    simp [State.openGroup, State.push, State.closeGroup, nestedToken, nestedLast]

theorem parse_nested (d : Dialect) (depth : Nat) :
    parse d (nestedPattern depth) = .ok ⟨nestedPattern depth, d, [nestedToken depth]⟩ := by
  have hread : readTokens d {} (nestedPattern depth).toList = .ok [nestedToken depth] := by
    rw [nestedPattern, String.toList_ofList, readTokens_nested, readTokens]
    rfl
  rw [parse, hread]

/-! ## Its expression -/

/-- The expression of nested braces. -/
def nestedExpression : Nat → Expression
  | 0 => .byte 97
  | depth + 1 => .group [[nestedExpression depth]]

theorem ofToken_nested (d : Dialect) (depth : Nat) :
    Expression.ofToken d (nestedToken depth) = [nestedExpression depth] := by
  induction depth with
  | zero => rfl
  | succ depth ih =>
    simp [nestedToken, Expression.ofToken, Expression.ofBranches, Expression.ofTokens, ih,
      nestedExpression]

/-- The expression nests as deep as the groups of the pattern. -/
theorem height_nested (depth : Nat) : (nestedExpression depth).height = depth := by
  induction depth with
  | zero => rfl
  | succ depth ih =>
    simp [nestedExpression, Expression.height, Expression.branchesHeight, Expression.itemsHeight,
      Expression.levelOfSeveral, ih, Nat.add_comm]

/-- So the depth alone decides whether a set can have it. -/
theorem isTooDeep_nested (pattern : String) (d : Dialect) (depth : Nat) :
    isTooDeep ⟨pattern, d, [nestedToken depth]⟩ = decide (maxHeight ≤ depth) := by
  have hexpression : expression ⟨pattern, d, [nestedToken depth]⟩ = [nestedExpression depth] := by
    have htokens : Expression.ofTokens d [nestedToken depth] = [nestedExpression depth] := by
      simp [Expression.ofTokens, ofToken_nested]
    cases depth with
    | zero => exact htokens
    | succ depth => exact htokens
  rw [isTooDeep, hexpression, Expression.itemsHeight, Expression.itemsHeight, height_nested]
  simp [Nat.lt_one_add_iff]

/-- Braces that nest too deep make no set. -/
theorem setError?_nested {depth : Nat} (h : maxHeight ≤ depth) (pattern : String) (d : Dialect) :
    setError? [⟨pattern, d, [nestedToken depth]⟩] = some (.joint 0) := by
  have hdeep := isTooDeep_nested pattern d depth
  rw [decide_eq_true h] at hdeep
  have hlookup : lookup ⟨pattern, d, [nestedToken depth]⟩ = .expression := by
    cases depth with
    | zero => exact absurd h (by decide)
    | succ depth => rfl
  simp [setError?, hlookup, hdeep]

end DocLint.Glob
