-- SUMMARY: Reading glob patterns from left to right, with the first fault met as the error.
import DocLint.Glob.Basic

/-! # Reading globs

The reader keeps the alternatives that are open, innermost first, and the tokens of
the branch at hand in reverse. To judge `**` it also knows the character before it.
-/

namespace DocLint.Glob

-- ---------------------------------------------------------------------------
-- Character classes
-- ---------------------------------------------------------------------------

/-- The members of a class as they are read: the ranges in reverse, and whether the
    last of them is waiting for its upper end. -/
structure Members where
  ranges : List (Char × Char) := []
  pending : Bool := false

namespace Members

/-- Sets the upper end of the last range. -/
def close (m : Members) (hi : Char) : Except Fault Members :=
  match m.ranges with
  | [] => .ok m
  | (lo, _) :: rest =>
    if hi < lo then .error (.invalidRange lo hi) else .ok ⟨(lo, hi) :: rest, false⟩

/-- Adds a character that is no dash. -/
def add (m : Members) (c : Char) : Except Fault Members :=
  if m.pending then m.close c else .ok ⟨(c, c) :: m.ranges, false⟩

/-- Adds a dash: the upper end of a range that is open, else it opens the last range. -/
def dash (m : Members) : Except Fault Members :=
  if m.pending then m.close '-' else .ok { m with pending := true }

/-- The ranges in order. A range left open is followed by a dash that stands for itself. -/
def finish (m : Members) : List (Char × Char) :=
  (if m.pending then ('-', '-') :: m.ranges else m.ranges).reverse

end Members

/-- Reads the members of a class after the first one, and the bracket that closes it. -/
def readMembers (m : Members) : List Char → Except Fault (List (Char × Char) × List Char)
  | [] => .error .unclosedClass
  | c :: rest =>
    if c = ']' then .ok (m.finish, rest)
    else
      match if c = '-' then m.dash else m.add c with
      | .ok m => readMembers m rest
      | .error e => .error e

/-- Reads a class after its opening bracket. A bracket or a dash that comes first stands
    for itself. -/
def readClass (text : List Char) : Except Fault (Token × List Char) :=
  let negated := text.head? = some '!' || text.head? = some '^'
  match if negated then text.drop 1 else text with
  | [] => .error .unclosedClass
  | first :: rest =>
    match readMembers ⟨[(first, first)], false⟩ rest with
    | .ok (ranges, rest) => .ok (.oneOf negated ranges, rest)
    | .error e => .error e

theorem readMembers_length {m : Members} {text rest : List Char} {ranges : List (Char × Char)}
    (h : readMembers m text = .ok (ranges, rest)) : rest.length < text.length := by
  induction text generalizing m with
  | nil => simp [readMembers] at h
  | cons c tail ih =>
    simp only [readMembers] at h
    split at h
    · simp_all
    · split at h
      · have := ih h
        simp only [List.length_cons]
        omega
      · simp at h

theorem readClass_length {text rest : List Char} {t : Token}
    (h : readClass text = .ok (t, rest)) : rest.length < text.length := by
  simp only [readClass] at h
  split at h
  · simp at h
  · next first tail heq =>
    split at h
    · next ranges rest' hm =>
      simp only [Except.ok.injEq, Prod.mk.injEq] at h
      obtain ⟨_, rfl⟩ := h
      have h1 := readMembers_length hm
      have h2 : (first :: tail).length ≤ text.length := by
        rw [← heq]
        split <;> simp
      simp only [List.length_cons] at h2
      omega
    · simp at h

-- ---------------------------------------------------------------------------
-- Patterns
-- ---------------------------------------------------------------------------

/-- A group of alternatives that is not closed yet. -/
structure Group where
  /-- The tokens before the group, in reverse. -/
  before : List Token
  /-- The branches that are complete, in reverse. -/
  branches : List (List Token)

/-- The state of the reader. -/
structure State where
  /-- The character before the one at hand. -/
  previous : Option Char := none
  /-- A bracket was found that is never closed. -/
  sawLooseBracket : Bool := false
  /-- The groups that are open, innermost first. -/
  groups : List Group := []
  /-- The tokens of the branch at hand, in reverse. -/
  tokens : List Token := []

namespace State

/-- Adds tokens to the branch at hand, and remembers the last character read. -/
def push (s : State) (ts : List Token) (last : Char) : State :=
  { s with tokens := ts.reverse ++ s.tokens, previous := some last }

/-- Replaces the last token of the branch at hand by one for `**`. After `**/` and after
    `/**` a further `**` changes nothing. -/
def collapse (s : State) (t : Token) (last : Char) : State :=
  match s.tokens with
  | .anywhere :: _ => { s with previous := some last }
  | .inside :: _ => { s with previous := some last }
  | _ :: rest => { s with tokens := t :: rest, previous := some last }
  | [] => { s with tokens := [t], previous := some last }

def openGroup (s : State) : State :=
  { s with groups := ⟨s.tokens, []⟩ :: s.groups, tokens := [], previous := some '\x7b' }

/-- Ends a branch; outside groups a comma stands for itself. -/
def comma (s : State) : State :=
  match s.groups with
  | [] => s.push [.literal ','] ','
  | g :: gs =>
    { s with
      groups := { g with branches := s.tokens.reverse :: g.branches } :: gs
      tokens := []
      previous := some ',' }

def closeGroup (s : State) : Except Fault State :=
  match s.groups with
  | [] => .error .unopenedAlternatives
  | g :: gs =>
    .ok { s with
      groups := gs
      tokens := .alternatives (s.tokens.reverse :: g.branches).reverse :: g.before
      previous := some '\x7d' }

/-- The tokens of the whole pattern. -/
def finish (s : State) : Except Fault (List Token) :=
  match s.groups with
  | [] => .ok s.tokens.reverse
  | _ :: _ => .error .unclosedAlternatives

end State

/-- A segment starts after the character before this one: it is a slash, or inside a
    group the comma or brace before a branch. -/
def State.atSegment (s : State) : Bool :=
  s.previous = some '/' ||
    (!s.groups.isEmpty && (s.previous = some ',' || s.previous = some '\x7b'))

/-- Reads `**`, of which both stars have been taken, and with it a slash that follows
    where `**` is a whole segment. -/
def readDouble (s : State) (text : List Char) : State × List Char :=
  match text with
  | [] =>
    if s.tokens.isEmpty then (s.push [.anywhere] '*', [])
    else if s.atSegment then (s.collapse .inside '*', [])
    else (s.push [.many, .many] '*', [])
  | c :: rest =>
    if c = '/' ∧ s.tokens.isEmpty then (s.push [.anywhere] '/', rest)
    else if c = '/' ∧ s.atSegment then (s.collapse .between '/', rest)
    else if (c = ',' ∨ c = '\x7d') ∧ !s.groups.isEmpty ∧ !s.tokens.isEmpty ∧ s.atSegment then
      (s.collapse .inside '*', c :: rest)
    else (s.push [.many, .many] '*', c :: rest)

theorem readDouble_length (s : State) (text : List Char) :
    (readDouble s text).2.length ≤ text.length := by
  fun_cases readDouble s text <;> simp

/-- Reads the rest of a pattern. -/
def readTokens (d : Dialect) (s : State) (text : List Char) : Except Fault (List Token) :=
  match text with
  | [] => s.finish
  | '?' :: rest => readTokens d (s.push [.one] '?') rest
  | '*' :: '*' :: rest =>
    have := readDouble_length s rest
    readTokens d (readDouble s rest).1 (readDouble s rest).2
  | '*' :: rest => readTokens d (s.push [.many] '*') rest
  | '\x7b' :: rest => readTokens d s.openGroup rest
  | '\x7d' :: rest =>
    match s.closeGroup with
    | .ok s => readTokens d s rest
    | .error e => .error e
  | ',' :: rest => readTokens d s.comma rest
  | '\\' :: [] => .error .danglingEscape
  | '\\' :: c :: rest => readTokens d (s.push [.literal c] c) rest
  | '[' :: rest =>
    if s.sawLooseBracket then readTokens d (s.push [.literal '['] '[') rest
    else
      match h : readClass rest with
      | .ok (t, rest') =>
        have := readClass_length h
        readTokens d (s.push [t] ']') rest'
      | .error .unclosedClass =>
        if d.looseBracket then
          readTokens d ({ s with sawLooseBracket := true }.push [.literal '['] '[') rest
        else .error .unclosedClass
      | .error e => .error e
  | c :: rest => readTokens d (s.push [.literal c] c) rest
termination_by text.length
decreasing_by
  all_goals simp_all
  all_goals omega

def parse (d : Dialect) (pattern : String) : Except Error Glob :=
  match readTokens d {} pattern.toList with
  | .ok tokens => .ok ⟨pattern, d, tokens⟩
  | .error fault => .error ⟨pattern, fault⟩

end DocLint.Glob
