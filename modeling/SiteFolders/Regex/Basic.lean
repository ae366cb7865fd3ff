/-!
# Regular expressions

Expressions over characters and a matcher that lists, in order of preference, the lengths of
the prefixes that an expression matches. An alternative prefers its first branch and a star
prefers another round, so the first length of the list is the one that a leftmost-first search
takes.

Each length is listed once. A star walks depth first over the places its rounds reach and
enters no place twice, and sequences are nested to the left, so an expression with many readings
of one text is tried at each place of the text and not for each reading.
-/

namespace SiteFolders

/-- Regular expressions with zero-width tests. -/
inductive Regex where
  /-- Matches the empty text. -/
  | empty
  /-- Matches one character of a set. -/
  | one (p : Char → Bool)
  /-- Matches a text of the first expression and then one of the second. -/
  | seq (first second : Regex)
  /-- Matches what either expression matches, and prefers the first. -/
  | alt (first second : Regex)
  /-- Matches any number of rounds, and prefers more. -/
  | star (body : Regex)
  /-- Matches the empty text where the characters on both sides pass a test. -/
  | edge (p : Option Char → Option Char → Bool)

namespace Regex

/-! ## Building expressions -/

/-- Matches nothing. -/
def never : Regex := .one fun _ => false

/-- At most one round. -/
def opt (r : Regex) : Regex := .alt r .empty

/-- At least one round. -/
def plus (r : Regex) : Regex := .seq r (.star r)

/-- The expressions of a list, one after another. They are nested to the left, so each of them is
tried once at each place that the ones before it reach. -/
def concat : List Regex → Regex
  | [] => .empty
  | r :: rs => rs.foldl .seq r

/-- The first expression of a list that matches. -/
def choice : List Regex → Regex
  | [] => never
  | [r] => r
  | r :: rs => .alt r (choice rs)

/-- The characters of a text, each compared by `same`. -/
def literal (same : Char → Char → Bool) : List Char → Regex
  | [] => .empty
  | c :: rest => .seq (.one (same c)) (literal same rest)

/-- Exactly `n` rounds. -/
def exactly (r : Regex) : Nat → Regex
  | 0 => .empty
  | n + 1 => .seq (exactly r n) r

/-- At most `n` rounds. -/
def atMost (r : Regex) : Nat → Regex
  | 0 => .empty
  | n + 1 => .seq (atMost r n) (opt r)

/-! ## Matching -/

/-- The elements of a list at their first places. -/
def distinct (ns : List Nat) : List Nat :=
  (ns.foldl (fun kept n => if kept.contains n then kept else n :: kept) []).reverse

/-- Adds to `seen` the numbers that rounds of `step` reach from `n`, each after all that a round
from it reaches. Rounds that do not go up are left out, and `fuel` bounds the number of rounds
in a row. -/
def visit (step : Nat → List Nat) : (fuel : Nat) → (seen : List Nat) → (n : Nat) → List Nat
  | 0, seen, n => if seen.contains n then seen else n :: seen
  | fuel + 1, seen, n =>
    if seen.contains n then seen
    else n :: ((step n).filter (n < ·)).foldl (visit step fuel) seen

/-- The numbers that rounds of `step` reach from 0, those reached by more preferred rounds first
and each number after what rounds from it reach. -/
def closure (step : Nat → List Nat) (fuel : Nat) : List Nat :=
  (visit step fuel [] 0).reverse

/-- The character before the place `n` characters into `rest`. -/
def charBefore (before : Option Char) (rest : List Char) : Nat → Option Char
  | 0 => before
  | n + 1 => rest[n]?

/-- The lengths of the prefixes of `rest` that the expression matches, the preferred ones first.
`before` is the character in front of `rest`. -/
def lengths : Regex → (before : Option Char) → (rest : List Char) → List Nat
  | .empty, _, _ => [0]
  | .one _, _, [] => []
  | .one p, _, c :: _ => if p c then [1] else []
  | .seq a b, before, rest =>
    distinct ((a.lengths before rest).flatMap fun n =>
      (b.lengths (charBefore before rest n) (rest.drop n)).map (n + ·))
  | .alt a b, before, rest => distinct (a.lengths before rest ++ b.lengths before rest)
  | .star a, before, rest =>
    closure (fun n => (a.lengths (charBefore before rest n) (rest.drop n)).map (n + ·)) rest.length
  | .edge p, before, rest => if p before rest.head? then [0] else []

/-- True if the expression matches somewhere in `rest`. -/
def occurs (r : Regex) : (before : Option Char) → (rest : List Char) → Bool
  | before, [] => !(r.lengths before []).isEmpty
  | before, c :: rest => !(r.lengths before (c :: rest)).isEmpty || r.occurs (some c) rest

/-- True if the expression matches the whole text. -/
def matchesAll (r : Regex) (text : List Char) : Bool :=
  (r.lengths none text).contains text.length

end Regex

end SiteFolders
