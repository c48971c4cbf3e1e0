/-!
# Goals

A goal is something an individual can cover. Goals are compared by identity: an atomic goal is one of
the goals of the subject, known by its number; a goal over suites asks whether some member of a
suite covers an inner goal, and is told from others of the same inner goal by a serial number.
-/

namespace GoalSearch

inductive Goal where
  | atom (n : Nat)
  | overSuite (serial : Nat) (inner : Goal)
deriving Repr, DecidableEq

end GoalSearch
