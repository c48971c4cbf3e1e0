import GoalSearch.Command.Arguments
import GoalSearch.Log

/-!
# Where the log goes

The command line tells how much is logged and where to: to a console that understands styles, to a plain
stream, or to a file. A file takes the place of the other two.
-/

namespace GoalSearch.Command

inductive LogTarget where
  | console
  | stream
  | file
deriving Repr, DecidableEq

structure LogPlan where
  level : Level
  target : LogTarget
  hasConsole : Bool
deriving Repr, DecidableEq

namespace LogPlan

/-- Warnings are always logged, a file or one request for more output adds the course of the search,
and two requests add everything. -/
def ofOptions (verbosity : Nat) (plain toFile : Bool) : LogPlan where
  level :=
    if 2 ≤ verbosity then .debug
    else if verbosity = 1 || toFile then .info
    else .warning
  target := if toFile then .file else if plain then .stream else .console
  hasConsole := !plain

def ofRequest (r : Request) : LogPlan := ofOptions r.verbosity r.plain r.logFile.isSome

end LogPlan

end GoalSearch.Command
