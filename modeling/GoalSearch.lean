import GoalSearch.Main
import GoalSearch.Sample.Description
import GoalSearch.Statement.Json
import GoalSearch.Proofs.Distinct
import GoalSearch.Proofs.Postcondition
import GoalSearch.Proofs.Scene
import GoalSearch.Proofs.Aging
import GoalSearch.Proofs.Stopping
import GoalSearch.Proofs.Archive.Partition
import GoalSearch.Proofs.Archive.Calls
import GoalSearch.Proofs.Archive.Minimum
import GoalSearch.Proofs.Archive.Settling
import GoalSearch.Proofs.Number.Order
import GoalSearch.Proofs.Number.Arithmetic
import GoalSearch.Proofs.Number.Finite
import GoalSearch.Proofs.Fitness
import GoalSearch.Proofs.Dominance
import GoalSearch.Proofs.Ranking
import GoalSearch.Proofs.Reading
import GoalSearch.Proofs.Sorting
import GoalSearch.Proofs.Survival
import GoalSearch.Proofs.Reserve
import GoalSearch.Proofs.Variation
import GoalSearch.Proofs.Phases
import GoalSearch.Proofs.Mutation
import GoalSearch.Proofs.Selection
import GoalSearch.Proofs.Peeling
import GoalSearch.Proofs.Fronts
import GoalSearch.Proofs.Ranks
import GoalSearch.Proofs.Comparison
import GoalSearch.Proofs.Tournament
import GoalSearch.Proofs.Crowding
import GoalSearch.Proofs.Asking
import GoalSearch.Proofs.Faithful
import GoalSearch.Proofs.Family
import GoalSearch.Proofs.Search.Credits
import GoalSearch.Proofs.Search.Tracking
import GoalSearch.Proofs.Search.Accounts
import GoalSearch.Proofs.Search.Breeding
import GoalSearch.Proofs.Search.Reports
import GoalSearch.Proofs.Search.Closed
import GoalSearch.Proofs.Search.Contract
import GoalSearch.Proofs.Search.Generation
import GoalSearch.Proofs.Search.Run
import GoalSearch.Proofs.Search.Selecting
import GoalSearch.Proofs.Search.Trace
import GoalSearch.Proofs.Search.Course
import GoalSearch.Proofs.Search.Originals
import GoalSearch.Proofs.Search.Population
import GoalSearch.Proofs.Search.Best
import GoalSearch.Proofs.Search.Survivors
import GoalSearch.Proofs.Suite
import GoalSearch.Proofs.Search.Result
import GoalSearch.Proofs.Session
import GoalSearch.Proofs.Config
import GoalSearch.Proofs.Search.Budget
import GoalSearch.Proofs.Search.Offspring
import GoalSearch.Proofs.Search.Halting
import GoalSearch.Proofs.Search.Completion
import GoalSearch.Proofs.Forest
import GoalSearch.Proofs.Benchmark
import GoalSearch.Proofs.Bounds
import GoalSearch.Proofs.Report
import GoalSearch.Proofs.Search.Calls
import GoalSearch.Proofs.Mirror
import GoalSearch.Proofs.Dependency
import GoalSearch.Proofs.Nested
import GoalSearch.Proofs.Archive.Descent
import GoalSearch.Proofs.Search.Active
import GoalSearch.Proofs.Search.Frontier
import GoalSearch.Proofs.Search.Lasting
import GoalSearch.Proofs.Search.Descent
import GoalSearch.Proofs.Twins.Algorithms
import GoalSearch.Proofs.Twins.Fitness
import GoalSearch.Proofs.Twins.Scene
import GoalSearch.Proofs.Twins.Search
import GoalSearch.Proofs.Twins.Breeding
import GoalSearch.Proofs.Twins.Evolution
import GoalSearch.Proofs.Twins.Strategies
import GoalSearch.Proofs.Search.Guarded
import GoalSearch.Proofs.Search.Sanitised
import GoalSearch.Proofs.Chronicle.Basic
import GoalSearch.Proofs.Chronicle.Reading
import GoalSearch.Proofs.Chronicle.Operations
import GoalSearch.Proofs.Number.Exact
import GoalSearch.Proofs.Stable
import GoalSearch.Proofs.Neighbours
import GoalSearch.Proofs.Spacing
import GoalSearch.Proofs.Approach
import GoalSearch.Proofs.Unordered
import GoalSearch.Proofs.Number.Rounding
import GoalSearch.Proofs.Number.Fields
import GoalSearch.Proofs.Coverage
import GoalSearch.Proofs.History
import GoalSearch.Proofs.Limits
import GoalSearch.Proofs.Archive.Reset
import GoalSearch.Proofs.Archive.Callbacks
import GoalSearch.Proofs.Archive.Watching
