import RankedStore.Main
import RankedStore.Proofs.Ranking.Density
import RankedStore.Proofs.Savepoint
import RankedStore.Proofs.Serial
import RankedStore.InPlace
import RankedStore.Proofs.InPlace
import RankedStore.Proofs.Completes
import RankedStore.Proofs.Operations
import RankedStore.Proofs.Failure
import RankedStore.Proofs.Levels
import RankedStore.Proofs.Desk
import RankedStore.Proofs.Constraints
import RankedStore.Proofs.Identity
import RankedStore.Proofs.Ranking.Spaced
import RankedStore.Proofs.Ranking.Spacing
import RankedStore.Proofs.Ranking.Exchanges
import RankedStore.Proofs.Ranking.Distinct
import RankedStore.Proofs.Json.Numeral
import RankedStore.Proofs.Json.Scan
import RankedStore.Proofs.Json.Parse
import RankedStore.Proofs.Json.Decode
import RankedStore.Proofs.Snapshot
import RankedStore.Proofs.Manager
import RankedStore.Proofs.Tool.Runs
import RankedStore.Proofs.BulkUpdate
import RankedStore.Proofs.Ranking.Untouched
import RankedStore.Proofs.Ranking.Reorder
import RankedStore.Proofs.AssignedIds
import RankedStore.Proofs.Ranking.Neighbors
import RankedStore.Proofs.Ranking.Swap
import RankedStore.Proofs.Ranking.Inverses
import RankedStore.Proofs.Ranking.Travel
import RankedStore.Proofs.Ranking.Navigation
import RankedStore.Proofs.WellFormed
import RankedStore.Proofs.Ranking.Compaction
import RankedStore.Proofs.Conflicts
import RankedStore.Proofs.Floats
import RankedStore.Proofs.Order
import RankedStore.Proofs.Unique
import RankedStore.Proofs.Acceptance
import RankedStore.Proofs.Select
import RankedStore.Proofs.Extrema
import RankedStore.Proofs.Conjunction
import RankedStore.Proofs.Edits
