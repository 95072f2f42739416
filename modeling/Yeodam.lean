import Yeodam.Schemas.Process
import Yeodam.Lib.Run
import Yeodam.Lib.SortedSet
import Yeodam.Jobs.Steps
import Yeodam.Jobs.Placement
import Yeodam.Jobs.Records
import Yeodam.Jobs.Indexes
import Yeodam.Jobs.Slots
import Yeodam.Jobs.Registration
import Yeodam.Jobs.Lease
import Yeodam.Jobs.PhotoBatches
import Yeodam.Jobs.BatchTrim
import Yeodam.Jobs.Cancellation
import Yeodam.Jobs.Terminal
import Yeodam.Jobs.Kafka
import Yeodam.Jobs.Admission
import Yeodam.Jobs.Attribution
import Yeodam.Jobs.Counting
import Yeodam.Jobs.Drift
import Yeodam.Jobs.FinalCallbacks
import Yeodam.Jobs.GpuRequests
import Yeodam.Jobs.Staging
import Yeodam.Jobs.Turns
import Yeodam.Lib.Exact
import Yeodam.Lib.Greedy
import Yeodam.Lib.Keyed
import Yeodam.Lib.Pointwise
import Yeodam.Pipeline.Assigning
import Yeodam.Pipeline.Clock
import Yeodam.Pipeline.Clustering
import Yeodam.Pipeline.Filtering
import Yeodam.Pipeline.Finalizing
import Yeodam.Pipeline.Locating
import Yeodam.Pipeline.Trip
import Yeodam.Infra.Haversine
import Yeodam.Infra.PlaceIndex
import Yeodam.Infra.PlaceSearch
import Yeodam.Infra.Vlm
import Yeodam.Jobs.Endings
import Yeodam.Jobs.ProgressReports
import Yeodam.Jobs.Returning
import Yeodam.Jobs.Survival
import Yeodam.Lib.Apportion
import Yeodam.Lib.Bcubed
import Yeodam.Lib.Best
import Yeodam.Lib.Calendar
import Yeodam.Lib.Classes
import Yeodam.Lib.Permuted
import Yeodam.Lib.Regex
import Yeodam.Observability.Quality
import Yeodam.Pipeline.Batch
import Yeodam.Pipeline.Budget
import Yeodam.Pipeline.ClockPairs
import Yeodam.Pipeline.Fixpoint
import Yeodam.Pipeline.Renumbering
import Yeodam.Pipeline.Reuse
import Yeodam.Pipeline.Verdicts
import Yeodam.Search.Dates
import Yeodam.Search.Pipeline
import Yeodam.Story.Allocation
import Yeodam.Story.Choosing
import Yeodam.Jobs.Consumer
import Yeodam.Jobs.Offsets
import Yeodam.Jobs.Requests
import Yeodam.Jobs.Losses
