/-
Operation metrics shared through Redis (`app/observability/metrics.py`): the hash
`metrics:operations` and the commands a transaction adds to it.

A field `{operation}|{outcome}|{phase}|{part}` of the hash is kept as its parts.
-/

import Yeodam.Jobs.Models

namespace Yeodam.Observability

open Yeodam.Lib Yeodam.Jobs

/-- The last part of a histogram field; `bucket none` is the infinite bucket. -/
inductive SeriesPart where
  | count
  | sum
  | bucket (bound : Option ℚ)
deriving DecidableEq

inductive MetricField where
  | series (operation outcome phase : String) (part : SeriesPart)
  | photosClassified
  | photosUnclassified
  | storyBlocks
deriving DecidableEq

/-- The hash: an absent field counts as 0, as the increment commands take it. -/
abbrev Operations := MetricField → ℚ

/-- `hincrby` and `hincrbyfloat`. -/
def incr (ops : Operations) (field : MetricField) (amount : ℚ) : Operations :=
  Function.update ops field (ops field + amount)

/-- `BUCKETS`. -/
def buckets : List (Option ℚ) :=
  [some (1 / 10), some (1 / 2), some 1, some 2, some 5, some 10, some 30, some 60, some 120,
    some 300, some 600, none]

def withinBucket (seconds : ℚ) (bound : Option ℚ) : Bool :=
  bound.all fun b => decide (seconds ≤ b)

def observeCommands (ops : Operations) (operation outcome phase : String) (seconds : ℚ) :
    Operations :=
  let seconds := max 0 seconds
  let field := MetricField.series operation outcome phase
  let ops := incr ops (field .count) 1
  let ops := incr ops (field .sum) seconds
  (buckets.filter (withinBucket seconds)).foldl (fun ops b => incr ops (field (.bucket b)) 1) ops

/-- The text of a status. -/
def statusText : TaskStatus → String
  | .queued => "QUEUED"
  | .processing => "PROCESSING"
  | .completed => "COMPLETED"
  | .failed => "FAILED"
  | .canceled => "CANCELED"

/-- A start time that is set and not zero: what `if record.started_at` tests. -/
def startedAt? (record : JobRecord) : Option ℚ :=
  record.startedAt.filter fun t => t ≠ 0

/-- Counts read off the stored result of a completed job. -/
def resultCommands (ops : Operations) (record : JobRecord) : Operations :=
  match record.status, record.event.bind JobResultEvent.result with
  | .completed, some result =>
      match record.kind with
      | .process =>
          let places := (((result.get? "places").map Value.items).getD [])
          let sizes := places.map fun p => (((p.get? "attachments").map Value.items).getD []).length
          let unclassified := ((result.get? "unclassified").map Value.items).getD []
          incr (incr ops .photosClassified sizes.sum) .photosUnclassified unclassified.length
      | .story =>
          incr ops .storyBlocks (((result.get? "blocks").map Value.items).getD []).length
  | _, _ => ops

def terminalCommands (ops : Operations) (record : JobRecord) (now : ℚ) : Operations :=
  let kind := record.kind.text
  let outcome := statusText record.status
  let started := startedAt? record
  let ops := observeCommands ops kind outcome "total" (now - record.createdAt)
  let ops := observeCommands ops kind outcome "queue" (started.getD now - record.createdAt)
  let ops := observeCommands ops kind outcome "execution" ((started.map fun t => now - t).getD 0)
  resultCommands ops record

end Yeodam.Observability
