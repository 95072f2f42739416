/-
v2 settings (`app/jobs/config.py`), the part the job store and the request intake
read. The bounds that `JobsSettings` validates are fields, so a settings value that
would not start the program cannot be built.

Times are rationals: Redis reports microseconds and the settings are decimal
seconds, so every time the program computes is exact here.
-/

import Mathlib

namespace Yeodam.Jobs

/-- Seconds. -/
abbrev Time := ℚ

inductive JobKind where
  | process
  | story
deriving DecidableEq, Repr

/-- The text of a kind inside keys, identities and result types. -/
def JobKind.text : JobKind → String
  | .process => "process"
  | .story => "story"

/-- `MAX_STORY_CONCURRENCY`. -/
def maxStoryConcurrency : Nat := 4

structure JobsSettings where
  kafkaTripCreateRequestTopic : String
  kafkaTripCreateResultTopic : String
  kafkaTripUpdateRequestTopic : String
  kafkaTripUpdateResultTopic : String
  kafkaStoryCreateRequestTopic : String
  kafkaStoryCreateResultTopic : String
  jobsHeartbeatSec : Time
  jobsLeaseSec : Time
  jobsTimeoutSec : Time
  jobsProcessTimeoutSec : Time
  jobsPublishLeaseSec : Time
  jobsPhotosReadyTtlSec : Nat
  jobsStoryConcurrency : Nat
  heartbeat_pos : 0 < jobsHeartbeatSec
  timeout_pos : 0 < jobsTimeoutSec
  processTimeout_pos : 0 < jobsProcessTimeoutSec
  publishLease_pos : 0 < jobsPublishLeaseSec
  photosReadyTtl_pos : 0 < jobsPhotosReadyTtlSec
  storyConcurrency_pos : 1 ≤ jobsStoryConcurrency
  storyConcurrency_le : jobsStoryConcurrency ≤ maxStoryConcurrency
  /-- `check_jobs_settings`: three missed heartbeats fit in a lease. -/
  heartbeat_lease : jobsHeartbeatSec * 3 < jobsLeaseSec
  /-- `check_jobs_settings`: the six topics are different names. -/
  topics_nodup : [kafkaTripCreateRequestTopic, kafkaTripCreateResultTopic,
    kafkaTripUpdateRequestTopic, kafkaTripUpdateResultTopic,
    kafkaStoryCreateRequestTopic, kafkaStoryCreateResultTopic].Nodup

namespace JobsSettings

variable (cfg : JobsSettings)

/-- Time from the start of a job to its forced failure; only `process` has its own. -/
def jobTimeout : JobKind → Time
  | .process => cfg.jobsProcessTimeoutSec
  | .story => cfg.jobsTimeoutSec

/-- The kind and the result topic of a request topic. -/
def topics : List (String × JobKind × String) :=
  [(cfg.kafkaTripCreateRequestTopic, .process, cfg.kafkaTripCreateResultTopic),
   (cfg.kafkaTripUpdateRequestTopic, .process, cfg.kafkaTripUpdateResultTopic),
   (cfg.kafkaStoryCreateRequestTopic, .story, cfg.kafkaStoryCreateResultTopic)]

/-- The defaults of the settings class. -/
def default : JobsSettings where
  kafkaTripCreateRequestTopic := "local.yeodam.trip-create.request"
  kafkaTripCreateResultTopic := "local.yeodam.trip-create.result"
  kafkaTripUpdateRequestTopic := "local.yeodam.trip-update.request"
  kafkaTripUpdateResultTopic := "local.yeodam.trip-update.result"
  kafkaStoryCreateRequestTopic := "local.yeodam.story-create.request"
  kafkaStoryCreateResultTopic := "local.yeodam.story-create.result"
  jobsHeartbeatSec := 5
  jobsLeaseSec := 120
  jobsTimeoutSec := 300
  jobsProcessTimeoutSec := 3000
  jobsPublishLeaseSec := 60
  jobsPhotosReadyTtlSec := 7 * 86400
  jobsStoryConcurrency := 4
  heartbeat_pos := by norm_num
  timeout_pos := by norm_num
  processTimeout_pos := by norm_num
  publishLease_pos := by norm_num
  photosReadyTtl_pos := by norm_num
  storyConcurrency_pos := by decide
  storyConcurrency_le := by decide
  heartbeat_lease := by norm_num
  topics_nodup := by simp

end JobsSettings

end Yeodam.Jobs
