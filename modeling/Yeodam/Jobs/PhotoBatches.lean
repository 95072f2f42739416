/-
Upload batches: the buffers, the batch queue, and what `claim_batch` reads back.

A buffer lives while its execution is open: registration deletes it and staging does
not bring it back. A queue item is a text; `openBatch_member` reads back from it what
`stage_photos` put in. `BatchTaken` is the history of a run: every queue item is of a batch that
was taken at its score (`run_queued`), so what `claim_batch` returns is a batch of the run.
Whether a batch of a live buffer is still queued is a question of two clocks: the buffer is
renewed by every later batch, a queue item keeps the time it was queued, and `stage_photos`
trims by the latter.
-/

import Yeodam.Jobs.Registration

namespace Yeodam.Jobs

open Yeodam.Lib

variable {env : Env}

/-! ### Queue members -/

section Members

variable {now : Time} {s : Store} {i j no no' : String}

theorem rsplitOnce_member (hno : '#' ∉ no.toList) :
    rsplitOnce '#' (photoBatchMember i no) = some (i, no) :=
  rsplitOnce_append hno

/-- Different batches have different members. -/
theorem photoBatchMember_injective (hno : '#' ∉ no.toList) (hno' : '#' ∉ no'.toList)
    (h : photoBatchMember i no = photoBatchMember j no') : i = j ∧ no = no' := by
  have hsplit := rsplitOnce_member (i := i) hno
  rw [h, rsplitOnce_member hno'] at hsplit
  cases hsplit
  exact ⟨rfl, rfl⟩

theorem hash_not_mem_batchNo (n : Int) : '#' ∉ (toString n).toList :=
  not_mem_toList_int (by decide) (by decide)

/-- `claim_batch` reads identity and number back out of the member of a batch. -/
theorem openBatch_member (n : Int) (score : Time) :
    openBatch (photoBatchMember i (toString n), score) now s =
      .ok (if (s.photoBatchesAt now i).isSome then some ⟨i, n, score⟩ else none) := by
  unfold openBatch
  rw [rsplitOnce_member (hash_not_mem_batchNo n)]
  dsimp only
  rw [toInt?_toString]
  split <;> rfl

/-- The trip is the second field of the identity. -/
theorem PhotoBatchClaim.tripId_eq {c : PhotoBatchClaim} {sha256 : String → String} {tripId : Int}
    {kind : JobKind} {executionId : String}
    (h : c.identity = Jobs.identity sha256 tripId kind executionId) : c.tripId = some tripId := by
  have hkind : ':' ∉ kind.text.toList := by cases kind <;> decide
  have htrip : ':' ∉ (toString tripId).toList := not_mem_toList_int (by decide) (by decide)
  have hid : c.identity = kind.text ++ .singleton ':' ++ toString tripId ++ .singleton ':' ++
      sha256 executionId := h
  rw [PhotoBatchClaim.tripId, hid, secondField_append hkind htrip]
  exact toInt?_toString tripId

end Members

/-! ### Closed executions have no buffer -/

section Closed

variable {now : Time} {s s' : Store} {op : Op} {i : String} {r : JobRecord}

theorem photoBatches_accept {staged : List String} :
    (s.accept i r staged now).photoBatches = Function.update s.photoBatches i none := by
  unfold Store.accept
  dsimp only
  split <;> rfl

theorem photoBatches_writeChange {wasTerminal : Bool} {queueScore : Option Time}
    (h : writeChange env i wasTerminal r queueScore now s = .ok s') :
    s'.photoBatches = s.photoBatches ∧ s'.batchQueue = s.batchQueue := by
  obtain ⟨stored, -, ⟨-, rfl⟩ | ⟨-, d, -, rfl⟩ | ⟨-, -, rfl⟩ | ⟨-, score, -, rfl⟩⟩ :=
    writeChange_cases h
  · unfold Store.close
    dsimp only
    split <;> split <;> exact ⟨rfl, rfl⟩
  all_goals exact ⟨rfl, rfl⟩

/-- A closed execution has no buffer. -/
def ClosedEmpty (s : Store) : Prop := ∀ i, s.closed i = true → s.photoBatches i = none

/-- An execution that gets closed has its buffer deleted in the same transaction. -/
theorem closed_or_dropped (h : Transaction env now s op s') (hclosed : s'.closed i = true) :
    s.closed i = true ∨ s'.photoBatches i = none := by
  have hadded : ∀ {j : String} {stored raw : JobRecord} {t : Store}, s.jobs j = some raw →
      t.jobs = (s.setJob j stored).jobs → t.ignored = s.ignored → t.closed i = true →
      s.closed i = true := by
    intro j stored raw t hraw hjobs hign hclosed
    by_cases hi : i = j
    · subst hi
      simp [Store.closed, hraw]
    · simpa [Store.closed, hjobs, hign, jobs_setJob_ne hi] using hclosed
  cases h with
  | unchanged | swept | unqueued | staged | popped => exact .inl hclosed
  | @accepted q record stored staged =>
      by_cases hi : i = record.identity env.sha256
      · exact .inr (by simp [photoBatches_accept, hi])
      · left
        simpa [Store.closed, jobs_accept, jobs_setJob_ne hi, ignored_accept] using hclosed
  | @ignored q record staged =>
      by_cases hi : i = record.identity env.sha256
      · exact .inr (by simp [Store.ignore, Store.dropBatches, Store.setIgnored, hi])
      · left
        simpa [Store.closed, Store.ignore, Store.dropBatches, Store.setIgnored, hi] using hclosed
  | claimed _ _ _ _ hraw => exact .inl (hadded hraw rfl rfl hclosed)
  | changed _ hraw _ _ hw =>
      obtain ⟨stored, -, hjobs⟩ := jobs_writeChange hw
      exact .inl (hadded hraw hjobs (ignored_writeChange hw) hclosed)
  | acknowledged hraw => exact .inl (hadded hraw rfl rfl hclosed)

/-- What a transaction does to the buffer of one execution: nothing, or it deletes the
buffer, or it stages a batch of that execution, which is open. -/
theorem photoBatches_of_transaction (h : Transaction env now s op s') (i : String) :
    s'.photoBatches i = s.photoBatches i ∨ s'.photoBatches i = none ∨
      ∃ message topic, op = .stagePhotos message topic ∧ i = message.identity env.sha256 ∧
        s.closed i = false := by
  cases h with
  | unchanged | swept | unqueued | claimed | acknowledged | popped => exact .inl rfl
  | changed _ _ _ _ hw => exact .inl (by rw [(photoBatches_writeChange hw).1])
  | @accepted q record =>
      by_cases hi : i = record.identity env.sha256
      · exact .inr (.inl (by simp [photoBatches_accept, hi]))
      · exact .inl (by simp [photoBatches_accept, hi])
  | @ignored q record =>
      by_cases hi : i = record.identity env.sha256
      · exact .inr (.inl (by simp [Store.ignore, Store.dropBatches, Store.setIgnored, hi]))
      · exact .inl (by simp [Store.ignore, Store.dropBatches, Store.setIgnored, hi])
  | @staged message topic _ _ hopen =>
      by_cases hi : i = message.identity env.sha256
      · exact .inr (.inr ⟨message, topic, rfl, hi, hi ▸ hopen⟩)
      · exact .inl (by simp [Store.stage, hi])

theorem reached_closedEmpty {w : World} (h : Reached env w) : ClosedEmpty w.store := by
  refine h.invariant (P := fun w => ClosedEmpty w.store) ?_ ?_
  · rintro ⟨clock, s⟩ rfl i -
    rfl
  · rintro w e w' hempty ⟨-, rfl⟩ i hclosed
    have htrans := transaction_after env e.time w.store e.op
    rcases closed_or_dropped htrans hclosed with hbefore | hdropped
    · rcases photoBatches_of_transaction htrans i with hsame | hnone | ⟨_, _, -, -, hopen⟩
      · exact hsame.trans (hempty i hbefore)
      · exact hnone
      · rw [hopen] at hbefore
        cases hbefore
    · exact hdropped

/-- Staging for a closed execution answers `closed` and changes nothing. -/
theorem perform_stagePhotos_closed {message : PhotosReadyMessage} {topic : String}
    (hclosed : s.closed (message.identity env.sha256) = true) :
    perform env now s (.stagePhotos message topic) = .ok (.stage .closed, s) := by
  have hstage : stagePhotos env message topic now s = .ok (.closed, s) := by
    simp [stagePhotos, hclosed]
  exact except_bind_eq_ok.mpr ⟨_, hstage, rfl⟩

end Closed

/-! ### The batch queue -/

section Queue

variable {now : Time} {s s' : Store} {op : Op} {i no member : String} {r : JobRecord}

/-- The queue after the items of one execution are removed. -/
theorem score?_dropBatches {staged : List String} :
    (s.dropBatches i staged).batchQueue.score? member =
      if ∃ no ∈ staged, member = photoBatchMember i no then none
      else s.batchQueue.score? member := by
  simp only [Store.dropBatches]
  generalize s.batchQueue = q
  induction staged generalizing q with
  | nil => simp
  | cons no rest ih =>
      rw [List.foldl_cons, ih, SortedSet.score?_remove]
      by_cases hno : member = photoBatchMember i no
      · simp [hno]
      · simp [hno]

theorem batchQueue_accept {staged : List String} :
    (s.accept i r staged now).batchQueue = (s.dropBatches i staged).batchQueue := by
  unfold Store.accept
  dsimp only
  split <;> rfl

/-- The queue after a staging: the new member, and what was queued within the time to
live. -/
theorem score?_stage {j member : String} {buffer : PhotoBatchBuffer} :
    (s.stage env j no buffer now).batchQueue.score? member =
      if member = photoBatchMember j no then some now
      else (s.batchQueue.score? member).filter
        fun score => now < score + env.cfg.jobsPhotosReadyTtlSec := by
  have httl : (0 : Time) < env.cfg.jobsPhotosReadyTtlSec := by
    exact_mod_cast env.cfg.photosReadyTtl_pos
  simp only [Store.stage, SortedSet.score?_removeBelow, SortedSet.score?_add]
  split
  · have hkept : ¬ now ≤ now - (env.cfg.jobsPhotosReadyTtlSec : Time) := by linarith
    simp [Option.filter, hkept]
  · congr 1
    funext score
    simp [sub_lt_iff_lt_add]

/-- A transaction queues nothing but the member of the message it stages, at its time. -/
theorem queued_of_transaction {score : Time} (h : Transaction env now s op s')
    (hscore : s'.batchQueue.score? member = some score) :
    s.batchQueue.score? member = some score ∨ ∃ message topic, op = .stagePhotos message topic ∧
      member = photoBatchMember (message.identity env.sha256) (toString message.batchNo) ∧
      score = now := by
  have hdrop : ∀ {j : String} {staged : List String},
      (s.dropBatches j staged).batchQueue.score? member = some score →
      s.batchQueue.score? member = some score := by
    intro j staged hscore
    rw [score?_dropBatches] at hscore
    split at hscore
    · cases hscore
    · exact hscore
  cases h with
  | unchanged | swept | unqueued | claimed | acknowledged => exact .inl hscore
  | changed _ _ _ _ hw =>
      rw [(photoBatches_writeChange hw).2] at hscore
      exact .inl hscore
  | accepted =>
      rw [batchQueue_accept] at hscore
      exact .inl (hdrop hscore)
  | ignored => exact .inl (hdrop hscore)
  | @staged message topic =>
      rw [score?_stage] at hscore
      split at hscore
      · rename_i heq
        exact .inr ⟨message, topic, rfl, heq, (Option.some.inj hscore).symm⟩
      · exact .inl (Option.filter_eq_some_iff.mp hscore).1
  | popped =>
      rw [SortedSet.score?_remove] at hscore
      split at hscore
      · cases hscore
      · exact .inl hscore

/-! ### What a run stages -/

/-- The message is taken as a new batch. -/
def TakesNew (env : Env) (now : Time) (s : Store) (message : PhotosReadyMessage) (topic : String) :
    Prop :=
  ∃ s', stagePhotos env message topic now s = .ok (.staged, s')

/-- The event is a batch that is taken as a new one. -/
def TakesBatch (env : Env) (w : World) (e : Event) (message : PhotosReadyMessage) : Prop :=
  ∃ topic, e.op = .stagePhotos message topic ∧ TakesNew env e.time w.store message topic

/-- `BatchTaken env w es message time`: of the events `es`, from `w` on, one takes the batch
`message` at `time`. -/
inductive BatchTaken (env : Env) : World → List Event → PhotosReadyMessage → Time → Prop where
  | now {w : World} {e : Event} {es : List Event} {message : PhotosReadyMessage} :
      TakesBatch env w e message → BatchTaken env w (e :: es) message e.time
  | later {w : World} {e : Event} {es : List Event} {message : PhotosReadyMessage} {time : Time} :
      BatchTaken env (w.next env e) es message time → BatchTaken env w (e :: es) message time

section Taken

variable {w w' : World} {e : Event} {es fs : List Event} {message : PhotosReadyMessage}
  {time score : Time}

theorem BatchTaken.append (h : BatchTaken env w es message time) (fs : List Event) :
    BatchTaken env w (es ++ fs) message time := by
  induction h with
  | now hstages => exact .now hstages
  | later _ ih => exact .later ih

theorem perform_stagePhotos {now : Time} {s s' : Store} {topic : String} {reply : StageReply}
    (h : stagePhotos env message topic now s = .ok (reply, s')) :
    perform env now s (.stagePhotos message topic) = .ok (.stage reply, s') :=
  except_bind_eq_ok.mpr ⟨_, h, rfl⟩

/-- An event queues nothing but the batch it takes. -/
theorem queued_of_next (hscore : (w.next env e).store.batchQueue.score? member = some score) :
    w.store.batchQueue.score? member = some score ∨ ∃ message, TakesBatch env w e message ∧
      member = photoBatchMember (message.identity env.sha256) (toString message.batchNo) ∧
      score = e.time := by
  obtain ⟨time, op⟩ := e
  rcases queued_of_transaction (transaction_after ..) hscore with hold | ⟨message, topic, hop, heq⟩
  · exact .inl hold
  dsimp only at hop
  subst hop
  cases hstage : stagePhotos env message topic time w.store with
  | error error =>
      have hperform : perform env time w.store (.stagePhotos message topic) = .error error := by
        rw [perform, hstage]
        rfl
      have hsame : (w.next env ⟨time, .stagePhotos message topic⟩).store = w.store := by
        simp only [World.next, after, hperform]
      exact .inl (hsame ▸ hscore)
  | ok done =>
      obtain ⟨reply, s'⟩ := done
      have hstore : (w.next env ⟨time, .stagePhotos message topic⟩).store = s' := by
        simp only [World.next, after, perform_stagePhotos hstage]
      rcases stagePhotos_cases hstage with ⟨-, -, rfl⟩ | ⟨-, -, rfl⟩ | ⟨rfl, -⟩
      · exact .inl (hstore ▸ hscore)
      · exact .inl (hstore ▸ hscore)
      · exact .inr ⟨message, ⟨topic, rfl, s', hstage⟩, heq⟩

/-- **Every queue item is of a batch that was taken at its score**, or was there at the start. -/
theorem run_queued (hrun : Run (Step env) w es w')
    (hscore : w'.store.batchQueue.score? member = some score) :
    w.store.batchQueue.score? member = some score ∨ ∃ message, BatchTaken env w es message score ∧
      member = photoBatchMember (message.identity env.sha256) (toString message.batchNo) := by
  induction hrun with
  | refl => exact .inl hscore
  | cons first _ ih =>
      obtain ⟨-, rfl⟩ := first
      rcases ih hscore with hnext | ⟨message, hstaged, heq⟩
      · rcases queued_of_next hnext with hold | ⟨message, hstages, heq, rfl⟩
        · exact .inl hold
        · exact .inr ⟨message, .now hstages, heq⟩
      · exact .inr ⟨message, .later hstaged, heq⟩

end Taken

/-! ### `claim_batch` -/

/-- A call of `claim_batch`: it pops an item, other replicas may act, it looks for the
buffer, and it starts over where the buffer is gone. It ends in the world of its last
look; the events are its own and those of the other replicas. -/
inductive ClaimBatch (env : Env) :
    World → List Event → Option PhotoBatchClaim → World → Prop where
  | empty {w : World} :
      w.store.batchQueue.first? = none → ClaimBatch env w [] none w
  | opened {w w₁ w₂ : World} {time now : Time} {popped : String × Time} {es : List Event}
      {claim : PhotoBatchClaim} :
      (popBatch w.store).1 = some popped → Step env w ⟨time, .popBatch⟩ w₁ →
      Run (Step env) w₁ es w₂ → w₂.clock ≤ now →
      openBatch popped now w₂.store = .ok (some claim) →
      ClaimBatch env w (⟨time, .popBatch⟩ :: es) (some claim) w₂
  | gone {w w₁ w₂ w₃ : World} {time now : Time} {popped : String × Time} {es fs : List Event}
      {reply : Option PhotoBatchClaim} :
      (popBatch w.store).1 = some popped → Step env w ⟨time, .popBatch⟩ w₁ →
      Run (Step env) w₁ es w₂ → w₂.clock ≤ now →
      openBatch popped now w₂.store = .ok none →
      ClaimBatch env w₂ fs reply w₃ → ClaimBatch env w (⟨time, .popBatch⟩ :: es ++ fs) reply w₃

theorem score?_of_popBatch {popped : String × Time} (h : (popBatch s).1 = some popped) :
    s.batchQueue.score? popped.1 = some popped.2 := by
  unfold popBatch at h
  split at h
  · cases h
  · rename_i member score hfirst
    cases h
    exact SortedSet.first?_mem hfirst

/-- A batch opened from a member of the queue is the one that was staged, and its
execution has a live buffer. -/
theorem openBatch_staged {message : PhotosReadyMessage} {score : Time} {claim : PhotoBatchClaim}
    (h : openBatch (photoBatchMember (message.identity env.sha256) (toString message.batchNo),
      score) now s = .ok (some claim)) :
    claim = ⟨message.identity env.sha256, message.batchNo, score⟩ ∧
      (s.photoBatchesAt now (message.identity env.sha256)).isSome = true := by
  rw [openBatch_member] at h
  split at h
  · rename_i hbuffer
    cases h
    exact ⟨rfl, hbuffer⟩
  · cases h

theorem photoBatches_of_live (h : (s.photoBatchesAt now i).isSome = true) :
    s.photoBatches i ≠ none := by
  intro hnone
  simp [Store.photoBatchesAt, hnone] at h

/-- The claim is of the batch: identity, number and trip are those of the message. -/
structure PhotoBatchClaim.Of (env : Env) (claim : PhotoBatchClaim) (message : PhotosReadyMessage) :
    Prop where
  identity : claim.identity = message.identity env.sha256
  batchNo : claim.batchNo = message.batchNo
  tripId : claim.tripId = some message.tripId

/-- What `claim_batch` returns: a batch that was taken earlier in the run, with the time it was
queued, of an execution that is open when its buffer is looked for. -/
theorem claimBatch_returns {start w w' : World} {es fs : List Event} {claim : PhotoBatchClaim}
    (h : ClaimBatch env w fs (some claim) w') (hinit : Initial start)
    (hrun : Run (Step env) start es w) :
    w'.store.closed claim.identity = false ∧ ∃ message,
      BatchTaken env start (es ++ fs) message claim.enqueuedAt ∧ claim.Of env message := by
  generalize hreply : some claim = reply at h
  induction h generalizing es with
  | empty => cases hreply
  | @opened w w₁ w₂ time now popped gs claim' hpop hstep hothers _ hopen =>
      cases hreply
      obtain ⟨member, score⟩ := popped
      rcases run_queued hrun (score?_of_popBatch hpop) with hnone | ⟨message, hstaged, hmember⟩
      · rw [hinit] at hnone
        cases hnone
      · dsimp only at hmember
        subst hmember
        obtain ⟨rfl, hbuffer⟩ := openBatch_staged hopen
        refine ⟨?_, message, hstaged.append _, rfl, rfl, PhotoBatchClaim.tripId_eq rfl⟩
        have hempty := reached_closedEmpty
          (Reachable.run ⟨start, es, hinit, hrun⟩ (.cons hstep hothers))
        by_contra hclosed
        exact photoBatches_of_live hbuffer (hempty _ (by simpa using hclosed))
  | gone _ hstep hothers _ _ _ ih =>
      have hreturns := ih (hrun.append (.cons hstep hothers)) hreply
      rwa [List.append_assoc] at hreturns

end Queue

/-- What holds of upload batches in the world that the events `es` led to from `start`. -/
structure BatchesClosed (env : Env) (start : World) (es : List Event) (w : World) : Prop where
  /-- A closed execution has no buffer. -/
  empty : ∀ i, (w.store.jobs i).isSome = true ∨ w.store.ignored i = true →
    w.store.photoBatches i = none
  /-- Staging for a closed execution answers `closed` and changes nothing. -/
  stage : ∀ now message topic,
    (w.store.jobs (message.identity env.sha256)).isSome = true ∨
      w.store.ignored (message.identity env.sha256) = true →
    perform env now w.store (.stagePhotos message topic) = .ok (.stage .closed, w.store)
  /-- `claim_batch` returns only batches that the run has taken, each with the time it was
  taken, of executions open at its last look. -/
  claim : ∀ fs claim w', ClaimBatch env w fs (some claim) w' →
    (w'.store.jobs claim.identity = none ∧ w'.store.ignored claim.identity = false) ∧
    ∃ message, BatchTaken env start (es ++ fs) message claim.enqueuedAt ∧ claim.Of env message
  /-- The member that a batch is queued under, when it is taken, is read back as this batch
  wherever the buffer is live. -/
  member : ∀ e message, TakesBatch env w e message → ∃ member,
    (w.next env e).store.batchQueue.score? member = some e.time ∧
    ∀ now s, (s.photoBatchesAt now (message.identity env.sha256)).isSome = true →
      ∃ claim, openBatch (member, e.time) now s = .ok (some claim) ∧ claim.Of env message ∧
        claim.enqueuedAt = e.time

/-- A batch that is taken is queued. -/
theorem TakesBatch.queued {w : World} {e : Event} {message : PhotosReadyMessage}
    (h : TakesBatch env w e message) :
    (w.next env e).store.batchQueue.score?
      (photoBatchMember (message.identity env.sha256) (toString message.batchNo)) =
        some e.time := by
  obtain ⟨time, op⟩ := e
  obtain ⟨topic, hop, s', hstage⟩ := h
  dsimp only at hop hstage
  subst hop
  have hstore : (w.next env ⟨time, .stagePhotos message topic⟩).store = s' := by
    simp only [World.next, after, perform_stagePhotos hstage]
  rcases stagePhotos_cases hstage with ⟨hreply, -⟩ | ⟨hreply, -⟩ | ⟨-, -, _, _, -, -, -, rfl⟩
  · cases hreply
  · cases hreply
  · rw [hstore, score?_stage, if_pos rfl]

/-- **Photo batches close with the execution**, in every world reached. -/
theorem reached_batchesClosed {start w : World} {es : List Event} (hinit : Initial start)
    (hrun : Run (Step env) start es w) : BatchesClosed env start es w where
  empty i hclosed := reached_closedEmpty ⟨start, es, hinit, hrun⟩ i
    (by simpa [Store.closed] using hclosed)
  stage _ _ _ hclosed := perform_stagePhotos_closed (by simpa [Store.closed] using hclosed)
  claim fs claim w' hclaim := by
    obtain ⟨hopen, hmessage⟩ := claimBatch_returns hclaim hinit hrun
    simp only [Store.closed, Bool.or_eq_false_iff, Option.isSome_eq_false_iff,
      Option.isNone_iff_eq_none] at hopen
    exact ⟨hopen, hmessage⟩
  member e message hstages :=
    ⟨_, hstages.queued, fun _ _ hbuffer => ⟨_, by rw [openBatch_member, if_pos hbuffer],
      ⟨rfl, rfl, PhotoBatchClaim.tripId_eq rfl⟩, rfl⟩⟩

/-- Two batches are staged, and then their process request is registered. -/
def closingSchedule : List Event :=
  [⟨1, .stagePhotos (sampleBatch "e2" 1 e2_length Int.one_pos) "local.yeodam.trip-create.request"⟩,
   ⟨2, .stagePhotos (sampleBatch "e2" 2 e2_length batchNo_two) "local.yeodam.trip-create.request"⟩,
   ⟨3, .register sampleProcess⟩]

/-- Before the registration, the batch staged first is claimed; the registration closes the
execution and empties its buffer. -/
theorem batchesClosed_closingSchedule :
    BatchesClosed sampleEnv ⟨0, .initial⟩ closingSchedule
        (replay sampleEnv ⟨0, .initial⟩ closingSchedule) ∧
      (replay sampleEnv ⟨0, .initial⟩ closingSchedule).store.closed
        (sampleProcess.identity sampleEnv) = true ∧
      ∃ claim w', ClaimBatch sampleEnv (replay sampleEnv ⟨0, .initial⟩ (closingSchedule.take 2))
          [⟨3, .popBatch⟩] (some claim) w' ∧
        claim.batchNo = 1 ∧ claim.tripId = some 8 ∧ claim.enqueuedAt = 1 := by
  let i := identity sampleDigest 8 .process "e2"
  let w := replay sampleEnv ⟨0, .initial⟩ (closingSchedule.take 2)
  have hpop : (popBatch w.store).1 = some (photoBatchMember i (toString (1 : Int)), 1) := by
    decide +kernel
  have hlive : ((w.next sampleEnv ⟨3, .popBatch⟩).store.photoBatchesAt 3 i).isSome = true := by
    decide +kernel
  have hopen : openBatch (photoBatchMember i (toString (1 : Int)), 1) 3
      (w.next sampleEnv ⟨3, .popBatch⟩).store = .ok (some ⟨i, 1, 1⟩) := by
    rw [openBatch_member, if_pos hlive]
  exact ⟨reached_batchesClosed rfl (run_replay (by decide +kernel)), by decide +kernel, _, _,
    .opened hpop ⟨by decide +kernel, rfl⟩ (.refl _) le_rfl hopen, rfl,
    PhotoBatchClaim.tripId_eq rfl, rfl⟩

end Yeodam.Jobs
