/-
The counts of `metrics:operations` against the records.

Every job that ends is observed once for each of the phases total, queue and execution,
under its kind and the status it ended with (`operations_of_transaction`), so the counts
of these series are numbers of records. The hash has two other writers, the stages of a
finished job and the searches of the query API; neither writes to these series.

`reached_exact` is the run lemma. It holds for any clock readings.
-/

import Yeodam.Jobs.Lease

namespace Yeodam.Jobs

open Yeodam.Lib Yeodam.Observability

/-! ### One observation -/

section Observe

variable {ops : Operations} {o u p o' u' p' : String} {part : SeriesPart} {seconds : ℚ}

theorem incr_apply (ops : Operations) (f f' : MetricField) (amount : ℚ) :
    incr ops f amount f' = ops f' + if f' = f then amount else 0 := by
  unfold incr
  by_cases h : f' = f
  · subst h
    simp
  · simp [h]

/-- Each bound of a list without repetitions is counted once. -/
theorem foldl_incr_bucket {bounds : List (Option ℚ)} (hnodup : bounds.Nodup) (f : MetricField) :
    bounds.foldl (fun ops b => incr ops (.series o u p (.bucket b)) 1) ops f =
      ops f + if ∃ b ∈ bounds, f = .series o u p (.bucket b) then 1 else 0 := by
  induction bounds generalizing ops with
  | nil => simp
  | cons b bounds ih =>
      obtain ⟨hb, hbounds⟩ := List.nodup_cons.mp hnodup
      rw [List.foldl_cons, ih hbounds, incr_apply, add_assoc]
      congr 1
      by_cases hf : f = .series o u p (.bucket b)
      · -- The first bound is not met again.
        simp [hf, hb]
      · simp [hf]

/-- What one observation adds to a part of its series. -/
def contribution (seconds : ℚ) : SeriesPart → ℚ
  | .count => 1
  | .sum => max 0 seconds
  | .bucket b => if b ∈ buckets ∧ withinBucket (max 0 seconds) b = true then 1 else 0

theorem buckets_nodup : buckets.Nodup := by decide +kernel

/-- An observation adds to its own series. -/
theorem observeCommands_self :
    observeCommands ops o u p seconds (.series o u p part) =
      ops (.series o u p part) + contribution seconds part := by
  unfold observeCommands
  rw [foldl_incr_bucket (buckets_nodup.filter _), incr_apply, incr_apply]
  cases part <;> simp [contribution]

/-- An observation leaves every other field alone. -/
theorem observeCommands_ne {f : MetricField} (h : ∀ part, f ≠ .series o u p part) :
    observeCommands ops o u p seconds f = ops f := by
  unfold observeCommands
  rw [foldl_incr_bucket (buckets_nodup.filter _), incr_apply, incr_apply]
  have hnone : ¬ ∃ b ∈ buckets.filter (withinBucket (max 0 seconds)),
      f = .series o u p (.bucket b) := fun ⟨b, _, hf⟩ => h _ hf
  rw [if_neg hnone]
  simp only [h, if_false, add_zero]

theorem observeCommands_series :
    observeCommands ops o u p seconds (.series o' u' p' part) =
      ops (.series o' u' p' part) +
        if o' = o ∧ u' = u ∧ p' = p then contribution seconds part else 0 := by
  by_cases h : o' = o ∧ u' = u ∧ p' = p
  · obtain ⟨rfl, rfl, rfl⟩ := h
    simp [observeCommands_self]
  · rw [observeCommands_ne, if_neg h, add_zero]
    intro part' heq
    injection heq with ho hu hp
    exact h ⟨ho, hu, hp⟩

/-- The counts of a result are no series. -/
theorem resultCommands_series {record : JobRecord} :
    resultCommands ops record (.series o u p part) = ops (.series o u p part) := by
  unfold resultCommands
  cases record.status <;> cases record.event.bind JobResultEvent.result <;> cases record.kind <;>
    simp [incr_apply]

end Observe

/-! ### The series of jobs -/

/-- The phases `terminal_commands` observes. -/
def jobPhases : List String := ["total", "queue", "execution"]

theorem JobKind.text_injective {k k' : JobKind} (h : k.text = k'.text) : k = k' := by
  cases k <;> cases k' <;> first | rfl | (revert h; decide)

theorem statusText_injective {t t' : TaskStatus} (h : statusText t = statusText t') : t = t' := by
  cases t <;> cases t' <;> first | rfl | (revert h; decide)

/-- A job that ends adds one to its own count, in each of the phases. -/
theorem terminalCommands_count {ops : Operations} {record : JobRecord} {now : ℚ} {kind : JobKind}
    {outcome phase : String} (hphase : phase ∈ jobPhases) :
    terminalCommands ops record now (.series kind.text outcome phase .count) =
      ops (.series kind.text outcome phase .count) +
        if kind = record.kind ∧ outcome = statusText record.status then 1 else 0 := by
  unfold terminalCommands
  have hkind : kind.text = record.kind.text ↔ kind = record.kind :=
    ⟨JobKind.text_injective, congrArg _⟩
  simp only [jobPhases, List.mem_cons, List.not_mem_nil, or_false] at hphase
  rcases hphase with rfl | rfl | rfl <;>
    simp [resultCommands_series, observeCommands_series, contribution, hkind]

/-- A histogram that counts: its buckets grow with the bound, the last one has everything. -/
structure Histogram (ops : Operations) (operation outcome phase : String) : Prop where
  monotone : buckets.Pairwise fun b b' =>
    ops (.series operation outcome phase (.bucket b)) ≤
      ops (.series operation outcome phase (.bucket b'))
  infinite : ops (.series operation outcome phase (.bucket none)) =
    ops (.series operation outcome phase .count)

/-- Every series of the hash is a histogram. -/
def Histograms (ops : Operations) : Prop :=
  ∀ operation outcome phase, Histogram ops operation outcome phase

/-- What falls within a bound falls within the later ones. -/
theorem withinBucket_pairwise (seconds : ℚ) :
    buckets.Pairwise fun b b' => withinBucket seconds b = true →
      withinBucket seconds b' = true := by
  have hsorted : buckets.Pairwise fun b b' => ∀ y, b' = some y → ∃ x, b = some x ∧ x ≤ y := by
    simp only [buckets, List.pairwise_cons]
    norm_num
    simp
  apply hsorted.imp
  intro b b' hle hb
  cases b' with
  | none => rfl
  | some y =>
      obtain ⟨x, rfl, hxy⟩ := hle y rfl
      simp only [withinBucket, Option.all_some, decide_eq_true_eq] at hb ⊢
      exact hb.trans hxy

theorem Histogram.observe {ops : Operations} {o u p o' u' p' : String} {seconds : ℚ}
    (h : Histogram ops o' u' p') : Histogram (observeCommands ops o u p seconds) o' u' p' := by
  constructor
  · have hwithin := withinBucket_pairwise (max 0 seconds)
    apply (h.monotone.and hwithin).imp_of_mem
    rintro b b' hb hb' ⟨hle, himp⟩
    rw [observeCommands_series, observeCommands_series]
    apply add_le_add hle
    split
    · simp only [contribution, hb, hb', true_and]
      split
      · rename_i hin
        simp [himp hin]
      · split <;> norm_num
    · rfl
  · rw [observeCommands_series, observeCommands_series, h.infinite]
    have hlast : none ∈ buckets := by decide +kernel
    simp [contribution, hlast, withinBucket]

theorem Histogram.congr {ops ops' : Operations} {o u p : String} (h : Histogram ops o u p)
    (hsame : ∀ part, ops' (.series o u p part) = ops (.series o u p part)) :
    Histogram ops' o u p := by
  constructor
  · simpa only [hsame] using h.monotone
  · simpa only [hsame] using h.infinite

theorem Histograms.terminal {ops : Operations} {record : JobRecord} {now : ℚ}
    (h : Histograms ops) : Histograms (terminalCommands ops record now) := by
  intro o u p
  unfold terminalCommands
  exact (h o u p).observe.observe.observe.congr fun _ => resultCommands_series

/-! ### Transactions -/

/-- The kind and the status an execution ended with. -/
def Store.ending (s : Store) (i : String) : Option (JobKind × TaskStatus) :=
  ((s.jobs i).filter fun r => r.status.terminal).map fun r => (r.kind, r.status)

theorem ending_eq_some {s : Store} {i : String} {kind : JobKind} {status : TaskStatus} :
    s.ending i = some (kind, status) ↔
      ∃ r, s.jobs i = some r ∧ r.status.terminal = true ∧ r.kind = kind ∧ r.status = status := by
  unfold Store.ending
  cases s.jobs i with
  | none => simp
  | some r => by_cases h : r.status.terminal = true <;> simp [Option.filter, h]

section

variable {env : Env} {now : Time} {s s' : Store} {op : Op}

theorem ending_congr (h : s'.jobs = s.jobs) : s'.ending = s.ending := by
  funext i
  rw [Store.ending, h, Store.ending]

/-- A store that wrote one record. -/
theorem ending_setJob {i : String} {r : JobRecord} (h : s'.jobs = (s.setJob i r).jobs) :
    s'.ending = Function.update s.ending i
      (if r.status.terminal then some (r.kind, r.status) else none) := by
  funext j
  by_cases hj : j = i
  · subst hj
    rw [Store.ending, h, jobs_setJob_self, Function.update_self]
    by_cases hr : r.status.terminal = true <;> simp [Option.filter, hr]
  · rw [Store.ending, h, jobs_setJob_ne hj, Function.update_of_ne hj]
    rfl

theorem ending_of_live {i : String} (h : ∀ r, s.jobs i = some r → r.status.terminal = false) :
    s.ending i = none := by
  unfold Store.ending
  cases hr : s.jobs i with
  | none => rfl
  | some r => simp [Option.filter, h r hr]

/-- The first end of an execution, observed, or neither an end nor an observation. -/
inductive Observed (now : Time) (s s' : Store) : Prop where
  | quiet : s'.operations = s.operations → s'.ending = s.ending → Observed now s s'
  | ended (i : String) (r : JobRecord) : s'.operations = terminalCommands s.operations r now →
      s.ending i = none → r.status.terminal = true →
      s'.ending = Function.update s.ending i (some (r.kind, r.status)) → Observed now s s'

/-- A record rewritten without a new end. -/
theorem Observed.rewrite {i : String} {raw stored : JobRecord}
    (hops : s'.operations = s.operations) (hraw : s.jobs i = some raw)
    (hjobs : s'.jobs = (s.setJob i stored).jobs) (hkind : stored.kind = raw.kind)
    (hstatus : stored.status = raw.status ∨
      stored.status.terminal = false ∧ raw.status.terminal = false) : Observed now s s' := by
  refine .quiet hops ?_
  rw [ending_setJob hjobs, Function.update_eq_self_iff]
  rcases hstatus with hstatus | ⟨hstored, hlive⟩
  · unfold Store.ending
    by_cases h : raw.status.terminal = true <;> simp [hraw, Option.filter, hkind, hstatus, h]
  · rw [if_neg (by simp [hstored])]
    refine (ending_of_live ?_).symm
    intro r hr
    rw [Option.some.inj (hr.symm.trans hraw)]
    exact hlive

/-- A record written by `change` is observed exactly when it ends. -/
theorem observed_writeChange {identity : String} {raw record changed : JobRecord}
    {queueScore : Option Time} (hraw : s.jobs identity = some raw)
    (hload : raw.load env = .ok record) (hedit : Edit env now op record changed queueScore)
    (hw : writeChange env identity record.status.terminal changed queueScore now s = .ok s') :
    Observed now s s' := by
  have hraw' := JobRecord.load_core hload
  have hrstatus := JobRecord.status_eq_of_core hraw'
  obtain ⟨hkind, -, hstages⟩ := hedit.stages
  obtain ⟨stored, hdump, hcases⟩ := writeChange_cases hw
  obtain ⟨stored', hdump', hjobs⟩ := jobs_writeChange hw
  obtain rfl : stored = stored' := Except.ok.inj (hdump.symm.trans hdump')
  have hcore := JobRecord.dump_core hdump
  have hskind : stored.kind = raw.kind :=
    ((JobRecord.kind_eq_of_core hcore).trans hkind).trans (JobRecord.kind_eq_of_core hraw')
  have hsstatus := JobRecord.status_eq_of_core hcore
  have hclose : ∀ t : Store, (t.close identity changed now).operations = t.operations := by
    intro t
    unfold Store.close
    dsimp only
    split <;> rfl
  by_cases hterm : changed.status.terminal = true
  · obtain ⟨-, rfl⟩ | ⟨hs, -⟩ | ⟨hs, -⟩ | ⟨hs, -⟩ := hcases
    · by_cases hwas : record.status.terminal = true
      · have hsame : changed.status = record.status := by
          rcases hstages with ⟨-, hp, -⟩ | ⟨hl, -⟩ | ⟨-, hq, -⟩ | ⟨hsame, -⟩
          · rw [hp] at hterm; cases hterm
          · rw [hl] at hwas; cases hwas
          · rw [hq] at hterm; cases hterm
          · exact hsame
        refine .rewrite ?_ hraw hjobs hskind (.inl ((hsstatus.trans hsame).trans hrstatus))
        rw [hclose, if_pos hwas]
        rfl
      · refine .ended identity changed ?_ ?_ hterm ?_
        · rw [hclose, if_neg hwas]
          rfl
        · apply ending_of_live
          intro r hr
          rw [Option.some.inj (hr.symm.trans hraw), ← hrstatus]
          exact Bool.not_eq_true _ ▸ hwas
        · rw [ending_setJob hjobs, hsstatus, if_pos hterm, JobRecord.kind_eq_of_core hcore]
    all_goals
      rw [hs] at hterm
      cases hterm
  · rw [Bool.not_eq_true] at hterm
    have hops : s'.operations = s.operations := by
      obtain ⟨hs, -⟩ | ⟨-, d, -, rfl⟩ | ⟨-, -, rfl⟩ | ⟨-, score, -, rfl⟩ := hcases
      · rw [hs] at hterm
        cases hterm
      · rfl
      · rfl
      · rfl
    -- A record that goes on has not ended before.
    have hlive : record.status.terminal = false := by
      rcases hstages with ⟨hp, -⟩ | ⟨hl, -⟩ | ⟨hp, -⟩ | ⟨hsame, -⟩
      · rw [hp]; rfl
      · exact hl
      · rw [hp]; rfl
      · rw [← hsame]; exact hterm
    exact .rewrite hops hraw hjobs hskind (.inr ⟨hsstatus ▸ hterm, hrstatus ▸ hlive⟩)

/-- **What a transaction observes**, by the branch that committed. -/
theorem operations_of_transaction (h : Transaction env now s op s') : Observed now s s' := by
  cases h with
  | unchanged => exact .quiet rfl rfl
  | ignored => exact .quiet rfl (ending_congr rfl)
  | swept => exact .quiet rfl (ending_congr rfl)
  | unqueued => exact .quiet rfl (ending_congr rfl)
  | staged => exact .quiet rfl (ending_congr rfl)
  | popped => exact .quiet rfl (ending_congr rfl)
  | @accepted q record stored staged hrec hopen _ hdump =>
      have hcore := JobRecord.dump_core hdump
      have hstatus := JobRecord.status_eq_of_core hcore
      have hevent := JobRecord.event_isSome_eq_of_core hcore
      have hnew : s.ending (record.identity env.sha256) = none := by
        apply ending_of_live
        intro r hr
        rw [Store.jobs_eq_none_of_closed hopen] at hr
        cases hr
      obtain ⟨-, -, -, -, ⟨hs, hlive⟩ | ⟨hterm, he⟩⟩ := Intake.record_cases hrec
      · refine .quiet ?_ ?_
        · have hnone : stored.event.isSome = false := hevent.trans hlive.event
          simp [Store.accept, hnone, Store.enqueue, Store.setLatest, Store.setJob,
            Store.setSequence, Store.dropBatches]
        · rw [ending_setJob jobs_accept, if_neg (by rw [hstatus]; simp [hs, TaskStatus.terminal]),
            Function.update_eq_self_iff, hnew]
      · have hsome : stored.event.isSome = true := hevent.trans he
        have hterm' : stored.status.terminal = true := by
          rw [hstatus]
          exact hterm
        refine .ended (record.identity env.sha256) stored ?_ hnew hterm' ?_
        · simp [Store.accept, hsome, Store.addPending, Store.observeTerminal, Store.setLatest,
            Store.setJob, Store.setSequence, Store.dropBatches]
        · rw [ending_setJob jobs_accept, if_pos hterm']
  | @claimed kind owner stop slot identity score raw record stored _ _ _ _ hraw hload hs hdump =>
      have hraw' := JobRecord.load_core hload
      have hstored := JobRecord.dump_core hdump
      have hkind : stored.kind = record.kind := (JobRecord.kind_eq_of_core hstored :)
      refine .rewrite rfl hraw jobs_occupy ?_ (.inr ⟨?_, ?_⟩)
      · exact hkind.trans (JobRecord.kind_eq_of_core hraw')
      · rw [JobRecord.status_eq_of_core hstored]
        rfl
      · rw [← JobRecord.status_eq_of_core hraw', hs]
        rfl
  | changed _ hraw hload hedit hw => exact observed_writeChange hraw hload hedit hw
  | @acknowledged identity publisher raw record stored hraw hload _ hdump =>
      have hraw' := JobRecord.load_core hload
      have hstored := JobRecord.dump_core hdump
      have hkind : stored.kind = record.kind := (JobRecord.kind_eq_of_core hstored :)
      have hstatus : stored.status = record.status := (JobRecord.status_eq_of_core hstored :)
      refine .rewrite rfl hraw rfl ?_ (.inl ?_)
      · exact hkind.trans (JobRecord.kind_eq_of_core hraw')
      · exact hstatus.trans (JobRecord.status_eq_of_core hraw')

end

/-! ### All writers of the hash -/

/-- `StageRecord.result`. -/
inductive StageResult where
  | success
  | error
  | timeout
  | cancelled
deriving DecidableEq, Repr

def StageResult.text : StageResult → String
  | .success => "success"
  | .error => "error"
  | .timeout => "timeout"
  | .cancelled => "cancelled"

structure StageRecord where
  name : String
  result : StageResult
  seconds : ℚ
  parent : Option String := none

/-- `parent.name`, or the name of a stage at the top. A parent without a name is none. -/
def StageRecord.fullName (record : StageRecord) : String :=
  match record.parent with
  | some parent => if parent = "" then record.name else parent ++ "." ++ record.name
  | none => record.name

/-- The operations of the query API. -/
inductive QueryOperation where
  | parse
  | search
deriving DecidableEq, Repr

def QueryOperation.text : QueryOperation → String
  | .parse => "parse"
  | .search => "search"

/-- The observations of a list of stages under one operation. -/
def stageCommands (operation : String) (stages : List StageRecord) (ops : Operations) :
    Operations :=
  stages.foldl
    (fun ops record => observeCommands ops operation record.result.text record.fullName
      record.seconds) ops

def observeStages (kind : JobKind) (stages : List StageRecord) (s : Store) : Store :=
  { s with operations := stageCommands kind.text stages s.operations }

/-- `Metrics.query`. -/
def query (operation : QueryOperation) (outcome : String) (seconds : ℚ)
    (stages : List StageRecord) (s : Store) : Store :=
  { s with
    operations := stageCommands operation.text stages
      (observeCommands s.operations operation.text outcome "request" seconds) }

/-- What happens to the hash: a transaction of the store, or one of the two other writers. -/
inductive Recording where
  | transaction (e : Event)
  | observeStages (kind : JobKind) (stages : List StageRecord)
  | query (operation : QueryOperation) (outcome : String) (seconds : ℚ)
      (stages : List StageRecord)

def Recording.next (env : Env) (s : Store) : Recording → Store
  | .transaction e => after env e.time e.op s
  | .observeStages kind stages => Jobs.observeStages kind stages s
  | .query operation outcome seconds stages => Jobs.query operation outcome seconds stages s

/-- No stage of a job is named like a phase of `terminal_commands`. -/
def Recording.NamesStages : Recording → Prop
  | .observeStages _ stages => ∀ record ∈ stages, record.fullName ∉ jobPhases
  | .transaction _ | .query .. => True

def RecordingStep (env : Env) (s : Store) (m : Recording) (s' : Store) : Prop :=
  m.NamesStages ∧ s' = m.next env s

/-- Stores some interleaving of transactions and observations leads to. -/
abbrev StoreReached (env : Env) : Store → Prop := Reachable (· = Store.initial) (RecordingStep env)

/-- The executions of a kind whose record has the status. -/
def Store.having (s : Store) (kind : JobKind) (status : TaskStatus) : Set String :=
  {i | ∃ r, s.jobs i = some r ∧ r.kind = kind ∧ r.status = status}

/-- The executions of a kind that have ended. -/
def Store.ended (s : Store) (kind : JobKind) : Set String :=
  {i | ∃ r, s.jobs i = some r ∧ r.kind = kind ∧ r.status.terminal = true}

/-- The metrics of jobs are exact. -/
structure MetricsExact (s : Store) : Prop where
  finite : ∀ kind, (s.ended kind).Finite
  /-- For each outcome the observations of a phase are the records with that status. -/
  outcome : ∀ (kind : JobKind) phase status, phase ∈ jobPhases → status.terminal = true →
    s.operations (.series kind.text (statusText status) phase .count) =
      (s.having kind status).ncard
  /-- No job was observed under anything else. -/
  other : ∀ (kind : JobKind) phase outcome, phase ∈ jobPhases →
    (∀ status, status.terminal = true → outcome ≠ statusText status) →
    s.operations (.series kind.text outcome phase .count) = 0
  /-- Over all outcomes they are the records that have ended. -/
  total : ∀ (kind : JobKind) phase, phase ∈ jobPhases →
    ∑ᶠ outcome : String, s.operations (.series kind.text outcome phase .count) =
      (s.ended kind).ncard
  histograms : Histograms s.operations

/-- The invariant behind `MetricsExact`, in terms of how executions ended. -/
structure Counted (s : Store) : Prop where
  finite : {i | (s.ending i).isSome = true}.Finite
  count : ∀ (kind : JobKind) phase outcome, phase ∈ jobPhases →
    s.operations (.series kind.text outcome phase .count) =
      {i | ∃ status, s.ending i = some (kind, status) ∧ outcome = statusText status}.ncard
  histograms : Histograms s.operations

section

variable {env : Env} {now : Time} {s s' : Store} {ops : Operations}

/-- Observations of other phases or operations leave a count alone. -/
theorem stageCommands_count {operation o u p : String} {stages : List StageRecord}
    (h : o = operation → ∀ record ∈ stages, record.fullName ≠ p) :
    stageCommands operation stages ops (.series o u p .count) = ops (.series o u p .count) := by
  unfold stageCommands
  induction stages generalizing ops with
  | nil => rfl
  | cons record stages ih =>
      rw [List.foldl_cons, ih fun ho r hr => h ho r (List.mem_cons_of_mem _ hr),
        observeCommands_series, if_neg, add_zero]
      rintro ⟨ho, -, hp⟩
      exact h ho record List.mem_cons_self hp.symm

theorem Histograms.stages {operation : String} {stages : List StageRecord} (h : Histograms ops) :
    Histograms (stageCommands operation stages ops) := by
  unfold stageCommands
  induction stages generalizing ops with
  | nil => exact h
  | cons record stages ih => exact ih fun o u p => (h o u p).observe

theorem Counted.congr (h : Counted s) (hending : s'.ending = s.ending)
    (hcount : ∀ (kind : JobKind) phase outcome, phase ∈ jobPhases →
      s'.operations (.series kind.text outcome phase .count) =
        s.operations (.series kind.text outcome phase .count))
    (hhist : Histograms s'.operations) : Counted s' where
  finite := by simpa only [hending] using h.finite
  count kind phase outcome hphase := by
    rw [hcount kind phase outcome hphase, h.count kind phase outcome hphase, hending]
  histograms := hhist

/-- A first end is counted once, under its kind and status. -/
theorem Counted.transaction (h : Counted s) {op : Op} (htrans : Transaction env now s op s') :
    Counted s' := by
  obtain ⟨hops, hending⟩ | ⟨i, r, hops, hnew, hterm, hending⟩ := operations_of_transaction htrans
  · exact h.congr hending (fun _ _ _ _ => by rw [hops]) (hops ▸ h.histograms)
  have hfinite : ∀ P : String → Prop, (∀ j, P j → (s.ending j).isSome = true) →
      {j | P j}.Finite := fun P hP => h.finite.subset hP
  constructor
  · refine (h.finite.insert i).subset fun j hj => ?_
    by_cases hji : j = i
    · exact .inl hji
    · rw [Set.mem_ofPred_eq, hending, Function.update_of_ne hji] at hj
      exact .inr hj
  · intro kind phase outcome hphase
    rw [hops, terminalCommands_count hphase, h.count kind phase outcome hphase, hending]
    by_cases hsame : kind = r.kind ∧ outcome = statusText r.status
    · obtain ⟨rfl, rfl⟩ := hsame
      have hinsert : {j | ∃ status, Function.update s.ending i (some (r.kind, r.status)) j =
            some (r.kind, status) ∧ statusText r.status = statusText status} =
          insert i {j | ∃ status, s.ending j = some (r.kind, status) ∧
            statusText r.status = statusText status} := by
        ext j
        by_cases hji : j = i
        · subst hji
          simp
        · simp [hji]
      rw [hinsert, Set.ncard_insert_of_notMem (by simp [hnew]) (hfinite _ ?_), if_pos ⟨rfl, rfl⟩]
      · push_cast
        rfl
      · rintro j ⟨status, hj, -⟩
        rw [hj]
        rfl
    · rw [if_neg hsame, add_zero]
      congr 2
      ext j
      by_cases hji : j = i
      · subst hji
        simp only [Set.mem_ofPred_eq, hnew, Function.update_self, Option.some.injEq, Prod.mk.injEq]
        constructor
        · rintro ⟨_, h, -⟩
          cases h
        · rintro ⟨status, ⟨rfl, rfl⟩, rfl⟩
          exact absurd ⟨rfl, rfl⟩ hsame
      · simp [hji]
  · rw [hops]
    exact h.histograms.terminal

/-- **Step lemma.** -/
theorem Counted.step {m : Recording} (h : Counted s) (hstep : RecordingStep env s m s') :
    Counted s' := by
  obtain ⟨hnames, rfl⟩ := hstep
  cases m with
  | transaction e => exact h.transaction (transaction_after ..)
  | observeStages kind stages =>
      refine h.congr rfl (fun kind' phase outcome hphase => ?_) h.histograms.stages
      apply stageCommands_count
      intro _ record hrecord heq
      exact hnames record hrecord (heq ▸ hphase)
  | query operation outcome' seconds stages =>
      have hne : ∀ kind : JobKind, kind.text ≠ operation.text := by
        intro kind
        cases kind <;> cases operation <;> decide
      have hobserve : Histograms
          (observeCommands s.operations operation.text outcome' "request" seconds) :=
        fun o u p => (h.histograms o u p).observe
      refine h.congr rfl (fun kind phase outcome _ => ?_) hobserve.stages
      refine (stageCommands_count fun ho => absurd ho (hne kind)).trans ?_
      rw [observeCommands_series, if_neg fun hsame => hne kind hsame.1, add_zero]

theorem counted_initial : Counted Store.initial where
  finite := by simp [Store.ending, Store.initial]
  count kind phase outcome _ := by simp [Store.ending, Store.initial]
  histograms o u p := by
    constructor
    · exact List.pairwise_of_forall fun _ _ => le_rfl
    · rfl

theorem having_eq (s : Store) (kind : JobKind) {status : TaskStatus}
    (hterm : status.terminal = true) :
    s.having kind status =
      {i | ∃ status', s.ending i = some (kind, status') ∧
        statusText status = statusText status'} := by
  ext i
  simp only [Store.having, Set.mem_ofPred_eq, ending_eq_some]
  constructor
  · rintro ⟨r, hr, hkind, rfl⟩
    exact ⟨r.status, ⟨r, hr, hterm, hkind, rfl⟩, rfl⟩
  · rintro ⟨_, ⟨r, hr, -, hkind, rfl⟩, heq⟩
    exact ⟨r, hr, hkind, (statusText_injective heq).symm⟩

theorem mem_ended {kind : JobKind} {i : String} :
    i ∈ s.ended kind ↔ ∃ status, s.ending i = some (kind, status) := by
  simp only [Store.ended, Set.mem_ofPred_eq, ending_eq_some]
  constructor
  · rintro ⟨r, hr, hkind, hterm⟩
    exact ⟨r.status, r, hr, hterm, hkind, rfl⟩
  · rintro ⟨_, r, hr, hterm, hkind, rfl⟩
    exact ⟨r, hr, hkind, hterm⟩

/-- The executions that ended are those that ended with one of the outcomes. -/
theorem ended_eq (s : Store) (kind : JobKind) :
    s.ended kind = s.having kind .completed ∪
      (s.having kind .failed ∪ s.having kind .canceled) := by
  ext i
  constructor
  · rintro ⟨r, hr, hkind, hterm⟩
    cases hs : r.status with
    | queued | processing => rw [hs] at hterm; cases hterm
    | completed => exact .inl ⟨r, hr, hkind, hs⟩
    | failed => exact .inr (.inl ⟨r, hr, hkind, hs⟩)
    | canceled => exact .inr (.inr ⟨r, hr, hkind, hs⟩)
  · rintro (⟨r, hr, hkind, hs⟩ | ⟨r, hr, hkind, hs⟩ | ⟨r, hr, hkind, hs⟩) <;>
      exact ⟨r, hr, hkind, by rw [hs]; rfl⟩

theorem disjoint_having {kind : JobKind} {status status' : TaskStatus} (hne : status ≠ status') :
    Disjoint (s.having kind status) (s.having kind status') := by
  rw [Set.disjoint_left]
  rintro i ⟨r, hr, -, rfl⟩ ⟨r', hr', -, rfl⟩
  rw [Option.some.inj (hr.symm.trans hr')] at hne
  exact hne rfl

theorem Counted.exact (h : Counted s) : MetricsExact s := by
  have hfinite : ∀ kind, (s.ended kind).Finite := by
    intro kind
    apply h.finite.subset
    intro i hi
    obtain ⟨status, hstatus⟩ := mem_ended.mp hi
    rw [Set.mem_ofPred_eq, hstatus]
    rfl
  have houtcome : ∀ (kind : JobKind) phase status, phase ∈ jobPhases → status.terminal = true →
      s.operations (.series kind.text (statusText status) phase .count) =
        (s.having kind status).ncard := by
    intro kind phase status hphase hterm
    rw [h.count kind phase _ hphase, having_eq s kind hterm]
  have hother : ∀ (kind : JobKind) phase outcome, phase ∈ jobPhases →
      (∀ status, status.terminal = true → outcome ≠ statusText status) →
      s.operations (.series kind.text outcome phase .count) = 0 := by
    intro kind phase outcome hphase hout
    have hempty : {i | ∃ status, s.ending i = some (kind, status) ∧ outcome = statusText status} =
        ∅ := by
      apply Set.eq_empty_iff_forall_notMem.mpr
      rintro i ⟨status, hi, heq⟩
      obtain ⟨r, -, hterm, -, rfl⟩ := ending_eq_some.mp hi
      exact hout _ hterm heq
    rw [h.count kind phase outcome hphase, hempty]
    simp
  refine ⟨hfinite, houtcome, hother, ?_, h.histograms⟩
  intro kind phase hphase
  have hsupport : (Function.support fun outcome =>
      s.operations (.series kind.text outcome phase .count)) ⊆
      (({statusText .completed, statusText .failed, statusText .canceled} : Finset String) :
        Set String) := by
    intro outcome hne
    by_contra hnot
    refine hne (hother kind phase outcome hphase ?_)
    rintro status hterm rfl
    apply hnot
    cases status with
    | queued | processing => cases hterm
    | completed | failed | canceled => simp
  have hsub : ∀ status, status.terminal = true → (s.having kind status).Finite := by
    intro status hterm
    apply (hfinite kind).subset
    rintro i ⟨r, hr, hkind, rfl⟩
    exact ⟨r, hr, hkind, hterm⟩
  rw [finsum_eq_sum_of_support_subset _ hsupport, ended_eq,
    Set.ncard_union_eq
      (Disjoint.union_right (disjoint_having (by decide)) (disjoint_having (by decide)))
      (hsub _ rfl) ((hsub _ rfl).union (hsub _ rfl)),
    Set.ncard_union_eq (disjoint_having (by decide)) (hsub _ rfl) (hsub _ rfl)]
  rw [Finset.sum_insert (by decide), Finset.sum_insert (by decide), Finset.sum_singleton,
    houtcome kind phase _ hphase rfl, houtcome kind phase _ hphase rfl,
    houtcome kind phase _ hphase rfl]
  push_cast
  rfl

/-- **Exactly-once job metrics.** Whatever the replicas do and in whatever order, every job
that has ended is counted once in each phase, under its kind and the status it ended with,
and every histogram of the hash is consistent. -/
theorem reached_metricsExact (h : StoreReached env s) : MetricsExact s := by
  refine Counted.exact (h.invariant ?_ fun _ _ _ h hst => h.step hst)
  rintro _ rfl
  exact counted_initial

/-- A story that is cancelled while it waits, and the stages of an earlier one. -/
def sampleRecordings : List Recording :=
  [.transaction ⟨1, .register (sampleIntake "e1" e1_length)⟩,
    .observeStages .story [⟨"filter", .success, 3, some "selecting"⟩],
    .transaction ⟨4, .cancel sampleIdentity⟩, .query .search "success" 1 []]

def cancelledStore : Store := sampleRecordings.foldl (Recording.next sampleEnv) .initial

theorem storeReached_foldl {env : Env} {ms : List Recording} (hms : ∀ m ∈ ms, m.NamesStages)
    {s : Store} (h : StoreReached env s) : StoreReached env (ms.foldl (Recording.next env) s) := by
  induction ms generalizing s with
  | nil => exact h
  | cons m ms ih =>
      exact ih (fun m' hm' => hms m' (List.mem_cons_of_mem _ hm'))
        (h.next ⟨hms m List.mem_cons_self, rfl⟩)

theorem metricsExact_cancelledStore : MetricsExact cancelledStore ∧
    cancelledStore.operations (.series "story" "CANCELED" "queue" .count) = 1 ∧
    cancelledStore.operations (.series "story" "CANCELED" "queue" (.bucket (some 2))) = 0 := by
  have hnames : ∀ m ∈ sampleRecordings, m.NamesStages := by
    simp [sampleRecordings, Recording.NamesStages, StageRecord.fullName, jobPhases]
  have hreached : StoreReached sampleEnv cancelledStore := storeReached_foldl hnames (.of_init rfl)
  exact ⟨reached_metricsExact hreached, by decide +kernel, by decide +kernel⟩

end

end Yeodam.Jobs
