/-
Endings without a result.

A cancellation, a recovery and a body that fails its schema end a record with an
event of known size: the two ids are bounded at the intake and everything else is
fixed text. Such an event is never replaced by `tooLarge`, and the event that
replaces another one fits as well.
-/

import Yeodam.Jobs.Steps

namespace Yeodam.Jobs

open Yeodam.Lib

variable {env : Env}

/-- The bounds of the intake on what an event copies from its record. -/
structure JobRecord.Bounded (r : JobRecord) : Prop where
  trip_digits : (toString r.tripId).length ≤ 4300
  execution_length : r.executionId.length ≤ 128

theorem JobRecord.Bounded.request {r : JobRecord} (h : r.Bounded) :
    JobRecord.Bounded { r with cancelRequested := true } :=
  ⟨h.trip_digits, h.execution_length⟩

/-- An error body of known size: flat, and small next to the limit. -/
structure ErrorBody.Small (b : ErrorBody) : Prop where
  nesting : b.toValue.nesting ≤ 2
  encodable : b.toValue.encodable = true
  byteSize : b.toValue.byteSize ≤ 10000

theorem JobResultEvent.byteSize_le {e : JobResultEvent} (hresult : e.result = none) :
    e.byteSize ≤ 300 + 4 * (toString e.tripId).length + 6 * e.executionId.length +
      ((e.error.map ErrorBody.toValue).getD .null).byteSize := by
  have htrip := utf8ByteSize_le (toString e.tripId)
  have hexec := textSize_le e.executionId
  have htype : textSize e.type.text ≤ 20 := by cases e.type <;> decide
  have hstatus : textSize e.status.text ≤ 20 := by cases e.status <;> decide
  have hkeys : textSize "type" + textSize "trip_id" + textSize "execution_id" +
      textSize "status" + textSize "result" + textSize "error" = 52 := by decide
  simp only [byteSize, toValue, hresult, Value.record, Value.ofString, Value.byteSize,
    Value.byteSizeFields, PyStr.byteSize, List.map_cons, List.map_nil, List.length_cons,
    List.length_nil, Option.getD_none]
  omega

/-- The event that replaces a large one fits. -/
theorem JobResultEvent.byteSize_tooLarge {e : JobResultEvent} {size : Nat}
    (htrip : (toString e.tripId).length ≤ 4300) (hexec : e.executionId.length ≤ 128)
    (hsize : size ≤ maxTextBytes) : (e.tooLarge size).byteSize ≤ resultMaxBytes := by
  have hle : (e.tooLarge size).byteSize ≤ 300 + 4 * (toString e.tripId).length +
      6 * e.executionId.length + (((e.tooLarge size).error.map ErrorBody.toValue).getD
        .null).byteSize := JobResultEvent.byteSize_le rfl
  have hdigits : (toString (size : Int)).length ≤ 20 := by
    have hlt : size < 10 ^ 20 := lt_of_le_of_lt hsize (by decide)
    exact Nat.repr_length size 20 (by decide) hlt
  have hbytes := utf8ByteSize_le (toString (size : Int))
  have hmax : (toString (resultMaxBytes : Int)).utf8ByteSize = 6 := by decide
  have htexts : textSize "code" + textSize "message" + textSize "detail" + textSize "max_bytes" +
      textSize "actual_bytes" + textSize ErrorCode.resultTooLarge.text +
      textSize resultTooLargeMessage ≤ 200 := by decide
  have herror : (((e.tooLarge size).error.map ErrorBody.toValue).getD .null).byteSize ≤ 400 := by
    simp only [tooLarge, ErrorBody.toValue, Option.map_some, Option.getD_some, Value.record,
      Value.ofString, Value.byteSize, Value.byteSizeFields, PyStr.byteSize, List.map_cons,
      List.map_nil, List.length_cons, List.length_nil]
    omega
  have hlimit : resultMaxBytes = 524288 := rfl
  omega

/-- The record as an ending without a result leaves it. -/
def JobRecord.noticed (r : JobRecord) (status : TerminalStatus) (error : Option ErrorBody) :
    JobRecord :=
  { r with
    event := some
      { type := r.kind.eventType, tripId := r.tripId, executionId := r.executionId,
        status := status, error := error }
    status := status.toTaskStatus
    currentStep := none }

/-- An ending without a result is exactly the event it asks for. -/
theorem terminate_notice {r : JobRecord} (hr : r.Bounded) {status : TerminalStatus}
    {error : Option ErrorBody} (hcompleted : status ≠ .completed)
    (hfailed : status = .failed ↔ error.isSome = true) (herror : ∀ b ∈ error, b.Small) :
    terminate env r status none error = .ok (r.noticed status error) := by
  have hsmall : ((error.map ErrorBody.toValue).getD .null).nesting ≤ 2 ∧
      ((error.map ErrorBody.toValue).getD .null).encodable = true ∧
      ((error.map ErrorBody.toValue).getD .null).byteSize ≤ 10000 := by
    cases error with
    | none => exact ⟨Nat.zero_le 2, rfl, by decide⟩
    | some b => exact ⟨(herror b rfl).nesting, (herror b rfl).encodable, (herror b rfl).byteSize⟩
  obtain ⟨hnesting, hencodable, hbytes⟩ := hsmall
  let e : JobResultEvent :=
    { type := r.kind.eventType, tripId := r.tripId, executionId := r.executionId,
      status := status, error := error }
  have hcheck : e.checkPayload env = .ok e := by
    have hf : decide (status = .failed) = error.isSome := by
      rw [Bool.eq_iff_iff, decide_eq_true_iff]
      exact hfailed
    simp [JobResultEvent.checkPayload, e, hcompleted, hf]
  have hsize : e.enforceSizeLimit env = .ok e := by
    have hle : e.byteSize ≤ 300 + 4 * (toString r.tripId).length + 6 * r.executionId.length +
        ((error.map ErrorBody.toValue).getD .null).byteSize := JobResultEvent.byteSize_le rfl
    have htrip := hr.trip_digits
    have hexec := hr.execution_length
    have hfits : e.byteSize ≤ resultMaxBytes := by
      have hlimit : resultMaxBytes = 524288 := rfl
      omega
    have hnesting : e.toValue.nesting ≤ env.writeNesting := by
      have hread := env.readNesting_ge
      have hwrite := env.nesting_lt
      simp only [JobResultEvent.toValue, e, Value.record, Value.ofString, Value.nesting,
        Value.nestingFields, List.map_cons, List.map_nil, Option.getD_none]
      omega
    have htext : e.toValue.encodable = true := by
      simpa [JobResultEvent.toValue, e, Value.record, Value.ofString, Value.encodable,
        Value.encodableFields, PyStr.encodable] using hencodable
    simp [JobResultEvent.enforceSizeLimit, hnesting, htext, hfits]
  unfold terminate
  exact except_bind_eq_ok.mpr
    ⟨e, hcheck, except_bind_eq_ok.mpr ⟨e, hsize, by simp [e, hcompleted, JobRecord.noticed]⟩⟩

/-- Such a record can be written if the request in it can. -/
theorem dump_noticed {r : JobRecord} (status : TerminalStatus) {error : Option ErrorBody}
    (hnesting : r.request.nesting + 1 ≤ env.writeNesting) (henc : r.request.encodable = true)
    (herror : ∀ b ∈ error, b.Small) :
    (r.noticed status error).dump env = .ok (r.noticed status error).wire := by
  have hread := env.readNesting_ge
  have hwrite := env.nesting_lt
  have hsmall : ((error.map ErrorBody.toValue).getD .null).nesting ≤ 2 ∧
      ((error.map ErrorBody.toValue).getD .null).encodable = true := by
    cases error with
    | none => exact ⟨Nat.zero_le 2, rfl⟩
    | some b => exact ⟨(herror b rfl).nesting, (herror b rfl).encodable⟩
  have hfits : (r.noticed status error).nesting ≤ env.writeNesting := by
    simp only [JobRecord.nesting, JobRecord.noticed, JobResultEvent.toValue, Value.record,
      Value.ofString, Value.nesting, Value.nestingFields, List.map_cons, List.map_nil,
      Option.getD_none, Option.map_some, Option.getD_some]
    omega
  have htext : (r.noticed status error).encodable = true := by
    simpa [JobRecord.encodable, JobRecord.noticed, JobResultEvent.toValue, Value.record,
      Value.ofString, Value.encodable, Value.encodableFields, PyStr.encodable, henc] using hsmall.2
  simp [JobRecord.dump, hfits, htext]

theorem small_invalidRequest : invalidRequest.Small := ⟨by decide, by decide, by decide⟩

theorem Intake.bounded_blank (q : Intake) : q.blank.Bounded :=
  ⟨q.trip_digits, q.execution_length.2⟩

end Yeodam.Jobs
