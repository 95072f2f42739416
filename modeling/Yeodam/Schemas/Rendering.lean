/-
A rendered result, read back.

The store validates a result again whenever it reads a record and renders it again
whenever it writes one. `ProcessResult.validate_reread` says what that makes of a
rendered result: the same result with each time as its text is read. Where the offset of
Seoul is a number of whole minutes (`Libraries.Lawful.readBack`) that is the time in
Asia/Seoul, which renders as before (`ProcessResult.validate_render`); elsewhere a text
has no seconds of the offset, and the time read is a later one (`instant_reread_le`). All
of it is about results that are rendered, whose times have a clock reading in Seoul.
-/

import Yeodam.Schemas.Process

namespace Yeodam.Schemas

open Yeodam.Lib

universe u v

/-! ### Shapes -/

section Shapes

variable {α : Type u} {β : Type v} {decode : Value → Option α} {render : β → Value} {k : β → α}

theorem get?_record (fields : List (String × Value)) (key : String) :
    (Value.record fields).get? key = fields.lookup key := by
  induction fields with
  | nil => rfl
  | cons f fields ih =>
      obtain ⟨name, v⟩ := f
      simp only [Value.record, Value.get?, List.map_cons, List.find?_cons] at ih ⊢
      rw [List.lookup_cons]
      by_cases hname : name = key
      · subst hname
        simp
      · have hbeq : (key == name) = false := by simpa using fun h => hname h.symm
        have hdec : decide (PyStr.text name = PyStr.text key) = false := by simp [hname]
        rw [hbeq, hdec]
        exact ih

/-- A field without a default is read from its place in a rendered model. -/
theorem required_record {fields : List (String × Value)} (key : String) {v : Value} {x : α}
    (hv : fields.lookup key = some v) (h : decode v = some x) :
    required decode key (.record fields) = some x := by
  rw [required, get?_record, hv]
  exact h

/-- So is a field with a default: a rendered model leaves none out. -/
theorem optional_record {default : α} {fields : List (String × Value)} (key : String) {v : Value}
    {x : α} (hv : fields.lookup key = some v) (h : decode v = some x) :
    optional default decode key (.record fields) = some x := by
  rw [optional, get?_record, hv]
  exact h

theorem model_record {fields : List (String × Value)} :
    model decode (.record fields) = decode (.record fields) := rfl

theorem listOf_renderList {xs : List β} (h : ∀ x ∈ xs, decode (render x) = some (k x)) :
    listOf decode (renderList render xs) = some (xs.map k) := by
  simp only [listOf, renderList]
  induction xs with
  | nil => rfl
  | cons x xs ih =>
      have hx := h x List.mem_cons_self
      have hxs := ih fun x' hx' => h x' (List.mem_cons_of_mem _ hx')
      simp [hx, hxs]

/-- So is a list whose members may fail to be rendered, if none did. -/
theorem listOf_renderList? {render : β → Option Value} {xs : List β} {v : Value}
    (hv : renderList? render xs = some v)
    (h : ∀ x ∈ xs, ∀ u ∈ render x, decode u = some (k x)) : listOf decode v = some (xs.map k) := by
  obtain ⟨vs, hvs, rfl⟩ := Option.map_eq_some_iff.mp hv
  clear hv
  simp only [listOf]
  induction xs generalizing vs with
  | nil =>
      obtain rfl : vs = [] := by simpa using hvs.symm
      rfl
  | cons x xs ih =>
      simp only [List.mapM_cons, Option.bind_eq_bind, Option.bind_eq_some_iff, Option.pure_def,
        Option.some.injEq] at hvs
      obtain ⟨u, hu, us, hus, rfl⟩ := hvs
      have hx := h x List.mem_cons_self u hu
      have hxs := ih (fun x' hx' => h x' (List.mem_cons_of_mem _ hx')) us hus
      simp [hx, hxs]

theorem renderList?_map {γ : Type v} (render : β → Option Value) (f : γ → β) (xs : List γ) :
    renderList? render (xs.map f) = renderList? (fun x => render (f x)) xs := by
  have hmap : (xs.map f).mapM render = xs.mapM fun x => render (f x) := by
    induction xs with
    | nil => rfl
    | cons x xs ih => simp [ih]
  rw [renderList?, renderList?, hmap]

theorem nullable_orNull (decode : Value → Option α) (render : β → Value) (k : β → α) (x : Option β)
    (hnull : ∀ y, render y ≠ .null)
    (h : ∀ y ∈ x, decode (render y) = some (k y)) :
    nullable decode (orNull render x) = some (x.map k) := by
  cases x with
  | none => rfl
  | some y =>
      have hread : nullable decode (render y) = (decode (render y)).map some := by
        unfold nullable
        split
        · rename_i heq
          exact absurd heq (hnull y)
        · rfl
      simp [orNull, hread, h y rfl]

theorem nullable_orNull? {render : β → Option Value} {x : Option β} {v : Value}
    (hv : orNull? render x = some v) (hnull : ∀ y, ∀ u ∈ render y, u ≠ .null)
    (h : ∀ y ∈ x, ∀ u ∈ render y, decode u = some (k y)) :
    nullable decode v = some (x.map k) := by
  cases x with
  | none =>
      cases hv
      rfl
  | some y =>
      have hread : nullable decode v = (decode v).map some := by
        unfold nullable
        split
        · exact absurd rfl (hnull y _ hv)
        · rfl
      simp [hread, h y rfl v hv]

/-- What a decoded list was decoded from. -/
theorem listOf_mem {v : Value} {xs : List α} (h : listOf decode v = some xs) :
    ∀ x ∈ xs, ∃ u, decode u = some x := by
  unfold listOf at h
  split at h
  · rename_i us
    induction us generalizing xs with
    | nil =>
        obtain rfl : xs = [] := by simpa using h.symm
        simp
    | cons u us ih =>
        simp only [List.mapM_cons, Option.bind_eq_bind, Option.bind_eq_some_iff, Option.pure_def,
          Option.some.injEq] at h
        obtain ⟨y, hy, ys, hys, rfl⟩ := h
        intro x hx
        rcases List.mem_cons.mp hx with rfl | hx
        · exact ⟨u, hy⟩
        · exact ih hys x hx
  · cases h

theorem nullable_mem {v : Value} {x : Option α} (h : nullable decode v = some x) :
    ∀ y ∈ x, ∃ u, decode u = some y := by
  unfold nullable at h
  split at h
  · cases h
    simp
  · obtain ⟨y, hy, rfl⟩ := Option.map_eq_some_iff.mp h
    rintro _ ⟨⟩
    exact ⟨v, hy⟩

end Shapes

/-! ### Times -/

variable {lib : Libraries}

@[simp] theorem instant_inSeoul (t : AwareTime) : (inSeoul lib t).instant = t.instant := by
  simp [inSeoul, AwareTime.instant]

/-- Times of one instant are rendered alike. -/
theorem inSeoul_congr {t u : AwareTime} (h : t.instant = u.instant) :
    inSeoul lib t = inSeoul lib u := by
  simp only [inSeoul, h]

theorem renderKst_congr {t u : AwareTime} (h : t.instant = u.instant) :
    renderKst lib t = renderKst lib u := by
  simp only [renderKst, toKst, h, inSeoul_congr h]

@[simp] theorem inSeoul_inSeoul (t : AwareTime) : inSeoul lib (inSeoul lib t) = inSeoul lib t :=
  inSeoul_congr (instant_inSeoul t)

@[simp] theorem renderKst_inSeoul (t : AwareTime) :
    renderKst lib (inSeoul lib t) = renderKst lib t :=
  renderKst_congr (instant_inSeoul t)

/-- The text of the time in Asia/Seoul, if it has one, is read as the time `u`. -/
def Rereads (lib : Libraries) (t u : AwareTime) : Prop :=
  ∀ v ∈ renderKst lib t, lib.awareDatetime v = some u

instance (t u : AwareTime) : Decidable (Rereads lib t u) :=
  inferInstanceAs (Decidable (∀ v ∈ renderKst lib t, lib.awareDatetime v = some u))

/-- The offset of Seoul at the time is a number of whole minutes. -/
def WholeMinutes (lib : Libraries) (t : AwareTime) : Prop := (inSeoul lib t).offset % 60 = 0

instance (t : AwareTime) : Decidable (WholeMinutes lib t) := inferInstanceAs (Decidable (_ = _))

/-- What pydantic promises of the scalars in a result: integers and floats are read as they
are written, and so is a time that is written with an offset without seconds. -/
structure Libraries.Lawful (lib : Libraries) : Prop where
  int : ∀ n, lib.int (.int n) = some n
  float : ∀ x, lib.float (.float x) = some x
  readBack : ∀ v t, lib.awareDatetime v = some t → WholeMinutes lib t →
    Rereads lib t (inSeoul lib t)

theorem renderKst_ne_null (t : AwareTime) : ∀ v ∈ renderKst lib t, v ≠ .null := by
  intro v hv
  obtain ⟨kst, -, rfl⟩ := Option.map_eq_some_iff.mp hv
  simp [Value.ofString]

@[simp] theorem orNull?_inSeoul (x : Option AwareTime) :
    orNull? (renderKst lib) (x.map (inSeoul lib)) = orNull? (renderKst lib) x := by
  cases x <;> simp [orNull?]

/-! ### Enumerations -/

@[simp] theorem RegionOrigin.validate_text (o : RegionOrigin) :
    RegionOrigin.validate (.ofString o.text) = some o := by
  cases o <;> rfl

@[simp] theorem Issue.validate_text (i : Issue) : Issue.validate (.ofString i.text) = some i := by
  cases i <;> rfl

/-! ### The result in Asia/Seoul -/

def PlaceAttachment.mapTimes (g : AwareTime → AwareTime) (a : PlaceAttachment) : PlaceAttachment :=
  { a with takenAt := a.takenAt.map g }

def Place.mapTimes (g : AwareTime → AwareTime) (p : Place) : Place :=
  { p with
    firstTakenAt := p.firstTakenAt.map g
    lastTakenAt := p.lastTakenAt.map g
    attachments := p.attachments.map (PlaceAttachment.mapTimes g) }

def UnclassifiedAttachment.mapTimes (g : AwareTime → AwareTime) (a : UnclassifiedAttachment) :
    UnclassifiedAttachment :=
  { a with takenAt := a.takenAt.map g }

def ProcessResult.mapTimes (g : AwareTime → AwareTime) (r : ProcessResult) : ProcessResult :=
  { r with
    places := r.places.map (Place.mapTimes g)
    unclassified := r.unclassified.map (UnclassifiedAttachment.mapTimes g) }

/-- The result with every time in Asia/Seoul. -/
def ProcessResult.kst (lib : Libraries) (r : ProcessResult) : ProcessResult :=
  r.mapTimes (inSeoul lib)

def Place.times (p : Place) : List AwareTime :=
  p.firstTakenAt.toList ++ p.lastTakenAt.toList ++
    p.attachments.flatMap fun a => a.takenAt.toList

/-- Every time in a result. -/
def ProcessResult.times (r : ProcessResult) : List AwareTime :=
  r.places.flatMap Place.times ++ r.unclassified.flatMap fun a => a.takenAt.toList

@[simp] theorem ProcessResult.times_mapTimes (g : AwareTime → AwareTime) (r : ProcessResult) :
    (r.mapTimes g).times = r.times.map g := by
  have hoption : ∀ x : Option AwareTime, (x.map g).toList = x.toList.map g := by
    intro x
    cases x <;> rfl
  have hplace : ∀ p : Place, (p.mapTimes g).times = p.times.map g := by
    intro p
    simp [Place.times, Place.mapTimes, PlaceAttachment.mapTimes, List.flatMap_map, List.map_flatMap,
      hoption]
  simp [times, mapTimes, UnclassifiedAttachment.mapTimes, List.flatMap_map, List.map_flatMap,
    hoption, hplace]

/-- The photos a result names do not depend on the times in it. -/
@[simp] theorem ProcessResult.ids_mapTimes (g : AwareTime → AwareTime) (r : ProcessResult) :
    (r.mapTimes g).ids = r.ids := by
  simp [ids, mapTimes, List.flatMap_map, Function.comp_def, Place.mapTimes,
    PlaceAttachment.mapTimes, UnclassifiedAttachment.mapTimes]

/-- A result renders its times in Asia/Seoul, wherever they were. -/
@[simp] theorem ProcessResult.render_kst (r : ProcessResult) :
    (r.kst lib).render lib = r.render lib := by
  have hattachment : ∀ a : PlaceAttachment,
      (a.mapTimes (inSeoul lib)).render lib = a.render lib := by
    simp [PlaceAttachment.mapTimes, PlaceAttachment.render]
  have hplace : ∀ p : Place, (p.mapTimes (inSeoul lib)).render lib = p.render lib := by
    simp [Place.mapTimes, Place.render, renderList?_map, hattachment]
  have hunclassified : ∀ a : UnclassifiedAttachment,
      (a.mapTimes (inSeoul lib)).render lib = a.render lib := by
    simp [UnclassifiedAttachment.mapTimes, UnclassifiedAttachment.render]
  simp [kst, mapTimes, render, renderList?_map, hplace, hunclassified]

/-- Two fields that may both fail to be rendered, one after the other. -/
theorem isSome_bind_iff {α β : Type u} {x : Option α} {f : α → Option β} {p : Prop}
    (h : ∀ y, (f y).isSome = true ↔ p) :
    (x.bind f).isSome = true ↔ x.isSome = true ∧ p := by
  cases x with
  | none => simp
  | some y => simp [h y]

theorem isSome_bind_pure {α β : Type u} {x : Option α} {f : α → β} :
    (x.bind fun y => pure (f y)).isSome = true ↔ x.isSome = true := by
  cases x <;> rfl

theorem renderList?_isSome {α : Type u} {render : α → Option Value} {xs : List α} :
    (renderList? render xs).isSome = true ↔ ∀ x ∈ xs, (render x).isSome = true := by
  rw [renderList?, Option.isSome_map]
  induction xs with
  | nil => simp
  | cons x xs ih =>
      rw [List.mapM_cons, List.forall_mem_cons, ← ih]
      exact isSome_bind_iff fun _ => isSome_bind_pure

theorem orNull?_isSome {x : Option AwareTime} : (orNull? (renderKst lib) x).isSome = true ↔
    ∀ t ∈ x.toList, (toKst lib t).isSome = true := by
  cases x <;> simp [orNull?, renderKst]

/-- **A result is rendered** exactly if each of its times has a clock reading in Seoul. -/
theorem ProcessResult.render_isSome (r : ProcessResult) :
    (r.render lib).isSome = true ↔ ∀ t ∈ r.times, (toKst lib t).isSome = true := by
  have hattachment (a : PlaceAttachment) : (a.render lib).isSome = true ↔
      ∀ t ∈ a.takenAt.toList, (toKst lib t).isSome = true := by
    rw [← orNull?_isSome]
    exact isSome_bind_pure
  have hunclassified (a : UnclassifiedAttachment) : (a.render lib).isSome = true ↔
      ∀ t ∈ a.takenAt.toList, (toKst lib t).isSome = true := by
    rw [← orNull?_isSome]
    exact isSome_bind_pure
  have hplace (p : Place) : (p.render lib).isSome = true ↔
      ∀ t ∈ p.times, (toKst lib t).isSome = true := by
    have hparts : (p.render lib).isSome = true ↔
        (orNull? (renderKst lib) p.firstTakenAt).isSome = true ∧
          (orNull? (renderKst lib) p.lastTakenAt).isSome = true ∧
            (renderList? (PlaceAttachment.render lib) p.attachments).isSome = true :=
      isSome_bind_iff fun _ => isSome_bind_iff fun _ => isSome_bind_pure
    rw [hparts, orNull?_isSome, orNull?_isSome, renderList?_isSome, Place.times,
      List.forall_mem_append, List.forall_mem_append, List.forall_mem_flatMap, and_assoc]
    simp only [hattachment]
  have hparts : (r.render lib).isSome = true ↔
      (renderList? (Place.render lib) r.places).isSome = true ∧
        (renderList? (UnclassifiedAttachment.render lib) r.unclassified).isSome = true :=
    isSome_bind_iff fun _ => isSome_bind_pure
  rw [hparts, renderList?_isSome, renderList?_isSome, times, List.forall_mem_append,
    List.forall_mem_flatMap, List.forall_mem_flatMap]
  simp only [hplace, hunclassified]

/-! ### What the validators check -/

/-- `_origin_known`, and the range of `evaluation`. -/
structure PlaceAttachment.Valid (a : PlaceAttachment) : Prop where
  origin : a.regionOrigin ≠ .unknown
  evaluation : (decide (0 ≤ a.evaluation) && decide (a.evaluation ≤ 100)) = true

/-- `_representative_in_attachments`, and at least one attachment. -/
structure Place.Valid (p : Place) : Prop where
  attachments : ∀ a ∈ p.attachments, a.Valid
  nonempty : p.attachments.isEmpty = false
  representative :
    p.representativeAttachmentId ∈ p.attachments.map PlaceAttachment.tripAttachmentId

/-- `_issue_rules`, and the range of `evaluation`. -/
structure UnclassifiedAttachment.Valid (a : UnclassifiedAttachment) : Prop where
  issue : ¬ (a.issue = .duplicated ∧ a.duplicateOfAttachmentId = none)
  evaluation : ∀ n ∈ a.evaluation, (decide (0 ≤ n) && decide (n ≤ 100)) = true

/-- `_attachment_ids_unique`, with the rules of every part. -/
structure ProcessResult.Valid (r : ProcessResult) : Prop where
  places : ∀ p ∈ r.places, p.Valid
  unclassified : ∀ a ∈ r.unclassified, a.Valid
  clockOffsets : ∀ c ∈ r.clockOffsets, decide (0 ≤ c.matchedPairs) = true
  ids : r.ids.Nodup

/-! ### What a validated result satisfies -/

theorem model_cases {α : Type u} {decode : Value → Option α} {v : Value} {x : α}
    (h : model decode v = some x) : decode v = some x := by
  unfold model at h
  split at h
  · exact h
  · cases h

theorem required_cases {α : Type u} {decode : Value → Option α} {key : String} {v : Value} {x : α}
    (h : required decode key v = some x) : ∃ u, decode u = some x := by
  obtain ⟨u, -, hu⟩ := Option.bind_eq_some_iff.mp h
  exact ⟨u, hu⟩

theorem optional_cases {α : Type u} {decode : Value → Option α} {key : String} {v : Value}
    {default x : α} (h : optional default decode key v = some x) :
    x = default ∨ ∃ u, decode u = some x := by
  unfold optional at h
  split at h
  · cases h
    exact .inl rfl
  · exact .inr ⟨_, h⟩

theorem constrained_cases {α : Type u} {decode : Value → Option α} {ok : α → Bool} {v : Value}
    {x : α} (h : constrained decode ok v = some x) : decode v = some x ∧ ok x = true :=
  Option.filter_eq_some_iff.mp h

/-- A time a result takes from its text. -/
def Read (lib : Libraries) (t : AwareTime) : Prop := ∃ u, lib.awareDatetime u = some t

theorem takenAt_cases {key : String} {v : Value} {x : Option AwareTime}
    (h : optional none (nullable lib.awareDatetime) key v = some x) : ∀ t ∈ x, Read lib t := by
  rcases optional_cases h with rfl | ⟨u, hu⟩
  · simp
  · exact nullable_mem hu

theorem percent_cases {u : Value} {n : Int} (h : percent lib u = some n) :
    (decide (0 ≤ n) && decide (n ≤ 100)) = true :=
  (constrained_cases h).2

theorem PlaceAttachment.validate_cases {v : Value} {a : PlaceAttachment}
    (h : PlaceAttachment.validate lib v = some a) : (∀ t ∈ a.takenAt, Read lib t) ∧ a.Valid := by
  replace h := model_cases h
  simp only [Option.bind_eq_bind, Option.bind_eq_some_iff, Option.pure_def] at h
  obtain ⟨_, -, takenAt, htaken, _, -, _, -, _, -, evaluation, hevaluation, h⟩ := h
  split at h
  · cases h
  · rename_i hknown
    cases h
    obtain ⟨u, hu⟩ := required_cases hevaluation
    exact ⟨takenAt_cases htaken, hknown, percent_cases hu⟩

theorem Place.validate_cases {v : Value} {p : Place} (h : Place.validate lib v = some p) :
    (∀ t ∈ p.times, Read lib t) ∧ p.Valid := by
  replace h := model_cases h
  simp only [Option.bind_eq_bind, Option.bind_eq_some_iff, Option.pure_def] at h
  obtain ⟨_, -, _, -, _, -, _, -, _, hfirst, _, hlast, _, -, attachments, hattachments, h⟩ := h
  split at h
  · cases h
  · rename_i hmem
    cases h
    obtain ⟨u, hu⟩ := required_cases hattachments
    obtain ⟨hlist, hne⟩ := constrained_cases hu
    have hread : ∀ a ∈ attachments, (∀ t ∈ a.takenAt, Read lib t) ∧ a.Valid := by
      intro a ha
      obtain ⟨w, hw⟩ := listOf_mem hlist a ha
      exact PlaceAttachment.validate_cases hw
    refine ⟨?_, fun a ha => (hread a ha).2, by simpa using hne, not_not.mp hmem⟩
    intro t ht
    simp only [times, List.mem_append, Option.mem_toList, List.mem_flatMap] at ht
    rcases ht with (ht | ht) | ⟨a, ha, ht⟩
    · exact takenAt_cases hfirst t ht
    · exact takenAt_cases hlast t ht
    · exact (hread a ha).1 t ht

theorem UnclassifiedAttachment.validate_cases {v : Value} {a : UnclassifiedAttachment}
    (h : UnclassifiedAttachment.validate lib v = some a) :
    (∀ t ∈ a.takenAt, Read lib t) ∧ a.Valid := by
  replace h := model_cases h
  simp only [Option.bind_eq_bind, Option.bind_eq_some_iff, Option.pure_def] at h
  obtain ⟨_, -, _, -, _, -, _, -, _, htaken, _, -, _, -, _, -, evaluation, hevaluation, h⟩ := h
  split at h
  · cases h
  · rename_i hrules
    cases h
    refine ⟨takenAt_cases htaken, hrules, ?_⟩
    rcases optional_cases hevaluation with rfl | ⟨u, hu⟩
    · simp
    · intro n hn
      obtain ⟨u, hu⟩ := nullable_mem hu n hn
      exact percent_cases hu

theorem ClockOffset.validate_cases {v : Value} {c : ClockOffset}
    (h : ClockOffset.validate lib v = some c) : decide (0 ≤ c.matchedPairs) = true := by
  replace h := model_cases h
  simp only [Option.bind_eq_bind, Option.bind_eq_some_iff, Option.pure_def] at h
  obtain ⟨_, -, _, -, _, hpairs, h⟩ := h
  cases h
  obtain ⟨u, hu⟩ := required_cases hpairs
  exact (constrained_cases hu).2

theorem ProcessResult.validate_cases {v : Value} {r : ProcessResult}
    (h : ProcessResult.validate lib v = some r) : (∀ t ∈ r.times, Read lib t) ∧ r.Valid := by
  replace h := model_cases h
  simp only [Option.bind_eq_bind, Option.bind_eq_some_iff, Option.pure_def] at h
  obtain ⟨places, hplaces, unclassified, hunclassified, _, -, _, hclock, h⟩ := h
  split at h
  · rename_i hnodup
    cases h
    obtain ⟨_, hplaces⟩ := required_cases hplaces
    obtain ⟨_, hunclassified⟩ := required_cases hunclassified
    have hplace : ∀ p ∈ places, (∀ t ∈ p.times, Read lib t) ∧ p.Valid := by
      intro p hp
      obtain ⟨u, hu⟩ := listOf_mem hplaces p hp
      exact Place.validate_cases hu
    have hphoto : ∀ a ∈ unclassified, (∀ t ∈ a.takenAt, Read lib t) ∧ a.Valid := by
      intro a ha
      obtain ⟨u, hu⟩ := listOf_mem hunclassified a ha
      exact UnclassifiedAttachment.validate_cases hu
    refine ⟨?_, fun p hp => (hplace p hp).2, fun a ha => (hphoto a ha).2, ?_, hnodup⟩
    · intro t ht
      rcases List.mem_append.mp ht with ht | ht
      · obtain ⟨p, hp, ht⟩ := List.mem_flatMap.mp ht
        exact (hplace p hp).1 t ht
      · obtain ⟨a, ha, ht⟩ := List.mem_flatMap.mp ht
        exact (hphoto a ha).1 t (Option.mem_toList.mp ht)
    · rcases optional_cases hclock with rfl | ⟨_, hclock⟩
      · simp
      · intro c hc
        obtain ⟨u, hu⟩ := listOf_mem hclock c hc
        exact ClockOffset.validate_cases hu
  · cases h

/-! ### A rendered result is read back -/

@[simp] theorem isObj_record (fields : List (String × Value)) :
    (Value.record fields).isObj = true := rfl

theorem percent_int (hlib : lib.Lawful) {n : Int}
    (hn : (decide (0 ≤ n) && decide (n ≤ 100)) = true) : percent lib (.int n) = some n := by
  simp only [percent, constrained, hlib.int]
  exact Option.filter_some_pos hn

variable {g : AwareTime → AwareTime} {v : Value}

theorem takenAt_render {x : Option AwareTime} (hv : orNull? (renderKst lib) x = some v)
    (hread : ∀ t ∈ x, Rereads lib t (g t)) : nullable lib.awareDatetime v = some (x.map g) :=
  nullable_orNull? hv renderKst_ne_null hread

theorem int_render (hlib : lib.Lawful) (x : Option Int) :
    nullable lib.int (orNull .int x) = some x := by
  have h := nullable_orNull lib.int .int id x
    (by simp) fun n _ => hlib.int n
  simpa using h

theorem float_render (hlib : lib.Lawful) (x : Option PyFloat) :
    nullable lib.float (orNull .float x) = some x := by
  have h := nullable_orNull lib.float .float id x
    (by simp) fun y _ => hlib.float y
  simpa using h

theorem str_render (x : Option String) : nullable str (orNull .ofString x) = some x := by
  have h := nullable_orNull str .ofString id x
    (by simp [Value.ofString]) fun y _ => rfl
  simpa using h

@[simp] theorem str_ofString (s : String) : str (.ofString s) = some s := rfl

theorem PlaceAttachment.validate_reread (hlib : lib.Lawful) {a : PlaceAttachment} (h : a.Valid)
    (hread : ∀ t ∈ a.takenAt, Rereads lib t (g t)) (hv : a.render lib = some v) :
    PlaceAttachment.validate lib v = some (a.mapTimes g) := by
  obtain ⟨takenAt, htaken, hv⟩ := Option.bind_eq_some_iff.mp hv
  cases hv
  simp [validate, model, required, optional, get?_record, List.lookup_cons, hlib.int, hlib.float,
    takenAt_render htaken hread, percent_int hlib h.evaluation, h.origin, mapTimes]

theorem Place.validate_reread (hlib : lib.Lawful) {p : Place} (h : p.Valid)
    (hread : ∀ t ∈ p.times, Rereads lib t (g t)) (hv : p.render lib = some v) :
    Place.validate lib v = some (p.mapTimes g) := by
  simp only [render, Option.bind_eq_bind, Option.bind_eq_some_iff, Option.pure_def] at hv
  obtain ⟨first, hfirstRendered, last, hlastRendered, attachments, hattachments, hv⟩ := hv
  cases hv
  have hfirst : ∀ t ∈ p.firstTakenAt, Rereads lib t (g t) := fun t ht =>
    hread t (by simp [times, Option.mem_toList.mpr ht])
  have hlast : ∀ t ∈ p.lastTakenAt, Rereads lib t (g t) := fun t ht =>
    hread t (by simp [times, Option.mem_toList.mpr ht])
  have hlist : listOf (PlaceAttachment.validate lib) attachments =
      some (p.attachments.map (PlaceAttachment.mapTimes g)) := by
    refine listOf_renderList? hattachments fun a ha u hu => ?_
    refine PlaceAttachment.validate_reread hlib (h.attachments a ha) (fun t ht => hread t ?_) hu
    exact List.mem_append_right _ (List.mem_flatMap.mpr ⟨a, ha, Option.mem_toList.mpr ht⟩)
  have hfilled : constrained (listOf (PlaceAttachment.validate lib)) (fun xs => !xs.isEmpty)
      attachments = some (p.attachments.map (PlaceAttachment.mapTimes g)) := by
    simp only [constrained, hlist]
    exact Option.filter_some_pos (by simpa using h.nonempty)
  have hmem : ∃ a, a ∈ p.attachments ∧
      (a.mapTimes g).tripAttachmentId = p.representativeAttachmentId :=
    List.mem_map.mp h.representative
  rw [validate, model_record,
    required_record "place_id" rfl (str_ofString p.placeId),
    optional_record "matched_trip_place_id" rfl (int_render hlib p.matchedTripPlaceId),
    required_record "latitude" rfl (hlib.float p.latitude),
    required_record "longitude" rfl (hlib.float p.longitude),
    optional_record "first_taken_at" rfl (takenAt_render hfirstRendered hfirst),
    optional_record "last_taken_at" rfl (takenAt_render hlastRendered hlast),
    required_record "representative_attachment_id" rfl
      (hlib.int p.representativeAttachmentId),
    required_record "attachments" rfl hfilled]
  simp [hmem, mapTimes]

theorem UnclassifiedAttachment.validate_reread (hlib : lib.Lawful) {a : UnclassifiedAttachment}
    (h : a.Valid) (hread : ∀ t ∈ a.takenAt, Rereads lib t (g t)) (hv : a.render lib = some v) :
    UnclassifiedAttachment.validate lib v = some (a.mapTimes g) := by
  obtain ⟨takenAt, htaken, hv⟩ := Option.bind_eq_some_iff.mp hv
  cases hv
  have hevaluation : nullable (percent lib) (orNull .int a.evaluation) = some a.evaluation := by
    have hnull := nullable_orNull (percent lib) .int id
      a.evaluation (by simp) fun n hn => percent_int hlib (h.evaluation n hn)
    simpa using hnull
  rw [validate, model_record,
    required_record "trip_attachment_id" rfl (hlib.int a.tripAttachmentId),
    required_record "issue" rfl (Issue.validate_text a.issue),
    optional_record "place_id" rfl (str_render a.placeId),
    optional_record "duplicate_of_attachment_id" rfl
      (int_render hlib a.duplicateOfAttachmentId),
    optional_record "taken_at" rfl (takenAt_render htaken hread),
    optional_record "latitude" rfl (float_render hlib a.latitude),
    optional_record "longitude" rfl (float_render hlib a.longitude),
    required_record "region_origin" rfl (RegionOrigin.validate_text a.regionOrigin),
    optional_record "evaluation" rfl hevaluation]
  simp [h.issue, mapTimes]

theorem failedAttachment_render (hlib : lib.Lawful) (n : Int) :
    failedAttachment lib (renderFailed n) = some n := by
  simp [failedAttachment, renderFailed, model, required, get?_record, List.lookup_cons,
    hlib.int, oneOf]

theorem ClockOffset.validate_render (hlib : lib.Lawful) {c : ClockOffset}
    (h : decide (0 ≤ c.matchedPairs) = true) : ClockOffset.validate lib c.render = some c := by
  have hcount : constrained lib.int (fun n => decide (0 ≤ n)) (.int c.matchedPairs) =
      some c.matchedPairs := by
    simp only [constrained, hlib.int]
    exact Option.filter_some_pos h
  simp [validate, render, model, required, get?_record, List.lookup_cons, hlib.int, hcount]

/-- **A rendered result is read back** as the result with every time as its text is read. -/
theorem ProcessResult.validate_reread (hlib : lib.Lawful) {r : ProcessResult} (h : r.Valid)
    (hread : ∀ t ∈ r.times, Rereads lib t (g t)) (hv : r.render lib = some v) :
    ProcessResult.validate lib v = some (r.mapTimes g) := by
  simp only [render, Option.bind_eq_bind, Option.bind_eq_some_iff, Option.pure_def] at hv
  obtain ⟨places, hplaces, unclassified, hunclassified, hv⟩ := hv
  cases hv
  have hplaces' : listOf (Place.validate lib) places =
      some (r.places.map (Place.mapTimes g)) := by
    refine listOf_renderList? hplaces fun p hp u hu => ?_
    refine Place.validate_reread hlib (h.places p hp) (fun t ht => hread t ?_) hu
    exact List.mem_append_left _ (List.mem_flatMap.mpr ⟨p, hp, ht⟩)
  have hunclassified' : listOf (UnclassifiedAttachment.validate lib) unclassified =
      some (r.unclassified.map (UnclassifiedAttachment.mapTimes g)) := by
    refine listOf_renderList? hunclassified fun a ha u hu => ?_
    refine UnclassifiedAttachment.validate_reread hlib (h.unclassified a ha)
      (fun t ht => hread t ?_) hu
    exact List.mem_append_right _ (List.mem_flatMap.mpr ⟨a, ha, Option.mem_toList.mpr ht⟩)
  have hfailed : listOf (failedAttachment lib) (renderList renderFailed r.failed) =
      some (r.failed.map id) :=
    listOf_renderList fun n _ => failedAttachment_render hlib n
  have hclock : listOf (ClockOffset.validate lib) (renderList ClockOffset.render r.clockOffsets) =
      some (r.clockOffsets.map id) :=
    listOf_renderList fun c hc => ClockOffset.validate_render hlib (h.clockOffsets c hc)
  have hids : (r.mapTimes g).ids.Nodup := by
    rw [ids_mapTimes]
    exact h.ids
  simp only [validate, model, required, optional, get?_record, List.lookup_cons]
  simp [hplaces', hunclassified', hfailed, hclock]
  exact ⟨hids, rfl⟩

/-- If the offset at each of its times is a number of whole minutes, a rendered result is
read back in Asia/Seoul. -/
theorem ProcessResult.validate_render (hlib : lib.Lawful) {u : Value} {r : ProcessResult}
    (h : ProcessResult.validate lib u = some r) (hwhole : ∀ t ∈ r.times, WholeMinutes lib t)
    (hv : r.render lib = some v) : ProcessResult.validate lib v = some (r.kst lib) := by
  obtain ⟨hread, hvalid⟩ := validate_cases h
  refine validate_reread hlib hvalid (fun t ht => ?_) hv
  obtain ⟨u, hu⟩ := hread t ht
  exact hlib.readBack u t hu (hwhole t ht)

/-! ### Offsets with seconds -/

/-- The time a text denotes: pydantic writes an offset as hours and minutes. -/
def AwareTime.written (t : AwareTime) : AwareTime := { t with offset := t.offset.tdiv 60 * 60 }

/-- The time as it is read from its text in Asia/Seoul. -/
def reread (lib : Libraries) (t : AwareTime) : AwareTime := (inSeoul lib t).written

/-- What pydantic and the zone data promise of every time some text denotes: if it has a
clock reading in Seoul, it is written with its offset in hours and minutes and read as it is
written; and Seoul lies east of Greenwich. -/
structure Libraries.Written (lib : Libraries) : Prop where
  int : ∀ n, lib.int (.int n) = some n
  float : ∀ x, lib.float (.float x) = some x
  written : ∀ v t, lib.awareDatetime v = some t → Rereads lib t (reread lib t)
  east : ∀ instant, 0 ≤ lib.seoulOffset instant

theorem reread_of_whole {t : AwareTime} (h : WholeMinutes lib t) :
    reread lib t = inSeoul lib t := by
  have hdiv : (inSeoul lib t).offset.tdiv 60 * 60 = (inSeoul lib t).offset :=
    Int.tdiv_mul_cancel (Int.dvd_of_emod_eq_zero h)
  rw [reread, AwareTime.written, hdiv]

theorem Libraries.Written.lawful (h : lib.Written) : lib.Lawful := by
  refine ⟨h.int, h.float, fun v t hread hwhole => ?_⟩
  have hreread := h.written v t hread
  rwa [reread_of_whole hwhole] at hreread

theorem instant_reread (t : AwareTime) : (reread lib t).instant =
    t.instant + ((inSeoul lib t).offset - (inSeoul lib t).offset.tdiv 60 * 60) * 1000000 := by
  simp only [reread, AwareTime.written, AwareTime.instant, inSeoul]
  omega

/-- What is lost of an offset moves the time on. -/
theorem instant_reread_le (h : lib.Written) (t : AwareTime) :
    t.instant ≤ (reread lib t).instant := by
  have heast : 0 ≤ (inSeoul lib t).offset := h.east _
  rw [instant_reread, Int.tdiv_eq_ediv_of_nonneg heast]
  omega

theorem instant_reread_eq_iff (h : lib.Written) (t : AwareTime) :
    (reread lib t).instant = t.instant ↔ WholeMinutes lib t := by
  have heast : 0 ≤ (inSeoul lib t).offset := h.east _
  rw [instant_reread, Int.tdiv_eq_ediv_of_nonneg heast, WholeMinutes]
  omega

end Yeodam.Schemas
