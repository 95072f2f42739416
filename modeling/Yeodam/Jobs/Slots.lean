/-
Execution slots: who holds them, and how many jobs can run at once.

`Located` already says that a running record holds one slot of its kind and nothing
else holds a slot. What it cannot say is how many slots of a kind are held, because
that counts over all executions: `occupied_le_of_transaction` bounds it along a run,
and the number of running records is at most the number of held slots.
-/

import Yeodam.Jobs.Indexes

namespace Yeodam.Jobs

open Yeodam.Lib

/-! ### The slot keys -/

theorem slotKeys_nodup (kind : JobKind) : (slotKeys kind).Nodup := by
  cases kind <;> decide

theorem slotKeys_disjoint {key : String} {kind kind' : JobKind} (h : key ∈ slotKeys kind)
    (h' : key ∈ slotKeys kind') : kind = kind' := by
  have hno : ∀ key ∈ slotKeys .process, key ∉ slotKeys .story := by decide
  cases kind <;> cases kind'
  · rfl
  · exact absurd h' (hno key h)
  · exact absurd h (hno key h')
  · rfl

theorem slotLimit_le_length (env : Env) (kind : JobKind) :
    slotLimit env kind ≤ (slotKeys kind).length := by
  cases kind with
  | process => exact le_refl 1
  | story => exact env.cfg.storyConcurrency_le

section Occupied

variable {env : Env} {s s' : Store} {now : Time} {op : Op} {kind : JobKind}

/-- Slots that only become free are not more of them occupied. -/
theorem occupied_le_of_slots
    (h : ∀ key ∈ slotKeys kind, (s'.slots key).isSome = true → (s.slots key).isSome = true) :
    s'.occupied kind ≤ s.occupied kind := by
  simp only [Store.occupied, ← List.countP_eq_length_filter]
  exact List.countP_mono_left h

/-- Taking one slot occupies at most one more. -/
theorem occupied_setSlot_le {slot i : String} :
    (s.setSlot slot i).occupied kind ≤ s.occupied kind + 1 := by
  have hnodup := slotKeys_nodup kind
  simp only [Store.occupied, ← List.countP_eq_length_filter]
  generalize slotKeys kind = keys at hnodup
  induction keys with
  | nil => simp
  | cons key keys ih =>
      obtain ⟨hkey, hkeys⟩ := List.nodup_cons.mp hnodup
      simp only [List.countP_cons]
      by_cases hslot : key = slot
      · -- The other keys are different ones, so their occupants are as before.
        have hrest : keys.countP (fun k => ((s.setSlot slot i).slots k).isSome) =
            keys.countP fun k => (s.slots k).isSome := by
          apply List.countP_congr
          intro k hk
          have hne : k ≠ slot := fun h => hkey (hslot ▸ h ▸ hk)
          simp [Store.setSlot, Function.update_of_ne hne]
        rw [hrest]
        split <;> split <;> omega
      · have hsame : (s.setSlot slot i).slots key = s.slots key := by
          simp [Store.setSlot, Function.update_of_ne hslot]
        have := ih hkeys
        rw [hsame]
        omega

theorem slots_close_isSome {i key : String} {r : JobRecord}
    (h : ((s.close i r now).slots key).isSome = true) : (s.slots key).isSome = true := by
  have hslots : (s.close i r now).slots = (s.releaseSlots r.kind i).slots := by
    unfold Store.close
    dsimp only
    split <;> rfl
  rw [hslots] at h
  simp only [Store.releaseSlots] at h
  split at h
  · cases h
  · exact h

theorem slots_requeue_isSome {i key : String} (score : Time)
    (h : ((s.requeue i kind score).slots key).isSome = true) : (s.slots key).isSome = true := by
  have hslots : (s.requeue i kind score).slots = (s.releaseSlots kind i).slots := rfl
  rw [hslots] at h
  simp only [Store.releaseSlots] at h
  split at h
  · cases h
  · exact h

theorem slots_writeChange_isSome {i key : String} {wasTerminal : Bool} {r : JobRecord}
    {queueScore : Option Time} (hw : writeChange env i wasTerminal r queueScore now s = .ok s')
    (h : (s'.slots key).isSome = true) : (s.slots key).isSome = true := by
  obtain ⟨stored, -, ⟨-, rfl⟩ | ⟨-, d, -, rfl⟩ | ⟨-, -, rfl⟩ | ⟨-, score, -, rfl⟩⟩ :=
    writeChange_cases hw
  · have hslots := slots_close_isSome h
    split at hslots <;> exact hslots
  · exact h
  · exact h
  · exact slots_requeue_isSome score h

/-- **Step lemma.** No transaction occupies more slots of a kind than its limit. -/
theorem occupied_le_of_transaction (hle : ∀ kind, s.occupied kind ≤ slotLimit env kind)
    (h : Transaction env now s op s') (kind : JobKind) : s'.occupied kind ≤ slotLimit env kind := by
  cases h with
  | unchanged | ignored | unqueued | acknowledged | staged | popped => exact hle kind
  | @accepted q record stored staged _ _ _ _ =>
      have hslots : (s.accept (record.identity env.sha256) stored staged now).slots = s.slots := by
        unfold Store.accept
        dsimp only
        split <;> rfl
      simp only [Store.occupied, hslots]
      exact hle kind
  | swept =>
      refine (occupied_le_of_slots fun key _ h => ?_).trans (hle kind)
      simp only [Store.deleteSlots] at h
      split at h
      · cases h
      · exact h
  | @claimed kind' _ _ slot identity _ _ _ stored hslot _ hlimit =>
      by_cases hk : kind = kind'
      · subst hk
        exact (occupied_setSlot_le (s := s.dequeue stored.kind identity)).trans hlimit
      · -- A slot of one kind is no slot of the other.
        refine (occupied_le_of_slots fun key hkey h => ?_).trans (hle kind)
        have hne : key ≠ slot := fun heq => hk (slotKeys_disjoint (heq ▸ hkey) hslot)
        have hsame : (s.occupy env slot identity stored now).slots key = s.slots key :=
          Function.update_of_ne hne _ _
        rwa [hsame] at h
  | changed _ _ _ _ hw =>
      exact (occupied_le_of_slots fun _ _ h => slots_writeChange_isSome hw h).trans (hle kind)

theorem reached_occupied_le {w : World} (h : Reached env w) (kind : JobKind) :
    w.store.occupied kind ≤ slotLimit env kind := by
  revert kind
  refine h.invariant (P := fun w => ∀ kind, w.store.occupied kind ≤ slotLimit env kind) ?_ ?_
  · rintro ⟨clock, s⟩ rfl kind
    simp [Store.occupied, Store.initial]
  · rintro w e w' hle ⟨-, rfl⟩ kind
    exact occupied_le_of_transaction hle (transaction_after ..) kind

end Occupied

/-! ### The search for a free slot -/

section Claim

variable {env : Env} {s : Store} {now : Time} {kind : JobKind}

/-- Below the limit there is a free slot. -/
theorem exists_free_slot (h : s.occupied kind < slotLimit env kind) :
    ∃ slot, (slotKeys kind).find? (fun key => (s.slots key).isNone) = some slot := by
  rw [← Option.isSome_iff_exists, List.find?_isSome]
  by_contra hnone
  have hall : ∀ key ∈ slotKeys kind, (s.slots key).isSome = true := by
    intro key hkey
    by_contra hfree
    exact hnone ⟨key, hkey, by simpa using hfree⟩
  have hfull : s.occupied kind = (slotKeys kind).length := by
    rw [Store.occupied, List.filter_eq_self.mpr hall]
  have := slotLimit_le_length env kind
  omega

theorem load_error {raw : JobRecord} {e : JobError} (h : raw.load env = .error e) :
    ∃ message, e = .validation message := by
  unfold JobRecord.load at h
  split at h
  · split at h
    · cases h
    · rename_i event _
      cases hc : event.checkPayload env with
      | ok event' =>
          rw [hc] at h
          cases h
      | error e' =>
          rw [hc] at h
          cases h
          unfold JobResultEvent.checkPayload at hc
          split at hc
          · cases hc
            exact ⟨_, rfl⟩
          split at hc
          · cases hc
            exact ⟨_, rfl⟩
          split at hc
          · cases hc
          split at hc
          · cases hc
            exact ⟨_, rfl⟩
          split at hc
          · cases hc
          · cases hc
            exact ⟨_, rfl⟩
  · cases h
    exact ⟨_, rfl⟩

theorem get_error {i : String} {e : JobError} (h : get env i s = .error e) :
    ∃ message, e = .validation message := by
  unfold get at h
  split at h
  · cases h
  · rename_i raw _
    cases hl : raw.load env with
    | ok r =>
        rw [hl] at h
        cases h
    | error e' =>
        rw [hl] at h
        cases h
        exact load_error hl

theorem staleSlots_error {keys : List String} {e : JobError}
    (h : staleSlots env s keys = .error e) : ∃ message, e = .validation message := by
  induction keys with
  | nil => cases h
  | cons key keys ih =>
      rw [staleSlots] at h
      rcases except_bind_eq_error.mp h with h | ⟨record, -, h⟩
      · unfold follow at h
        split at h
        · cases h
        · exact get_error h
      · rcases except_bind_eq_error.mp h with h | ⟨stale, -, h⟩
        · exact ih h
        · cases h

/-- `occupants.index(None)` finds a slot whenever the capacity check has passed. -/
theorem claim_finds_slot {owner : String} {stop : Bool} :
    claim env kind owner stop now s ≠ .error (.value "None is not in list") := by
  intro h
  unfold claim at h
  rcases except_bind_eq_error.mp h with h | ⟨stale, -, h⟩
  · obtain ⟨message, h⟩ := staleSlots_error h
    cases h
  dsimp only at h
  split at h
  · cases h
  split at h
  · cases h
  rename_i hfree
  obtain ⟨slot, hslot⟩ := exists_free_slot (not_le.mp hfree)
  rw [hslot] at h
  dsimp only at h
  split at h
  · cases h
  rcases except_bind_eq_error.mp h with h | ⟨record, -, h⟩
  · obtain ⟨message, h⟩ := get_error h
    cases h
  split at h
  · cases h
  split at h
  · cases h
  rcases except_bind_eq_error.mp h with h | ⟨stored, -, h⟩
  · unfold JobRecord.dump at h
    split at h <;> cases h
  · cases h

end Claim

/-! ### Slots against records -/

variable {env : Env}

/-- Slots and running records agree. -/
structure SlotsConsistent (env : Env) (s : Store) : Prop where
  /-- A running record occupies exactly one slot of its kind. -/
  running : ∀ i r, s.jobs i = some r → r.status = .processing →
    ∃! key, key ∈ slotKeys r.kind ∧ s.slots key = some i
  /-- An occupied slot belongs to a running record of its kind. -/
  occupied : ∀ kind key i, key ∈ slotKeys kind → s.slots key = some i →
    ∃ r, s.jobs i = some r ∧ r.status = .processing ∧ r.kind = kind
  distinct : ∀ key key' i, s.slots key = some i → s.slots key' = some i → key = key'
  capacity : ∀ kind,
    {i | ∃ r, s.jobs i = some r ∧ r.kind = kind ∧ r.status = .processing}.encard ≤
      slotLimit env kind
  free : ∀ kind, s.occupied kind < slotLimit env kind →
    ∃ slot, (slotKeys kind).find? (fun key => (s.slots key).isNone) = some slot
  search : ∀ kind owner stop now,
    claim env kind owner stop now s ≠ .error (.value "None is not in list")

theorem Located.of_processing {s : Store} {i : String} {r : JobRecord}
    (h : Located env (s.placement i)) (hr : s.jobs i = some r) (hs : r.status = .processing) :
    ∃ slot ∈ slotKeys r.kind, ∀ key, s.slots key = some i ↔ key = slot := by
  have hjob : (s.placement i).job = some r.core := by simp [Store.placement, hr]
  have hslots : (s.placement i).slots = {key | s.slots key = some i} := rfl
  have hs' : r.core.status = .processing := hs
  generalize s.placement i = p at h hjob hslots
  cases h with
  | absent => cases hjob
  | @waiting r₀ _ hs₀ _ =>
      obtain rfl : r₀ = r.core := Option.some.inj hjob
      rw [hs'] at hs₀
      cases hs₀
  | @running r₀ _ slot _ _ _ hslot =>
      obtain rfl : r₀ = r.core := Option.some.inj hjob
      exact ⟨slot, hslot, fun key => (Set.ext_iff.mp hslots key).symm⟩
  | @ended r₀ _ hterm _ _ =>
      obtain rfl : r₀ = r.core := Option.some.inj hjob
      rw [hs'] at hterm
      cases hterm
  | @published r₀ hterm _ _ =>
      obtain rfl : r₀ = r.core := Option.some.inj hjob
      rw [hs'] at hterm
      cases hterm

/-- There are at most as many running records of a kind as occupied slots. -/
theorem running_encard_le {s : Store} {kind : JobKind} (hall : ∀ i, Located env (s.placement i)) :
    {i | ∃ r, s.jobs i = some r ∧ r.kind = kind ∧ r.status = .processing}.encard ≤
      s.occupied kind := by
  let held := (slotKeys kind).filter fun key => (s.slots key).isSome
  let occupants := (held.map fun key => (s.slots key).getD "").toFinset
  have hsub : {i | ∃ r, s.jobs i = some r ∧ r.kind = kind ∧ r.status = .processing} ⊆
      (occupants : Set String) := by
    rintro i ⟨r, hr, rfl, hs⟩
    obtain ⟨slot, hslot, hheld⟩ := (hall i).of_processing hr hs
    have hocc : s.slots slot = some i := (hheld slot).mpr rfl
    rw [Finset.mem_coe, List.mem_toFinset, List.mem_map]
    exact ⟨slot, List.mem_filter.mpr ⟨hslot, by simp [hocc]⟩, by simp [hocc]⟩
  apply (Set.encard_le_encard hsub).trans
  rw [Set.encard_coe_eq_coe_finsetCard, Nat.cast_le]
  apply (List.toFinset_card_le _).trans
  rw [List.length_map]
  exact le_refl held.length

/-- **Execution slots.** In every world reached, running records and occupied slots
correspond one to one, and no kind runs more jobs than its limit. -/
theorem reached_slotsConsistent {w : World} (h : Reached env w) : SlotsConsistent env w.store where
  running i r hr hs := by
    obtain ⟨slot, hslot, hheld⟩ := (reached_located h i).of_processing hr hs
    exact ⟨slot, ⟨hslot, (hheld slot).mpr rfl⟩, fun key hkey => (hheld key).mp hkey.2⟩
  occupied kind key i hkey hocc := by
    obtain ⟨r, hr, hs, -, hslot⟩ := (reached_located h i).of_slot hocc
    obtain ⟨raw, hraw, rfl⟩ := placement_job_eq_some hr
    exact ⟨raw, hraw, hs, slotKeys_disjoint hslot hkey⟩
  distinct key key' i hocc hocc' := by
    obtain ⟨-, -, -, hslots, -⟩ := (reached_located h i).of_slot hocc
    have hkey' : key' ∈ (w.store.placement i).slots := hocc'
    rw [hslots] at hkey'
    exact hkey'.symm
  capacity kind := by
    apply (running_encard_le (reached_located h)).trans
    exact_mod_cast reached_occupied_le h kind
  free _ := exists_free_slot
  search _ _ _ _ := claim_finds_slot

/-- In `sampleWorld` the story occupies the first slot of its kind. -/
theorem slotsConsistent_sampleWorld :
    SlotsConsistent sampleEnv sampleWorld.store ∧
      sampleWorld.store.slots "slot:story" = some sampleIdentity ∧
      sampleWorld.store.occupied .story = 1 :=
  ⟨reached_slotsConsistent reached_sampleWorld, by decide +kernel, by decide +kernel⟩

end Yeodam.Jobs
