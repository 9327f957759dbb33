import EventMetrics.Proofs.Condition.Counting
import EventMetrics.Proofs.Keys

namespace EventMetrics.Condition.Simple

variable {c : Simple} {isStart : Bool} {k : DimensionKey} {s : Sighting} {ss : List Sighting}

/-- There is room for all keys that are counted, and each counts for something where unseen keys are off. -/
structure Roomy (c : Simple) : Prop where
  card_le : c.counts.keys.card ≤ c.maxDimensions
  pos : c.unseen = .off → ∀ k n, c.counts.get? k = some n → 0 < n

namespace Roomy

theorem of_empty (h : c.counts = .empty) : Roomy c where
  card_le := by
    rw [Table.card_keys, h]
    exact Nat.zero_le _
  pos _ k n hk := by
    rw [h] at hk
    cases hk

theorem turn (h : Roomy c) (isStart : Bool) (k : DimensionKey) : Roomy (c.turn isStart k).1 where
  card_le := by
    have hcard := h.card_le
    rw [Simple.turn]
    dsimp only
    split
    next => exact hcard
    next =>
      split
      next => exact hcard
      next hroom =>
        split
        next =>
          rw [Table.keys_erase]
          exact Finset.card_erase_le.trans hcard
        next =>
          refine Table.card_keys_insert_le hcard ?_ _
          simpa [Table.contains, Decidable.or_iff_not_imp_left] using hroom
  pos := by
    rcases turn_cases c isStart k with hc | ⟨n, counts, hc, ⟨rfl, -, -, -⟩ | ⟨rfl, hn⟩, -⟩ <;> rw [hc]
    · exact h.pos
    · intro hoff j m hj
      rw [Table.get?_erase] at hj
      split at hj
      · cases hj
      · exact h.pos hoff j m hj
    · intro hoff j m hj
      rw [Table.get?_insert] at hj
      split at hj
      · cases hj
        exact Nat.pos_of_ne_zero fun hzero => hn ⟨hzero, hoff⟩
      · exact h.pos hoff j m hj

theorem onEvent (h : Roomy c) (s : Sighting) : Roomy (c.onEvent s.1 s.2).1 := by
  cases hall : c.stopsAll s with
  | true =>
      rw [onEvent_of_stopsAll hall]
      exact of_empty rfl
  | false =>
      cases ht : c.turn? s with
      | none => rwa [onEvent_of_turn_none hall ht]
      | some t =>
          rw [onEvent_of_turn hall ht]
          exact h.turn t.isStart t.key

theorem after (h : Roomy c) (ss : List Sighting) : Roomy (c.after ss) := by
  induction ss using List.reverseRecOn with
  | nil => exact h
  | append_singleton ss s ih =>
      rw [after_concat]
      exact ih.onEvent s

theorem contains_iff (h : Roomy c) (hoff : c.unseen = .off) (k : DimensionKey) :
    c.counts.contains k = true ↔ c.signalAt k = .on := by
  rw [Table.contains, signalAt]
  cases hk : c.counts.get? k with
  | none => simp [hoff]
  | some n => simp [Signal.ofBool, h.pos hoff k n hk]

end Roomy

theorem turn_dropped_iff : (c.turn isStart k).2 = .dropped .dimensionLimit ↔
    c.counts.contains k = false ∧ c.maxDimensions ≤ c.counts.size ∧ ¬ (isStart = false ∧ c.unseen = .off) := by
  have hturned : ∀ (p : Prop) [Decidable p], (if p then Effect.unchanged else .changed) ≠ .dropped .dimensionLimit := by
    intro p _
    split <;> simp
  rw [turn]
  dsimp only
  split
  next hidle =>
    simp only [Bool.and_eq_true, Bool.not_eq_true', beq_iff_eq] at hidle
    obtain ⟨⟨-, rfl⟩, hoff⟩ := hidle
    simp [hoff]
  next hidle =>
    split
    next hfull =>
      simp only [Bool.and_eq_true, Bool.not_eq_true', decide_eq_true_eq] at hfull
      obtain ⟨hnew, hfull⟩ := hfull
      simpa [hnew, hfull] using hidle
    next hroom =>
      refine iff_of_false (hturned _) fun h => hroom ?_
      simp [h.1, h.2.1]

theorem onEvent_ne_of_turn_none (h : c.stopsAll s = false) (ht : c.turn? s = none) :
    (c.onEvent s.1 s.2).2 ≠ .dropped .dimensionLimit := by
  rw [stopsAll] at h
  rw [turn?] at ht
  rw [Simple.onEvent, if_neg (by simp [h])]
  cases hstart : s.2.get c.start <;> cases hstop : s.2.get c.stop <;> simp only [hstart, hstop] at ht ⊢
  · simp
  · simp [Option.map_eq_none_iff.1 ht]
  · simp [Option.map_eq_none_iff.1 ht]
  · simp

theorem onEvent_dropped_iff : (c.onEvent s.1 s.2).2 = .dropped .dimensionLimit ↔ c.stopsAll s = false ∧
    ∃ t, c.turn? s = some t ∧ c.counts.contains t.key = false ∧ c.maxDimensions ≤ c.counts.size ∧
      ¬ (t.isStart = false ∧ c.unseen = .off) := by
  cases hall : c.stopsAll s with
  | true =>
      rw [onEvent_of_stopsAll hall, stopEverything]
      dsimp only
      split <;> simp
  | false =>
      cases ht : c.turn? s with
      | none => simp [onEvent_ne_of_turn_none hall ht]
      | some t => simp [onEvent_of_turn hall ht, turn_dropped_iff]

/-- Through any events, a condition never counts more keys than it may, counts none but those that are on
where unseen keys are off, and turns an event away for want of room only where it starts or stops, and not
everything, a key that is not counted while as many are as may be, unless that changes nothing. -/
theorem keys_within_room (hempty : c.counts = .empty) (ss : List Sighting) :
    (c.after ss).counts.size ≤ c.maxDimensions ∧
    ((c.after ss).unseen = .off → (∀ k n, (c.after ss).counts.get? k = some n → 0 < n) ∧
      ∀ k, (c.after ss).counts.contains k = true ↔ (c.after ss).signalAt k = .on) ∧
    ∀ s : Sighting, ((c.after ss).onEvent s.1 s.2).2 = .dropped .dimensionLimit ↔
      c.stopsAll s = false ∧ ∃ t, c.turn? s = some t ∧ (c.after ss).counts.contains t.key = false ∧
        (c.after ss).counts.size = c.maxDimensions ∧ ¬ (t.isStart = false ∧ (c.after ss).unseen = .off) := by
  have hroomy := (Roomy.of_empty hempty).after ss
  obtain ⟨unseen, counts, hc⟩ := c.after_eq ss
  have hmax : (c.after ss).maxDimensions = c.maxDimensions := by rw [hc]
  have hstops : ∀ s, (c.after ss).stopsAll s = c.stopsAll s := fun s => by rw [hc]; rfl
  have hturn : ∀ s, (c.after ss).turn? s = c.turn? s := fun s => by rw [hc]; rfl
  have hsize : (c.after ss).counts.size ≤ c.maxDimensions := by
    rw [← Table.card_keys, ← hmax]
    exact hroomy.card_le
  have hfull : c.maxDimensions ≤ (c.after ss).counts.size ↔ (c.after ss).counts.size = c.maxDimensions :=
    ⟨hsize.antisymm, fun h => h.ge⟩
  refine ⟨hsize, fun hoff => ⟨hroomy.pos hoff, hroomy.contains_iff hoff⟩, fun s => ?_⟩
  simp only [onEvent_dropped_iff, hstops, hturn, hmax, hfull]

/-- Lights in one room at most: off in room 1 is kept and leaves no room for room 2, until everything stops. -/
theorem keys_within_room_lights :
    let lights : Simple :=
      { start := 0, stop := 1, stopAll := some 2, nested := true, dimensions := ["room"], maxDimensions := 1
        unseen := .unknown }
    let turn (hits : Hits) (room : Int) : Sighting :=
      ({ atom := 0, time := 0, fields := .ofList [("room", .int room)] }, hits)
    let on := turn [true, false, false]
    let off := turn [false, true, false]
    let before := lights.after [on 1, off 1]
    let after := lights.after [on 1, off 1, turn [false, false, true] 1, on 1]
    (before.onEvent (on 2).1 (on 2).2).2 = .dropped .dimensionLimit ∧
      (before.onEvent (on 1).1 (on 1).2).2 ≠ .dropped .dimensionLimit ∧
      (after.onEvent (off 2).1 (off 2).2).2 ≠ .dropped .dimensionLimit ∧
      (after.counts.contains ⟨[("room", .int 1)]⟩ = true ↔ after.signalAt ⟨[("room", .int 1)]⟩ = .on) := by
  intro lights turn on off before after
  have hempty : lights.counts = .empty := rfl
  obtain ⟨-, -, hbefore⟩ := keys_within_room hempty [on 1, off 1]
  obtain ⟨-, hon, hafter⟩ := keys_within_room hempty [on 1, off 1, turn [false, false, true] 1, on 1]
  refine ⟨(hbefore _).2 ⟨by decide +kernel, ⟨true, ⟨[("room", .int 2)]⟩⟩, rfl, by decide +kernel⟩, fun h => ?_,
    fun h => ?_, (hon (by decide +kernel)).2 _⟩
  · obtain ⟨-, t, ht, hnew, -⟩ := (hbefore _).1 h
    obtain rfl : ⟨true, ⟨[("room", .int 1)]⟩⟩ = t := Option.some.inj ht
    exact absurd hnew (by decide +kernel)
  · obtain ⟨-, t, ht, -, -, hstop⟩ := (hafter _).1 h
    obtain rfl : ⟨false, ⟨[("room", .int 2)]⟩⟩ = t := Option.some.inj ht
    exact hstop ⟨rfl, by decide +kernel⟩

end EventMetrics.Condition.Simple
