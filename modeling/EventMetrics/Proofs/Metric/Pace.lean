import EventMetrics.Proofs.Metric.Ownership

namespace EventMetrics

theorem Instant.lt_after {t d : Int} (ht : t < last) (hd : 0 < d) : t < after t d := by
  simp only [after, clamp, first, last] at *
  omega

namespace Metric

/-- Only a metric with buckets opens one, and buckets have some length. -/
structure Paced (m : Metric) : Prop where
  size : m.plan.isBucketed = true → 0 < m.grid.size
  bucketed : ∀ slot, m.grid.current = some slot → m.plan.isBucketed = true

namespace Paced

variable {m n : Metric} (cs : Conditions)

theorem congr (h : Paced m) (hplan : n.plan = m.plan) (hgrid : n.grid = m.grid) : Paced n :=
  ⟨hplan ▸ hgrid ▸ h.size, hplan ▸ hgrid ▸ h.bucketed⟩

theorem activate (h : Paced m) (time : Int) : Paced (m.activate cs time) := by
  have hplan := activate_plan m cs time
  have hgrid := activate_grid m cs time
  by_cases hopen : (m.plan.isBucketed && m.grid.current.isNone) = true
  · rw [if_pos hopen] at hgrid
    rw [Bool.and_eq_true] at hopen
    exact ⟨fun _ => hgrid ▸ h.size hopen.1, fun _ _ => hplan ▸ hopen.1⟩
  · rw [if_neg hopen] at hgrid
    exact h.congr hplan hgrid

theorem deactivate (h : Paced m) (time : Int) : Paced (m.deactivate time) :=
  h.congr (deactivate_plan m time) (deactivate_grid m time)

theorem start (h : Paced m) (time : Int) : Paced (m.start cs time) := by
  rcases start_cases m cs time with hstart | hstart <;> rw [hstart]
  · exact h.activate cs time
  · exact h

theorem flushPending (h : Paced m) : Paced m.flushPending.state := by
  have hbody := body_flushPending m
  exact h.congr (congrArg Metric.plan hbody :) (congrArg Metric.grid hbody :)

theorem roll (h : Paced m) {slot : Slot} (hs : m.grid.current = some slot) :
    Paced (m.roll cs slot).state := by
  have hplan := roll_plan m cs slot
  have hgrid := roll_grid m cs slot
  have hb := h.bucketed slot hs
  by_cases hgo : (m.active && m.windows.isActive slot.stop) = true
  · rw [if_pos hgo, Grid.roll, hs] at hgrid
    exact ⟨fun _ => hgrid ▸ h.size hb, fun _ _ => hplan ▸ hb⟩
  · rw [if_neg hgo, Grid.close, hs] at hgrid
    exact ⟨fun _ => hgrid ▸ h.size hb, by simp [hgrid]⟩

theorem advance (h : Paced m) (limit : Int) (inclusive : Bool) :
    Paced (m.advance cs limit inclusive).state :=
  advance_induction (P := fun m _ => Paced m) (fun _ _ _ h _ hs _ => h.roll cs hs)
    (fun _ _ due h _ _ _ => h.deactivate due) m [] h

theorem rollTo (h : Paced m) (time : Int) : Paced (m.rollTo cs time).state :=
  rollTo_induction (P := fun m _ => Paced m) (fun _ _ _ h hs _ => h.roll cs hs) m [] h

theorem followWindows (h : Paced m) (time : Int) : Paced (m.followWindows cs time) := by
  rcases followWindows_cases m cs time with hfollow | hfollow | hfollow <;> rw [hfollow]
  · exact h.activate cs time
  · exact h.deactivate time
  · exact h

theorem measure (h : Paced m) (e : Event) (hits : Hits) (u : Condition.Update) :
    Paced (m.measure cs e hits u).1.state := by
  have hstill := measure_still m cs e hits u
  exact h.congr (congrArg Metric.plan hstill :) (congrArg Metric.grid hstill :)

theorem note (h : Paced m) (outcome : Outcome) : Paced (m.note outcome) := by
  cases outcome <;> exact h.congr rfl rfl

theorem absorb (h : Paced m) (e : Event) (hits : Hits) (u : Condition.Update) :
    Paced (m.absorb cs e hits u).1.state := by
  have hw : Paced { m with windows := m.windows.onEvent e.time hits } := h.congr rfl rfl
  have hm := ((hw.rollTo cs e.time).followWindows cs e.time).measure cs e hits u
  exact ((hm.note _).advance cs e.time true).flushPending

theorem advanceTo (h : Paced m) (now : Int) : Paced (m.advanceTo cs now).state :=
  (h.advance cs now false).flushPending

theorem closeAt (h : Paced m) (now : Int) : Paced (m.closeAt now).state := by
  cases hs : m.grid.current with
  | none => simpa [Metric.closeAt, hs] using h
  | some slot =>
      have hbody := body_closeAt m hs now
      have hplan : (m.closeAt now).state.plan = m.plan :=
        (congrArg Metric.plan hbody :).trans (by simp [clearBucket, settle, body])
      have hgrid : (m.closeAt now).state.grid = m.grid.close := (congrArg Metric.grid hbody :)
      rw [Grid.close, hs] at hgrid
      exact ⟨fun hb => hgrid ▸ h.size (hplan ▸ hb), by simp [hgrid]⟩

theorem shutdown (h : Paced m) (now : Int) : Paced (m.shutdown cs now).state :=
  ((h.advance cs now false).closeAt now).flushPending

end Paced

variable {m : Metric} {cs : Conditions} {r : Emitting Metric} {limit : Int}

theorem Paced.tick {inclusive : Bool} (h : Paced m) (ht : m.tick cs limit inclusive = some r) : Paced r.state := by
  obtain ⟨d, -, -, hf⟩ := tick_eq_some ht
  cases hf with
  | roll hs he => exact h.roll cs hs
  | expire hx hlt => exact h.deactivate d

theorem remaining_roll_lt (cs : Conditions) (h : Paced m) {slot : Slot} (hs : m.grid.current = some slot)
    (hlast : slot.stop < Instant.last ∨ m.windows.isActive slot.stop = false) :
    (m.roll cs slot).state.remaining < m.remaining := by
  have hactive := roll_active m cs slot
  have hgrid := roll_grid m cs slot
  rw [remaining, remaining]
  by_cases hgo : (m.active && m.windows.isActive slot.stop) = true
  · rw [hgo] at hactive
    rw [if_pos hgo, Grid.roll, hs] at hgrid
    rw [Bool.and_eq_true] at hgo
    have hlater : slot.stop < Instant.last := hlast.resolve_right (by simp [hgo.2])
    have hlt := Instant.lt_after hlater (h.size (h.bucketed slot hs))
    simp only [hactive, hgrid, hs, Grid.next, hgo.1, if_true]
    omega
  · rw [Bool.not_eq_true] at hgo
    rw [hgo] at hactive
    rw [hgo, if_neg Bool.false_ne_true, Grid.close, hs] at hgrid
    simp only [hactive, hgrid, hs, Bool.false_eq_true, if_false]
    omega

theorem remaining_lt_of_due {inclusive : Bool} (h : Paced m) (hlast : ∀ d, Due d limit inclusive → d < Instant.last)
    (ht : m.tick cs limit inclusive = some r) : r.state.remaining < m.remaining := by
  obtain ⟨d, -, hdue, hf⟩ := tick_eq_some ht
  cases hf with
  | roll hs he => exact remaining_roll_lt cs h hs (.inl (he ▸ hlast d hdue))
  | expire hx hlt =>
      have ha := (expiry_eq_some hx).1
      simp [remaining, ha]

theorem remaining_tick_lt (h : Paced m) (hlimit : limit ≤ Instant.last)
    (ht : m.tick cs limit false = some r) : r.state.remaining < m.remaining := by
  refine remaining_lt_of_due h (fun d hdue => ?_) ht
  have hlt := due_false.1 hdue
  omega

/-- To go on in two steps is to go on in one: the timers of the first step come first in any case. -/
theorem advance_through (h : Paced m) {mid : Int} {i j : Bool} (hlast : ∀ d, Due d mid i → d < Instant.last)
    (hdue : ∀ d, Due d mid i → Due d limit j) :
    (m.advance cs mid i).andThen (·.advance cs limit j) = m.advance cs limit j := by
  have hlater : ∀ {m : Metric} {r}, m.tick cs mid i = some r → m.tick cs limit j = some r := by
    intro m r ht
    obtain ⟨d, hd, hearly, -⟩ := tick_eq_some ht
    rw [tick_of_deadline cs hd, if_pos hearly] at ht
    rw [tick_of_deadline cs hd, if_pos (hdue d hearly), ht]
  fun_induction Metric.advance m cs mid i with
  | case1 m ht => simp [Emitting.andThen]
  | case2 m r ht hlt q ih =>
      have hrest := ih (h.tick ht)
      rw [advance_of_tick (hlater ht) hlt]
      simp only [Emitting.andThen] at hrest ⊢
      rw [← hrest]
      simp [q]
  | case3 m r ht hlt => exact absurd (remaining_lt_of_due h hlast ht) hlt

theorem advance_now (h : Paced m) (hlimit : limit ≤ Instant.last) :
    (m.advance cs limit false).andThen (·.advance cs limit true) = m.advance cs limit true := by
  refine advance_through h (fun d hd => ?_) fun d hd => .inl (due_false.1 hd)
  have hlt := due_false.1 hd
  omega

end Metric

end EventMetrics
