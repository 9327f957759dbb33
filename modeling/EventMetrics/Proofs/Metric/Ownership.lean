import EventMetrics.Proofs.Alert
import EventMetrics.Proofs.Metric.Measuring

namespace EventMetrics.Metric

/-- A metric with plan `p` that emitted `rs`, and can only emit what bears the id of `p`. -/
structure Owned (p : MetricPlan) (m : Metric) (rs : List Record) : Prop where
  plan : m.plan = p
  trackers : ∀ t ∈ m.trackers, t.rule.metric = p.id
  pending : ∀ s, m.pending = some s → s.metric = p.id
  records : ∀ x ∈ rs, x.metric = p.id

namespace Owned

variable {p : MetricPlan} {m : Metric} {rs : List Record} (cs : Conditions)

theorem congr {n : Metric} (h : Owned p m rs) (hplan : n.plan = m.plan)
    (htrackers : n.trackers = m.trackers) (hpending : n.pending = m.pending) : Owned p n rs :=
  ⟨hplan ▸ h.plan, htrackers ▸ h.trackers, hpending ▸ h.pending, h.records⟩

theorem forget (h : Owned p m rs) : Owned p m [] := ⟨h.plan, h.trackers, h.pending, by simp⟩

theorem activate (h : Owned p m rs) (time : Int) : Owned p (m.activate cs time) rs :=
  h.congr (activate_plan m cs time) (activate_trackers m cs time) (activate_pending m cs time)

theorem deactivate (h : Owned p m rs) (time : Int) : Owned p (m.deactivate time) rs :=
  h.congr (deactivate_plan m time) (deactivate_trackers m time) (deactivate_pending m time)

theorem flushPending (h : Owned p m rs) :
    Owned p m.flushPending.state (rs ++ m.flushPending.records) := by
  rw [Metric.flushPending]
  split
  next => simpa using h
  next s hs =>
    refine ⟨h.plan, h.trackers, by simp, ?_⟩
    simp only [List.mem_append, List.mem_singleton]
    rintro x (hx | rfl)
    · exact h.records x hx
    · exact h.pending s hs

theorem skip (h : Owned p m rs) (start stop : Int) (reason : SkipReason) :
    Owned p (m.skip start stop reason).state (rs ++ (m.skip start stop reason).records) := by
  rcases skip_cases m start stop reason with ⟨s, hs, -, -, hskip⟩ | hskip <;> rw [hskip]
  · refine ⟨h.plan, h.trackers, ?_, by simpa using h.records⟩
    rintro _ ⟨⟩
    exact h.pending s hs
  · have hf := h.flushPending
    refine ⟨hf.plan, hf.trackers, ?_, by simpa using hf.records⟩
    rintro _ ⟨⟩
    exact congrArg MetricPlan.id hf.plan

theorem feed (num : Nat) (firedAt : Int) (rows : List (DimensionKey × Float))
    {ts : List (Alert.Tracker Float)} (h : ∀ t ∈ ts, t.rule.metric = p.id) :
    (∀ t ∈ (Metric.feed num firedAt rows ts).1, t.rule.metric = p.id) ∧
      ∀ a ∈ (Metric.feed num firedAt rows ts).2, a.metric = p.id := by
  induction ts with
  | nil => simp [Metric.feed]
  | cons t ts ih =>
      obtain ⟨ih₁, ih₂⟩ := ih fun t ht => h t (List.mem_cons_of_mem _ ht)
      have ht := h t List.mem_cons_self
      simp only [Metric.feed, List.mem_cons, List.mem_append, List.mem_map]
      constructor
      · rintro t' (rfl | ht')
        · simpa using ht
        · exact ih₁ t' ht'
      · rintro a (⟨f, -, rfl⟩ | ha)
        · exact ht
        · exact ih₂ a ha

theorem emitRows (h : Owned p m rs) (slot : Slot) (stop : Int) (rows : List Row) :
    Owned p (m.emitRows slot stop rows).state (rs ++ (m.emitRows slot stop rows).records) := by
  obtain ⟨hts, has⟩ := feed slot.num stop (rows.map fun r => (r.key, r.value.toFloat)) h.trackers
  refine ⟨h.plan, hts, h.pending, ?_⟩
  simp only [Metric.emitRows, List.mem_append, List.mem_map]
  rintro x (hx | ⟨r, -, rfl⟩ | ⟨a, ha, rfl⟩)
  · exact h.records x hx
  · exact congrArg MetricPlan.id h.plan
  · exact has a ha

theorem flushBucket (h : Owned p m rs) (slot : Slot) (stop : Int) (reportEmpty : Bool) :
    Owned p (m.flushBucket slot stop reportEmpty).state
      (rs ++ (m.flushBucket slot stop reportEmpty).records) := by
  have hc : Owned p m.clearBucket rs := h.congr rfl rfl rfl
  cases hr : m.rows.isEmpty with
  | false =>
      rw [flushBucket_of_rows hr, Emitting.andThen_records, ← List.append_assoc]
      exact hc.flushPending.emitRows slot stop m.rows
  | true =>
      cases reportEmpty with
      | false => simpa [flushBucket_unreported hr] using hc
      | true =>
          rw [flushBucket_of_empty hr]
          exact hc.skip slot.start stop m.skipReason

theorem proceed (h : Owned p m rs) (slot : Slot) : Owned p (m.proceed cs slot) rs := by
  have hclose : Owned p { m with grid := m.grid.close } rs := h.congr rfl rfl rfl
  rcases proceed_cases m cs slot with hnext | hnext | hnext <;> rw [hnext]
  · exact h.congr rfl rfl rfl
  · exact hclose.deactivate slot.stop
  · exact hclose

theorem roll (h : Owned p m rs) (slot : Slot) :
    Owned p (m.roll cs slot).state (rs ++ (m.roll cs slot).records) := by
  rw [roll_eq]
  have hcut : Owned p (m.accrue slot.stop) rs :=
    h.congr (by simp [accrue]) (by simp [accrue]) (by simp [accrue])
  simpa using (hcut.flushBucket slot slot.stop true).proceed cs slot

theorem advance (h : Owned p m rs) (limit : Int) (inclusive : Bool) :
    Owned p (m.advance cs limit inclusive).state (rs ++ (m.advance cs limit inclusive).records) :=
  advance_induction (fun _ _ slot h _ _ _ => h.roll cs slot) (fun _ _ due h _ _ _ => h.deactivate due) m rs h

theorem rollTo (h : Owned p m rs) (time : Int) :
    Owned p (m.rollTo cs time).state (rs ++ (m.rollTo cs time).records) :=
  rollTo_induction (fun _ _ slot h _ _ => h.roll cs slot) m rs h

theorem followWindows (h : Owned p m rs) (time : Int) : Owned p (m.followWindows cs time) rs := by
  rcases followWindows_cases m cs time with hfollow | hfollow | hfollow <;> rw [hfollow]
  · exact h.activate cs time
  · exact h.deactivate time
  · exact h

theorem measure (h : Owned p m rs) (e : Event) (hits : Hits) (u : Condition.Update) :
    Owned p (m.measure cs e hits u).1.state (rs ++ (m.measure cs e hits u).1.records) := by
  have hs : (m.measure cs e hits u).1.state.still = m.still := measure_still m cs e hits u
  have hm : Owned p (m.measure cs e hits u).1.state rs :=
    h.congr (congrArg Metric.plan hs :) (congrArg Metric.trackers hs :) (congrArg Metric.pending hs :)
  refine ⟨hm.plan, hm.trackers, hm.pending, ?_⟩
  intro x hx
  rcases List.mem_append.1 hx with hx | hx
  · exact h.records x hx
  · obtain ⟨key, rfl⟩ := measure_records hx
    exact congrArg MetricPlan.id h.plan

theorem note (h : Owned p m rs) (outcome : Outcome) : Owned p (m.note outcome) rs := by
  cases outcome <;> exact h.congr rfl rfl rfl

theorem onEvent (h : Owned p m rs) (e : Event) (hits : Hits) (u : Condition.Update) :
    Owned p (m.onEvent cs e hits u).1.state (rs ++ (m.onEvent cs e hits u).1.records) := by
  have hm := ((h.rollTo cs e.time).followWindows cs e.time).measure cs e hits u
  rw [List.append_assoc] at hm
  exact hm.note _

theorem absorb (h : Owned p m rs) (e : Event) (hits : Hits) (u : Condition.Update) :
    Owned p (m.absorb cs e hits u).1.state (rs ++ (m.absorb cs e hits u).1.records) := by
  have hw : Owned p { m with windows := m.windows.onEvent e.time hits } rs := h.congr rfl rfl rfl
  have ha := ((hw.onEvent cs e hits u).advance cs e.time true).flushPending
  simpa only [Metric.absorb, Emitting.andThen_state, Emitting.andThen_records, List.append_assoc] using ha

theorem advanceTo (h : Owned p m rs) (now : Int) :
    Owned p (m.advanceTo cs now).state (rs ++ (m.advanceTo cs now).records) := by
  have ha := (h.advance cs now false).flushPending
  rwa [List.append_assoc] at ha

theorem closeAt (h : Owned p m rs) (now : Int) :
    Owned p (m.closeAt now).state (rs ++ (m.closeAt now).records) := by
  rw [Metric.closeAt]
  split
  next => simpa using h
  next slot hs =>
    have hsettle : Owned p (m.onIntervals fun t is => is.settle t.aggregation (max now slot.start)) rs :=
      h.congr (by simp) (by simp) (by simp)
    have hf := hsettle.flushBucket slot (max now slot.start) (slot.start < max now slot.start)
    simp only [Emitting.andThen_records, List.append_nil]
    exact hf.congr rfl rfl rfl

theorem shutdown (h : Owned p m rs) (now : Int) :
    Owned p (m.shutdown cs now).state (rs ++ (m.shutdown cs now).records) := by
  have hc := ((h.advance cs now false).closeAt now).flushPending
  simpa only [Metric.shutdown, Emitting.andThen_state, Emitting.andThen_records, List.append_assoc] using hc

theorem start (h : Owned p m rs) (time : Int) : Owned p (m.start cs time) rs := by
  rcases start_cases m cs time with hstart | hstart <;> rw [hstart]
  · exact h.activate cs time
  · exact h

end Owned

end EventMetrics.Metric
