import EventMetrics.Proofs.Metric.Shifting

namespace EventMetrics.Metric

open Instant (Ample Carries Movable first last)

/-- The lengths that a metric adds to instants, of its buckets, its windows and the quiet after its alerts,
are among these. -/
structure Uses (lengths : List Int) (m : Metric) : Prop where
  size : m.grid.size ∈ lengths
  ttl : ∀ a ∈ m.windows, a.ttl ∈ lengths
  quiet : ∀ tr ∈ m.trackers, tr.rule.quiet ∈ lengths

variable {lengths : List Int} {c τ limit t : Int} {m n : Metric} {slot : Slot} {r : Emitting Metric} {cs : Conditions}

namespace Uses

theorem congr (h : Uses lengths m) (hsize : n.grid.size = m.grid.size) (hwindows : n.windows = m.windows)
    (htrackers : n.trackers = m.trackers) : Uses lengths n :=
  ⟨hsize ▸ h.size, hwindows ▸ h.ttl, htrackers ▸ h.quiet⟩

theorem activate (h : Uses lengths m) (cs : Conditions) (time : Int) : Uses lengths (m.activate cs time) := by
  refine h.congr ?_ (activate_windows m cs time) (activate_trackers m cs time)
  rw [activate_grid]
  split <;> rfl

theorem deactivate (h : Uses lengths m) (time : Int) : Uses lengths (m.deactivate time) :=
  h.congr (congrArg Grid.size (deactivate_grid m time)) (deactivate_windows m time) (deactivate_trackers m time)

theorem start (h : Uses lengths m) (cs : Conditions) (time : Int) : Uses lengths (m.start cs time) := by
  rcases start_cases m cs time with hstart | hstart <;> rw [hstart]
  · exact h.activate cs time
  · exact h

theorem feedAll (h : Uses lengths m) (bs : List Ended) :
    ∀ tr ∈ Ended.feedAll m.trackers bs, tr.rule.quiet ∈ lengths := by
  intro tr htr
  obtain ⟨tr, hmem, rfl⟩ := List.mem_map.1 htr
  rw [Alert.Tracker.feedAll_rule]
  exact h.quiet tr hmem

theorem roll (h : Uses lengths m) (cs : Conditions) (slot : Slot) : Uses lengths (m.roll cs slot).state where
  size := roll_size m cs slot ▸ h.size
  ttl := roll_windows m cs slot ▸ h.ttl
  quiet := (roll_flushes m cs slot).1 ▸ h.feedAll _

theorem advance (h : Uses lengths m) (cs : Conditions) (limit : Int) (inclusive : Bool) :
    Uses lengths (m.advance cs limit inclusive).state :=
  advance_induction (P := fun n _ => Uses lengths n) (fun _ _ slot h _ _ _ => h.roll cs slot)
    (fun _ _ due h _ _ _ => h.deactivate due) m [] h

theorem rollTo (h : Uses lengths m) (cs : Conditions) (time : Int) : Uses lengths (m.rollTo cs time).state :=
  rollTo_induction (P := fun n _ => Uses lengths n) (fun _ _ slot h _ _ => h.roll cs slot) m [] h

theorem followWindows (h : Uses lengths m) (cs : Conditions) (time : Int) :
    Uses lengths (m.followWindows cs time) := by
  rcases followWindows_cases m cs time with hfollow | hfollow | hfollow <;> rw [hfollow]
  · exact h.activate cs time
  · exact h.deactivate time
  · exact h

theorem watch (h : Uses lengths m) (time : Int) (hits : Hits) : Uses lengths (m.watch time hits) where
  size := h.size
  ttl b hb := by
    obtain ⟨a, ha, rfl⟩ := List.mem_map.1 hb
    exact h.ttl a ha
  quiet := h.quiet

theorem flushPending (h : Uses lengths m) : Uses lengths m.flushPending.state :=
  h.congr (congrArg (·.grid.size) (body_flushPending m) :) (flushPending_windows m) (flushPending_trackers m)

theorem onEvent (h : Uses lengths m) (cs : Conditions) (ev : Event) (hits : Hits) (u : Condition.Update) :
    Uses lengths (m.onEvent cs ev hits u).1.state := by
  have hstill := measure_still (m.meet cs ev.time) cs ev hits u
  have hmeasured : Uses lengths ((m.meet cs ev.time).measure cs ev hits u).1.state :=
    ((h.rollTo cs ev.time).followWindows cs ev.time).congr (congrArg (·.grid.size) hstill :)
      (congrArg Metric.windows hstill :) (congrArg Metric.trackers hstill :)
  rw [onEvent_eq]
  cases ((m.meet cs ev.time).measure cs ev hits u).2 <;> exact hmeasured.congr rfl rfl rfl

theorem absorb (h : Uses lengths m) (cs : Conditions) (ev : Event) (hits : Hits) (u : Condition.Update) :
    Uses lengths (m.absorb cs ev hits u).1.state :=
  (((h.watch ev.time hits).onEvent cs ev hits u).advance cs ev.time true).flushPending

theorem closeAt (h : Uses lengths m) (now : Int) : Uses lengths (m.closeAt now).state := by
  cases hs : m.grid.current with
  | none => exact closeAt_of_none hs now ▸ h
  | some slot =>
      have hgrid : (m.closeAt now).state.grid = m.grid.close := (congrArg Metric.grid (body_closeAt m hs now) :)
      have htrackers := (flushBucket_flushes (m.settle (max now slot.start)) slot (max now slot.start)
        (slot.start < max now slot.start)).1
      have hsettled : Uses lengths (m.settle (max now slot.start)) :=
        h.congr (congrArg Grid.size (m.onIntervals_grid _)) (m.onIntervals_windows _) (m.onIntervals_trackers _)
      refine ⟨?_, closeAt_windows m now ▸ h.ttl, ?_⟩
      · rw [hgrid, Grid.close, hs]
        exact h.size
      · rw [closeAt_of_slot hs, Emitting.andThen_state, htrackers]
        exact hsettled.feedAll _

theorem advanceTo (h : Uses lengths m) (cs : Conditions) (now : Int) : Uses lengths (m.advanceTo cs now).state :=
  (h.advance cs now false).flushPending

theorem shutdown (h : Uses lengths m) (cs : Conditions) (now : Int) : Uses lengths (m.shutdown cs now).state :=
  ((h.advance cs now false).closeAt now).flushPending

theorem shift (h : Uses lengths m) (c : Int) : Uses lengths (m.shift c) where
  size := h.size
  ttl b hb := by
    obtain ⟨a, ha, rfl⟩ := List.mem_map.1 hb
    exact h.ttl a ha
  quiet u hu := by
    obtain ⟨tr, htr, rfl⟩ := List.mem_map.1 hu
    exact h.quiet tr htr

theorem passes (h : Uses lengths m) (hplaced : Placed τ m) (hroom : Ample lengths τ) : Passes τ m := by
  cases hb : m.plan.isBucketed with
  | false => exact .inr (.inl hb)
  | true =>
      have hsize := (hplaced.size hb).1
      have hlast := (hroom.2 _ h.size).2
      exact .inl (by omega)

end Uses

structure Twin (lengths : List Int) (c τ : Int) (m : Metric) : Prop where
  here : OnTime τ m
  there : OnTime (τ + c) (m.shift c)
  uses : Uses lengths m

namespace Twin

theorem expiry_shift (h : Twin lengths c τ m) : (m.shift c).expiry = m.expiry.map (· + c) := by
  have hactive : (m.shift c).active = m.active := rfl
  have hempty : (m.shift c).windows.isEmpty = m.windows.isEmpty := List.isEmpty_map
  rw [expiry, expiry, hactive, hempty]
  cases ha : m.active with
  | false => rfl
  | true =>
      rcases h.here.active ha with hnil | ⟨x, hx, -⟩
      · simp [hnil]
      · rcases h.there.active ha with hnil | ⟨y, hy, -⟩
        · simp [List.map_eq_nil_iff.1 hnil]
        · cases hw : m.windows.isEmpty
          · simp only [hx, hy, Activations.endsAt_shift hx hy]
            rfl
          · rfl

theorem nextDeadline_shift (h : Twin lengths c τ m) : (m.shift c).nextDeadline = m.nextDeadline.map (· + c) := by
  have hcurrent : (m.shift c).grid.current = m.grid.current.map (·.shift c) := rfl
  rw [nextDeadline_eq, nextDeadline_eq, h.expiry_shift, hcurrent]
  cases m.grid.current <;> cases m.expiry <;> simp only [Option.map_none, Option.map_some, Slot.shift]
  rw [Option.some.injEq]
  omega

theorem wait (h : Twin lengths c τ m) (hle : τ ≤ t) (hlast : t ≤ last) (hlast' : t + c ≤ last)
    (hnext : ∀ d, m.nextDeadline = some d → t ≤ d) : Twin lengths c t m where
  here := h.here.wait hle hlast hnext
  there := h.there.wait (by omega) hlast' fun d hd => by
    rw [h.nextDeadline_shift, Option.map_eq_some_iff] at hd
    obtain ⟨d, hd, rfl⟩ := hd
    have := hnext d hd
    omega
  uses := h.uses

variable (hnonneg : ∀ d ∈ lengths, 0 ≤ d) (hroom : Movable c lengths limit)
include hnonneg hroom

theorem roll_shift (h : Twin lengths c τ m) (hs : m.grid.current = some slot) (hle : slot.stop ≤ limit) :
    (m.shift c).roll cs (slot.shift c) = (m.roll cs slot).shift c := by
  have hstop := (h.here.slot slot hs).2.2.1
  have hcarries : ∀ d ∈ lengths, Carries c slot.stop d := fun d hd =>
    hroom.carries hd (hnonneg d hd) hle (Int.le_trans h.here.inRange.1 hstop)
      (Int.le_trans h.there.inRange.1 (Int.add_le_add_right hstop c))
  exact Metric.roll_shift hs (hcarries _ h.uses.size) fun tr htr => hcarries _ (h.uses.quiet tr htr)

theorem tick_shift (cs : Conditions) (h : Twin lengths c τ m) :
    (m.shift c).tick cs (limit + c) false = (m.tick cs limit false).map (·.shift c) := by
  have hnext := h.nextDeadline_shift
  cases hd : m.nextDeadline with
  | none => simp [tick, hnext, hd]
  | some d =>
      rw [hd, Option.map_some] at hnext
      rw [tick_of_deadline cs hd, tick_of_deadline cs hnext]
      by_cases hdue : d < limit
      · rw [if_pos (due_false.2 hdue), if_pos (due_false.2 (Int.add_lt_add_right hdue c))]
        refine fire_shift fun slot hs hle => h.roll_shift hnonneg hroom hs ?_
        omega
      · rw [if_neg fun h => hdue (due_false.1 h), if_neg fun h => hdue ((Int.add_lt_add_iff_right c).1 (due_false.1 h))]
        rfl

/-- Each timer brings both copies on to its own instant. -/
theorem tick (h : Twin lengths c τ m) (ht : m.tick cs limit false = some r) :
    ∃ d < limit, Twin lengths c d r.state := by
  obtain ⟨d, hd, hdue, hf⟩ := tick_eq_some ht
  have hlt : d < limit := due_false.1 hdue
  have hnow : Twin lengths c d m := h.wait (h.here.le_deadline hd) (Int.le_trans (Int.le_of_lt hlt) hroom.1.1.2)
    (Int.le_trans (Int.add_le_add_right (Int.le_of_lt hlt) c) hroom.2.1.2) fun d' hd' => by
      cases hd.symm.trans hd'
      exact Int.le_refl _
  refine ⟨d, hlt, ?_⟩
  cases hf with
  | @roll slot hs he =>
      subst he
      have hthere := OnTime.roll cs hnow.there.toPlaced (current_shift hs) hnow.there.idle
      rw [hnow.roll_shift hnonneg hroom hs (Int.le_of_lt hlt)] at hthere
      exact ⟨.roll cs hnow.here.toPlaced hs hnow.here.idle, hthere, hnow.uses.roll cs slot⟩
  | expire hx _ =>
      refine ⟨hnow.here.expire hx, ?_, hnow.uses.deactivate d⟩
      rw [← deactivate_shift]
      exact hnow.there.expire (by rw [hnow.expiry_shift, hx, Option.map_some])

theorem advance (cs : Conditions) (h : Twin lengths c τ m) (hle : τ ≤ limit) :
    (m.shift c).advance cs (limit + c) false = (m.advance cs limit false).shift c ∧
      Twin lengths c limit (m.advance cs limit false).state := by
  have hpaced : ∀ {m τ}, Twin lengths c τ m → Paced (m.shift c) := fun h => h.there.toPlaced.paced
  fun_induction Metric.advance m cs limit false generalizing τ with
  | case1 m ht =>
      have ht' := h.tick_shift hnonneg hroom cs
      rw [ht, Option.map_none] at ht'
      refine ⟨advance_of_tick_none ht', h.wait hle hroom.1.1.2 hroom.2.1.2 fun d hd => ?_⟩
      exact Int.not_lt.1 (mt due_false.2 (tick_eq_none.1 ht d hd))
  | case2 m r ht hlt =>
      rename_i ih
      obtain ⟨d, hd, hr⟩ := h.tick hnonneg hroom ht
      obtain ⟨hrest, htwin⟩ := ih hr (Int.le_of_lt hd)
      have ht' := h.tick_shift hnonneg hroom cs
      rw [ht, Option.map_some] at ht'
      rw [advance_of_tick ht' (remaining_tick_lt (hpaced h) hroom.2.1.2 ht')]
      have hboth : (r.shift c).andThen (·.advance cs (limit + c) false) =
        (r.andThen (·.advance cs limit false)).shift c := Emitting.andThen_shift r hrest
      exact ⟨hboth, htwin⟩
  | case3 m r ht hlt => exact absurd (remaining_tick_lt h.here.toPlaced.paced hroom.1.1.2 ht) hlt

theorem advanceTo (h : Twin lengths c τ m) (hle : τ ≤ limit) :
    (m.shift c).advanceTo cs (limit + c) = (m.advanceTo cs limit).shift c := by
  rw [Metric.advanceTo, (h.advance hnonneg hroom cs hle).1]
  exact Emitting.andThen_shift _ (flushPending_shift c _)

theorem shutdown (h : Twin lengths c τ m) (hle : τ ≤ limit) :
    (m.shift c).shutdown cs (limit + c) = (m.shutdown cs limit).shift c := by
  obtain ⟨hadvance, hthere⟩ := h.advance hnonneg hroom cs hle
  have hclose := closeAt_shift (c := c) (m.advance cs limit false).state limit fun slot hs tr htr => by
    rw [Int.max_eq_left (hthere.here.slot slot hs).2.1]
    exact hroom.carries_self (hthere.uses.quiet tr htr)
  rw [Metric.shutdown, hadvance, Emitting.andThen_shift (f := (·.closeAt limit)) _ hclose]
  exact Emitting.andThen_shift _ (flushPending_shift c _)

end Twin

section

variable (h : Placed τ m) (h' : Placed (τ + c) (m.shift c)) (huses : Uses lengths m) (hroom : Movable c lengths τ)
include h h' huses hroom

theorem rollTo_shift : (m.shift c).rollTo cs (τ + c) = (m.rollTo cs τ).shift c := by
  have hpass' : Passes (τ + c) (m.shift c) := (huses.shift c).passes h' hroom.2
  rcases rollTo_cases cs h (huses.passes h hroom.1) with ⟨hin, hr⟩ | ⟨slot, hs, rfl, hr⟩
  · have hin' : Inside (τ + c) (m.shift c) := by
      intro slot' hs'
      obtain ⟨slot, hs, rfl⟩ := Option.map_eq_some_iff.1 hs'
      exact Int.add_lt_add_right (hin slot hs) c
    rw [hr, rollTo_of_inside cs hin']
    rfl
  · have hroll : (m.shift c).roll cs (slot.shift c) = (m.roll cs slot).shift c :=
      roll_shift hs (hroom.carries_self huses.size) fun tr htr => hroom.carries_self (huses.quiet tr htr)
    rw [hr, ← hroll]
    exact rollTo_of_stop cs h' (current_shift hs) hpass'

theorem meet_shift : (m.shift c).meet cs (τ + c) = (m.meet cs τ).shift c := by
  rw [meet, meet, rollTo_shift h h' huses hroom]
  exact followWindows_shift (hroom.carries_self (huses.rollTo cs τ).size)

end

theorem onEvent_shift {ev : Event} (cs : Conditions) (h : Placed ev.time m) (h' : Placed (ev.time + c) (m.shift c))
    (huses : Uses lengths m) (hroom : Movable c lengths ev.time) (hits : Hits) (u : Condition.Update) :
    (m.shift c).onEvent cs (ev.shift c) hits u =
      ((m.onEvent cs ev hits u).1.shift c, (m.onEvent cs ev hits u).2) := by
  have htime : (ev.shift c).time = ev.time + c := rfl
  rw [onEvent_eq, onEvent_eq, htime, meet_shift h h' huses hroom, rollTo_shift h h' huses hroom, measure_shift]
  simp only [Emitting.shift, note_shift, List.map_append]

theorem absorb_shift {ev : Event} (h : Placed ev.time m) (h' : Placed (ev.time + c) (m.shift c))
    (huses : Uses lengths m) (hroom : Movable c lengths ev.time) (hits : Hits) (u : Condition.Update) :
    (m.shift c).absorb cs (ev.shift c) hits u =
      ((m.absorb cs ev hits u).1.shift c, (m.absorb cs ev hits u).2) := by
  have hwatch : (m.shift c).watch (ev.time + c) hits = (m.watch ev.time hits).shift c :=
    watch_shift (fun a ha => hroom.carries_self (huses.ttl a ha)) hits
  have hplaced : Placed ev.time (m.watch ev.time hits) := h.watch ev.time hits
  have hplaced' : Placed (ev.time + c) ((m.watch ev.time hits).shift c) := hwatch ▸ h'.watch (ev.time + c) hits
  have hwatched : Uses lengths (m.watch ev.time hits) := huses.watch ev.time hits
  have hevent := onEvent_shift cs hplaced hplaced' hwatched hroom hits u
  have habsorb : (m.shift c).absorb cs (ev.shift c) hits u = _ :=
    absorb_eq cs (ev.shift c) hits u h' ((hwatch ▸ (hwatched.shift c).passes hplaced' hroom.2 :))
  have htime : (ev.shift c).time = ev.time + c := rfl
  rw [habsorb, absorb_eq cs ev hits u h (hwatched.passes hplaced hroom.1), htime, hwatch, hevent]
  refine Prod.ext ?_ rfl
  exact Emitting.andThen_shift _ (flushPending_shift c _)

end EventMetrics.Metric
