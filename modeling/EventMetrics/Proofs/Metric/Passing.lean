import EventMetrics.Proofs.Metric.Tidy

namespace EventMetrics

open Definition (DurationAggregation)

namespace Intervals

variable {is : Intervals} (agg : DurationAggregation) (time : Int) {iv : Interval}

theorem totals_accrueTo_accrueTo (is : Intervals) :
    ({ is.accrueTo .sum time with totals := .empty }.accrueTo .sum time).totals = .empty := by
  refine totals_sweep fun e he => ?_
  rcases since_accrueTo he with hs | hs <;> simp [cut, hs]

theorem regateOne_eq (iv : Interval) : regateOne agg time false iv =
    ({ (accrueOne agg time iv).1 with since := none }, (accrueOne agg time iv).2) := by
  obtain ⟨nesting, since, link, lifetime⟩ := iv
  cases since <;> cases agg <;> rfl

theorem accrueOne_of_rest (h : iv.since = none) : accrueOne agg time iv = (iv, 0) := by
  rw [accrueOne, h, Option.elim_none]

/-- Intervals whose gates close at the last instant count as if they ran to it. -/
theorem settle_regate (is : Intervals) :
    ((is.regate agg time fun _ => false).settle agg time).totals = (is.settle agg time).totals := by
  have hrest : ∀ e ∈ (is.regate agg time fun _ => false).opened.entries, e.2.since = none :=
    fun e he => (is.atRest_regate agg time fun _ => rfl).since_of_mem he
  have hregate : (is.regate agg time fun _ => false).totals = (is.accrueTo agg time).totals := by
    simp only [accrueTo_eq, regate, sweep, regateOne_eq]
  have htotals : ((is.regate agg time fun _ => false).accrueTo agg time).totals = (is.accrueTo agg time).totals := by
    rw [accrueTo_eq, totals_sweep fun e he => by simp [accrueOne_of_rest agg time (hrest e he)], hregate]
  have hentries : ((is.regate agg time fun _ => false).accrueTo agg time).opened.entries =
      (is.regate agg time fun _ => false).opened.entries := by
    rw [accrueTo_eq, sweep]
    refine (List.map_congr_left fun e he => ?_).trans (List.map_id _)
    exact congrArg (Prod.mk e.1) (congrArg Prod.fst (accrueOne_of_rest agg time (hrest e he)))
  cases agg with
  | sum => exact htotals
  | maxSparse =>
      simp only [settle, htotals, hentries]
      simp only [accrueTo_eq, regate, sweep, regateOne_eq, Table.mapValues, List.foldl_map]

end Intervals

namespace Metric

open Instant (first last)

variable {m n : Metric} {cs : Conditions} {τ : Int} {slot : Slot}

theorem followWindows_eq_self (h : m.active = m.windows.isActive τ) : m.followWindows cs τ = m := by
  rw [followWindows, ← h]
  cases m.active <;> rfl

theorem quiet_roll (cs : Conditions) (h : Placed slot.stop m) (hs : m.grid.current = some slot)
    (hpass : Passes slot.stop m) : Quiet slot.stop (m.roll cs slot).state := by
  refine quiet_of_inside h.inRange.1 (inside_roll cs h hs hpass) fun ha => ?_
  rw [roll_active, Bool.and_eq_true] at ha
  rw [roll_windows]
  exact ha.2

theorem advance_now_cases (cs : Conditions) (h : OnTime τ m) (hpass : Passes τ m) :
    (Quiet τ m ∧ m.advance cs τ true = ⟨m, []⟩) ∨
    (∃ slot, m.grid.current = some slot ∧ slot.stop = τ ∧ m.advance cs τ true = m.roll cs slot) ∨
    (Inside τ m ∧ m.expiry = some τ ∧ m.advance cs τ true = ⟨m.deactivate τ, []⟩) := by
  cases ht : m.tick cs τ true with
  | none =>
      refine .inl ⟨fun d hd => ?_, advance_of_tick_none ht⟩
      exact Int.not_le.1 (mt due_true.2 (tick_eq_none.1 ht d hd))
  | some r =>
      obtain ⟨d, hd, hdue, hf⟩ := tick_eq_some ht
      obtain rfl : d = τ := Int.le_antisymm (due_true.1 hdue) (h.le_deadline hd)
      -- one timer is all that an instant holds: what it leaves is quiet
      have honce : r.state.remaining < m.remaining → Quiet d r.state → m.advance cs d true = r := by
        intro hlt hq
        rw [advance_of_tick ht hlt, Emitting.andThen, hq.advance cs true]
        simp
      cases hf with
      | roll hs he =>
          subst he
          exact .inr (.inl ⟨_, hs, rfl, honce (remaining_roll_lt cs h.paced hs (hpass.lt_or (h.bucketed _ hs)))
            (quiet_roll cs h.toPlaced hs hpass)⟩)
      | expire hx hlt =>
          have hin : Inside d m := fun slot hs => hlt slot hs
          refine .inr (.inr ⟨hin, hx, honce ?_ (quiet_of_inside h.inRange.1 ?_ (by simp))⟩)
          · simp [remaining, (expiry_eq_some hx).1]
          · exact fun slot hs => hin slot (deactivate_grid m d ▸ hs)

theorem advance_now_eq (cs : Conditions) (h : OnTime τ m) (hpass : Passes τ m) :
    m.advance cs τ true = ⟨m.meet cs τ, (m.rollTo cs τ).records⟩ := by
  rcases advance_now_cases cs h hpass with ⟨hq, ha⟩ | ⟨slot, hs, rfl, ha⟩ | ⟨hin, hx, ha⟩ <;> rw [ha, meet]
  · have hroll := rollTo_of_inside cs fun slot hs => hq.lt_stop hs
    rw [hroll, followWindows_eq_self (h.active_eq hq)]
  · have hrolled := OnTime.roll cs h.toPlaced hs h.idle
    rw [rollTo_of_stop cs h.toPlaced hs hpass,
      followWindows_eq_self (hrolled.active_eq (quiet_roll cs h.toPlaced hs hpass))]
  · have hactive := (expiry_eq_some hx).1
    have hidle := not_isActive_expiry hx
    rw [rollTo_of_inside cs hin, followWindows]
    simp only [hactive, hidle]

theorem flushBucket_congr (hplan : n.plan = m.plan) (hrows : n.rows = m.rows)
    (hdrops : n.unknownDrops = m.unknownDrops) (hpending : n.pending = m.pending) (htrackers : n.trackers = m.trackers)
    (slot : Slot) (stop : Int) (reportEmpty : Bool) :
    (n.flushBucket slot stop reportEmpty).records = (m.flushBucket slot stop reportEmpty).records ∧
      (n.flushBucket slot stop reportEmpty).state.pending = (m.flushBucket slot stop reportEmpty).state.pending := by
  cases hr : m.rows.isEmpty with
  | false =>
      rw [flushBucket_of_rows hr, flushBucket_of_rows (hrows ▸ hr), hrows]
      cases hp : m.pending <;> simp [flushPending, clearBucket, emitRows, hplan, htrackers, hpending, hp]
  | true =>
      cases reportEmpty with
      | false =>
          rw [flushBucket_unreported hr, flushBucket_unreported (hrows ▸ hr)]
          exact ⟨rfl, hpending⟩
      | true =>
          have hreason : n.skipReason = m.skipReason := by rw [skipReason, skipReason, hdrops]
          rw [flushBucket_of_empty hr, flushBucket_of_empty (hrows ▸ hr), hreason]
          cases hp : m.pending with
          | none => simp [skip, clearBucket, hpending, hp, hplan]
          | some s =>
              simp only [skip, clearBucket, hpending, hp, flushPending, hplan]
              split <;> exact ⟨rfl, rfl⟩

theorem settle_eq_accrue (h : ∀ t, m.plan.rule = .timed t → t.aggregation = .sum) (time : Int) :
    m.settle time = m.accrue time := by
  rw [settle, accrue, onIntervals, onIntervals]
  cases hrule : m.plan.rule with
  | timed t => simp only [h t hrule, Intervals.settle]
  | sampled | passed => rfl

theorem rows_of_empty (hsamples : m.samples = .empty)
    (htotals : ∀ t, m.plan.rule = .timed t → m.intervals.totals = .empty) : m.rows = [] := by
  rw [rows]
  cases hrule : m.plan.rule with
  | sampled what reading => simp only [hsamples]; rfl
  | timed t => simp only [Intervals.rows, htotals t hrule]; rfl
  | passed what => rfl

theorem closeAt_roll (cs : Conditions) (hs : m.grid.current = some slot)
    (hsum : ∀ t, m.plan.rule = .timed t → t.aggregation = .sum) :
    ((m.roll cs slot).state.closeAt slot.stop).records = [] ∧
      ((m.roll cs slot).state.closeAt slot.stop).state.pending = (m.roll cs slot).state.pending := by
  have hgrid := roll_grid m cs slot
  have hplan := roll_plan m cs slot
  cases hs' : (m.roll cs slot).state.grid.current with
  | none =>
      rw [closeAt_of_none hs']
      exact ⟨rfl, rfl⟩
  | some next =>
      obtain ⟨hgo, hstart⟩ : (m.active && m.windows.isActive slot.stop) = true ∧ next.start = slot.stop := by
        rw [hgrid] at hs'
        split at hs'
        next hgo =>
          simp only [Grid.roll, hs, Option.some.injEq] at hs'
          exact ⟨hgo, hs' ▸ rfl⟩
        next => simp [Grid.close, hs] at hs'
      -- no sample has come since, and sums of time have been cut at the very instant
      have hrows : ((m.roll cs slot).state.settle slot.stop).rows = [] := by
        refine rows_of_empty (by simp [settle, roll_samples]) fun t hrule => ?_
        simp only [settle_plan, hplan] at hrule
        have hgo' : (m.active && !m.windows.isActive slot.stop) = false := by simp_all
        rw [settle_timed (hplan ▸ hrule), hsum t hrule, roll_timed hrule, hgo', hsum t hrule]
        exact Intervals.totals_accrueTo_accrueTo slot.stop m.intervals
      have hempty : ((m.roll cs slot).state.settle slot.stop).rows.isEmpty = true := by rw [hrows]; rfl
      rw [closeAt_of_slot hs', hstart, Int.max_self, decide_eq_false (Int.lt_irrefl _), flushBucket_unreported hempty]
      exact ⟨rfl, onIntervals_pending _ _⟩

theorem rows_settle_deactivate (m : Metric) (time : Int) :
    ((m.deactivate time).settle time).rows = (m.settle time).rows := by
  have hplan : ((m.deactivate time).settle time).plan = m.plan := (settle_plan _ time).trans (deactivate_plan m time)
  rw [rows, rows, hplan, settle_plan]
  cases hrule : m.plan.rule with
  | sampled what reading => simp [settle]
  | passed what => rfl
  | timed t =>
      simp only [Intervals.rows, settle_timed (deactivate_plan m time ▸ hrule), settle_timed hrule,
        deactivate_timed hrule, Intervals.settle_regate]

/-- Closed at an instant, a metric reports the same whether what is due there has happened or not, unless the
end of a bucket cuts off lifetimes that would be reported as a whole. -/
theorem closeAt_advance (cs : Conditions) (h : OnTime τ m) (hpass : Passes τ m)
    (hlength : ∀ slot, m.grid.current = some slot → slot.start < slot.stop)
    (hwhole : ∀ t slot, m.plan.rule = .timed t → t.aggregation = .maxSparse → m.grid.current = some slot →
      slot.stop ≠ τ) :
    (m.advance cs τ true).records ++ ((m.advance cs τ true).state.closeAt τ).records = (m.closeAt τ).records ∧
      ((m.advance cs τ true).state.closeAt τ).state.pending = (m.closeAt τ).state.pending := by
  rcases advance_now_cases cs h hpass with ⟨-, ha⟩ | ⟨slot, hs, rfl, ha⟩ | ⟨hin, hx, ha⟩ <;> rw [ha]
  · exact ⟨rfl, rfl⟩
  · have hsum : ∀ t, m.plan.rule = .timed t → t.aggregation = .sum := by
      intro t hrule
      cases hagg : t.aggregation with
      | sum => rfl
      | maxSparse => exact absurd rfl (hwhole t slot hrule hagg hs)
    obtain ⟨hrecords, hpending⟩ := closeAt_roll cs hs hsum
    have hlt := hlength slot hs
    have hmax : max slot.stop slot.start = slot.stop := by omega
    rw [hrecords, hpending, closeAt_of_slot hs, hmax, settle_eq_accrue hsum, decide_eq_true hlt, roll_eq]
    simp [proceed_pending]
  · cases hs : m.grid.current with
    | none =>
        rw [closeAt_of_none hs, closeAt_of_none (by simpa using hs)]
        simp
    | some slot =>
        have hmax : max τ slot.start = τ := by
          have hle := (h.slot slot hs).2.1
          omega
        rw [closeAt_of_slot hs, closeAt_of_slot (m := m.deactivate τ) (by simpa using hs), hmax]
        obtain ⟨hrecords, hpending⟩ := flushBucket_congr (n := (m.deactivate τ).settle τ) (m := m.settle τ)
          (by simp [settle]) (rows_settle_deactivate m τ) (by simp [settle, deactivate]) (by simp [settle])
          (by simp [settle]) slot τ (decide (slot.start < τ))
        exact ⟨by simpa using hrecords, hpending⟩

/-- Windows end within time, so that a bucket that starts when time ends is of a metric without any. -/
structure Early (m : Metric) : Prop where
  bounded : m.windows.Bounded
  slot : ∀ slot, m.grid.current = some slot → slot.start < last ∨ m.windows = []

namespace Early

theorem congr (h : Early m) (hgrid : n.grid = m.grid) (hwindows : n.windows = m.windows) : Early n :=
  ⟨hwindows ▸ h.bounded, hgrid ▸ hwindows ▸ h.slot⟩

theorem of_body (h : Early m) (hbody : n.body = m.body) : Early n :=
  h.congr (congrArg Metric.grid hbody :) (congrArg Metric.windows hbody :)

theorem activate (h : Early m) (cs : Conditions) {time : Int} (ht : m.windows.isActive time = true) :
    Early (m.activate cs time) := by
  refine ⟨activate_windows m cs time ▸ h.bounded, fun slot hs => ?_⟩
  rw [activate_grid] at hs
  rw [activate_windows]
  split at hs
  · cases hs
    exact h.bounded.lt_last ht
  · exact h.slot slot hs

theorem roll (h : Early m) (cs : Conditions) (slot : Slot) (hs : m.grid.current = some slot) :
    Early (m.roll cs slot).state := by
  refine ⟨roll_windows m cs slot ▸ h.bounded, fun next hnext => ?_⟩
  rw [roll_grid] at hnext
  rw [roll_windows]
  split at hnext
  next hgo =>
    rw [Bool.and_eq_true] at hgo
    simp only [Grid.roll, hs, Option.some.injEq] at hnext
    exact hnext ▸ h.bounded.lt_last hgo.2
  next => simp [Grid.close, hs] at hnext

theorem deactivate (h : Early m) (time : Int) : Early (m.deactivate time) :=
  h.congr (deactivate_grid m time) (deactivate_windows m time)

theorem start (h : Early m) (cs : Conditions) (time : Int) : Early (m.start cs time) := by
  rw [Metric.start]
  split
  next ht => exact h.activate cs ht
  next => exact h

theorem followWindows (h : Early m) (cs : Conditions) (time : Int) : Early (m.followWindows cs time) := by
  rw [Metric.followWindows]
  split
  next ht => exact h.activate cs ht
  next => exact h.deactivate time
  next => exact h

theorem advance (h : Early m) (cs : Conditions) (limit : Int) (inclusive : Bool) :
    Early (m.advance cs limit inclusive).state :=
  advance_induction (P := fun m _ => Early m) (fun _ _ slot h _ hs _ => h.roll cs slot hs)
    (fun _ _ due h _ _ _ => h.deactivate due) m [] h

theorem rollTo (h : Early m) (cs : Conditions) (time : Int) : Early (m.rollTo cs time).state :=
  rollTo_induction (P := fun m _ => Early m) (fun _ _ slot h hs _ => h.roll cs slot hs) m [] h

theorem watch (h : Early m) (time : Int) (hits : Hits) : Early (m.watch time hits) :=
  ⟨h.bounded.onEvent time hits, fun slot hs => (h.slot slot hs).imp_right fun hnil => by
    simp [Metric.watch, Activations.onEvent, hnil]⟩

theorem absorb (h : Early m) (cs : Conditions) (ev : Event) (hits : Hits) (u : Condition.Update) :
    Early (m.absorb cs ev hits u).1.state := by
  have hmet : Early ((m.watch ev.time hits).meet cs ev.time) :=
    ((h.watch ev.time hits).rollTo cs ev.time).followWindows cs ev.time
  have hstill := measure_still ((m.watch ev.time hits).meet cs ev.time) cs ev hits u
  have hmeasured : Early (((m.watch ev.time hits).meet cs ev.time).measure cs ev hits u).1.state :=
    hmet.congr (congrArg Metric.grid hstill :) (congrArg Metric.windows hstill :)
  have hnote : ∀ (n : Metric) (o : Outcome), Early n → Early (n.note o) := fun n o hn => by
    cases o <;> exact hn.congr rfl rfl
  rw [absorb_watch, onEvent_eq]
  exact ((hnote _ _ hmeasured).advance cs ev.time true).of_body (body_flushPending _)

theorem advanceTo (h : Early m) (cs : Conditions) (now : Int) : Early (m.advanceTo cs now).state :=
  (h.advance cs now false).of_body (body_flushPending _)

theorem shutdown (h : Early m) (cs : Conditions) (now : Int) : Early (m.shutdown cs now).state := by
  have hadvanced := h.advance cs now false
  have hclosed : Early ((m.advance cs now false).state.closeAt now).state := by
    refine ⟨closeAt_windows (m.advance cs now false).state now ▸ hadvanced.bounded, fun slot hs => ?_⟩
    cases hcurrent : (m.advance cs now false).state.grid.current with
    | none => simp [closeAt_of_none hcurrent, hcurrent] at hs
    | some slot' =>
        have hgrid : ((m.advance cs now false).state.closeAt now).state.grid =
            (m.advance cs now false).state.grid.close :=
          (congrArg Metric.grid (body_closeAt _ hcurrent now) :)
        simp [hgrid, Grid.close, hcurrent] at hs
  exact hclosed.of_body (body_flushPending _)

end Early

theorem Early.start_lt_stop (h : Early m) (hp : Placed τ m) (hpass : Passes τ m) (hs : m.grid.current = some slot) :
    slot.start < slot.stop := by
  refine hp.start_lt_stop hs ?_
  rcases hpass.lt_or (hp.bucketed slot hs) with hlt | hidle
  · exact Int.lt_of_le_of_lt (hp.slot slot hs).2.1 hlt
  · exact (h.slot slot hs).resolve_right fun hnil => by simp [hnil, Activations.isActive] at hidle

end Metric

end EventMetrics
