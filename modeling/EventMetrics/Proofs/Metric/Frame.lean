import EventMetrics.Proofs.Metric.Timers
import EventMetrics.Proofs.Skipped

namespace EventMetrics.Metric

variable (m : Metric) (cs : Conditions) (f : Timing → Intervals → Intervals)

@[simp] theorem onIntervals_plan : (m.onIntervals f).plan = m.plan := by
  rw [onIntervals]; split <;> rfl

@[simp] theorem onIntervals_grid : (m.onIntervals f).grid = m.grid := by
  rw [onIntervals]; split <;> rfl

@[simp] theorem onIntervals_windows : (m.onIntervals f).windows = m.windows := by
  rw [onIntervals]; split <;> rfl

@[simp] theorem onIntervals_active : (m.onIntervals f).active = m.active := by
  rw [onIntervals]; split <;> rfl

@[simp] theorem onIntervals_pending : (m.onIntervals f).pending = m.pending := by
  rw [onIntervals]; split <;> rfl

@[simp] theorem onIntervals_unknownDrops : (m.onIntervals f).unknownDrops = m.unknownDrops := by
  rw [onIntervals]; split <;> rfl

@[simp] theorem onIntervals_samples : (m.onIntervals f).samples = m.samples := by
  rw [onIntervals]; split <;> rfl

@[simp] theorem onIntervals_trackers : (m.onIntervals f).trackers = m.trackers := by
  rw [onIntervals]; split <;> rfl

@[simp] theorem onIntervals_turnover : (m.onIntervals f).turnover = m.turnover := by
  rw [onIntervals]; split <;> rfl

variable (time : Int)

@[simp] theorem activate_plan : (m.activate cs time).plan = m.plan := by
  simp [activate, openWindow]

theorem activate_grid : (m.activate cs time).grid =
    if m.plan.isBucketed && m.grid.current.isNone then m.grid.openAt time else m.grid := by
  simp [activate, openWindow]

@[simp] theorem activate_windows : (m.activate cs time).windows = m.windows := by
  simp [activate, openWindow]

@[simp] theorem activate_active : (m.activate cs time).active = true := by
  simp [activate, openWindow]

@[simp] theorem activate_pending : (m.activate cs time).pending = m.pending := by
  simp [activate, openWindow]

@[simp] theorem activate_samples : (m.activate cs time).samples = m.samples := by
  simp [activate, openWindow]

@[simp] theorem activate_trackers : (m.activate cs time).trackers = m.trackers := by
  simp [activate, openWindow]

@[simp] theorem activate_turnover : (m.activate cs time).turnover = m.turnover := by
  simp [activate, openWindow]

@[simp] theorem deactivate_plan : (m.deactivate time).plan = m.plan := by
  simp [deactivate]

@[simp] theorem deactivate_grid : (m.deactivate time).grid = m.grid := by
  simp [deactivate]

@[simp] theorem deactivate_windows : (m.deactivate time).windows = m.windows := by
  simp [deactivate]

@[simp] theorem deactivate_active : (m.deactivate time).active = false := by
  simp [deactivate]

@[simp] theorem deactivate_pending : (m.deactivate time).pending = m.pending := by
  simp [deactivate]

@[simp] theorem deactivate_samples : (m.deactivate time).samples = m.samples := by
  simp [deactivate]

@[simp] theorem deactivate_trackers : (m.deactivate time).trackers = m.trackers := by
  simp [deactivate]

@[simp] theorem deactivate_turnover : (m.deactivate time).turnover = m.turnover := by
  simp [deactivate]

theorem start_cases : m.start cs time = m.activate cs time ∨ m.start cs time = m := by
  rw [start]
  split
  · exact .inl rfl
  · exact .inr rfl

@[simp] theorem start_plan : (m.start cs time).plan = m.plan := by
  rcases start_cases m cs time with h | h <;> simp [h]

@[simp] theorem start_pending : (m.start cs time).pending = m.pending := by
  rcases start_cases m cs time with h | h <;> simp [h]

@[simp] theorem start_turnover : (m.start cs time).turnover = m.turnover := by
  rcases start_cases m cs time with h | h <;> simp [h]

theorem followWindows_cases : m.followWindows cs time = m.activate cs time ∨
    m.followWindows cs time = m.deactivate time ∨ m.followWindows cs time = m := by
  rw [followWindows]
  split
  · exact .inl rfl
  · exact .inr (.inl rfl)
  · exact .inr (.inr rfl)

@[simp] theorem followWindows_plan : (m.followWindows cs time).plan = m.plan := by
  rcases followWindows_cases m cs time with h | h | h <;> simp [h]

@[simp] theorem followWindows_windows : (m.followWindows cs time).windows = m.windows := by
  rcases followWindows_cases m cs time with h | h | h <;> simp [h]

@[simp] theorem followWindows_pending : (m.followWindows cs time).pending = m.pending := by
  rcases followWindows_cases m cs time with h | h | h <;> simp [h]

@[simp] theorem followWindows_turnover : (m.followWindows cs time).turnover = m.turnover := by
  rcases followWindows_cases m cs time with h | h | h <;> simp [h]

theorem followWindows_active : (m.followWindows cs time).active = m.windows.isActive time := by
  rw [followWindows]
  cases ha : m.active <;> cases hw : m.windows.isActive time <;> simp [ha]

/-- A metric without its books. -/
def body : Metric :=
  { m with
    pending := none, trackers := []
    turnover := { m.turnover with buckets := 0, skipped := 0, alerts := 0 } }

theorem body_flushPending : m.flushPending.state.body = m.body := by
  rw [flushPending]
  split <;> rfl

def owed : List Record := m.pending.toList.map .skipped

variable {m} in
theorem owed_congr {n : Metric} (h : n.pending = m.pending) : n.owed = m.owed := by
  rw [owed, owed, h]

theorem flushPending_records : m.flushPending.records = m.owed := by
  cases h : m.pending <;> simp [flushPending, owed, h]

theorem flushPending_owed : m.flushPending.records ++ m.flushPending.state.owed = m.owed := by
  cases h : m.pending <;> simp [flushPending, owed, h]

theorem flushPending_pending : m.flushPending.state.pending = none := by
  cases h : m.pending <;> simp [flushPending, h]

theorem gaps_emitRows (slot : Slot) (stop : Int) (rows : List Row) :
    Record.gaps (m.emitRows slot stop rows).records = [] := by
  refine List.filterMap_eq_nil_iff.2 fun x hx => ?_
  simp only [emitRows, List.mem_append, List.mem_map] at hx
  rcases hx with ⟨r, -, rfl⟩ | ⟨a, -, rfl⟩ <;> rfl

def await (start stop : Int) (reason : SkipReason) : Metric :=
  { m with pending := some ⟨m.plan.id, start, stop, 1, reason⟩ }

theorem skip_cases (start stop : Int) (reason : SkipReason) :
    (∃ s, m.pending = some s ∧ s.stop = start ∧ s.reason = reason ∧ m.skip start stop reason =
      ⟨{ m with pending := some { s with stop, buckets := s.buckets + 1 } }, []⟩) ∨
    m.skip start stop reason = m.flushPending.andThen fun n => ⟨n.await start stop reason, []⟩ := by
  cases hs : m.pending with
  | none =>
      right
      simp only [skip, flushPending, hs]
      rfl
  | some s =>
      by_cases h : s.stop = start ∧ s.reason = reason
      · left
        exact ⟨s, rfl, h.1, h.2, by simp only [skip, hs, if_pos h]⟩
      · right
        simp only [skip, hs, if_neg h]
        rfl

theorem body_skip (start stop : Int) (reason : SkipReason) :
    (m.skip start stop reason).state.body = m.body := by
  rcases skip_cases m start stop reason with ⟨s, -, -, -, hskip⟩ | hskip <;> rw [hskip]
  · rfl
  · exact body_flushPending m

def skipReason : SkipReason := if 0 < m.unknownDrops then .conditionUnknown else .noData

def accrue (time : Int) : Metric := m.onIntervals fun t is => is.accrueTo t.aggregation time

theorem accrue_plan : (m.accrue time).plan = m.plan := m.onIntervals_plan _

theorem accrue_owed : (m.accrue time).owed = m.owed := owed_congr (m.onIntervals_pending _)

def proceed (slot : Slot) : Metric :=
  if m.active && m.windows.isActive slot.stop then { m with grid := m.grid.roll }.openWindow cs
  else
    let m := { m with grid := m.grid.close }
    if m.active then m.deactivate slot.stop else m

variable {m} in
theorem flushBucket_of_rows (h : m.rows.isEmpty = false) (slot : Slot) (stop : Int)
    (reportEmpty : Bool) : m.flushBucket slot stop reportEmpty =
      m.clearBucket.flushPending.andThen fun n => n.emitRows slot stop m.rows := by
  simp only [flushBucket, h, Bool.false_eq_true, if_false]

variable {m} in
theorem flushBucket_of_empty (h : m.rows.isEmpty = true) (slot : Slot) (stop : Int) :
    m.flushBucket slot stop true = m.clearBucket.skip slot.start stop m.skipReason := by
  simp only [flushBucket, h, if_true]
  rfl

variable {m} in
theorem flushBucket_unreported (h : m.rows.isEmpty = true) (slot : Slot) (stop : Int) :
    m.flushBucket slot stop false = ⟨m.clearBucket, []⟩ := by
  simp only [flushBucket, h, if_true, Bool.false_eq_true, if_false]

theorem body_flushBucket (slot : Slot) (stop : Int) (reportEmpty : Bool) :
    (m.flushBucket slot stop reportEmpty).state.body = m.clearBucket.body := by
  cases h : m.rows.isEmpty with
  | false =>
      rw [flushBucket_of_rows h]
      exact body_flushPending _
  | true =>
      cases reportEmpty with
      | false => rw [flushBucket_unreported h]
      | true =>
          rw [flushBucket_of_empty h]
          exact body_skip _ _ _ _

theorem body_onIntervals : (m.onIntervals f).body = m.body.onIntervals f := by
  rw [onIntervals, onIntervals, body, body]
  cases m.plan.rule <;> rfl

theorem body_deactivate : (m.deactivate time).body = m.body.deactivate time :=
  body_onIntervals _ _

theorem body_proceed (slot : Slot) : (m.proceed cs slot).body = m.body.proceed cs slot := by
  have hactive : m.body.active = m.active := rfl
  have hwindows : m.body.windows = m.windows := rfl
  rw [proceed, proceed, hactive, hwindows]
  split
  · rfl
  · dsimp only
    split
    · exact body_deactivate _ _
    · rfl

theorem roll_eq (slot : Slot) : m.roll cs slot =
    ((m.accrue slot.stop).flushBucket slot slot.stop true).andThen fun n => ⟨n.proceed cs slot, []⟩ := by
  have hproceed : (fun n : Metric => (⟨n.proceed cs slot, []⟩ : Emitting Metric)) = fun n =>
      if n.active && n.windows.isActive slot.stop then
        ⟨{ n with grid := n.grid.roll }.openWindow cs, []⟩
      else
        let n := { n with grid := n.grid.close }
        ⟨if n.active then n.deactivate slot.stop else n, []⟩ := by
    funext n
    rw [proceed]
    split <;> rfl
  rw [hproceed]
  rfl

theorem body_roll (slot : Slot) : (m.roll cs slot).state.body =
    ((m.accrue slot.stop).clearBucket.proceed cs slot).body := by
  rw [roll_eq]
  simp only [Emitting.andThen_state, body_proceed]
  rw [body_flushBucket]

theorem proceed_cases (slot : Slot) :
    m.proceed cs slot = { m with grid := m.grid.roll }.openWindow cs ∨
    m.proceed cs slot = { m with grid := m.grid.close }.deactivate slot.stop ∨
    m.proceed cs slot = { m with grid := m.grid.close } := by
  rw [proceed]
  dsimp only
  split
  · exact .inl rfl
  · split
    · exact .inr (.inl rfl)
    · exact .inr (.inr rfl)

theorem proceed_active (slot : Slot) :
    (m.proceed cs slot).active = (m.active && m.windows.isActive slot.stop) := by
  rw [proceed]
  cases ha : m.active <;> cases hw : m.windows.isActive slot.stop <;> simp [openWindow]

theorem proceed_grid (slot : Slot) : (m.proceed cs slot).grid =
    if m.active && m.windows.isActive slot.stop then m.grid.roll else m.grid.close := by
  rw [proceed]
  cases ha : m.active <;> cases hw : m.windows.isActive slot.stop <;> simp [openWindow]

theorem proceed_plan (slot : Slot) : (m.proceed cs slot).plan = m.plan := by
  rcases proceed_cases m cs slot with h | h | h <;> simp [h, openWindow]

theorem proceed_windows (slot : Slot) : (m.proceed cs slot).windows = m.windows := by
  rcases proceed_cases m cs slot with h | h | h <;> simp [h, openWindow]

theorem proceed_samples (slot : Slot) : (m.proceed cs slot).samples = m.samples := by
  rcases proceed_cases m cs slot with h | h | h <;> simp [h, openWindow]

theorem proceed_pending (slot : Slot) : (m.proceed cs slot).pending = m.pending := by
  rcases proceed_cases m cs slot with h | h | h <;> simp [h, openWindow]

theorem proceed_turnover (slot : Slot) : (m.proceed cs slot).turnover = m.turnover := by
  rcases proceed_cases m cs slot with h | h | h <;> simp [h, openWindow]

theorem roll_active (slot : Slot) :
    (m.roll cs slot).state.active = (m.active && m.windows.isActive slot.stop) := by
  have h : (m.roll cs slot).state.active = ((m.accrue slot.stop).clearBucket.proceed cs slot).active :=
    (congrArg Metric.active (body_roll m cs slot) :)
  rw [h, proceed_active]
  simp [clearBucket, accrue]

theorem roll_grid (slot : Slot) : (m.roll cs slot).state.grid =
    if m.active && m.windows.isActive slot.stop then m.grid.roll else m.grid.close := by
  have h : (m.roll cs slot).state.grid = ((m.accrue slot.stop).clearBucket.proceed cs slot).grid :=
    (congrArg Metric.grid (body_roll m cs slot) :)
  rw [h, proceed_grid]
  simp [clearBucket, accrue]

theorem roll_size (slot : Slot) : (m.roll cs slot).state.grid.size = m.grid.size := by
  rw [roll_grid]
  split <;> cases hs : m.grid.current <;> simp [Grid.roll, Grid.close, hs]

theorem roll_plan (slot : Slot) : (m.roll cs slot).state.plan = m.plan := by
  have h : (m.roll cs slot).state.plan = ((m.accrue slot.stop).clearBucket.proceed cs slot).plan :=
    (congrArg Metric.plan (body_roll m cs slot) :)
  rw [h, proceed_plan]
  simp [clearBucket, accrue]

theorem roll_samples (slot : Slot) : (m.roll cs slot).state.samples = .empty := by
  have h : (m.roll cs slot).state.samples = ((m.accrue slot.stop).clearBucket.proceed cs slot).samples :=
    (congrArg Metric.samples (body_roll m cs slot) :)
  rw [h, proceed_samples]
  rfl

theorem roll_windows (slot : Slot) : (m.roll cs slot).state.windows = m.windows := by
  have h : (m.roll cs slot).state.windows = ((m.accrue slot.stop).clearBucket.proceed cs slot).windows :=
    (congrArg Metric.windows (body_roll m cs slot) :)
  rw [h, proceed_windows]
  simp [clearBucket, accrue]

theorem advance_plan (limit : Int) (inclusive : Bool) : (m.advance cs limit inclusive).state.plan = m.plan :=
  advance_induction (P := fun n _ => n.plan = m.plan) (fun _ _ slot h _ _ _ => (roll_plan _ cs slot).trans h)
    (fun _ _ due h _ _ _ => (deactivate_plan _ due).trans h) m [] rfl

theorem advance_windows (limit : Int) (inclusive : Bool) :
    (m.advance cs limit inclusive).state.windows = m.windows :=
  advance_induction (P := fun n _ => n.windows = m.windows)
    (fun _ _ slot h _ _ _ => (roll_windows _ cs slot).trans h)
    (fun _ _ due h _ _ _ => (deactivate_windows _ due).trans h) m [] rfl

theorem rollTo_plan : (m.rollTo cs time).state.plan = m.plan :=
  rollTo_induction (P := fun n _ => n.plan = m.plan) (fun _ _ slot h _ _ => (roll_plan _ cs slot).trans h)
    m [] rfl

theorem rollTo_windows : (m.rollTo cs time).state.windows = m.windows :=
  rollTo_induction (P := fun n _ => n.windows = m.windows)
    (fun _ _ slot h _ _ => (roll_windows _ cs slot).trans h) m [] rfl

/-- Cuts running intervals at the last instant, which ends all of them for the books. -/
def settle (time : Int) : Metric := m.onIntervals fun t is => is.settle t.aggregation time

theorem settle_plan : (m.settle time).plan = m.plan := m.onIntervals_plan _

theorem settle_owed : (m.settle time).owed = m.owed := owed_congr (m.onIntervals_pending _)

variable {m} in
theorem closeAt_of_none (hs : m.grid.current = none) (now : Int) : m.closeAt now = ⟨m, []⟩ := by
  simp [closeAt, hs]

variable {m} in
theorem closeAt_of_slot {slot : Slot} (hs : m.grid.current = some slot) (now : Int) :
    m.closeAt now = ((m.settle (max now slot.start)).flushBucket slot (max now slot.start)
      (slot.start < max now slot.start)).andThen fun n => ⟨{ n with grid := n.grid.close }, []⟩ := by
  simp only [closeAt, hs]
  rfl

theorem body_closeAt {slot : Slot} (hs : m.grid.current = some slot) (now : Int) :
    (m.closeAt now).state.body =
      { (m.settle (max now slot.start)).clearBucket.body with grid := m.grid.close } := by
  rw [closeAt_of_slot hs, Emitting.andThen_state]
  have hbody := body_flushBucket (m.settle (max now slot.start)) slot (max now slot.start)
    (slot.start < max now slot.start)
  have hgrid : ((m.settle (max now slot.start)).flushBucket slot (max now slot.start)
      (slot.start < max now slot.start)).state.grid = m.grid :=
    (congrArg Metric.grid hbody :).trans (by simp [clearBucket, settle, body])
  rw [← hbody, ← hgrid]
  rfl

theorem flushPending_windows : m.flushPending.state.windows = m.windows :=
  (congrArg Metric.windows (body_flushPending m) :)

theorem closeAt_windows (now : Int) : (m.closeAt now).state.windows = m.windows := by
  cases hs : m.grid.current with
  | none => rw [closeAt_of_none hs]
  | some slot =>
      refine (congrArg Metric.windows (body_closeAt m hs now) :).trans ?_
      simp [clearBucket, settle, body]

theorem start_windows : (m.start cs time).windows = m.windows := by
  rcases start_cases m cs time with h | h <;> simp [h]

theorem advanceTo_windows (now : Int) : (m.advanceTo cs now).state.windows = m.windows :=
  (flushPending_windows _).trans (advance_windows m cs now false)

variable {m cs} in
theorem advanceTo_of_not_due {now : Int} (hpending : m.pending = none)
    (h : ∀ d, m.nextDeadline = some d → now ≤ d) : m.advanceTo cs now = ⟨m, []⟩ := by
  have htick : m.tick cs now false = none :=
    tick_eq_none.2 fun d hd hdue => Int.not_lt.2 (h d hd) (due_false.1 hdue)
  rw [advanceTo, advance_of_tick_none htick]
  simp [Emitting.andThen, flushPending, hpending]

theorem shutdown_windows (now : Int) : (m.shutdown cs now).state.windows = m.windows :=
  (flushPending_windows _).trans ((closeAt_windows _ now).trans (advance_windows m cs now false))

end EventMetrics.Metric
