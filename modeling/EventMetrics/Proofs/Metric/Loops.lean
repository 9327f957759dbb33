import EventMetrics.Engine.Loops
import EventMetrics.Proofs.Metric.Tidy

namespace EventMetrics

namespace Emitting

variable {α : Type} {step : α → Option (Emitting α)} {r s : Emitting α}

/-- After finitely many steps from `r` there is none to take, and `s` is what came of them. -/
inductive Ends (step : α → Option (Emitting α)) : Emitting α → Emitting α → Prop
  | stop {r : Emitting α} : step r.state = none → Ends step r r
  | step {r q s : Emitting α} : step r.state = some q → Ends step ⟨q.state, r.records ++ q.records⟩ s →
      Ends step r s

theorem exhaust_of_none (h : step r.state = none) : exhaust step r = some r := by
  rw [exhaust, h]

theorem exhaust_of_some {q : Emitting α} (h : step r.state = some q) :
    exhaust step r = exhaust step ⟨q.state, r.records ++ q.records⟩ := by
  rw [exhaust, h]

theorem exhaust_eq_some : exhaust step r = some s ↔ Ends step r s := by
  constructor
  · apply exhaust.partial_correctness (Ends · · ·)
    intro go hgo step r s h
    cases hr : step r.state with
    | none =>
        simp only [hr, Option.some.injEq] at h
        exact h ▸ .stop hr
    | some q =>
        simp only [hr] at h
        exact .step hr (hgo _ _ _ h)
  · intro h
    induction h with
    | stop hr => exact exhaust_of_none hr
    | step hr _ ih => rw [exhaust_of_some hr, ih]

theorem exhaust_eq_none {P : α → Prop} (hP : ∀ a, P a → ∃ q, step a = some q ∧ P q.state) (h : P r.state) :
    exhaust step r = none := by
  rw [Option.eq_none_iff_forall_ne_some]
  intro s hs
  rw [exhaust_eq_some] at hs
  induction hs with
  | stop hr =>
      obtain ⟨q, hq, -⟩ := hP _ h
      rw [hr] at hq
      cases hq
  | step hr _ ih =>
      obtain ⟨q, hq, hkept⟩ := hP _ h
      rw [hr] at hq
      cases hq
      exact ih hkept

end Emitting

namespace Metric

open Emitting (exhaust exhaust_of_none exhaust_of_some exhaust_eq_none)
open Instant (last)

variable {m : Metric} {cs : Conditions} {limit time : Int} {inclusive : Bool} {r : Emitting Metric}

/-- What a metric is left with by a timer: a later bucket, a closed grid, or no activity any more. -/
def Progress (m n : Metric) : Prop :=
  (∃ slot slot', m.grid.current = some slot ∧ n.grid.current = some slot' ∧ slot.stop = slot'.start ∧
    slot.stop < slot'.stop) ∨
  (m.grid.current.isSome = true ∧ n.grid.current = none) ∨ (m.active = true ∧ n.active = false)

theorem progress_roll (h : Paced m) {slot : Slot} (hs : m.grid.current = some slot)
    (hlast : slot.stop < last ∨ m.windows.isActive slot.stop = false) :
    Progress m (m.roll cs slot).state := by
  have hgrid := roll_grid m cs slot
  by_cases hgo : (m.active && m.windows.isActive slot.stop) = true
  · rw [if_pos hgo, Grid.roll, hs] at hgrid
    rw [Bool.and_eq_true] at hgo
    refine .inl ⟨slot, _, hs, congrArg Grid.current hgrid, rfl, ?_⟩
    exact Instant.lt_after (hlast.resolve_right (by simp [hgo.2])) (h.size (h.bucketed slot hs))
  · rw [if_neg hgo, Grid.close, hs] at hgrid
    exact .inr (.inl ⟨by simp [hs], congrArg Grid.current hgrid⟩)

/-- Before the end of time every timer is progress. -/
theorem progress_tick (h : Paced m) (hlimit : limit ≤ last) (ht : m.tick cs limit false = some r) :
    Progress m r.state := by
  obtain ⟨d, -, hdue, hf⟩ := tick_eq_some ht
  have hd : d < limit := due_false.1 hdue
  cases hf with
  | roll hs he => exact progress_roll h hs (.inl (by omega))
  | expire hx hlt => exact .inr (.inr ⟨(expiry_eq_some hx).1, by simp⟩)

theorem advance?_eq_of_tick_none (h : m.tick cs limit inclusive = none) :
    m.advance? cs limit inclusive = some (m.advance cs limit inclusive) := by
  rw [advance_of_tick_none h]
  exact exhaust_of_none h

theorem advance?_eq (h : Paced m) (hlimit : limit ≤ last) :
    m.advance? cs limit false = some (m.advance cs limit false) := by
  have hloop : ∀ rs, exhaust (fun m : Metric => m.tick cs limit false) ⟨m, rs⟩ =
      some ⟨(m.advance cs limit false).state, rs ++ (m.advance cs limit false).records⟩ := by
    -- before the last instant each timer leaves less to come, so that the bounded loop is never cut short
    fun_induction Metric.advance m cs limit false with
    | case1 m ht =>
        intro rs
        rw [exhaust_of_none ht, List.append_nil]
    | case2 m r ht hlt =>
        rename_i ih
        intro rs
        rw [exhaust_of_some ht, ih (h.tick ht), List.append_assoc]
    | case3 m r ht hlt => exact absurd (remaining_tick_lt h hlimit ht) hlt
  exact hloop []

theorem rollPast_eq_some : m.rollPast cs time = some r ↔
    ∃ slot, m.grid.current = some slot ∧ slot.stop ≤ time ∧ r = m.roll cs slot := by
  rw [rollPast]
  cases hs : m.grid.current with
  | none => simp
  | some slot =>
      by_cases hle : slot.stop ≤ time <;> simp [hle, eq_comm]

theorem rollTo?_eq (h : Placed time m) (hpass : Passes time m) : m.rollTo? cs time = some (m.rollTo cs time) := by
  have hstop : ∀ n : Metric, Inside time n → n.rollPast cs time = none := fun n hin => by
    rw [rollPast]
    cases hs : n.grid.current with
    | none => rfl
    | some slot => exact if_neg (Int.not_le.2 (hin slot hs))
  rcases rollTo_cases cs h hpass with ⟨hin, hr⟩ | ⟨slot, hs, rfl, hr⟩ <;> rw [hr, rollTo?]
  · exact exhaust_of_none (hstop m hin)
  · rw [exhaust_of_some (rollPast_eq_some.2 ⟨slot, hs, Int.le_refl _, rfl⟩), List.nil_append]
    exact exhaust_of_none (hstop _ (inside_roll cs h hs hpass))

/-- A metric that always records, with a bucket that ends within time. -/
structure Perpetual (m : Metric) : Prop where
  active : m.active = true
  windows : m.windows = []
  slot : ∃ slot, m.grid.current = some slot ∧ slot.stop ≤ last

theorem Perpetual.roll (h : Perpetual m) {slot : Slot} (hs : m.grid.current = some slot) :
    Perpetual (m.roll cs slot).state := by
  have hgo : (m.active && m.windows.isActive slot.stop) = true := by
    simp [h.active, h.windows, Activations.isActive]
  have hgrid := roll_grid m cs slot
  rw [if_pos hgo, Grid.roll, hs] at hgrid
  exact ⟨(roll_active m cs slot).trans hgo, (roll_windows m cs slot).trans h.windows, _,
    congrArg Grid.current hgrid, (Instant.clamp_inRange _).2⟩

theorem Perpetual.rollTo?_last (h : Perpetual m) (cs : Conditions) : m.rollTo? cs last = none := by
  refine exhaust_eq_none (P := Perpetual) (fun m h => ?_) h
  obtain ⟨slot, hs, hle⟩ := h.slot
  exact ⟨_, rollPast_eq_some.2 ⟨slot, hs, hle, rfl⟩, h.roll hs⟩

variable (e : Event) (hits : Hits) (u : Condition.Update)

theorem absorb?_eq (h : Placed e.time m) (hpass : Passes e.time (m.watch e.time hits)) :
    m.absorb? cs e hits u = some (m.absorb cs e hits u) := by
  have hwatch := h.watch e.time hits
  have hroll : (m.watch e.time hits).rollTo? cs e.time = some ((m.watch e.time hits).rollTo cs e.time) :=
    rollTo?_eq hwatch hpass
  have hquiet := (onTime_onEvent cs e hits u hwatch hpass).2
  have hevent : (m.watch e.time hits).onEvent? cs e hits u = some ((m.watch e.time hits).onEvent cs e hits u) := by
    simp only [onEvent?, hroll, Option.bind_eq_bind, Option.bind_some]
    rfl
  have hadvance := advance?_eq_of_tick_none (hquiet.tick cs true)
  simp only [watch] at hevent hadvance
  simp only [absorb?, hevent, Option.bind_eq_bind, Option.bind_some, hadvance]
  rfl

/-- A metric with buckets that always records never finishes an event at the last instant. -/
theorem absorb?_eq_none (h : OnTime e.time m) (hlast : e.time = last) (hb : m.plan.isBucketed = true)
    (hw : m.windows = []) : m.absorb? cs e hits u = none := by
  have hperpetual : Perpetual (m.watch e.time hits) := by
    have hactive := h.active_of_free hw
    obtain ⟨slot, hs⟩ := Option.ne_none_iff_exists'.1 (h.covered hactive hb)
    refine ⟨hactive, by simp [watch, Activations.onEvent, hw], slot, hs, ?_⟩
    rw [(h.slot slot hs).2.2.2]
    exact (Instant.clamp_inRange _).2
  have hroll := hperpetual.rollTo?_last cs
  simp only [watch, ← hlast] at hroll
  simp only [absorb?, onEvent?, hroll, Option.bind_eq_bind, Option.bind_none]

end Metric

end EventMetrics
