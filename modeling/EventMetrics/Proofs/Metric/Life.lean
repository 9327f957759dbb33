import EventMetrics.Proofs.Metric.Clock

namespace EventMetrics

abbrev History := List (Event × Bool)

def Outcome.isAccepted : Outcome → Bool
  | accepted => true
  | _ => false

namespace Metric

open Instant (last)

structure Fresh (m : Metric) : Prop where
  size : m.plan.isBucketed = true → 0 < m.grid.size ∧ m.grid.size ≤ last
  windows : ∀ a ∈ m.windows, a.expiry = none
  current : m.grid.current = none
  active : m.active = false
  pending : m.pending = none
  samples : m.samples = .empty
  intervals : m.intervals = {}
  turnover : m.turnover = {}

theorem Fresh.placed {m : Metric} {τ : Int} (hm : Fresh m) (hτ : Instant.InRange τ) : Placed τ m :=
  ⟨hτ, hm.size, by simp [hm.current], by simp [hm.current], by simp [hm.active]⟩

theorem accepted_of_body {m n : Metric} (h : n.body = m.body) :
    n.turnover.accepted = m.turnover.accepted := (congrArg (fun m : Metric => m.turnover.accepted) h :)

theorem accepted_roll (m : Metric) (cs : Conditions) (slot : Slot) :
    (m.roll cs slot).state.turnover.accepted = m.turnover.accepted := by
  rw [accepted_of_body (body_roll m cs slot), proceed_turnover]
  simp [clearBucket, accrue]

theorem accepted_meet (m : Metric) (cs : Conditions) (time : Int) :
    (m.meet cs time).turnover.accepted = m.turnover.accepted := by
  rw [meet, followWindows_turnover]
  exact rollTo_induction (P := fun n _ => n.turnover.accepted = m.turnover.accepted)
    (fun n _ slot h _ _ => (accepted_roll n cs slot).trans h) m [] rfl

theorem accepted_shutdown (m : Metric) (cs : Conditions) (now : Int) :
    (m.shutdown cs now).state.turnover.accepted = m.turnover.accepted := by
  have hadvance : (m.advance cs now false).state.turnover.accepted = m.turnover.accepted :=
    advance_induction (P := fun n _ => n.turnover.accepted = m.turnover.accepted)
      (fun n _ slot h _ _ _ => (accepted_roll n cs slot).trans h)
      (fun n _ due h _ _ _ => by simpa using h) m [] rfl
  have hclose : ∀ n : Metric, (n.closeAt now).state.turnover.accepted = n.turnover.accepted := by
    intro n
    cases hs : n.grid.current with
    | none => simp [closeAt, hs]
    | some slot =>
        refine (congrArg (fun m : Metric => m.turnover.accepted) (body_closeAt n hs now) :).trans ?_
        simp [clearBucket, settle, body]
  exact (accepted_of_body (body_flushPending _)).trans ((hclose _).trans hadvance)

def see (m : Metric) (cs : Conditions) (ev : Event) (hits : Hits) : Emitting Metric × Outcome :=
  (m.watch ev.time hits).onEvent (cs.onEvent ev hits).1 ev hits (cs.onEvent ev hits).2

theorem see_windows (m : Metric) (cs : Conditions) (ev : Event) (hits : Hits) :
    (m.see cs ev hits).1.state.windows = m.windows.onEvent ev.time hits := by
  have hnote : ∀ (n : Metric) (o : Outcome), (n.note o).windows = n.windows := fun n o => by cases o <;> rfl
  have hstill := measure_still ((m.watch ev.time hits).meet (cs.onEvent ev hits).1 ev.time)
    (cs.onEvent ev hits).1 ev hits (cs.onEvent ev hits).2
  rw [Metric.see, onEvent_eq, hnote]
  exact (congrArg Metric.windows hstill :).trans (meet_windows (cs.onEvent ev hits).1 _ ev.time)

/-- A metric meets an event: timers before it, the conditions, and the event itself. -/
def visit (m : Metric) (cs : Conditions) (ev : Event) (hits : Hits) : Emitting Metric × Outcome :=
  let n := m.advance cs ev.time false
  let r := n.state.absorb (cs.onEvent ev hits).1 ev hits (cs.onEvent ev hits).2
  (⟨r.1.state, n.records ++ r.1.records⟩, r.2)

theorem visit_eq {m : Metric} {cs : Conditions} {ev : Event} {hits : Hits}
    (h : Placed ev.time (m.advance cs ev.time false).state)
    (hpass : Passes ev.time ((m.advance cs ev.time false).state.watch ev.time hits)) : m.visit cs ev hits =
      (((m.advance cs ev.time false).andThen fun n => (n.see cs ev hits).1.andThen flushPending),
        ((m.advance cs ev.time false).state.see cs ev hits).2) := by
  simp only [visit, absorb_eq _ ev _ _ h hpass]
  rfl

/-- The life of `m₀` from its start at `s`, among matchers and conditions: the events that came, the
conditions and the instant reached, the metric and what it emitted. -/
inductive Life (ms : Matchers) (cs₀ : Conditions) (m₀ : Metric) (s : Int) :
    History → Conditions → Int → Metric → List Record → Prop
  | start : Life ms cs₀ m₀ s [] cs₀ s (m₀.start cs₀ s) []
  | tick {H cs τ m rs} (now : Int) : Life ms cs₀ m₀ s H cs τ m rs → τ ≤ now → now ≤ last →
      Life ms cs₀ m₀ s H cs now (m.advanceTo cs now).state (rs ++ (m.advanceTo cs now).records)
  | event {H cs τ m rs} (ev : Event) : Life ms cs₀ m₀ s H cs τ m rs → τ ≤ ev.time → ev.time < last →
      Life ms cs₀ m₀ s (H ++ [(ev, (m.visit cs ev (ms.judge ev)).2.isAccepted)])
        (cs.onEvent ev (ms.judge ev)).1 ev.time (m.visit cs ev (ms.judge ev)).1.state
        (rs ++ (m.visit cs ev (ms.judge ev)).1.records)

namespace Life

variable {ms : Matchers} {cs₀ cs : Conditions} {m₀ m : Metric} {s τ : Int} {H : History} {rs : List Record}

theorem onTime_flushPending {n : Metric} (h : OnTime τ n) : OnTime τ n.flushPending.state := by
  have hbody := body_flushPending n
  exact h.congr (congrArg Metric.plan hbody :) (congrArg Metric.grid hbody :)
    (congrArg Metric.active hbody :) (congrArg Metric.windows hbody :)

theorem onTime_start (hm : Fresh m₀) (hs : Instant.InRange s) : OnTime s (m₀.start cs₀ s) := by
  rw [Metric.start]
  split
  next hw => exact .of_isActive ((hm.placed hs).activate cs₀) (by simp [hw])
  next hw => exact .of_isActive (hm.placed hs) (by simpa [hm.active] using hw)

/-- What holds at the start, and is kept by the passing of time, by timers, by events and by reports
of empty buckets, holds for life. -/
theorem induction {P : History → Conditions → Int → Metric → List Record → Prop}
    (hstart : OnTime s (m₀.start cs₀ s) → P [] cs₀ s (m₀.start cs₀ s) [])
    (hwait : ∀ H cs τ τ' m rs, OnTime τ m → P H cs τ m rs → τ ≤ τ' → OnTime τ' m → P H cs τ' m rs)
    (hroll : ∀ H cs m rs slot, OnTime slot.stop m → P H cs slot.stop m rs → m.grid.current = some slot →
      slot.stop < last → P H cs slot.stop (m.roll cs slot).state (rs ++ (m.roll cs slot).records))
    (hexpire : ∀ H cs m rs due, OnTime due m → P H cs due m rs → m.expiry = some due →
      P H cs due (m.deactivate due) rs)
    (hevent : ∀ H cs m rs ev, OnTime ev.time m → P H cs ev.time m rs → ev.time < last →
      P (H ++ [(ev, (m.see cs ev (ms.judge ev)).2.isAccepted)])
        (cs.onEvent ev (ms.judge ev)).1 ev.time (m.see cs ev (ms.judge ev)).1.state
        (rs ++ (m.see cs ev (ms.judge ev)).1.records))
    (hflush : ∀ H cs τ m rs, P H cs τ m rs → P H cs τ m.flushPending.state (rs ++ m.flushPending.records))
    (hm : Fresh m₀) (hs : Instant.InRange s) (h : Life ms cs₀ m₀ s H cs τ m rs) :
    OnTime τ m ∧ P H cs τ m rs := by
  induction h with
  | start => exact ⟨onTime_start hm hs, hstart (onTime_start hm hs)⟩
  | @tick H cs τ m rs now _ hle hlast ih =>
      obtain ⟨ht, hP⟩ := advance_course (P := P H cs) cs (hwait H cs) (hroll H cs) (hexpire H cs)
        ih.1 ih.2 hle hlast
      refine ⟨onTime_flushPending ht, ?_⟩
      have hf := hflush _ _ _ _ _ hP
      rwa [List.append_assoc] at hf
  | @event H cs τ m rs ev _ hle hlast ih =>
      obtain ⟨ht, hP⟩ := advance_course (P := P H cs) cs (hwait H cs) (hroll H cs) (hexpire H cs)
        ih.1 ih.2 hle (by omega)
      refine ⟨onTime_absorb _ ev _ _ ht.toPlaced hlast, ?_⟩
      rw [visit_eq ht.toPlaced (.inl hlast)]
      have hf := hflush _ _ _ _ _ (hevent _ _ _ _ ev ht hP hlast)
      simpa only [Emitting.andThen_state, Emitting.andThen_records, List.append_assoc] using hf

theorem onTime (hm : Fresh m₀) (hs : Instant.InRange s) (h : Life ms cs₀ m₀ s H cs τ m rs) : OnTime τ m :=
  (induction (P := fun _ _ _ _ _ => True) (by simp) (by simp) (by simp) (by simp) (by simp) (by simp)
    hm hs h).1

theorem owned (hm : Owned m₀.plan m₀ []) (h : Life ms cs₀ m₀ s H cs τ m rs) : Owned m₀.plan m rs := by
  induction h with
  | start => exact hm.start _ s
  | tick now _ _ _ ih => exact ih.advanceTo _ now
  | event ev _ _ _ ih =>
      rw [visit, ← List.append_assoc]
      exact (ih.advance _ ev.time false).absorb _ ev _ _

theorem accepted_eq (hm : Fresh m₀) (hs : Instant.InRange s) (h : Life ms cs₀ m₀ s H cs τ m rs) :
    m.turnover.accepted = H.countP (·.2) := by
  refine (induction (P := fun H _ _ m _ => m.turnover.accepted = H.countP (·.2))
    ?_ ?_ ?_ ?_ ?_ ?_ hm hs h).2
  · intro _
    simp [hm.turnover]
  · exact fun _ _ _ _ _ _ _ h _ _ => h
  · exact fun _ cs m _ slot _ h _ _ => (accepted_roll m cs slot).trans h
  · exact fun _ _ m _ _ _ h _ => by simpa using h
  · intro H cs m rs ev _ h _
    have hmeasured : ∀ (m : Metric) (cs : Conditions) (u : Condition.Update),
        (m.measure cs ev (ms.judge ev) u).1.state.turnover.accepted = m.turnover.accepted := fun m cs u =>
      (congrArg (fun m : Metric => m.turnover.accepted) (measure_still m cs ev
        (ms.judge ev) u) :)
    have hnote : ∀ (m : Metric) (o : Outcome),
        (m.note o).turnover.accepted = m.turnover.accepted + [(ev, o.isAccepted)].countP (·.2) := by
      intro m o
      cases o <;> rfl
    rw [see, onEvent_eq, hnote, hmeasured, accepted_meet, List.countP_append]
    exact congrArg (· + _) h
  · exact fun _ _ _ m _ h => (accepted_of_body (body_flushPending m)).trans h

end Life

end Metric

end EventMetrics
