import EventMetrics.Proofs.Metric.Tidy

namespace EventMetrics.Metric

open Instant (last)

/-- What every part of a metric's work keeps, at the instant that the metric has come to, along with the work
that it has done and what it has emitted. -/
structure Logged (ms : Matchers) (P : List Work → Int → Metric → List Record → Prop) : Prop where
  wait {ws : List Work} {τ τ' : Int} {m : Metric} {rs : List Record} : P ws τ m rs → τ ≤ τ' → P ws τ' m rs
  roll {ws : List Work} {m : Metric} {rs : List Record} {slot : Slot} (cs : Conditions) : P ws slot.stop m rs →
    Placed slot.stop m → m.grid.current = some slot → Passes slot.stop m →
    P (ws ++ [⟨m, cs, slot.stop, .roll slot⟩]) slot.stop (m.roll cs slot).state (rs ++ (m.roll cs slot).records)
  activate {ws : List Work} {τ : Int} {m : Metric} {rs : List Record} (cs : Conditions) : P ws τ m rs →
    Placed τ m → Passes τ m → m.active = false → m.windows.isActive τ = true →
    P (ws ++ [⟨m, cs, τ, .activate⟩]) τ (m.activate cs τ) rs
  deactivate {ws : List Work} {τ : Int} {m : Metric} {rs : List Record} (cs : Conditions) : P ws τ m rs →
    Placed τ m → m.windows.isActive τ = false → P (ws ++ [⟨m, cs, τ, .deactivate⟩]) τ (m.deactivate τ) rs
  watch {ws : List Work} {τ : Int} {m : Metric} {rs : List Record} (hits : Hits) : P ws τ m rs →
    P ws τ (m.watch τ hits) rs
  measure {ws : List Work} {m : Metric} {rs : List Record} (cs : Conditions) (ev : Event) (u : Condition.Update) :
    P ws ev.time m rs → OnTime ev.time m → Quiet ev.time m →
    P (ws ++ [⟨m, cs, ev.time, .measure ev (ms.judge ev) u⟩]) ev.time
      (m.measure cs ev (ms.judge ev) u).1.state (rs ++ (m.measure cs ev (ms.judge ev) u).1.records)
  note {ws : List Work} {τ : Int} {m : Metric} {rs : List Record} (o : Outcome) : P ws τ m rs → P ws τ (m.note o) rs
  flushPending {ws : List Work} {τ : Int} {m : Metric} {rs : List Record} : P ws τ m rs →
    P ws τ m.flushPending.state (rs ++ m.flushPending.records)

/-- What is true of a metric between the calls of a run and after a shutdown, if `P` is true while it works. -/
structure Settles (P : List Work → Int → Metric → List Record → Prop)
    (Q : List Work → Metric → List Record → Prop) : Prop where
  rest {ws : List Work} {τ : Int} {m : Metric} {rs : List Record} : P ws τ m rs → m.pending = none → Q ws m rs
  close {ws : List Work} {τ : Int} {m : Metric} {rs : List Record} (cs : Conditions) : P ws τ m rs → Placed τ m →
    Q (ws ++ m.closeWorks cs τ) ((m.closeAt τ).andThen Metric.flushPending).state
      (rs ++ ((m.closeAt τ).andThen Metric.flushPending).records)

structure Meets (w : Work) (cs : Conditions) (ev : Event) (hits : Hits) (after : Metric) : Prop where
  conditions : w.conditions = cs
  active : w.metric.active = w.metric.windows.isActive ev.time
  measured : ∃ u, w.deed = .measure ev hits u ∧ after.body =
    ((w.metric.measure cs ev hits u).1.state.note (w.metric.measure cs ev hits u).2).body

variable {m : Metric} {τ t : Int}

theorem rollToWorks_of_inside (cs : Conditions) (h : Inside τ m) : m.rollToWorks cs τ = [] := by
  rw [rollToWorks]
  cases hs : m.grid.current with
  | none => rfl
  | some slot => exact if_neg (Int.not_le.2 (h slot hs))

theorem rollToWorks_of_stop (cs : Conditions) {slot : Slot} (h : Placed slot.stop m) (hs : m.grid.current = some slot)
    (hpass : Passes slot.stop m) : m.rollToWorks cs slot.stop = [⟨m, cs, slot.stop, .roll slot⟩] := by
  have hremaining := remaining_roll_lt cs h.paced hs (hpass.lt_or (h.bucketed slot hs))
  rw [rollToWorks, hs]
  simp only [Int.le_refl, if_true, hremaining, rollToWorks_of_inside cs (inside_roll cs h hs hpass)]

theorem Quiet.advanceWorks (cs : Conditions) (h : Quiet τ m) (inclusive : Bool) :
    m.advanceWorks cs τ inclusive = [] := by
  rw [Metric.advanceWorks, h.tick cs inclusive]

theorem visitWorks_eq {cs : Conditions} {ev : Event} {hits : Hits}
    (h : Placed ev.time (m.advance cs ev.time false).state)
    (hpass : Passes ev.time ((m.advance cs ev.time false).state.watch ev.time hits)) : m.visitWorks cs ev hits =
      m.advanceWorks cs ev.time false ++ ((m.advance cs ev.time false).state.watch ev.time hits).onEventWorks
        (cs.onEvent ev hits).1 ev hits (cs.onEvent ev hits).2 := by
  obtain ⟨-, hq⟩ := onTime_onEvent (cs.onEvent ev hits).1 ev hits (cs.onEvent ev hits).2 (h.watch ev.time hits) hpass
  have habsorb := hq.advanceWorks (cs.onEvent ev hits).1 true
  simp only [watch] at habsorb
  simp only [visitWorks, absorbWorks, habsorb, List.append_nil]
  rfl

namespace Logged

variable {ms : Matchers} {P : List Work → Int → Metric → List Record → Prop} {ws : List Work} {rs : List Record}
  {ev : Event}

variable (hP : Logged ms P) (h : P ws τ m rs)
include hP h

theorem advance (hon : OnTime τ m) (cs : Conditions) (hle : τ ≤ t) (hlast : t ≤ last) :
    OnTime t (m.advance cs t false).state ∧ P (ws ++ m.advanceWorks cs t false) t
      (m.advance cs t false).state (rs ++ (m.advance cs t false).records) :=
  advance_works cs (fun _ _ _ _ _ _ h hle _ => hP.wait h hle)
    (fun _ _ _ _ hon h hs hlast => hP.roll cs h hon.toPlaced hs (.inl hlast))
    (fun _ _ _ _ hon h hx => hP.deactivate cs h hon.toPlaced (not_isActive_expiry hx)) hon h hle hlast

theorem advanceTo (hon : OnTime τ m) (cs : Conditions) (hle : τ ≤ t) (hlast : t ≤ last) :
    P (ws ++ m.advanceWorks cs t false) t (m.advanceTo cs t).state (rs ++ (m.advanceTo cs t).records) := by
  have hdone := hP.flushPending (hP.advance h hon cs hle hlast).2
  rwa [List.append_assoc] at hdone

theorem rollTo (hp : Placed τ m) (hpass : Passes τ m) (cs : Conditions) :
    P (ws ++ m.rollToWorks cs τ) τ (m.rollTo cs τ).state (rs ++ (m.rollTo cs τ).records) := by
  rcases rollTo_cases cs hp hpass with ⟨hin, hr⟩ | ⟨slot, hs, rfl, hr⟩ <;> rw [hr]
  · rwa [rollToWorks_of_inside cs hin, List.append_nil, List.append_nil]
  · rw [rollToWorks_of_stop cs hp hs hpass]
    exact hP.roll cs h hp hs hpass

theorem followWindows (hp : Placed τ m) (hpass : Passes τ m) (cs : Conditions) :
    P (ws ++ m.followWorks cs τ) τ (m.followWindows cs τ) rs := by
  rw [followWorks, Metric.followWindows]
  cases ha : m.active <;> cases hw : m.windows.isActive τ
  · rwa [List.append_nil]
  · exact hP.activate cs h hp hpass ha hw
  · exact hP.deactivate cs h hp hw
  · rwa [List.append_nil]

theorem meet (hp : Placed τ m) (hpass : Passes τ m) (cs : Conditions) :
    P (ws ++ (m.rollToWorks cs τ ++ (m.rollTo cs τ).state.followWorks cs τ)) τ (m.meet cs τ)
      (rs ++ (m.rollTo cs τ).records) := by
  have hmet := hP.followWindows (hP.rollTo h hp hpass cs) (placed_rollTo cs hp hpass).1
    (hpass.congr (rollTo_plan m cs τ) (rollTo_windows m cs τ)) cs
  rwa [List.append_assoc] at hmet

omit h in
theorem see (h : P ws ev.time m rs) (hp : Placed ev.time m)
    (hpass : Passes ev.time (m.watch ev.time (ms.judge ev))) (cs : Conditions) :
    P (ws ++ (m.watch ev.time (ms.judge ev)).onEventWorks (cs.onEvent ev (ms.judge ev)).1 ev (ms.judge ev)
        (cs.onEvent ev (ms.judge ev)).2) ev.time
      (m.see cs ev (ms.judge ev)).1.state (rs ++ (m.see cs ev (ms.judge ev)).1.records) := by
  have hplaced := hp.watch ev.time (ms.judge ev)
  have hmet := hP.meet (hP.watch (ms.judge ev) h) hplaced hpass (cs.onEvent ev (ms.judge ev)).1
  obtain ⟨hon, hquiet⟩ := onTime_meet (cs.onEvent ev (ms.judge ev)).1 hplaced hpass
  have hmeasured := hP.measure (cs.onEvent ev (ms.judge ev)).1 ev (cs.onEvent ev (ms.judge ev)).2 hmet hon hquiet
  rw [Metric.see, onEvent_eq]
  simpa only [onEventWorks, Metric.meet, List.append_assoc] using hP.note _ hmeasured

theorem visit (hon : OnTime τ m) (cs : Conditions) (hle : τ ≤ ev.time) (hlast : ev.time ≤ last)
    (hpass : Passes ev.time ((m.advance cs ev.time false).state.watch ev.time (ms.judge ev))) :
    P (ws ++ m.visitWorks cs ev (ms.judge ev)) ev.time
      (m.visit cs ev (ms.judge ev)).1.state (rs ++ (m.visit cs ev (ms.judge ev)).1.records) := by
  obtain ⟨ht, hadvanced⟩ := hP.advance h hon cs hle hlast
  have hdone := hP.flushPending (hP.see hadvanced ht.toPlaced hpass cs)
  rw [visit_eq ht.toPlaced hpass, visitWorks_eq ht.toPlaced hpass]
  simpa only [Emitting.andThen_state, Emitting.andThen_records, List.append_assoc] using hdone

theorem meets (hon : OnTime τ m) (cs : Conditions) (hle : τ ≤ ev.time) (hlast : ev.time ≤ last)
    (hpass : Passes ev.time ((m.advance cs ev.time false).state.watch ev.time (ms.judge ev))) :
    ∃ before w, m.visitWorks cs ev (ms.judge ev) = before ++ [w] ∧ (∃ rs', P (ws ++ before) ev.time w.metric rs') ∧
      Meets w (cs.onEvent ev (ms.judge ev)).1 ev (ms.judge ev) (m.visit cs ev (ms.judge ev)).1.state := by
  obtain ⟨ht, hadvanced⟩ := hP.advance h hon cs hle hlast
  have hmet := hP.meet (hP.watch (ms.judge ev) hadvanced) (ht.toPlaced.watch ev.time (ms.judge ev)) hpass
    (cs.onEvent ev (ms.judge ev)).1
  rw [visitWorks_eq ht.toPlaced hpass, visit_eq ht.toPlaced hpass, onEventWorks]
  refine ⟨_, _, (List.append_assoc _ _ _).symm, ⟨_, List.append_assoc _ _ _ ▸ hmet⟩, rfl, ?_, _, rfl,
    body_flushPending _⟩
  dsimp only
  rw [followWindows_active, followWindows_windows]

end Logged

/-- What every part of a metric's work keeps, at the instant that the metric has come to, along with the events
that it has met and what it has emitted. -/
structure Steady (ms : Matchers) (P : List Event → Int → Metric → List Record → Prop) : Prop where
  wait {es : List Event} {τ τ' : Int} {m : Metric} {rs : List Record} : P es τ m rs → τ ≤ τ' → P es τ' m rs
  roll {es : List Event} {m : Metric} {rs : List Record} {slot : Slot} (cs : Conditions) : P es slot.stop m rs →
    Placed slot.stop m → m.grid.current = some slot → Passes slot.stop m →
    P es slot.stop (m.roll cs slot).state (rs ++ (m.roll cs slot).records)
  activate {es : List Event} {τ : Int} {m : Metric} {rs : List Record} (cs : Conditions) : P es τ m rs →
    Placed τ m → Passes τ m → m.active = false → m.windows.isActive τ = true → P es τ (m.activate cs τ) rs
  deactivate {es : List Event} {τ : Int} {m : Metric} {rs : List Record} : P es τ m rs → Placed τ m →
    m.windows.isActive τ = false → P es τ (m.deactivate τ) rs
  watch {es : List Event} {τ : Int} {m : Metric} {rs : List Record} (hits : Hits) : P es τ m rs →
    P es τ (m.watch τ hits) rs
  measure {es : List Event} {m : Metric} {rs : List Record} (cs : Conditions) (ev : Event) (u : Condition.Update) :
    P es ev.time m rs → OnTime ev.time m → Quiet ev.time m → P (es ++ [ev]) ev.time
      (m.measure cs ev (ms.judge ev) u).1.state (rs ++ (m.measure cs ev (ms.judge ev) u).1.records)
  note {es : List Event} {τ : Int} {m : Metric} {rs : List Record} (o : Outcome) : P es τ m rs → P es τ (m.note o) rs
  flushPending {es : List Event} {τ : Int} {m : Metric} {rs : List Record} : P es τ m rs →
    P es τ m.flushPending.state (rs ++ m.flushPending.records)

structure Leaves (P : List Event → Int → Metric → List Record → Prop)
    (Q : List Event → Metric → List Record → Prop) : Prop where
  rest {es : List Event} {τ : Int} {m : Metric} {rs : List Record} : P es τ m rs → m.pending = none → Q es m rs
  close {es : List Event} {τ : Int} {m : Metric} {rs : List Record} : P es τ m rs → Placed τ m → Q es
    ((m.closeAt τ).andThen Metric.flushPending).state (rs ++ ((m.closeAt τ).andThen Metric.flushPending).records)

variable {ms : Matchers} {P : List Event → Int → Metric → List Record → Prop}
  {Q : List Event → Metric → List Record → Prop}

theorem Steady.logged (hP : Steady ms P) : Logged ms fun ws => P (Work.events ws) where
  wait := hP.wait
  roll {ws} _ _ _ cs h hp hs hpass := by
    rw [Work.events_concat ws rfl]
    exact hP.roll cs h hp hs hpass
  activate {ws} _ _ _ cs h hp hpass ha hw := by
    rw [Work.events_concat ws rfl]
    exact hP.activate cs h hp hpass ha hw
  deactivate {ws} _ _ _ cs h hp hw := by
    rw [Work.events_concat ws rfl]
    exact hP.deactivate h hp hw
  watch hits h := hP.watch hits h
  measure cs ev u h hon hquiet := by
    rw [Work.events_append]
    exact hP.measure cs ev u h hon hquiet
  note o h := hP.note o h
  flushPending h := hP.flushPending h

theorem Leaves.settles (hQ : Leaves P Q) : Settles (fun ws => P (Work.events ws)) fun ws => Q (Work.events ws) where
  rest := hQ.rest
  close cs h hp := by
    rw [Work.events_append, events_closeWorks, List.append_nil]
    exact hQ.close h hp

end EventMetrics.Metric
