import EventMetrics.Proofs.Metric.Heeding

namespace EventMetrics.Metric

open Instant (last)
open Record (Agree)

variable {m n : Metric} {cs : Conditions} {τ w now : Int} {rs rs' : List Record} {ev : Event} {hits : Hits}

def elapse (m : Metric) (cs : Conditions) (time : Int) : Emitting Metric :=
  (m.advance cs time true).andThen flushPending

def DueAt (m : Metric) (cs : Conditions) (time : Int) : Prop :=
  (m.advance cs time false).state.nextDeadline = some time

theorem elapse_plan (m : Metric) (cs : Conditions) (time : Int) : (m.elapse cs time).state.plan = m.plan :=
  (congrArg Metric.plan (body_flushPending (m.advance cs time true).state) :).trans (advance_plan m cs time true)

theorem elapse_windows (m : Metric) (cs : Conditions) (time : Int) : (m.elapse cs time).state.windows = m.windows :=
  (congrArg Metric.windows (body_flushPending (m.advance cs time true).state) :).trans
    (advance_windows m cs time true)

theorem advanceTo_plan (m : Metric) (cs : Conditions) (time : Int) : (m.advanceTo cs time).state.plan = m.plan :=
  (congrArg Metric.plan (body_flushPending (m.advance cs time false).state) :).trans (advance_plan m cs time false)

theorem accepted_elapse (m : Metric) (cs : Conditions) (time : Int) :
    (m.elapse cs time).state.turnover.accepted = m.turnover.accepted :=
  (accepted_of_body (body_flushPending _)).trans <|
    advance_induction (P := fun n _ => n.turnover.accepted = m.turnover.accepted)
      (fun n _ slot h _ _ _ => (accepted_roll n cs slot).trans h) (fun n _ due h _ _ _ => by simpa using h) m [] rfl

/-- A metric that comes to an instant, with what makes time pass there. -/
structure Nearing (τ w : Int) (m : Metric) : Prop extends Settled w m where
  reached : w ≤ τ
  le_last : τ ≤ last
  passes : Passes τ m
  early : Early m

namespace Nearing

theorem advance (h : Nearing τ w m) (cs : Conditions) : OnTime τ (m.advance cs τ false).state :=
  (h.toSettled.advance cs h.reached h.le_last).1

theorem passes_advance (h : Nearing τ w m) (cs : Conditions) : Passes τ (m.advance cs τ false).state :=
  h.passes.congr (advance_plan m cs τ false) (advance_windows m cs τ false)

theorem advance_now (h : Nearing τ w m) (cs : Conditions) :
    m.advance cs τ true = (m.advance cs τ false).andThen fun n => ⟨n.meet cs τ, (n.rollTo cs τ).records⟩ := by
  rw [← Metric.advance_now h.paced h.le_last, Emitting.andThen, advance_now_eq cs (h.advance cs) (h.passes_advance cs)]
  rfl

theorem elapsed (h : Nearing τ w m) (cs : Conditions) :
    OnTime τ (m.elapse cs τ).state ∧ Quiet τ (m.elapse cs τ).state := by
  obtain ⟨ht, hq⟩ := onTime_meet cs (h.advance cs).toPlaced (h.passes_advance cs)
  have hbody := body_flushPending (m.advance cs τ true).state
  rw [h.advance_now cs] at hbody
  have hdeadline := (congrArg Metric.nextDeadline hbody :)
  rw [elapse, h.advance_now cs]
  exact ⟨Life.onTime_flushPending ht, fun d hd => hq d (hdeadline ▸ hd)⟩

theorem tick (h : Nearing τ w m) (cs : Conditions) (hw : w ≤ now) (hnow : now ≤ τ) :
    Nearing τ now (m.advanceTo cs now).state where
  toSettled := h.toSettled.advanceTo cs hw (Int.le_trans hnow h.le_last)
  reached := hnow
  le_last := h.le_last
  passes := h.passes.congr (advanceTo_plan m cs now) (advanceTo_windows m cs now)
  early := h.early.advanceTo cs now

theorem advance_of_not_dueAt (h : Nearing τ w m) (hdue : ¬ m.DueAt cs τ) :
    m.advance cs τ true = m.advance cs τ false := by
  have hq : Quiet τ (m.advance cs τ false).state := fun d hd =>
    (Int.lt_or_eq_of_le ((h.advance cs).le_deadline hd)).resolve_right fun he => hdue (he ▸ hd)
  rw [← Metric.advance_now h.paced h.le_last, Emitting.andThen, hq.advance cs true, List.append_nil]

theorem visit_unheeded (h : Nearing ev.time w m) (hhits : ∀ i, m.Heeds cs i → hits.get i = false) :
    m.visit cs ev hits = (m.elapse cs ev.time, .ignored) := by
  have hstill : m.Unswayed cs hits := fun i hi => hhits i (.inr hi)
  have hplan := advance_plan m cs ev.time true
  have hreckon : (m.advance cs ev.time true).state.reckon (cs.onEvent ev hits).1 ev hits (cs.onEvent ev hits).2 =
      (⟨(m.advance cs ev.time true).state, []⟩, .ignored) :=
    reckon_unheeded (fun i hi => hhits i (.inl (hplan ▸ hi))) fun g hg => hstill.not_isChanged ev (hplan ▸ hg)
  rw [visit_unswayed (h.advance cs) h.paced h.passes h.le_last hstill]
  simp only [Emitting.andThen, elapse, hreckon, List.nil_append]

end Nearing

namespace Tally

theorem rfl (rs : List Record) (m : Metric) : Tally rs rs m m := ⟨Eq.refl _, .rfl⟩

theorem reckon (h : Tally rs rs' m n) (cs : Conditions) (ev : Event) (hits : Hits) (u : Condition.Update) :
    Tally (rs ++ (m.reckon cs ev hits u).1.records) (rs' ++ (n.reckon cs ev hits u).1.records)
      (m.reckon cs ev hits u).1.state (n.reckon cs ev hits u).1.state := by
  obtain ⟨hm, ho⟩ := h.measure cs ev hits u
  have hn := hm.note (m.measure cs ev hits u).2
  simp only [Metric.reckon]
  rwa [← ho]

end Tally

variable (rs)

theorem Nearing.tally_tick (h : Nearing τ w m) (cs : Conditions) (hnow : now ≤ τ) :
    Tally (rs ++ (m.elapse cs τ).records) (rs ++ ((m.advanceTo cs now).andThen (·.elapse cs τ)).records)
      (m.elapse cs τ).state ((m.advanceTo cs now).andThen (·.elapse cs τ)).state := by
  have hlast := h.le_last
  have ht := (Tally.rfl rs m).advance_through cs h.paced now τ false true
    (fun d hd => by rw [due_false] at hd; omega) fun d hd => by rw [due_false] at hd; exact .inl (by omega)
  simpa only [elapse, advanceTo, Emitting.andThen_state, Emitting.andThen_records, List.append_assoc] using
    ht.flushPending

theorem Nearing.core_tick (h : Nearing τ w m) (cs : Conditions) (hnow : now ≤ τ) :
    ((m.advanceTo cs now).state.advance cs τ false).state.core = (m.advance cs τ false).state.core := by
  have hlast := h.le_last
  exact ((Tally.rfl [] m).advance_through cs h.paced now τ false false
    (fun d hd => by rw [due_false] at hd; omega) fun d hd => by rw [due_false] at hd ⊢; omega).core.symm

theorem Nearing.dueAt_tick (h : Nearing τ w m) (cs : Conditions) (hnow : now ≤ τ) :
    (m.advanceTo cs now).state.DueAt cs τ ↔ m.DueAt cs τ :=
  iff_of_eq (congrArg (fun n : Metric => n.nextDeadline = some τ) (h.core_tick cs hnow) :)

/-- Up to an instant that comes later, or at which nothing is due, metrics go on alike. -/
theorem Nearing.tally_advance (h : Nearing τ w m) (cs : Conditions) (hτ : τ ≤ now) (hnow : now ≤ last)
    (hdue : now = τ → ¬ m.DueAt cs τ) :
    Tally (rs ++ (m.advance cs now false).records) (rs ++ ((m.elapse cs τ).andThen (·.advance cs now false)).records)
      (m.advance cs now false).state ((m.elapse cs τ).andThen (·.advance cs now false)).state := by
  rcases Int.lt_or_eq_of_le hτ with hlt | rfl
  · exact (Tally.rfl rs m).advance_through cs h.paced τ now true false (fun d hd => by rw [due_true] at hd; omega)
      fun d hd => by rw [due_true] at hd; exact .inl (by omega)
  · rw [elapse, h.advance_of_not_dueAt (hdue rfl)]
    exact (Tally.rfl rs m).advance_through cs h.paced τ τ false false (fun d hd => by rw [due_false] at hd; omega)
      fun d hd => hd

/-- The next event brings a metric to where it would be if it had been ahead. -/
theorem Nearing.tally_visit (h : Nearing τ w m) (cs : Conditions) (hτ : τ ≤ ev.time) (hlast : ev.time ≤ last)
    (htie : ev.time = τ → m.DueAt cs τ → m.Unswayed cs hits) :
    Tally (rs ++ (m.visit cs ev hits).1.records)
      (rs ++ ((m.elapse cs τ).andThen fun n => (n.visit cs ev hits).1).records)
      (m.visit cs ev hits).1.state ((m.elapse cs τ).andThen fun n => (n.visit cs ev hits).1).state := by
  by_cases hdue : ev.time = τ ∧ m.DueAt cs τ
  · obtain ⟨rfl, hdue⟩ := hdue
    have hhits := htie rfl hdue
    obtain ⟨ht, hq⟩ := h.elapsed cs
    have hstill := hhits.congr (elapse_plan m cs ev.time) (elapse_windows m cs ev.time)
    have hpass := h.passes.congr (elapse_plan m cs ev.time) (elapse_windows m cs ev.time)
    have hahead : OnTime ev.time ((m.elapse cs ev.time).state.advance cs ev.time false).state := by
      rwa [hq.advance cs false]
    have hreckoned := (((Tally.rfl (rs ++ (m.advance cs ev.time true).records)
      (m.advance cs ev.time true).state).symm.flushLeft.symm).reckon (cs.onEvent ev hits).1 ev hits
        (cs.onEvent ev hits).2).flushPending
    rw [Emitting.andThen, visit_unswayed (h.advance cs) h.paced h.passes hlast hhits,
      visit_unswayed hahead ht.paced hpass hlast hstill, hq.advance cs true]
    simpa only [elapse, Emitting.andThen, List.append_assoc, List.nil_append] using hreckoned
  · have hadvanced := h.tally_advance rs cs hτ hlast fun he hd => hdue ⟨he, hd⟩
    have habsorbed := (hadvanced.absorb (cs.onEvent ev hits).1 ev hits (cs.onEvent ev hits).2).1
    simpa only [visit, Emitting.andThen_state, Emitting.andThen_records, List.append_assoc] using habsorbed

theorem shutdown_records (m : Metric) (cs : Conditions) (now : Int) : (m.shutdown cs now).records =
    (m.advance cs now false).records ++ (((m.advance cs now false).state.closeAt now).records ++
      ((m.advance cs now false).state.closeAt now).state.owed) := by
  simp only [shutdown, Emitting.andThen_records, Emitting.andThen_state, flushPending_records, List.append_assoc]

/-- At its end a metric reports the same, whether it was ahead or not, if no lifetimes that are reported as a
whole are cut. -/
theorem Nearing.agree_shutdown (h : Nearing τ w m) (hτ : τ ≤ now) (hnow : now ≤ last)
    (hwhole : now = τ → ∀ t slot, m.plan.rule = .timed t → t.aggregation = .maxSparse →
      (m.advance cs τ false).state.grid.current = some slot → slot.stop ≠ τ) :
    Agree (m.shutdown cs now).records ((m.elapse cs τ).andThen (·.shutdown cs now)).records := by
  rw [Emitting.andThen_records, shutdown_records, shutdown_records]
  rcases Int.lt_or_eq_of_le hτ with hlt | rfl
  · have hadvanced := h.tally_advance [] cs hτ hnow (by omega)
    simpa only [Emitting.andThen_records, Emitting.andThen_state, List.nil_append, List.append_assoc] using
      (hadvanced.closeAt now).books
  · obtain ⟨-, hq⟩ := h.elapsed cs
    have hlength : ∀ slot, (m.advance cs τ false).state.grid.current = some slot → slot.start < slot.stop :=
      fun slot hs => (h.early.advance cs τ false).start_lt_stop (h.advance cs).toPlaced (h.passes_advance cs) hs
    obtain ⟨hrecords, hpending⟩ := closeAt_advance cs (h.advance cs) (h.passes_advance cs) hlength
      fun t slot hrule => hwhole rfl t slot (advance_plan m cs τ false ▸ hrule)
    have hahead : Agree (((m.advance cs τ true).state.closeAt τ).records ++
        ((m.advance cs τ true).state.closeAt τ).state.owed) _ :=
      (((Tally.rfl [] (m.advance cs τ true).state).symm.flushLeft.symm).closeAt τ).books
    have hthrough : (m.advance cs τ false).andThen (·.advance cs τ true) = m.advance cs τ true :=
      Metric.advance_now h.paced h.le_last
    have hstate : ((m.advance cs τ false).state.advance cs τ true).state = (m.advance cs τ true).state :=
      (congrArg Emitting.state hthrough :)
    have hall : (m.advance cs τ false).records ++ ((m.advance cs τ false).state.advance cs τ true).records =
      (m.advance cs τ true).records := (congrArg Emitting.records hthrough :)
    rw [hq.advance cs false, ← hrecords, ← owed_congr hpending, hstate, List.append_assoc, ← List.append_assoc, hall]
    simpa only [elapse, Emitting.andThen_records, Emitting.andThen_state, List.nil_append, List.append_assoc] using
      Agree.append .rfl hahead

end EventMetrics.Metric
