import EventMetrics.Proofs.Engine.Checked
import EventMetrics.Proofs.Engine.Likeness
import EventMetrics.Proofs.Metric.Elapsing

namespace EventMetrics

namespace Call

def event? : Call → Option Event
  | process ev => some ev
  | advanceTo _ | shutdown _ => none

def Follows (time : Int) : Call → Prop
  | process ev => time ≤ ev.time
  | advanceTo _ => True
  | shutdown _ => False

instance (time : Int) : DecidablePred (Follows time)
  | process ev => inferInstanceAs (Decidable (time ≤ ev.time))
  | advanceTo _ => inferInstanceAs (Decidable True)
  | shutdown _ => inferInstanceAs (Decidable False)

end Call

namespace Engine

open EventMetrics.Metric (Resting Nearing Early)
open Record (Agree reports)
open Instant (last)

variable {d : Definitions} {o : EngineOptions} {e : Engine} {m : Metric} {id : String} {calls : List Call}
  {τ w now : Int} {ev : Event}

/-- An engine at an instant, with all that is due there done. -/
def elapse (e : Engine) (time : Int) : Engine := e.each (·.elapse e.conditions time) time

theorem elapse_conditions (e : Engine) (time : Int) : (e.elapse time).conditions = e.conditions := rfl

theorem elapse_matchers (e : Engine) (time : Int) : (e.elapse time).matchers = e.matchers := rfl

/-- An engine of one metric that comes to an instant. -/
structure Near (τ w : Int) (e : Engine) (m : Metric) : Prop where
  metrics : e.metrics = [m]
  watermark : e.watermark = some w
  closed : e.closed = false
  nearing : m.Nearing τ w

namespace Near

theorem elapse_metrics (h : Near τ w e m) : (e.elapse τ).metrics = [(m.elapse e.conditions τ).state] := by
  rw [elapse, each_metrics, h.metrics, List.map_singleton]

theorem elapse_queue (h : Near τ w e m) : (e.elapse τ).queue = e.queue ++ (m.elapse e.conditions τ).records := by
  rw [elapse, each_queue, h.metrics, List.flatMap_singleton]

theorem resting (h : Near τ w e m) : ∀ n ∈ e.metrics, Resting n := by
  rw [h.metrics]
  rintro n hn
  cases List.mem_singleton.1 hn
  exact ⟨h.nearing.paced, h.nearing.pending⟩

theorem resting_elapse (h : Near τ w e m) : ∀ n ∈ (e.elapse τ).metrics, Resting n := by
  rw [h.elapse_metrics]
  rintro n hn
  cases List.mem_singleton.1 hn
  exact ⟨(h.nearing.elapsed e.conditions).1.paced, Metric.flushPending_pending _⟩

theorem length_call (h : Near τ w e m) (c : Call) : (e.call c).metrics.length ≤ 1 := by
  simp [length_metrics_call, h.metrics]

theorem advanceTo_eq (h : Near τ w e m) (hw : w ≤ now) :
    e.advanceTo now = e.each (·.advanceTo e.conditions now) now := by
  rw [Engine.advanceTo_eq h.closed, ensureStarted_of_some h.watermark, if_neg (Int.not_lt.2 hw)]

theorem tick (h : Near τ w e m) (hw : w ≤ now) (hnow : now ≤ τ) :
    Near τ now (e.advanceTo now) (m.advanceTo e.conditions now).state := by
  rw [h.advanceTo_eq hw]
  exact ⟨by simp [h.metrics], rfl, h.closed, h.nearing.tick e.conditions hw hnow⟩

theorem elapse_advanceTo (h : Near τ w e m) (hnow : now ≤ τ) : (e.elapse τ).advanceTo now = e.elapse τ := by
  have hstarted : (e.elapse τ).watermark = some τ := rfl
  have hclosed : (e.elapse τ).closed = false := h.closed
  rw [Engine.advanceTo_eq hclosed, ensureStarted_of_some hstarted]
  split
  next => rfl
  next hle =>
    obtain rfl : now = τ := by omega
    refine each_idle (fun n hn => ?_) now
    rw [h.elapse_metrics, List.mem_singleton] at hn
    subst hn
    have hpending : (m.elapse e.conditions now).state.pending = none := Metric.flushPending_pending _
    exact Metric.advanceTo_of_not_due hpending fun d hd => Int.le_of_lt ((h.nearing.elapsed e.conditions).2 d hd)

theorem sync_tick (h : Near τ w e m) (hw : w ≤ now) (hnow : now ≤ τ) :
    Sync (e.elapse τ) ((e.advanceTo now).elapse τ) := by
  have hticked := h.tick hw hnow
  refine .of_alone h.elapse_metrics hticked.elapse_metrics ?_ ?_
  · rw [h.advanceTo_eq hw]
    rfl
  · rw [h.elapse_queue, hticked.elapse_queue, h.advanceTo_eq hw, each_queue, h.metrics, List.flatMap_singleton,
      List.append_assoc]
    exact h.nearing.tally_tick e.queue e.conditions hnow

theorem sync_advanceTo (h : Near τ w e m) (hnow : τ < now) (hlast : now ≤ last) :
    Sync (e.advanceTo now) ((e.elapse τ).advanceTo now) := by
  have hclosed : (e.elapse τ).closed = false := h.closed
  have hw := h.nearing.reached
  rw [h.advanceTo_eq (by omega), Engine.advanceTo_eq hclosed, ensureStarted_of_some (w := τ) rfl, if_neg (by omega)]
  refine .of_alone (by rw [each_metrics, h.metrics]; rfl) (by rw [each_metrics, h.elapse_metrics]; rfl) rfl ?_
  have hadvanced := (h.nearing.tally_advance e.queue e.conditions (by omega) hlast (by omega)).flushPending
  rw [each_queue, each_queue, h.elapse_queue, h.metrics, h.elapse_metrics, List.flatMap_singleton,
    List.flatMap_singleton, elapse_conditions]
  simpa only [Metric.advanceTo, Emitting.andThen_state, Emitting.andThen_records, List.append_assoc] using hadvanced

theorem sync_process (h : Near τ w e m) (hτ : τ ≤ ev.time) (hlast : ev.time ≤ last)
    (htie : ev.time = τ → m.DueAt e.conditions τ → m.Unswayed e.conditions (e.matchers.judge ev)) :
    Sync (e.process ev).1 ((e.elapse τ).process ev).1 := by
  have hclosed : (e.elapse τ).closed = false := h.closed
  have hw := h.nearing.reached
  rw [process_eq h.closed, process_eq hclosed, ensureStarted_of_some h.watermark, ensureStarted_of_some (w := τ) rfl,
    if_neg (by omega), if_neg (by omega), Living.apply_alone h.metrics, Living.apply_alone h.elapse_metrics]
  refine .of_alone rfl rfl rfl ?_
  have hvisited := h.nearing.tally_visit e.queue e.conditions hτ hlast htie
  dsimp only
  rw [h.elapse_queue, elapse_conditions, elapse_matchers]
  simpa only [Emitting.andThen_state, Emitting.andThen_records, List.append_assoc] using hvisited

theorem agree_shutdown (h : Near τ w e m) (hτ : τ ≤ now) (hlast : now ≤ last)
    (hwhole : now = τ → ∀ t slot, m.plan.rule = .timed t → t.aggregation = .maxSparse →
      (m.advance e.conditions τ false).state.grid.current = some slot → slot.stop ≠ τ) :
    Agree (e.shutdown now).queue ((e.elapse τ).shutdown now).queue := by
  have hclosed : (e.elapse τ).closed = false := h.closed
  have hw := h.nearing.reached
  have hmax : max now w = now ∧ max now τ = now := by omega
  rw [shutdown_eq h.closed, shutdown_eq hclosed, ensureStarted_of_some h.watermark, ensureStarted_of_some (w := τ) rfl]
  dsimp only
  rw [hmax.1, hmax.2, each_queue, each_queue, h.elapse_queue, h.metrics, h.elapse_metrics, List.flatMap_singleton,
    List.flatMap_singleton, List.append_assoc]
  exact Agree.append .rfl (h.nearing.agree_shutdown hτ hlast hwhole)

theorem accepted_elapse (h : Near τ w e m) (id : String) : (e.elapse τ).accepted id = e.accepted id := by
  have hplan := Metric.elapse_plan m e.conditions τ
  have haccepted := Metric.accepted_elapse m e.conditions τ
  simp only [accepted, h.elapse_metrics, h.metrics, List.find?_singleton, hplan]
  split
  · exact haccepted
  · rfl

/-- To be ahead at an instant makes no difference to a run from there on, if the next event does not sway a
metric to which something is due at the instant, and no lifetimes that are reported as a whole are cut. -/
theorem concur (h : Near τ w e m) (id : String) (hcalls : ∀ c ∈ calls, c.InRange ∧ c.Follows τ) (hτ : τ ≤ now)
    (hlast : now ≤ last)
    (htie : m.DueAt e.conditions τ → ∀ x, calls.findSome? Call.event? = some x → x.time = τ →
      m.Unswayed e.conditions (e.matchers.judge x))
    (hwhole : now = τ → calls.findSome? Call.event? = none → ∀ t slot, m.plan.rule = .timed t →
      t.aggregation = .maxSparse → (m.advance e.conditions τ false).state.grid.current = some slot → slot.stop ≠ τ) :
    Concur id calls now e (e.elapse τ) := by
  -- ticks up to the instant leave the engine on its way; any other call lets it catch up
  induction calls generalizing w e m with
  | nil => exact ⟨h.agree_shutdown hτ hlast fun hnow => hwhole hnow rfl, rfl⟩
  | cons c calls ih =>
      obtain ⟨hrange, hfollows⟩ := hcalls c List.mem_cons_self
      cases c with
      | shutdown now => exact hfollows.elim
      | process x =>
          have hsync := h.sync_process hfollows hrange.2 fun hx hdue => htie hdue x rfl hx
          have hprocessed : e.processed < (e.process x).1.processed ↔
              (e.elapse τ).processed < ((e.elapse τ).process x).1.processed := by
            rw [← hsync.processed]
            rfl
          have hrest := resting_call h.resting (.process x)
          have hrest' := resting_call h.resting_elapse (.process x)
          exact .cons (heard_congr hprocessed (h.accepted_elapse id).symm (hsync.accepted id))
            (hsync.concur hrest hrest' (h.length_call (.process x)) id calls now)
      | advanceTo t =>
          have hrest := fun c hc => hcalls c (List.mem_cons_of_mem _ hc)
          refine .cons rfl ?_
          by_cases hpast : τ < t
          · exact (h.sync_advanceTo hpast hrange.2).concur (resting_call h.resting (.advanceTo t))
              (resting_call h.resting_elapse (.advanceTo t)) (h.length_call (.advanceTo t)) id calls now
          · rw [call, call, h.elapse_advanceTo (by omega)]
            by_cases hbehind : t < w
            · rw [Engine.advanceTo_eq h.closed, ensureStarted_of_some h.watermark, if_pos hbehind]
              exact ih h hrest htie hwhole
            · have hw : w ≤ t := by omega
              have ht : t ≤ τ := by omega
              have hticked := h.tick hw ht
              have hsync := (h.sync_tick hw ht).concur h.resting_elapse hticked.resting_elapse
                (by simp [h.elapse_metrics]) id calls now
              have hcurrent := (congrArg (fun n : Metric => n.grid.current) (h.nearing.core_tick e.conditions ht) :)
              have hplan := Metric.advanceTo_plan m e.conditions t
              have hwindows := Metric.advanceTo_windows m e.conditions t
              rw [h.advanceTo_eq hw] at hticked hsync ⊢
              refine .trans (ih hticked hrest (fun hdue x hx hτ => ?_) fun hnow hnone i slot hrule hmax hs => ?_)
                hsync.symm
              · exact (htie ((h.nearing.dueAt_tick e.conditions ht).1 hdue) x hx hτ).congr hplan hwindows
              · exact hwhole hnow hnone i slot (hplan ▸ hrule) hmax (hcurrent ▸ hs)

/-- To an engine of one metric an event that is not for the metric is the time that it takes. -/
theorem sameTo_elapse (h : Near ev.time w e m) (he : e.Owning)
    (hhits : ∀ i, m.Heeds e.conditions i → (e.matchers.judge ev).get i = false) :
    SameTo (m.Asks e.conditions) (e.process ev).1 (e.elapse ev.time) := by
  have howning : (e.process ev).1.Owning := he.call (.process ev)
  have hw := h.nearing.reached
  rw [process_eq h.closed, ensureStarted_of_some h.watermark, if_neg (by omega)] at howning ⊢
  rw [Living.apply_alone h.metrics, h.nearing.visit_unheeded hhits] at howning ⊢
  have hstill : m.Unswayed e.conditions (e.matchers.judge ev) := fun i hi => hhits i (.inr hi)
  refine ⟨rfl, h.elapse_metrics.symm, h.elapse_queue.symm, rfl, rfl, hstill.agreeOn ev, rfl, howning,
    (m.closed_asks e.conditions).onEvent ev _, ?_⟩
  intro p hp g hg
  rw [List.map_singleton, List.mem_singleton, Metric.elapse_plan] at hp
  exact ⟨g, hp ▸ hg, .self⟩

end Near

theorem kept_early : Metric.Kept Early where
  start cs time h := h.start cs time
  absorb cs cs' ev hits u h := (h.advance cs ev.time false).absorb cs' ev hits u
  advanceTo cs now h := h.advanceTo cs now
  shutdown cs now h := h.shutdown cs now

theorem Reachable.early (h : Reachable d o e) : ∀ m ∈ e.metrics, Early m :=
  h.forall_metrics kept_early fun m hm =>
    ⟨fun a ha x hx => by simp [hm.windows a ha] at hx, by simp [hm.current]⟩

theorem near_started (he : Reachable d o e) (ho : o.InRange) (hopen : e.closed = false) (hm : m ∈ e.metrics)
    (hτ : Instant.InRange τ) (hle : (e.ensureStarted τ).2 ≤ τ)
    (hends : τ = last → m.plan.isBucketed = true → m.windows ≠ []) :
    ∃ n, n.plan = m.plan ∧ n.windows = m.windows ∧
      Near τ (e.ensureStarted τ).2 ((e.ensureStarted τ).1.restrict m.plan.id) n := by
  obtain ⟨f, hf, hsame⟩ := ensureStarted_metrics (e.restrict m.plan.id) τ
  obtain ⟨hplan, hwindows⟩ := hsame m
  rw [restrict_alone he.nodup hm, ensureStarted_restrict he.owning, List.map_singleton] at hf
  dsimp only at hf
  have hmem : f m ∈ ((e.ensureStarted τ).1.restrict m.plan.id).metrics := by simp [hf]
  have hearly := forall_metrics_start kept_early he.early τ (f m) (List.mem_of_mem_filter hmem)
  have hsettled := settled_ensureStarted he ho hτ (fun τ hw => he.settled ho hopen hw) (f m)
    (List.mem_of_mem_filter hmem)
  refine ⟨f m, hplan, hwindows, hf, ensureStarted_watermark e τ, (ensureStarted_closed e τ).trans hopen, hsettled, hle,
    hτ.2, .of_bounded hearly.bounded hτ.2 ?_, hearly⟩
  rwa [hplan, hwindows]

/-- Something is due to a metric at the instant: a bucket or an activity ends there. -/
def DueAt (e : Engine) (id : String) (time : Int) : Prop :=
  ∃ n ∈ (e.advanceTo time).metrics, n.plan.id = id ∧ n.nextDeadline = some time

instance : Decidable (e.DueAt id τ) :=
  inferInstanceAs (Decidable (∃ n ∈ (e.advanceTo τ).metrics, n.plan.id = id ∧ n.nextDeadline = some τ))

theorem Near.metrics_advanceTo {n : Metric} (he : e.Owning) (hopen : e.closed = false)
    (h : Near τ w ((e.ensureStarted τ).1.restrict id) n) :
    ((e.advanceTo τ).restrict id).metrics = [(n.advanceTo e.conditions τ).state] := by
  have htick : (e.advanceTo τ).restrict id = ((e.ensureStarted τ).1.restrict id).advanceTo τ :=
    (call_restrict_started he hopen id (.advanceTo τ)).symm
  have hconditions : ((e.ensureStarted τ).1.restrict id).conditions = e.conditions := ensureStarted_conditions e τ
  rw [htick, h.advanceTo_eq h.nearing.reached, each_metrics, h.metrics, List.map_singleton, hconditions]

/-- An event that comes too late leaves nothing but its drop. -/
theorem sameTo_late (h : e.Owning) (hopen : e.closed = false) (hlate : ev.time < (e.ensureStarted ev.time).2)
    (id : String) :
    SameTo (fun _ => True) ((e.process ev).1.restrict id) ((e.ensureStarted ev.time).1.restrict id) := by
  rw [process_eq hopen, if_pos hlate]
  exact ⟨rfl, rfl, rfl, rfl, rfl, ⟨rfl, rfl, fun _ _ => rfl⟩, ensureStarted_watermark e ev.time ▸ rfl,
    fun n hn => h.ensureStarted ev.time n (List.mem_of_mem_filter hn), fun _ _ _ _ _ _ => trivial,
    fun _ _ _ _ => trivial⟩

theorem concur_unheeded {after : List Call} (he : Reachable d o e) (ho : o.InRange) (hopen : e.closed = false)
    (hm : m ∈ e.metrics) (hev : Instant.InRange ev.time)
    (hunheeded : ∀ i, m.Heeds e.conditions i → (e.matchers.judge ev).get i = false)
    (hends : ev.time = last → m.plan.isBucketed = true → m.windows ≠ [])
    (hafter : ∀ c ∈ after, c.InRange ∧ c.Follows ev.time) (hnow : Instant.InRange now) (hle : ev.time ≤ now)
    (htie : e.DueAt m.plan.id ev.time → ∀ x, after.findSome? Call.event? = some x → x.time = ev.time →
      m.Unswayed e.conditions (e.matchers.judge x))
    (hwhole : now = ev.time → after.findSome? Call.event? = none → ∀ t slot, m.plan.rule = .timed t →
      t.aggregation = .maxSparse → (e.advanceTo ev.time).openSlot m.plan.id = some slot → slot.stop ≠ ev.time) :
    Concur m.plan.id after now ((e.process ev).1.restrict m.plan.id) ((e.ensureStarted ev.time).1.restrict m.plan.id) ∧
      (e.process ev).1.accepted m.plan.id = e.accepted m.plan.id := by
  have howning := he.owning.ensureStarted ev.time
  by_cases hlate : ev.time < (e.ensureStarted ev.time).2
  · refine ⟨(sameTo_late he.owning hopen hlate m.plan.id).concur m.plan.id after now, ?_⟩
    rw [process_eq hopen, if_pos hlate]
    exact accepted_started e m.plan.id ev.time
  · obtain ⟨n, hplan, hwindows, hnear⟩ := near_started he ho hopen hm hev (by omega) hends
    have hconditions : ((e.ensureStarted ev.time).1.restrict m.plan.id).conditions = e.conditions :=
      ensureStarted_conditions e ev.time
    have hmatchers : ((e.ensureStarted ev.time).1.restrict m.plan.id).matchers = e.matchers :=
      ensureStarted_matchers e ev.time
    have hsame := hnear.sameTo_elapse (fun n hn => howning n (List.mem_of_mem_filter hn)) fun i hi => by
      rw [hconditions] at hi
      rw [hmatchers]
      exact hunheeded i (hi.congr hplan.symm hwindows.symm)
    have hmetrics := hnear.metrics_advanceTo he.owning hopen
    have hprocess : (((e.ensureStarted ev.time).1.restrict m.plan.id).process ev).1 =
        (e.process ev).1.restrict m.plan.id := call_restrict_started he.owning hopen m.plan.id (.process ev)
    have hbody := Metric.body_flushPending (n.advance e.conditions ev.time false).state
    rw [hprocess] at hsame
    refine ⟨(hsame.concur m.plan.id after now).trans (hnear.concur m.plan.id hafter hle hnow.2 ?_ ?_).symm, ?_⟩
    · intro hdue x hx hτ
      rw [hconditions] at hdue ⊢
      rw [hmatchers]
      refine (htie ⟨(n.advanceTo e.conditions ev.time).state, ?_, ?_, ?_⟩ x hx hτ).congr hplan hwindows
      · exact List.mem_of_mem_filter (hmetrics ▸ List.mem_singleton_self _)
      · rw [Metric.advanceTo_plan, hplan]
      · exact (congrArg Metric.nextDeadline hbody :).trans hdue
    · intro hτ hnone t slot hrule hmax hs
      rw [hconditions] at hs
      have hcurrent : (n.advanceTo e.conditions ev.time).state.grid.current = some slot :=
        (congrArg (fun n : Metric => n.grid.current) hbody :).trans hs
      refine hwhole hτ hnone t slot (hplan ▸ hrule) hmax ?_
      rw [← openSlot_restrict, openSlot, hmetrics]
      simp [Metric.advanceTo_plan, hplan, hcurrent]
    · rw [← accepted_restrict, hsame.accepted, hnear.accepted_elapse, accepted_restrict, accepted_started]

def stray : Event := { atom := 9, time := 10 }

def tied (m : Definition.Metric) : Definitions where
  matchers := [⟨"lit", .simple 1 []⟩, ⟨"dark", .simple 2 []⟩, ⟨"open", .simple 3 []⟩, ⟨"close", .simple 4 []⟩,
    ⟨"boot", .simple 5 []⟩, ⟨"halt", .simple 6 []⟩]
  conditions := [⟨"light", .simple { start := "lit", stop := "dark" }⟩]
  metrics := [m]

def visits : Definition.Metric :=
  { id := "visits", measure := .count "open", bucket := some ⟨10⟩, condition := some "light" }

/-- To leave out an event that matches nothing on which a metric depends makes no difference to what the rest of
the run reports of the metric and to what the metric accepts, but for two ties. What is due to the metric at the
instant of the event would wait for the next event, which must not be of the same instant and sway the metric. At
the end of a run that ends there and then, lifetimes that are reported as a whole must not be cut. Of an event at
the last instant nothing comes if any metric is endless, nor of a run that stops by an overflow. -/
theorem unheeded_event_changes_nothing {after : List Call} (he : Reachable d o e) (ho : o.InRange) (hd : e.Dated)
    (hm : m ∈ e.metrics) (hev : Instant.InRange ev.time)
    (hunheeded : ∀ i, m.Heeds e.conditions i → (e.matchers.judge ev).get i = false)
    (hcalm : ∀ x, .process x ∈ .process ev :: after → x.time = last → ∀ n ∈ e.metrics, ¬ n.Endless)
    (hafter : ∀ c ∈ after, c.InRange ∧ c.Follows ev.time) (hnow : Instant.InRange now) (hle : ev.time ≤ now)
    (htie : e.DueAt m.plan.id ev.time → ∀ x, after.findSome? Call.event? = some x → x.time = ev.time →
      ∀ i, m.Sways e.conditions i → (e.matchers.judge x).get i = false)
    (hwhole : now = ev.time → after.findSome? Call.event? = none → ∀ t slot, m.plan.rule = .timed t →
      t.aggregation = .maxSparse → (e.advanceTo ev.time).openSlot m.plan.id = some slot → slot.stop ≠ ev.time)
    (hwith : e.run! (.process ev :: after ++ [.shutdown now]) ≠ throw .overflow)
    (hwithout : e.run! (after ++ [.shutdown now]) ≠ throw .overflow) :
    ∃ final final', e.run! (.process ev :: after ++ [.shutdown now]) = pure final ∧
      e.run! (after ++ [.shutdown now]) = pure final' ∧
      reports (final.queue.filter (·.metric = m.plan.id)) = reports (final'.queue.filter (·.metric = m.plan.id)) ∧
      Record.Skipped.merge (Record.gaps (final.queue.filter (·.metric = m.plan.id))) =
        Record.Skipped.merge (Record.gaps (final'.queue.filter (·.metric = m.plan.id))) ∧
      (e.process ev).1.history m.plan.id after = e.history m.plan.id after ∧
      (e.process ev).1.accepted m.plan.id = e.accepted m.plan.id := by
  have hcomes : ∀ {calls : List Call}, (∀ c ∈ calls, c ∈ .process ev :: after) →
      e.run! (calls ++ [.shutdown now]) ≠ throw .overflow →
      e.run! (calls ++ [.shutdown now]) = pure ((e.run calls).shutdown now) := by
    intro calls hsub hrun
    rw [run!_eq_pure_of_ne he ho ?_ ?_ hrun, run_concat]
    · rfl
    · intro c hc
      rcases List.mem_append.1 hc with hc | hc
      · rcases List.mem_cons.1 (hsub c hc) with rfl | hc
        · exact hev
        · exact (hafter c hc).1
      · exact List.mem_singleton.1 hc ▸ hnow
    · refine ends_of_calm he.owning fun x hx => hcalm x (hsub _ ?_)
      exact (List.mem_append.1 hx).resolve_right (by simp)
  refine ⟨_, _, hcomes (fun _ hc => hc) hwith, hcomes (fun _ hc => List.mem_cons_of_mem _ hc) hwithout, ?_⟩
  cases hopen : e.closed with
  | true =>
      have hsame : (e.process ev).1 = e := call_of_closed hopen (.process ev)
      have hrun : e.run (.process ev :: after) = e.run after := congrArg (·.run after) hsame
      rw [hsame, hrun]
      exact ⟨rfl, rfl, rfl, rfl⟩
  | false =>
      obtain ⟨hconcur, haccepted⟩ := concur_unheeded he ho hopen hm hev hunheeded (fun hlast hb hw =>
        hcalm ev List.mem_cons_self hlast m hm ⟨hb, hw⟩) hafter hnow hle htie hwhole
      obtain ⟨⟨hreports, hgaps⟩, hhistory⟩ :=
        hconcur.of_restrict (he.owning.call (.process ev)) (he.owning.ensureStarted ev.time)
      obtain ⟨hrun, hsame⟩ := run_started hopen hd ev.time m.plan.id after now
      rw [hrun] at hreports hgaps
      rw [hsame] at hhistory
      exact ⟨hreports, hgaps, hhistory, haccepted⟩

/-- A visit in the dark right after the stray event, at the end of a bucket, and one in the light. -/
theorem unheeded_event_changes_nothing_visits : ∃ e m final final', Reachable (tied visits) { start := some 0 } e ∧
    m ∈ e.metrics ∧ e.DueAt m.plan.id stray.time ∧
    let after := [Call.process { atom := 3, time := 10 }, .process { atom := 1, time := 12 },
      .process { atom := 3, time := 13 }]
    e.run! (.process stray :: after ++ [.shutdown 30]) = pure final ∧ e.run! (after ++ [.shutdown 30]) = pure final' ∧
      reports (final.queue.filter (·.metric = m.plan.id)) = reports (final'.queue.filter (·.metric = m.plan.id)) ∧
      Record.Skipped.merge (Record.gaps (final.queue.filter (·.metric = m.plan.id))) =
        Record.Skipped.merge (Record.gaps (final'.queue.filter (·.metric = m.plan.id))) ∧
      (e.process stray).1.history m.plan.id after = e.history m.plan.id after ∧
      (e.process stray).1.accepted m.plan.id = e.accepted m.plan.id := by
  obtain ⟨e, m, g, c, he, hdated, hmetrics, hwindows, hgate, hcondition, hdue, hstray, hvisit, hfits, hfits'⟩ :
      ∃ e m g c, compile (tied visits) { start := some 0 } = .ok e ∧ e.startTime.isSome = true ∧ e.metrics = [m] ∧
        m.windows = [] ∧ m.plan.gate = some g ∧ e.conditions.nodes[g.condition]? = some (.simple c) ∧
        e.DueAt m.plan.id stray.time ∧ (∀ hit ∈ e.matchers.judge stray, hit = false) ∧
        (∀ i ∈ (Condition.simple c).matchers, (e.matchers.judge { atom := 3, time := 10 }).get i = false) ∧
        let after := [Call.process { atom := 3, time := 10 }, .process { atom := 1, time := 12 },
          .process { atom := 3, time := 13 }]
        e.runFits (.process stray :: after ++ [.shutdown 30]) = true ∧ e.runFits (after ++ [.shutdown 30]) = true :=
    ⟨_, _, _, _, rfl, rfl, rfl, rfl, rfl, rfl, by decide +kernel, by decide +kernel, by decide +kernel,
      by decide +kernel, by decide +kernel⟩
  have hsways : ∀ i, m.Sways e.conditions i → i ∈ (Condition.simple c).matchers := by
    rintro i (⟨a, ha, -⟩ | ⟨j, d, ⟨g', hg, hj⟩, hd, hi⟩)
    · simp [hwindows] at ha
    · cases hgate.symm.trans hg
      cases hj.eq_of_simple hcondition
      cases hcondition.symm.trans hd
      exact hi
  have hm : m ∈ e.metrics := by simp [hmetrics]
  have hstart : EngineOptions.InRange { start := some 0 } := by decide
  have hcomes : ∀ calls, (∀ c ∈ calls, Timely c) → e.runFits calls = true → e.run! calls ≠ throw .overflow :=
    fun calls hcalls hfits hthrow =>
      Checked.throw_ne_pure (hthrow.symm.trans (run!_of_timely (.compiled he) hstart hcalls hfits))
  have htimely : ∀ c ∈ [Call.process stray, .process { atom := 3, time := 10 }, .process { atom := 1, time := 12 },
      .process { atom := 3, time := 13 }], Timely c := by decide
  have hfollow : ∀ c ∈ [Call.process { atom := 3, time := 10 }, .process { atom := 1, time := 12 },
      .process { atom := 3, time := 13 }], c.Follows stray.time := by decide
  obtain ⟨final, final', hsame⟩ := unheeded_event_changes_nothing (.compiled he) hstart (.inl hdated) hm
    (by decide) (fun i _ => Hits.get_of_silent hstray i)
    (fun x hx hlast => absurd hlast (Int.ne_of_lt (htimely _ hx).2))
    (fun c hc => ⟨(htimely c (List.mem_cons_of_mem _ hc)).inRange, hfollow c hc⟩) (by decide) (by decide)
    (by rintro - x ⟨⟩ - i hi; exact hvisit i (hsways i hi)) (fun h => absurd h (by decide))
    (hcomes _ (by decide) hfits) (hcomes _ (by decide) hfits')
  exact ⟨e, m, final, final', .compiled he, hm, hdue, hsame⟩

/-- To leave out an event that no matcher matches changes what a run reports. -/
def Splits (d : Definitions) (before after : List Call) (now : Int) : Prop :=
  ∃ e, compile d { start := some 0 } = .ok e ∧ (∀ hit ∈ e.matchers.judge stray, hit = false) ∧
    List.Pairwise (fun c c' : Call => c.time ≤ c'.time) (before ++ .process stray :: after ++ [.shutdown now]) ∧
    reports ((e.run (before ++ .process stray :: after)).shutdown now).queue ≠
      reports ((e.run (before ++ after)).shutdown now).queue

def spansOf (rs : List Record) : List (Int × Int) :=
  rs.filterMap fun
    | .bucket b => some (b.start, b.stop)
    | _ => none

/-- A stray event at the end of a bucket or of an activity brings it about before the event after it at the same
instant: before the light is lit, before the machine boots again, before it halts. At the end of a run it cuts an
interval that is reported as a whole. -/
theorem unheeded_event_splits_ties :
    Splits (tied visits) [] [.process { atom := 1, time := 10 }, .process { atom := 3, time := 12 }] 20 ∧
    Splits (tied { id := "visits", measure := .count "open", bucket := some ⟨20⟩, condition := some "light",
                   activations := [⟨"boot", ⟨10⟩, none⟩] })
      [.process { atom := 5, time := 0 }, .process { atom := 1, time := 5 }]
      [.process { atom := 5, time := 10 }, .process { atom := 3, time := 12 }] 20 ∧
    Splits (tied { id := "visits", measure := .count "open", bucket := some ⟨10⟩,
                   activations := [⟨"boot", ⟨30⟩, some "halt"⟩] })
      [.process { atom := 5, time := 0 }] [.process { atom := 6, time := 10 }, .process { atom := 5, time := 15 },
        .process { atom := 3, time := 16 }] 40 ∧
    Splits (tied { id := "longest", measure := .duration "open" "close" none false .maxSparse, bucket := some ⟨10⟩ })
      [.process { atom := 3, time := 2 }] [] 10 := by
  have hspans : ∀ {rs rs' : List Record}, spansOf rs ≠ spansOf rs' → rs ≠ rs' := fun h he => h (congrArg spansOf he)
  refine ⟨⟨_, rfl, ?_, ?_, hspans ?_⟩, ⟨_, rfl, ?_, ?_, hspans ?_⟩, ⟨_, rfl, ?_, ?_, hspans ?_⟩,
    ⟨_, rfl, ?_, ?_, hspans ?_⟩⟩ <;> decide +kernel

end Engine

end EventMetrics
