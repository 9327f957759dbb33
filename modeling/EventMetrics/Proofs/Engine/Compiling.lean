import EventMetrics.Engine
import EventMetrics.Proofs.Check
import EventMetrics.Proofs.Condition

namespace EventMetrics

open Check

namespace Definition

theorem firstRepeated?_eq_none (seen names : List String) :
    firstRepeated? seen names = none ↔ names.Nodup ∧ ∀ s ∈ names, s ∉ seen := by
  induction names generalizing seen with
  | nil => simp [firstRepeated?]
  | cons s names ih =>
      rw [firstRepeated?]
      split
      next h => simp [h]
      next h =>
        simp only [ih, List.nodup_cons, List.mem_cons, not_or, forall_eq_or_imp]
        constructor
        · rintro ⟨hn, hs⟩
          exact ⟨⟨fun hm => (hs s hm).1 rfl, hn⟩, h, fun t ht => (hs t ht).2⟩
        · rintro ⟨⟨hm, hn⟩, -, hs⟩
          exact ⟨hn, fun t ht => ⟨fun he => hm (he ▸ ht), hs t ht⟩⟩

end Definition

theorem checkAlerts_eq_ok {metrics seen : List String} {alerts : List Definition.Alert} :
    checkAlerts metrics seen alerts = .ok () ↔
      (alerts.map (·.id)).Nodup ∧ ∀ a ∈ alerts, a.id ∉ seen ∧ a.metric ∈ metrics ∧ a.numBuckets ≠ 0 := by
  induction alerts generalizing seen with
  | nil => simp [checkAlerts]
  | cons a alerts ih =>
      rw [checkAlerts]
      split
      next h => simp [h]
      next hid =>
        split
        next h => simp [h]
        next hmetric =>
          split
          next h => simp [h]
          next hbuckets =>
            simp only [ih, List.map_cons, List.nodup_cons, List.mem_map, List.mem_cons, not_or,
              forall_eq_or_imp, not_exists, not_and]
            constructor
            · rintro ⟨hn, hs⟩
              exact ⟨⟨fun b hb he => (hs b hb).1.1 he, hn⟩, ⟨hid, by simpa using hmetric, hbuckets⟩,
                fun b hb => ⟨(hs b hb).1.2, (hs b hb).2⟩⟩
            · rintro ⟨⟨hm, hn⟩, -, hs⟩
              exact ⟨hn, fun b hb => ⟨⟨fun he => hm b hb he, (hs b hb).1⟩, (hs b hb).2⟩⟩

variable {d : Definitions} {limit : Nat} {c : Compiled}

theorem Definitions.compile_eq_ok : d.compile limit = .ok c ↔
    d.metrics.isEmpty = false ∧ limit ≠ 0 ∧
    Matchers.compile d.matchers = .ok c.matchers ∧
    Conditions.compile d.conditions c.matchers limit = .ok c.conditions ∧
    (d.metrics.map (·.id)).Nodup ∧
    checkAlerts (d.metrics.map (·.id)) [] d.alerts = .ok () ∧
    List.Forall₂ (fun dm m => Metric.compile dm (d.alerts.filter (·.metric = dm.id)) c.matchers
      c.conditions limit = .ok m) d.metrics c.metrics := by
  have hrepeated := Definition.firstRepeated?_eq_none [] (d.metrics.map (·.id))
  rw [Definitions.compile]
  rw [guard_eq_ok, guard_eq_ok]
  simp only [bind_eq_ok]
  cases hr : Definition.firstRepeated? [] (d.metrics.map (·.id)) with
  | some id =>
      have hn : ¬ (d.metrics.map (·.id)).Nodup := fun hn => by simp [hrepeated.2 ⟨hn, by simp⟩] at hr
      simp only [throw_bind_ne_ok, hn, false_and, and_false, exists_false]
  | none =>
      have hn := (hrepeated.1 hr).1
      simp only [bind_eq_ok, pure_eq_ok, mapM_eq_ok, Bool.not_eq_true]
      constructor
      · rintro ⟨hm, hl, ms, hms, cs, hcs, ⟨⟩, ha, metrics, hmetrics, rfl⟩
        exact ⟨hm, hl, hms, hcs, hn, ha, hmetrics⟩
      · rintro ⟨hm, hl, hms, hcs, -, ha, hmetrics⟩
        exact ⟨hm, hl, c.matchers, hms, c.conditions, hcs, (), ha, c.metrics, hmetrics, rfl⟩

theorem Engine.compile_eq_ok {o : EngineOptions} {e : Engine} : Engine.compile d o = .ok e ↔
    ∃ c, d.compile o.dimensionLimit = .ok c ∧ e =
      { matchers := c.matchers, conditions := c.conditions, metrics := c.metrics, startTime := o.start } := by
  simp only [Engine.compile, bind_eq_ok, pure_eq_ok, eq_comm (b := e)]

theorem Engine.compile_wellFormed {o : EngineOptions} {e : Engine} (h : Engine.compile d o = .ok e) :
    e.conditions.WellFormed := by
  obtain ⟨c, hc, rfl⟩ := Engine.compile_eq_ok.1 h
  obtain ⟨-, -, -, hconditions, -⟩ := Definitions.compile_eq_ok.1 hc
  exact Conditions.compile_wellFormed hconditions

theorem Engine.compile_within {o : EngineOptions} {e : Engine} (h : Engine.compile d o = .ok e) :
    e.conditions.Within 0 := by
  obtain ⟨c, hc, rfl⟩ := Engine.compile_eq_ok.1 h
  obtain ⟨-, -, -, hconditions, -⟩ := Definitions.compile_eq_ok.1 hc
  exact Conditions.compile_within hconditions

theorem Activations.compile_expiry {ms : Matchers} {id : String} {defs : List Definition.Activation}
    {as : Activations} (h : Activations.compile ms id defs = .ok as) : ∀ a ∈ as, a.expiry = none := by
  rw [Activations.compile, mapM_eq_ok] at h
  intro a ha
  obtain ⟨d, -, hd⟩ := exists_of_mem_right h ha
  simp only [bind_eq_ok, pure_eq_ok] at hd
  obtain ⟨trigger, -, deactivate, -, rfl⟩ := hd
  rfl

theorem Activations.compile_ttl {ms : Matchers} {id : String} {defs : List Definition.Activation}
    {as : Activations} (h : Activations.compile ms id defs = .ok as) :
    ∀ a ∈ as, ∃ d ∈ defs, a.ttl = d.ttl.toInstant := by
  rw [Activations.compile, mapM_eq_ok] at h
  intro a ha
  obtain ⟨d, hd, hda⟩ := exists_of_mem_right h ha
  simp only [bind_eq_ok, pure_eq_ok] at hda
  obtain ⟨trigger, -, deactivate, -, rfl⟩ := hda
  exact ⟨d, hd, rfl⟩

theorem Metric.compile_eq_ok {dm : Definition.Metric} {alerts : List Definition.Alert} {ms : Matchers}
    {cs : Conditions} {m : Metric} : Metric.compile dm alerts ms cs limit = .ok m ↔
      ∃ windows rule gate, Activations.compile ms dm.id dm.activations = .ok windows ∧
        ¬ (dm.measure.isBucketed = true ∧ dm.bucketSize ≤ 0) ∧
        ¬ ((!dm.measure.isBucketed) = true ∧ (!alerts.isEmpty) = true) ∧
        MetricPlan.compileRule (.metric dm.id) ms dm.measure = .ok rule ∧
        MetricPlan.compileGate (.metric dm.id) cs dm = .ok gate ∧
        m = {
          plan := { id := dm.id, rule, gate, dimensions := dm.dimensions
                    maxDimensions := dm.maxDimensions.getD limit }
          grid := { size := dm.bucketSize }
          windows
          trackers := alerts.map fun a => { rule := .ofDefinition a } } := by
  simp only [Metric.compile, bind_eq_ok, guard_eq_ok, pure_eq_ok]
  constructor
  · rintro ⟨windows, hw, hsize, halerts, rule, hr, gate, hg, rfl⟩
    exact ⟨windows, rule, gate, hw, hsize, halerts, hr, hg, rfl⟩
  · rintro ⟨windows, rule, gate, hw, hsize, halerts, hr, hg, rfl⟩
    exact ⟨windows, hw, hsize, halerts, rule, hr, gate, hg, rfl⟩

theorem Metric.compile_id {dm : Definition.Metric} {alerts : List Definition.Alert} {ms : Matchers}
    {cs : Conditions} {m : Metric} (h : Metric.compile dm alerts ms cs limit = .ok m) :
    m.plan.id = dm.id := by
  obtain ⟨_, _, _, -, -, -, -, -, rfl⟩ := Metric.compile_eq_ok.1 h
  rfl

variable {R : Definition.Metric → Metric → Prop} {dms : List Definition.Metric} {ms : List Metric}

theorem map_id_eq (hR : ∀ dm m, R dm m → m.plan.id = dm.id) (h : List.Forall₂ R dms ms) :
    ms.map (·.plan.id) = dms.map (·.id) := by
  induction h with
  | nil => rfl
  | cons hr _ ih => rw [List.map_cons, List.map_cons, hR _ _ hr, ih]

theorem filter_of_find? (hR : ∀ dm m, R dm m → m.plan.id = dm.id) (h : List.Forall₂ R dms ms)
    (hn : (dms.map (·.id)).Nodup) {id : String} {dm : Definition.Metric}
    (hd : dms.find? (·.id = id) = some dm) :
    ∃ m, R dm m ∧ ms.filter (·.plan.id = id) = [m] := by
  induction h with
  | nil => cases hd
  | @cons x y xs ys hr h ih =>
      rw [List.map_cons, List.nodup_cons] at hn
      by_cases hx : x.id = id
      · obtain rfl : x = dm := by simpa [List.find?_cons, hx] using hd
        have hnil : ys.filter (·.plan.id = id) = [] := by
          refine List.filter_eq_nil_iff.2 fun m hm he => hn.1 ?_
          rw [← map_id_eq hR h, hx, ← of_decide_eq_true he]
          exact List.mem_map_of_mem hm
        exact ⟨y, hr, by rw [List.filter_cons_of_pos (by simp [hR x y hr, hx]), hnil]⟩
      · obtain ⟨m, hm, he⟩ := ih hn.2 (by simpa [List.find?_cons, hx] using hd)
        exact ⟨m, hm, by rwa [List.filter_cons_of_neg (by simp [hR x y hr, hx])]⟩

theorem Definitions.compile_forMetric? {d' : Definitions} {id : String} (h : d.compile limit = .ok c)
    (hd : d.forMetric? id = some d') :
    d'.compile limit = .ok { c with metrics := c.metrics.filter (·.plan.id = id) } := by
  obtain ⟨-, hlimit, hms, hcs, hn, halerts, hmetrics⟩ := compile_eq_ok.1 h
  obtain ⟨dm, hdm, rfl⟩ := Option.map_eq_some_iff.1 hd
  obtain ⟨m, hm, hfilter⟩ := filter_of_find? (fun _ _ => Metric.compile_id) hmetrics hn hdm
  have hid : dm.id = id := by simpa using List.find?_some hdm
  rw [checkAlerts_eq_ok] at halerts
  refine compile_eq_ok.2 ⟨rfl, hlimit, hms, hcs, by simp, ?_, ?_⟩
  · refine checkAlerts_eq_ok.2 ⟨halerts.1.sublist (List.filter_sublist.map _), fun a ha => ?_⟩
    obtain ⟨ha, he⟩ := List.mem_filter.1 ha
    obtain ⟨-, -, hbuckets⟩ := halerts.2 a ha
    exact ⟨by simp, by simpa [hid] using he, hbuckets⟩
  · rw [hfilter]
    refine .cons ?_ .nil
    simpa only [hid, List.filter_filter, Bool.and_self] using hm

theorem MetricPlan.compileRule_isBucketed {referrer : Definition.Referrer} {ms : Matchers}
    {measure : Definition.Measure} {p : MetricPlan}
    (h : compileRule referrer ms measure = .ok p.rule) : p.isBucketed = measure.isBucketed := by
  rw [MetricPlan.isBucketed]
  cases measure with
  | value what field aggregation =>
      simp only [compileRule, bind_eq_ok, pure_eq_ok] at h
      obtain ⟨_, -, h⟩ := h
      rw [← h]
      rfl
  | count what =>
      simp only [compileRule, bind_eq_ok, pure_eq_ok] at h
      obtain ⟨_, -, h⟩ := h
      rw [← h]
      rfl
  | duration start stop stopAll nested aggregation =>
      simp only [compileRule, guard_eq_ok, bind_eq_ok, pure_eq_ok] at h
      obtain ⟨-, _, -, _, -, _, -, h⟩ := h
      rw [← h]
      rfl
  | event what =>
      simp only [compileRule, bind_eq_ok, pure_eq_ok] at h
      obtain ⟨_, -, h⟩ := h
      rw [← h]
      rfl

end EventMetrics
