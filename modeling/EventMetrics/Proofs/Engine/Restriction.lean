import EventMetrics.Proofs.Engine.Compiling
import EventMetrics.Proofs.Engine.Parts
import EventMetrics.Proofs.Metric.Ownership

namespace EventMetrics

namespace Engine

variable {e : Engine} {id : String}

/-- What is left of an engine when one looks at a single metric. -/
def restrict (e : Engine) (id : String) : Engine :=
  { e with
    metrics := e.metrics.filter (·.plan.id = id)
    queue := e.queue.filter (·.metric = id) }

def Owning (e : Engine) : Prop := ∀ m ∈ e.metrics, m.Owned m.plan []

theorem Owning.restrict (h : e.Owning) (id : String) : (e.restrict id).Owning :=
  fun m hm => h m (List.mem_filter.1 hm).1

theorem filter_map_state (f : Metric → Emitting Metric) (ms : List Metric)
    (hf : ∀ m ∈ ms, (f m).state.plan = m.plan) :
    ((ms.map f).map (·.state)).filter (·.plan.id = id) =
      ((ms.filter (·.plan.id = id)).map f).map (·.state) := by
  rw [List.map_map, List.filter_map, List.map_map]
  congr 1
  refine List.filter_congr fun m hm => ?_
  simp [hf m hm]

theorem filter_flatMap_records (f : Metric → Emitting Metric) (ms : List Metric)
    (hf : ∀ m ∈ ms, ∀ x ∈ (f m).records, x.metric = m.plan.id) :
    ((ms.map f).flatMap (·.records)).filter (·.metric = id) =
      ((ms.filter (·.plan.id = id)).map f).flatMap (·.records) := by
  induction ms with
  | nil => rfl
  | cons m ms ih =>
      have hm := hf m List.mem_cons_self
      have ih := ih fun n hn => hf n (List.mem_cons_of_mem _ hn)
      rw [List.map_cons, List.flatMap_cons, List.filter_append, ih]
      by_cases h : m.plan.id = id
      · have hkeep : (f m).records.filter (·.metric = id) = (f m).records :=
          List.filter_eq_self.2 fun x hx => by simpa using (hm x hx).trans h
        rw [hkeep, List.filter_cons_of_pos (by simpa using h), List.map_cons, List.flatMap_cons]
      · have hdrop : (f m).records.filter (·.metric = id) = [] :=
          List.filter_eq_nil_iff.2 fun x hx => by simpa [hm x hx] using h
        rw [hdrop, List.nil_append, List.filter_cons_of_neg (by simpa using h)]

theorem each_restrict (f : Metric → Emitting Metric) (reached : Int)
    (hf : ∀ m ∈ e.metrics, Metric.Owned m.plan (f m).state (f m).records) :
    (e.each f reached).restrict id = (e.restrict id).each f reached := by
  simp only [each, settle, restrict, List.filter_append,
    filter_map_state f e.metrics fun m hm => (hf m hm).plan,
    filter_flatMap_records f e.metrics fun m hm => (hf m hm).records]

theorem ensureStarted_restrict (h : e.Owning) (time : Int) :
    (e.restrict id).ensureStarted time =
      ((e.ensureStarted time).1.restrict id, (e.ensureStarted time).2) := by
  have hmark : (e.restrict id).watermark = e.watermark := rfl
  cases hw : e.watermark with
  | some w => rw [ensureStarted_of_some hw, ensureStarted_of_some (hmark.trans hw)]
  | none =>
      rw [ensureStarted_of_none hw, ensureStarted_of_none (hmark.trans hw)]
      exact congrArg (·, _) (each_restrict _ _ fun m hm => (h m hm).start _ _).symm

theorem kept_owned (p : MetricPlan) : Metric.Kept (Metric.Owned p · []) where
  start cs time h := h.start cs time
  absorb cs cs' ev hits u h := ((h.advance cs ev.time false).forget.absorb cs' ev hits u).forget
  advanceTo cs now h := (h.advanceTo cs now).forget
  shutdown cs now h := (h.shutdown cs now).forget

theorem Owning.each {f : Metric → Emitting Metric} (reached : Int)
    (hf : ∀ m ∈ e.metrics, Metric.Owned m.plan (f m).state (f m).records) :
    (e.each f reached).Owning := by
  intro n hn
  simp only [Engine.each, settle, List.map_map, List.mem_map, Function.comp_apply] at hn
  obtain ⟨m, hm, rfl⟩ := hn
  exact (hf m hm).plan ▸ (hf m hm).forget

theorem Owning.ensureStarted (h : e.Owning) (time : Int) : (e.ensureStarted time).1.Owning := by
  obtain ⟨f, hf, hkept⟩ := keeps_start e time
  intro n hn
  rw [hf] at hn
  obtain ⟨m, hm, rfl⟩ := List.mem_map.1 hn
  have ho := hkept _ (kept_owned m.plan) m (h m hm)
  exact ho.plan ▸ ho

theorem Owning.call (h : e.Owning) (c : Call) : (e.call c).Owning := by
  obtain ⟨f, hf, hkept⟩ := keeps_call e c
  intro n hn
  rw [hf] at hn
  obtain ⟨m, hm, rfl⟩ := List.mem_map.1 hn
  have ho := hkept _ (kept_owned m.plan) m (h m hm)
  exact ho.plan ▸ ho

theorem apply_restrict (h : e.Owning) (ev : Event) :
    ((e.restrict id).apply ev).1 = (e.apply ev).1.restrict id := by
  have hadvance : ∀ m ∈ e.metrics, Metric.Owned m.plan
      (m.advance e.conditions ev.time false).state (m.advance e.conditions ev.time false).records :=
    fun m hm => (h m hm).advance _ ev.time false
  have hexpecting : (e.restrict id).expecting ev = (e.expecting ev).restrict id :=
    congrArg (fun e : Engine => e.learn ev) (each_restrict _ ev.time hadvance).symm
  rw [apply_eq, apply_eq, hexpecting]
  refine (each_restrict _ ev.time fun m hm => ?_).symm
  exact (Owning.each ev.time hadvance m hm).absorb _ ev _ _

theorem call_restrict (id : String) (h : e.Owning) (c : Call) : (e.restrict id).call c = (e.call c).restrict id := by
  have hclosed : (e.restrict id).closed = e.closed := rfl
  cases hc : e.closed with
  | true => rw [call_of_closed hc, call_of_closed (hclosed.trans hc)]
  | false =>
      cases c with
      | process ev =>
          rw [call, call, process_eq hc, process_eq (hclosed.trans hc), ensureStarted_restrict h]
          split
          · rfl
          · exact apply_restrict (h.ensureStarted ev.time) ev
      | advanceTo now =>
          rw [call, call, advanceTo_eq hc, advanceTo_eq (hclosed.trans hc), ensureStarted_restrict h]
          split
          · rfl
          · exact (each_restrict _ now fun m hm => (h.ensureStarted now m hm).advanceTo _ now).symm
      | shutdown now =>
          rw [call, call, shutdown_eq hc, shutdown_eq (hclosed.trans hc), ensureStarted_restrict h]
          exact congrArg (fun e : Engine => { e with closed := true })
            (each_restrict _ _ fun m hm => (h.ensureStarted now m hm).shutdown _ _).symm

theorem Owning.run (h : e.Owning) (calls : List Call) : (e.run calls).Owning := by
  induction calls generalizing e with
  | nil => exact h
  | cons c calls ih => exact ih (h.call c)

theorem run_restrict (h : e.Owning) (calls : List Call) :
    (e.restrict id).run calls = (e.run calls).restrict id := by
  induction calls generalizing e with
  | nil => rfl
  | cons c calls ih =>
      have hc := call_restrict id h c
      simp only [run, List.foldl_cons] at ih ⊢
      rw [hc]
      exact ih (h.call c)

variable {d d' : Definitions} {o : EngineOptions}

theorem compile_owning (h : compile d o = .ok e) : e.Owning := by
  obtain ⟨c, hc, rfl⟩ := compile_eq_ok.1 h
  obtain ⟨-, -, -, -, -, -, hmetrics⟩ := Definitions.compile_eq_ok.1 hc
  intro m hm
  obtain ⟨dm, -, hdm⟩ := Check.exists_of_mem_right hmetrics hm
  obtain ⟨windows, rule, gate, -, -, -, -, -, rfl⟩ := Metric.compile_eq_ok.1 hdm
  refine ⟨rfl, ?_, by simp, by simp⟩
  simp only [List.mem_map, List.mem_filter, decide_eq_true_eq]
  rintro t ⟨a, ⟨-, ha⟩, rfl⟩
  exact ha

theorem Reachable.owning (h : Reachable d o e) : e.Owning := by
  induction h with
  | compiled h => exact compile_owning h
  | call c _ _ ih => exact ih.call c
  | drain _ ih => exact ih

/-- Compiling a metric alone leaves the rest of the engine out. -/
theorem compile_forMetric? (h : compile d o = .ok e) (hd : d.forMetric? id = some d') :
    compile d' o = .ok (e.restrict id) := by
  obtain ⟨c, hc, rfl⟩ := compile_eq_ok.1 h
  exact compile_eq_ok.2 ⟨_, Definitions.compile_forMetric? hc hd, rfl⟩

end Engine

end EventMetrics
