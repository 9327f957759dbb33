import EventMetrics.Proofs.Engine.Run

namespace EventMetrics

structure Metric.Kept (P : Metric → Prop) : Prop where
  start {m} (cs : Conditions) (time : Int) : P m → P (m.start cs time)
  absorb {m} (cs cs' : Conditions) (ev : Event) (hits : Hits) (u : Condition.Update) : P m →
    P ((m.advance cs ev.time false).state.absorb cs' ev hits u).1.state
  advanceTo {m} (cs : Conditions) (now : Int) : P m → P (m.advanceTo cs now).state
  shutdown {m} (cs : Conditions) (now : Int) : P m → P (m.shutdown cs now).state

namespace Engine

variable {e : Engine}

def each (e : Engine) (f : Metric → Emitting Metric) (reached : Int) : Engine :=
  e.settle (e.metrics.map f) reached

@[simp] theorem each_metrics (e : Engine) (f : Metric → Emitting Metric) (reached : Int) :
    (e.each f reached).metrics = e.metrics.map fun m => (f m).state := by
  simp [each, settle, Function.comp_def]

@[simp] theorem each_queue (e : Engine) (f : Metric → Emitting Metric) (reached : Int) :
    (e.each f reached).queue = e.queue ++ e.metrics.flatMap fun m => (f m).records := by
  simp [each, settle, List.flatMap_map]

theorem each_idle {f : Metric → Emitting Metric} (hf : ∀ m ∈ e.metrics, f m = ⟨m, []⟩) (reached : Int) :
    e.each f reached = { e with watermark := some reached } := by
  have hsteps : e.metrics.map f = e.metrics.map (⟨·, []⟩) := List.map_congr_left hf
  simp only [each, settle, hsteps]
  simp [Function.comp_def, List.flatMap_map]

theorem ensureStarted_of_some {w : Int} (h : e.watermark = some w) (time : Int) :
    e.ensureStarted time = (e, w) := by
  simp [ensureStarted, h]

theorem ensureStarted_of_none (h : e.watermark = none) (time : Int) : e.ensureStarted time =
    (e.each (fun m => ⟨m.start e.conditions (e.startTime.getD time), []⟩) (e.startTime.getD time),
      e.startTime.getD time) := by
  have hnil : (e.metrics.flatMap fun _ => ([] : List Record)) = [] :=
    List.flatMap_eq_nil_iff.2 fun _ _ => rfl
  simp [ensureStarted, h, each, settle, Function.comp_def, List.flatMap_map, hnil]

def condition (e : Engine) (ev : Event) : Conditions × Condition.Update :=
  e.conditions.onEvent ev (e.matchers.judge ev)

def learn (e : Engine) (ev : Event) : Engine :=
  { e with
    conditions := (e.condition ev).1
    processed := e.processed + 1
    drops := (e.condition ev).2.dropped.foldl (fun c d => c.record d.2) e.drops }

def expecting (e : Engine) (ev : Event) : Engine :=
  (e.each (·.advance e.conditions ev.time false) ev.time).learn ev

def hear (e : Engine) (ev : Event) (u : Condition.Update) (m : Metric) : Emitting Metric × Outcome :=
  m.absorb e.conditions ev (e.matchers.judge ev) u

theorem apply_eq (e : Engine) (ev : Event) : e.apply ev =
    ((e.expecting ev).each (fun m => ((e.expecting ev).hear ev (e.condition ev).2 m).1) ev.time,
      verdict ((e.expecting ev).metrics.map fun m => ((e.expecting ev).hear ev (e.condition ev).2 m).2)
        (e.condition ev).2) := by
  simp only [apply, conclude, each, settle, expecting, learn, condition, hear, List.map_map, Function.comp_def]

theorem process_eq (hc : e.closed = false) (ev : Event) : e.process ev =
    if ev.time < (e.ensureStarted ev.time).2 then
      ({ (e.ensureStarted ev.time).1 with
          drops := (e.ensureStarted ev.time).1.drops.record .outOfOrder }, .dropped .outOfOrder)
    else (e.ensureStarted ev.time).1.apply ev := by
  simp [process, hc]

theorem advanceTo_eq (hc : e.closed = false) (now : Int) : e.advanceTo now =
    if now < (e.ensureStarted now).2 then (e.ensureStarted now).1
    else (e.ensureStarted now).1.each (·.advanceTo (e.ensureStarted now).1.conditions now) now := by
  simp [advanceTo, hc, each]

theorem shutdown_eq (hc : e.closed = false) (now : Int) : e.shutdown now =
    { (e.ensureStarted now).1.each (·.shutdown (e.ensureStarted now).1.conditions
        (max now (e.ensureStarted now).2)) (max now (e.ensureStarted now).2) with closed := true } := by
  simp [shutdown, hc, each]

theorem call_of_closed (hc : e.closed = true) (c : Call) : e.call c = e := by
  cases c <;> simp [call, process, advanceTo, shutdown, hc]

theorem run_of_closed (hc : e.closed = true) (calls : List Call) : e.run calls = e := by
  induction calls with
  | nil => rfl
  | cons c calls ih => rwa [run, List.foldl_cons, call_of_closed hc, ← run]

theorem ensureStarted_watermark (e : Engine) (t : Int) :
    (e.ensureStarted t).1.watermark = some (e.ensureStarted t).2 := by
  cases hw : e.watermark with
  | some w => rw [ensureStarted_of_some hw, hw]
  | none => rw [ensureStarted_of_none hw]; rfl

theorem ensureStarted_closed (e : Engine) (t : Int) : (e.ensureStarted t).1.closed = e.closed := by
  cases hw : e.watermark with
  | some w => rw [ensureStarted_of_some hw]
  | none => rw [ensureStarted_of_none hw]; rfl

theorem ensureStarted_conditions (e : Engine) (t : Int) : (e.ensureStarted t).1.conditions = e.conditions := by
  cases hw : e.watermark with
  | some w => rw [ensureStarted_of_some hw]
  | none => rw [ensureStarted_of_none hw]; rfl

theorem ensureStarted_matchers (e : Engine) (t : Int) : (e.ensureStarted t).1.matchers = e.matchers := by
  cases hw : e.watermark with
  | some w => rw [ensureStarted_of_some hw]
  | none => rw [ensureStarted_of_none hw]; rfl

theorem ensureStarted_processed (e : Engine) (t : Int) : (e.ensureStarted t).1.processed = e.processed := by
  cases hw : e.watermark with
  | some w => rw [ensureStarted_of_some hw]
  | none => rw [ensureStarted_of_none hw]; rfl

theorem ensureStarted_max (e : Engine) (now : Int) :
    e.ensureStarted (max now (e.ensureStarted now).2) = e.ensureStarted now := by
  cases hw : e.watermark with
  | some w => rw [ensureStarted_of_some hw, ensureStarted_of_some hw]
  | none => cases hs : e.startTime <;> simp [ensureStarted_of_none hw, hs]

theorem advanceTo_max (hc : e.closed = false) (now : Int) : e.advanceTo (max now (e.ensureStarted now).2) =
    (e.ensureStarted now).1.each (·.advanceTo (e.ensureStarted now).1.conditions
      (max now (e.ensureStarted now).2)) (max now (e.ensureStarted now).2) := by
  rw [advanceTo_eq hc, ensureStarted_max, if_neg (Int.not_lt.2 (Int.le_max_right _ _))]

theorem process_started (hc : e.closed = false) (ev : Event) :
    (e.ensureStarted ev.time).1.process ev = e.process ev := by
  have hmark := ensureStarted_of_some (ensureStarted_watermark e ev.time)
  rw [process_eq hc, process_eq ((ensureStarted_closed e ev.time).trans hc), hmark]

theorem call_started (hc : e.closed = false) (c : Call) : (e.ensureStarted c.time).1.call c = e.call c := by
  have hmark := ensureStarted_of_some (ensureStarted_watermark e c.time)
  have hclosed := (ensureStarted_closed e c.time).trans hc
  cases c with
  | process ev => exact congrArg Prod.fst (process_started hc ev)
  | advanceTo now => rw [call, call, advanceTo_eq hc, advanceTo_eq hclosed, hmark]; rfl
  | shutdown now => rw [call, call, shutdown_eq hc, shutdown_eq hclosed, hmark]; rfl

/-- Metrics keep their places, and what every call keeps of them. -/
def Keeps (e e' : Engine) : Prop := ∃ f : Metric → Metric, e'.metrics = e.metrics.map f ∧
  ∀ P, Metric.Kept P → ∀ m, P m → P (f m)

theorem Keeps.refl : Keeps e e := ⟨id, by simp, fun _ _ _ h => h⟩

theorem Keeps.each {e' : Engine} {g : Metric → Emitting Metric} (h : Keeps e e') (reached : Int)
    (hg : ∀ P, Metric.Kept P → ∀ m, P m → P (g m).state) : Keeps e (e'.each g reached) := by
  obtain ⟨f, hf, hkept⟩ := h
  refine ⟨fun m => (g (f m)).state, ?_, fun P hP m h => hg P hP _ (hkept P hP m h)⟩
  simp [hf]

theorem keeps_start (e : Engine) (time : Int) : Keeps e (e.ensureStarted time).1 := by
  cases hw : e.watermark with
  | some w => exact ensureStarted_of_some hw time ▸ .refl
  | none => exact ensureStarted_of_none hw time ▸ Keeps.refl.each _ fun P hP m h => hP.start _ _ h

theorem Keeps.apply {e' : Engine} (h : Keeps e e') (ev : Event) : Keeps e (e'.apply ev).1 := by
  obtain ⟨f, hf, hkept⟩ := h
  refine ⟨fun m => ((e'.expecting ev).hear ev (e'.condition ev).2
    ((f m).advance e'.conditions ev.time false).state).1.state, ?_, ?_⟩
  · simp [apply_eq, expecting, learn, hf]
  · exact fun P hP m h => hP.absorb _ _ _ _ _ (hkept P hP m h)

theorem keeps_call (e : Engine) (c : Call) : Keeps e (e.call c) := by
  cases hc : e.closed with
  | true => exact (call_of_closed hc c).symm ▸ .refl
  | false =>
      cases c with
      | process ev =>
          rw [call, process_eq hc]
          split
          · exact keeps_start e ev.time
          · exact (keeps_start e ev.time).apply ev
      | advanceTo now =>
          rw [call, advanceTo_eq hc]
          split
          · exact keeps_start e now
          · exact (keeps_start e now).each _ fun P hP m h => hP.advanceTo _ _ h
      | shutdown now =>
          rw [call, shutdown_eq hc]
          exact (keeps_start e now).each (max now (e.ensureStarted now).2) fun P hP m h => hP.shutdown _ _ h

theorem forall_metrics_start {P : Metric → Prop} (hP : Metric.Kept P) (h : ∀ m ∈ e.metrics, P m)
    (time : Int) : ∀ m ∈ (e.ensureStarted time).1.metrics, P m := by
  obtain ⟨f, hf, hkept⟩ := keeps_start e time
  rw [hf]
  intro n hn
  obtain ⟨m, hm, rfl⟩ := List.mem_map.1 hn
  exact hkept P hP m (h m hm)

theorem forall_metrics_call {P : Metric → Prop} (hP : Metric.Kept P) (h : ∀ m ∈ e.metrics, P m)
    (c : Call) : ∀ m ∈ (e.call c).metrics, P m := by
  obtain ⟨f, hf, hkept⟩ := keeps_call e c
  rw [hf]
  intro n hn
  obtain ⟨m, hm, rfl⟩ := List.mem_map.1 hn
  exact hkept P hP m (h m hm)

end Engine

end EventMetrics
