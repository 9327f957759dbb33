import EventMetrics.Proofs.Engine.Ending
import EventMetrics.Proofs.Engine.Feeding
import EventMetrics.Proofs.Metric.Alongside

namespace EventMetrics

open Instant (Ample Movable)

def Definitions.lengths (d : Definitions) : List Int :=
  d.metrics.map (·.bucketSize) ++ d.metrics.flatMap (·.activations.map (·.ttl.toInstant)) ++
    d.alerts.map fun a => (a.refractory.map Span.toInstant).getD 0

def EngineOptions.shift (c : Int) (o : EngineOptions) : EngineOptions := { o with start := o.start.map (· + c) }

def Call.shift (c : Int) : Call → Call
  | process ev => process (ev.shift c)
  | advanceTo now => advanceTo (now + c)
  | shutdown now => shutdown (now + c)

def Engine.shift (c : Int) (e : Engine) : Engine :=
  { e with
    metrics := e.metrics.map (·.shift c)
    startTime := e.startTime.map (· + c)
    watermark := e.watermark.map (· + c)
    queue := e.queue.map (·.shift c) }

theorem Span.toInstant_nonneg (s : Span) : 0 ≤ s.toInstant := by
  simp only [toInstant, Instant.clamp, Instant.first, Instant.last]
  omega

theorem Definitions.lengths_nonneg (d : Definitions) : ∀ l ∈ d.lengths, 0 ≤ l := by
  have hgiven : ∀ s : Option Span, 0 ≤ (s.map Span.toInstant).getD 0 := by
    intro s
    cases s with
    | none => exact Int.le_refl 0
    | some s => exact s.toInstant_nonneg
  intro l hl
  simp only [lengths, List.mem_append, List.mem_map, List.mem_flatMap] at hl
  rcases hl with (⟨m, -, rfl⟩ | ⟨m, -, a, -, rfl⟩) | ⟨a, -, rfl⟩
  · exact hgiven m.bucket
  · exact a.ttl.toInstant_nonneg
  · exact hgiven a.refractory

namespace Engine

open EventMetrics.Metric (Twin Uses)

variable {d : Definitions} {o : EngineOptions} {e : Engine} {k : Call} {calls : List Call} {lengths : List Int}
  {c t reached : Int} {ev : Event}

theorem shift_of_compile {dm : Definition.Metric} {alerts : List Definition.Alert} {ms : Matchers} {cs : Conditions}
    {limit : Nat} {m : Metric} (h : Metric.compile dm alerts ms cs limit = .ok m) (c : Int) : m.shift c = m := by
  obtain ⟨windows, rule, gate, hwindows, -, -, -, -, rfl⟩ := Metric.compile_eq_ok.1 h
  have hclosed : windows.shift c = windows := by
    refine (List.map_congr_left fun a ha => ?_).trans windows.map_id
    have hnone := Activations.compile_expiry hwindows a ha
    cases a
    cases hnone
    rfl
  rw [Metric.shift, hclosed, List.map_map]
  rfl

/-- Definitions compile to the same engine, which starts later, or fail in the same way. -/
theorem compile_shift (d : Definitions) (o : EngineOptions) (c : Int) :
    compile d (o.shift c) = (compile d o).map (·.shift c) := by
  cases hc : d.compile o.dimensionLimit with
  | error r => simp only [compile, EngineOptions.shift, hc, bind, Except.bind, Except.map]
  | ok compiled =>
      obtain ⟨-, -, -, -, -, -, hmetrics⟩ := Definitions.compile_eq_ok.1 hc
      have hfresh : compiled.metrics.map (·.shift c) = compiled.metrics :=
        (List.map_congr_left fun m hm => by
          obtain ⟨dm, -, hdm⟩ := Check.exists_of_mem_right hmetrics hm
          exact shift_of_compile hdm c).trans compiled.metrics.map_id
      simp only [compile, EngineOptions.shift, hc, bind, Except.bind, Except.map, pure, Except.pure, shift, hfresh]
      rfl

theorem compile_uses (h : compile d o = .ok e) : ∀ m ∈ e.metrics, Uses d.lengths m := by
  obtain ⟨compiled, hc, rfl⟩ := compile_eq_ok.1 h
  obtain ⟨-, -, -, -, -, -, hmetrics⟩ := Definitions.compile_eq_ok.1 hc
  intro m hm
  obtain ⟨dm, hmem, hdm⟩ := Check.exists_of_mem_right hmetrics hm
  obtain ⟨windows, rule, gate, hwindows, -, -, -, -, rfl⟩ := Metric.compile_eq_ok.1 hdm
  simp only [Definitions.lengths, List.append_assoc]
  refine ⟨List.mem_append_left _ (List.mem_map_of_mem hmem), fun a ha => ?ttl, fun tr htr => ?quiet⟩
  case ttl =>
    obtain ⟨da, hda, hattl⟩ := Activations.compile_ttl hwindows a ha
    exact List.mem_append_right _ (List.mem_append_left _
      (List.mem_flatMap.2 ⟨dm, hmem, List.mem_map.2 ⟨da, hda, hattl.symm⟩⟩))
  case quiet =>
    obtain ⟨alert, halert, rfl⟩ := List.mem_map.1 htr
    exact List.mem_append_right _ (List.mem_append_right _
      (List.mem_map_of_mem (f := fun a => _) (List.mem_filter.1 halert).1))

theorem kept_uses (lengths : List Int) : Metric.Kept (Uses lengths) where
  start cs time h := h.start cs time
  absorb cs cs' ev hits u h := (h.advance cs ev.time false).absorb cs' ev hits u
  advanceTo cs now h := h.advanceTo cs now
  shutdown cs now h := h.shutdown cs now

theorem Reachable.uses (h : Reachable d o e) : ∀ m ∈ e.metrics, Uses d.lengths m := by
  induction h with
  | compiled h => exact compile_uses h
  | call k _ _ ih => exact forall_metrics_call (kept_uses d.lengths) ih k
  | drain _ ih => exact ih

theorem each_shift {f g : Metric → Emitting Metric} (h : ∀ m ∈ e.metrics, g (m.shift c) = (f m).shift c) :
    (e.shift c).each g (reached + c) = (e.each f reached).shift c := by
  have hsteps : (e.metrics.map (·.shift c)).map g = (e.metrics.map f).map (·.shift c) := by
    rw [List.map_map, List.map_map]
    exact List.map_congr_left h
  have hsettled : (e.shift c).each g (reached + c) =
      (e.shift c).settle ((e.metrics.map f).map (·.shift c)) (reached + c) :=
    congrArg (fun steps => (e.shift c).settle steps (reached + c)) hsteps
  rw [hsettled, each]
  simp only [settle, shift, List.map_map, List.map_append, List.flatMap_map, List.map_flatMap]
  rfl

theorem ensureStarted_shift (h : e.watermark = none →
      ∀ m ∈ e.metrics, Instant.Carries c (e.startTime.getD t) m.grid.size) :
    (e.shift c).ensureStarted (t + c) = ((e.ensureStarted t).1.shift c, (e.ensureStarted t).2 + c) := by
  cases hw : e.watermark with
  | some w =>
      have hw' : (e.shift c).watermark = some (w + c) := congrArg (Option.map _) hw
      rw [ensureStarted_of_some hw, ensureStarted_of_some hw']
  | none =>
      have hw' : (e.shift c).watermark = none := congrArg (Option.map _) hw
      have hstart : (e.shift c).startTime.getD (t + c) = e.startTime.getD t + c := by
        cases hs : e.startTime <;> simp [shift, hs]
      rw [ensureStarted_of_none hw, ensureStarted_of_none hw', hstart]
      refine Prod.ext (each_shift fun m hm => ?_) rfl
      exact congrArg (Emitting.mk · []) (Metric.start_shift (h hw m hm))

section

variable (hnonneg : ∀ l ∈ lengths, 0 ≤ l) (h : ∀ m ∈ e.metrics, Twin lengths c reached m)
include hnonneg h

theorem expecting_shift (hroom : Movable c lengths ev.time) (hle : reached ≤ ev.time) :
    (e.shift c).expecting (ev.shift c) = (e.expecting ev).shift c ∧
      ∀ m ∈ (e.expecting ev).metrics, Twin lengths c ev.time m := by
  refine ⟨congrArg (fun n : Engine => n.learn (ev.shift c)) (each_shift (f := (·.advance e.conditions ev.time false))
    fun m hm => ((h m hm).advance hnonneg hroom e.conditions hle).1), fun n hn => ?_⟩
  rw [expecting, learn, each_metrics] at hn
  obtain ⟨m, hm, rfl⟩ := List.mem_map.1 hn
  exact ((h m hm).advance hnonneg hroom e.conditions hle).2

theorem apply_shift (hroom : Movable c lengths ev.time) (hle : reached ≤ ev.time) :
    (e.shift c).apply (ev.shift c) = ((e.apply ev).1.shift c, (e.apply ev).2) := by
  obtain ⟨hexpecting, htwin⟩ := expecting_shift hnonneg h hroom hle
  have hcondition : (e.shift c).condition (ev.shift c) = e.condition ev := rfl
  have hhear : ∀ m ∈ (e.expecting ev).metrics,
      ((e.expecting ev).shift c).hear (ev.shift c) (e.condition ev).2 (m.shift c) =
        (((e.expecting ev).hear ev (e.condition ev).2 m).1.shift c,
          ((e.expecting ev).hear ev (e.condition ev).2 m).2) := fun m hm => by
    have hm := htwin m hm
    exact Metric.absorb_shift hm.here.toPlaced hm.there.toPlaced hm.uses hroom _ _
  have houtcomes : ((e.expecting ev).shift c).metrics.map
        (fun m => (((e.expecting ev).shift c).hear (ev.shift c) (e.condition ev).2 m).2) =
      (e.expecting ev).metrics.map fun m => ((e.expecting ev).hear ev (e.condition ev).2 m).2 := by
    refine List.map_map.trans (List.map_congr_left fun m hm => ?_)
    exact (congrArg Prod.snd (hhear m hm) :)
  rw [apply_eq, apply_eq, hexpecting, hcondition, houtcomes]
  exact Prod.ext (each_shift fun m hm => congrArg Prod.fst (hhear m hm)) rfl

end

/-- Where there is room for one more bucket, no call goes on for ever. -/
theorem Reachable.not_hangs (h : Reachable d o e) (hk : Ample d.lengths k.time) : ¬ e.Hangs k := by
  cases k with
  | process ev =>
      rintro ⟨-, hlast, m, hm, hb, -⟩
      have hsize := (h.resting m hm).size hb
      have hroom := (hk.2 _ (h.uses m hm).size).2
      simp only [Call.time] at hroom
      omega
  | advanceTo | shutdown => exact id

/-- An engine that calls have brought to some state, and would have brought to the later one some time
later. -/
structure Moved (d : Definitions) (o : EngineOptions) (c : Int) (e : Engine) : Prop where
  here : Reachable d o e
  there : Reachable d (o.shift c) (e.shift c)
  reached : ∀ w, e.watermark = some w → Movable c d.lengths w

def Startable (d : Definitions) (o : EngineOptions) (c : Int) : Prop := ∀ s, o.start = some s → Movable c d.lengths s

theorem Startable.inRange (h : Startable d o c) : o.InRange ∧ (o.shift c).InRange := by
  refine ⟨fun s hs => (h s hs).1.1, fun s hs => ?_⟩
  obtain ⟨s, hown, rfl⟩ := Option.map_eq_some_iff.1 hs
  exact (h s hown).2.1

namespace Moved

variable (h : Moved d o c e) (ho : Startable d o c)
include h ho

theorem ensureStarted (ht : Movable c d.lengths t) :
    (e.shift c).ensureStarted (t + c) = ((e.ensureStarted t).1.shift c, (e.ensureStarted t).2 + c) ∧
      Movable c d.lengths (e.ensureStarted t).2 := by
  cases hw : e.watermark with
  | some w =>
      refine ⟨ensureStarted_shift fun hnone => ?_, ?_⟩
      · cases hw.symm.trans hnone
      · rw [ensureStarted_of_some hw]
        exact h.reached w hw
  | none =>
      have hstart : Movable c d.lengths (e.startTime.getD t) := by
        cases hs : e.startTime with
        | none => exact ht
        | some s => exact ho s ((h.here.fresh hw).2.1 ▸ hs)
      refine ⟨ensureStarted_shift fun _ m hm => hstart.carries_self (h.here.uses m hm).size, ?_⟩
      rw [ensureStarted_of_none hw]
      exact hstart

theorem twins (hopen : e.closed = false) (ht : Movable c d.lengths t) :
    ∀ m ∈ (e.ensureStarted t).1.metrics, Twin d.lengths c (e.ensureStarted t).2 m := by
  have hstanding := h.here.standing ho.inRange.1 hopen ht.1.1
  have hstanding' := h.there.standing ho.inRange.2 hopen ht.2.1
  rw [(h.ensureStarted ho ht).1] at hstanding'
  have huses := forall_metrics_start (kept_uses d.lengths) h.here.uses t
  intro m hm
  exact ⟨(hstanding.settled m hm).toOnTime, (hstanding'.settled _ (List.mem_map_of_mem hm)).toOnTime, huses m hm⟩

theorem process (hk : Movable c d.lengths ev.time) :
    (e.shift c).process (ev.shift c) = ((e.process ev).1.shift c, (e.process ev).2) := by
  cases hopen : e.closed with
  | true =>
      have hopen' : (e.shift c).closed = true := hopen
      simp only [Engine.process, hopen, hopen', if_true]
  | false =>
      have hopen' : (e.shift c).closed = false := hopen
      have hlate : ev.time + c < (e.ensureStarted ev.time).2 + c ↔ ev.time < (e.ensureStarted ev.time).2 :=
        Int.add_lt_add_iff_right c
      have htime : (ev.shift c).time = ev.time + c := rfl
      rw [process_eq hopen, process_eq hopen', htime, (h.ensureStarted ho hk).1]
      simp only [hlate]
      split
      next => rfl
      next hle => exact apply_shift d.lengths_nonneg (h.twins ho hopen hk) hk (Int.not_lt.1 hle)

theorem advanceTo {now : Int} (hk : Movable c d.lengths now) :
    (e.shift c).advanceTo (now + c) = (e.advanceTo now).shift c := by
  cases hopen : e.closed with
  | true =>
      have hopen' : (e.shift c).closed = true := hopen
      simp only [Engine.advanceTo, hopen, hopen', if_true]
  | false =>
      have hopen' : (e.shift c).closed = false := hopen
      have hbehind : now + c < (e.ensureStarted now).2 + c ↔ now < (e.ensureStarted now).2 :=
        Int.add_lt_add_iff_right c
      rw [advanceTo_eq hopen, advanceTo_eq hopen', (h.ensureStarted ho hk).1]
      simp only [hbehind]
      split
      next => rfl
      next hle =>
        exact each_shift fun m hm => (h.twins ho hopen hk m hm).advanceTo d.lengths_nonneg hk (Int.not_lt.1 hle)

theorem shutdown {now : Int} (hk : Movable c d.lengths now) :
    (e.shift c).shutdown (now + c) = (e.shutdown now).shift c := by
  cases hopen : e.closed with
  | true =>
      have hopen' : (e.shift c).closed = true := hopen
      simp only [Engine.shutdown, hopen, hopen', if_true]
  | false =>
      have hopen' : (e.shift c).closed = false := hopen
      obtain ⟨hstarted, hreached⟩ := h.ensureStarted ho hk
      have hmax : max (now + c) ((e.ensureStarted now).2 + c) = max now (e.ensureStarted now).2 + c := by omega
      rw [shutdown_eq hopen, shutdown_eq hopen', hstarted]
      simp only [hmax]
      refine congrArg (fun n : Engine => { n with closed := true }) (each_shift fun m hm => ?_)
      exact (h.twins ho hopen hk m hm).shutdown d.lengths_nonneg (hk.max hreached) (Int.le_max_right _ _)

theorem call_eq (hk : Movable c d.lengths k.time) : (e.shift c).call (k.shift c) = (e.call k).shift c := by
  cases k with
  | process ev => exact congrArg Prod.fst (h.process ho hk)
  | advanceTo now => exact h.advanceTo ho hk
  | shutdown now => exact h.shutdown ho hk

theorem call (hk : Movable c d.lengths k.time) : Moved d o c (e.call k) := by
  refine ⟨h.here.call k hk.1.1, ?_, ?_⟩
  · have hthere := h.there.call (k.shift c) (by cases k <;> exact hk.2.1)
    rwa [h.call_eq ho hk] at hthere
  · cases hopen : e.closed with
    | true => exact (call_of_closed hopen k).symm ▸ h.reached
    | false =>
        have hreached := (h.ensureStarted ho hk).2
        have hmark := ensureStarted_watermark e k.time
        have hmoves := call_moves hopen k
        generalize e.call k = e' at hmoves
        cases hmoves with
        | late ev | behind now =>
            intro w hw
            cases hmark.symm.trans hw
            exact hreached
        | process ev =>
            intro w hw
            cases (apply_watermark _ ev).symm.trans hw
            exact hk
        | advanceTo now =>
            rintro _ ⟨⟩
            exact hk
        | shutdown now =>
            rintro _ ⟨⟩
            exact hk.max hreached

theorem run (hcalls : ∀ k ∈ calls, Movable c d.lengths k.time) :
    (e.shift c).run (calls.map (·.shift c)) = (e.run calls).shift c ∧
      (e.shift c).answers (calls.map (·.shift c)) = e.answers calls ∧
      e.Ends calls ∧ (e.shift c).Ends (calls.map (·.shift c)) := by
  induction calls generalizing e with
  | nil => exact ⟨rfl, rfl, trivial, trivial⟩
  | cons k calls ih =>
      have hk := hcalls k List.mem_cons_self
      have hcall := h.call_eq ho hk
      obtain ⟨hrun, hanswers, hends, hends'⟩ := ih (h.call ho hk) fun k hk => hcalls k (List.mem_cons_of_mem _ hk)
      have hgo' : ¬ (e.shift c).Hangs (k.shift c) :=
        h.there.not_hangs (by cases k <;> exact hk.2)
      refine ⟨?run, ?answers, ⟨h.here.not_hangs hk.1, hends⟩, ⟨hgo', hcall ▸ hends'⟩⟩
      case run =>
        rw [List.map_cons, Engine.run, List.foldl_cons, hcall]
        exact hrun
      case answers =>
        rw [← hcall] at hanswers
        cases k with
        | process ev => exact congrArg₂ List.cons (congrArg Prod.snd (h.process ho hk) :) hanswers
        | advanceTo now => exact hanswers
        | shutdown now => exact hanswers

end Moved

/-- With room after the start and after every call, an engine that starts later and gets its calls later by as
much gives the same answers and comes to the same state, later by as much, with all the records that it emits;
both runs end. -/
theorem run_later (h : compile d o = .ok e) (hstart : ∀ s, o.start = some s → Movable c d.lengths s)
    (hcalls : ∀ k ∈ calls, Movable c d.lengths k.time) :
    ∃ e', compile d (o.shift c) = .ok e' ∧ e'.answers (calls.map (·.shift c)) = e.answers calls ∧
      (e'.run (calls.map (·.shift c))).queue = (e.run calls).queue.map (·.shift c) ∧
      e.run? calls = some (e.run calls) ∧ e'.run? (calls.map (·.shift c)) = some ((e.run calls).shift c) := by
  have hlater : compile d (o.shift c) = .ok (e.shift c) := by
    rw [compile_shift, h]
    rfl
  have hmoved : Moved d o c e := ⟨.compiled h, .compiled hlater, fun w hw => by
    obtain ⟨compiled, -, rfl⟩ := compile_eq_ok.1 h
    cases hw⟩
  obtain ⟨hrun, hanswers, hends, hends'⟩ := hmoved.run hstart hcalls
  have hrange := Startable.inRange hstart
  refine ⟨e.shift c, hlater, hanswers, congrArg Engine.queue hrun, ?here, ?there⟩
  case here => exact (run?_eq_some hmoved.here hrange.1 fun k hk => (hcalls k hk).1.1).2 ⟨hends, rfl⟩
  case there =>
    refine (run?_eq_some hmoved.there hrange.2 fun k' hk' => ?_).2 ⟨hends', hrun⟩
    obtain ⟨k, hk, rfl⟩ := List.mem_map.1 hk'
    cases k <;> exact (hcalls _ hk).2.1

def epochVisits : List Call := [.process { atom := 1, time := -2 }, .process { atom := 2, time := 60000000000 },
  .process { atom := 1, time := 0 }, .advanceTo 120000000000, .shutdown 130000000000]

/-- The same visits three minutes earlier. -/
theorem run_later_doors : ∃ e e', compile doors { start := some (-5) } = .ok e ∧
    compile doors { start := some (-180000000005) } = .ok e' ∧
    (e'.run (epochVisits.map (·.shift (-180000000000)))).queue =
      (e.run epochVisits).queue.map (·.shift (-180000000000)) ∧
    (e.run epochVisits).queue.length = 6 ∧
    e'.answers (epochVisits.map (·.shift (-180000000000))) = [.accepted, .accepted, .dropped .outOfOrder] := by
  obtain ⟨e, he, hlength, hanswers⟩ : ∃ e, compile doors { start := some (-5) } = .ok e ∧
      (e.run epochVisits).queue.length = 6 ∧
      e.answers epochVisits = [.accepted, .accepted, .dropped .outOfOrder] :=
    ⟨_, rfl, by decide +kernel, by decide +kernel⟩
  have hstart : ∀ s, some (-5) = some s → Movable (-180000000000) doors.lengths s := by
    rintro _ ⟨⟩
    decide
  obtain ⟨e', he', hsame, hqueue, -⟩ := run_later he hstart (show ∀ k ∈ epochVisits, _ by decide)
  exact ⟨e, e', he, he', hqueue, hlength, hsame.trans hanswers⟩

end Engine

end EventMetrics
