import EventMetrics.Proofs.Counters
import EventMetrics.Proofs.Engine.Checked
import EventMetrics.Service.Tasks

namespace EventMetrics

open Checked (result?_eq_some)
open Pipeline (Input)

namespace Pipeline

variable {p q : Pipeline} {x : Input} {xs ys : List Input} {records : List Record} {t : Step}

theorem drive_cons (p : Pipeline) (x : Input) (xs : List Input) : p.drive (x :: xs) = (p.step x).bind fun t =>
    if x.isFinish then some (t.pipeline, t.records)
    else (t.pipeline.drive xs).map fun r => (r.1, t.records ++ r.2) := by
  rw [drive]
  cases p.step x with
  | none => rfl
  | some t =>
      cases hx : x.isFinish
      · cases hd : t.pipeline.drive xs <;> simp [hd]
      · simp

theorem drive_append_of_finish (h : ∃ x ∈ xs, x.isFinish = true) (ys : List Input) :
    p.drive (xs ++ ys) = p.drive xs := by
  induction xs generalizing p with
  | nil => simp at h
  | cons x xs ih =>
      rw [List.cons_append, drive_cons, drive_cons]
      congr 1
      funext t
      by_cases hx : x.isFinish = true
      · rw [if_pos hx, if_pos hx]
      · rw [if_neg hx, if_neg hx, ih]
        obtain ⟨y, hy, hfinish⟩ := h
        exact ⟨y, (List.mem_cons.1 hy).resolve_left fun heq => hx (heq ▸ hfinish), hfinish⟩

theorem drive_concat (h : ∀ x ∈ xs, x.isFinish = false) (hdrive : p.drive xs = some (q, records))
    (hstep : q.step x = some t) : p.drive (xs ++ [x]) = some (t.pipeline, records ++ t.records) := by
  induction xs generalizing p records with
  | nil =>
      cases hdrive
      rw [List.nil_append, drive_cons, hstep, List.nil_append]
      cases hx : x.isFinish <;> simp [drive]
  | cons y ys ih =>
      obtain ⟨hy, hys⟩ := List.forall_mem_cons.1 h
      rw [drive_cons, Option.bind_eq_some_iff] at hdrive
      obtain ⟨u, hu, hrest⟩ := hdrive
      rw [hy, if_neg Bool.false_ne_true, Option.map_eq_some_iff] at hrest
      obtain ⟨⟨q', records'⟩, hdrive, heq⟩ := hrest
      cases heq
      rw [List.cons_append, drive_cons, hu, Option.bind_some, hy, if_neg Bool.false_ne_true, ih hys hdrive,
        Option.map_some, List.append_assoc]

theorem step_finish {d : Definitions} {o : EngineOptions} (hp : Engine.Reachable d o p.engine) (ho : o.InRange)
    {now : Int} (hnow : Instant.InRange now) (hfits : p.engine.callFits (.shutdown now) = true) :
    p.step (.finish (some now)) = some (p.forward (p.engine.shutdown now) none) := by
  have hshutdown : (p.engine.shutdown! now).result? = some (p.engine.shutdown now) := by
    rw [result?_eq_some, Engine.shutdown!_eq hp ho hnow, hfits]
    rfl
  simp [step, hshutdown]

structure Lone (p : Pipeline) : Prop where
  reachable : ∃ d o, Engine.Reachable d o p.engine ∧ o.InRange
  alone : p.engine.restrict p.metric = p.engine

theorem step_cases (h : p.step x = some t) (hx : x.InRange)
    (hmark : ∀ w, p.engine.watermark = some w → Instant.InRange w) :
    t = { pipeline := p } ∨ ∃ c e, c.InRange ∧ p.engine.call? c = some e ∧
      t.pipeline = { p with engine := e.drain.1 } ∧ t.records = e.queue := by
  cases x with
  | event ev =>
      rw [step] at h
      obtain ⟨⟨e, ingest⟩, he, h⟩ := Option.bind_eq_some_iff.1 h
      have hprocess := Engine.process!_eq_pure (result?_eq_some.1 he)
      refine .inr ⟨.process ev, e, hx, by rw [Engine.call?, hprocess]; rfl, ?_⟩
      cases ingest <;> cases h <;> exact ⟨rfl, rfl⟩
  | tick now =>
      rw [step] at h
      obtain ⟨e, he, h⟩ := Option.bind_eq_some_iff.1 h
      cases h
      exact .inr ⟨.advanceTo now, e, hx, Engine.advanceTo!_eq_pure (result?_eq_some.1 he), rfl, rfl⟩
  | finish time =>
      rw [step] at h
      split at h
      · next now hnow =>
        obtain ⟨e, he, h⟩ := Option.bind_eq_some_iff.1 h
        cases h
        refine .inr ⟨.shutdown now, e, ?_, Engine.shutdown!_eq_pure (result?_eq_some.1 he), rfl, rfl⟩
        rcases Option.or_eq_some_iff.1 hnow with htime | ⟨-, hmarked⟩
        · exact hx now htime
        · exact hmark now hmarked
      · cases h
        exact .inl rfl

theorem Lone.step (h : p.Lone) (hstep : p.step x = some t) (hx : x.InRange) :
    t.pipeline.metric = p.metric ∧ t.pipeline.Lone ∧ ∀ r ∈ t.records, r.metric = p.metric := by
  obtain ⟨d, o, hreach, ho⟩ := h.reachable
  obtain rfl | ⟨c, e, hc, he, hp, hr⟩ := step_cases hstep hx (hreach.watermark_inRange ho)
  · exact ⟨rfl, h, by simp⟩
  · obtain ⟨-, rfl⟩ := (Engine.call?_eq_some hreach ho hc).1 he
    have halone : (p.engine.call c).restrict p.metric = p.engine.call c := by
      rw [← Engine.call_restrict p.metric hreach.owning c, h.alone]
    rw [hp, hr]
    refine ⟨rfl, ⟨⟨d, o, (hreach.call c hc).drain, ho⟩, ?_⟩, fun r hmem => ?_⟩
    · exact congrArg (fun e : Engine => { e with queue := [] }) halone
    · rw [← halone] at hmem
      exact of_decide_eq_true (List.mem_filter.1 hmem).2

end Pipeline

namespace Happening

def task? : Happening → Option Nat
  | sent i _ | taken i _ | handed i _ _ => some i
  | received _ | ended => none

def sent? (i : Nat) : Happening → Option Input
  | sent j x => if j = i then some x else none
  | _ => none

def taken? (i : Nat) : Happening → Option Input
  | taken j x => if j = i then some x else none
  | _ => none

def handed? (i : Nat) : Happening → Option (Record × Bool)
  | handed j r kept => if j = i then some (r, kept) else none
  | _ => none

def stored? : Happening → Option Record
  | handed _ r true => some r
  | _ => none

def received? : Happening → Option Record
  | received r => some r
  | _ => none

variable {i : Nat} {h : Happening}

theorem sent?_of_other (hi : h.task? ≠ some i) : h.sent? i = none := by
  cases h <;> simp_all [task?, sent?]

theorem taken?_of_other (hi : h.task? ≠ some i) : h.taken? i = none := by
  cases h <;> simp_all [task?, taken?]

theorem handed?_of_other (hi : h.task? ≠ some i) : h.handed? i = none := by
  cases h <;> simp_all [task?, handed?]

end Happening

namespace Task

/-- What a step does to one task. -/
inductive Moves (i : Nat) (t : Task) : Happening → Task → Prop
  | sent {x : Input} (isOpen : Bool) : x.InRange →
      Moves i t (.sent i x) { t with inbox := t.inbox ++ [x], isOpen }
  | taken {x : Input} {rest : List Input} {step : Pipeline.Step} : t.isEnding = false → t.leaving = [] →
      t.inbox = x :: rest → t.pipeline.step x = some step →
      Moves i t (.taken i x) { t with
        pipeline := step.pipeline, inbox := rest, leaving := step.records, isEnding := x.isFinish }
  | handed {r : Record} {rest : List Record} (kept : Bool) : t.leaving = r :: rest →
      Moves i t (.handed i r kept) { t with leaving := rest }
  | other {h : Happening} : h.task? ≠ some i → Moves i t h t

end Task

namespace Tasks

variable {s s' : Tasks} {h : Happening} {hs : List Happening} {i : Nat} {t t' : Task} {p : Pipeline}

def inputs (i : Nat) (hs : List Happening) : List Input := hs.filterMap (·.sent? i)

def taken (i : Nat) (hs : List Happening) : List Input := hs.filterMap (·.taken? i)

/-- The records that a task handed over, each with whether it found room. -/
def handed (i : Nat) (hs : List Happening) : List (Record × Bool) := hs.filterMap (·.handed? i)

def emitted (i : Nat) (hs : List Happening) : List Record := (handed i hs).map (·.1)

def kept (i : Nat) (hs : List Happening) : List Record := ((handed i hs).filter (·.2)).map (·.1)

def lost (i : Nat) (hs : List Happening) : List Record := ((handed i hs).filter (!·.2)).map (·.1)

def stored (hs : List Happening) : List Record := hs.filterMap (·.stored?)

def received (hs : List Happening) : List Record := hs.filterMap (·.received?)

theorem Step.moves (hstep : Step s h s') (ht' : s'.tasks[i]? = some t') :
    ∃ t, s.tasks[i]? = some t ∧ t.Moves i h t' := by
  -- a step writes back the task that it read, and leaves the others
  have hset : ∀ {j : Nat} {u u' : Task}, s.tasks[j]? = some u → (s.tasks.set j u')[i]? = some t' →
      (j = i ∧ s.tasks[i]? = some u ∧ t' = u') ∨ (j ≠ i ∧ s.tasks[i]? = some t') := by
    intro j u u' hu hset
    rw [List.getElem?_set] at hset
    by_cases hj : j = i
    · subst hj
      obtain ⟨hlt, -⟩ := List.getElem?_eq_some_iff.1 hu
      rw [if_pos rfl, if_pos hlt] at hset
      exact .inl ⟨rfl, hu, (Option.some.inj hset).symm⟩
    · rw [if_neg hj] at hset
      exact .inr ⟨hj, hset⟩
  have hother : ∀ {j : Nat}, j ≠ i → some j ≠ some i := fun hj heq => hj (Option.some.inj heq)
  cases hstep with
  | send hu hdone hopen hroom hx =>
      rcases hset hu ht' with ⟨rfl, hu, rfl⟩ | ⟨hj, hu⟩
      · exact ⟨_, hu, .sent _ hx⟩
      · exact ⟨_, hu, .other (hother hj)⟩
  | take hu hending hleaving hhead hp =>
      rcases hset hu ht' with ⟨rfl, hu, rfl⟩ | ⟨hj, hu⟩
      · exact ⟨_, hu, .taken hending hleaving (List.eq_cons_of_mem_head? hhead) hp⟩
      · exact ⟨_, hu, .other (hother hj)⟩
  | hand hu hhead =>
      rcases hset hu ht' with ⟨rfl, hu, rfl⟩ | ⟨hj, hu⟩
      · exact ⟨_, hu, .handed _ (List.eq_cons_of_mem_head? hhead)⟩
      · exact ⟨_, hu, .other (hother hj)⟩
  | receive | ended => exact ⟨t', ht', .other (by simp [Happening.task?])⟩

end Tasks

/-- A task that has come to where its pipeline comes to by itself, but for the records that still leave. -/
structure Task.Faithful (p : Pipeline) (i : Nat) (hs : List Happening) (t : Task) : Prop where
  metric : t.pipeline.metric = p.metric
  lone : t.pipeline.Lone
  leaving : ∀ r ∈ t.leaving, r.metric = p.metric
  inRange : ∀ x ∈ t.inbox, x.InRange
  fifo : Tasks.inputs i hs = Tasks.taken i hs ++ t.inbox
  driven : p.drive (Tasks.taken i hs) = some (t.pipeline, Tasks.emitted i hs ++ t.leaving)
  ending : t.isEnding = true ↔ ∃ x ∈ Tasks.taken i hs, x.isFinish = true

namespace Task.Faithful

open Tasks

variable {p : Pipeline} {i : Nat} {h : Happening} {hs : List Happening} {t t' : Task}

theorem start (hp : p.Lone) : Faithful p i [] { pipeline := p } where
  metric := rfl
  lone := hp
  leaving := by simp
  inRange := by simp
  fifo := rfl
  driven := rfl
  ending := by simp [taken]

theorem move (hf : Faithful p i hs t) (hmove : t.Moves i h t') : Faithful p i (hs ++ [h]) t' := by
  cases hmove with
  | @sent x isOpen hx =>
      have hinputs : inputs i (hs ++ [.sent i x]) = inputs i hs ++ [x] := by simp [inputs, Happening.sent?]
      have htaken : taken i (hs ++ [.sent i x]) = taken i hs := by simp [taken, Happening.taken?]
      have hemitted : emitted i (hs ++ [.sent i x]) = emitted i hs := by simp [emitted, handed, Happening.handed?]
      refine ⟨hf.metric, hf.lone, hf.leaving, ?_, ?_, ?_, ?_⟩
      · exact List.forall_mem_append.2 ⟨hf.inRange, by simpa using hx⟩
      · rw [hinputs, htaken, hf.fifo, List.append_assoc]
      · rw [htaken, hemitted, hf.driven]
      · rw [htaken, hf.ending]
  | @taken x rest step hending hleaving hinbox hstep =>
      have hinputs : inputs i (hs ++ [.taken i x]) = inputs i hs := by simp [inputs, Happening.sent?]
      have htaken : Tasks.taken i (hs ++ [.taken i x]) = Tasks.taken i hs ++ [x] := by
        simp [Tasks.taken, Happening.taken?]
      have hemitted : emitted i (hs ++ [.taken i x]) = emitted i hs := by simp [emitted, handed, Happening.handed?]
      have hwaits := List.forall_mem_cons.1 (hinbox ▸ hf.inRange)
      have hbefore : ∀ y ∈ Tasks.taken i hs, y.isFinish = false := fun y hy =>
        Bool.eq_false_iff.2 fun hfinish => Bool.false_ne_true (hending ▸ hf.ending.2 ⟨y, hy, hfinish⟩)
      obtain ⟨hmetric, hlone, hrecords⟩ := hf.lone.step hstep hwaits.1
      refine ⟨hmetric.trans hf.metric, hlone, fun r hr => (hrecords r hr).trans hf.metric, hwaits.2, ?_, ?_, ?_⟩
      · rw [hinputs, htaken, hf.fifo, hinbox, List.append_assoc, List.singleton_append]
      · rw [htaken, hemitted, Pipeline.drive_concat hbefore hf.driven hstep, hleaving, List.append_nil]
      · rw [htaken]
        constructor
        · exact fun hx => ⟨x, List.mem_concat_self, hx⟩
        · rintro ⟨y, hy, hfinish⟩
          obtain hy | hy := List.mem_append.1 hy
          · exact absurd hfinish (by simp [hbefore y hy])
          · exact List.mem_singleton.1 hy ▸ hfinish
  | @handed r rest kept hleaving =>
      have hinputs : inputs i (hs ++ [.handed i r kept]) = inputs i hs := by simp [inputs, Happening.sent?]
      have htaken : taken i (hs ++ [.handed i r kept]) = taken i hs := by simp [taken, Happening.taken?]
      have hemitted : emitted i (hs ++ [.handed i r kept]) = emitted i hs ++ [r] := by
        simp [emitted, Tasks.handed, Happening.handed?]
      refine ⟨hf.metric, hf.lone, fun x hx => hf.leaving x (hleaving ▸ List.mem_cons_of_mem r hx), hf.inRange,
        ?_, ?_, ?_⟩
      · rw [hinputs, htaken, hf.fifo]
      · rw [htaken, hemitted, hf.driven, hleaving, List.append_assoc, List.singleton_append]
      · rw [htaken, hf.ending]
  | other hi =>
      have hinputs : inputs i (hs ++ [h]) = inputs i hs := by simp [inputs, Happening.sent?_of_other hi]
      have htaken : taken i (hs ++ [h]) = taken i hs := by simp [taken, Happening.taken?_of_other hi]
      have hemitted : emitted i (hs ++ [h]) = emitted i hs := by
        simp [emitted, handed, Happening.handed?_of_other hi]
      exact ⟨hf.metric, hf.lone, hf.leaving, hf.inRange, by rw [hinputs, htaken, hf.fifo],
        by rw [htaken, hemitted, hf.driven], by rw [htaken, hf.ending]⟩

theorem drive (hf : Faithful p i hs t) (hdone : t.isDone = true) :
    p.drive (inputs i hs) = some (t.pipeline, emitted i hs) := by
  obtain ⟨hending, hleaving⟩ := Bool.and_eq_true_iff.1 hdone
  rw [hf.fifo, Pipeline.drive_append_of_finish (hf.ending.1 hending), hf.driven, List.isEmpty_iff.1 hleaving,
    List.append_nil]

end Task.Faithful

/-- Pipelines that have nothing to do with one another, and of which nothing was counted yet. -/
structure Service.Apart (s₀ : Service) : Prop where
  lone : ∀ p ∈ s₀.pipelines, p.Lone
  nodup : (s₀.pipelines.map (·.metric)).Nodup
  counted : ∀ p ∈ s₀.pipelines, s₀.counters.Shows p.metric 0 0

theorem Service.Apart.index_eq {s₀ : Service} (h : s₀.Apart) {i j : Nat} {p q : Pipeline}
    (hp : s₀.pipelines[i]? = some p) (hq : s₀.pipelines[j]? = some q) (heq : q.metric = p.metric) : j = i := by
  have hlt : j < (s₀.pipelines.map (·.metric)).length := by
    simpa using (List.getElem?_eq_some_iff.1 hq).1
  refine (List.getElem?_inj hlt h.nodup).1 ?_
  rw [List.getElem?_map, List.getElem?_map, hp, hq, Option.map_some, Option.map_some, heq]

namespace Tasks

variable {hosting : Hosting} {d : Definitions} {s₀ : Service} {s s' : Tasks} {h : Happening} {hs : List Happening}
  {i j : Nat} {t : Task} {p q : Pipeline} {r : Record}

theorem Runs.faithful (hruns : Runs (ofService hosting s₀) hs s) (hlone : ∀ p ∈ s₀.pipelines, p.Lone)
    (ht : s.tasks[i]? = some t) : ∃ p, s₀.pipelines[i]? = some p ∧ Task.Faithful p i hs t := by
  induction hruns generalizing t with
  | start =>
      obtain ⟨p, hp, rfl⟩ := Option.map_eq_some_iff.1 (List.getElem?_map ▸ ht)
      exact ⟨p, hp, .start (hlone p (List.mem_of_getElem? hp))⟩
  | step _ hstep ih =>
      obtain ⟨t, ht, hmoves⟩ := hstep.moves ht
      obtain ⟨p, hp, hf⟩ := ih ht
      exact ⟨p, hp, hf.move hmoves⟩

theorem Runs.length_tasks (hruns : Runs (ofService hosting s₀) hs s) : s.tasks.length = s₀.pipelines.length := by
  induction hruns with
  | start => exact List.length_map _
  | step _ hstep ih => cases hstep <;> simpa [send, take, hand] using ih

theorem Runs.stored_eq (hruns : Runs (ofService hosting s₀) hs s) : stored hs = received hs ++ s.queue := by
  induction hruns with
  | start => rfl
  | @step hs h s s' _ hstep ih =>
      rw [stored] at ih ⊢
      rw [List.filterMap_append, ih]
      cases hstep with
      | send | take | ended => simp [received, Happening.stored?, Happening.received?, send, take]
      | hand hu hhead =>
          cases hroom : s.hasRoom <;> simp [received, Happening.stored?, Happening.received?, hand, hroom]
      | receive hover hqueue => simp [received, Happening.stored?, Happening.received?, hqueue]

/-- The output ends after all metrics, and after it nothing happens. -/
theorem Runs.of_isOver (hruns : Runs (ofService hosting s₀) hs s) (hover : s.isOver = true) :
    s.queue = [] ∧ ∀ t ∈ s.tasks, t.isDone = true := by
  induction hruns with
  | start => cases hover
  | step _ hstep ih =>
      cases hstep with
      | send ht hdone => exact absurd ((ih hover).2 _ (List.mem_of_getElem? ht)) (by simp [hdone])
      | take ht hending =>
          exact absurd ((ih hover).2 _ (List.mem_of_getElem? ht)) (by simp [Task.isDone, hending])
      | hand ht hhead =>
          have hdone := (ih hover).2 _ (List.mem_of_getElem? ht)
          rw [List.isEmpty_iff.1 (Bool.and_eq_true_iff.1 hdone).2] at hhead
          cases hhead
      | receive hopen => exact absurd hover (by simp [hopen])
      | ended _ hdone hqueue => exact ⟨hqueue, hdone⟩

section

variable (hruns : Runs (ofService hosting s₀) hs s) (hapart : s₀.Apart)
include hruns hapart

theorem Runs.metric_iff (hp : s₀.pipelines[i]? = some p) {u : Task} (hu : s.tasks[j]? = some u)
    (hhead : u.leaving.head? = some r) : r.metric = u.pipeline.metric ∧ (r.metric = p.metric ↔ j = i) := by
  obtain ⟨q, hq, hf⟩ := hruns.faithful hapart.lone hu
  have hr : r.metric = q.metric := hf.leaving r (List.mem_of_mem_head? hhead)
  refine ⟨hr.trans hf.metric.symm, fun heq => hapart.index_eq hp hq (hr.symm.trans heq), ?_⟩
  rintro rfl
  exact hr.trans (congrArg Pipeline.metric (Option.some.inj (hq.symm.trans hp)))

theorem Runs.kept_eq (hp : s₀.pipelines[i]? = some p) : (stored hs).filter (·.metric = p.metric) = kept i hs := by
  induction hruns with
  | start => rfl
  | @step hs h s s' hruns hstep ih =>
      rw [stored, kept, handed] at ih ⊢
      rw [List.filterMap_append, List.filter_append, ih, List.filterMap_append, List.filter_append, List.map_append]
      congr 1
      cases hstep with
      | send | take | receive | ended => rfl
      | @hand j u r hu hhead =>
          obtain ⟨-, hr⟩ := hruns.metric_iff hapart hp hu hhead
          by_cases hj : j = i
          · cases hroom : s.hasRoom <;> simp [Happening.stored?, Happening.handed?, hj, hr.2 hj]
          · have hne : r.metric ≠ p.metric := fun heq => hj (hr.1 heq)
            cases hroom : s.hasRoom <;> simp [Happening.stored?, Happening.handed?, hj, hne]

theorem Runs.shows (hp : s₀.pipelines[i]? = some p) :
    s.counters.Shows p.metric (emitted i hs).length (lost i hs).length := by
  induction hruns with
  | start => exact hapart.counted p (List.mem_of_getElem? hp)
  | @step hs h s s' hruns hstep ih =>
      rw [emitted, lost, handed] at ih ⊢
      rw [List.filterMap_append, List.filter_append, List.map_append, List.map_append]
      cases hstep with
      | send | receive | ended => simpa [Happening.handed?, send] using ih
      | @take j u x step hu =>
          simp only [Happening.handed?, List.filterMap_cons, List.filterMap_nil, List.map_nil, List.filter_nil,
            List.append_nil, take]
          cases step.dropped with
          | none => exact ih
          | some r => exact ih.countDropped u.pipeline.metric r 1
      | @hand j u r hu hhead =>
          obtain ⟨hu, hr⟩ := hruns.metric_iff hapart hp hu hhead
          by_cases hj : j = i
          · have hemitted := ih.countEmitted (hr.2 hj)
            cases hroom : s.hasRoom
            · have hlost := hemitted.countLost
              simpa [Happening.handed?, hj, hand, hroom, ← hu, hr.2 hj] using hlost
            · simpa [Happening.handed?, hj, hand, hroom] using hemitted
          · have hne : p.metric ≠ r.metric := fun heq => hj (hr.1 heq.symm)
            have hemitted : (s.counters.countEmitted r).Shows p.metric _ _ := ih.update_other hne
            cases hroom : s.hasRoom
            · have hlost : ((s.counters.countEmitted r).countLost u.pipeline.metric).Shows p.metric _ _ :=
                hemitted.update_other (hu ▸ hne)
              simpa [Happening.handed?, hj, hand, hroom] using hlost
            · simpa [Happening.handed?, hj, hand, hroom] using hemitted

end

theorem length_emitted (i : Nat) (hs : List Happening) :
    (emitted i hs).length = (kept i hs).length + (lost i hs).length := by
  rw [emitted, kept, lost, List.length_map, List.length_map, List.length_map]
  exact List.length_eq_length_filter_add _

theorem kept_sublist (i : Nat) (hs : List Happening) : List.Sublist (kept i hs) (emitted i hs) :=
  List.filter_sublist.map _

theorem kept_eq_emitted (h : lost i hs = []) : kept i hs = emitted i hs := by
  refine (kept_sublist i hs).eq_of_length ?_
  rw [length_emitted, h, List.length_nil, Nat.add_zero]

end Tasks

theorem Service.start_eq_ok {hosting : Hosting} {d : Definitions} {s : Service} :
    Service.start hosting d = .ok s ↔
      (∃ e, Engine.compile d { start := hosting.start, dimensionLimit := hosting.dimensionLimit } = .ok e) ∧
      ∃ ps : List Pipeline, List.Forall₂ (fun m p => ∃ e, Engine.compile ((d.forMetric? m.id).getD {})
        { start := hosting.start, dimensionLimit := hosting.dimensionLimit } = .ok e ∧
        { metric := m.id, engine := e } = p) d.metrics ps ∧
      { pipelines := ps, room := hosting.outputQueue, counters := .ofMetrics (d.metrics.map (·.id)) } = s := by
  simp only [Service.start, Check.bind_eq_ok, Check.mapM_eq_ok, Check.pure_eq_ok]
  constructor
  · rintro ⟨e, he, ps, hps, rfl⟩
    exact ⟨⟨e, he⟩, ps, hps, rfl⟩
  · rintro ⟨⟨e, he⟩, ps, hps, rfl⟩
    exact ⟨e, he, ps, hps, rfl⟩

theorem Service.start_apart {hosting : Hosting} {d : Definitions} {s : Service} (h : Service.start hosting d = .ok s)
    (hrange : ∀ τ, hosting.start = some τ → Instant.InRange τ) : s.Apart := by
  obtain ⟨⟨e, he⟩, ps, hps, rfl⟩ := Service.start_eq_ok.1 h
  have hmetrics : d.metrics.map (·.id) = ps.map (·.metric) := by
    rw [← List.forall₂_eq_eq_eq, List.forall₂_map_left_iff, List.forall₂_map_right_iff]
    refine hps.imp ?_
    rintro m _ ⟨_, -, rfl⟩
    rfl
  refine ⟨fun p hp => ?_, ?_, fun p hp => ?_⟩
  · obtain ⟨m, hm, e', he', rfl⟩ := Check.exists_of_mem_right hps hp
    obtain ⟨d', hd'⟩ : ∃ d', d.forMetric? m.id = some d' := Option.isSome_iff_exists.1 (by
      simpa [Definitions.forMetric?] using ⟨m, hm, rfl⟩)
    rw [hd', Option.getD_some] at he'
    refine ⟨⟨d', _, .compiled he', hrange⟩, ?_⟩
    obtain rfl : e.restrict m.id = e' := Except.ok.inj ((Engine.compile_forMetric? he hd').symm.trans he')
    simp only [Engine.restrict, List.filter_filter, Bool.and_self]
  · obtain ⟨c, hc, -⟩ := Engine.compile_eq_ok.1 he
    exact hmetrics ▸ (Definitions.compile_eq_ok.1 hc).2.2.2.2.1
  · exact Counters.shows_ofMetrics (hmetrics ▸ List.mem_map_of_mem hp)

namespace Tasks

variable {hosting : Hosting} {d : Definitions} {s₀ : Service} {s : Tasks} {hs : List Happening} {i : Nat} {p : Pipeline}

end Tasks

end EventMetrics
