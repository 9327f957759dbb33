import EventMetrics.Proofs.Service.Tasks

namespace EventMetrics

open Pipeline (Input)

theorem Pipeline.step_metric {p : Pipeline} {x : Input} {u : Step} (h : p.step x = some u) :
    u.pipeline.metric = p.metric := by
  cases x with
  | event ev =>
      obtain ⟨⟨e, ingest⟩, -, h⟩ := Option.bind_eq_some_iff.1 h
      cases ingest <;> cases h <;> rfl
  | tick now =>
      obtain ⟨e, -, h⟩ := Option.bind_eq_some_iff.1 h
      cases h
      rfl
  | finish time =>
      rw [step] at h
      split at h
      · obtain ⟨e, -, h⟩ := Option.bind_eq_some_iff.1 h
        cases h
        rfl
      · cases h
        rfl

namespace Counters

theorem countEmitted_countLost (c : Counters) (metric : String) (r : Record) :
    (c.countLost metric).countEmitted r = (c.countEmitted r).countLost metric := by
  simp only [countEmitted, countLost, update, Table.mapValues, List.map_map]
  congr 2
  refine List.map_congr_left fun e _ => ?_
  simp only [Function.comp_apply]
  split <;> split <;> rfl

theorem foldl_countEmitted_countLost (c : Counters) (metric : String) (rs : List Record) :
    rs.foldl countEmitted (c.countLost metric) = (rs.foldl countEmitted c).countLost metric := by
  induction rs generalizing c with
  | nil => rfl
  | cons r rs ih => rw [List.foldl_cons, countEmitted_countLost, ih, List.foldl_cons]

end Counters

namespace Tasks

open Service (offer countStep)

variable {s s' s₀ : Tasks} {hs hs' : List Happening} {i : Nat} {t : Task} {p : Pipeline} {u : Pipeline.Step}
  {x : Input} {rs : List Record}

theorem Runs.trans (h : Runs s₀ hs s) (h' : Runs s hs' s') : Runs s₀ (hs ++ hs') s' := by
  induction h' with
  | start => rwa [List.append_nil]
  | step _ hstep ih => exact List.append_assoc .. ▸ ih.step hstep

theorem received_append (hs hs' : List Happening) : received (hs ++ hs') = received hs ++ received hs' :=
  List.filterMap_append

theorem receive_all (hopen : s.isOver = false) (hqueue : s.queue = rs) :
    ∃ hs, Runs s hs { s with queue := [] } ∧ received hs = rs := by
  induction rs generalizing s with
  | nil =>
      have hsame : { s with queue := [] } = s := by rw [← hqueue]
      exact ⟨[], hsame ▸ .start, rfl⟩
  | cons r rs ih =>
      obtain ⟨hs, hruns, hreceived⟩ := ih (s := { s with queue := rs }) hopen rfl
      refine ⟨[.received r] ++ hs, (Runs.start.step (.receive hopen hqueue)).trans hruns, ?_⟩
      rw [received_append, hreceived]
      rfl

/-- What is left once a task has handed all its records over, of which those are lost that find no room. -/
def handAll (s : Tasks) (i : Nat) (t : Task) : Tasks :=
  { s with
    tasks := s.tasks.set i { t with leaving := [] }
    queue := (offer s.outputRoom s.queue t.leaving).1
    counters := (offer s.outputRoom s.queue t.leaving).2.foldl (fun c _ => c.countLost t.pipeline.metric)
      (t.leaving.foldl Counters.countEmitted s.counters) }

theorem handAll_nil (ht : s.tasks[i]? = some t) (hleaving : t.leaving = []) : s.handAll i t = s := by
  obtain ⟨hlt, hget⟩ := List.getElem?_eq_some_iff.1 ht
  have hsame : { t with leaving := [] } = t := by rw [← hleaving]
  simp only [handAll, hleaving, offer, List.take_nil, List.drop_nil, List.foldl_nil, List.append_nil]
  rw [hsame, ← hget, List.set_getElem_self]

theorem handAll_cons {r : Record} (hopen : s.isOver = false) (hleaving : t.leaving = r :: rs) :
    (s.hand i t r).handAll i { t with leaving := rs } = s.handAll i t := by
  by_cases hroom : s.queue.length < s.outputRoom
  · obtain ⟨k, hk⟩ : ∃ k, s.outputRoom - s.queue.length = k + 1 := ⟨s.outputRoom - s.queue.length - 1, by omega⟩
    have hk' : s.outputRoom - (s.queue.length + 1) = k := by omega
    simp [handAll, hand, hasRoom, hopen, hroom, hleaving, offer, hk, hk', List.set_set]
  · have hnone : s.outputRoom - s.queue.length = 0 := by omega
    simp [handAll, hand, hasRoom, hopen, hroom, hleaving, offer, hnone, List.set_set,
      Counters.foldl_countEmitted_countLost]

theorem hand_all (ht : s.tasks[i]? = some t) (hopen : s.isOver = false) :
    ∃ hs, Runs s hs (s.handAll i t) ∧ received hs = [] := by
  induction hrs : t.leaving generalizing s t with
  | nil => exact ⟨[], by rw [handAll_nil ht hrs]; exact .start, rfl⟩
  | cons r rs ih =>
      obtain ⟨hlt, -⟩ := List.getElem?_eq_some_iff.1 ht
      have hnext : (s.hand i t r).tasks[i]? = some { t with leaving := rs } := by
        simp [hand, hlt, hrs]
      obtain ⟨hs, hruns, hreceived⟩ := ih hnext hopen rfl
      rw [handAll_cons hopen hrs] at hruns
      refine ⟨_, (Runs.start.step (.hand ht (by rw [hrs]; rfl))).trans hruns, ?_⟩
      rw [received_append, hreceived]
      rfl

def idle (p : Pipeline) (isEnding : Bool) : Task := { pipeline := p, isEnding, isOpen := !isEnding }

/-- A task is sent an input, takes it and hands over what it leaves, and the output keeps up. -/
theorem serve (ht : s.tasks[i]? = some (idle p false)) (hopen : s.isOver = false) (hqueue : s.queue = [])
    (hroom : 0 < s.inputRoom) (hx : x.InRange) (hstep : p.step x = some u) :
    ∃ hs, Runs s hs { s with
      tasks := s.tasks.set i (idle u.pipeline x.isFinish)
      counters := countStep s.outputRoom s.counters u } ∧ received hs = (offer s.outputRoom [] u.records).1 := by
  obtain ⟨hlt, -⟩ := List.getElem?_eq_some_iff.1 ht
  let sent : Task := { idle p false with inbox := [x], isOpen := !x.isFinish }
  let taken : Task := { sent with pipeline := u.pipeline, inbox := [], leaving := u.records, isEnding := x.isFinish }
  have hsent : (s.send i (idle p false) x).tasks[i]? = some sent := by
    simp [send, hlt, sent, idle]
  have htaken : ((s.send i (idle p false) x).take i sent x u).tasks[i]? = some taken := by
    simp [take, send, hlt, taken, sent]
  have hstart : Runs s [.sent i x, .taken i x] ((s.send i (idle p false) x).take i sent x u) :=
    (Runs.start.step (.send ht rfl rfl hroom hx)).step (.take hsent rfl rfl rfl hstep)
  obtain ⟨handing, hhands, hnone⟩ := hand_all htaken hopen
  obtain ⟨receiving, hreceives, hreceived⟩ :=
    receive_all (s := ((s.send i (idle p false) x).take i sent x u).handAll i taken) hopen rfl
  have hlast : { ((s.send i (idle p false) x).take i sent x u).handAll i taken with queue := [] } = { s with
      tasks := s.tasks.set i (idle u.pipeline x.isFinish)
      counters := countStep s.outputRoom s.counters u } := by
    simp [handAll, take, send, taken, sent, idle, countStep, hqueue, List.set_set, Pipeline.step_metric hstep]
  refine ⟨_, hlast ▸ (hstart.trans hhands).trans hreceives, ?_⟩
  have hbefore : received ([.sent i x, .taken i x] ++ handing) = [] := by
    rw [received_append, hnone]
    rfl
  rw [received_append, hbefore, hreceived, List.nil_append]
  exact congrArg (fun queue => (offer s.outputRoom queue u.records).1) hqueue

theorem serve_all {ps : List Pipeline} {us : List Pipeline.Step} (hsteps : ps.mapM (·.step x) = some us)
    (served : List Task) (htasks : s.tasks = served ++ ps.map (idle · false)) (hopen : s.isOver = false)
    (hqueue : s.queue = []) (hroom : 0 < s.inputRoom) (hx : x.InRange) :
    ∃ hs, Runs s hs { s with
      tasks := served ++ us.map fun u => idle u.pipeline x.isFinish
      counters := us.foldl (countStep s.outputRoom) s.counters } ∧
      received hs = us.flatMap fun u => (offer s.outputRoom [] u.records).1 := by
  induction ps generalizing s served us with
  | nil =>
      cases hsteps
      obtain rfl : s.tasks = served := by rw [htasks, List.map_nil, List.append_nil]
      exact ⟨[], by simpa using (Runs.start : Runs s [] s), rfl⟩
  | cons p ps ih =>
      rw [List.mapM_cons] at hsteps
      obtain ⟨u, hu, hsteps⟩ := Option.bind_eq_some_iff.1 hsteps
      obtain ⟨us, hus, hsteps⟩ := Option.bind_eq_some_iff.1 hsteps
      cases hsteps
      have ht : s.tasks[served.length]? = some (idle p false) := by simp [htasks]
      obtain ⟨hs, hruns, hreceived⟩ := serve ht hopen hqueue hroom hx hu
      have hset : s.tasks.set served.length (idle u.pipeline x.isFinish) =
          (served ++ [idle u.pipeline x.isFinish]) ++ ps.map (idle · false) := by
        rw [htasks, List.map_cons, List.set_append_right _ _ (Nat.le_refl _), Nat.sub_self, List.set_cons_zero,
          List.append_assoc, List.singleton_append]
      obtain ⟨hs', hruns', hreceived'⟩ := ih (s := { s with
          tasks := s.tasks.set served.length (idle u.pipeline x.isFinish)
          counters := countStep s.outputRoom s.counters u }) hus _ hset hopen hqueue hroom
      refine ⟨hs ++ hs', ?_, ?_⟩
      · have hboth := hruns.trans hruns'
        rwa [List.append_assoc] at hboth
      · rw [received_append, hreceived, hreceived', List.flatMap_cons]

end Tasks

namespace Service

open Tasks (Runs ofService idle received received_append serve_all)

variable {hosting : Hosting} {s₀ s s' : Service} {x : Input} {xs : List Input}

theorem feed_runs (hfeed : s.feed x = some s') (hroom : 0 < hosting.inputQueue) (hx : x.InRange) :
    ∃ hs, Runs (ofService hosting s) hs
      { ofService hosting s' with tasks := s'.pipelines.map (idle · x.isFinish) } ∧
      s'.handed = s.handed ++ received hs := by
  obtain ⟨us, hus, hs'⟩ := Option.bind_eq_some_iff.1 hfeed
  cases hs'
  obtain ⟨hs, hruns, hreceived⟩ := serve_all hus [] (s := ofService hosting s) rfl rfl rfl hroom hx
  refine ⟨hs, ?_, congrArg (s.handed ++ ·) hreceived.symm⟩
  simpa only [ofService, List.map_map, List.nil_append, Function.comp_def] using hruns

theorem feedAll_runs (hfeed : xs.foldlM feed s = some s') (hroom : 0 < hosting.inputQueue)
    (hxs : ∀ x ∈ xs, x.isFinish = false ∧ x.InRange) :
    ∃ hs, Runs (ofService hosting s) hs (ofService hosting s') ∧ s'.handed = s.handed ++ received hs := by
  induction xs generalizing s with
  | nil =>
      cases hfeed
      exact ⟨[], .start, (List.append_nil _).symm⟩
  | cons x xs ih =>
      rw [List.foldlM_cons] at hfeed
      obtain ⟨fed, hfed, hrest⟩ := Option.bind_eq_some_iff.1 hfeed
      obtain ⟨⟨hfinish, hx⟩, hxs⟩ := List.forall_mem_cons.1 hxs
      obtain ⟨hs, hruns, hhanded⟩ := feed_runs hfed hroom hx
      obtain ⟨hs', hruns', hhanded'⟩ := ih hrest hxs
      rw [hfinish] at hruns
      refine ⟨hs ++ hs', hruns.trans hruns', ?_⟩
      rw [hhanded', hhanded, received_append, List.append_assoc]

/-- A service that is fed one input after another, and at last the end, is one schedule of its tasks up to
their own end: the output receives what the service hands over, and the counters are the same. -/
theorem session_runs (hfeed : xs.foldlM feed s₀ = some s) {time : Option Int} (hend : s.feed (.finish time) = some s')
    (hroom : 0 < hosting.inputQueue) (hxs : ∀ x ∈ xs, x.isFinish = false ∧ x.InRange)
    (htime : ∀ now, time = some now → Instant.InRange now) :
    ∃ hs final, Runs (ofService hosting s₀) hs final ∧ final.Finished ∧ final.counters = s'.counters ∧
      s'.handed = s₀.handed ++ received hs := by
  obtain ⟨hs, hruns, hhanded⟩ := feedAll_runs hfeed hroom hxs
  obtain ⟨hs', hruns', hhanded'⟩ := feed_runs hend hroom htime
  have hdone : ∀ t ∈ s'.pipelines.map (idle · true), t.isDone = true := by
    intro t ht
    obtain ⟨p, -, rfl⟩ := List.mem_map.1 ht
    rfl
  refine ⟨hs ++ hs' ++ [.ended], _, (hruns.trans hruns').step (.ended rfl hdone rfl), ⟨rfl, hdone⟩, rfl, ?_⟩
  have hnone : received [.ended] = [] := rfl
  rw [hhanded', hhanded, received_append, received_append, hnone, List.append_nil, List.append_assoc]

end Service

end EventMetrics
