import EventMetrics.Service.Output
import Mathlib

namespace EventMetrics

namespace Sink

/-- What was sent, in order, each with the answer to it. -/
def callsOf (takes : List String → String → Bool) : List String → List (String × Bool)
  | [] => []
  | line :: past => callsOf takes past ++ [(line, takes past line)]

def calls (s : Sink) : List (String × Bool) := callsOf s.takes s.sent

def accepted (s : Sink) : List String := (s.calls.filter (·.2)).map (·.1)

def refusals (s : Sink) : Nat := s.calls.countP (!·.2)

theorem calls_send (s : Sink) (line : String) :
    (s.send line).1.calls = s.calls ++ [(line, (s.send line).2)] := rfl

theorem takes_send (s : Sink) (line : String) : (s.send line).1.takes = s.takes := rfl

end Sink

namespace Delivery

variable {r : Retry} {line : String} {lines : List String} {s : Sink} {sinks : List Sink} {d : Delivery}
  {ds : List Delivery} {i : Nat}

/-- A line on its way to one sink: it is sent until it is taken, before which it was refused less often than
there are attempts, or until it was refused as often as that. After every refusal but the last of all there is
a wait. -/
inductive Outcome (r : Retry) (line : String) (s : Sink) : Delivery → Prop
  | taken {t : Sink} {waits : List Span} (k : Nat) : k < r.attempts → t.takes = s.takes →
      t.calls = s.calls ++ (List.replicate k (line, false) ++ [(line, true)]) → waits.length = k →
      Outcome r line s { sink := t, taken := true, waits }
  | abandoned {t : Sink} {waits : List Span} : t.takes = s.takes →
      t.calls = s.calls ++ List.replicate r.attempts (line, false) → waits.length + 1 = r.attempts →
      Outcome r line s { sink := t, taken := false, waits }

/-- One line after another, each to the sink as the one before left it. -/
inductive Serves (r : Retry) : Sink → List String → List Delivery → Prop
  | done {s : Sink} : Serves r s [] []
  | next {s : Sink} {line : String} {lines : List String} {d : Delivery} {ds : List Delivery} :
      Outcome r line s d → Serves r d.sink lines ds → Serves r s (line :: lines) (d :: ds)

def after (s : Sink) (ds : List Delivery) : Sink := (ds.map (·.sink)).getLastD s

def column (rows : List (List Delivery)) (i : Nat) : List Delivery := rows.filterMap (·[i]?)

def deliverAll (r : Retry) : Sink → List String → List Delivery
  | _, [] => []
  | s, line :: rest => deliver r line s :: deliverAll r (deliver r line s).sink rest

theorem attempt_of_taken {most backoff : Span} {more : Nat} (h : (s.send line).2 = true) :
    attempt most line more backoff s = { sink := (s.send line).1, taken := true } := by
  cases more <;> simp [attempt, h]

theorem attempt_of_refused {most backoff : Span} {more : Nat} (h : (s.send line).2 = false) :
    attempt most line (more + 1) backoff s =
      { attempt most line more (nextBackoff most backoff) (s.send line).1 with
        waits := backoff :: (attempt most line more (nextBackoff most backoff) (s.send line).1).waits } := by
  simp [attempt, h]

theorem attempt_cases (most : Span) (line : String) (more : Nat) (backoff : Span) (s : Sink) :
    ∃ t : Sink, t.takes = s.takes ∧
      ((∃ k ≤ more, t.calls = s.calls ++ (List.replicate k (line, false) ++ [(line, true)]) ∧
          attempt most line more backoff s = ⟨t, true, List.iterate (nextBackoff most) backoff k⟩) ∨
        t.calls = s.calls ++ List.replicate (more + 1) (line, false) ∧
          attempt most line more backoff s = ⟨t, false, List.iterate (nextBackoff most) backoff more⟩) := by
  induction more generalizing backoff s with
  | zero =>
      refine ⟨(s.send line).1, s.takes_send line, ?_⟩
      have hcalls := s.calls_send line
      cases hsend : (s.send line).2 with
      | true => exact .inl ⟨0, le_rfl, hsend ▸ hcalls, attempt_of_taken hsend⟩
      | false => exact .inr ⟨hsend ▸ hcalls, by simp [attempt, hsend]⟩
  | succ more ih =>
      have hcalls := s.calls_send line
      cases hsend : (s.send line).2 with
      | true =>
          exact ⟨(s.send line).1, s.takes_send line, .inl ⟨0, Nat.zero_le _, hsend ▸ hcalls, attempt_of_taken hsend⟩⟩
      | false =>
          rw [hsend] at hcalls
          obtain ⟨t, htakes, hrest⟩ := ih (nextBackoff most backoff) (s.send line).1
          have hreplicate (n : Nat) (rest : List (String × Bool)) :
              s.calls ++ [(line, false)] ++ (List.replicate n (line, false) ++ rest) =
                s.calls ++ (List.replicate (n + 1) (line, false) ++ rest) := by
            rw [List.append_assoc, List.replicate_succ, List.singleton_append, List.cons_append]
          rw [attempt_of_refused hsend]
          refine ⟨t, htakes.trans (s.takes_send line), hrest.imp ?_ ?_⟩
          · rintro ⟨k, hk, htold, hd⟩
            exact ⟨k + 1, Nat.succ_le_succ hk, by rw [htold, hcalls, hreplicate], by rw [hd]; rfl⟩
          · rintro ⟨htold, hd⟩
            refine ⟨?_, by rw [hd]; rfl⟩
            rw [htold, hcalls]
            simpa using hreplicate (more + 1) []

theorem deliver_outcome (hr : 1 ≤ r.attempts) (line : String) (s : Sink) :
    Outcome r line s (deliver r line s) := by
  obtain ⟨t, htakes, ⟨k, hk, hcalls, hd⟩ | ⟨hcalls, hd⟩⟩ :=
    attempt_cases r.maxBackoff line (r.attempts - 1) r.initialBackoff s
  · rw [deliver, hd]
    exact .taken k (by omega) htakes hcalls (List.length_iterate ..)
  · rw [Nat.sub_add_cancel hr] at hcalls
    rw [deliver, hd]
    exact .abandoned htakes hcalls (by rw [List.length_iterate, Nat.sub_add_cancel hr])

theorem nanos_iterate_nextBackoff {initial most : Span} (h : initial.nanos ≤ most.nanos) (j : Nat) :
    ((nextBackoff most)^[j] initial).nanos = min (initial.nanos * 2 ^ j) most.nanos := by
  induction j with
  | zero =>
      rw [Function.iterate_zero_apply, pow_zero, mul_one, min_eq_left h]
  | succ j ih =>
      rw [Function.iterate_succ_apply', nextBackoff, ih, pow_succ, ← mul_assoc]
      simp only
      omega

theorem deliver_waits (h : r.initialBackoff.nanos ≤ r.maxBackoff.nanos) (line : String) (s : Sink) {j : Nat}
    {w : Span} (hw : (deliver r line s).waits[j]? = some w) :
    w.nanos = min (r.initialBackoff.nanos * 2 ^ j) r.maxBackoff.nanos := by
  obtain ⟨k, hwaits⟩ : ∃ k, (deliver r line s).waits = List.iterate (nextBackoff r.maxBackoff) r.initialBackoff k := by
    obtain ⟨t, -, ⟨k, -, -, hd⟩ | ⟨-, hd⟩⟩ := attempt_cases r.maxBackoff line (r.attempts - 1) r.initialBackoff s
    · exact ⟨k, by rw [deliver, hd]⟩
    · exact ⟨r.attempts - 1, by rw [deliver, hd]⟩
  obtain ⟨hj, rfl⟩ := List.getElem?_eq_some_iff.1 hw
  simp only [hwaits, List.getElem_iterate]
  exact nanos_iterate_nextBackoff h j

theorem serves_deliverAll (hr : 1 ≤ r.attempts) (s : Sink) (lines : List String) :
    Serves r s lines (deliverAll r s lines) := by
  induction lines generalizing s with
  | nil => exact .done
  | cons line lines ih => exact .next (deliver_outcome hr line s) (ih _)

theorem after_cons (s : Sink) (d : Delivery) (ds : List Delivery) : after s (d :: ds) = after d.sink ds := by
  rw [after, List.map_cons, List.getLastD_cons]
  rfl

theorem Outcome.accepted (h : Outcome r line s d) :
    d.sink.accepted = s.accepted ++ if d.taken then [line] else [] := by
  cases h with
  | taken k _ _ hcalls _ => simp [Sink.accepted, hcalls]
  | abandoned _ hcalls _ => simp [Sink.accepted, hcalls]

theorem Outcome.refusals (h : Outcome r line s d) : d.sink.refusals = s.refusals + d.failedSends := by
  cases h with
  | taken k _ _ hcalls hwaits => simp [Sink.refusals, failedSends, retries, hcalls, hwaits, List.countP_replicate]
  | abandoned _ hcalls hwaits => simp [Sink.refusals, failedSends, retries, hcalls, hwaits, List.countP_replicate]

namespace Serves

theorem accepted (h : Serves r s lines ds) :
    (after s ds).accepted = s.accepted ++ ((lines.zip ds).filter (·.2.taken)).map (·.1) := by
  induction h with
  | done => simp [after]
  | @next s line lines d ds hd _ ih =>
      rw [after_cons, ih, hd.accepted, List.append_assoc, List.zip_cons_cons, List.filter_cons]
      cases d.taken <;> simp

theorem refusals (h : Serves r s lines ds) :
    (after s ds).refusals = s.refusals + (ds.map failedSends).sum := by
  induction h with
  | done => simp [after]
  | next hd _ ih => rw [after_cons, ih, hd.refusals, List.map_cons, List.sum_cons, Nat.add_assoc]

theorem length_accepted (h : Serves r s lines ds) :
    (after s ds).accepted.length = s.accepted.length + (ds.map (·.taken.toNat)).sum := by
  induction h with
  | done => simp [after]
  | @next s line lines d ds hd _ ih =>
      rw [after_cons, ih, hd.accepted, List.length_append, List.map_cons, List.sum_cons, Nat.add_assoc]
      cases d.taken <;> simp

end Serves

theorem column_dispatch (h : sinks[i]? = some s) (lines : List String) :
    column (dispatch r sinks lines) i = deliverAll r s lines := by
  induction lines generalizing sinks s with
  | nil => rfl
  | cons line lines ih =>
      have hrow : (sinks.map (deliver r line))[i]? = some (deliver r line s) := by
        rw [List.getElem?_map, h, Option.map_some]
      have hnext : ((sinks.map (deliver r line)).map (·.sink))[i]? = some (deliver r line s).sink := by
        rw [List.getElem?_map, hrow, Option.map_some]
      rw [dispatch, column, List.filterMap_cons, hrow, deliverAll]
      exact congrArg (deliver r line s :: ·) (ih hnext)

theorem dispatch_singleton (s : Sink) (lines : List String) :
    dispatch r [s] lines = (deliverAll r s lines).map ([·]) := by
  induction lines generalizing s with
  | nil => rfl
  | cons line lines ih => exact congrArg ([deliver r line s] :: ·) (ih _)

theorem sum_dispatch (w : Delivery → Nat) (sinks : List Sink) (lines : List String) :
    ((dispatch r sinks lines).flatten.map w).sum =
      (sinks.map fun s => ((deliverAll r s lines).map w).sum).sum := by
  induction lines generalizing sinks with
  | nil => simp [dispatch, deliverAll]
  | cons line lines ih =>
      rw [dispatch, List.flatten_cons, List.map_append, List.sum_append, ih]
      simp only [deliverAll, List.map_cons, List.sum_cons, List.map_map, List.sum_map_add]
      rfl

theorem length_flatten_dispatch (r : Retry) (sinks : List Sink) (lines : List String) :
    (dispatch r sinks lines).flatten.length = lines.length * sinks.length := by
  induction lines generalizing sinks with
  | nil => simp [dispatch]
  | cons line lines ih =>
      rw [dispatch, List.flatten_cons, List.length_append, ih]
      simp only [List.length_map, List.length_cons, Nat.succ_mul, Nat.add_comm]

theorem mem_dispatch {row : List Delivery} (hrow : row ∈ dispatch r sinks lines) (hd : d ∈ row) :
    ∃ line s, d = deliver r line s := by
  induction lines generalizing sinks with
  | nil => cases hrow
  | cons line lines ih =>
      rcases List.mem_cons.1 hrow with rfl | hrow
      · obtain ⟨s, -, rfl⟩ := List.mem_map.1 hd
        exact ⟨line, s, rfl⟩
      · exact ih hrow

theorem foldl_countRetry (c : Counters) (waits : List Span) :
    waits.foldl (fun c _ => c.countRetry) c = { c with retries := c.retries + UInt64.ofNat waits.length } := by
  induction waits generalizing c with
  | nil => simp
  | cons w waits ih =>
      rw [List.foldl_cons, ih, List.length_cons, Nat.add_comm, UInt64.ofNat_add, ← UInt64.add_assoc]
      rfl

theorem countDelivery_eq (c : Counters) (d : Delivery) : Service.countDelivery c d =
    { c with
      writes := c.writes + UInt64.ofNat d.taken.toNat
      writesFailed := c.writesFailed + UInt64.ofNat (!d.taken).toNat
      retries := c.retries + UInt64.ofNat d.retries } := by
  rw [Service.countDelivery, foldl_countRetry]
  cases d.taken <;> simp [Counters.countWrite, Counters.countWriteFailed, retries]

theorem foldl_countDelivery (c : Counters) (ds : List Delivery) : ds.foldl Service.countDelivery c =
    { c with
      writes := c.writes + UInt64.ofNat (ds.map (·.taken.toNat)).sum
      writesFailed := c.writesFailed + UInt64.ofNat (ds.map fun d => (!d.taken).toNat).sum
      retries := c.retries + UInt64.ofNat (ds.map retries).sum } := by
  induction ds generalizing c with
  | nil => simp
  | cons d ds ih =>
      simp only [List.foldl_cons, ih, countDelivery_eq, List.map_cons, List.sum_cons, UInt64.ofNat_add,
        UInt64.add_assoc]

def ends (sinks : List Sink) (rows : List (List Delivery)) : List Sink :=
  sinks.mapIdx fun i s => after s (column rows i)

theorem ends_dispatch (sinks : List Sink) (lines : List String) :
    ends sinks (dispatch r sinks lines) = sinks.map fun s => after s (deliverAll r s lines) := by
  apply List.ext_getElem?
  intro i
  rw [ends, List.getElem?_mapIdx, List.getElem?_map]
  cases h : sinks[i]? with
  | none => rfl
  | some s => rw [Option.map_some, Option.map_some, column_dispatch h]

theorem sum_ends {m : Sink → Nat} {w : Delivery → Nat} (hm : ∀ s ∈ sinks, m (after s (deliverAll r s lines)) =
    ((deliverAll r s lines).map w).sum) :
    ((ends sinks (dispatch r sinks lines)).map m).sum = ((dispatch r sinks lines).flatten.map w).sum := by
  rw [ends_dispatch, sum_dispatch, List.map_map]
  exact congrArg List.sum (List.map_congr_left hm)

/-- Sinks whose answers depend on what they were sent before, each in its own way. Nothing was sent yet. -/
def starting (takes : List (List String → String → Bool)) : List Sink := takes.map fun f => { takes := f }

theorem calls_of_mem_starting {takes : List (List String → String → Bool)} (h : s ∈ starting takes) :
    s.calls = [] := by
  obtain ⟨f, -, rfl⟩ := List.mem_map.1 h
  rfl

/-- Every sink gets every line, up to the first time that it takes it or to the last attempt, just as it would
without the other sinks. It ends up with the lines in order but for those that it refused at every attempt. The
counters tell the lines taken, the lines given up and the sends repeated, and waits double up to their limit. -/
theorem dispatch_serves (r : Retry) (hr : 1 ≤ r.attempts) (takes : List (List String → String → Bool))
    (records : List Record) (ids : List String) :
    let sinks := starting takes
    let lines := records.map Record.line
    let rows := dispatch r sinks lines
    let counters := rows.flatten.foldl Service.countDelivery (.ofMetrics ids)
    (∀ i s, sinks[i]? = some s →
      Serves r s lines (column rows i) ∧ dispatch r [s] lines = (column rows i).map ([·]) ∧
      (after s (column rows i)).accepted = ((lines.zip (column rows i)).filter (·.2.taken)).map (·.1)) ∧
    counters.writes = UInt64.ofNat ((ends sinks rows).map (·.accepted.length)).sum ∧
    counters.writes + counters.writesFailed = UInt64.ofNat (records.length * takes.length) ∧
    counters.retries + counters.writesFailed = UInt64.ofNat ((ends sinks rows).map (·.refusals)).sum ∧
    (r.initialBackoff.nanos ≤ r.maxBackoff.nanos → ∀ row ∈ rows, ∀ d ∈ row, ∀ j w, d.waits[j]? = some w →
      w.nanos = min (r.initialBackoff.nanos * 2 ^ j) r.maxBackoff.nanos) := by
  intro sinks lines rows counters
  have hserves (s : Sink) : Serves r s lines (deliverAll r s lines) := serves_deliverAll hr s lines
  have hcounters := foldl_countDelivery (.ofMetrics ids) rows.flatten
  have hwrites : counters.writes = UInt64.ofNat (rows.flatten.map (·.taken.toNat)).sum :=
    (congrArg Counters.writes hcounters).trans (UInt64.zero_add _)
  have hfailed : counters.writesFailed = UInt64.ofNat (rows.flatten.map fun d => (!d.taken).toNat).sum :=
    (congrArg Counters.writesFailed hcounters).trans (UInt64.zero_add _)
  have hretries : counters.retries = UInt64.ofNat (rows.flatten.map retries).sum :=
    (congrArg Counters.retries hcounters).trans (UInt64.zero_add _)
  refine ⟨fun i s hs => ?_, ?_, ?_, ?_, ?_⟩
  · rw [column_dispatch hs]
    refine ⟨hserves s, dispatch_singleton s lines, ?_⟩
    rw [(hserves s).accepted, Sink.accepted, calls_of_mem_starting (List.mem_of_getElem? hs)]
    rfl
  · rw [hwrites, sum_ends fun s hs => ?_]
    rw [(hserves s).length_accepted, Sink.accepted, calls_of_mem_starting hs]
    exact Nat.zero_add _
  · rw [hwrites, hfailed, ← UInt64.ofNat_add, ← List.sum_map_add]
    have hone (d : Delivery) : d.taken.toNat + (!d.taken).toNat = 1 := by cases d.taken <;> rfl
    simp only [hone, List.map_const', List.sum_replicate, smul_eq_mul, mul_one, rows, length_flatten_dispatch]
    simp only [sinks, lines, starting, List.length_map]
  · rw [hretries, hfailed, ← UInt64.ofNat_add, ← List.sum_map_add, sum_ends fun s hs => ?_]
    rw [(hserves s).refusals, Sink.refusals, calls_of_mem_starting hs, List.countP_nil, Nat.zero_add]
    refine congrArg List.sum (List.map_congr_left fun d _ => ?_)
    rw [failedSends]
    cases d.taken <;> rfl
  · intro hcap row hrow d hd j w hw
    obtain ⟨line, s, rfl⟩ := mem_dispatch hrow hd
    exact deliver_waits hcap line s hw

/-- A sink that refuses what it is sent first, and then takes everything, beside one that never takes anything. -/
theorem dispatch_serves_flaky :
    let r : Retry := { attempts := 3, initialBackoff := ⟨10⟩, maxBackoff := ⟨15⟩ }
    let flaky : List String → String → Bool := fun past _ => 4 ≤ past.length
    let broken : List String → String → Bool := fun _ _ => false
    let gap (start : Int) : Record :=
      .skipped { metric := "doors", start, stop := start + 10, buckets := 1, reason := .noData }
    let rows := dispatch r (starting [flaky, broken]) ([gap 0, gap 10].map Record.line)
    let counters := rows.flatten.foldl Service.countDelivery (.ofMetrics ["doors"])
    1 ≤ r.attempts ∧ r.initialBackoff.nanos ≤ r.maxBackoff.nanos ∧
      (after { takes := flaky } (column rows 0)).accepted = [(gap 10).line] ∧
      counters.writes = 1 ∧ counters.writes + counters.writesFailed = 4 ∧
      counters.retries + counters.writesFailed = 10 ∧
      (column rows 0).map (·.waits.map (·.nanos)) = [[10, 15], [10]] ∧
      ∀ row ∈ rows, ∀ d ∈ row, ∀ j w, d.waits[j]? = some w → w.nanos = min (10 * 2 ^ j) 15 := by
  intro r flaky broken gap rows counters
  have hr : 1 ≤ r.attempts := by decide
  have hcap : r.initialBackoff.nanos ≤ r.maxBackoff.nanos := by decide
  obtain ⟨hsinks, hwrites, hall, hfailed, hwaits⟩ :=
    dispatch_serves r hr [flaky, broken] [gap 0, gap 10] ["doors"]
  exact ⟨hr, hcap, (hsinks 0 { takes := flaky } rfl).2.2.trans rfl, hwrites.trans rfl, hall.trans rfl,
    hfailed.trans rfl, rfl, hwaits hcap⟩

end Delivery
end EventMetrics
