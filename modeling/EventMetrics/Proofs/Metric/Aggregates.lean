import EventMetrics.Proofs.Keys
import EventMetrics.Proofs.Metric.Measuring
import EventMetrics.Proofs.Metric.Samples
import Mathlib.Algebra.Ring.Int.Defs
import Mathlib.Data.List.Basic
import Mathlib.Data.List.Induction

namespace EventMetrics

open Definition (ValueAggregation)
open Instant (InRange)

def BucketValue.IsReal (v : BucketValue) : Prop := ∃ x, v = .real x

namespace Quantity

variable {q : Quantity} {qs : List Quantity} {n : Int} {ns : List Int} {x : Float}

def IsReal (q : Quantity) : Prop := ∃ x, q = real x

theorem isReal_add (p : Quantity) (h : q.IsReal) : (p.add q).IsReal ∧ (q.add p).IsReal := by
  obtain ⟨x, rfl⟩ := h
  cases p <;> exact ⟨⟨_, rfl⟩, _, rfl⟩

theorem isReal_foldl_add (h : q.IsReal) (qs : List Quantity) : (qs.foldl add q).IsReal := by
  induction qs generalizing q with
  | nil => exact h
  | cons p qs ih => exact ih (isReal_add p h).2

theorem isReal_foldl_add_of_mem (h : real x ∈ qs) (q : Quantity) : (qs.foldl add q).IsReal := by
  induction qs generalizing q with
  | nil => cases h
  | cons p qs ih =>
      rcases List.mem_cons.1 h with rfl | hmem
      · exact isReal_foldl_add (isReal_add q ⟨x, rfl⟩).1 qs
      · exact ih hmem (q.add p)

theorem foldl_add_whole (hn : InRange n) (ns : List Int) :
    ((∀ p, p <+: ns → InRange (n + p.sum)) ∧ (ns.map whole).foldl add (whole n) = whole (n + ns.sum)) ∨
      (∃ p, p <+: ns ∧ ¬ InRange (n + p.sum)) ∧ ((ns.map whole).foldl add (whole n)).IsReal := by
  induction ns using List.reverseRecOn with
  | nil => simp [hn]
  | append_singleton ns m ih =>
      rw [List.map_append, List.map_singleton, List.foldl_concat]
      rcases ih with ⟨hfits, hsum⟩ | ⟨⟨p, hp, hout⟩, hreal⟩
      · have htotal : n + (ns ++ [m]).sum = n + ns.sum + m := by simp [Int.add_assoc]
        rw [hsum, add]
        by_cases hm : InRange (n + ns.sum + m)
        · rw [if_pos hm, htotal]
          refine .inl ⟨fun p hp => ?_, rfl⟩
          rcases List.prefix_concat_iff.1 hp with rfl | hp
          · rwa [htotal]
          · exact hfits p hp
        · rw [if_neg hm]
          exact .inr ⟨⟨_, List.prefix_rfl, by rwa [htotal]⟩, _, rfl⟩
      · exact .inr ⟨⟨p, hp.trans (List.prefix_append ns [m]), hout⟩, (isReal_add _ hreal).2⟩

theorem foldl_min_whole (n : Int) (ns : List Int) :
    (ns.map whole).foldl min (whole n) = whole (ns.foldl Min.min n) := by
  induction ns generalizing n with
  | nil => rfl
  | cons m ns ih =>
      have hmin : (whole n).min (whole m) = whole (Min.min n m) := by
        simp only [min, lt, decide_eq_true_eq]
        split <;> congr 1 <;> omega
      rw [List.map_cons, List.foldl_cons, hmin, ih, List.foldl_cons]

theorem foldl_max_whole (n : Int) (ns : List Int) :
    (ns.map whole).foldl max (whole n) = whole (ns.foldl Max.max n) := by
  induction ns generalizing n with
  | nil => rfl
  | cons m ns ih =>
      have hmax : (whole n).max (whole m) = whole (Max.max n m) := by
        simp only [max, lt, decide_eq_true_eq]
        split <;> congr 1 <;> omega
      rw [List.map_cons, List.foldl_cons, hmax, ih, List.foldl_cons]

end Quantity

def SumsFit (ns : List Int) : Prop := ∀ p, p <+: ns → InRange p.sum

theorem sumsFit_cons {n : Int} {ns : List Int} :
    SumsFit (n :: ns) ↔ ∀ p, p <+: ns → InRange (n + p.sum) := by
  simp only [SumsFit, List.prefix_cons_iff]
  constructor
  · exact fun h p hp => by simpa using h (n :: p) (.inr ⟨p, rfl, hp⟩)
  · rintro h p (rfl | ⟨p, rfl, hp⟩)
    · exact (by decide : InRange 0)
    · simpa using h p hp

/-- What a metric is to say of whole numbers: the least or the greatest of them, and their sum or their mean as
long as all partial sums fit. A sum that does not fit is a double. -/
def Definition.ValueAggregation.Tells (ns : List Int) (v : BucketValue) : ValueAggregation → Prop
  | .sum => (SumsFit ns → v = .whole ns.sum) ∧ (¬ SumsFit ns → v.IsReal)
  | .min => ns.min?.map .whole = some v
  | .max => ns.max?.map .whole = some v
  | .avg => SumsFit ns → v = .real (Float.ofInt ns.sum / Float.ofNat ns.length)

namespace Accumulator

variable {a : Accumulator} {qs : List Quantity} {ns : List Int}

theorem tells_of_whole (path : String) (agg : ValueAggregation) (hns : ∀ n ∈ ns, InRange n)
    (ha : ofList (ns.map .whole) = some a) : agg.Tells ns ((Reading.field path agg).result a) := by
  cases ns with
  | nil => cases ha
  | cons n ns =>
      rw [List.map_cons, ofList, Option.some.injEq] at ha
      subst ha
      rw [foldl_push]
      have hsums := Quantity.foldl_add_whole (hns n List.mem_cons_self) ns
      rw [← sumsFit_cons] at hsums
      cases agg with
      | sum =>
          simp only [ValueAggregation.Tells, Reading.result, ofFirst, List.sum_cons]
          rcases hsums with ⟨hfit, hsum⟩ | ⟨⟨p, hp, hout⟩, x, hreal⟩
          · exact ⟨fun _ => by rw [hsum]; rfl, fun hnot => absurd hfit hnot⟩
          · exact ⟨fun hfit => absurd (sumsFit_cons.1 hfit p hp) hout, fun _ => ⟨x, by rw [hreal]; rfl⟩⟩
      | min =>
          simp only [ValueAggregation.Tells, List.min?_cons', Reading.result, ofFirst, Quantity.foldl_min_whole]
          rfl
      | max =>
          simp only [ValueAggregation.Tells, List.max?_cons', Reading.result, ofFirst, Quantity.foldl_max_whole]
          rfl
      | avg =>
          intro hfit
          rcases hsums with ⟨-, hsum⟩ | ⟨⟨p, hp, hout⟩, -⟩
          · simp [Reading.result, ofFirst, hsum, Quantity.toFloat, Nat.add_comm 1]
          · exact absurd (sumsFit_cons.1 hfit p hp) hout

theorem isReal_result_sum {path : String} :
    ((Reading.field path .sum).result a).IsReal ↔ a.sum.IsReal := by
  rw [Reading.result]
  cases a.sum <;> simp [Quantity.toBucketValue, BucketValue.IsReal, Quantity.IsReal]

theorem isReal_sum_of_mem {x : Float} (ha : ofList qs = some a) (hx : .real x ∈ qs) : a.sum.IsReal := by
  cases qs with
  | nil => cases ha
  | cons q qs =>
      rw [ofList, Option.some.injEq] at ha
      subst ha
      rw [foldl_push]
      rcases List.mem_cons.1 hx with rfl | hmem
      · exact Quantity.isReal_foldl_add ⟨x, rfl⟩ qs
      · exact Quantity.isReal_foldl_add_of_mem hmem q

theorem isReal_sum_append {b : Accumulator} {ps : List Quantity} (ha : ofList qs = some a)
    (hb : ofList (qs ++ ps) = some b) (h : a.sum.IsReal) : b.sum.IsReal := by
  cases qs with
  | nil => cases ha
  | cons q qs =>
      rw [ofList, Option.some.injEq] at ha
      rw [List.cons_append, ofList, Option.some.injEq, List.foldl_append, ha] at hb
      rw [← hb, foldl_push]
      exact Quantity.isReal_foldl_add h ps

end Accumulator

namespace Accumulators

def offer (limit : Nat) (as : Accumulators) (a : Sample) : Accumulators :=
  match as.add limit a.key a.quantity with
  | .ok as' => as'
  | .error _ => as

variable {as : Accumulators} {limit : Nat} {a : Sample} {xs : List Sample} {k : DimensionKey}

theorem offer_cases (limit : Nat) (as : Accumulators) (a : Sample) :
    (∃ as', as.add limit a.key a.quantity = .ok as' ∧ as.size ≤ as'.size ∧ as.offer limit a = as') ∨
      (as.get? a.key = none ∧ limit ≤ as.size ∧ as.offer limit a = as) := by
  rw [offer]
  cases hadd : as.add limit a.key a.quantity with
  | ok as' =>
      obtain ⟨-, rfl⟩ := add_eq_ok.1 hadd
      exact .inl ⟨_, rfl, Table.size_le_size_insert as _ _, rfl⟩
  | error r =>
      have hnot := (add_eq_error.1 hadd).1
      rw [not_or, not_not, Nat.not_lt] at hnot
      exact .inr ⟨hnot.1, hnot.2, rfl⟩

/-- A key has all of its samples, or none where it came too late for the room that there was. -/
def Fills (limit : Nat) (as : Accumulators) (xs : List Sample) : Prop :=
  ∀ k, as.get? k = Accumulator.ofList (Sample.quantities k xs) ∨ as.get? k = none ∧ limit ≤ as.size

theorem Fills.offer (h : as.Fills limit xs) (a : Sample) : (as.offer limit a).Fills limit (xs ++ [a]) := by
  intro k
  rw [Sample.quantities_concat]
  rcases offer_cases limit as a with ⟨as', hadd, hsize, hoffer⟩ | ⟨hnone, hfull, hoffer⟩ <;> rw [hoffer]
  · rw [get?_add hadd]
    split
    next =>
      rcases h a.key with hof | ⟨hnone, hfull⟩
      · rw [Accumulator.ofList_concat, hof]
        exact .inl rfl
      · exact absurd (add_eq_ok.1 hadd).1 (by simp [hnone, hfull])
    next => exact (h k).imp_right fun ⟨hk, hfull⟩ => ⟨hk, hfull.trans hsize⟩
  · split
    next hk => exact .inr ⟨(Table.get?_congr hk as).trans hnone, hfull⟩
    next => exact h k

theorem fills_foldl (limit : Nat) (xs : List Sample) : (xs.foldl (offer limit) .empty).Fills limit xs := by
  induction xs using List.reverseRecOn with
  | nil => exact fun _ => .inl rfl
  | append_singleton xs a ih =>
      rw [List.foldl_concat]
      exact ih.offer a

theorem isSome_offer (h : (as.get? k).isSome) (a : Sample) : ((as.offer limit a).get? k).isSome := by
  rcases offer_cases limit as a with ⟨as', hadd, -, hoffer⟩ | ⟨-, -, hoffer⟩ <;> rw [hoffer]
  · rw [get?_add hadd]
    split
    · rfl
    · exact h
  · exact h

theorem isSome_foldl (h : (as.get? k).isSome) (xs : List Sample) :
    ((xs.foldl (offer limit) as).get? k).isSome := by
  induction xs generalizing as with
  | nil => exact h
  | cons a xs ih => exact ih (isSome_offer h a)

end Accumulators

/-- The samples that events bring, each under its key. -/
def Reading.samples (r : Reading) (xs : List (DimensionKey × Event)) : List Sample :=
  xs.filterMap fun x => (r.sample x.2).toOption.map (⟨x.2.time, x.1, ·⟩)

theorem Reading.samples_append (r : Reading) (xs ys : List (DimensionKey × Event)) :
    r.samples (xs ++ ys) = r.samples xs ++ r.samples ys := List.filterMap_append

theorem Sample.quantities_append (k : DimensionKey) (xs ys : List Sample) :
    quantities k (xs ++ ys) = quantities k xs ++ quantities k ys := by
  simp only [quantities, List.filter_append, List.map_append]

/-- The numbers at a field in the events of a key. A text is no number. -/
def numbersAt (path : String) (k : DimensionKey) (xs : List (DimensionKey × Event)) : List Value :=
  ((xs.filter fun x => x.1.canonical = k.canonical).filterMap (·.2.field? path)).filter (·.toFloat?.isSome)

theorem Reading.toOption_sample (path : String) (agg : ValueAggregation) (e : Event) :
    ((Reading.field path agg).sample e).toOption = (e.field? path).bind Quantity.ofValue? := by
  rw [sample]
  cases e.field? path with
  | none => rfl
  | some v => cases v <;> rfl

theorem quantities_samples (path : String) (agg : ValueAggregation) (k : DimensionKey)
    (xs : List (DimensionKey × Event)) :
    Sample.quantities k ((Reading.field path agg).samples xs) =
      (numbersAt path k xs).filterMap Quantity.ofValue? := by
  rw [Sample.quantities, Reading.samples, List.filter_filterMap, List.map_filterMap, numbersAt,
    List.filterMap_filter, List.filterMap_filterMap, List.filterMap_filter]
  refine List.filterMap_congr fun x _ => ?_
  rw [Reading.toOption_sample]
  cases x.2.field? path with
  | none => simp
  | some v => by_cases hk : x.1.canonical = k.canonical <;> cases v <;> simp [hk, Quantity.ofValue?, Value.toFloat?]

theorem length_numbersAt (path : String) (k : DimensionKey) (xs : List (DimensionKey × Event)) :
    ((numbersAt path k xs).filterMap Quantity.ofValue?).length = (numbersAt path k xs).length := by
  refine List.filterMap_length_eq_length.2 fun v hv => ?_
  have hnumber := (List.mem_filter.1 hv).2
  cases v <;> first | rfl | exact hnumber

theorem ofValue?_of_not_real {vs : List Value} (h : ∀ x, .real x ∉ vs) :
    vs.filterMap Quantity.ofValue? = (vs.filterMap Value.toInt?).map .whole := by
  rw [List.map_filterMap]
  refine List.filterMap_congr fun v hv => ?_
  cases v with
  | real x => exact absurd hv (h x)
  | int n | ordinal n | text s => rfl

namespace Accumulators

variable {as : Accumulators} {k : DimensionKey} {r : Reading} {row : Row}

theorem of_mem_rows (hrow : row ∈ as.rows r) (hk : row.key.canonical = k.canonical) :
    ∃ a, as.get? k = some a ∧ row.value = r.result a ∧ row.samples = a.count := by
  obtain ⟨e, he, rfl⟩ := List.mem_map.1 hrow
  exact ⟨e.2, (Table.get?_congr hk.symm as).trans (Table.get?_of_mem he), rfl, rfl⟩

theorem countP_rows (h : (as.get? k).isSome) (r : Reading) :
    (as.rows r).countP (fun row => row.key.canonical = k.canonical) = 1 := by
  rw [rows, List.countP_map]
  exact (Table.countP_entries as k).trans (if_pos h)

end Accumulators

namespace Metric

variable {m n : Metric} {r : Reading}

def offer (r : Reading) (m : Metric) (x : DimensionKey × Event) : Metric :=
  match m.takeSample r x.1 x.2 with
  | .ok n => n
  | .error _ => m

def gather (m : Metric) (r : Reading) (xs : List (DimensionKey × Event)) : Metric := xs.foldl (offer r) m

theorem offer_eq (r : Reading) (m : Metric) (x : DimensionKey × Event) :
    m.offer r x =
      { m with samples := (r.samples [x]).foldl (Accumulators.offer m.plan.maxDimensions) m.samples } := by
  rw [offer, takeSample]
  cases hq : r.sample x.2 with
  | error _ => simp [Reading.samples, hq, bind, Except.bind, Except.toOption]
  | ok q =>
      cases hadd : m.samples.add m.plan.maxDimensions x.1 q <;>
        simp [Reading.samples, hq, hadd, bind, Except.bind, pure, Except.pure, Except.toOption, Accumulators.offer]

theorem gather_eq (m : Metric) (r : Reading) (xs : List (DimensionKey × Event)) :
    m.gather r xs =
      { m with samples := (r.samples xs).foldl (Accumulators.offer m.plan.maxDimensions) m.samples } := by
  induction xs using List.reverseRecOn with
  | nil => rfl
  | append_singleton xs x ih =>
      rw [gather, List.foldl_concat, ← gather, ih, offer_eq, Reading.samples_append, List.foldl_append]

theorem isSome_of_takeSample {k : DimensionKey} {e : Event} (h : m.takeSample r k e = .ok n) :
    (n.samples.get? k).isSome := by
  obtain ⟨q, ss, -, hadd, rfl⟩ := (takeSample_eq_ok e).1 h
  have hk := Accumulators.get?_add (a := ⟨e.time, k, q⟩) hadd k
  rw [if_pos rfl] at hk
  rw [hk]
  rfl

theorem rows_gather {what : Nat} (hrule : m.plan.rule = .sampled what r) (xs : List (DimensionKey × Event)) :
    (m.gather r xs).rows = (m.gather r xs).samples.rows r := by
  rw [gather_eq, Metric.rows, hrule]

theorem ofList_of_mem_rows {what : Nat} (hrule : m.plan.rule = .sampled what r) (hempty : m.samples = .empty)
    {xs : List (DimensionKey × Event)} {row : Row} (hrow : row ∈ (m.gather r xs).rows) {k : DimensionKey}
    (hk : row.key.canonical = k.canonical) :
    ∃ a, Accumulator.ofList (Sample.quantities k (r.samples xs)) = some a ∧ row.value = r.result a ∧
      row.samples = a.count := by
  rw [rows_gather hrule, gather_eq, hempty] at hrow
  obtain ⟨a, ha, hrow⟩ := Accumulators.of_mem_rows hrow hk
  refine ⟨a, ?_, hrow⟩
  rcases Accumulators.fills_foldl m.plan.maxDimensions (r.samples xs) k with hfull | ⟨hnone, -⟩
  · rw [← hfull, ha]
  · rw [ha] at hnone
    cases hnone

/-- A key to which a sample of a bucket was added has one row. That row counts all numbers that came for the
key; it tells exactly of whole numbers, and a sum in which there is a double is a double, as it is from the
first partial sum that leaves its word to the end of the bucket. -/
theorem rows_of_numbers {what : Nat} {path : String} {agg : ValueAggregation}
    (hrule : m.plan.rule = .sampled what (.field path agg)) (hempty : m.samples = .empty)
    (xs : List (DimensionKey × Event)) (k : DimensionKey) :
    let reading := Reading.field path agg
    let rows (ys : List (DimensionKey × Event)) := (m.gather reading ys).rows
    let numbers := numbersAt path k xs
    let wholes := numbers.filterMap Value.toInt?
    (∀ earlier e later n, xs = earlier ++ (k, e) :: later →
      (m.gather reading earlier).takeSample reading k e = .ok n →
      (rows xs).countP (fun row => row.key.canonical = k.canonical) = 1) ∧
    ∀ row ∈ rows xs, row.key.canonical = k.canonical → row.samples = numbers.length ∧
      ((∀ x, .real x ∉ numbers) → (∀ n ∈ wholes, InRange n) → agg.Tells wholes row.value) ∧
      (agg = .sum → ((∃ x, .real x ∈ numbers) → row.value.IsReal) ∧
        ∀ ys, ys <+: xs → ∀ before ∈ rows ys, before.key.canonical = k.canonical →
          before.value.IsReal → row.value.IsReal) := by
  intro reading rows numbers wholes
  refine ⟨fun earlier e later n hxs htake => ?_, fun row hrow hk => ?_⟩
  · have hsome : ((m.gather reading xs).samples.get? k).isSome := by
      rw [hxs, gather, List.foldl_append, List.foldl_cons, ← gather, ← gather, offer, htake, gather_eq]
      exact Accumulators.isSome_foldl (isSome_of_takeSample htake) _
    simp only [rows]
    rw [rows_gather hrule]
    exact Accumulators.countP_rows hsome reading
  · obtain ⟨a, ha, hvalue, hcount⟩ := ofList_of_mem_rows hrule hempty hrow hk
    have hqs : Sample.quantities k (reading.samples xs) = _ := quantities_samples path agg k xs
    rw [hvalue, hcount, (Accumulator.result_ofList ha reading).2]
    refine ⟨by rw [hqs, length_numbersAt], fun hreal hrange => ?_, ?_⟩
    · rw [hqs, ofValue?_of_not_real hreal] at ha
      exact Accumulator.tells_of_whole path agg hrange ha
    · rintro rfl
      rw [Accumulator.isReal_result_sum]
      constructor
      · rintro ⟨x, hx⟩
        have hmem : Quantity.real x ∈ (numbersAt path k xs).filterMap Quantity.ofValue? :=
          List.mem_filterMap.2 ⟨_, hx, rfl⟩
        exact Accumulator.isReal_sum_of_mem ha (hqs ▸ hmem)
      · rintro ys ⟨zs, rfl⟩ before hbefore hkey hreal
        obtain ⟨b, hb, hvalue, -⟩ := ofList_of_mem_rows hrule hempty hbefore hkey
        rw [hvalue, Accumulator.isReal_result_sum] at hreal
        rw [Reading.samples_append, Sample.quantities_append] at ha
        exact Accumulator.isReal_sum_append hb ha hreal

/-- A sum that leaves its word and comes back, beside that of another key. -/
theorem rows_of_numbers_rooms :
    let m : Metric :=
      { plan := { id := "total", rule := .sampled 0 (.field "v" .sum), gate := none, dimensions := ["room"]
                  maxDimensions := 2 }
        grid := { size := 9 }, windows := [] }
    let sample (room : Int) (v : Value) : DimensionKey × Event :=
      (⟨[("room", .int room)]⟩, { atom := 0, time := 0, fields := .ofList [("v", v)] })
    let xs := [sample 1 (.int Instant.last), sample 2 (.ordinal 3), sample 1 (.int 1), sample 1 (.int (-1))]
    let rows := (m.gather (.field "v" .sum) xs).rows
    (∃ row ∈ rows, row.key.canonical = DimensionKey.canonical ⟨[("room", .int 1)]⟩ ∧ row.samples = 3 ∧
      row.value.IsReal) ∧
    ∃ row ∈ rows, row.key.canonical = DimensionKey.canonical ⟨[("room", .int 2)]⟩ ∧ row.samples = 1 ∧
      row.value = .whole 3 := by
  intro m sample xs rows
  have hrule : m.plan.rule = .sampled 0 (.field "v" .sum) := rfl
  have hempty : m.samples = .empty := rfl
  have hwhole : ∀ room, (∀ v ∈ numbersAt "v" ⟨[("room", .int room)]⟩ xs, v.toInt?.isSome) →
      ∀ x, Value.real x ∉ numbersAt "v" ⟨[("room", .int room)]⟩ xs := fun room hints x hx =>
    Bool.noConfusion (hints _ hx)
  obtain ⟨hfirst, hfirstTold⟩ := rows_of_numbers hrule hempty xs ⟨[("room", .int 1)]⟩
  obtain ⟨hsecond, hsecondTold⟩ := rows_of_numbers hrule hempty xs ⟨[("room", .int 2)]⟩
  obtain ⟨row, hrow, hk⟩ := List.one_le_countP_iff.1 (hfirst [] _ _ _ rfl rfl).ge
  obtain ⟨row', hrow', hk'⟩ :=
    List.one_le_countP_iff.1 (hsecond [sample 1 (.int Instant.last)] _ _ _ rfl rfl).ge
  obtain ⟨hcount, htells, -⟩ := hfirstTold row hrow (of_decide_eq_true hk)
  obtain ⟨hcount', htells', -⟩ := hsecondTold row' hrow' (of_decide_eq_true hk')
  have hthree : (numbersAt "v" ⟨[("room", .int 2)]⟩ xs).filterMap Value.toInt? = [3] := by decide +kernel
  rw [hthree] at htells'
  have hfit : SumsFit [3] := sumsFit_cons.2 fun p hp => by
    rw [List.prefix_nil.1 hp]
    decide
  refine ⟨⟨row, hrow, of_decide_eq_true hk, hcount.trans (by decide +kernel), ?_⟩,
    row', hrow', of_decide_eq_true hk', hcount'.trans (by decide +kernel), ?_⟩
  · refine (htells (hwhole 1 (by decide +kernel)) (by decide +kernel)).2 fun hfit => ?_
    exact absurd (hfit [Instant.last, 1] ⟨[-1], by decide +kernel⟩) (by decide)
  · exact (htells' (hwhole 2 (by decide +kernel)) (by decide +kernel)).1 hfit

end Metric

end EventMetrics
