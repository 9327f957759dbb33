import EventMetrics.Proofs.Metric.Closing
import EventMetrics.Proofs.Table

namespace EventMetrics

open Instant (first last)

structure Sample where
  time : Int
  key : DimensionKey
  quantity : Quantity

/-- The aggregate of quantities in the order of their arrival; of none there is no aggregate. -/
def Reading.aggregate? (r : Reading) : List Quantity → Option BucketValue
  | [] => none
  | q :: qs =>
    some <| match r with
      | count => .whole (qs.length + 1 : Nat)
      | field _ .sum => (qs.foldl .add q).toBucketValue
      | field _ .min => (qs.foldl .min q).toBucketValue
      | field _ .max => (qs.foldl .max q).toBucketValue
      | field _ .avg => .real ((qs.foldl .add q).toFloat / Float.ofNat (qs.length + 1))

namespace Accumulator

def ofList : List Quantity → Option Accumulator
  | [] => none
  | q :: qs => some (qs.foldl push (ofFirst q))

theorem foldl_push (a : Accumulator) (qs : List Quantity) : qs.foldl push a =
    ⟨qs.foldl .add a.sum, qs.foldl .min a.least, qs.foldl .max a.greatest, a.count + qs.length⟩ := by
  induction qs generalizing a with
  | nil => rfl
  | cons q qs ih =>
      rw [List.foldl_cons, ih]
      simp [push, Nat.add_assoc, Nat.add_comm 1]

theorem ofList_concat (qs : List Quantity) (q : Quantity) :
    ofList (qs ++ [q]) = some ((ofList qs).elim (ofFirst q) (·.push q)) := by
  cases qs with
  | nil => rfl
  | cons p qs => simp [ofList]

theorem result_ofList {qs : List Quantity} {a : Accumulator} (h : ofList qs = some a) (r : Reading) :
    r.aggregate? qs = some (r.result a) ∧ a.count = qs.length := by
  cases qs with
  | nil => cases h
  | cons q qs =>
      cases h
      rw [foldl_push]
      refine ⟨?_, Nat.add_comm 1 _⟩
      rcases r with _ | ⟨_, _ | _ | _ | _⟩ <;> simp [Reading.aggregate?, Reading.result, ofFirst, Nat.add_comm 1]

end Accumulator

def Sample.quantities (k : DimensionKey) (xs : List Sample) : List Quantity :=
  (xs.filter fun a => a.key.canonical = k.canonical).map (·.quantity)

theorem Sample.quantities_concat (k : DimensionKey) (xs : List Sample) (a : Sample) :
    quantities k (xs ++ [a]) =
      if k.canonical = a.key.canonical then quantities a.key xs ++ [a.quantity] else quantities k xs := by
  by_cases hk : k.canonical = a.key.canonical <;> simp [quantities, List.filter_append, hk, eq_comm]

namespace Accumulators

theorem add_eq_ok {as as' : Accumulators} {limit : Nat} {k : DimensionKey} {q : Quantity} :
    as.add limit k q = .ok as' ↔ (as.get? k ≠ none ∨ as.size < limit) ∧
      as' = as.insert k ((as.get? k).elim (.ofFirst q) (·.push q)) := by
  rw [add]
  cases as.get? k with
  | some a => simp [eq_comm]
  | none =>
      by_cases hfull : limit ≤ as.size
      · simp [hfull, Nat.not_lt.2 hfull]
      · simp [hfull, Nat.lt_of_not_le hfull, eq_comm]

theorem add_eq_error {as : Accumulators} {limit : Nat} {key : DimensionKey} {q : Quantity}
    {reason : DropReason} : as.add limit key q = .error reason ↔
      ¬ (as.get? key ≠ none ∨ as.size < limit) ∧ reason = .dimensionLimit := by
  rw [add]
  cases as.get? key with
  | some a => simp
  | none => by_cases hfull : limit ≤ as.size <;> simp [hfull, eq_comm, Nat.lt_of_not_le]

theorem get?_add {as as' : Accumulators} {a : Sample} {limit : Nat}
    (hadd : as.add limit a.key a.quantity = .ok as') (k : DimensionKey) :
    as'.get? k = if k.canonical = a.key.canonical then
      some ((as.get? a.key).elim (.ofFirst a.quantity) (·.push a.quantity)) else as.get? k := by
  rw [(add_eq_ok.1 hadd).2, Table.get?_insert]
  rfl

/-- What is gathered is what the samples come to, key by key. -/
def Holds (as : Accumulators) (xs : List Sample) : Prop :=
  ∀ k, as.get? k = Accumulator.ofList (Sample.quantities k xs)

theorem holds_empty : Holds .empty [] := fun _ => rfl

theorem Holds.add {as as' : Accumulators} {xs : List Sample} {a : Sample} {limit : Nat} (h : Holds as xs)
    (hadd : as.add limit a.key a.quantity = .ok as') : Holds as' (xs ++ [a]) := by
  intro k
  rw [get?_add hadd, Sample.quantities_concat]
  split
  next => rw [Accumulator.ofList_concat, ← h a.key]
  next => exact h k

end Accumulators

/-- Whether a sample belongs to a row: its key, and the bucket of some length that starts there. -/
def Record.Bucket.Takes (r : Record.Bucket) (size : Int) (a : Sample) : Prop :=
  a.key.canonical = r.dimension.canonical ∧ r.start ≤ a.time ∧ a.time < r.start + size

instance (r : Record.Bucket) (size : Int) (a : Sample) : Decidable (r.Takes size a) :=
  inferInstanceAs (Decidable (_ ∧ _))

theorem Instant.lt_after_iff {s d t : Int} (hs : first ≤ s) (hd : 0 < d) (ht : t < last) :
    t < after s d ↔ t < s + d := by
  simp only [after, clamp, first, last] at *
  omega

/-- The samples before `b` are in their rows: the rows hold what they take, and each sample is taken
once. -/
structure Filed (reading : Reading) (size : Int) (A : List Sample) (b : Int) (bs : List Record.Bucket) :
    Prop where
  before : ∀ r ∈ bs, first ≤ r.start ∧ Instant.after r.start size ≤ b
  exact : ∀ r ∈ bs,
    reading.aggregate? ((A.filter fun a => r.Takes size a).map (·.quantity)) = some r.value ∧
      r.samples = (A.filter fun a => r.Takes size a).length
  once : ∀ a ∈ A, a.time < b → bs.countP (fun r => r.Takes size a) = 1

namespace Accumulators.Holds

variable {as : Accumulators} {reading : Reading} {size stop : Int} {A : List Sample} {slot : Slot} {m : Metric}
  {a : Sample} {r : Record.Bucket}

theorem start_of_mem_rows (hr : r ∈ (as.rows reading).map (m.toBucket slot stop)) : r.start = slot.start := by
  obtain ⟨row, -, rfl⟩ := List.mem_map.1 hr
  rfl

theorem takes_iff (hfirst : first ≤ slot.start) (hsize : 0 < size)
    (hstop : slot.stop = Instant.after slot.start size) (ha : a.time < slot.stop) (row : Row) :
    (m.toBucket slot stop row).Takes size a ↔ a.key.canonical = row.key.canonical ∧ slot.start ≤ a.time := by
  rw [hstop] at ha
  have hlast : a.time < last := Int.lt_of_lt_of_le ha (Instant.clamp_inRange _).2
  have hend := (Instant.lt_after_iff hfirst hsize hlast).1 ha
  simp [Record.Bucket.Takes, Metric.toBucket, hend]

theorem exact_of_mem_rows (has : as.Holds (A.filter fun a => slot.start ≤ a.time)) (hfirst : first ≤ slot.start)
    (hsize : 0 < size) (hstop : slot.stop = Instant.after slot.start size) (hA : ∀ a ∈ A, a.time < slot.stop)
    (hr : r ∈ (as.rows reading).map (m.toBucket slot stop)) :
    reading.aggregate? ((A.filter fun a => r.Takes size a).map (·.quantity)) = some r.value ∧
      r.samples = (A.filter fun a => r.Takes size a).length := by
  simp only [Accumulators.rows, List.map_map, List.mem_map] at hr
  obtain ⟨e, he, rfl⟩ := hr
  have hquantities : A.filter (fun a =>
      (m.toBucket slot stop ⟨e.1, reading.result e.2, e.2.count⟩).Takes size a) =
      (A.filter fun a => slot.start ≤ a.time).filter fun a => a.key.canonical = e.1.canonical := by
    rw [List.filter_filter]
    apply List.filter_congr
    intro a ha
    simp [takes_iff hfirst hsize hstop (hA a ha)]
  have hvalue := has e.1
  rw [Table.get?_of_mem he] at hvalue
  obtain ⟨hresult, hcount⟩ := Accumulator.result_ofList hvalue.symm reading
  rw [Sample.quantities, ← hquantities] at hresult hcount
  exact ⟨hresult, hcount.trans (by simp)⟩

theorem countP_rows (has : as.Holds (A.filter fun a => slot.start ≤ a.time)) (hfirst : first ≤ slot.start)
    (hsize : 0 < size) (hstop : slot.stop = Instant.after slot.start size) (ha : a ∈ A)
    (hlt : a.time < slot.stop) (hsince : slot.start ≤ a.time) :
    ((as.rows reading).map (m.toBucket slot stop)).countP (fun r => r.Takes size a) = 1 := by
  have hone : as.entries.countP (fun e => e.1.canonical = a.key.canonical) = 1 := by
    refine (Table.countP_entries as a.key).trans (if_pos ?_)
    rw [has a.key]
    have hmem : a ∈ (A.filter fun a => slot.start ≤ a.time).filter fun c => c.key.canonical = a.key.canonical :=
      List.mem_filter.2 ⟨List.mem_filter.2 ⟨ha, by simpa using hsince⟩, by simp⟩
    rw [Sample.quantities]
    cases hq : (A.filter fun a => slot.start ≤ a.time).filter fun c => c.key.canonical = a.key.canonical with
    | nil => simp [hq] at hmem
    | cons c cs => rfl
  rw [← hone, Accumulators.rows, List.map_map, List.countP_map]
  apply List.countP_congr
  intro e _
  have htakes : (m.toBucket slot stop ⟨e.1, reading.result e.2, e.2.count⟩).Takes size a ↔ _ :=
    takes_iff hfirst hsize hstop hlt _
  simp only [Function.comp_apply, decide_eq_true_eq, htakes]
  constructor
  · exact fun h => h.1.symm
  · exact fun h => ⟨h.symm, hsince⟩

end Accumulators.Holds

namespace Filed

variable {reading : Reading} {size b : Int} {A : List Sample} {bs : List Record.Bucket}

theorem nil : Filed reading size [] b [] := ⟨by simp, by simp, by simp⟩

theorem not_takes (h : Filed reading size A b bs) (hsize : 0 < size) {a : Sample} (ha : b ≤ a.time)
    (hlast : a.time < last) {r : Record.Bucket} (hr : r ∈ bs) : ¬ r.Takes size a := by
  rintro ⟨-, -, hlt⟩
  obtain ⟨hfirst, hle⟩ := h.before r hr
  have := (Instant.lt_after_iff hfirst hsize hlast).2 hlt
  omega

theorem accept (h : Filed reading size A b bs) (hsize : 0 < size) {a : Sample} (ha : b ≤ a.time)
    (hlast : a.time < last) : Filed reading size (A ++ [a]) b bs where
  before := h.before
  exact r hr := by
    have hnot := h.not_takes hsize ha hlast hr
    simpa [List.filter_append, hnot] using h.exact r hr
  once c hc hlt := by
    rcases List.mem_append.1 hc with hc | hc
    · exact h.once c hc hlt
    · rw [List.mem_singleton.1 hc] at hlt
      omega

theorem reach (h : Filed reading size A b bs) (hA : ∀ a ∈ A, a.time < b) {b' : Int} (hb : b ≤ b') :
    Filed reading size A b' bs where
  before r hr := ⟨(h.before r hr).1, Int.le_trans (h.before r hr).2 hb⟩
  exact := h.exact
  once a ha _ := h.once a ha (hA a ha)

theorem close {slot : Slot} {as : Accumulators} (h : Filed reading size A slot.start bs) (hsize : 0 < size)
    (hfirst : first ≤ slot.start) (hle : slot.start ≤ slot.stop)
    (hstop : slot.stop = Instant.after slot.start size)
    (has : as.Holds (A.filter fun a => slot.start ≤ a.time)) (hA : ∀ a ∈ A, a.time < slot.stop)
    (m : Metric) (stop : Int) :
    Filed reading size A slot.stop (bs ++ (as.rows reading).map (m.toBucket slot stop)) := by
  constructor
  · intro r hr
    rcases List.mem_append.1 hr with hr | hr
    · exact ⟨(h.before r hr).1, Int.le_trans (h.before r hr).2 hle⟩
    · rw [Accumulators.Holds.start_of_mem_rows hr, ← hstop]
      exact ⟨hfirst, Int.le_refl _⟩
  · intro r hr
    rcases List.mem_append.1 hr with hr | hr
    · exact h.exact r hr
    · exact has.exact_of_mem_rows hfirst hsize hstop hA hr
  · intro a ha hlt
    rw [List.countP_append]
    by_cases hbefore : a.time < slot.start
    · -- a row takes nothing from before its start
      have hnone : ((as.rows reading).map (m.toBucket slot stop)).countP (fun r => r.Takes size a) = 0 := by
        refine List.countP_eq_zero.2 fun r hr htakes => ?_
        have hstart := (of_decide_eq_true htakes).2.1
        rw [Accumulators.Holds.start_of_mem_rows hr] at hstart
        omega
      rw [h.once a ha hbefore, hnone]
    · have hlast : a.time < last := by
        rw [hstop] at hlt
        exact Int.lt_of_lt_of_le hlt (Instant.clamp_inRange _).2
      have hnone : bs.countP (fun r => r.Takes size a) = 0 := by
        refine List.countP_eq_zero.2 fun r hr => ?_
        simpa using h.not_takes hsize (by omega) hlast hr
      rw [hnone, Nat.zero_add]
      exact has.countP_rows hfirst hsize hstop ha hlt (by omega)

end Filed

end EventMetrics
