import EventMetrics.Metric.Intervals
import EventMetrics.Proofs.Table

namespace EventMetrics

open Instant (last)

namespace Interval

def running (iv : Interval) (time : Int) : Int := iv.since.elim 0 (time - ·)

variable {iv : Interval}

theorem running_of_none (h : iv.since = none) (time : Int) : iv.running time = 0 := by
  rw [running, h, Option.elim_none]

theorem running_of_some {s : Int} (h : iv.since = some s) (time : Int) : iv.running time = time - s := by
  rw [running, h, Option.elim_some]

theorem running_nonneg {time : Int} (h : ∀ s, iv.since = some s → s ≤ time) : 0 ≤ iv.running time := by
  cases hs : iv.since with
  | none => exact Int.le_of_eq (running_of_none hs time).symm
  | some s =>
      rw [running_of_some hs]
      exact Int.sub_nonneg_of_le (h s hs)

end Interval

namespace Intervals

def gathered (ts : Totals) (k : DimensionKey) : Int := (ts.get? k).elim 0 (·.nanos)

def held (is : Intervals) (time : Int) (k : DimensionKey) : Int :=
  gathered is.totals k + (is.opened.get? k).elim 0 (·.running time)

/-- The intervals account for some time of each key between `floor` and `τ`; it is never more than
there is, and so no sum overflows. -/
structure Reckons (floor τ : Int) (count : DimensionKey → Int) (is : Intervals) : Prop where
  le : floor ≤ τ
  length : τ - floor ≤ last
  bounded : ∀ k, count k ≤ τ - floor
  held : ∀ k, is.held τ k = count k
  gathered : ∀ k, 0 ≤ gathered is.totals k
  since : ∀ k iv s, is.opened.get? k = some iv → iv.since = some s → floor ≤ s ∧ s ≤ τ

/-- A change at an instant that loses no time. -/
def Steady (τ : Int) (is is' : Intervals) : Prop :=
  ∀ floor count, is.Reckons floor τ count → is'.Reckons floor τ count

variable {is is' : Intervals} {floor τ : Int} {count : DimensionKey → Int} {k : DimensionKey}

theorem Steady.refl (τ : Int) (is : Intervals) : Steady τ is is := fun _ _ h => h

theorem Steady.trans {is'' : Intervals} (h : Steady τ is is') (h' : Steady τ is' is'') : Steady τ is is'' :=
  fun floor count hr => h' floor count (h floor count hr)

namespace Reckons

variable {iv : Interval}

theorem running_nonneg (h : Reckons floor τ count is) (hk : is.opened.get? k = some iv) : 0 ≤ iv.running τ :=
  Interval.running_nonneg fun s hs => (h.since k iv s hk hs).2

theorem gathered_add_le (h : Reckons floor τ count is) (hk : is.opened.get? k = some iv) :
    Intervals.gathered is.totals k + iv.running τ ≤ last := by
  have hheld := h.held k
  have hbounded := h.bounded k
  have hlength := h.length
  simp only [Intervals.held, hk, Option.elim_some] at hheld
  omega

theorem wait (h : Reckons floor τ count is) {τ' : Int} (hle : τ ≤ τ') (hlength : τ' - floor ≤ last)
    {count' : DimensionKey → Int}
    (hcount : ∀ k, count' k = count k + if ((is.opened.get? k).bind (·.since)).isSome then τ' - τ else 0) :
    Reckons floor τ' count' is where
  le := Int.le_trans h.le hle
  length := hlength
  bounded k := by
    have hb := h.bounded k
    rw [hcount]
    split <;> omega
  held k := by
    rw [hcount, ← h.held k]
    rw [Intervals.held, Intervals.held]
    cases hk : is.opened.get? k with
    | none => simp
    | some iv =>
        cases hs : iv.since with
        | none => simp [Interval.running, hs]
        | some s =>
            simp only [Option.elim_some, Interval.running, hs, Option.bind_some, Option.isSome_some, if_true]
            omega
  gathered := h.gathered
  since k iv s hk hs := by
    obtain ⟨hfloor, hτ⟩ := h.since k iv s hk hs
    omega

theorem rest (h : Reckons floor τ count is) (hcount : ∀ k, count k = 0)
    (hrest : ∀ k, ((is.opened.get? k).bind (·.since)).isSome = false) (τ' : Int) :
    Reckons τ' τ' (fun _ => 0) is := by
  have hrunning : ∀ x k, (is.opened.get? k).elim 0 (·.running x) = 0 := by
    intro x k
    have hr := hrest k
    cases hk : is.opened.get? k with
    | none => rfl
    | some iv =>
        rw [hk] at hr
        cases hs : iv.since with
        | none => simp [Interval.running, hs]
        | some s => simp [hs] at hr
  refine ⟨Int.le_refl _, by simp [last], fun _ => by simp, fun k => ?_, h.gathered, fun k iv s hk hs => ?_⟩
  · have hheld := h.held k
    rw [Intervals.held, hrunning, hcount] at hheld
    rw [Intervals.held, hrunning, hheld]
  · have hr := hrest k
    simp [hk, hs] at hr

end Reckons

theorem gathered_insert (ts : Totals) (j k : DimensionKey) (t : Total) :
    gathered (ts.insert j t) k = if Keyed.text k = Keyed.text j then t.nanos else gathered ts k := by
  rw [gathered, Table.get?_insert]
  split <;> rfl

theorem gathered_congr {j : DimensionKey} (h : Keyed.text j = Keyed.text k) (ts : Totals) :
    gathered ts j = gathered ts k := by
  rw [gathered, gathered, Table.get?_congr h]

theorem gathered_addSegment (ts : Totals) (j k : DimensionKey) (nanos : Int) :
    gathered (addSegment ts j nanos) k = if Keyed.text j = Keyed.text k then
      (if nanos ≤ 0 then gathered ts k else gathered ts k + nanos) else gathered ts k := by
  rw [addSegment]
  by_cases hn : nanos ≤ 0
  · rw [if_pos hn, if_pos hn, ite_self]
  · rw [if_neg hn, if_neg hn, gathered_insert]
    by_cases hjk : Keyed.text j = Keyed.text k
    · rw [if_pos hjk, if_pos hjk.symm, ← gathered_congr hjk]
      dsimp only
      congr 1
      rw [gathered]
      cases ts.get? j <;> rfl
    · rw [if_neg hjk, if_neg (Ne.symm hjk)]

theorem gathered_credit {n g : Int} (hn : 0 ≤ n) : (if n ≤ 0 then g else g + n) = g + n := by
  split <;> omega

structure Cuts (τ : Int) (iv : Interval) (r : Interval × Int) : Prop where
  nanos : r.2 + r.1.running τ = iv.running τ
  nonneg : 0 ≤ r.2
  since : ∀ s, r.1.since = some s → s = τ ∨ iv.since = some s

theorem Cuts.rfl {iv : Interval} : Cuts τ iv (iv, 0) :=
  ⟨Int.zero_add _, Int.le_refl 0, fun _ hs => .inr hs⟩

variable {iv : Interval}

theorem cuts_cut (h : Reckons floor τ count is) (hk : is.opened.get? k = some iv) {next : Option Int}
    (hnext : next = none ∨ next = some τ) : Cuts τ iv (cut .sum τ next iv) := by
  have hnone : ({ iv with since := next } : Interval).running τ = 0 := by
    rcases hnext with rfl | rfl <;> simp [Interval.running]
  refine ⟨?_, ?_, fun s hs => .inl ?_⟩
  · refine (congrArg ((cut .sum τ next iv).2 + ·) hnone).trans ?_
    rw [Int.add_zero, Interval.running, cut]
    cases hs : iv.since with
    | none => rfl
    | some s => exact Int.max_eq_left (Int.sub_nonneg_of_le (h.since k iv s hk hs).2)
  · simp only [cut]
    split
    · exact Int.le_max_right _ _
    · exact Int.le_refl 0
  · rcases hnext with rfl | rfl
    · cases hs
    · cases hs
      rfl

theorem cuts_regateOne (h : Reckons floor τ count is) (hk : is.opened.get? k = some iv) (isOpen : Bool) :
    Cuts τ iv (regateOne .sum τ isOpen iv) := by
  unfold regateOne
  split
  next hs => exact ⟨by simp [Interval.running, hs], Int.le_refl 0, fun s h => .inl (by cases h; rfl)⟩
  next => exact cuts_cut h hk (.inl rfl)
  next => exact .rfl

theorem gathered_sweep {f : Interval → Interval × Int}
    (hf : ∀ k iv, is.opened.get? k = some iv → Cuts τ iv (f iv)) (k : DimensionKey) :
    Intervals.gathered (is.sweep fun _ iv => f iv).totals k =
      Intervals.gathered is.totals k + (is.opened.get? k).elim 0 fun iv => (f iv).2 := by
  have hfold := Table.foldl_entries (fun ts => Intervals.gathered ts k)
    (fun (ts : Totals) (e : DimensionKey × Interval) => addSegment ts e.1 (f e.2).2)
    (fun iv g => if (f iv).2 ≤ 0 then g else g + (f iv).2)
    (fun ts e => gathered_addSegment ts e.1 k (f e.2).2) is.opened.ascending is.totals
  refine hfold.trans ?_
  cases hk : is.opened.get? k with
  | none =>
      rw [Table.get?] at hk
      rw [hk]
      exact (Int.add_zero _).symm
  | some iv =>
      have hcredit := gathered_credit (g := Intervals.gathered is.totals k) (hf k iv hk).nonneg
      rw [Table.get?] at hk
      rw [hk]
      exact hcredit

theorem opened_sweep (is : Intervals) (f : Interval → Interval × Int) (k : DimensionKey) :
    (is.sweep fun _ iv => f iv).opened.get? k = (is.opened.get? k).map fun iv => (f iv).1 :=
  Table.get?_mapValues is.opened (fun iv => (f iv).1) k

theorem Reckons.sweep (h : Reckons floor τ count is) {f : Interval → Interval × Int}
    (hf : ∀ k iv, is.opened.get? k = some iv → Cuts τ iv (f iv)) :
    Reckons floor τ count (is.sweep fun _ iv => f iv) := by
  refine ⟨h.le, h.length, h.bounded, fun k => ?_, fun k => ?_, fun k iv' s hk hs => ?_⟩
  · rw [← h.held k, Intervals.held, gathered_sweep hf, opened_sweep, Intervals.held]
    cases hk : is.opened.get? k with
    | none => simp
    | some iv =>
        have hnanos := (hf k iv hk).nanos
        simp only [Option.elim_some, Option.map_some]
        omega
  · have hg := h.gathered k
    rw [gathered_sweep hf]
    cases hk : is.opened.get? k with
    | none => simpa using hg
    | some iv =>
        have hnonneg := (hf k iv hk).nonneg
        simp only [Option.elim_some]
        omega
  · rw [opened_sweep, Option.map_eq_some_iff] at hk
    obtain ⟨iv, hiv, rfl⟩ := hk
    rcases (hf k iv hiv).since s hs with rfl | hold
    · exact ⟨h.le, Int.le_refl _⟩
    · exact h.since k iv s hiv hold

theorem Reckons.change (h : Reckons floor τ count is) (j : DimensionKey)
    (hother : ∀ k, Keyed.text k ≠ Keyed.text j → is'.opened.get? k = is.opened.get? k ∧
      Intervals.gathered is'.totals k = Intervals.gathered is.totals k)
    (hheld : is'.held τ j = is.held τ j) (hgathered : 0 ≤ Intervals.gathered is'.totals j)
    (hsince : ∀ iv s, is'.opened.get? j = some iv → iv.since = some s → floor ≤ s ∧ s ≤ τ) :
    Reckons floor τ count is' := by
  have hcongr : ∀ {k}, Keyed.text k = Keyed.text j → ∀ is : Intervals, is.held τ k = is.held τ j := by
    intro k hk is
    rw [Intervals.held, Intervals.held, gathered_congr hk, Table.get?_congr hk]
  refine ⟨h.le, h.length, h.bounded, fun k => ?_, fun k => ?_, fun k iv s hiv hs => ?_⟩
  · by_cases hk : Keyed.text k = Keyed.text j
    · rw [hcongr hk, hheld, ← hcongr hk, h.held]
    · obtain ⟨hopened, htotals⟩ := hother k hk
      rw [Intervals.held, hopened, htotals]
      exact h.held k
  · by_cases hk : Keyed.text k = Keyed.text j
    · rw [gathered_congr hk]
      exact hgathered
    · rw [(hother k hk).2]
      exact h.gathered k
  · by_cases hk : Keyed.text k = Keyed.text j
    · rw [Table.get?_congr hk] at hiv
      exact hsince iv s hiv hs
    · rw [(hother k hk).1] at hiv
      exact h.since k iv s hiv hs

theorem Reckons.insert (h : Reckons floor τ count is) {iv : Interval}
    (hrunning : iv.running τ = (is.opened.get? k).elim 0 (·.running τ))
    (hsince : ∀ s, iv.since = some s → floor ≤ s ∧ s ≤ τ) :
    Reckons floor τ count { is with opened := is.opened.insert k iv } := by
  refine h.change k (fun j hj => ⟨?_, rfl⟩) ?_ (h.gathered k) fun iv' s hiv hs => ?_
  · exact (Table.get?_insert is.opened k j iv).trans (if_neg hj)
  · rw [Intervals.held, Intervals.held, ← hrunning, Table.get?_insert, if_pos rfl]
    rfl
  · rw [Table.get?_insert, if_pos rfl] at hiv
    cases hiv
    exact hsince s hs

theorem steady_regate (is : Intervals) (gate : Option DimensionKey → Bool) :
    Steady τ is (is.regate .sum τ gate) := fun _ _ h =>
  h.sweep fun _ _ hk => cuts_regateOne h hk _

theorem steady_accrueTo (is : Intervals) : Steady τ is (is.accrueTo .sum τ) := by
  intro floor count h
  refine h.sweep fun k iv hk => ?_
  split
  · exact cuts_cut h hk (.inr rfl)
  · exact .rfl

theorem steady_stopAll (is : Intervals) : Steady τ is (is.stopAll .sum τ) := by
  intro floor count h
  have hcut := h.sweep fun k iv hk => cuts_cut h hk (.inl rfl)
  refine ⟨h.le, h.length, h.bounded, fun k => ?_, hcut.gathered, fun k iv s hk => by cases hk⟩
  have hheld := hcut.held k
  have hrest : ((is.sweep fun _ iv => cut .sum τ none iv).opened.get? k).elim 0 (·.running τ) = 0 := by
    rw [opened_sweep]
    cases is.opened.get? k <;> rfl
  rw [Intervals.held, hrest] at hheld
  exact hheld

theorem steady_start {nested isOpen : Bool} {limit : Nat} {k : DimensionKey} {link : Option DimensionKey}
    (hstart : is.start nested limit τ isOpen k link = .ok is') : Steady τ is is' := by
  intro floor count h
  rw [start] at hstart
  cases hk : is.opened.get? k with
  | some iv =>
      simp only [hk, Except.ok.injEq] at hstart
      rw [← hstart]
      refine h.insert ?_ fun s hs => ?_
      · rw [hk]
        cases hs : iv.since <;> cases isOpen <;> simp [Interval.running, hs]
      · dsimp only at hs
        split at hs
        · cases hs
          exact ⟨h.le, Int.le_refl _⟩
        · exact h.since k iv s hk hs
  | none =>
      simp only [hk] at hstart
      split at hstart
      · cases hstart
      · cases hstart
        refine h.insert ?_ fun s hs => ?_
        · rw [hk]
          cases isOpen <;> simp [Interval.running]
        · dsimp only at hs
          split at hs
          · cases hs
            exact ⟨h.le, Int.le_refl _⟩
          · cases hs

theorem steady_stop (is : Intervals) (nested : Bool) (k : DimensionKey) :
    Steady τ is (is.stop .sum nested τ k) := by
  intro floor count h
  rw [stop]
  cases hk : is.opened.get? k with
  | none => exact h
  | some iv =>
      dsimp only
      generalize (if nested then iv.nesting - 1 else 0) = nesting
      by_cases hn : 0 < nesting
      · rw [if_pos hn]
        refine h.insert ?_ fun s hs => h.since k iv s hk hs
        rw [hk]
        rfl
      · rw [if_neg hn]
        have hcut : Cuts τ iv (cut .sum τ none iv) := cuts_cut h hk (.inl rfl)
        have hend : gathered (endOne .sum τ is.totals k iv) k = gathered is.totals k + iv.running τ := by
          have hsegment : endOne .sum τ is.totals k iv = addSegment is.totals k (cut .sum τ none iv).2 := rfl
          rw [hsegment, gathered_addSegment, if_pos rfl, gathered_credit hcut.nonneg, ← hcut.nanos]
          exact congrArg _ (Int.add_zero _).symm
        refine h.change k (fun j hj => ⟨?_, ?_⟩) ?_ ?_ fun iv' s hiv hs => ?_
        · exact (Table.get?_erase is.opened k j).trans (if_neg hj)
        · exact (gathered_addSegment is.totals k j _).trans (if_neg (Ne.symm hj))
        · rw [Intervals.held, Intervals.held, hend, Table.get?_erase, if_pos rfl, hk]
          exact Int.add_zero _
        · rw [hend]
          exact Int.add_nonneg (h.gathered k) (h.running_nonneg hk)
        · rw [Table.get?_erase, if_pos rfl] at hiv
          cases hiv

theorem Reckons.gathered_accrueTo (h : Reckons floor τ count is) (k : DimensionKey) :
    Intervals.gathered (is.accrueTo .sum τ).totals k = count k := by
  have hheld := (steady_accrueTo is floor count h).held k
  have hrest : ((is.accrueTo .sum τ).opened.get? k).elim 0 (·.running τ) = 0 := by
    rw [accrueTo, opened_sweep]
    cases hk : is.opened.get? k with
    | none => rfl
    | some iv => cases hs : iv.since <;> simp [Interval.running, cut, hs]
  rw [Intervals.held, hrest, Int.add_zero] at hheld
  exact hheld

theorem total_of_mem_rows (is : Intervals) {r : Row} (hr : r ∈ is.rows) :
    ∃ v, is.totals.get? r.key = some v ∧ r.value = .whole v.nanos ∧ r.samples = v.segments := by
  obtain ⟨e, he, rfl⟩ := List.mem_map.1 hr
  exact ⟨e.2, Table.get?_of_mem (List.mem_filter.1 he).1, rfl, rfl⟩

theorem countP_rows (is : Intervals) (k : DimensionKey) :
    is.rows.countP (fun r => r.key.canonical = k.canonical) = if 0 < Intervals.gathered is.totals k then 1 else 0 := by
  have hcount : is.rows.countP (fun r => r.key.canonical = k.canonical) =
      (is.totals.entries.filter fun e => Keyed.text e.1 = Keyed.text k).countP (0 < ·.2.nanos) := by
    rw [Intervals.rows, List.countP_map, List.countP_filter, List.countP_filter]
    refine List.countP_congr fun e _ => ?_
    simp [Keyed.text, and_comm]
  rw [hcount, Intervals.gathered, Table.get?]
  rcases Table.filter_entries is.totals.entries is.totals.ascending k with ⟨hnone, hf⟩ | ⟨j, v, -, hv, hf⟩
  · rw [hnone, hf]
    rfl
  · rw [hv, hf]
    by_cases hpos : 0 < v.nanos <;> simp [hpos]

theorem Reckons.rows (h : Reckons floor τ count is) :
    (∀ r ∈ (is.accrueTo .sum τ).rows, r.value = .whole (count r.key)) ∧
    ∀ k, (is.accrueTo .sum τ).rows.countP (fun r => r.key.canonical = k.canonical) =
      if 0 < count k then 1 else 0 := by
  have hg := h.gathered_accrueTo
  refine ⟨fun r hr => ?_, fun k => hg k ▸ countP_rows _ k⟩
  obtain ⟨v, hv, hvalue, -⟩ := total_of_mem_rows _ hr
  rw [hvalue, ← hg, Intervals.gathered, hv, Option.elim_some]

theorem reckons_clear (τ : Int) (is : Intervals) :
    Reckons τ τ (fun _ => 0) { is.accrueTo .sum τ with totals := .empty } := by
  have hsince : ∀ k iv s, (is.accrueTo .sum τ).opened.get? k = some iv → iv.since = some s → s = τ := by
    intro k iv s hk hs
    rw [accrueTo, opened_sweep, Option.map_eq_some_iff] at hk
    obtain ⟨iv', -, rfl⟩ := hk
    split at hs
    · cases hs
      rfl
    next hnone => simp [hnone] at hs
  refine ⟨Int.le_refl _, by simp [last], fun _ => by simp, fun k => ?_, fun k => Int.le_refl _, fun k iv s hk hs => ?_⟩
  · refine (Int.zero_add _).trans ?_
    dsimp only
    cases hk : (is.accrueTo .sum τ).opened.get? k with
    | none => rfl
    | some iv =>
        cases hs : iv.since with
        | none => simp [Interval.running, hs]
        | some s => simp [Interval.running, hs, hsince k iv s hk hs]
  · rw [hsince k iv s hk hs]
    omega

theorem reckons_empty (τ : Int) : Reckons τ τ (fun _ => 0) {} :=
  ⟨Int.le_refl _, by simp [last], fun _ => by simp, fun _ => rfl, fun _ => Int.le_refl _, fun _ _ _ hk => by cases hk⟩

end Intervals

end EventMetrics
