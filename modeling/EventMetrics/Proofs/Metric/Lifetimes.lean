import EventMetrics.Proofs.Metric.Spells
import EventMetrics.Proofs.Metric.Timed

namespace EventMetrics

def Ending.longest (xs : List Ending) : Int := xs.foldl (fun n x => max n x.nanos) 0

theorem Ending.nanos_le_longest {xs : List Ending} {x : Ending} (hx : x ∈ xs) : x.nanos ≤ longest xs := by
  have hfold : ∀ (xs : List Ending) (n : Int), n ≤ xs.foldl (fun n x => max n x.nanos) n ∧
      ∀ x ∈ xs, x.nanos ≤ xs.foldl (fun n x => max n x.nanos) n := by
    intro xs
    induction xs with
    | nil => exact fun n => ⟨Int.le_refl n, by simp⟩
    | cons y ys ih =>
        intro n
        obtain ⟨hle, hall⟩ := ih (max n y.nanos)
        refine ⟨Int.le_trans (Int.le_max_left _ _) hle, fun x hx => ?_⟩
        rcases List.mem_cons.1 hx with rfl | hx
        · exact Int.le_trans (Int.le_max_right _ _) hle
        · exact hall x hx
  exact (hfold xs 0).2 x hx

namespace Total

/-- The longest of some endings, and how many there are. -/
def ofEndings (xs : List Ending) : Option Total :=
  if xs.isEmpty then none else some ⟨Ending.longest xs, xs.length⟩

def credit (o : Option Total) (nanos : Int) : Option Total :=
  if nanos ≤ 0 then o else some ⟨max (o.getD {}).nanos nanos, (o.getD {}).segments + 1⟩

theorem ofEndings_eq_some {xs : List Ending} {v : Total} :
    ofEndings xs = some v ↔ xs ≠ [] ∧ v = ⟨Ending.longest xs, xs.length⟩ := by
  cases xs <;> simp [ofEndings, eq_comm]

theorem ofEndings_concat (xs : List Ending) (x : Ending) : ofEndings (xs ++ [x]) =
    some ⟨max ((ofEndings xs).getD {}).nanos x.nanos, ((ofEndings xs).getD {}).segments + 1⟩ := by
  cases xs with
  | nil => rfl
  | cons y ys => simp [ofEndings, Ending.longest]

theorem credit_ofEndings (xs : List Ending) (time nanos : Int) : credit (ofEndings xs) nanos =
    ofEndings (xs ++ [Ending.mk time nanos].filter (0 < ·.nanos)) := by
  by_cases hn : nanos ≤ 0
  · rw [credit, if_pos hn, List.filter_cons_of_neg (by simpa using hn), List.filter_nil, List.append_nil]
  · rw [credit, if_neg hn, List.filter_cons_of_pos (by simpa using hn), List.filter_nil, ofEndings_concat]

end Total

/-- An interval has gathered what counts of its spell, but for what still runs. -/
structure Spell.Held (on : Option DimensionKey → Int → Bool) (s τ : Int) (sp : Spell) (iv : Interval) : Prop where
  nesting : iv.nesting = sp.depth
  opened : 0 < sp.depth
  link : iv.link = sp.link
  start : s ≤ sp.start ∧ sp.start ≤ τ
  since : ∀ a, iv.since = some a → s ≤ a ∧ a ≤ τ
  nonneg : 0 ≤ iv.lifetime
  lifetime : iv.lifetime + iv.running τ = Instant.count (on sp.link) sp.start τ

namespace Intervals

variable {p : Int → Bool} {k j : DimensionKey} {c : Course} {is is' : Intervals}
variable {on on' : Option DimensionKey → Int → Bool} {s τ : Int} {sp : Spell} {iv : Interval}

section Held

variable (h : sp.Held on s τ iv)
include h

theorem cut_of_held (next : Option Int) : (cut .maxSparse τ next iv).1 =
    { iv with since := next, lifetime := Instant.count (on sp.link) sp.start τ } := by
  rw [← h.lifetime]
  exact cut_maxSparse τ iv (fun a ha => (h.since a ha).2) next

theorem held_cut {next : Option Int} (hnext : next = none ∨ next = some τ) :
    sp.Held on s τ (cut .maxSparse τ next iv).1 := by
  rw [cut_of_held h]
  refine ⟨h.nesting, h.opened, h.link, h.start, fun a ha => ?_, Int.natCast_nonneg _, ?_⟩
  · rcases hnext with rfl | rfl
    · cases ha
    · cases ha
      exact ⟨Int.le_trans h.start.1 h.start.2, Int.le_refl τ⟩
  · rcases hnext with rfl | rfl <;> simp [Interval.running]

theorem held_regateOne (isOpen : Bool) : sp.Held on s τ (regateOne .maxSparse τ isOpen iv).1 := by
  unfold regateOne
  split
  next hs =>
    refine ⟨h.nesting, h.opened, h.link, h.start, fun a ha => ?_, h.nonneg, ?_⟩
    · cases ha
      exact ⟨Int.le_trans h.start.1 h.start.2, Int.le_refl τ⟩
    · rw [← h.lifetime]
      simp [Interval.running, hs]
  next => exact held_cut h (.inl rfl)
  next => exact h

end Held

theorem held_begin (hs : s ≤ τ) (isOpen : Bool) (link : Option DimensionKey) :
    (Spell.mk 1 τ link).Held on s τ { nesting := 1, since := if isOpen then some τ else none, link } := by
  refine ⟨rfl, Nat.one_pos, rfl, ⟨hs, Int.le_refl τ⟩, fun a ha => ?_, Int.le_refl 0, ?_⟩
  · dsimp only at ha
    split at ha
    · cases ha
      exact ⟨hs, Int.le_refl τ⟩
    · cases ha
  · rw [Instant.count_self]
    cases isOpen <;> simp [Interval.running]

theorem held_again (h : sp.Held on s τ iv) (hs : s ≤ τ) (nested isOpen : Bool) :
    { sp with depth := if nested then sp.depth + 1 else 1 }.Held on s τ
      { iv with
        nesting := if nested then iv.nesting + 1 else 1
        since := if isOpen ∧ iv.since.isNone then some τ else iv.since } := by
  refine ⟨?_, ?_, h.link, h.start, fun a ha => ?_, h.nonneg, ?_⟩
  · simp only [h.nesting]
  · dsimp only
    split <;> omega
  · dsimp only at ha
    split at ha
    · cases ha
      exact ⟨hs, Int.le_refl τ⟩
    · exact h.since a ha
  · rw [← h.lifetime]
    cases ha : iv.since <;> cases isOpen <;> simp [Interval.running, ha]

theorem held_leave (h : sp.Held on s τ iv) (hdepth : 1 < sp.depth) :
    { sp with depth := sp.depth - 1 }.Held on s τ { iv with nesting := iv.nesting - 1 } := by
  refine ⟨?_, Nat.sub_pos_of_lt hdepth, h.link, h.start, h.since, h.nonneg, h.lifetime⟩
  simp only [h.nesting]

theorem nesting_of_held (h : sp.Held on s τ iv) (nested : Bool) :
    0 < (if nested then iv.nesting - 1 else 0) ↔ nested = true ∧ 1 < sp.depth := by
  rw [h.nesting]
  cases nested with
  | false => simp
  | true => simp only [if_true, true_and, Nat.sub_pos_iff_lt]

/-- The open interval of a key and its totals are those of its course; the totals are of the endings at
instants of `p`. -/
structure Spelled (on : Option DimensionKey → Int → Bool) (s τ : Int) (p : Int → Bool) (k : DimensionKey)
    (c : Course) (is : Intervals) : Prop where
  current : c.current = none ∧ is.opened.get? k = none ∨
    ∃ sp iv, c.current = some sp ∧ is.opened.get? k = some iv ∧ sp.Held on s τ iv
  within : ∀ x ∈ c.ended, s ≤ x.2 ∧ x.2 ≤ τ
  totals : is.totals.get? k = Total.ofEndings ((c.endings on).filter (p ·.time))

theorem get?_addEnded (ts : Totals) (j k : DimensionKey) (n : Int) : (addEnded ts j n).get? k =
    if Keyed.text j = Keyed.text k then Total.credit (ts.get? k) n else ts.get? k := by
  rw [addEnded, Total.credit]
  by_cases hn : n ≤ 0
  · rw [if_pos hn, if_pos hn, ite_self]
  · rw [if_neg hn, if_neg hn, Table.get?_insert]
    by_cases hjk : Keyed.text j = Keyed.text k
    · rw [if_pos hjk.symm, if_pos hjk, Table.get?_congr hjk]
    · rw [if_neg (Ne.symm hjk), if_neg hjk]

theorem get?_endOne (ts : Totals) (j k : DimensionKey) (iv : Interval) : (endOne .maxSparse τ ts j iv).get? k =
    if Keyed.text j = Keyed.text k then Total.credit (ts.get? k) (cut .maxSparse τ none iv).1.lifetime
    else ts.get? k :=
  get?_addEnded ts j k _

theorem foldl_opened {step : Totals → DimensionKey × Interval → Totals} (own : Interval → Option Total → Option Total)
    (hstep : ∀ ts e, (step ts e).get? k = if Keyed.text e.1 = Keyed.text k then own e.2 (ts.get? k) else ts.get? k)
    (is : Intervals) : (is.opened.entries.foldl step is.totals).get? k =
      (is.opened.get? k).elim (is.totals.get? k) fun iv => own iv (is.totals.get? k) := by
  refine (Table.foldl_entries (fun ts : Totals => ts.get? k) step own hstep is.opened.ascending is.totals).trans ?_
  change _ = (Table.lookup k is.opened.entries).elim _ _
  cases Table.lookup k is.opened.entries <;> rfl

theorem spelled_empty (on : Option DimensionKey → Int → Bool) (s τ : Int) (p : Int → Bool) (k : DimensionKey) :
    Spelled on s τ p k {} {} := ⟨.inl ⟨rfl, rfl⟩, by simp, rfl⟩

namespace Spelled

theorem congr (h : Spelled on s τ p k c is) (hon : ∀ l i, i < τ → on' l i = on l i) :
    c.endings on' = c.endings on ∧ Spelled on' s τ p k c is := by
  have hcount : ∀ {l a b}, b ≤ τ → Instant.count (on' l) a b = Instant.count (on l) a b := fun hb =>
    Instant.count_congr fun i _ hi => hon _ i (by omega)
  have hendings : c.endings on' = c.endings on := by
    refine congrArg (List.filter _) (List.map_congr_left fun x hx => ?_)
    rw [hcount (h.within x hx).2]
  refine ⟨hendings, h.current.imp_right ?_, h.within, hendings ▸ h.totals⟩
  rintro ⟨sp, iv, hsp, hiv, hheld⟩
  exact ⟨sp, iv, hsp, hiv, { hheld with lifetime := (hcount (Int.le_refl τ)).symm ▸ hheld.lifetime }⟩

theorem within_of_mem_endings (h : Spelled on s τ p k c is) {x : Ending} (hx : x ∈ c.endings on) :
    s ≤ x.time ∧ x.time ≤ τ := by
  obtain ⟨y, hy, rfl⟩ := List.mem_map.1 (List.mem_filter.1 hx).1
  exact h.within y hy

theorem sweep (h : Spelled on s τ p k c is) {f : Interval → Interval × Int} (hf : ∀ iv, (f iv).2 = 0)
    (hheld : ∀ (sp : Spell) iv, sp.Held on s τ iv → sp.Held on s τ (f iv).1) :
    Spelled on s τ p k c (is.sweep fun _ iv => f iv) := by
  have htotals : (is.sweep fun _ iv => f iv).totals = is.totals := totals_sweep fun e _ => Int.le_of_eq (hf e.2)
  refine ⟨?_, h.within, htotals ▸ h.totals⟩
  rw [opened_sweep]
  rcases h.current with ⟨hc, ho⟩ | ⟨sp, iv, hsp, hiv, h⟩
  · exact .inl ⟨hc, by rw [ho]; rfl⟩
  · exact .inr ⟨sp, _, hsp, by rw [hiv]; rfl, hheld sp iv h⟩

theorem regate (h : Spelled on s τ p k c is) (gate : Option DimensionKey → Bool) :
    Spelled on s τ p k c (is.regate .maxSparse τ gate) := by
  refine h.sweep (f := fun iv => regateOne .maxSparse τ (gate iv.link) iv) (fun iv => ?_)
    fun sp iv hiv => held_regateOne hiv _
  unfold regateOne
  split <;> rfl

theorem accrueTo (h : Spelled on s τ p k c is) :
    Spelled on s τ p k c (is.accrueTo .maxSparse τ) := by
  rw [accrueTo_eq]
  refine h.sweep (fun iv => ?_) fun sp iv hiv => ?_
  · rw [accrueOne]
    cases iv.since <;> rfl
  · rw [accrueOne]
    cases iv.since with
    | none => exact hiv
    | some => exact held_cut hiv (.inr rfl)

theorem clear (h : Spelled on s τ p k c is) {q : Int → Bool} (hq : ∀ x ∈ c.endings on, q x.time = false) :
    Spelled on s τ q k c { is with totals := .empty } := by
  have hnone : (c.endings on).filter (q ·.time) = [] :=
    List.filter_eq_nil_iff.2 fun x hx => by simp [hq x hx]
  exact ⟨h.current, h.within, by rw [hnone]; rfl⟩

theorem credit (h : Spelled on s τ p k c is) :
    Total.ofEndings ((c.endings on).filter (p ·.time) ++ c.still on τ) =
      (is.opened.get? k).elim (is.totals.get? k) fun iv =>
        Total.credit (is.totals.get? k) (cut .maxSparse τ none iv).1.lifetime := by
  rw [h.totals, Course.still]
  rcases h.current with ⟨hc, ho⟩ | ⟨sp, iv, hsp, hiv, hheld⟩
  · rw [hc, ho]
    simp
  · rw [hsp, hiv, Option.elim_some, cut_of_held hheld]
    exact (Total.credit_ofEndings _ τ _).symm

theorem finish (h : Spelled on s τ p k c is) (hp : p τ = true)
    (hopened : is'.opened.get? k = none)
    (htotals : is'.totals.get? k = (is.opened.get? k).elim (is.totals.get? k) fun iv =>
      Total.credit (is.totals.get? k) (cut .maxSparse τ none iv).1.lifetime) :
    Spelled on s τ p k (c.finish τ) is' := by
  refine ⟨.inl ⟨rfl, hopened⟩, fun x hx => ?_, ?_⟩
  · rcases List.mem_append.1 hx with hx | hx
    · exact h.within x hx
    · obtain ⟨sp, hsp, rfl⟩ := List.mem_map.1 hx
      rcases h.current with ⟨hc, -⟩ | ⟨sp', iv, hc, -, hheld⟩
      · rw [hc] at hsp
        cases hsp
      · exact ⟨Int.le_trans hheld.start.1 hheld.start.2, Int.le_refl τ⟩
  · have hstill : (c.still on τ).filter (p ·.time) = c.still on τ := by
      refine List.filter_eq_self.2 fun x hx => ?_
      obtain ⟨sp, -, rfl⟩ := List.mem_map.1 (List.mem_filter.1 hx).1
      exact hp
    rw [htotals, ← h.credit, Course.endings_finish, List.filter_append, hstill]

theorem stopAll (h : Spelled on s τ p k c is) (hp : p τ = true) :
    Spelled on s τ p k (c.finish τ) (is.stopAll .maxSparse τ) := by
  refine h.finish hp rfl ?_
  exact foldl_opened (fun iv o => Total.credit o (cut .maxSparse τ none iv).1.lifetime)
    (fun ts e => get?_endOne ts e.1 k e.2) is

theorem of_eq (h : Spelled on s τ p k c is) (hopened : is'.opened.get? k = is.opened.get? k)
    (htotals : is'.totals.get? k = is.totals.get? k) : Spelled on s τ p k c is' :=
  ⟨hopened ▸ h.current, h.within, htotals ▸ h.totals⟩

theorem insert {c' : Course} {sp : Spell} {iv : Interval} (h : Spelled on s τ p k c is)
    (hk : Keyed.text k = Keyed.text j) (hended : c'.ended = c.ended) (hcurrent : c'.current = some sp)
    (hheld : sp.Held on s τ iv) : Spelled on s τ p k c' { is with opened := is.opened.insert j iv } := by
  have hendings : c'.endings on = c.endings on := by rw [Course.endings, hended, Course.endings]
  exact ⟨.inr ⟨sp, iv, hcurrent, (Table.get?_insert _ j k _).trans (if_pos hk), hheld⟩, hended ▸ h.within,
    hendings ▸ h.totals⟩

theorem start {nested isOpen : Bool} {limit : Nat} {link : Option DimensionKey} (h : Spelled on s τ p k c is)
    (hs : s ≤ τ) (hstart : is.start nested limit τ isOpen j link = .ok is') :
    Spelled on s τ p k (if Keyed.text k = Keyed.text j then c.enter nested τ link else c) is' := by
  split
  next hk =>
    have hopened := Table.get?_congr hk is.opened
    rcases start_cases hstart with ⟨iv, hj, rfl⟩ | ⟨hj, rfl⟩
    · rw [← hopened] at hj
      rcases h.current with ⟨-, ho⟩ | ⟨sp, iv', hsp, hiv, hheld⟩
      · cases ho.symm.trans hj
      · cases hiv.symm.trans hj
        rw [Course.enter, hsp]
        exact h.insert hk rfl rfl (held_again hheld hs nested isOpen)
    · rw [← hopened] at hj
      rcases h.current with ⟨hc, -⟩ | ⟨sp, iv, -, hiv, -⟩
      · rw [Course.enter, hc]
        exact h.insert hk rfl rfl (held_begin hs isOpen link)
      · cases hj.symm.trans hiv
  next hk =>
    rcases start_cases hstart with ⟨iv, -, rfl⟩ | ⟨-, rfl⟩ <;>
      exact h.of_eq ((Table.get?_insert _ j k _).trans (if_neg hk)) rfl

theorem stop (h : Spelled on s τ p k c is) (nested : Bool) (j : DimensionKey) (hp : p τ = true) :
    Spelled on s τ p k (if Keyed.text k = Keyed.text j then c.leave nested τ else c)
      (is.stop .maxSparse nested τ j) := by
  split
  next hk =>
    have hopened := Table.get?_congr hk is.opened
    rcases stop_cases is .maxSparse nested τ j with ⟨hj, hstop⟩ | ⟨iv, hj, ⟨hn, hstop⟩ | ⟨hn, hstop⟩⟩ <;>
      rw [hstop] <;> rw [← hopened] at hj <;>
      rcases h.current with ⟨hc, ho⟩ | ⟨sp, iv', hsp, hiv, hheld⟩ <;> rw [Course.leave]
    · rw [hc]
      exact h
    · cases hj.symm.trans hiv
    · cases hj.symm.trans ho
    · cases hj.symm.trans hiv
      have hdepth := (nesting_of_held hheld nested).1 hn
      rw [hsp]
      dsimp only
      rw [if_pos hdepth, if_pos hdepth.1]
      exact h.insert hk rfl rfl (held_leave hheld hdepth.2)
    · cases hj.symm.trans ho
    · cases hj.symm.trans hiv
      rw [hsp]
      dsimp only
      rw [if_neg fun hdepth => Nat.ne_of_gt ((nesting_of_held hheld nested).2 hdepth) hn]
      refine h.finish hp ((Table.get?_erase _ j k).trans (if_pos hk)) ?_
      rw [get?_endOne, if_pos hk.symm, hj, Option.elim_some]
  next hk =>
    rcases stop_cases is .maxSparse nested τ j with ⟨-, hstop⟩ | ⟨iv, -, ⟨-, hstop⟩ | ⟨-, hstop⟩⟩ <;> rw [hstop]
    · exact h
    · exact h.of_eq ((Table.get?_insert _ j k _).trans (if_neg hk)) rfl
    · refine h.of_eq ((Table.get?_erase _ j k).trans (if_neg hk)) ?_
      rw [get?_endOne, if_neg (Ne.symm hk)]

theorem wait (h : Spelled on s τ p k c is) {τ' : Int} (hle : τ ≤ τ')
    (hon : ∀ iv, is.opened.get? k = some iv → ∀ i, τ ≤ i → i < τ' → on iv.link i = iv.since.isSome) :
    Spelled on s τ' p k c is := by
  refine ⟨h.current.imp_right ?_, fun x hx => (h.within x hx).imp_right (Int.le_trans · hle), h.totals⟩
  rintro ⟨sp, iv, hsp, hiv, hheld⟩
  refine ⟨sp, iv, hsp, hiv, { hheld with
    start := ⟨hheld.start.1, Int.le_trans hheld.start.2 hle⟩
    since := fun a ha => ⟨(hheld.since a ha).1, Int.le_trans (hheld.since a ha).2 hle⟩
    lifetime := ?_ }⟩
  have hcount := Instant.count_of_forall hle (p := on sp.link) (v := iv.since.isSome) fun i hi hi' => by
    rw [← hheld.link]
    exact hon iv hiv i hi hi'
  have hlifetime := hheld.lifetime
  rw [Instant.count_add (on sp.link) hheld.start.2 hle, Int.natCast_add, hcount, ← hlifetime]
  cases hs : iv.since with
  | none => simp [Interval.running, hs]
  | some a =>
      simp only [Interval.running, hs, Option.elim_some, Option.isSome_some, if_true]
      omega

theorem settle (h : Spelled on s τ p k c is) : (is.settle .maxSparse τ).totals.get? k =
    Total.ofEndings ((c.endings on).filter (p ·.time) ++ c.still on τ) := by
  have hcut := h.accrueTo
  rw [hcut.credit]
  refine (foldl_opened (fun iv o => Total.credit o iv.lifetime) (fun ts e => get?_addEnded ts e.1 k e.2.lifetime)
    (is.accrueTo .maxSparse τ)).trans ?_
  rcases hcut.current with ⟨-, ho⟩ | ⟨sp, iv, -, hiv, hheld⟩
  · rw [ho]
    rfl
  · have hrest : iv.running τ = 0 := by
      rw [Intervals.accrueTo, opened_sweep, Option.map_eq_some_iff] at hiv
      obtain ⟨iv₀, -, rfl⟩ := hiv
      cases hs : iv₀.since <;> simp [Interval.running, cut, hs]
    have hlifetime := hheld.lifetime
    rw [hrest, Int.add_zero] at hlifetime
    rw [hiv, Option.elim_some, Option.elim_some, cut_of_held hheld, hlifetime]

end Spelled

end Intervals

end EventMetrics
