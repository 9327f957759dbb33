import EventMetrics.Proofs.Metric.Lifetimes
import EventMetrics.Proofs.Metric.Paving

namespace EventMetrics

namespace Record

def Past (rs : List Record) (i : Int) : Prop := ∀ x ∈ rs, ∀ a ∈ x.span?, a.2 ≤ i

instance (rs : List Record) (i : Int) : Decidable (Past rs i) :=
  inferInstanceAs (Decidable (∀ x ∈ rs, ∀ a ∈ x.span?, a.2 ≤ i))

/-- The bucket of a row, of some length, is the first that ends after `i`: all before it have ended by
then. -/
def Bucket.Credits (r : Bucket) (size : Int) (rs : List Record) (i : Int) : Prop :=
  i < r.start + size ∧ ∀ x ∈ rs, ∀ a ∈ x.span?, a.1 < r.start → a.2 ≤ i

instance (r : Bucket) (size : Int) (rs : List Record) (i : Int) : Decidable (r.Credits size rs i) :=
  inferInstanceAs (Decidable (_ ∧ ∀ x ∈ rs, ∀ a ∈ x.span?, a.1 < r.start → a.2 ≤ i))

/-- A row tells the longest of some endings, and how many they are. -/
structure Bucket.Tells (r : Bucket) (xs : List Ending) : Prop where
  some : xs ≠ []
  value : r.value = .whole (Ending.longest xs)
  samples : r.samples = xs.length

def bucketsOf (k : DimensionKey) (rs : List Record) : List Bucket :=
  (buckets rs).filter (·.dimension.canonical = k.canonical)

theorem bucketsOf_append (k : DimensionKey) (rs xs : List Record) :
    bucketsOf k (rs ++ xs) = bucketsOf k rs ++ bucketsOf k xs := by
  rw [bucketsOf, buckets_append, List.filter_append]
  rfl

theorem mem_of_mem_bucketsOf {k : DimensionKey} {rs : List Record} {r : Bucket} (hr : r ∈ bucketsOf k rs) :
    .bucket r ∈ rs := by
  obtain ⟨x, hx, he⟩ := List.mem_filterMap.1 (List.mem_filter.1 hr).1
  cases x with
  | bucket r' =>
      cases he
      exact hx
  | skipped | alert | event => cases he

/-- The rows of a key are credited with the endings `xs`, each ending once, but for those that still wait;
`extra` are further ones by the start of the bucket. -/
structure Credited (size : Int) (k : DimensionKey) (xs : List Ending) (extra : Int → List Ending)
    (waits : Int → Prop) (rs : List Record) : Prop where
  exact : ∀ r ∈ bucketsOf k rs, r.Tells (xs.filter (r.Credits size rs ·.time) ++ extra r.start)
  once : ∀ x ∈ xs, ¬ waits x.time → (bucketsOf k rs).countP (·.Credits size rs x.time) = 1

variable {A : Int → Prop} {size s b i : Int} {whole : Prop} {k : DimensionKey} {r : Bucket} {rs new : List Record}
  {xs : List Ending} {extra : Int → List Ending} {waits waits' : Int → Prop}

theorem credits_append (h : Paving A size whole s b (rs ++ new)) (hr : .bucket r ∈ rs) (i : Int) :
    r.Credits size (rs ++ new) i ↔ r.Credits size rs i := by
  have hlate : ∀ x ∈ new, ∀ a ∈ x.span?, r.start ≤ a.1 := by
    intro x hx a ha
    have hin := (h.inside _ (List.mem_append_left new hr) (r.start, r.stop) rfl).2.1
    rcases (List.pairwise_append.1 h.ordered).2.2 _ hr x hx with hsame | hprecedes
    · cases x with
      | bucket r' =>
          cases ha
          exact Int.le_of_eq hsame.1
      | skipped | alert | event => exact hsame.elim
    · exact Int.le_trans hin (hprecedes (r.start, r.stop) rfl a ha)
  refine and_congr_right fun _ => ⟨fun hall x hx => hall x (List.mem_append_left new hx), fun hall x hx a ha hlt => ?_⟩
  rcases List.mem_append.1 hx with hx | hx
  · exact hall x hx a ha hlt
  · exact absurd (hlate x hx a ha) (Int.not_le.2 hlt)

namespace Credited

theorem weaken (h : Credited size k xs extra waits rs) (hw : ∀ i, waits i → waits' i) :
    Credited size k xs extra waits' rs :=
  ⟨h.exact, fun x hx hnot => h.once x hx (mt (hw x.time) hnot)⟩

theorem append (h : Credited size k xs extra waits rs) (hp : Paving A size whole s b (rs ++ new))
    (hnew : bucketsOf k new = []) : Credited size k xs extra waits (rs ++ new) := by
  have hrows : bucketsOf k (rs ++ new) = bucketsOf k rs := by rw [bucketsOf_append, hnew, List.append_nil]
  have hcredits : ∀ r ∈ bucketsOf k rs, ∀ i, r.Credits size (rs ++ new) i ↔ r.Credits size rs i :=
    fun r hr => credits_append hp (mem_of_mem_bucketsOf hr)
  refine ⟨fun r hr => ?_, fun x hx hw => ?_⟩
  · rw [hrows] at hr
    simp only [hcredits r hr]
    exact h.exact r hr
  · rw [hrows, ← h.once x hx hw]
    exact List.countP_congr fun r hr => by simp only [hcredits r hr]

theorem arrive (h : Credited size k xs extra waits rs) {new : List Ending}
    (hlate : ∀ x ∈ new, waits x.time ∧ ∀ r ∈ bucketsOf k rs, r.start + size ≤ x.time) :
    Credited size k (xs ++ new) extra waits rs := by
  refine ⟨fun r hr => ?_, fun x hx hw => ?_⟩
  · have hnone : new.filter (r.Credits size rs ·.time) = [] := by
      refine List.filter_eq_nil_iff.2 fun x hx hcredits => ?_
      have hlt := (of_decide_eq_true hcredits).1
      have hle := (hlate x hx).2 r hr
      omega
    rw [List.filter_append, hnone, List.append_nil]
    exact h.exact r hr
  · rcases List.mem_append.1 hx with hx | hx
    · exact h.once x hx hw
    · exact absurd (hlate x hx).1 hw

theorem idle (h : Credited size k xs (fun _ => []) waits rs) (hnone : ∀ x ∈ xs, ¬ waits x.time)
    (hextra : ∀ a, extra a = []) : Credited size k xs extra (fun _ => False) rs :=
  ⟨fun r hr => (hextra r.start).symm ▸ h.exact r hr, fun x hx _ => h.once x hx (hnone x hx)⟩

end Credited

/-- Rows of one more bucket, which are credited with the endings before its end that still wait, and with
`due`. -/
structure Collected (size start : Int) (k : DimensionKey) (xs due : List Ending) (rs new : List Record) : Prop where
  starts : ∀ x ∈ new, ∀ a ∈ x.span?, a.1 = start
  early : ∀ x ∈ xs, x.time < start + size
  tells : ∀ r ∈ bucketsOf k new, r.Tells (xs.filter (Past rs ·.time) ++ due)
  row : xs.filter (Past rs ·.time) ++ due ≠ [] → (bucketsOf k new).length = 1

theorem Paving.whole_of_row (h : Paving A size True s b rs) (hr : .bucket r ∈ rs) :
    r.stop = r.start + size ∧ r.stop ≤ b := by
  refine ⟨?_, (h.inside _ hr (r.start, r.stop) rfl).2.2⟩
  rcases h.ends _ hr (r.start, r.stop) rfl with hstop | ⟨hnot, -⟩
  · simpa [slots] using hstop
  · exact absurd trivial hnot

theorem Paving.not_credits (h : Paving A size True s b rs) (hr : .bucket r ∈ rs) (hpast : Past rs i) :
    ¬ r.Credits size rs i := by
  have hstop : r.stop ≤ i := hpast _ hr (r.start, r.stop) rfl
  exact fun hcredits => Int.not_lt.2 hstop ((h.whole_of_row hr).1 ▸ hcredits.1)

variable {due : List Ending} {start : Int}

theorem Collected.credits_iff (h : Collected size start k xs due rs new) (hlasting : ∀ x ∈ rs, ∀ a ∈ x.span?, a.1 < a.2)
    (hp : Paving A size True s start rs) (hr : r.start = start) {x : Ending} (hx : x ∈ xs) :
    r.Credits size (rs ++ new) x.time ↔ Past rs x.time := by
  subst hr
  constructor
  · intro hcredits y hy a ha
    refine hcredits.2 y (List.mem_append_left _ hy) a ha ?_
    exact Int.lt_of_lt_of_le (hlasting y hy a ha) (hp.inside y hy a ha).2.2
  · refine fun hpast => ⟨h.early x hx, fun y hy a ha hlt => ?_⟩
    rcases List.mem_append.1 hy with hy | hy
    · exact hpast y hy a ha
    · rw [h.starts y hy a ha] at hlt
      exact absurd hlt (Int.lt_irrefl _)

/-- With one more bucket nothing waits any more: the rows that were there keep their endings, and the new one
has those that waited. -/
theorem Credited.enter (h : Credited size k xs (fun _ => []) (Past rs) rs) (hsize : 0 < size)
    (hlasting : ∀ x ∈ rs, ∀ a ∈ x.span?, a.1 < a.2) (hp : Paving A size True s start rs)
    (hafter : Paving A size whole s b (rs ++ new)) (hnew : Collected size start k xs due rs new) :
    Credited size k xs (fun a => if a = start then due else []) (fun _ => False) (rs ++ new) := by
  have hkept : ∀ r ∈ bucketsOf k rs, ∀ i, r.Credits size (rs ++ new) i ↔ r.Credits size rs i :=
    fun r hr => credits_append hafter (mem_of_mem_bucketsOf hr)
  have hstart : ∀ r ∈ bucketsOf k new, r.start = start := fun r hr =>
    hnew.starts _ (mem_of_mem_bucketsOf hr) (r.start, r.stop) rfl
  have hcollected : ∀ r ∈ bucketsOf k new, ∀ x ∈ xs, r.Credits size (rs ++ new) x.time ↔ Past rs x.time :=
    fun r hr x hx => hnew.credits_iff hlasting hp (hstart r hr) hx
  constructor
  · intro r hr
    rw [bucketsOf_append] at hr
    rcases List.mem_append.1 hr with hr | hr
    · have hne : r.start ≠ start := by
        obtain ⟨hwhole, hle⟩ := hp.whole_of_row (mem_of_mem_bucketsOf hr)
        omega
      simp only [hkept r hr, if_neg hne]
      exact h.exact r hr
    · have hfilter : xs.filter (r.Credits size (rs ++ new) ·.time) = xs.filter (Past rs ·.time) :=
        List.filter_congr fun x hx => by simp only [hcollected r hr x hx]
      rw [hfilter, if_pos (hstart r hr)]
      exact hnew.tells r hr
  · intro x hx _
    have hbefore : (bucketsOf k rs).countP (·.Credits size (rs ++ new) x.time) =
        (bucketsOf k rs).countP (·.Credits size rs x.time) :=
      List.countP_congr fun r hr => by simp only [hkept r hr]
    have hwith : (bucketsOf k new).countP (·.Credits size (rs ++ new) x.time) =
        (bucketsOf k new).countP fun _ => Past rs x.time :=
      List.countP_congr fun r hr => by simp only [hcollected r hr x hx]
    rw [bucketsOf_append, List.countP_append, hbefore, hwith]
    by_cases hpast : Past rs x.time
    · have hnone : (bucketsOf k rs).countP (·.Credits size rs x.time) = 0 := List.countP_eq_zero.2 fun r hr hcredits =>
        hp.not_credits (mem_of_mem_bucketsOf hr) hpast (of_decide_eq_true hcredits)
      have hwaits : x ∈ xs.filter (Past rs ·.time) := List.mem_filter.2 ⟨hx, decide_eq_true hpast⟩
      have hone := hnew.row (List.ne_nil_of_mem (List.mem_append_left due hwaits))
      simpa [hnone, hpast] using hone
    · rw [h.once x hx hpast]
      simp [hpast]

/-- A bucket is open at `i`: one that is reported, or the one that is open at the end. -/
def IsOpenAt (rs : List Record) (closing : Option Slot) (i : Int) : Prop :=
  (∃ x ∈ rs, ∃ a ∈ x.span?, a.1 ≤ i ∧ i < a.2) ∨ ∃ slot, closing = some slot ∧ slot.start ≤ i

/-- What is reported of a key when all has ended: the bucket that is open at the end, if one is, has the spells
that are still open. -/
structure Concluded (size : Int) (k : DimensionKey) (endings still : List Ending) (closing : Option Slot)
    (rs : List Record) : Prop where
  credited : Credited size k endings (fun a => if closing.any (a = ·.start) then still else [])
    (fun i => closing = none ∧ Past rs i) rs
  row : ∀ slot, closing = some slot → still ≠ [] → (bucketsOf k rs).countP (·.start = slot.start) = 1
  latest : ∀ slot, closing = some slot → ∀ r ∈ bucketsOf k rs, r.start ≤ slot.start

theorem Concluded.start_le {endings still : List Ending} {closing : Option Slot}
    (h : Concluded size k endings still closing rs) (hr : r ∈ bucketsOf k rs) (hcredits : r.Credits size rs i)
    (hopen : IsOpenAt rs closing i) : r.start ≤ i := by
  rcases hopen with ⟨x, hx, a, ha, hle, hlt⟩ | ⟨slot, hs, hle⟩
  · by_contra hlate
    have hended := hcredits.2 x hx a ha (by omega)
    omega
  · exact Int.le_trans (h.latest slot hs r hr) hle

end Record

namespace Metric

open Record (Past Paving Credited Collected bucketsOf bucketsOf_append buckets)

variable {m : Metric} {slot : Slot} {stop size s : Int} {A : Int → Prop} {whole : Prop} {k : DimensionKey}
  {rs out : List Record} {pending : Option Record.Skipped} {xs due : List Ending}

theorem bucketsOf_owed (m : Metric) (k : DimensionKey) : bucketsOf k m.owed = [] := by
  rw [bucketsOf, buckets_owed]
  rfl

theorem bucketsOf_ofRows (m : Metric) (slot : Slot) (stop : Int) (alerts : List Record.Alert) (k : DimensionKey) :
    bucketsOf k (m.ofRows slot stop alerts) =
      (m.rows.filter (·.key.canonical = k.canonical)).map (m.toBucket slot stop) := by
  rw [bucketsOf, ofRows, Record.buckets_rows, List.filter_map]
  rfl

structure Gathers (m : Metric) (k : DimensionKey) (xs : List Ending) : Prop where
  tells : ∀ r ∈ m.rows, r.key.canonical = k.canonical →
    xs ≠ [] ∧ r.value = .whole (Ending.longest xs) ∧ r.samples = xs.length
  row : xs ≠ [] → m.rows.countP (·.key.canonical = k.canonical) = 1

theorem Gathers.eq_nil (h : m.Gathers k xs) (hr : m.rows = []) : xs = [] := by
  by_contra hne
  have hrow := h.row hne
  rw [hr] at hrow
  cases hrow

theorem gathers_of_totals {t : Timing} (hrule : m.plan.rule = .timed t)
    (htotals : m.intervals.totals.get? k = Total.ofEndings xs) (hpos : ∀ x ∈ xs, 0 < x.nanos) : m.Gathers k xs := by
  have hrows : m.rows = m.intervals.rows := by rw [rows, hrule]
  constructor
  · intro r hr hk
    rw [hrows] at hr
    obtain ⟨v, hv, hvalue, hsamples⟩ := m.intervals.total_of_mem_rows hr
    rw [Table.get?_congr (show Keyed.text r.key = Keyed.text k from hk), htotals] at hv
    obtain ⟨hne, rfl⟩ := Total.ofEndings_eq_some.1 hv
    exact ⟨hne, hvalue, hsamples⟩
  · intro hne
    obtain ⟨x, hx⟩ := List.exists_mem_of_ne_nil xs hne
    have hlongest : 0 < Ending.longest xs := Int.lt_of_lt_of_le (hpos x hx) (Ending.nanos_le_longest hx)
    rw [hrows, Intervals.countP_rows, Intervals.gathered, htotals, Total.ofEndings_eq_some.2 ⟨hne, rfl⟩]
    exact if_pos hlongest

theorem Closes.lasting (h : Closes m slot stop out pending) (hlt : slot.start < stop)
    (hlasting : ∀ x ∈ rs ++ m.owed, ∀ a ∈ x.span?, a.1 < a.2) :
    ∀ x ∈ rs ++ (out ++ pending.toList.map .skipped), ∀ a ∈ x.span?, a.1 < a.2 := by
  intro x hx a ha
  cases h with
  | rows alerts =>
      simp only [Option.toList_none, List.map_nil, List.append_nil] at hx
      rw [← List.append_assoc] at hx
      rcases List.mem_append.1 hx with hx | hx
      · exact hlasting x hx a ha
      · obtain ⟨rfl, -⟩ := ofRows_span hx a ha
        exact hlt
  | @join g hr hs hjoin =>
      rcases List.mem_append.1 hx with hx | hx
      · exact hlasting x (List.mem_append_left _ hx) a ha
      · rw [List.mem_singleton.1 hx] at ha
        cases ha
        have hg := hlasting (.skipped g) (by simp [owed, hs]) (g.start, g.stop) rfl
        exact Int.lt_trans (lt_of_lt_of_eq hg hjoin.1) hlt
  | fresh =>
      rw [← List.append_assoc] at hx
      rcases List.mem_append.1 hx with hx | hx
      · exact hlasting x hx a ha
      · rw [List.mem_singleton.1 hx] at ha
        cases ha
        exact hlt

theorem Closes.not_past (h : Closes m slot stop out pending) {i : Int} (hi : i < stop) :
    ¬ Past (rs ++ (out ++ pending.toList.map .skipped)) i := by
  suffices hends : ∃ x ∈ out ++ pending.toList.map .skipped, ∃ a ∈ x.span?, a.2 = stop by
    obtain ⟨x, hx, a, ha, hstop⟩ := hends
    intro hpast
    have hle := hpast x (List.mem_append_right rs hx) a ha
    omega
  cases h with
  | rows alerts hne =>
      obtain ⟨r, hr⟩ := List.exists_mem_of_ne_nil _ hne
      have hmem : .bucket (m.toBucket slot stop r) ∈ m.ofRows slot stop alerts :=
        List.mem_append_left _ (List.mem_map_of_mem hr)
      exact ⟨_, List.mem_append_left _ (List.mem_append_right _ hmem), _, rfl, rfl⟩
  | join | fresh => exact ⟨_, List.mem_append_right _ (List.mem_singleton_self _), _, rfl, rfl⟩

theorem Closes.credited (h : Closes m slot stop out pending) (hsize : 0 < size)
    (hlasting : ∀ x ∈ rs ++ m.owed, ∀ a ∈ x.span?, a.1 < a.2) (hp : Paving A size True s slot.start (rs ++ m.owed))
    (hafter : Paving A size whole s stop (rs ++ (out ++ pending.toList.map .skipped)))
    (hearly : ∀ x ∈ xs, x.time < slot.start + size)
    (hgathers : m.Gathers k (xs.filter (Past (rs ++ m.owed) ·.time) ++ due))
    (hc : Credited size k xs (fun _ => []) (Past (rs ++ m.owed)) rs) :
    Credited size k xs (fun a => if a = slot.start then due else []) (fun _ => False) (rs ++ out) := by
  have hidle : m.rows = [] → (∀ x ∈ xs, ¬ Past (rs ++ m.owed) x.time) ∧
      ∀ a, (if a = slot.start then due else []) = [] := by
    intro hr
    obtain ⟨hnone, hdue⟩ := List.append_eq_nil_iff.1 (hgathers.eq_nil hr)
    refine ⟨fun x hx hpast => ?_, fun a => by rw [hdue, ite_self]⟩
    exact List.filter_eq_nil_iff.1 hnone x hx (decide_eq_true hpast)
  rw [← List.append_assoc] at hafter
  have hout := hafter.sublist (List.sublist_append_left _ _)
  cases h with
  | join hr => exact ((hc.append hout rfl).idle (hidle hr).1 (hidle hr).2)
  | fresh hr => exact ((hc.append hout (bucketsOf_owed m k)).idle (hidle hr).1 (hidle hr).2)
  | rows alerts =>
      rw [← List.append_assoc] at hout ⊢
      have howed := hc.append hp (bucketsOf_owed m k)
      refine howed.enter hsize hlasting hp hout ⟨fun x hx a ha => ?_, hearly, fun r hr => ?_, fun hne => ?_⟩
      · exact congrArg Prod.fst (ofRows_span hx a ha).1
      · rw [bucketsOf_ofRows] at hr
        obtain ⟨row, hrow, rfl⟩ := List.mem_map.1 hr
        obtain ⟨hrow, hk⟩ := List.mem_filter.1 hrow
        obtain ⟨hne, hvalue, hsamples⟩ := hgathers.tells row hrow (of_decide_eq_true hk)
        exact ⟨hne, hvalue, hsamples⟩
      · rw [bucketsOf_ofRows, List.length_map, ← List.countP_eq_length_filter]
        exact hgathers.row hne

end Metric

end EventMetrics
