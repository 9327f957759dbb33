import EventMetrics.Proofs.Metric.Accrual
import EventMetrics.Proofs.Paving

namespace EventMetrics.Metric

open Record (Precedes Covers Paving gaps)

def void (m : Metric) (slot : Slot) (stop : Int) : Record.Skipped :=
  ⟨m.plan.id, slot.start, stop, 1, m.skipReason⟩

def ofRows (m : Metric) (slot : Slot) (stop : Int) (alerts : List Record.Alert) : List Record :=
  m.rows.map (fun r => .bucket (m.toBucket slot stop r)) ++ alerts.map .alert

/-- What the end of a bucket makes of the reports: its rows, after the stretch that is owed, or one more
empty bucket, which joins that stretch or starts another. -/
inductive Closes (m : Metric) (slot : Slot) (stop : Int) : List Record → Option Record.Skipped → Prop
  | rows (alerts : List Record.Alert) : m.rows ≠ [] → (∀ a ∈ alerts, a.firedAt = stop) → Closes m slot stop
      (m.owed ++ m.ofRows slot stop alerts) none
  | join {g} : m.rows = [] → m.pending = some g → g.Joins (m.void slot stop) →
      Closes m slot stop [] (some { g with stop, buckets := g.buckets + 1 })
  | fresh : m.rows = [] → (∀ g, m.pending = some g → ¬ g.Joins (m.void slot stop)) →
      Closes m slot stop m.owed (some (m.void slot stop))

variable {m : Metric} {slot : Slot} {stop : Int}

theorem skip_closes (hr : m.rows = []) (slot : Slot) (stop : Int) : Closes m slot stop
    (m.clearBucket.skip slot.start stop m.skipReason).records
    (m.clearBucket.skip slot.start stop m.skipReason).state.pending := by
  have hpending : m.clearBucket.pending = m.pending := rfl
  cases hs : m.pending with
  | none =>
      have hskip : m.clearBucket.skip slot.start stop m.skipReason =
          ⟨m.clearBucket.await slot.start stop m.skipReason, m.owed⟩ := by
        simp only [skip, hpending, hs, owed]
        rfl
      rw [hskip]
      exact .fresh hr fun g hg => by rw [hs] at hg; cases hg
  | some g =>
      by_cases hjoin : g.Joins (m.void slot stop)
      · have hskip : m.clearBucket.skip slot.start stop m.skipReason =
            ⟨{ m.clearBucket with pending := some { g with stop, buckets := g.buckets + 1 } }, []⟩ := by
          simp only [skip, hpending, hs]
          exact if_pos hjoin
        rw [hskip]
        exact .join hr hs hjoin
      · have hskip : m.clearBucket.skip slot.start stop m.skipReason =
            m.clearBucket.flushPending.andThen fun n => ⟨n.await slot.start stop m.skipReason, []⟩ := by
          simp only [skip, hpending, hs]
          exact if_neg hjoin
        have hplan : m.clearBucket.flushPending.state.plan = m.plan :=
          (congrArg Metric.plan (body_flushPending m.clearBucket) :)
        have hvoid : (m.clearBucket.flushPending.state.await slot.start stop m.skipReason).pending =
            some (m.void slot stop) := by
          rw [await, void, hplan]
        rw [hskip, Emitting.andThen_records, List.append_nil, flushPending_records, Emitting.andThen_state, hvoid]
        refine .fresh hr fun g' hg' => ?_
        cases hs.symm.trans hg'
        exact hjoin

theorem feed_firedAt {num : Nat} {firedAt : Int} {rows : List (DimensionKey × Float)}
    {ts : List (Alert.Tracker Float)} : ∀ a ∈ (feed num firedAt rows ts).2, a.firedAt = firedAt := by
  induction ts with
  | nil => simp [feed]
  | cons t ts ih =>
      intro a ha
      rcases List.mem_append.1 ha with ha | ha
      · obtain ⟨f, hf, rfl⟩ := List.mem_map.1 ha
        exact t.onBucket_firedAt num firedAt rows f hf
      · exact ih a ha

theorem flushBucket_closes (m : Metric) (slot : Slot) (stop : Int) (reportEmpty : Bool) :
    (Closes m slot stop (m.flushBucket slot stop reportEmpty).records
        (m.flushBucket slot stop reportEmpty).state.pending ∧ (m.rows = [] → reportEmpty = true)) ∨
      m.rows = [] ∧ reportEmpty = false ∧ (m.flushBucket slot stop reportEmpty).records = [] ∧
        (m.flushBucket slot stop reportEmpty).state.pending = m.pending := by
  cases hr : m.rows.isEmpty with
  | false =>
      left
      have hplan : m.clearBucket.flushPending.state.plan = m.plan :=
        (congrArg Metric.plan (body_flushPending m.clearBucket) :)
      have hpending : m.clearBucket.flushPending.state.pending = none := flushPending_pending _
      have hrows : m.rows ≠ [] := by simpa using hr
      rw [flushBucket_of_rows hr, Emitting.andThen_records, flushPending_records, Emitting.andThen_state]
      simp only [emitRows, hplan, hpending]
      exact ⟨.rows _ hrows feed_firedAt, fun h => absurd h hrows⟩
  | true =>
      cases reportEmpty with
      | false =>
          rw [flushBucket_unreported hr]
          exact .inr ⟨List.isEmpty_iff.1 hr, rfl, rfl, rfl⟩
      | true =>
          rw [flushBucket_of_empty hr]
          exact .inl ⟨skip_closes (by simpa using hr) slot stop, fun _ => rfl⟩

theorem rows_pairwise (m : Metric) : m.rows.Pairwise fun a b => a.key.canonical ≠ b.key.canonical := by
  have hne : ∀ {a b : DimensionKey}, Keyed.text a < Keyed.text b → a.canonical ≠ b.canonical := by
    intro a b hlt heq
    change a.canonical < b.canonical at hlt
    rw [heq] at hlt
    exact String.lt_irrefl _ hlt
  rw [rows]
  split
  · exact List.pairwise_map.2 (m.samples.ascending.imp hne)
  · exact List.pairwise_map.2 ((m.intervals.totals.ascending.imp hne).filter _)
  · exact .nil

theorem ofRows_pairwise (m : Metric) (slot : Slot) (stop : Int) (alerts : List Record.Alert) :
    (m.ofRows slot stop alerts).Pairwise Precedes := by
  refine List.pairwise_append.2 ⟨?_, ?_, fun x _ y hy => .inr fun a _ b hb => ?_⟩
  · exact List.pairwise_map.2 ((rows_pairwise m).imp fun hne => .inl ⟨rfl, rfl, hne⟩)
  · refine List.pairwise_map.2 (List.pairwise_of_forall fun x y => .inr fun a ha => ?_)
    cases ha
  · obtain ⟨y, -, rfl⟩ := List.mem_map.1 hy
    cases hb

theorem ofRows_span {alerts : List Record.Alert} {x : Record} (hx : x ∈ m.ofRows slot stop alerts) :
    ∀ a ∈ x.span?, a = (slot.start, stop) ∧ x.slots = 1 := by
  intro a ha
  rcases List.mem_append.1 hx with hx | hx
  · obtain ⟨r, -, rfl⟩ := List.mem_map.1 hx
    cases ha
    exact ⟨rfl, rfl⟩
  · obtain ⟨y, -, rfl⟩ := List.mem_map.1 hx
    cases ha

theorem gaps_ofRows (m : Metric) (slot : Slot) (stop : Int) (alerts : List Record.Alert) :
    gaps (m.ofRows slot stop alerts) = [] := by
  refine List.filterMap_eq_nil_iff.2 fun x hx => ?_
  rcases List.mem_append.1 hx with hx | hx <;> obtain ⟨y, -, rfl⟩ := List.mem_map.1 hx <;> rfl

theorem gaps_owed (m : Metric) : gaps m.owed = m.pending.toList := by
  rw [owed, gaps]
  cases m.pending <;> rfl

variable {A : Int → Prop} {size s : Int} {rs out : List Record} {pending : Option Record.Skipped}

namespace Closes

theorem paving (h : Closes m slot stop out pending) (hp : Paving A size True s slot.start (rs ++ m.owed))
    (hsize : 0 < size) (hs : s ≤ slot.start) (hle : slot.start ≤ stop) (hlt : m.rows = [] → slot.start < stop)
    (hstop : stop ≤ slot.start + size) (hanchor : ∃ c, A c ∧ ∃ j : Nat, slot.start = c + j * size) :
    Paving A size (stop = slot.start + size) s stop (rs ++ (out ++ pending.toList.map .skipped)) := by
  cases h with
  | rows alerts hrows =>
      simp only [Option.toList_none, List.map_nil, List.append_nil]
      rw [← List.append_assoc]
      exact hp.append hsize (ofRows_pairwise m slot stop alerts) (fun x hx => ofRows_span hx) hs hle hstop hanchor
        (by simp [gaps_ofRows])
  | @join g hrows hs' hjoin =>
      simp only [owed, hs', Option.toList_some, List.map_cons, List.map_nil, List.nil_append] at hp ⊢
      exact hp.prolong hsize hjoin.1 (hlt hrows) hstop
  | fresh hrows _ =>
      simp only [Option.toList_some, List.map_cons, List.map_nil]
      rw [← List.append_assoc]
      refine hp.append hsize (List.pairwise_singleton _ _) (fun x hx a ha => ?_) hs hle hstop hanchor
        fun _ _ => hlt hrows
      rw [List.mem_singleton.1 hx] at ha ⊢
      cases ha
      exact ⟨rfl, rfl⟩

theorem covers (h : Closes m slot stop out pending) (hp : Paving A size True s slot.start (rs ++ m.owed))
    (hc : Covers s slot.start (rs ++ m.owed)) : Covers s stop (rs ++ (out ++ pending.toList.map .skipped)) := by
  cases h with
  | rows alerts hrows =>
      simp only [Option.toList_none, List.map_nil, List.append_nil]
      rw [← List.append_assoc]
      refine hc.append fun i hi hi' => ?_
      obtain ⟨r, hr⟩ := List.exists_mem_of_ne_nil _ hrows
      exact ⟨_, List.mem_append_left _ (List.mem_map_of_mem hr), _, rfl, hi, hi'⟩
  | @join g hrows hs' hjoin =>
      simp only [owed, hs', Option.toList_some, List.map_cons, List.map_nil, List.nil_append] at hp hc ⊢
      have hin := hp.inside _ (List.mem_append_right _ (List.mem_singleton_self _)) (g.start, g.stop) rfl
      exact hc.prolong hin.2.1 hjoin.1 _
  | fresh hrows _ =>
      simp only [Option.toList_some, List.map_cons, List.map_nil]
      rw [← List.append_assoc]
      exact hc.append fun i hi hi' => ⟨_, List.mem_singleton_self _, _, rfl, hi, hi'⟩

end Closes

/-- The end of a bucket makes of the reports what `Closes` says. -/
theorem roll_closes (m : Metric) (cs : Conditions) (slot : Slot) : Closes (m.accrue slot.stop) slot slot.stop
    (m.roll cs slot).records (m.roll cs slot).state.pending := by
  rw [roll_eq, Emitting.andThen_records, Emitting.andThen_state, proceed_pending, List.append_nil]
  refine ((flushBucket_closes (m.accrue slot.stop) slot slot.stop true).resolve_right ?_).1
  exact fun h => Bool.noConfusion h.2.1

theorem closeAt_closes {now : Int} (hs : m.grid.current = some slot) (hle : slot.start ≤ now) :
    (Closes (m.settle now) slot now (m.closeAt now).records (m.closeAt now).state.pending ∧
        ((m.settle now).rows = [] → slot.start < now)) ∨
      (m.settle now).rows = [] ∧ slot.start = now ∧ (m.closeAt now).records = [] ∧
        (m.closeAt now).state.pending = m.pending := by
  have hmax : max now slot.start = now := Int.max_eq_left hle
  rw [closeAt_of_slot hs, hmax, Emitting.andThen_records, List.append_nil, Emitting.andThen_state]
  rcases flushBucket_closes (m.settle now) slot now (slot.start < now) with
    ⟨h, hrows⟩ | ⟨hr, hstop, hnone, hsame⟩
  · exact .inl ⟨h, fun hr => of_decide_eq_true (hrows hr)⟩
  · refine .inr ⟨hr, ?_, hnone, hsame.trans (onIntervals_pending m _)⟩
    have := of_decide_eq_false hstop
    omega

end EventMetrics.Metric
