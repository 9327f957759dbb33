import EventMetrics.Proofs.Engine.Checked
import EventMetrics.Proofs.Engine.Feeding
import EventMetrics.Proofs.Engine.Sparse
import EventMetrics.Proofs.Metric.Fits

namespace EventMetrics.Engine

open Instant (InRange first last)
open Checked (guard_eq_throw)
open EventMetrics.Metric (Nested Worded)

variable {d : Definitions} {o : EngineOptions} {e final : Engine} {calls : List Call} {m : Metric} {w : Work}

theorem within_call (he : Reachable d o e) {n : Nat} (hn : e.conditions.Within n) (c : Call) :
    (e.call c).conditions.Within (n + 1) := by
  cases hc : e.closed with
  | true => exact (call_of_closed hc c).symm ▸ fun c hc => (hn c hc).succ
  | false =>
      have hconditions := ensureStarted_conditions e c.time
      exact (call_moves hc c).within (hconditions ▸ he.wellFormed) (hconditions ▸ hn)

theorem within_run (he : Reachable d o e) (hcalls : ∀ c ∈ calls, c.InRange) {n : Nat} (hn : e.conditions.Within n) :
    (e.run calls).conditions.Within (n + calls.length) := by
  induction calls generalizing e n with
  | nil => exact hn
  | cons c calls ih =>
      obtain ⟨hc, hcalls⟩ := List.forall_mem_cons.1 hcalls
      rw [List.length_cons, Nat.add_comm calls.length, ← Nat.add_assoc]
      exact ih (he.call c hc) hcalls (within_call he hn c)

theorem countsFit_of_within {n : Nat} (h : e.conditions.Within n) (hn : n + 1 < 4294967296) (c : Call) :
    e.countsFit c = true := by
  cases c with
  | process ev => simp [countsFit, h.countsFit hn]
  | advanceTo | shutdown => rfl

/-- Words hold all numbers of a run if they hold those of every part of the work, and at each call the counts of the
conditions. -/
theorem runFits_iff (he : Reachable d o e) (hcalls : ∀ c ∈ calls, c.InRange) : e.runFits calls = true ↔
    (∀ id ∈ e.metricIds, ∀ w ∈ e.works id calls, w.fits = true) ∧
      ∀ before c after, calls = before ++ c :: after → (e.run before).countsFit c = true := by
  induction calls generalizing e with
  | nil => simp [runFits, works]
  | cons c calls ih =>
      obtain ⟨hc, hcalls⟩ := List.forall_mem_cons.1 hcalls
      have hcounts : (∀ before k after, c :: calls = before ++ k :: after → (e.run before).countsFit k = true) ↔
          e.countsFit c = true ∧
            ∀ before k after, calls = before ++ k :: after → ((e.call c).run before).countsFit k = true := by
        constructor
        · exact fun h => ⟨h [] c calls rfl, fun before k after hk => h (c :: before) k after (by rw [hk]; rfl)⟩
        · rintro ⟨hfirst, h⟩ before k after hk
          cases before with
          | nil =>
              cases hk
              exact hfirst
          | cons b before =>
              obtain ⟨rfl, hrest⟩ := List.cons.inj hk
              exact h before k after hrest
      rw [runFits, callFits, Bool.and_eq_true, Bool.and_eq_true, ih (he.call c hc) hcalls, metricIds_call he.owning,
        hcounts]
      simp only [List.all_eq_true, works, List.forall_mem_append, forall_and]
      tauto

theorem length_history_le (e : Engine) (id : String) (calls : List Call) :
    (e.history id calls).length ≤ calls.length := by
  induction calls generalizing e with
  | nil => exact Nat.le_refl 0
  | cons c calls ih =>
      have hheard : (e.heard id c).length ≤ 1 := by
        cases c with
        | process ev =>
            rw [heard]
            split <;> simp
        | advanceTo | shutdown => exact Nat.zero_le 1
      have hrest := ih (e.call c)
      rw [history, List.length_append, List.length_cons]
      omega

section

variable (h : compile d o = .ok e) (ho : o.InRange) (hcalls : ∀ c ∈ calls, c.InRange) (hends : e.Ends calls)
  (hm : m ∈ e.metrics) (hw : w ∈ e.works m.plan.id calls)
include h ho hcalls hends hm hw

theorem inWords_of_mem : w.InWords m (e.startOf calls 0) := by
  obtain ⟨-, -, hworks⟩ := logged_run (Worded.logged e.matchers m _) (Worded.settles m _) h ho hm hcalls hends
    (by simp) fun hs => .start (compile_fresh h m hm) (compile_last h m hm) hs e.conditions
  exact hworks w hw

theorem nesting_le_length : w.nesting ≤ calls.length := by
  obtain ⟨-, -, hworks⟩ := logged_run (Nested.logged e.matchers) Nested.settles h ho hm hcalls hends (by simp)
    fun _ => .start (compile_fresh h m hm) e.conditions _
  have hle := hworks w hw
  rw [events_works_of_compile h hm, events, List.length_map] at hle
  exact Nat.le_trans hle (length_history_le e m.plan.id calls)

theorem not_fits_iff_of_mem : ¬ w.fits = true ↔ (∃ p q, w.opens = some (some p, q) ∧ ¬ InRange (q.start - p.stop)) ∨
    (∃ c ∈ w.cuts, c.agg = .maxSparse ∧ 0 < c.span ∧ ¬ InRange c.sum) ∨ 4294967296 ≤ w.nesting := by
  obtain ⟨hopens, hcuts⟩ := inWords_of_mem h ho hcalls hends hm hw
  have hnumbers : w.Numbers := by
    intro l q hopened
    obtain ⟨hpos, -, -, hword, hcounts, -⟩ := hopens l q hopened
    exact ⟨hpos, hword, fun p hp => (hcounts p hp).start⟩
  rw [Work.fits_iff hnumbers, not_and_or, not_and_or, Work.Near]
  push Not
  exact or_congr_right (or_congr_left (exists_congr fun c => and_congr_right fun hc => (hcuts c hc).not_held_iff))

end

/-- In any run that ends, whatever the instants of its events, a bucket that opens has a positive size and a number
that a word holds, which counts the sizes since the bucket before it; and words hold how long each interval that is
cut has run and the total of its key. Within the time from the start on that a word can say, or without windows, they
also hold the time between two buckets; and within that time the lives of intervals, too. The run stops by an overflow
just if one of these two does not fit, or if an interval or a condition counts more starts than half a word can say,
for which there must be as many calls. -/
theorem words_suffice (h : compile d o = .ok e) (ho : o.InRange) (hcalls : ∀ c ∈ calls, c.InRange)
    (hrun : e.run? calls = some final) :
    (∀ m ∈ e.metrics, ∀ w ∈ e.works m.plan.id calls,
      let s := e.startOf calls 0
      let size := w.metric.grid.size
      (∀ l q, w.opens = some (l, q) → 0 < size ∧ q.stop = Instant.after q.start size ∧ (l = none → q.num = 0) ∧
        q.num < 18446744073709551616 ∧ ∀ p ∈ l, p.stop ≤ q.start ∧
          (q.num : Int) = p.num + 1 + (q.start - p.stop) / size ∧
          (m.windows = [] ∨ q.start - s ≤ last → InRange (q.start - p.stop))) ∧
      ∀ c ∈ w.cuts, InRange c.span ∧ (c.agg = .sum ∨ c.time - s ≤ last → InRange c.sum)) ∧
    (e.run! calls = throw .overflow ↔
      (∃ m ∈ e.metrics, ∃ w ∈ e.works m.plan.id calls,
        (∃ p q, w.opens = some (some p, q) ∧ ¬ InRange (q.start - p.stop)) ∨
        (∃ c ∈ w.cuts, c.agg = .maxSparse ∧ 0 < c.span ∧ ¬ InRange c.sum) ∨ 4294967296 ≤ w.nesting) ∨
      ∃ before c after, calls = before ++ c :: after ∧ (e.run before).countsFit c = false) ∧
    (calls.length < 4294967296 → (∀ m ∈ e.metrics, ∀ w ∈ e.works m.plan.id calls, w.nesting < 4294967296) ∧
      ∀ before c after, calls = before ++ c :: after → (e.run before).countsFit c = true) := by
  obtain ⟨hends, -⟩ := (run?_eq_some (.compiled h) ho hcalls).1 hrun
  refine ⟨?_, ?_, fun hfew => ⟨fun m hm w hw => ?_, fun before c after hsplit => ?_⟩⟩
  · intro m hm w hw s size
    obtain ⟨hopens, hcuts⟩ := inWords_of_mem h ho hcalls hends hm hw
    refine ⟨fun l q hopened => ?_, fun c hc => ⟨(hcuts c hc).span, (hcuts c hc).sum⟩⟩
    obtain ⟨hpos, hstop, hzero, hword, hcounts, hnear⟩ := hopens l q hopened
    exact ⟨hpos, hstop, hzero, hword, fun p hp => ⟨(hcounts p hp).start, (hcounts p hp).num, fun hs => hnear hs p hp⟩⟩
  · rw [run!_eq (.compiled h) ho hcalls hends, guard_eq_throw, ← Bool.not_eq_true, runFits_iff (.compiled h) hcalls,
      not_and_or]
    simp only [metricIds, List.forall_mem_map]
    push Not
    refine or_congr (exists_congr fun m => and_congr_right fun hm => exists_congr fun w => and_congr_right fun hw => ?_)
      (exists₃_congr fun before c after => and_congr_right fun _ => iff_of_eq (Bool.not_eq_true _))
    exact not_fits_iff_of_mem h ho hcalls hends hm hw
  · exact Nat.lt_of_le_of_lt (nesting_le_length h ho hcalls hends hm hw) hfew
  · have hbefore : ∀ k ∈ before, k.InRange := fun k hk => hcalls k (hsplit ▸ List.mem_append_left _ hk)
    rw [hsplit, List.length_append, List.length_cons] at hfew
    exact countsFit_of_within (within_run (.compiled h) hbefore (compile_within h)) (by omega) c

/-- An interval is cut where activity ends, and the second start of the machine opens a bucket that counts the one
before it and the slot between the two. -/
theorem words_suffice_wakes : ∃ e m final, compile wakes { start := some 0 } = .ok e ∧ m ∈ e.metrics ∧
    (∀ c ∈ nap, c.InRange) ∧ e.run? nap = some final ∧
    (∃ w ∈ e.works m.plan.id nap, w.opens = some (some ⟨0, 10, 0⟩, ⟨20, 30, 2⟩) ∧ 0 < w.metric.grid.size ∧
      (2 : Int) = 0 + 1 + (20 - 10) / w.metric.grid.size ∧ InRange (20 - 10)) ∧
    (∃ w ∈ e.works m.plan.id nap, ⟨.maxSparse, 2, 5, 0⟩ ∈ w.cuts ∧ InRange (Cut.mk .maxSparse 2 5 0).span ∧
      InRange (Cut.mk .maxSparse 2 5 0).sum) ∧ e.run! nap ≠ throw .overflow := by
  obtain ⟨e, he, m, hm, hstart, ⟨v, hv, hopens⟩, ⟨w, hw, hcut⟩, hclose⟩ : ∃ e,
      compile wakes { start := some 0 } = .ok e ∧ ∃ m ∈ e.metrics, e.startOf nap 0 = 0 ∧
        (∃ v ∈ e.works m.plan.id nap, v.opens = some (some ⟨0, 10, 0⟩, ⟨20, 30, 2⟩)) ∧
        (∃ w ∈ e.works m.plan.id nap, ⟨.maxSparse, 2, 5, 0⟩ ∈ w.cuts) ∧
        ∀ m ∈ e.metrics, ∀ w ∈ e.works m.plan.id nap,
          (∀ l ∈ w.opens, ∀ p ∈ l.1, InRange (l.2.start - p.stop)) ∧ ∀ c ∈ w.cuts, InRange c.sum :=
    ⟨_, rfl, _, .head _, by decide +kernel⟩
  have htimely : ∀ c ∈ nap, Timely c := by decide
  have hcalls := fun c hc => (htimely c hc).inRange
  have ho : EngineOptions.InRange { start := some 0 } := by decide
  have hrun := (run?_eq_some (.compiled he) ho hcalls).2 ⟨ends_of_timely htimely, rfl⟩
  obtain ⟨hworks, hoverflow, hfew⟩ := words_suffice he ho hcalls hrun
  obtain ⟨hnesting, hcounts⟩ := hfew (by decide)
  obtain ⟨hpos, -, -, -, hlast⟩ := (hworks m hm v hv).1 _ _ hopens
  obtain ⟨hspan, hsum⟩ := (hworks m hm w hw).2 _ hcut
  obtain ⟨-, hnum, hgap⟩ := hlast _ rfl
  refine ⟨e, m, _, he, hm, hcalls, hrun, ⟨v, hv, hopens, hpos, hnum, hgap (.inr (by rw [hstart]; decide))⟩,
    ⟨w, hw, hcut, hspan, hsum (.inr (by rw [hstart]; decide))⟩, ?_⟩
  rw [Ne, hoverflow]
  rintro (⟨n, hn, u, hu, ⟨p, q, hpq, hfar⟩ | ⟨c, hc, -, -, hlong⟩ | hdeep⟩ | ⟨before, c, after, hsplit, hfull⟩)
  · exact hfar ((hclose n hn u hu).1 _ hpq p rfl)
  · exact hlong ((hclose n hn u hu).2 c hc)
  · exact absurd (hnesting n hn u hu) (Nat.not_lt.2 hdeep)
  · exact absurd (hcounts before c after hsplit) (by rw [hfull]; decide)

/-- The longest time that a machine is on, in buckets as long as a word can say. -/
def ages : Definitions where
  matchers := [⟨"start", .simple 1 []⟩, ⟨"stop", .simple 2 []⟩]
  metrics := [{ id := "longest", measure := .duration "start" "stop" none false .maxSparse,
                bucket := some ⟨9223372036854775807⟩ }]

def afar (a b : Int) : List Call := [.process { atom := a, time := first }, .process { atom := b, time := last - 1 }]

/-- A machine starts at the first instant and again at the last but one: no word holds the time between its two
buckets. Or it is on for all this time: no word holds the life of the interval. -/
theorem words_fall_short : (∀ a b, ∀ c ∈ afar a b, c.InRange) ∧
    (∃ e, compile boots {} = .ok e ∧ e.run! (afar 3 3) = throw .overflow ∧
      ∃ w ∈ e.works "visits" (afar 3 3), w.opens =
        some (some ⟨first, first + 10, 0⟩, ⟨last - 1, last, 1844674407370955161⟩) ∧
        ¬ InRange (last - 1 - (first + 10))) ∧
    ∃ e, compile ages {} = .ok e ∧ e.run! (afar 1 2) = throw .overflow ∧
      ∃ w ∈ e.works "longest" (afar 1 2), ∃ c ∈ w.cuts, c.agg = .maxSparse ∧ ¬ InRange c.sum := by
  have htimely : ∀ a b, ∀ c ∈ afar a b, Timely c := by
    have hfirst : InRange first ∧ first < last := by decide
    have hlast : InRange (last - 1) ∧ last - 1 < last := by decide
    simp only [afar, List.mem_cons, List.not_mem_nil, or_false, forall_eq_or_imp, forall_eq]
    exact fun _ _ => ⟨hfirst, hlast⟩
  have hcalls := fun a b c hc => (htimely a b c hc).inRange
  have hrun : ∀ d e, compile d {} = .ok e → ∀ a b, e.runFits (afar a b) = false →
      e.run! (afar a b) = throw .overflow := by
    intro d e he a b hfits
    rw [run!_eq (.compiled he) (by decide) (hcalls a b) (ends_of_timely (htimely a b)), hfits]
    rfl
  have hboots : compile boots {} = .ok _ := rfl
  have hages : compile ages {} = .ok _ := rfl
  exact ⟨hcalls, ⟨_, hboots, hrun _ _ hboots 3 3 (by decide +kernel), by decide +kernel⟩,
    _, hages, hrun _ _ hages 1 2 (by decide +kernel), by decide +kernel⟩

end EventMetrics.Engine
