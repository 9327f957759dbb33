import EventMetrics.Proofs.Metric.Tidy

namespace EventMetrics

open Definition (DurationAggregation)
open Instant (InRange inRange_of_nonneg last)

/-- A running interval is cut: the time since it runs is added to what was gathered before, for its key in the
open bucket or, by sparse maxima, in its life. -/
structure Cut where
  agg : DurationAggregation
  since : Int
  time : Int
  before : Int
  deriving DecidableEq, Repr

namespace Cut

def span (c : Cut) : Int := c.time - c.since

def sum (c : Cut) : Int := c.before + c.span

/-- Words hold the span and the sum; that of a life, if they hold the time since the start. -/
structure Fits (s : Int) (c : Cut) : Prop where
  span : InRange c.span
  sum : c.agg = .sum ∨ c.time - s ≤ last → InRange c.sum

end Cut

namespace Intervals

/-- What the time of an interval is added to. No two open intervals have the same key, so that others that are cut
before it change nothing here. -/
def gatheredBy (is : Intervals) (agg : DurationAggregation) (k : DimensionKey) (iv : Interval) : Int :=
  match agg with
  | .sum => gathered is.totals k
  | .maxSparse => iv.lifetime

def cutOf (is : Intervals) (agg : DurationAggregation) (time : Int) (e : DimensionKey × Interval) : Option Cut :=
  e.2.since.map fun since => ⟨agg, since, time, is.gatheredBy agg e.1 e.2⟩

def cuts (is : Intervals) (agg : DurationAggregation) (time : Int) (gate : Option DimensionKey → Bool) : List Cut :=
  (is.opened.entries.filter fun e => !gate e.2.link).filterMap (is.cutOf agg time)

def stopCuts (is : Intervals) (agg : DurationAggregation) (nested : Bool) (time : Int) (k : DimensionKey) :
    List Cut :=
  match is.opened.get? k with
  | none => []
  | some iv => if 0 < (if nested then iv.nesting - 1 else 0) then [] else (is.cutOf agg time (k, iv)).toList

end Intervals

/-- An interval runs at most since the open bucket started, and has lived no longer than the time since `s`. -/
structure Interval.Aged (s floor τ : Int) (iv : Interval) : Prop where
  since : ∀ a, iv.since = some a → floor ≤ a ∧ a ≤ τ
  lifetime : 0 ≤ iv.lifetime ∧ iv.lifetime + iv.running τ ≤ τ - s

namespace Interval

variable {iv iv' : Interval} {s floor τ : Int}

theorem aged_new (hs : s ≤ floor) (hfloor : floor ≤ τ) (isOpen : Bool) (link : Option DimensionKey) :
    ({ nesting := 1, since := if isOpen then some τ else none, link } : Interval).Aged s floor τ := by
  refine ⟨fun a ha => ?_, Int.le_refl 0, ?_⟩
  · dsimp only at ha
    split at ha <;> cases ha
    exact ⟨hfloor, Int.le_refl _⟩
  · cases isOpen <;> simp [running] <;> omega

namespace Aged

variable (h : iv.Aged s floor τ)
include h

theorem resume (hfloor : floor ≤ τ) (hrest : iv.since = none) (hsince : iv'.since = some τ)
    (hlifetime : iv'.lifetime = iv.lifetime) : iv'.Aged s floor τ := by
  refine ⟨fun a ha => ?_, ?_⟩
  · cases hsince.symm.trans ha
    exact ⟨hfloor, Int.le_refl _⟩
  · have hlived := h.lifetime
    rw [running_of_none hrest] at hlived
    rwa [hlifetime, running_of_some hsince, Int.sub_self]

theorem cut {next : Option Int} (hnext : next = none ∨ next = some τ) {floor' : Int}
    (hfloor : floor' ≤ τ) : (Intervals.cut .maxSparse τ next iv).1.Aged s floor' τ := by
  have hsince := Intervals.cut_since .maxSparse τ iv next
  refine ⟨fun a ha => ?_, ?_⟩
  · rw [hsince] at ha
    rcases hnext with rfl | rfl <;> cases ha
    exact ⟨hfloor, Int.le_refl _⟩
  · obtain ⟨hnonneg, hle⟩ := h.lifetime
    have hlived := Int.add_nonneg hnonneg (running_nonneg fun a ha => (h.since a ha).2)
    rw [Intervals.cut_maxSparse τ iv (fun a ha => (h.since a ha).2) next]
    have hnone : ({ iv with since := next, lifetime := iv.lifetime + iv.running τ } : Interval).running τ = 0 := by
      rcases hnext with rfl | rfl
      · exact running_of_none rfl τ
      · exact (running_of_some rfl τ).trans (Int.sub_self τ)
    refine ⟨hlived, ?_⟩
    rwa [hnone, Int.add_zero]

theorem regateOne (hfloor : floor ≤ τ) (isOpen : Bool) :
    (Intervals.regateOne .maxSparse τ isOpen iv).1.Aged s floor τ := by
  unfold Intervals.regateOne
  split
  next hrest => exact h.resume hfloor hrest rfl rfl
  next => exact h.cut (.inl rfl) hfloor
  next => exact h

theorem accrueOne : (Intervals.accrueOne .maxSparse τ iv).1.Aged s τ τ := by
  rw [Intervals.accrueOne]
  cases ha : iv.since with
  | none => exact ⟨fun a h => (by cases ha.symm.trans h), h.lifetime⟩
  | some a => exact h.cut (.inr rfl) (Int.le_refl τ)

theorem again (hfloor : floor ≤ τ) (nesting : Nat) (isOpen : Bool) :
    ({ iv with nesting, since := if isOpen ∧ iv.since.isNone then some τ else iv.since } : Interval).Aged
      s floor τ := by
  by_cases hruns : isOpen ∧ iv.since.isNone
  · exact h.resume hfloor (Option.isNone_iff_eq_none.1 hruns.2) (if_pos hruns) rfl
  · simp only [if_neg hruns]
    exact ⟨h.since, h.lifetime⟩

theorem wait {τ' : Int} (hle : τ ≤ τ') : iv.Aged s floor τ' := by
  obtain ⟨hnonneg, hlived⟩ := h.lifetime
  refine ⟨fun a ha => (h.since a ha).imp_right (Int.le_trans · hle), hnonneg, ?_⟩
  cases ha : iv.since with
  | none =>
      rw [running_of_none ha] at hlived ⊢
      omega
  | some a =>
      rw [running_of_some ha] at hlived ⊢
      omega

end Aged

end Interval

namespace Intervals

variable {agg : DurationAggregation} {is is' : Intervals} {iv : Interval} {k j : DimensionKey} {s floor τ : Int}

structure Aged (s floor τ : Int) (is : Intervals) : Prop where
  began : s ≤ floor
  le : floor ≤ τ
  length : τ - floor ≤ last
  opened : ∀ k iv, is.opened.get? k = some iv → iv.Aged s floor τ

namespace Aged

theorem insert (h : is.Aged s floor τ) (hiv : iv.Aged s floor τ) :
    { is with opened := is.opened.insert j iv }.Aged s floor τ := by
  refine ⟨h.began, h.le, h.length, fun k iv' hk => ?_⟩
  rw [Table.get?_insert] at hk
  split at hk
  · cases hk
    exact hiv
  · exact h.opened k iv' hk

theorem sweep (h : is.Aged s floor τ) {f : Interval → Interval × Int} {floor' : Int} (hfloor : floor ≤ floor')
    (hle : floor' ≤ τ) (hf : ∀ iv : Interval, iv.Aged s floor τ → (f iv).1.Aged s floor' τ) :
    (is.sweep fun _ iv => f iv).Aged s floor' τ := by
  have hlength := h.length
  refine ⟨Int.le_trans h.began hfloor, hle, by omega, fun k iv' hk => ?_⟩
  rw [opened_sweep, Option.map_eq_some_iff] at hk
  obtain ⟨iv, hiv, rfl⟩ := hk
  exact hf iv (h.opened k iv hiv)

theorem regate (h : is.Aged s floor τ) (gate : Option DimensionKey → Bool) :
    (is.regate .maxSparse τ gate).Aged s floor τ :=
  h.sweep (f := fun iv => regateOne .maxSparse τ (gate iv.link) iv) (Int.le_refl _) h.le
    fun _ hiv => hiv.regateOne h.le _

theorem accrueTo (h : is.Aged s floor τ) : (is.accrueTo .maxSparse τ).Aged s τ τ := by
  rw [accrueTo_eq]
  exact h.sweep h.le (Int.le_refl τ) fun _ hiv => hiv.accrueOne

theorem start {nested isOpen : Bool} {limit : Nat} {link : Option DimensionKey} (h : is.Aged s floor τ)
    (hstart : is.start nested limit τ isOpen j link = .ok is') : is'.Aged s floor τ := by
  rcases start_cases hstart with ⟨iv, hj, rfl⟩ | ⟨-, rfl⟩
  · exact h.insert ((h.opened j iv hj).again h.le _ isOpen)
  · exact h.insert (Interval.aged_new h.began h.le isOpen link)

theorem stop (h : is.Aged s floor τ) (nested : Bool) (j : DimensionKey) :
    (is.stop .maxSparse nested τ j).Aged s floor τ := by
  rcases stop_cases is .maxSparse nested τ j with ⟨-, hstop⟩ | ⟨iv, hj, ⟨-, hstop⟩ | ⟨-, hstop⟩⟩ <;> rw [hstop]
  · exact h
  · obtain ⟨hsince, hlifetime⟩ := h.opened j iv hj
    exact h.insert ⟨hsince, hlifetime⟩
  · refine ⟨h.began, h.le, h.length, fun k iv' hk => ?_⟩
    rw [Table.get?_erase] at hk
    split at hk
    · cases hk
    · exact h.opened k iv' hk

end Aged

/-- What the intervals have gathered at an instant: since `floor`, where the open bucket starts, or in lives that
began after `s`. -/
def Contained (agg : DurationAggregation) (s floor τ : Int) (is : Intervals) : Prop :=
  match agg with
  | .sum => ∃ count, is.Reckons floor τ count
  | .maxSparse => is.Aged s floor τ

namespace Contained

theorem empty (hs : s ≤ τ) : ({} : Intervals).Contained agg s τ τ := by
  cases agg with
  | sum => exact ⟨_, reckons_empty τ⟩
  | maxSparse => exact ⟨hs, Int.le_refl τ, by simp [last], fun _ _ hk => by cases hk⟩

variable (h : is.Contained agg s floor τ)
include h

theorem since (hk : is.opened.get? k = some iv) {a : Int} (ha : iv.since = some a) :
    (floor ≤ a ∧ a ≤ τ) ∧ τ - floor ≤ last := by
  cases agg with
  | sum => exact h.elim fun count h => ⟨h.since k iv a hk ha, h.length⟩
  | maxSparse => exact ⟨(h.opened k iv hk).since a ha, h.length⟩

theorem gatheredBy_add_le (hk : is.opened.get? k = some iv) (hs : agg = .sum ∨ τ - s ≤ last) :
    0 ≤ is.gatheredBy agg k iv ∧ is.gatheredBy agg k iv + iv.running τ ≤ last := by
  cases agg with
  | sum => exact h.elim fun count h => ⟨h.gathered k, h.gathered_add_le hk⟩
  | maxSparse =>
      have hs := hs.resolve_left (by simp)
      exact (h.opened k iv hk).lifetime.imp_right (Int.le_trans · hs)

theorem fits (hk : is.opened.get? k = some iv) {c : Cut} (hc : is.cutOf agg τ (k, iv) = some c) : c.Fits s := by
  obtain ⟨a, ha, rfl⟩ := Option.map_eq_some_iff.1 hc
  obtain ⟨⟨hfloor, hτ⟩, hlength⟩ := h.since hk ha
  have hspan := Int.sub_nonneg_of_le hτ
  refine ⟨inRange_of_nonneg hspan (Int.le_trans (Int.sub_le_sub_left hfloor τ) hlength), fun hs => ?_⟩
  obtain ⟨hnonneg, hle⟩ := h.gatheredBy_add_le hk hs
  rw [Interval.running_of_some ha] at hle
  exact inRange_of_nonneg (Int.add_nonneg hnonneg hspan) hle

theorem fits_cuts (gate : Option DimensionKey → Bool) : ∀ c ∈ is.cuts agg τ gate, c.Fits s := by
  intro c hc
  obtain ⟨e, he, hc⟩ := List.mem_filterMap.1 hc
  exact h.fits (Table.get?_of_mem (List.mem_filter.1 he).1) hc

theorem fits_stopCuts (nested : Bool) (k : DimensionKey) : ∀ c ∈ is.stopCuts agg nested τ k, c.Fits s := by
  intro c hc
  rw [stopCuts] at hc
  split at hc
  next => cases hc
  next iv hk =>
    rw [List.mem_ite_nil_left] at hc
    exact h.fits hk (Option.mem_toList.1 hc.2)

theorem regate (gate : Option DimensionKey → Bool) : (is.regate agg τ gate).Contained agg s floor τ := by
  cases agg with
  | sum => exact h.imp fun count h => steady_regate is gate floor count h
  | maxSparse => exact Aged.regate h gate

theorem stopAll : (is.stopAll agg τ).Contained agg s floor τ := by
  cases agg with
  | sum => exact h.imp fun count h => steady_stopAll is floor count h
  | maxSparse => exact ⟨h.began, h.le, h.length, fun _ _ hk => by cases hk⟩

theorem start {nested isOpen : Bool} {limit : Nat} {link : Option DimensionKey}
    (hstart : is.start nested limit τ isOpen j link = .ok is') : is'.Contained agg s floor τ := by
  cases agg with
  | sum => exact h.imp fun count h => steady_start hstart floor count h
  | maxSparse => exact Aged.start h hstart

theorem stop (nested : Bool) (j : DimensionKey) : (is.stop agg nested τ j).Contained agg s floor τ := by
  cases agg with
  | sum => exact h.imp fun count h => steady_stop is nested j floor count h
  | maxSparse => exact Aged.stop h nested j

theorem clear : { is.accrueTo agg τ with totals := .empty }.Contained agg s τ τ := by
  cases agg with
  | sum => exact ⟨_, reckons_clear τ is⟩
  | maxSparse =>
      obtain ⟨hbegan, hle, hlength, hopened⟩ := Aged.accrueTo h
      exact ⟨hbegan, hle, hlength, hopened⟩

theorem wait {τ' : Int} (hle : τ ≤ τ') (hlength : τ' - floor ≤ last) : is.Contained agg s floor τ' := by
  cases agg with
  | sum => exact h.elim fun count h => ⟨_, h.wait hle hlength fun _ => rfl⟩
  | maxSparse => exact ⟨h.began, Int.le_trans h.le hle, hlength, fun k iv hk => (h.opened k iv hk).wait hle⟩

omit h in
theorem rest (h : is.Contained agg s τ τ) (hrest : is.AtRest) {τ' : Int} (hle : τ ≤ τ') :
    is.Contained agg s τ' τ' := by
  cases agg with
  | sum =>
      obtain ⟨count, h⟩ := h
      have hcount : ∀ k, count k = 0 := fun k => by
        have hnone : (is.opened.get? k).elim 0 (·.running τ) = 0 := by
          cases hk : is.opened.get? k with
          | none => rfl
          | some iv => exact Interval.running_of_none (hrest k iv hk) τ
        have hheld := h.held k
        have hbounded := h.bounded k
        have hgathered := h.gathered k
        rw [held, hnone] at hheld
        omega
      refine ⟨_, h.rest hcount (fun k => ?_) τ'⟩
      cases hk : is.opened.get? k with
      | none => rfl
      | some iv => rw [Option.bind_some, hrest k iv hk, Option.isSome_none]
  | maxSparse =>
      refine ⟨Int.le_trans h.began hle, Int.le_refl τ', by simp [last], fun k iv hk => ?_⟩
      exact ⟨fun a ha => by simp [hrest k iv hk] at ha, ((h.opened k iv hk).wait hle).lifetime⟩

end Contained

end Intervals

end EventMetrics
