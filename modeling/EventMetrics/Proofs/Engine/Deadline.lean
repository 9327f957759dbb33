import EventMetrics.Proofs.Engine.Loops

namespace EventMetrics

open Instant (last)

namespace Metric

variable {m n n' : Metric} {cs : Conditions} {τ due : Int} {r : Emitting Metric}

theorem Progress.congr (h : Progress m n) (hgrid : n'.grid = n.grid) (hactive : n'.active = n.active) :
    Progress m n' := by
  rwa [Progress, hgrid, hactive]

theorem Fires.quiet (hf : Fires m cs due r) (h : OnTime due m) (hlast : due < last) : Quiet due r.state := by
  cases hf with
  | @roll slot hs he =>
      subst he
      refine quiet_of_inside h.inRange.1 (inside_roll cs h.toPlaced hs (.inl hlast)) fun ha => ?_
      have hwindows : (m.roll cs slot).state.windows = m.windows := roll_windows m cs slot
      rw [roll_active, Bool.and_eq_true] at ha
      rw [hwindows]
      exact ha.2
  | expire hx hlt =>
      refine quiet_of_inside h.inRange.1 (fun slot hs => hlt slot ?_) fun ha => ?_
      · rwa [deactivate_grid] at hs
      · simp at ha

theorem Settled.progress (h : Settled τ m) (hd : m.nextDeadline = some due) (hlast : due < last) :
    Progress m (m.advanceTo cs (due + 1)).state := by
  obtain ⟨r, hr, hf⟩ := fire_nextDeadline cs hd
  have htick : m.tick cs (due + 1) false = some r := by
    rw [tick_of_deadline cs hd, if_pos (due_false.2 (Int.lt_succ due)), hr]
  have hnow : OnTime due m := h.wait (h.le_deadline hd) (Int.le_of_lt hlast) fun d' hd' => by
    cases hd.symm.trans hd'
    exact Int.le_refl due
  have hdone : r.state.tick cs (due + 1) false = none := tick_eq_none.2 fun d' hd' hdue => by
    have hlater := hf.quiet hnow hlast d' hd'
    have hsoon := due_false.1 hdue
    omega
  have hadvance : m.advance cs (due + 1) false = r.andThen fun n => ⟨n, []⟩ := by
    rw [advance_of_tick htick (remaining_tick_lt h.paced hlast htick)]
    simp only [Emitting.andThen, advance_of_tick_none hdone]
  have hbody := body_flushPending r.state
  rw [Metric.advanceTo, hadvance]
  exact (progress_tick h.paced hlast htick).congr (congrArg Metric.grid hbody :) (congrArg Metric.active hbody :)

end Metric

namespace Engine

open EventMetrics.Metric (Progress)

variable {d : Definitions} {o : EngineOptions} {e : Engine} {w t due : Int}

theorem nextDeadline_eq_foldl (e : Engine) :
    e.nextDeadline = e.metrics.foldl (fun least m => least.merge min m.nextDeadline) none := by
  rw [nextDeadline]
  refine List.foldl_ext _ _ none fun least m _ => ?_
  cases least <;> cases m.nextDeadline <;> rfl

theorem nextDeadline_eq_min? (e : Engine) : e.nextDeadline = (e.metrics.filterMap (·.nextDeadline)).min? := by
  have hfold : ∀ (ms : List Metric) (found : Option Int),
      ms.foldl (fun least m => least.merge min m.nextDeadline) found =
        (found.toList ++ ms.filterMap (·.nextDeadline)).min? := by
    intro ms
    induction ms with
    | nil =>
        intro found
        cases found <;> rfl
    | cons m ms ih =>
        intro found
        rw [List.foldl_cons, ih]
        cases hm : m.nextDeadline with
        | none => cases found <;> simp [hm]
        | some b =>
            cases found with
            | none => simp [hm]
            | some a =>
                rw [List.filterMap_cons_some hm]
                simp only [Option.merge, Option.toList_some, List.singleton_append, List.min?_cons', List.foldl_cons]
  rw [nextDeadline_eq_foldl, hfold]
  rfl

theorem nextDeadline_eq_some : e.nextDeadline = some due ↔ (∃ m ∈ e.metrics, m.nextDeadline = some due) ∧
    ∀ m ∈ e.metrics, ∀ d, m.nextDeadline = some d → due ≤ d := by
  rw [nextDeadline_eq_min?, List.min?_eq_some_iff, List.mem_filterMap]
  refine and_congr_right fun _ => ?_
  simp only [List.mem_filterMap]
  exact ⟨fun h m hm d hd => h d ⟨m, hm, hd⟩, fun h d ⟨m, hm, hd⟩ => h m hm d hd⟩

theorem nextDeadline_eq_none : e.nextDeadline = none ↔ ∀ m ∈ e.metrics, m.nextDeadline = none := by
  rw [nextDeadline_eq_min?, List.min?_eq_none_iff, List.filterMap_eq_nil_iff]

section

variable (h : Reachable d o e) (ho : o.InRange) (hopen : e.closed = false) (hw : e.watermark = some w)
include h ho hopen hw

theorem advanceTo?_eq_each (ht : Instant.InRange t) (hle : w ≤ t) :
    e.advanceTo? t = some (e.each (·.advanceTo e.conditions t) t) := by
  rw [advanceTo?_eq h ho ht, advanceTo_eq hopen, ensureStarted_of_some hw, if_neg (Int.not_lt.2 hle)]

theorem advanceTo?_of_not_due (ht : Instant.InRange t) (hle : w ≤ t)
    (hdue : ∀ m ∈ e.metrics, ∀ d, m.nextDeadline = some d → t ≤ d) :
    e.advanceTo? t = some { e with watermark := some t } := by
  have hidle : ∀ m ∈ e.metrics, m.advanceTo e.conditions t = ⟨m, []⟩ := fun m hm =>
    Metric.advanceTo_of_not_due (h.settled ho hopen hw m hm).pending (hdue m hm)
  rw [advanceTo?_eq_each h ho hopen hw ht hle, each_idle hidle]

end

end Engine

end EventMetrics
