import EventMetrics.Metric.Intervals
import EventMetrics.Proofs.Table

namespace EventMetrics.Intervals

/-- Keys are open as deep as `depth` says, none of them linked; time runs for all of them, or for
none. -/
structure Opened (runs : Bool) (depth : DimensionKey → Nat) (is : Intervals) : Prop where
  depth : ∀ k, (is.opened.get? k).elim 0 (·.nesting) = depth k
  interval : ∀ k iv, is.opened.get? k = some iv → 0 < iv.nesting ∧ iv.link = none ∧ iv.since.isSome = runs

variable {is is' : Intervals} {runs runs' : Bool} {depth : DimensionKey → Nat} {time : Int}

theorem opened_empty (runs : Bool) : Opened runs (fun _ => 0) {} := ⟨fun _ => rfl, fun _ _ hk => by cases hk⟩

namespace Opened

theorem congr (h : Opened runs depth is) (hopened : is'.opened = is.opened) : Opened runs depth is' :=
  ⟨hopened ▸ h.depth, hopened ▸ h.interval⟩

theorem running_iff (h : Opened runs depth is) (k : DimensionKey) :
    ((is.opened.get? k).bind (·.since)).isSome = (decide (0 < depth k) && runs) := by
  have hd := h.depth k
  cases hk : is.opened.get? k with
  | none =>
      rw [hk] at hd
      simp [← hd]
  | some iv =>
      obtain ⟨hpos, -, hruns⟩ := h.interval k iv hk
      rw [hk] at hd
      simp only [Option.elim_some] at hd
      simp [hruns, ← hd, hpos]

theorem sweep {f : Interval → Interval × Int} (h : Opened runs depth is)
    (hnesting : ∀ iv, (f iv).1.nesting = iv.nesting) (hlink : ∀ iv, (f iv).1.link = iv.link)
    (hruns : ∀ iv, iv.link = none → iv.since.isSome = runs → (f iv).1.since.isSome = runs') :
    Opened runs' depth (is.sweep fun _ iv => f iv) := by
  have hopened : ∀ k, (is.sweep fun _ iv => f iv).opened.get? k =
      (is.opened.get? k).map fun iv => (f iv).1 := fun k =>
    Table.get?_mapValues is.opened (fun iv => (f iv).1) k
  constructor
  · intro k
    rw [hopened, ← h.depth k]
    cases is.opened.get? k with
    | none => rfl
    | some iv => exact hnesting iv
  · intro k iv' hk
    rw [hopened, Option.map_eq_some_iff] at hk
    obtain ⟨iv, hiv, rfl⟩ := hk
    obtain ⟨hpos, hnone, hsince⟩ := h.interval k iv hiv
    exact ⟨hnesting iv ▸ hpos, (hlink iv).trans hnone, hruns iv hnone hsince⟩

theorem regate (time : Int) (h : Opened runs depth is) (gate : Option DimensionKey → Bool) :
    Opened (gate none) depth (is.regate .sum time gate) := by
  refine h.sweep (fun iv => ?_) (fun iv => ?_) (fun iv hlink _ => ?_)
  · unfold regateOne
    split <;> rfl
  · unfold regateOne
    split <;> rfl
  · unfold regateOne
    rw [hlink]
    cases hg : gate none <;> cases hs : iv.since <;> simp [cut, hs]

theorem accrueTo (h : Opened runs depth is) : Opened runs depth (is.accrueTo .sum time) := by
  refine h.sweep (fun iv => ?_) (fun iv => ?_) (fun iv _ hruns => ?_)
  · split <;> rfl
  · split <;> rfl
  · rw [← hruns]
    cases hs : iv.since <;> simp [cut, hs]

theorem stopAll : Opened runs (fun _ => 0) (is.stopAll .sum time) :=
  ⟨fun _ => rfl, fun _ _ hk => by cases hk⟩

theorem depth_congr (h : Opened runs depth is) {j k : DimensionKey} (hjk : Keyed.text j = Keyed.text k) :
    depth j = depth k := by
  rw [← h.depth, ← h.depth, Table.get?_congr hjk]

theorem change (h : Opened runs depth is) (j : DimensionKey) {g : Nat → Nat} {found : Option Interval}
    (hopened : ∀ k, is'.opened.get? k = if Keyed.text k = Keyed.text j then found else is.opened.get? k)
    (hdepth : g (depth j) = found.elim 0 (·.nesting))
    (hfound : ∀ iv, found = some iv → 0 < iv.nesting ∧ iv.link = none ∧ iv.since.isSome = runs) :
    Opened runs (fun k => if Keyed.text k = Keyed.text j then g (depth k) else depth k) is' := by
  constructor
  · intro k
    rw [hopened]
    split
    next hk => rw [h.depth_congr hk, hdepth]
    next => exact h.depth k
  · intro k iv hk
    rw [hopened] at hk
    split at hk
    · exact hfound iv hk
    · exact h.interval k iv hk

theorem start {nested : Bool} {limit : Nat} {j : DimensionKey} (h : Opened runs depth is)
    (hstart : is.start nested limit time runs j none = .ok is') :
    Opened runs (fun k => if Keyed.text k = Keyed.text j then (if nested then depth k + 1 else 1) else depth k)
      is' := by
  have hd := h.depth j
  rw [Intervals.start] at hstart
  cases hj : is.opened.get? j with
  | some iv =>
      obtain ⟨hpos, hlink, hruns⟩ := h.interval j iv hj
      rw [hj, Option.elim_some] at hd
      simp only [hj, Except.ok.injEq] at hstart
      rw [← hstart]
      refine h.change j (g := fun n => if nested then n + 1 else 1)
        (fun k => Table.get?_insert is.opened j k _) ?_ fun iv' hiv => ?_
      · simp only [Option.elim_some, hd]
      · cases hiv
        refine ⟨?_, hlink, ?_⟩
        · dsimp only
          split <;> omega
        · dsimp only
          split
          next hopen => exact hopen.1.symm
          next => exact hruns
  | none =>
      rw [hj, Option.elim_none] at hd
      simp only [hj] at hstart
      split at hstart
      · cases hstart
      · cases hstart
        refine h.change j (g := fun n => if nested then n + 1 else 1)
          (fun k => Table.get?_insert is.opened j k _) ?_ fun iv' hiv => ?_
        · simp only [Option.elim_some, ← hd, Nat.zero_add, ite_self]
        · cases hiv
          refine ⟨Nat.one_pos, rfl, ?_⟩
          cases runs <;> rfl

theorem stop (time : Int) (h : Opened runs depth is) (nested : Bool) (j : DimensionKey) :
    Opened runs (fun k => if Keyed.text k = Keyed.text j then (if nested then depth k - 1 else 0) else depth k)
      (is.stop .sum nested time j) := by
  have hd := h.depth j
  rw [Intervals.stop]
  cases hj : is.opened.get? j with
  | none =>
      rw [hj, Option.elim_none] at hd
      have hopened : ∀ k, is.opened.get? k =
          if Keyed.text k = Keyed.text j then (none : Option Interval) else is.opened.get? k := by
        intro k
        by_cases hk : Keyed.text k = Keyed.text j
        · rw [if_pos hk, Table.get?_congr hk, hj]
        · rw [if_neg hk]
      refine h.change j (g := fun n => if nested then n - 1 else 0) hopened ?_ fun _ hiv => by cases hiv
      simp [← hd]
  | some iv =>
      obtain ⟨hpos, hlink, hruns⟩ := h.interval j iv hj
      rw [hj, Option.elim_some] at hd
      dsimp only
      by_cases hn : 0 < (if nested then iv.nesting - 1 else 0)
      · rw [if_pos hn]
        refine h.change j (g := fun n => if nested then n - 1 else 0)
          (fun k => Table.get?_insert is.opened j k _) ?_ fun iv' hiv => ?_
        · simp only [Option.elim_some, hd]
        · cases hiv
          exact ⟨hn, hlink, hruns⟩
      · rw [if_neg hn]
        refine h.change j (g := fun n => if nested then n - 1 else 0)
          (fun k => Table.get?_erase is.opened j k) ?_ fun _ hiv => by cases hiv
        simp only [Option.elim_none, ← hd]
        omega

end Opened

end EventMetrics.Intervals
