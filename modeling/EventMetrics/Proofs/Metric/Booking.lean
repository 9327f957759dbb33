import EventMetrics.Proofs.Metric.Closing
import EventMetrics.Proofs.Metric.Uptime
import Mathlib.Tactic.ByContra

namespace EventMetrics

def Record.Bucket.Spans (r : Record.Bucket) (k : DimensionKey) (start stop : Int) : Prop :=
  r.dimension.canonical = k.canonical ∧ r.start = start ∧ r.stop = stop

def Record.Bucket.Covers (r : Record.Bucket) (k : DimensionKey) (i : Int) : Prop :=
  r.dimension.canonical = k.canonical ∧ r.start ≤ i ∧ i < r.stop

instance (r : Record.Bucket) (k : DimensionKey) (start stop : Int) : Decidable (r.Spans k start stop) :=
  inferInstanceAs (Decidable (_ ∧ _))

instance (r : Record.Bucket) (k : DimensionKey) (i : Int) : Decidable (r.Covers k i) :=
  inferInstanceAs (Decidable (_ ∧ _))

/-- The rows account for the time from `s` up to `b`. -/
structure Booked (up : DimensionKey → Int → Bool) (s b : Int) (rs : List Record.Bucket) : Prop where
  exact : ∀ r ∈ rs, r.start < r.stop ∧ r.stop ≤ b ∧
    r.value = .whole (Instant.count (up r.dimension) r.start r.stop)
  once : ∀ r ∈ rs, ∀ k, rs.countP (·.Spans k r.start r.stop) =
    if 0 < Instant.count (up k) r.start r.stop then 1 else 0
  covers : ∀ k i, s ≤ i → i < b → up k i = true → rs.countP (·.Covers k i) = 1

def Silent (up : DimensionKey → Int → Bool) (b : Int) (gs : List Record.Skipped) : Prop :=
  ∀ g ∈ gs, g.stop ≤ b ∧ ∀ k i, g.start ≤ i → i < g.stop → up k i = false

variable {up up' : DimensionKey → Int → Bool} {s b e : Int} {rs new : List Record.Bucket}
  {gs gs' : List Record.Skipped}

namespace Booked

theorem nil (up : DimensionKey → Int → Bool) (s : Int) : Booked up s s [] :=
  ⟨by simp, by simp, fun _ _ hs hb => by omega⟩

theorem congr (h : Booked up s b rs) (hup : ∀ k i, i < b → up' k i = up k i) : Booked up' s b rs := by
  have hcount : ∀ r ∈ rs, ∀ k, Instant.count (up' k) r.start r.stop = Instant.count (up k) r.start r.stop := by
    intro r hr k
    obtain ⟨-, hstop, -⟩ := h.exact r hr
    exact Instant.count_congr fun i _ hi => hup k i (by omega)
  constructor
  · intro r hr
    rw [hcount r hr]
    exact h.exact r hr
  · intro r hr k
    rw [hcount r hr]
    exact h.once r hr k
  · intro k i hs hb hi
    exact h.covers k i hs hb (hup k i hb ▸ hi)

theorem idle (h : Booked up s b rs) (hbe : b ≤ e) (hup : ∀ k i, b ≤ i → i < e → up k i = false) :
    Booked up s e rs := by
  refine ⟨fun r hr => ?_, h.once, fun k i hs he hi => ?_⟩
  · obtain ⟨hlt, hstop, hvalue⟩ := h.exact r hr
    exact ⟨hlt, by omega, hvalue⟩
  · by_cases hb : i < b
    · exact h.covers k i hs hb hi
    · rw [hup k i (by omega) he] at hi
      cases hi

theorem countP_spans_of_le (h : Booked up s b rs) {start : Int} (hb : b ≤ start) (k : DimensionKey) (stop : Int) :
    rs.countP (·.Spans k start stop) = 0 := by
  refine List.countP_eq_zero.2 fun r hr hspans => ?_
  obtain ⟨-, hstart, -⟩ := of_decide_eq_true hspans
  obtain ⟨hlt, hstop, -⟩ := h.exact r hr
  omega

theorem countP_covers_of_le (h : Booked up s b rs) {i : Int} (hb : b ≤ i) (k : DimensionKey) :
    rs.countP (·.Covers k i) = 0 := by
  refine List.countP_eq_zero.2 fun r hr hcovers => ?_
  obtain ⟨-, -, hi⟩ := of_decide_eq_true hcovers
  obtain ⟨-, hstop, -⟩ := h.exact r hr
  omega

end Booked

/-- The rows of one bucket from `b` up to `e`: those of the keys that have time in it. -/
structure Entered (up : DimensionKey → Int → Bool) (b e : Int) (new : List Record.Bucket) : Prop where
  exact : ∀ r ∈ new, r.start = b ∧ r.stop = e ∧ r.value = .whole (Instant.count (up r.dimension) b e)
  once : ∀ k, new.countP (fun r => r.dimension.canonical = k.canonical) =
    if 0 < Instant.count (up k) b e then 1 else 0

namespace Entered

theorem lt (h : Entered up b e new) (hbe : b ≤ e) {r : Record.Bucket} (hr : r ∈ new) : b < e := by
  by_contra hle
  have hone := h.once r.dimension
  have hbe : b = e := by omega
  rw [← hbe, Instant.count_self, if_neg (Nat.lt_irrefl 0), List.countP_eq_zero] at hone
  exact hone r hr (by simp)

theorem countP_spans (h : Entered up b e new) (k : DimensionKey) :
    new.countP (·.Spans k b e) = if 0 < Instant.count (up k) b e then 1 else 0 := by
  rw [← h.once k]
  apply List.countP_congr
  intro r hr
  obtain ⟨hstart, hstop, -⟩ := h.exact r hr
  simp [Record.Bucket.Spans, hstart, hstop]

theorem countP_spans_of_lt (h : Entered up b e new) {start : Int} (hb : start < b) (k : DimensionKey) (stop : Int) :
    new.countP (·.Spans k start stop) = 0 := by
  refine List.countP_eq_zero.2 fun r hr hspans => ?_
  obtain ⟨-, hstart, -⟩ := of_decide_eq_true hspans
  have hb := (h.exact r hr).1
  omega

theorem countP_covers (h : Entered up b e new) {k : DimensionKey} {i : Int} (hb : b ≤ i) (he : i < e)
    (hi : up k i = true) : new.countP (·.Covers k i) = 1 := by
  have hpos : 0 < Instant.count (up k) b e := by
    rw [Nat.pos_iff_ne_zero]
    intro hzero
    rw [Instant.count_eq_zero.1 hzero i hb he] at hi
    cases hi
  have hone := h.once k
  rw [if_pos hpos] at hone
  rw [← hone]
  apply List.countP_congr
  intro r hr
  obtain ⟨hstart, hstop, -⟩ := h.exact r hr
  simp only [Record.Bucket.Covers, hstart, hstop, decide_eq_true_eq]
  constructor
  · exact fun hk => hk.1
  · exact fun hk => ⟨hk, hb, he⟩

theorem countP_covers_of_lt (h : Entered up b e new) {i : Int} (hb : i < b) (k : DimensionKey) :
    new.countP (·.Covers k i) = 0 := by
  refine List.countP_eq_zero.2 fun r hr hcovers => ?_
  obtain ⟨-, hi, -⟩ := of_decide_eq_true hcovers
  have hstart := (h.exact r hr).1
  omega

end Entered

theorem Booked.enter (h : Booked up s b rs) (hbe : b ≤ e) (hnew : Entered up b e new) :
    Booked up s e (rs ++ new) := by
  constructor
  · intro r hr
    rcases List.mem_append.1 hr with hr | hr
    · obtain ⟨hlt, hstop, hvalue⟩ := h.exact r hr
      exact ⟨hlt, by omega, hvalue⟩
    · obtain ⟨hstart, hstop, hvalue⟩ := hnew.exact r hr
      rw [hstart, hstop]
      exact ⟨hnew.lt hbe hr, Int.le_refl e, hvalue⟩
  · intro r hr k
    rw [List.countP_append]
    rcases List.mem_append.1 hr with hr | hr
    · obtain ⟨hlt, hstop, -⟩ := h.exact r hr
      rw [hnew.countP_spans_of_lt (by omega), Nat.add_zero]
      exact h.once r hr k
    · obtain ⟨hstart, hstop, -⟩ := hnew.exact r hr
      rw [hstart, hstop, h.countP_spans_of_le (Int.le_refl b), Nat.zero_add]
      exact hnew.countP_spans k
  · intro k i hs he hi
    rw [List.countP_append]
    by_cases hb : i < b
    · rw [hnew.countP_covers_of_lt hb, Nat.add_zero]
      exact h.covers k i hs hb hi
    · rw [h.countP_covers_of_le (by omega), Nat.zero_add]
      exact hnew.countP_covers (by omega) he hi

namespace Silent

theorem congr (h : Silent up b gs) (hup : ∀ k i, i < b → up' k i = up k i) : Silent up' b gs := by
  intro g hg
  obtain ⟨hstop, hnone⟩ := h g hg
  exact ⟨hstop, fun k i hs he => (hup k i (by omega)).trans (hnone k i hs he)⟩

theorem extend (h : Silent up b gs) (hbe : b ≤ e)
    (hgs : ∀ g ∈ gs', g ∈ gs ∨ (∀ k, Instant.count (up k) b e = 0) ∧ g.stop = e ∧
      (g.start = b ∨ ∃ g₀ ∈ gs, g₀.start = g.start ∧ g₀.stop = b)) : Silent up e gs' := by
  intro g hg
  rcases hgs g hg with hg | ⟨hzero, hstop, hstart⟩
  · obtain ⟨hstop, hnone⟩ := h g hg
    exact ⟨by omega, hnone⟩
  · refine ⟨by omega, fun k i hs he => ?_⟩
    by_cases hb : b ≤ i
    · exact Instant.count_eq_zero.1 (hzero k) i hb (by omega)
    · rcases hstart with hstart | ⟨g₀, hg₀, hstart, hend⟩
      · omega
      · exact (h g₀ hg₀).2 k i (by omega) (by omega)

end Silent

end EventMetrics
