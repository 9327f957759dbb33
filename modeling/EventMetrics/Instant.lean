namespace EventMetrics.Instant

def first : Int := -9223372036854775808

def last : Int := 9223372036854775807

def InRange (t : Int) : Prop := first ≤ t ∧ t ≤ last

instance (t : Int) : Decidable (InRange t) := inferInstanceAs (Decidable (_ ∧ _))

def clamp (n : Int) : Int :=
  if last < n then last else if n < first then first else n

/-- The instant `d` after `t`, or the end of the range. -/
def after (t d : Int) : Int := clamp (t + d)

theorem inRange_of_nonneg {n : Int} (h : 0 ≤ n) (hle : n ≤ last) : InRange n := ⟨Int.le_trans (by decide) h, hle⟩

theorem clamp_of_inRange {n : Int} (h : InRange n) : clamp n = n := by
  obtain ⟨h₁, h₂⟩ := h
  simp only [first, last] at h₁ h₂
  simp only [clamp, first, last]
  omega

theorem clamp_inRange (n : Int) : InRange (clamp n) := by
  simp only [InRange, clamp, first, last]
  omega

end EventMetrics.Instant
