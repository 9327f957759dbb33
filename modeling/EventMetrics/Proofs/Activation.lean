import EventMetrics.Activation
import Mathlib.Order.Bounds.Defs

namespace EventMetrics

theorem later_eq_some {a b : Option Int} {d : Int} (h : later a b = some d) : a = some d ∨ b = some d := by
  cases a with
  | none => exact .inr h
  | some x =>
      cases b with
      | none => exact .inl h
      | some y =>
          simp only [later, Option.some.injEq] at h ⊢
          omega

theorem le_later {a b : Option Int} {x : Int} (h : a = some x ∨ b = some x) :
    ∃ d, later a b = some d ∧ x ≤ d := by
  rcases h with rfl | rfl
  · cases b with
    | none => exact ⟨x, rfl, by omega⟩
    | some y => exact ⟨max x y, rfl, by omega⟩
  · cases a with
    | none => exact ⟨x, rfl, by omega⟩
    | some y => exact ⟨max y x, rfl, by omega⟩

namespace Activations

variable {as : Activations} {now t d : Int}

def Expires (as : Activations) (now d : Int) : Prop := ∃ a ∈ as, a.expiry = some d ∧ now < d

theorem expires_cons {a : Activation} :
    Expires (a :: as) now d ↔ a.expiry.filter (now < ·) = some d ∨ Expires as now d := by
  simp [Expires, Option.filter_eq_some_iff]

theorem foldl_later (as : Activations) (now : Int) (found : Option Int) :
    (∀ d, as.foldl (fun latest a => later latest (a.expiry.filter (now < ·))) found = some d →
      found = some d ∨ Expires as now d) ∧
    ∀ x, found = some x ∨ Expires as now x →
      ∃ d, as.foldl (fun latest a => later latest (a.expiry.filter (now < ·))) found = some d ∧
        x ≤ d := by
  induction as generalizing found with
  | nil =>
      refine ⟨fun d hd => .inl hd, ?_⟩
      rintro x (hx | ⟨_, h, _⟩)
      · exact ⟨x, hx, by omega⟩
      · cases h
  | cons a as ih =>
      obtain ⟨ih₁, ih₂⟩ := ih (later found (a.expiry.filter (now < ·)))
      simp only [List.foldl_cons, expires_cons]
      constructor
      · intro d hd
        rcases ih₁ d hd with h | h
        · rcases later_eq_some h with h | h
          · exact .inl h
          · exact .inr (.inl h)
        · exact .inr (.inr h)
      · intro x hx
        rw [← or_assoc] at hx
        rcases hx with hx | hx
        · obtain ⟨y, hy, hle⟩ := le_later hx
          obtain ⟨d, hd, hle'⟩ := ih₂ y (.inl hy)
          exact ⟨d, hd, by omega⟩
        · exact ih₂ x (.inr hx)

theorem endsAt_eq_some (h : as.endsAt now = some d) :
    Expires as now d ∧ ∀ x, Expires as now x → x ≤ d := by
  obtain ⟨h₁, h₂⟩ := foldl_later as now none
  refine ⟨?_, fun x hx => ?_⟩
  · simpa using h₁ d h
  · obtain ⟨y, hy, hle⟩ := h₂ x (.inr hx)
    rw [endsAt, hy] at h
    cases h
    exact hle

theorem endsAt_eq_none (h : as.endsAt now = none) (x : Int) : ¬ Expires as now x := by
  intro hx
  obtain ⟨y, hy, _⟩ := (foldl_later as now none).2 x (.inr hx)
  rw [endsAt, hy] at h
  cases h

theorem isActive_iff : as.isActive t = true ↔ as = [] ∨ ∃ d, Expires as t d := by
  simp only [isActive, Bool.or_eq_true, List.isEmpty_iff, List.any_eq_true, Activation.isOpen,
    Option.any_eq_true, decide_eq_true_eq, Expires]
  constructor
  · rintro (h | ⟨a, ha, d, hd, ht⟩)
    · exact .inl h
    · exact .inr ⟨d, a, ha, hd, ht⟩
  · rintro (h | ⟨d, a, ha, hd, ht⟩)
    · exact .inl h
    · exact .inr ⟨a, ha, d, hd, ht⟩

theorem isActive_anti {s : Int} (hst : s ≤ t) (h : as.isActive t = true) : as.isActive s = true := by
  rw [isActive_iff] at h ⊢
  rcases h with h | ⟨d, a, ha, hd, hlt⟩
  · exact .inl h
  · exact .inr ⟨d, a, ha, hd, by omega⟩

theorem isActive_iff_lt (hne : as ≠ []) (h : as.endsAt now = some d) (ht : now ≤ t) :
    as.isActive t = true ↔ t < d := by
  obtain ⟨⟨a, ha, hd, hlt⟩, hmax⟩ := endsAt_eq_some h
  rw [isActive_iff]
  constructor
  · rintro (h | ⟨x, b, hb, hx, hxt⟩)
    · exact absurd h hne
    · have := hmax x ⟨b, hb, hx, by omega⟩
      omega
  · intro htd
    exact .inr ⟨d, a, ha, hd, htd⟩

theorem not_isActive_of_endsAt (hne : as ≠ []) (h : as.endsAt now = none) (ht : now ≤ t) :
    as.isActive t = false := by
  rw [← Bool.not_eq_true, isActive_iff]
  rintro (h' | ⟨x, b, hb, hx, hxt⟩)
  · exact hne h'
  · exact endsAt_eq_none h x ⟨b, hb, hx, by omega⟩

theorem isSome_endsAt (hne : as ≠ []) : (as.endsAt now).isSome = true ↔ as.isActive now = true := by
  cases h : as.endsAt now with
  | none => simp [not_isActive_of_endsAt hne h (Int.le_refl now)]
  | some d =>
      obtain ⟨⟨_, _, _, hlt⟩, _⟩ := endsAt_eq_some h
      simp [(isActive_iff_lt hne h (Int.le_refl now)).2 hlt]

theorem isLeast_endsAt (hne : as ≠ []) (h : as.endsAt now = some d) :
    IsLeast {t | now < t ∧ as.isActive t = false} d := by
  obtain ⟨⟨_, _, _, hlt⟩, _⟩ := endsAt_eq_some h
  constructor
  · have hend := isActive_iff_lt hne h (Int.le_of_lt hlt)
    exact ⟨hlt, by simpa using hend⟩
  · rintro t ⟨hnow, hidle⟩
    have hrecords := isActive_iff_lt hne h (Int.le_of_lt hnow)
    rw [hidle] at hrecords
    simpa using hrecords

def Bounded (as : Activations) : Prop := ∀ a ∈ as, ∀ x, a.expiry = some x → x ≤ Instant.last

theorem Bounded.onEvent (h : Bounded as) (time : Int) (hits : Hits) : Bounded (as.onEvent time hits) := by
  intro b hb x hx
  obtain ⟨a, ha, rfl⟩ := List.mem_map.1 hb
  have hafter : Instant.after time a.ttl ≤ Instant.last := (Instant.clamp_inRange _).2
  simp only [Activation.onEvent] at hx
  split at hx
  · cases hx
  · split at hx
    · rcases later_eq_some hx with hx | hx
      · exact h a ha x hx
      · cases hx
        exact hafter
    · exact h a ha x hx

theorem Bounded.not_isActive_last (h : Bounded as) (hne : as ≠ []) : as.isActive Instant.last = false := by
  rw [← Bool.not_eq_true, isActive_iff]
  rintro (hnil | ⟨x, a, ha, hx, hlt⟩)
  · exact hne hnil
  · have := h a ha x hx
    omega

theorem Bounded.lt_last (h : Bounded as) (ht : as.isActive t = true) : t < Instant.last ∨ as = [] := by
  rcases isActive_iff.1 ht with hnil | ⟨d, a, ha, hd, hlt⟩
  · exact .inr hnil
  · have hle := h a ha d hd
    exact .inl (by omega)

end Activations

end EventMetrics
