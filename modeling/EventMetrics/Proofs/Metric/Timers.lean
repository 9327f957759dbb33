import EventMetrics.Proofs.Activation
import EventMetrics.Proofs.Bounded

namespace EventMetrics

@[simp] theorem Emitting.andThen_state {α : Type} (r : Emitting α) (f : α → Emitting α) :
    (r.andThen f).state = (f r.state).state := rfl

@[simp] theorem Emitting.andThen_records {α : Type} (r : Emitting α) (f : α → Emitting α) :
    (r.andThen f).records = r.records ++ (f r.state).records := rfl

namespace Metric

variable {m : Metric} {cs : Conditions} {limit due : Int} {inclusive : Bool} {r : Emitting Metric}

def expiry (m : Metric) : Option Int :=
  if m.active && !m.windows.isEmpty then m.windows.endsAt Instant.first else none

def Due (due limit : Int) (inclusive : Bool) : Prop := due < limit ∨ (inclusive = true ∧ due = limit)

theorem due_false : Due due limit false ↔ due < limit := by simp [Due]

theorem due_true : Due due limit true ↔ due ≤ limit := by
  simp only [Due, true_and]
  omega

instance : Decidable (Due due limit inclusive) := inferInstanceAs (Decidable (_ ∨ _))

/-- A timer closes the bucket that ends there, or else ends activity. -/
inductive Fires (m : Metric) (cs : Conditions) (due : Int) : Emitting Metric → Prop
  | roll {slot} : m.grid.current = some slot → slot.stop = due → Fires m cs due (m.roll cs slot)
  | expire : m.expiry = some due → (∀ slot, m.grid.current = some slot → due < slot.stop) →
      Fires m cs due ⟨m.deactivate due, []⟩

theorem nextDeadline_eq : m.nextDeadline = match m.grid.current, m.expiry with
    | some slot, some e => some (min slot.stop e)
    | some slot, none => some slot.stop
    | none, e => e := rfl

theorem expiry_eq_some (h : m.expiry = some due) :
    m.active = true ∧ m.windows ≠ [] ∧ m.windows.endsAt Instant.first = some due := by
  rw [expiry] at h
  split at h
  next ha => simp_all
  next => cases h

theorem not_isActive_expiry (h : m.expiry = some due) : m.windows.isActive due = false := by
  obtain ⟨-, hne, hends⟩ := expiry_eq_some h
  obtain ⟨⟨a, -, -, hlt⟩, -⟩ := Activations.endsAt_eq_some hends
  have := Activations.isActive_iff_lt (t := due) hne hends (by omega)
  simpa using this

theorem nextDeadline_cases (h : m.nextDeadline = some due) :
    (∃ slot, m.grid.current = some slot ∧ slot.stop = due ∧ ∀ x, m.expiry = some x → due ≤ x) ∨
    (m.expiry = some due ∧ ∀ slot, m.grid.current = some slot → due < slot.stop) := by
  rw [nextDeadline_eq] at h
  cases hs : m.grid.current with
  | none => simp_all
  | some slot =>
      cases he : m.expiry with
      | none => simp_all
      | some x =>
          simp only [hs, he, Option.some.injEq] at h ⊢
          by_cases hx : slot.stop ≤ x
          · left
            exact ⟨slot, rfl, by omega, fun y hy => by omega⟩
          · right
            exact ⟨by omega, fun y hy => by cases hy; omega⟩

theorem fire_nextDeadline (cs : Conditions) (h : m.nextDeadline = some due) :
    ∃ r, m.fire cs due = some r ∧ Fires m cs due r := by
  rcases nextDeadline_cases h with ⟨slot, hs, rfl, -⟩ | ⟨he, hlt⟩
  · exact ⟨m.roll cs slot, by simp [fire, hs], .roll hs rfl⟩
  · refine ⟨⟨m.deactivate due, []⟩, ?_, .expire he hlt⟩
    have hi := not_isActive_expiry he
    have ha := (expiry_eq_some he).1
    rw [fire]
    cases hs : m.grid.current with
    | none => simp [ha, hi]
    | some slot =>
        have := hlt slot hs
        simp only [ha, hi, if_neg (show ¬ slot.stop ≤ due by omega)]
        rfl

theorem tick_of_deadline (cs : Conditions) (h : m.nextDeadline = some due) :
    m.tick cs limit inclusive = if Due due limit inclusive then m.fire cs due else none := by
  by_cases hd : Due due limit inclusive
  · rw [if_pos hd]
    simp only [tick, h, ite_eq_right_iff]
    rw [Due] at hd
    cases inclusive <;> grind
  · rw [if_neg hd]
    simp only [tick, h, ite_eq_left_iff]
    rw [Due] at hd
    cases inclusive <;> grind

theorem tick_eq_none : m.tick cs limit inclusive = none ↔
    ∀ d, m.nextDeadline = some d → ¬ Due d limit inclusive := by
  cases h : m.nextDeadline with
  | none => simp [tick, h]
  | some d =>
      obtain ⟨r, hr, -⟩ := fire_nextDeadline cs h
      by_cases hd : Due d limit inclusive <;> simp [tick_of_deadline cs h, hd, hr]

theorem tick_eq_some (h : m.tick cs limit inclusive = some r) :
    ∃ d, m.nextDeadline = some d ∧ Due d limit inclusive ∧ Fires m cs d r := by
  cases hd : m.nextDeadline with
  | none => simp [tick, hd] at h
  | some d =>
      obtain ⟨q, hq, hf⟩ := fire_nextDeadline cs hd
      rw [tick_of_deadline cs hd] at h
      by_cases hdue : Due d limit inclusive
      · rw [if_pos hdue, hq] at h
        cases h
        exact ⟨d, rfl, hdue, hf⟩
      · rw [if_neg hdue] at h
        cases h

theorem advance_of_tick_none (h : m.tick cs limit inclusive = none) :
    m.advance cs limit inclusive = ⟨m, []⟩ := by
  rw [advance, h]

theorem advance_of_tick (h : m.tick cs limit inclusive = some r)
    (hlt : r.state.remaining < m.remaining) :
    m.advance cs limit inclusive = r.andThen (·.advance cs limit inclusive) := by
  rw [advance, h]
  simp only [hlt, if_true]
  rfl

theorem advance_of_stuck (h : m.tick cs limit inclusive = some r)
    (hlt : ¬ r.state.remaining < m.remaining) : m.advance cs limit inclusive = r := by
  rw [advance, h]
  simp only [hlt, if_false]

/-- What the two things that timers do keep, all timers keep. -/
theorem advance_induction {P : Metric → List Record → Prop}
    (hroll : ∀ m rs slot, P m rs → m.nextDeadline = some slot.stop → m.grid.current = some slot →
      Due slot.stop limit inclusive → P (m.roll cs slot).state (rs ++ (m.roll cs slot).records))
    (hexpire : ∀ m rs due, P m rs → m.nextDeadline = some due → m.expiry = some due →
      Due due limit inclusive → P (m.deactivate due) rs)
    (m : Metric) (rs : List Record) (h : P m rs) :
    P (m.advance cs limit inclusive).state (rs ++ (m.advance cs limit inclusive).records) := by
  have hfire : ∀ {m rs r}, P m rs → m.tick cs limit inclusive = some r → P r.state (rs ++ r.records) := by
    intro m rs r h hr
    obtain ⟨d, hd, hdue, hf⟩ := tick_eq_some hr
    cases hf with
    | roll hs he =>
        subst he
        exact hroll m rs _ h hd hs hdue
    | expire he hlt => simpa using hexpire m rs d h hd he hdue
  fun_induction advance m cs limit inclusive generalizing rs with
  | case1 m ht => simpa using h
  | case2 m r ht hlt q ih => simpa using ih _ (hfire h ht)
  | case3 m r ht hlt => exact hfire h ht

/-- Metrics with the same timers go on alike, if closed buckets and ends of activity leave them alike. -/
theorem advance_simulation {R : List Record → List Record → Metric → Metric → Prop} {n : Metric} {cs' : Conditions}
    {a b : List Record}
    (hcurrent : ∀ {rs rs' m n}, R rs rs' m n → m.grid.current = n.grid.current)
    (hnext : ∀ {rs rs' m n}, R rs rs' m n → m.nextDeadline = n.nextDeadline)
    (hremaining : ∀ {rs rs' m n}, R rs rs' m n → m.remaining = n.remaining)
    (hroll : ∀ {rs rs' m n} slot, R rs rs' m n →
      R (rs ++ (m.roll cs slot).records) (rs' ++ (n.roll cs' slot).records)
        (m.roll cs slot).state (n.roll cs' slot).state)
    (hexpire : ∀ {rs rs' m n} due, R rs rs' m n → R rs rs' (m.deactivate due) (n.deactivate due))
    (h : R a b m n) :
    R (a ++ (m.advance cs limit inclusive).records) (b ++ (n.advance cs' limit inclusive).records)
      (m.advance cs limit inclusive).state (n.advance cs' limit inclusive).state := by
  have htick : ∀ {rs rs' m n r}, R rs rs' m n → m.tick cs limit inclusive = some r →
      ∃ q, n.tick cs' limit inclusive = some q ∧ R (rs ++ r.records) (rs' ++ q.records) r.state q.state := by
    intro rs rs' m n r h ht
    obtain ⟨d, hd, hdue, hf⟩ := tick_eq_some ht
    rw [hnext h] at hd
    obtain ⟨q, hq, hf'⟩ := fire_nextDeadline cs' hd
    refine ⟨q, by rw [tick_of_deadline cs' hd, if_pos hdue, hq], ?_⟩
    cases hf with
    | roll hs he =>
        cases hf' with
        | roll hs' he' =>
            cases (hcurrent h ▸ hs).symm.trans hs'
            exact hroll _ h
        | expire hx' hlt' =>
            have := hlt' _ (hcurrent h ▸ hs)
            omega
    | expire hx hlt =>
        cases hf' with
        | roll hs' he' =>
            have := hlt _ (hcurrent h ▸ hs')
            omega
        | expire hx' hlt' => simpa using hexpire d h
  fun_induction advance m cs limit inclusive generalizing a b n with
  | case1 m ht =>
      have ht' : n.tick cs' limit inclusive = none := tick_eq_none.2 (hnext h ▸ tick_eq_none.1 ht)
      simpa [advance_of_tick_none ht'] using h
  | case2 m r ht hlt =>
      rename_i ih
      obtain ⟨r', ht', hr⟩ := htick h ht
      rw [hremaining hr, hremaining h] at hlt
      rw [advance_of_tick ht' hlt]
      simpa using ih hr
  | case3 m r ht hlt =>
      obtain ⟨r', ht', hr⟩ := htick h ht
      rw [hremaining hr, hremaining h] at hlt
      rw [advance_of_stuck ht' hlt]
      exact hr

theorem rollTo_induction {P : Metric → List Record → Prop} {time : Int}
    (hroll : ∀ m rs slot, P m rs → m.grid.current = some slot → slot.stop ≤ time →
      P (m.roll cs slot).state (rs ++ (m.roll cs slot).records))
    (m : Metric) (rs : List Record) (h : P m rs) :
    P (m.rollTo cs time).state (rs ++ (m.rollTo cs time).records) := by
  fun_induction rollTo m cs time generalizing rs with
  | case1 m hs => simpa using h
  | case2 m slot hs hle r hlt q ih => simpa using ih _ (hroll m rs slot h hs hle)
  | case3 m slot hs hle r hlt => exact hroll m rs slot h hs hle
  | case4 m slot hs hle => simpa using h

end Metric

end EventMetrics
