import EventMetrics.Metric.Checked
import EventMetrics.Proofs.Metric.Logged
import EventMetrics.Proofs.Metric.Loops

namespace EventMetrics

namespace Checked

variable {α β : Type} {fits more : Bool} {a : α} {b : β} {x : Checked α} {f : α → Checked β} {xs : List α}

theorem pure_inj {a' : α} : (pure a : Checked α) = pure a' ↔ a = a' :=
  ⟨fun h => Except.ok.inj (Option.some.inj h), congrArg _⟩

theorem throw_ne_pure : (throw Fault.overflow : Checked α) ≠ pure a := fun h => by
  cases Option.some.inj h

theorem guard_true (a : α) : guard true a = pure a := rfl

theorem guard_false (a : α) : guard false a = throw .overflow := rfl

theorem guard_eq_pure {a' : α} : guard fits a = pure a' ↔ fits = true ∧ a = a' := by
  cases fits with
  | true => simp [guard_true, pure_inj]
  | false => simp [guard_false, throw_ne_pure]

theorem guard_eq_throw : guard fits a = throw .overflow ↔ fits = false := by
  cases fits with
  | true => simp [guard_true, (throw_ne_pure (a := a)).symm]
  | false => simp [guard_false]

theorem bind_eq_pure : (x >>= f) = pure b ↔ ∃ a, x = pure a ∧ f a = pure b := by
  rcases x with _ | (_ | a)
  · exact ⟨fun h => (by cases h), fun ⟨_, h, _⟩ => (by cases h)⟩
  · exact ⟨fun h => (by cases Option.some.inj h), fun ⟨_, h, _⟩ => (by cases Option.some.inj h)⟩
  · exact ⟨fun h => ⟨a, rfl, h⟩, fun ⟨_, ha, h⟩ => pure_inj.1 ha ▸ h⟩

theorem guard_bind (h : f a = guard more b) : (guard fits a >>= f) = guard (fits && more) b := by
  cases fits with
  | true => exact h
  | false => rfl

theorem guard_bind_pure (h : f a = pure b) : (guard fits a >>= f) = guard fits b := by
  cases fits with
  | true => exact h
  | false => rfl

theorem mapM_guard {p : α → Bool} {g : α → β} (h : ∀ a ∈ xs, f a = guard (p a) (g a)) :
    xs.mapM f = guard (xs.all p) (xs.map g) := by
  induction xs with
  | nil => rfl
  | cons a xs ih =>
      have hrest := ih fun b hb => h b (List.mem_cons_of_mem _ hb)
      rw [List.mapM_cons, h a List.mem_cons_self, hrest, List.all_cons, List.map_cons]
      exact guard_bind (guard_bind_pure rfl)

theorem mapM_eq_pure {f' : α → Option β} (hf : ∀ a b, f a = pure b → f' a = some b) {ys : List β}
    (h : xs.mapM f = pure ys) : xs.mapM f' = some ys := by
  induction xs generalizing ys with
  | nil => exact congrArg some (pure_inj.1 h)
  | cons a xs ih =>
      rw [List.mapM_cons] at h
      obtain ⟨b, hb, h⟩ := bind_eq_pure.1 h
      obtain ⟨bs, hbs, h⟩ := bind_eq_pure.1 h
      rw [List.mapM_cons, hf a b hb, ih hbs, ← pure_inj.1 h]
      rfl

theorem result?_eq_some : x.result? = some a ↔ x = pure a := by
  rcases x with _ | (_ | b)
  · exact ⟨fun h => (by cases h), fun h => (by cases h)⟩
  · exact ⟨fun h => (by cases h), fun h => (by cases Option.some.inj h)⟩
  · exact ⟨fun h => pure_inj.2 (Option.some.inj h :), fun h => congrArg some (pure_inj.1 h)⟩

end Checked

namespace Emitting

open Checked

variable {α : Type} {step : α → Checked (Option (Emitting α))} {r s q : Emitting α} {fits more : Bool}

theorem exhaust!_of_none (h : step r.state = pure none) : exhaust! step r = some (.ok r) := by
  rw [exhaust!, h]
  rfl

theorem exhaust!_of_some (h : step r.state = guard fits (some q))
    (hrest : exhaust! step ⟨q.state, r.records ++ q.records⟩ = (guard more s).run) :
    exhaust! step r = (guard (fits && more) s).run := by
  rw [exhaust!, h]
  cases fits with
  | true => exact hrest
  | false => rfl

theorem exhaust!_eq_ok {step' : α → Option (Emitting α)} (hstep : ∀ a x, step a = pure x → step' a = x)
    (h : exhaust! step r = some (.ok s)) : exhaust step' r = some s := by
  rw [exhaust_eq_some]
  refine exhaust!.partial_correctness (fun step r x => (∀ a x, step a = pure x → step' a = x) →
    ∀ s, x = .ok s → Ends step' r s) ?_ step r (.ok s) h hstep s rfl
  rintro go ih step r _ h hstep s rfl
  obtain ⟨x, hx, h⟩ := Option.bind_eq_some_iff.1 h
  rcases x with f | (_ | q)
  · cases Option.some.inj h
  · cases Except.ok.inj (Option.some.inj h)
    exact .stop (hstep _ _ hx)
  · exact .step (hstep _ _ hx) (ih _ _ _ h hstep s rfl)

end Emitting

def Work.fits (w : Work) : Bool :=
  match w.deed with
  | .roll slot => w.metric.rollFits slot
  | .activate => w.metric.activateFits w.conditions w.time
  | .deactivate => w.metric.deactivateFits w.time
  | .measure ev hits u => w.metric.measureFits w.conditions ev hits u
  | .close slot => w.metric.intervalsFit fun t is =>
    is.cutsFit t.aggregation (max w.time slot.start) fun _ => false

namespace Metric

open Checked (guard pure_inj throw_ne_pure guard_eq_pure bind_eq_pure guard_bind guard_bind_pure)
open Emitting (exhaust exhaust! exhaust!_eq_ok exhaust!_of_none exhaust!_of_some)
open Instant (last)

variable {m n : Metric} {cs : Conditions} {limit time due : Int} {inclusive : Bool} {r : Emitting Metric}
  {e : Event} {hits : Hits} {u : Condition.Update} {outcome : Outcome}

theorem tick!_of_none (h : m.tick cs limit inclusive = none) : m.tick! cs limit inclusive = pure none := by
  rw [tick!]
  rw [tick_eq_none] at h
  cases hd : m.nextDeadline with
  | none => rfl
  | some d =>
      have hdue := h d hd
      rw [Due] at hdue
      refine if_pos ?_
      cases inclusive <;> simp at hdue ⊢ <;> omega

theorem fits_fireWork (hd : m.nextDeadline = some due) : (m.fireWork cs due).fits = m.fireFits due := by
  rw [Work.fits, fireWork, fireFits]
  rcases nextDeadline_cases hd with ⟨slot, hs, rfl, -⟩ | ⟨hx, hlt⟩
  · simp [hs]
  · have hidle := not_isActive_expiry hx
    have hactive := (expiry_eq_some hx).1
    cases hs : m.grid.current with
    | none => simp [hidle, hactive]
    | some slot => simp [hidle, hactive, Int.not_le.2 (hlt slot hs)]

theorem tick!_of_some (h : m.tick cs limit inclusive = some r) : m.tick! cs limit inclusive =
    guard ((m.nextDeadline.toList.map (m.fireWork cs)).all Work.fits) (some r) := by
  obtain ⟨d, hd, hdue, -⟩ := tick_eq_some h
  rw [tick_of_deadline cs hd, if_pos hdue] at h
  have hsoon : ¬ (limit < d ∨ (!inclusive ∧ d = limit)) := by
    rw [Due] at hdue
    cases inclusive <;> simp at hdue ⊢ <;> omega
  simp only [tick!, hd, if_neg hsoon, h, Option.toList_some, List.map_singleton, List.all_cons, List.all_nil,
    Bool.and_true, fits_fireWork hd]

theorem tick!_eq_pure {x : Option (Emitting Metric)} (h : m.tick! cs limit inclusive = pure x) :
    m.tick cs limit inclusive = x := by
  cases ht : m.tick cs limit inclusive with
  | none => exact pure_inj.1 ((tick!_of_none ht).symm.trans h)
  | some r => exact (guard_eq_pure.1 ((tick!_of_some ht).symm.trans h)).2

theorem advance!_eq_pure (h : m.advance! cs limit inclusive = pure r) : m.advance? cs limit inclusive = some r :=
  exhaust!_eq_ok (fun _ _ => tick!_eq_pure) h

theorem rollPast!_eq_pure {x : Option (Emitting Metric)} (h : m.rollPast! cs time = pure x) :
    m.rollPast cs time = x := by
  rw [rollPast!] at h
  rw [rollPast]
  cases hs : m.grid.current with
  | none =>
      rw [hs] at h
      exact pure_inj.1 h
  | some slot =>
      simp only [hs] at h ⊢
      split
      next hle => exact (guard_eq_pure.1 ((if_pos hle).symm.trans h)).2
      next hle => exact pure_inj.1 ((if_neg hle).symm.trans h)

theorem rollTo!_eq_pure (h : m.rollTo! cs time = pure r) : m.rollTo? cs time = some r :=
  exhaust!_eq_ok (fun _ _ => rollPast!_eq_pure) h

theorem followWindows!_eq (m : Metric) (cs : Conditions) (time : Int) : m.followWindows! cs time =
    guard ((m.followWorks cs time).all Work.fits) (m.followWindows cs time) := by
  rw [followWindows!, followWorks, followWindows]
  cases m.active <;> cases m.windows.isActive time <;> simp [Work.fits, Checked.guard_true]

theorem onEvent!_eq_pure (h : m.onEvent! cs e hits u = pure (r, outcome)) :
    m.onEvent? cs e hits u = some (r, outcome) := by
  obtain ⟨rolled, hrolled, h⟩ := bind_eq_pure.1 h
  obtain ⟨followed, hfollowed, h⟩ := bind_eq_pure.1 h
  obtain ⟨measured, hmeasured, h⟩ := bind_eq_pure.1 h
  rw [followWindows!_eq] at hfollowed
  obtain ⟨-, rfl⟩ := guard_eq_pure.1 hfollowed
  obtain ⟨-, rfl⟩ := guard_eq_pure.1 hmeasured
  rw [onEvent?, rollTo!_eq_pure hrolled]
  exact congrArg some (pure_inj.1 h)

theorem absorb!_eq_pure {x : Emitting Metric × Outcome} (h : m.absorb! cs e hits u = pure x) :
    m.absorb? cs e hits u = some x := by
  obtain ⟨⟨r, outcome⟩, hevent, h⟩ := bind_eq_pure.1 h
  obtain ⟨q, hq, h⟩ := bind_eq_pure.1 h
  have hadvance := advance!_eq_pure hq
  simp only [absorb?, onEvent!_eq_pure hevent, Option.bind_eq_bind, Option.bind_some, hadvance]
  exact congrArg some (pure_inj.1 h)

theorem advance!_eq (h : Paced m) (hlimit : limit ≤ last) : m.advance! cs limit false =
    guard ((m.advanceWorks cs limit false).all Work.fits) (m.advance cs limit false) := by
  have hloop : ∀ rs, exhaust! (fun m : Metric => m.tick! cs limit false) ⟨m, rs⟩ =
      (guard ((m.advanceWorks cs limit false).all Work.fits) (⟨(m.advance cs limit false).state,
        rs ++ (m.advance cs limit false).records⟩ : Emitting Metric)).run := by
    fun_induction Metric.advance m cs limit false with
    | case1 m ht =>
        intro rs
        rw [exhaust!_of_none (tick!_of_none ht), advanceWorks, ht, List.append_nil]
        rfl
    | case2 m r ht hlt =>
        rename_i ih
        intro rs
        have hworks : m.advanceWorks cs limit false =
            m.nextDeadline.toList.map (m.fireWork cs) ++ r.state.advanceWorks cs limit false := by
          rw [advanceWorks, ht]
          exact if_pos hlt
        rw [hworks, List.all_append, ← List.append_assoc]
        exact exhaust!_of_some (tick!_of_some ht) (ih (h.tick ht) _)
    | case3 m r ht hlt => exact absurd (remaining_tick_lt h hlimit ht) hlt
  exact hloop []

theorem rollPast!_of_inside (h : Inside time m) : m.rollPast! cs time = pure none := by
  rw [rollPast!]
  cases hs : m.grid.current with
  | none => rfl
  | some slot => exact if_neg (Int.not_le.2 (h slot hs))

theorem rollTo!_eq (h : Placed time m) (hpass : Passes time m) : m.rollTo! cs time =
    guard ((m.rollToWorks cs time).all Work.fits) (m.rollTo cs time) := by
  rcases rollTo_cases cs h hpass with ⟨hin, hr⟩ | ⟨slot, hs, rfl, hr⟩ <;> rw [hr, rollTo!]
  · rw [rollToWorks_of_inside cs hin]
    exact exhaust!_of_none (rollPast!_of_inside hin)
  · have hstop : m.rollPast! cs slot.stop = guard (m.rollFits slot) (some (m.roll cs slot)) := by
      simp [rollPast!, hs]
    rw [rollToWorks_of_stop cs h hs hpass]
    refine exhaust!_of_some hstop (exhaust!_of_none (rollPast!_of_inside (inside_roll cs h hs hpass)))

theorem onEvent!_eq (h : Placed e.time m) (hpass : Passes e.time m) : m.onEvent! cs e hits u =
    guard ((m.onEventWorks cs e hits u).all Work.fits) (m.onEvent cs e hits u) := by
  rw [onEvent!, rollTo!_eq h hpass, onEventWorks, List.append_assoc, List.all_append, List.all_append]
  refine guard_bind ?_
  rw [followWindows!_eq, List.all_cons, List.all_nil, Bool.and_true]
  exact guard_bind (guard_bind_pure rfl)

/-- An event ends with a fault just if a number in some part of the work leaves its word. -/
theorem absorb!_eq (h : Placed e.time m) (hpass : Passes e.time (m.watch e.time hits)) : m.absorb! cs e hits u =
    guard ((m.absorbWorks cs e hits u).all Work.fits) (m.absorb cs e hits u) := by
  have hwatch := h.watch e.time hits
  obtain ⟨-, hquiet⟩ := onTime_onEvent cs e hits u hwatch hpass
  have hevent := @onEvent!_eq _ cs _ hits u hwatch hpass
  have hworks := hquiet.advanceWorks cs true
  have hadvance : ((m.watch e.time hits).onEvent cs e hits u).1.state.advance! cs e.time true =
      pure (((m.watch e.time hits).onEvent cs e hits u).1.state.advance cs e.time true) := by
    rw [advance_of_tick_none (hquiet.tick cs true)]
    exact exhaust!_of_none (tick!_of_none (hquiet.tick cs true))
  simp only [watch] at hevent hworks hadvance
  rw [absorb!, hevent, absorbWorks, hworks, List.append_nil, absorb]
  refine guard_bind_pure ?_
  generalize Metric.onEvent _ cs e hits u = x at hadvance
  obtain ⟨r, outcome⟩ := x
  dsimp only
  rw [hadvance]
  rfl

theorem startFits_eq (m : Metric) (cs : Conditions) (time : Int) :
    m.startFits cs time = (m.startWorks cs time).all Work.fits := by
  rw [startFits, startWorks]
  cases m.windows.isActive time <;> simp [Work.fits]

theorem advanceTo!_eq_pure (h : m.advanceTo! cs time = pure r) : m.advanceTo? cs time = some r := by
  obtain ⟨q, hq, h⟩ := bind_eq_pure.1 h
  rw [advanceTo?, advance!_eq_pure hq]
  exact congrArg some (pure_inj.1 h)

theorem advanceTo!_eq (h : Paced m) (hlast : time ≤ last) : m.advanceTo! cs time =
    guard ((m.advanceWorks cs time false).all Work.fits) (m.advanceTo cs time) := by
  rw [advanceTo!, advance!_eq h hlast]
  exact guard_bind_pure rfl

theorem shutdown!_eq_pure (h : m.shutdown! cs time = pure r) : m.shutdown? cs time = some r := by
  obtain ⟨q, hq, h⟩ := bind_eq_pure.1 h
  obtain ⟨c, hc, h⟩ := bind_eq_pure.1 h
  obtain ⟨-, rfl⟩ := guard_eq_pure.1 hc
  rw [shutdown?, advance!_eq_pure hq]
  exact congrArg some (pure_inj.1 h)

theorem fits_closeWorks (m : Metric) (cs : Conditions) (now : Int) :
    (m.closeWorks cs now).all Work.fits = m.closeFits now := by
  rw [closeWorks]
  cases hs : m.grid.current with
  | none => simp [closeFits, hs]
  | some slot => simp [closeFits, hs, Work.fits]

theorem shutdown!_eq (h : Paced m) (hlast : time ≤ last) : m.shutdown! cs time =
    guard ((m.shutdownWorks cs time).all Work.fits) (m.shutdown cs time) := by
  rw [shutdown!, advance!_eq h hlast, shutdownWorks, List.all_append, fits_closeWorks]
  exact guard_bind (guard_bind_pure rfl)

end Metric

end EventMetrics
