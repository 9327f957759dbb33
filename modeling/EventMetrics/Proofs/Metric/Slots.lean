import EventMetrics.Proofs.Metric.Cover
import EventMetrics.Proofs.Metric.Reports
import EventMetrics.Proofs.Metric.Tidy

namespace EventMetrics

open Instant (last)

namespace Record

def HasSlot (size s : Int) (x : Record) : Prop := ∃ a ∈ x.span?, ∃ j : Nat, j < x.slots ∧ s = a.1 + j * size

def Fits (size : Int) (x : Record) : Prop := ∀ a ∈ x.span?, 0 < size ∧ a.2 ≤ a.1 + x.slots * size

def Lays (size s : Int) (rs : List Record) : Prop := ∃ x ∈ rs, x.HasSlot size s

variable {size s i : Int} {rs xs : List Record} {g : Skipped} {stop : Int}

theorem lays_append : Lays size s (rs ++ xs) ↔ Lays size s rs ∨ Lays size s xs := by
  simp only [Lays, List.mem_append, or_and_right, exists_or]

theorem lays_singleton {x : Record} : Lays size s [x] ↔ x.HasSlot size s := by simp [Lays]

theorem hasSlot_bucket {r : Bucket} : HasSlot size s (.bucket r) ↔ s = r.start := by
  simp [HasSlot, span?, slots]

theorem hasSlot_skipped : HasSlot size s (.skipped g) ↔ ∃ j : Nat, j < g.buckets ∧ s = g.start + j * size := by
  simp [HasSlot, span?, slots]

theorem hasSlot_prolong : HasSlot size s (.skipped { g with stop, buckets := g.buckets + 1 }) ↔
    HasSlot size s (.skipped g) ∨ s = g.start + g.buckets * size := by
  simp only [hasSlot_skipped, Nat.lt_succ_iff_lt_or_eq]
  constructor
  · rintro ⟨j, hj | rfl, hs⟩
    · exact .inl ⟨j, hj, hs⟩
    · exact .inr hs
  · rintro (⟨j, hj, hs⟩ | hs)
    · exact ⟨j, .inl hj, hs⟩
    · exact ⟨g.buckets, .inr rfl, hs⟩

theorem Fits.slot {x : Record} (h : x.Fits size) {a : Int × Int} (ha : a ∈ x.span?) (hlow : a.1 ≤ i)
    (hhigh : i < a.2) : ∃ s, x.HasSlot size s ∧ s ≤ i ∧ i < s + size := by
  obtain ⟨hsize, hfits⟩ := h a ha
  have hnonneg : 0 ≤ (i - a.1) / size := Int.ediv_nonneg (by omega) (Int.le_of_lt hsize)
  have hdiv := Int.mul_ediv_add_emod (i - a.1) size
  have hmod := Int.emod_nonneg (i - a.1) (Int.ne_of_gt hsize)
  have hlt := Int.emod_lt_of_pos (i - a.1) hsize
  rw [Int.mul_comm] at hdiv
  refine ⟨a.1 + (i - a.1) / size * size, ⟨a, ha, ((i - a.1) / size).toNat, ?_, ?_⟩, by omega, by omega⟩
  · have hwithin := Int.lt_of_lt_of_le hhigh hfits
    have hmul : (i - a.1) / size * size < x.slots * size := by omega
    have := Int.lt_of_mul_lt_mul_right hmul (Int.le_of_lt hsize)
    omega
  · rw [Int.toNat_of_nonneg hnonneg]

end Record

namespace Metric

open Record (HasSlot Fits Lays lays_append lays_singleton hasSlot_bucket hasSlot_skipped hasSlot_prolong)

variable {m n m₀ : Metric} {slot : Slot} {stop size s τ : Int} {rs out : List Record} {pending : Option Record.Skipped}

namespace Closes

theorem lays_iff (h : Closes m slot stop out pending)
    (hwhole : ∀ g, m.pending = some g → g.stop = slot.start → g.stop = g.start + g.buckets * size) :
    Lays size s (rs ++ (out ++ pending.toList.map .skipped)) ↔ Lays size s (rs ++ m.owed) ∨ s = slot.start := by
  cases h with
  | rows alerts hrows hfired =>
      have hnew : Lays size s (m.ofRows slot stop alerts) ↔ s = slot.start := by
        constructor
        · rintro ⟨x, hx, a, ha, j, hj, hs⟩
          obtain ⟨rfl, hone⟩ := ofRows_span hx a ha
          rw [hone, Nat.lt_one_iff] at hj
          simpa [hj] using hs
        · rintro rfl
          obtain ⟨r, hr⟩ := List.exists_mem_of_ne_nil _ hrows
          exact ⟨_, List.mem_append_left _ (List.mem_map_of_mem hr), hasSlot_bucket.2 rfl⟩
      simp only [Option.toList_none, List.map_nil, List.append_nil, ← List.append_assoc, lays_append, hnew]
  | @join g hrows hs hjoin =>
      -- the stretch is made of whole slots, so that one more starts where it ended
      have hend := hwhole g hs hjoin.1
      simp only [owed, hs, Option.toList_some, List.map_cons, List.map_nil, List.nil_append, lays_append,
        lays_singleton, hasSlot_prolong, ← hend, or_assoc]
      rw [show g.stop = slot.start from hjoin.1]
  | fresh hrows hnot =>
      have hnew : HasSlot size s (.skipped (m.void slot stop)) ↔ s = slot.start := by
        simp [hasSlot_skipped, void]
      simp only [Option.toList_some, List.map_cons, List.map_nil, ← List.append_assoc, lays_append, lays_singleton,
        hnew]

theorem fits (h : Closes m slot stop out pending)
    (hwhole : ∀ g, m.pending = some g → g.stop = slot.start → g.stop = g.start + g.buckets * size)
    (hsize : 0 < size) (hstop : stop ≤ slot.start + size) (hold : ∀ x ∈ rs ++ m.owed, x.Fits size) :
    ∀ x ∈ rs ++ (out ++ pending.toList.map .skipped), x.Fits size := by
  cases h with
  | rows alerts hrows hfired =>
      simp only [Option.toList_none, List.map_nil, List.append_nil, ← List.append_assoc]
      intro x hx a ha
      rcases List.mem_append.1 hx with hx | hx
      · exact hold x hx a ha
      · obtain ⟨rfl, hone⟩ := ofRows_span hx a ha
        exact ⟨hsize, by simpa [hone] using hstop⟩
  | @join g hrows hs hjoin =>
      have hend := hwhole g hs hjoin.1
      have hstart : g.stop = slot.start := hjoin.1
      simp only [Option.toList_some, List.map_cons, List.map_nil, List.nil_append, List.mem_append,
        List.mem_singleton]
      rintro x (hx | rfl) a ha
      · exact hold x (List.mem_append_left _ hx) a ha
      · cases ha
        refine ⟨hsize, ?_⟩
        simp only [Record.slots, Int.natCast_succ, Int.add_mul, Int.one_mul]
        omega
  | fresh hrows hnot =>
      simp only [Option.toList_some, List.map_cons, List.map_nil, ← List.append_assoc]
      intro x hx a ha
      rcases List.mem_append.1 hx with hx | hx
      · exact hold x hx a ha
      · rw [List.mem_singleton.1 hx] at ha ⊢
        cases ha
        exact ⟨hsize, by simpa [Record.slots, void] using hstop⟩

theorem whole (h : Closes m slot stop out pending)
    (hwhole : ∀ g, m.pending = some g → g.stop = slot.start → g.stop = g.start + g.buckets * size) :
    ∀ g, pending = some g → g.stop = stop ∧ (stop = slot.start + size → g.stop = g.start + g.buckets * size) := by
  cases h with
  | rows => exact fun _ hg => by cases hg
  | @join g hrows hs hjoin =>
      rintro _ ⟨⟩
      have hend := hwhole g hs hjoin.1
      have hstart : g.stop = slot.start := hjoin.1
      refine ⟨rfl, fun hstop => ?_⟩
      simp only [Int.natCast_succ, Int.add_mul, Int.one_mul]
      omega
  | fresh hrows hnot =>
      rintro _ ⟨⟩
      simp [void]

theorem alert_mem (h : Closes m slot stop out pending) {a : Record.Alert} (ha : .alert a ∈ out) :
    ∃ r, .bucket r ∈ out ∧ r.stop = a.firedAt := by
  have howed : .alert a ∉ m.owed := by simp [owed]
  cases h with
  | rows alerts hrows hfired =>
      obtain ⟨row, hrow⟩ := List.exists_mem_of_ne_nil _ hrows
      have hbucket := List.mem_map_of_mem (f := fun r => Record.bucket (m.toBucket slot stop r)) hrow
      refine ⟨_, List.mem_append_right _ (List.mem_append_left _ hbucket), (hfired a ?_).symm⟩
      simpa [howed, ofRows] using ha
  | join => cases ha
  | fresh => exact absurd ha howed

theorem event_not_mem (h : Closes m slot stop out pending) (r : Record.Event) : .event r ∉ out := by
  cases h <;> simp [owed, ofRows]

end Closes

/-- An event that the metric passed on came while a window of the metric held its instant. -/
def PassedAt (m : Metric) (ms : Matchers) (H : History) (r : Record.Event) : Prop :=
  ∃ before x rest, H.Stands r.time (before ++ [x]) rest ∧ r.time = x.1.time ∧ r.atom = x.1.atom ∧
    r.fields = x.1.fields ∧ m.Covered ms (before ++ [x]) r.time

variable {ms : Matchers} {H more : History} {xs : List Record} {ev : Event}

theorem PassedAt.coveredAt {r : Record.Event} (h : m.PassedAt ms H r) : m.CoveredAt ms H r.time := by
  obtain ⟨before, x, rest, hstands, -, -, -, hcovered⟩ := h
  exact ⟨_, rest, hstands, hcovered⟩

theorem PassedAt.append {r : Record.Event} (h : m.PassedAt ms H r)
    (hmore : ∀ x ∈ more, ∀ y ∈ H, y.1.time ≤ x.1.time) : m.PassedAt ms (H ++ more) r := by
  obtain ⟨before, x, rest, hstands, htime, h⟩ := h
  refine ⟨before, x, rest ++ more, hstands.append fun y hy => ?_, htime, h⟩
  rw [htime]
  exact hmore y hy x (by simp [hstands.eq])

/-- A slot starts at an instant that a window held, where an event reopened the windows or where another slot
ends. -/
structure Laid (m : Metric) (ms : Matchers) (H : History) (rs : List Record) (s : Int) : Prop where
  covered : m.CoveredAt ms H s
  cause : m.ReopenedAt ms H s ∨ ∃ s', Lays m.grid.size s' rs ∧ s' + m.grid.size = s

/-- Records of a metric in which each slot starts as it should, events came while a window held their instants,
and alerts come with rows. -/
structure Windowed (m : Metric) (ms : Matchers) (H : History) (rs : List Record) : Prop where
  slots : ∀ s, Lays m.grid.size s rs → m.Laid ms H rs s
  fits : ∀ x ∈ rs, x.Fits m.grid.size
  events : ∀ r, .event r ∈ rs → m.PassedAt ms H r
  alerts : ∀ a, .alert a ∈ rs → ∃ r, .bucket r ∈ rs ∧ r.stop = a.firedAt

theorem Laid.mono (h : m.Laid ms H rs s) (hrs : ∀ s', Lays m.grid.size s' rs → Lays m.grid.size s' xs) :
    m.Laid ms H xs s :=
  ⟨h.covered, h.cause.imp_right fun ⟨s', hs', heq⟩ => ⟨s', hrs s' hs', heq⟩⟩

theorem Laid.append (h : m.Laid ms H rs s) (hmore : ∀ x ∈ more, s ≤ x.1.time) : m.Laid ms (H ++ more) rs s :=
  ⟨h.covered.append hmore, h.cause.imp_left (·.append more)⟩

theorem Windowed.insert (h : m.Windowed ms H rs) {passed : List Record} (hxs : ∀ x, x ∈ xs ↔ x ∈ rs ∨ x ∈ passed)
    (hpassed : ∀ x ∈ passed, ∃ r, x = .event r ∧ m.PassedAt ms H r) :
    m.Windowed ms H xs ∧ ∀ s, Lays m.grid.size s xs ↔ Lays m.grid.size s rs := by
  have hnone : ∀ x ∈ passed, x.span? = none := fun x hx => by
    obtain ⟨r, rfl, -⟩ := hpassed x hx
    rfl
  have hlays : ∀ s, Lays m.grid.size s xs ↔ Lays m.grid.size s rs := by
    intro s
    constructor
    · rintro ⟨x, hx, a, ha, hslot⟩
      refine ⟨x, ((hxs x).1 hx).resolve_right fun hx => ?_, a, ha, hslot⟩
      rw [hnone x hx] at ha
      cases ha
    · rintro ⟨x, hx, hslot⟩
      exact ⟨x, (hxs x).2 (.inl hx), hslot⟩
  refine ⟨⟨fun s hs => ?_, fun x hx a ha => ?_, fun r hr => ?_, fun a ha => ?_⟩, hlays⟩
  · exact (h.slots s ((hlays s).1 hs)).mono fun s' => (hlays s').2
  · refine h.fits x (((hxs x).1 hx).resolve_right fun hx => ?_) a ha
    rw [hnone x hx] at ha
    cases ha
  · rcases (hxs _).1 hr with hr | hr
    · exact h.events r hr
    · obtain ⟨r', heq, hat⟩ := hpassed _ hr
      cases heq
      exact hat
  · rcases (hxs _).1 ha with ha | ha
    · obtain ⟨r, hr, hstop⟩ := h.alerts a ha
      exact ⟨r, (hxs _).2 (.inl hr), hstop⟩
    · obtain ⟨r, heq, -⟩ := hpassed _ ha
      cases heq

structure Windowing (m₀ : Metric) (ms : Matchers) (H : History) (τ : Int) (m : Metric) (rs : List Record) :
    Prop where
  size : m.grid.size = m₀.grid.size
  windows : m.windows = m₀.windows.after ms H
  past : ∀ x ∈ H, x.1.time ≤ τ
  current : ∀ slot, m.grid.current = some slot → m₀.Laid ms H (rs ++ m.owed) slot.start
  begun : ∀ s, Lays m₀.grid.size s (rs ++ m.owed) → s ≤ τ
  whole : ∀ g, m.pending = some g → g.stop < last → g.stop = g.start + g.buckets * m₀.grid.size
  reports : m₀.Windowed ms H (rs ++ m.owed)

namespace Windowing

theorem congr (h : Windowing m₀ ms H τ m rs) (hgrid : n.grid = m.grid) (hwindows : n.windows = m.windows)
    (hpending : n.pending = m.pending) : Windowing m₀ ms H τ n rs := by
  have howed := owed_congr hpending
  exact ⟨hgrid ▸ h.size, hwindows ▸ h.windows, h.past, hgrid ▸ howed ▸ h.current, howed ▸ h.begun,
    hpending ▸ h.whole, howed ▸ h.reports⟩

theorem wait (h : Windowing m₀ ms H τ m rs) {τ' : Int} (hle : τ ≤ τ') : Windowing m₀ ms H τ' m rs :=
  ⟨h.size, h.windows, fun x hx => Int.le_trans (h.past x hx) hle, h.current,
    fun s hs => Int.le_trans (h.begun s hs) hle, h.whole, h.reports⟩

theorem deactivate (h : Windowing m₀ ms H τ m rs) (time : Int) : Windowing m₀ ms H τ (m.deactivate time) rs :=
  h.congr (deactivate_grid m time) (deactivate_windows m time) (deactivate_pending m time)

theorem activate (h : Windowing m₀ ms H τ m rs) (hat : m₀.CoveredAt ms H τ) (hopened : m₀.ReopenedAt ms H τ)
    (cs : Conditions) : Windowing m₀ ms H τ (m.activate cs τ) rs := by
  have hgrid := activate_grid m cs τ
  have howed : (m.activate cs τ).owed = m.owed := owed_congr (activate_pending m cs τ)
  split at hgrid
  next =>
    refine ⟨(congrArg Grid.size hgrid :).trans h.size, (activate_windows m cs τ).trans h.windows, h.past, ?_,
      howed ▸ h.begun, activate_pending m cs τ ▸ h.whole, howed ▸ h.reports⟩
    rw [hgrid]
    rintro _ ⟨⟩
    exact ⟨hat, .inl hopened⟩
  next => exact h.congr hgrid (activate_windows m cs τ) (activate_pending m cs τ)

theorem flushPending (h : Windowing m₀ ms H τ m rs) :
    Windowing m₀ ms H τ m.flushPending.state (rs ++ m.flushPending.records) := by
  have hgrid : m.flushPending.state.grid = m.grid := (congrArg Metric.grid (body_flushPending m) :)
  have howed : rs ++ m.flushPending.records ++ m.flushPending.state.owed = rs ++ m.owed := by
    rw [List.append_assoc, flushPending_owed]
  refine ⟨hgrid ▸ h.size, (flushPending_windows m).trans h.windows, h.past, ?_, ?_, ?_, ?_⟩
  · rw [hgrid, howed]
    exact h.current
  · rw [howed]
    exact h.begun
  · rw [flushPending_pending]
    exact fun _ hg => by cases hg
  · rw [howed]
    exact h.reports

theorem coveredAt (h : Windowing m₀ ms H τ m rs) (hm : Fresh m₀) (hw : m₀.windows ≠ [])
    (hactive : m.windows.isActive τ = true) : m₀.CoveredAt ms H τ := by
  rw [h.windows, Activations.isActive_after hw hm.windows] at hactive
  exact ⟨H, [], ⟨(List.append_nil H).symm, h.past, by simp⟩, hactive⟩

theorem whole_at (h : Windowing m₀ ms H τ m rs) (hs : m.grid.current = some slot) (g : Record.Skipped)
    (hg : m.pending = some g) (hstart : g.stop = slot.start) : g.stop = g.start + g.buckets * m₀.grid.size :=
  h.whole g hg (hstart ▸ (h.current slot hs).covered.lt_last)

theorem closes (h : Windowing m₀ ms H τ m rs) (hs : m.grid.current = some slot)
    (hcloses : Closes n slot stop out pending) (hn : n.owed = m.owed) (hpending : n.pending = m.pending)
    (hsize : 0 < m₀.grid.size) (hstop : stop ≤ slot.start + m₀.grid.size) :
    m₀.Windowed ms H (rs ++ (out ++ pending.toList.map .skipped)) ∧
      ∀ s, Lays m₀.grid.size s (rs ++ (out ++ pending.toList.map .skipped)) ↔
        Lays m₀.grid.size s (rs ++ m.owed) ∨ s = slot.start := by
  have hlaid := h.current slot hs
  have hwhole := hpending ▸ h.whole_at hs
  have hlays : ∀ s, Lays m₀.grid.size s (rs ++ (out ++ pending.toList.map .skipped)) ↔
      Lays m₀.grid.size s (rs ++ m.owed) ∨ s = slot.start := fun s => hn ▸ hcloses.lays_iff hwhole
  have hold : ∀ x, x ∈ rs ++ (out ++ pending.toList.map .skipped) → x ∈ rs ∨ x ∈ out ∨ ∃ g, x = .skipped g := by
    intro x hx
    simp only [List.mem_append, List.mem_map] at hx
    grind
  refine ⟨⟨fun s hs => ?_, hcloses.fits hwhole hsize hstop (hn ▸ h.reports.fits), fun r hr => ?_,
    fun a ha => ?_⟩, hlays⟩
  · have hmore := fun s' hs' => (hlays s').2 (.inl hs')
    rcases (hlays s).1 hs with hs | rfl
    · exact (h.reports.slots s hs).mono hmore
    · exact hlaid.mono hmore
  · rcases hold _ hr with hr | hr | ⟨g, hg⟩
    · exact h.reports.events r (List.mem_append_left _ hr)
    · exact absurd hr (hcloses.event_not_mem r)
    · cases hg
  · rcases hold _ ha with ha | ha | ⟨g, hg⟩
    · obtain ⟨r, hr, hstop⟩ := h.reports.alerts a (List.mem_append_left _ ha)
      refine ⟨r, List.mem_append_left _ ?_, hstop⟩
      exact (List.mem_append.1 hr).resolve_right (by simp [owed])
    · obtain ⟨r, hr, hstop⟩ := hcloses.alert_mem ha
      exact ⟨r, List.mem_append_right _ (List.mem_append_left _ hr), hstop⟩
    · cases hg

theorem roll (h : Windowing m₀ ms H slot.stop m rs) (hm : Fresh m₀) (hw : m₀.windows ≠ []) (hp : Placed slot.stop m)
    (hs : m.grid.current = some slot) (cs : Conditions) :
    Windowing m₀ ms H slot.stop (m.roll cs slot).state (rs ++ (m.roll cs slot).records) := by
  have hcloses := roll_closes m cs slot
  have hgrid := roll_grid m cs slot
  have hwithin := h.size ▸ hp.stop_le hs
  have hlength := h.size ▸ (hp.size (hp.bucketed slot hs)).1
  have hle := (hp.slot slot hs).2.1
  have hexact : slot.stop < last → slot.stop = slot.start + m₀.grid.size := h.size ▸ hp.stop_eq hs
  obtain ⟨hreports, hlays⟩ := h.closes hs hcloses (accrue_owed m slot.stop) (m.onIntervals_pending _) hlength hwithin
  have howed : rs ++ (m.roll cs slot).records ++ (m.roll cs slot).state.owed =
      rs ++ ((m.roll cs slot).records ++ (m.roll cs slot).state.pending.toList.map .skipped) := List.append_assoc _ _ _
  refine ⟨(roll_size m cs slot).trans h.size, (roll_windows m cs slot).trans h.windows, h.past,
    fun slot' hs' => ?_, fun s hs => ?_, fun g hg hstop => ?_, howed ▸ hreports⟩
  · by_cases hgo : (m.active && m.windows.isActive slot.stop) = true
    · rw [if_pos hgo, Grid.roll, hs] at hgrid
      rw [hgrid] at hs'
      cases hs'
      rw [Bool.and_eq_true] at hgo
      -- a covered instant comes before the last one, so that the slot has its full length
      have hcovered := h.coveredAt hm hw hgo.2
      rw [howed]
      exact ⟨hcovered, .inr ⟨slot.start, (hlays _).2 (.inr rfl), (hexact hcovered.lt_last).symm⟩⟩
    · rw [if_neg hgo, Grid.close, hs] at hgrid
      rw [hgrid] at hs'
      cases hs'
  · rw [howed, hlays] at hs
    rcases hs with hs | rfl
    · exact h.begun s hs
    · exact hle
  · obtain ⟨hend, hwhole⟩ := hcloses.whole ((m.onIntervals_pending _).symm ▸ h.whole_at hs) g hg
    exact hwhole (hexact (hend ▸ hstop))

theorem rollTo (h : Windowing m₀ ms H τ m rs) (hm : Fresh m₀) (hw : m₀.windows ≠ []) (hp : Placed τ m)
    (cs : Conditions) : Windowing m₀ ms H τ (m.rollTo cs τ).state (rs ++ (m.rollTo cs τ).records) ∧
      ((m.rollTo cs τ).state.windows.isActive τ = true → (m.rollTo cs τ).state.active = m.active) := by
  refine (rollTo_induction (P := fun n rs => Placed τ n ∧ Windowing m₀ ms H τ n rs ∧
    (n.windows.isActive τ = true → n.active = m.active)) (fun n rs slot h hs hle => ?_) m rs ⟨hp, h, fun _ => rfl⟩).2
  obtain ⟨hp, h, hactive⟩ := h
  -- time has passed all earlier ends, so that the slot ends just now
  obtain rfl : slot.stop = τ := Int.le_antisymm hle (hp.slot slot hs).2.2.1
  refine ⟨hp.roll cs hs, h.roll hm hw hp hs cs, fun hon => ?_⟩
  rw [roll_windows] at hon
  rw [roll_active, hon, Bool.and_true, hactive hon]

theorem followWindows (h : Windowing m₀ ms H τ m rs)
    (hopens : m.active = false → m.windows.isActive τ = true → m₀.CoveredAt ms H τ ∧ m₀.ReopenedAt ms H τ)
    (cs : Conditions) : Windowing m₀ ms H τ (m.followWindows cs τ) rs := by
  rw [Metric.followWindows]
  split
  next ha hon =>
    obtain ⟨hat, hreopened⟩ := hopens ha hon
    exact h.activate hat hreopened cs
  next => exact h.deactivate τ
  next => exact h

theorem watch (h : Windowing m₀ ms H τ m rs) (hp : Placed τ m) (ev : Event) (b : Bool) (hle : τ ≤ ev.time) :
    Windowing m₀ ms (H ++ [(ev, b)]) ev.time (m.watch ev.time (ms.judge ev)) rs where
  size := h.size
  windows := by
    rw [Activations.after_append, ← h.windows]
    rfl
  past x hx := by
    rcases List.mem_append.1 hx with hx | hx
    · exact Int.le_trans (h.past x hx) hle
    · obtain rfl := List.mem_singleton.1 hx
      exact Int.le_refl _
  current slot hs := (h.current slot hs).append fun x hx => by
    rw [List.mem_singleton.1 hx]
    exact Int.le_trans (hp.slot slot hs).2.1 hle
  begun s hs := Int.le_trans (h.begun s hs) hle
  whole := h.whole
  reports := ⟨fun s hs => (h.reports.slots s hs).append fun x hx => by
      rw [List.mem_singleton.1 hx]
      exact Int.le_trans (h.begun s hs) hle,
    h.reports.fits, fun r hr => (h.reports.events r hr).append fun x hx y hy => by
      rw [List.mem_singleton.1 hx]
      exact Int.le_trans (h.past y hy) hle,
    h.reports.alerts⟩

theorem meet (h : Windowing m₀ ms H ev.time m rs) (hm : Fresh m₀) (hw : m₀.windows ≠ []) (hon : OnTime ev.time m)
    (b : Bool) (cs : Conditions) :
    Windowing m₀ ms (H ++ [(ev, b)]) ev.time ((m.watch ev.time (ms.judge ev)).meet cs ev.time)
      (rs ++ ((m.watch ev.time (ms.judge ev)).rollTo cs ev.time).records) := by
  have hwatched := h.watch hon.toPlaced ev b (Int.le_refl _)
  obtain ⟨hrolled, hactive⟩ := hwatched.rollTo hm hw (hon.toPlaced.watch ev.time (ms.judge ev)) cs
  refine hrolled.followWindows (fun ha hholds => ?_) cs
  -- idle before the event and held after it: the event is the one that reopened the windows
  have hidle : m.active = false := (hactive hholds).symm.trans ha
  have hbefore := mt (Activations.isActive_after hw hm.windows).2 (by rw [← h.windows, hon.idle hidle]; simp)
  have hafter := (Activations.isActive_after hw hm.windows).1 (hrolled.windows ▸ hholds)
  exact ⟨hrolled.coveredAt hm hw hholds, H, (ev, b), [], by simp, rfl, hbefore, hafter⟩

theorem measure {b : Bool} (h : Windowing m₀ ms (H ++ [(ev, b)]) ev.time m rs) (hm : Fresh m₀) (hw : m₀.windows ≠ [])
    (hactive : m.active = m.windows.isActive ev.time) (cs : Conditions) (hits : Hits) (u : Condition.Update) :
    Windowing m₀ ms (H ++ [(ev, b)]) ev.time (m.measure cs ev hits u).1.state
      (rs ++ (m.measure cs ev hits u).1.records) := by
  have hstill := measure_still m cs ev hits u
  have hgrid : (m.measure cs ev hits u).1.state.grid = m.grid := (congrArg Metric.grid hstill :)
  have hwindows : (m.measure cs ev hits u).1.state.windows = m.windows := (congrArg Metric.windows hstill :)
  have hpending : (m.measure cs ev hits u).1.state.pending = m.pending := (congrArg Metric.pending hstill :)
  have howed := owed_congr hpending
  have hnew : ∀ x ∈ (m.measure cs ev hits u).1.records, ∃ r, x = .event r ∧ m₀.PassedAt ms (H ++ [(ev, b)]) r := by
    intro x hx
    obtain ⟨key, rfl⟩ := measure_records hx
    rw [active_of_measure_records hx, h.windows] at hactive
    refine ⟨_, rfl, H, (ev, b), [], ⟨(List.append_nil _).symm, h.past, by simp⟩, rfl, rfl, rfl, ?_⟩
    exact (Activations.isActive_after hw hm.windows).1 hactive.symm
  have hmem : ∀ x, x ∈ rs ++ (m.measure cs ev hits u).1.records ++ m.owed ↔
      x ∈ rs ++ m.owed ∨ x ∈ (m.measure cs ev hits u).1.records := by
    intro x
    simp only [List.mem_append]
    grind
  obtain ⟨hreports, hlays⟩ := h.reports.insert hmem hnew
  refine ⟨hgrid ▸ h.size, hwindows ▸ h.windows, h.past, fun slot hs => ?_, fun s hs => ?_, hpending ▸ h.whole,
    howed ▸ hreports⟩
  · rw [howed]
    exact (h.current slot (hgrid ▸ hs)).mono fun s' => (hlays s').2
  · rw [howed, hlays] at hs
    exact h.begun s hs

theorem note (h : Windowing m₀ ms H τ m rs) (o : Outcome) : Windowing m₀ ms H τ (m.note o) rs := by
  cases o <;> exact h.congr rfl rfl rfl

theorem event (h : Windowing m₀ ms H ev.time m rs) (hm : Fresh m₀) (hw : m₀.windows ≠ []) (hon : OnTime ev.time m)
    (b : Bool) (cs : Conditions) (u : Condition.Update) : Windowing m₀ ms (H ++ [(ev, b)]) ev.time
      ((m.watch ev.time (ms.judge ev)).onEvent cs ev (ms.judge ev) u).1.state
      (rs ++ ((m.watch ev.time (ms.judge ev)).onEvent cs ev (ms.judge ev) u).1.records) := by
  have hmet := h.meet hm hw hon b cs
  have hactive : ((m.watch ev.time (ms.judge ev)).meet cs ev.time).active =
      ((m.watch ev.time (ms.judge ev)).meet cs ev.time).windows.isActive ev.time := by
    rw [Metric.meet, followWindows_active, followWindows_windows]
  rw [onEvent_eq, ← List.append_assoc]
  exact (hmet.measure hm hw hactive cs (ms.judge ev) u).note _

theorem advance_self (h : Windowing m₀ ms H τ m rs) (hm : Fresh m₀) (hw : m₀.windows ≠ []) (hon : OnTime τ m)
    (cs : Conditions) :
    Windowing m₀ ms H τ (m.advance cs τ true).state (rs ++ (m.advance cs τ true).records) :=
  (hon.advance_here cs rs (P := Windowing m₀ ms H τ)
    (fun _ _ _ hon h hs hτ => hτ ▸ (hτ ▸ h).roll hm hw (hτ ▸ hon.toPlaced) hs cs)
    (fun _ _ _ h => h.deactivate τ) h).2

theorem advance (h : Windowing m₀ ms H τ m rs) (hm : Fresh m₀) (hw : m₀.windows ≠ []) (hon : OnTime τ m)
    (cs : Conditions) {limit : Int} (hle : τ ≤ limit) (hlast : limit ≤ last) :
    OnTime limit (m.advance cs limit false).state ∧
      Windowing m₀ ms H limit (m.advance cs limit false).state (rs ++ (m.advance cs limit false).records) :=
  advance_course (P := fun τ m rs => Windowing m₀ ms H τ m rs) cs (fun _ _ _ _ _ h hle _ => h.wait hle)
    (fun _ _ _ hon h hs _ => h.roll hm hw hon.toPlaced hs cs) (fun _ _ due _ h _ => h.deactivate due) hon h hle hlast

theorem visit (h : Windowing m₀ ms H τ m rs) (hm : Fresh m₀) (hw : m₀.windows ≠ []) (hon : OnTime τ m)
    (cs : Conditions) (b : Bool) (hle : τ ≤ ev.time) (hlast : ev.time ≤ last) :
    Windowing m₀ ms (H ++ [(ev, b)]) ev.time (m.visit cs ev (ms.judge ev)).1.state
      (rs ++ (m.visit cs ev (ms.judge ev)).1.records) := by
  obtain ⟨ht, hadvanced⟩ := h.advance hm hw hon cs hle hlast
  have hevent := hadvanced.event hm hw ht b (cs.onEvent ev (ms.judge ev)).1 (cs.onEvent ev (ms.judge ev)).2
  have hdone := (hevent.advance_self hm hw (ht.toPlaced.onEvent _ _ _) (cs.onEvent ev (ms.judge ev)).1).flushPending
  simpa only [Metric.visit, absorb_watch, Emitting.andThen_state, Emitting.andThen_records, List.append_assoc]
    using hdone

theorem advanceTo (h : Windowing m₀ ms H τ m rs) (hm : Fresh m₀) (hw : m₀.windows ≠ []) (hon : OnTime τ m)
    (cs : Conditions) {now : Int} (hle : τ ≤ now) (hlast : now ≤ last) :
    Windowing m₀ ms H now (m.advanceTo cs now).state (rs ++ (m.advanceTo cs now).records) := by
  have hdone := (h.advance hm hw hon cs hle hlast).2.flushPending
  rwa [List.append_assoc] at hdone

theorem start (hm : Fresh m₀) (hw : m₀.windows ≠ []) (cs : Conditions) (s : Int) :
    Windowing m₀ ms [] s (m₀.start cs s) [] := by
  have hidle : ¬ m₀.windows.isActive s = true := fun h => by
    have hactive : (m₀.windows.after ms []).isActive s = true ↔ _ := Activations.isActive_after hw hm.windows
    obtain ⟨a, -, hcovers⟩ := hactive.1 h
    exact a.covers_nil ms s hcovers
  have howed : m₀.owed = [] := by rw [owed, hm.pending]; rfl
  rw [Metric.start, if_neg hidle]
  refine ⟨rfl, rfl, by simp, by simp [hm.current], ?_, by simp [hm.pending], ?_, ?_, ?_, ?_⟩ <;>
    simp [howed, Lays]

theorem closeAt (h : Windowing m₀ ms H τ m rs) (hp : Placed τ m) :
    m₀.Windowed ms H (rs ++ ((m.closeAt τ).records ++ (m.closeAt τ).state.owed)) := by
  cases hs : m.grid.current with
  | none =>
      rw [closeAt_of_none hs, List.nil_append]
      exact h.reports
  | some slot =>
      obtain ⟨-, hstart, hbefore, -⟩ := hp.slot slot hs
      have hlength := h.size ▸ (hp.size (hp.bucketed slot hs)).1
      have hwithin := Int.le_trans hbefore (h.size ▸ hp.stop_le hs)
      rcases closeAt_closes hs hstart with ⟨hcloses, -⟩ | ⟨-, -, hnone, hsame⟩
      · exact (h.closes hs hcloses (settle_owed m τ) (m.onIntervals_pending _) hlength hwithin).1
      · rw [hnone, List.nil_append, owed_congr hsame]
        exact h.reports

theorem shutdown (h : Windowing m₀ ms H τ m rs) (hm : Fresh m₀) (hw : m₀.windows ≠ []) (hon : OnTime τ m)
    (cs : Conditions) {now : Int} (hle : τ ≤ now) (hlast : now ≤ last) :
    m₀.Windowed ms H (rs ++ (m.shutdown cs now).records) := by
  obtain ⟨ht, hadvanced⟩ := h.advance hm hw hon cs hle hlast
  have hclosed := hadvanced.closeAt ht.toPlaced
  rw [List.append_assoc] at hclosed
  rw [Metric.shutdown, Emitting.andThen_records, Emitting.andThen_records, flushPending_records, List.append_assoc]
  exact hclosed

end Windowing

end Metric

end EventMetrics
