import EventMetrics.Instant
import EventMetrics.Proofs.Skipped

namespace EventMetrics

namespace Record

def span? : Record → Option (Int × Int)
  | bucket r => some (r.start, r.stop)
  | skipped g => some (g.start, g.stop)
  | _ => none

def slots : Record → Nat
  | bucket _ => 1
  | skipped g => g.buckets
  | _ => 0

/-- Two rows of one bucket have its span, and two keys. -/
def SameBucket : Record → Record → Prop
  | bucket a, bucket b =>
    a.start = b.start ∧ a.stop = b.stop ∧ a.dimension.canonical ≠ b.dimension.canonical
  | _, _ => False

/-- A record that comes later is of the same bucket, or of a later time. -/
def Precedes (x y : Record) : Prop := SameBucket x y ∨ ∀ a ∈ x.span?, ∀ b ∈ y.span?, a.2 ≤ b.1

/-- A stretch counts the slots that begin before its end. -/
def Skipped.CountsSlots (size : Int) (g : Skipped) : Prop :=
  ∀ j : Nat, j < g.buckets ↔ g.start + j * size < g.stop

def Covers (s b : Int) (rs : List Record) : Prop :=
  ∀ i, s ≤ i → i < b → ∃ x ∈ rs, ∃ a ∈ x.span?, a.1 ≤ i ∧ i < a.2

/-- Records in the order of time from `s` up to `b`, each on a grid with an anchor of `A`; the last of
them may end within a slot, unless all slots are whole. -/
structure Paving (A : Int → Prop) (size : Int) (whole : Prop) (s b : Int) (rs : List Record) : Prop where
  ordered : rs.Pairwise Precedes
  inside : ∀ x ∈ rs, ∀ a ∈ x.span?, s ≤ a.1 ∧ a.1 ≤ a.2 ∧ a.2 ≤ b
  anchored : ∀ x ∈ rs, ∀ a ∈ x.span?, ∃ c, A c ∧ ∃ j : Nat, a.1 = c + j * size
  ends : ∀ x ∈ rs, ∀ a ∈ x.span?, a.2 = a.1 + x.slots * size ∨ ¬ whole ∧ a.2 = b
  gaps : ∀ g ∈ gaps rs, g.CountsSlots size

/-- Records in the order of time, without gap or overlap from `s` up to `b`; what begins or ends in between
does so with a slot. -/
structure Tiles (size s b : Int) (rs : List Record) : Prop where
  ordered : rs.Pairwise Precedes
  covers : Covers s b rs
  inside : ∀ x ∈ rs, ∀ a ∈ x.span?, s ≤ a.1 ∧ a.2 ≤ b
  starts : ∀ x ∈ rs, ∀ a ∈ x.span?, ∃ j : Nat, a.1 = min (s + j * size) Instant.last
  ends : ∀ x ∈ rs, ∀ a ∈ x.span?, a.2 = b ∨ ∃ j : Nat, a.2 = min (s + j * size) Instant.last

variable {A A' : Int → Prop} {size s b stop : Int} {whole : Prop} {rs new : List Record} {g : Skipped}

theorem mem_gaps : g ∈ gaps rs ↔ .skipped g ∈ rs := by
  simp only [Record.gaps, List.mem_filterMap]
  constructor
  · rintro ⟨x, hx, he⟩
    cases x with
    | skipped g' =>
        cases he
        exact hx
    | bucket | alert | event => cases he
  · exact fun h => ⟨_, h, rfl⟩

theorem Skipped.countsSlots_of (hsize : 0 < size) (hle : g.stop ≤ g.start + g.buckets * size)
    (hlt : g.start + g.buckets * size < g.stop + size) : g.CountsSlots size := by
  have hmono : ∀ {m n : Nat}, m ≤ n → (m : Int) * size ≤ n * size := fun h =>
    Int.mul_le_mul_of_nonneg_right (Int.ofNat_le.2 h) (Int.le_of_lt hsize)
  intro j
  constructor
  · intro hj
    have hmul := hmono (Nat.succ_le_of_lt hj)
    rw [Int.natCast_succ, Int.add_mul, Int.one_mul] at hmul
    omega
  · intro hj
    apply Nat.lt_of_not_le
    intro hle'
    have hmul := hmono hle'
    omega

theorem Covers.append (h : Covers s b rs) (hnew : ∀ i, b ≤ i → i < stop → ∃ x ∈ new, ∃ a ∈ x.span?,
    a.1 ≤ i ∧ i < a.2) : Covers s stop (rs ++ new) := by
  intro i hs hi
  by_cases hb : i < b
  · obtain ⟨x, hx, hin⟩ := h i hs hb
    exact ⟨x, List.mem_append_left _ hx, hin⟩
  · obtain ⟨x, hx, hin⟩ := hnew i (by omega) hi
    exact ⟨x, List.mem_append_right _ hx, hin⟩

theorem Covers.prolong (h : Covers s b (rs ++ [.skipped g])) (hle : g.start ≤ g.stop) (hg : g.stop = b)
    (buckets : Nat) : Covers s stop (rs ++ [.skipped { g with stop, buckets }]) := by
  intro i hs hi
  by_cases hin : g.start ≤ i
  · exact ⟨_, List.mem_append_right _ (List.mem_singleton_self _), _, rfl, hin, hi⟩
  · obtain ⟨x, hx, a, ha, hlow, hhigh⟩ := h i hs (by omega)
    rcases List.mem_append.1 hx with hx | hx
    · exact ⟨x, List.mem_append_left _ hx, a, ha, hlow, hhigh⟩
    · rw [List.mem_singleton.1 hx] at ha
      cases ha
      exact absurd hlow hin

theorem precedes_skipped {x : Record} : Precedes x (.skipped g) ↔ ∀ a ∈ x.span?, a.2 ≤ g.start := by
  have hnot : ¬ SameBucket x (.skipped g) := by
    cases x <;> exact id
  simp [Precedes, hnot, span?]

namespace Paving

theorem nil (A : Int → Prop) (size : Int) (s : Int) : Paving A size True s s [] :=
  ⟨.nil, by simp, by simp, by simp, by simp [Record.gaps]⟩

theorem mono (h : Paving A size True s b rs) {b' : Int} (hb : b ≤ b') : Paving A size True s b' rs where
  ordered := h.ordered
  inside x hx a ha := by
    obtain ⟨h₁, h₂, h₃⟩ := h.inside x hx a ha
    exact ⟨h₁, h₂, Int.le_trans h₃ hb⟩
  anchored := h.anchored
  ends x hx a ha := (h.ends x hx a ha).imp_right fun hnot => absurd trivial hnot.1
  gaps := h.gaps

theorem weaken (h : Paving A size whole s b rs) : Paving A size False s b rs :=
  ⟨h.ordered, h.inside, h.anchored, fun x hx a ha => (h.ends x hx a ha).imp_right fun hb => ⟨id, hb.2⟩, h.gaps⟩

theorem anchor (h : Paving A size whole s b rs) (hA : ∀ c, A c → A' c) : Paving A' size whole s b rs :=
  ⟨h.ordered, h.inside, fun x hx a ha => (h.anchored x hx a ha).imp fun c hc => hc.imp_left (hA c), h.ends, h.gaps⟩

theorem sublist {part : List Record} (h : Paving A size whole s b rs) (hpart : part.Sublist rs) :
    Paving A size whole s b part where
  ordered := h.ordered.sublist hpart
  inside x hx := h.inside x (hpart.subset hx)
  anchored x hx := h.anchored x (hpart.subset hx)
  ends x hx := h.ends x (hpart.subset hx)
  gaps g hg := h.gaps g (mem_gaps.2 (hpart.subset (mem_gaps.1 hg)))

theorem append (h : Paving A size True s b rs) (hsize : 0 < size) (hnew : new.Pairwise Precedes)
    (hspan : ∀ x ∈ new, ∀ a ∈ x.span?, a = (b, stop) ∧ x.slots = 1) (hs : s ≤ b) (hb : b ≤ stop)
    (hstop : stop ≤ b + size) (hanchor : ∃ c, A c ∧ ∃ j : Nat, b = c + j * size)
    (hgap : ∀ g ∈ Record.gaps new, b < stop) : Paving A size (stop = b + size) s stop (rs ++ new) where
  ordered := by
    refine List.pairwise_append.2 ⟨h.ordered, hnew, fun x hx y hy => .inr fun a ha c hc => ?_⟩
    obtain ⟨-, -, hle⟩ := h.inside x hx a ha
    rw [(hspan y hy c hc).1]
    exact hle
  inside x hx a ha := by
    rcases List.mem_append.1 hx with hx | hx
    · obtain ⟨h₁, h₂, h₃⟩ := h.inside x hx a ha
      exact ⟨h₁, h₂, Int.le_trans h₃ hb⟩
    · rw [(hspan x hx a ha).1]
      exact ⟨hs, hb, Int.le_refl _⟩
  anchored x hx a ha := by
    rcases List.mem_append.1 hx with hx | hx
    · exact h.anchored x hx a ha
    · rw [(hspan x hx a ha).1]
      exact hanchor
  ends x hx a ha := by
    rcases List.mem_append.1 hx with hx | hx
    · exact .inl ((h.ends x hx a ha).resolve_right fun hnot => hnot.1 trivial)
    · obtain ⟨rfl, hone⟩ := hspan x hx a ha
      rw [hone]
      dsimp only
      omega
  gaps g hg := by
    rw [gaps_append, List.mem_append] at hg
    rcases hg with hg | hg
    · exact h.gaps g hg
    · obtain ⟨ha, hone⟩ := hspan _ (mem_gaps.1 hg) _ rfl
      have hlt := hgap g hg
      cases ha
      replace hone : g.buckets = 1 := hone
      apply Skipped.countsSlots_of hsize <;> rw [hone] <;> omega

theorem prolong (h : Paving A size True s b (rs ++ [.skipped g])) (hsize : 0 < size) (hg : g.stop = b)
    (hb : b < stop) (hstop : stop ≤ b + size) :
    Paving A size (stop = b + size) s stop (rs ++ [.skipped { g with stop, buckets := g.buckets + 1 }]) := by
  have hlast : Record.skipped g ∈ rs ++ [.skipped g] := List.mem_append_right _ (List.mem_singleton_self _)
  have hends : g.stop = g.start + g.buckets * size :=
    (h.ends _ hlast _ rfl).resolve_right fun hnot => hnot.1 trivial
  obtain ⟨hstart, hle, -⟩ := h.inside _ hlast _ rfl
  dsimp only at hstart hle
  have hcount : ((g.buckets + 1 : Nat) : Int) * size = g.buckets * size + size := by
    rw [Int.natCast_succ, Int.add_mul, Int.one_mul]
  obtain ⟨hordered, -, hbefore⟩ := List.pairwise_append.1 h.ordered
  refine ⟨?_, fun x hx a ha => ?_, fun x hx a ha => ?_, fun x hx a ha => ?_, fun g' hg' => ?_⟩
  · refine List.pairwise_append.2 ⟨hordered, List.pairwise_singleton _ _, fun x hx y hy => ?_⟩
    rw [List.mem_singleton.1 hy]
    have hx := hbefore x hx (.skipped g) (List.mem_singleton_self _)
    rw [precedes_skipped] at hx ⊢
    exact hx
  · rcases List.mem_append.1 hx with hx | hx
    · obtain ⟨h₁, h₂, h₃⟩ := h.inside x (List.mem_append_left _ hx) a ha
      exact ⟨h₁, h₂, by omega⟩
    · rw [List.mem_singleton.1 hx] at ha
      cases ha
      dsimp only
      omega
  · rcases List.mem_append.1 hx with hx | hx
    · exact h.anchored x (List.mem_append_left _ hx) a ha
    · rw [List.mem_singleton.1 hx] at ha
      cases ha
      exact h.anchored _ hlast (g.start, g.stop) rfl
  · rcases List.mem_append.1 hx with hx | hx
    · exact .inl ((h.ends x (List.mem_append_left _ hx) a ha).resolve_right fun hnot => hnot.1 trivial)
    · rw [List.mem_singleton.1 hx] at ha ⊢
      cases ha
      dsimp only [slots]
      rw [hcount]
      omega
  · rcases List.mem_append.1 (mem_gaps.1 hg') with hg' | hg'
    · exact h.gaps g' (mem_gaps.2 (List.mem_append_left _ hg'))
    · cases List.mem_singleton.1 hg'
      apply Skipped.countsSlots_of hsize <;> dsimp only <;> rw [hcount] <;> omega

/-- A paving with a single anchor, before the end of time. -/
theorem tiles (h : Paving (· = s) size False s b rs) (hc : Covers s b rs) (hb : b ≤ Instant.last) :
    Tiles size s b rs where
  ordered := h.ordered
  covers := hc
  inside x hx a ha := by
    obtain ⟨hs, -, hle⟩ := h.inside x hx a ha
    exact ⟨hs, hle⟩
  starts x hx a ha := by
    obtain ⟨-, hle, hstop⟩ := h.inside x hx a ha
    obtain ⟨c, rfl, j, hj⟩ := h.anchored x hx a ha
    exact ⟨j, by omega⟩
  ends x hx a ha := by
    obtain ⟨-, -, hstop⟩ := h.inside x hx a ha
    obtain ⟨c, rfl, j, hj⟩ := h.anchored x hx a ha
    rcases h.ends x hx a ha with hend | ⟨-, hend⟩
    · have hslots : c + ((j + x.slots : Nat) : Int) * size = a.2 := by
        rw [hend, hj, Int.natCast_add, Int.add_mul, Int.add_assoc]
      exact .inr ⟨j + x.slots, by omega⟩
    · exact .inl hend

end Paving

end Record

end EventMetrics
