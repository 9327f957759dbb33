import EventMetrics.Metric.Grid
import Mathlib.Data.List.Chain
import Mathlib.Algebra.Order.Ring.Int

theorem List.IsChain.and {α : Type} {R S : α → α → Prop} {l : List α} (h : l.IsChain R) (h' : l.IsChain S) :
    l.IsChain fun a b => R a b ∧ S a b := by
  rw [List.isChain_iff_getElem] at h h' ⊢
  exact fun i hi => ⟨h i hi, h' i hi⟩

namespace EventMetrics

open Instant (first last)

namespace Slot

variable {size s : Int} {p q : Slot} {slots : List Slot}

structure Sized (size : Int) (q : Slot) : Prop where
  pos : 0 < size
  first : first ≤ q.start
  stop : q.stop = Instant.after q.start size

/-- A slot comes after another: with no time between them, or anchored anew. -/
structure Follows (size : Int) (p q : Slot) : Prop where
  start : p.stop ≤ q.start
  before : q.start < last
  num : q.num = p.num + 1 + ((q.start - p.stop) / size).toNat

def Near (p q : Slot) : Prop := q.start - p.stop ≤ last

/-- A slot counts the one before it, and the whole sizes between them. -/
structure Counts (size : Int) (p q : Slot) : Prop where
  start : p.stop ≤ q.start
  num : (q.num : Int) = p.num + 1 + (q.start - p.stop) / size

/-- The number says no more than that so many slots fit in the time before. -/
def Fits (size : Int) (q : Slot) : Prop := q.num * size ≤ q.start - first

theorem Fits.word (h : Fits size q) (hsize : 0 < size) (hlast : q.start < last) : q.num < 18446744073709551616 := by
  have hle := le_mul_of_one_le_right (Int.natCast_nonneg q.num) (Int.add_one_le_of_lt hsize)
  rw [Fits] at h
  simp only [first, last] at h hlast
  omega

theorem Follows.stop_eq (h : Follows size p q) (hp : p.Sized size) : p.stop = p.start + size := by
  have hsize := hp.pos
  have hfirst := hp.first
  have hstop := hp.stop
  have hle := h.start
  have hlt := h.before
  simp only [Instant.after, Instant.clamp, first, last] at *
  omega

theorem Follows.counts (h : Follows size p q) (hsize : 0 < size) : Counts size p q where
  start := h.start
  num := by
    have hwhole := Int.ediv_nonneg (Int.sub_nonneg_of_le h.start) (Int.le_of_lt hsize)
    have hnum := h.num
    omega

theorem Follows.fits (h : Follows size p q) (hp : p.Sized size) (hfits : p.Fits size) : q.Fits size := by
  have hsize := hp.pos
  have hstop := h.stop_eq hp
  have hle := Int.ediv_mul_le (q.start - p.stop) (Int.ne_of_gt hsize)
  rw [Fits] at hfits ⊢
  rw [(h.counts hsize).num, Int.add_mul, Int.add_mul, Int.one_mul]
  omega

theorem Counts.lt (h : Counts size p q) (hsize : 0 < size) : p.num < q.num := by
  have hwhole := Int.ediv_nonneg (Int.sub_nonneg_of_le h.start) (Int.le_of_lt hsize)
  have hnum := h.num
  omega

theorem Counts.succ (h : Counts size p q) (hnext : p.stop = q.start) : q.num = p.num + 1 := by
  have hnum := h.num
  rw [hnext, Int.sub_self, Int.zero_ediv] at hnum
  omega

structure Numbered (size : Int) (slots : List Slot) : Prop where
  sized : ∀ q ∈ slots, q.Sized size
  zero : ∀ q ∈ slots.head?, q.num = 0
  follows : slots.IsChain (Follows size)

/-- Slots with no time between them, from `s` on. -/
structure Unbroken (s : Int) (slots : List Slot) : Prop where
  start : ∀ q ∈ slots.head?, q.start = s
  next : slots.IsChain fun p q => p.stop = q.start

theorem Unbroken.near (h : Unbroken s slots) : slots.IsChain Near :=
  h.next.imp fun p q hnext => by rw [Near, hnext, Int.sub_self]; decide

theorem Unbroken.concat (h : Unbroken s slots) (hnil : slots = [] → q.start = s)
    (hlast : ∀ p ∈ slots.getLast?, p.stop = q.start) : Unbroken s (slots ++ [q]) where
  start := by
    cases slots with
    | nil => simpa using hnil rfl
    | cons p slots => exact h.start
  next := h.next.append (.singleton q) (by simpa using hlast)

theorem Unbroken.of_append {more : List Slot} (h : Unbroken s (slots ++ more)) : Unbroken s slots where
  start q hq := h.start q (by rw [List.head?_append, hq]; rfl)
  next := h.next.left_of_append

/-- A slot opens, after `l` if there was one, which it counts. Words hold its number, and the time between the two
if both are `near` enough. -/
structure Opens (size : Int) (near : Prop) (l : Option Slot) (q : Slot) : Prop where
  pos : 0 < size
  stop : q.stop = Instant.after q.start size
  zero : l = none → q.num = 0
  word : q.num < 18446744073709551616
  counts : ∀ p ∈ l, Counts size p q
  near : near → ∀ p ∈ l, Instant.InRange (q.start - p.stop)

namespace Numbered

theorem nil (size : Int) : Numbered size [] := ⟨by simp, by simp, .nil⟩

theorem concat (h : Numbered size slots) (hq : q.Sized size) (hnil : slots = [] → q.num = 0)
    (hlast : ∀ p ∈ slots.getLast?, p.Follows size q) : Numbered size (slots ++ [q]) where
  sized r hr := by
    rcases List.mem_append.1 hr with hr | hr
    · exact h.sized r hr
    · exact List.mem_singleton.1 hr ▸ hq
  zero := by
    cases slots with
    | nil => simpa using hnil rfl
    | cons p slots => exact h.zero
  follows := h.follows.append (.singleton q) (by simpa using hlast)

theorem of_append {more : List Slot} (h : Numbered size (slots ++ more)) : Numbered size slots where
  sized q hq := h.sized q (List.mem_append_left more hq)
  zero q hq := h.zero q (by rw [List.head?_append, hq]; rfl)
  follows := h.follows.left_of_append

variable (h : Numbered size slots)
include h

theorem counts : slots.IsChain (Counts size) :=
  (List.IsChain.iff_mem.1 h.follows).imp fun p _ ⟨hp, _, hfollows⟩ => hfollows.counts (h.sized p hp).pos

theorem fits : ∀ q ∈ slots, q.Fits size := by
  refine (List.IsChain.iff_mem.1 h.follows).induction (Fits size) slots (fun p q ⟨hp, _, hfollows⟩ hfits => ?_)
    fun hne => ?_
  · exact hfollows.fits (h.sized p hp) hfits
  · have hhead := slots.head_mem hne
    rw [Fits, h.zero _ (List.head?_eq_some_head hne), Int.natCast_zero, Int.zero_mul]
    exact Int.sub_nonneg_of_le (h.sized _ hhead).first

theorem rising : slots.Pairwise fun p q => p.num < q.num :=
  have : Trans (fun p q : Slot => p.num < q.num) (fun p q : Slot => p.num < q.num)
      (fun p q : Slot => p.num < q.num) := ⟨Nat.lt_trans⟩
  ((List.IsChain.iff_mem.1 h.counts).imp fun p _ ⟨hp, _, hcounts⟩ => hcounts.lt (h.sized p hp).pos).pairwise

theorem starts : slots.Pairwise fun p q => p.start < q.start := by
  have : Trans (fun p q : Slot => p.start < q.start) (fun p q : Slot => p.start < q.start)
      (fun p q : Slot => p.start < q.start) := ⟨Int.lt_trans⟩
  refine ((List.IsChain.iff_mem.1 h.follows).imp fun p q ⟨hp, _, hfollows⟩ => ?_).pairwise
  have hpos := (h.sized p hp).pos
  have hstop := hfollows.stop_eq (h.sized p hp)
  have hle := hfollows.start
  omega

omit h in
theorem near (h : Numbered size (slots ++ [q])) (hs : ∀ p ∈ slots ++ [q], s ≤ p.start) (hlast : q.start - s ≤ last) :
    (slots ++ [q]).IsChain Near := by
  have hbefore := (List.pairwise_append.1 h.starts).2.2
  have hle : ∀ p ∈ slots ++ [q], p.start ≤ q.start := by
    intro p hp
    rcases List.mem_append.1 hp with hp | hp
    · exact Int.le_of_lt (hbefore p hp q (List.mem_singleton_self q))
    · exact Int.le_of_eq (congrArg Slot.start (List.mem_singleton.1 hp))
  refine (List.IsChain.iff_mem.1 h.follows).imp fun p r ⟨hp, hr, hfollows⟩ => ?_
  have hstop := hfollows.stop_eq (h.sized p hp)
  have hpos := (h.sized p hp).pos
  have hstart := hs p hp
  have hend := hle r hr
  rw [Near]
  omega

omit h in
theorem opens {free : Prop} (h : Numbered size (slots ++ [q])) (hs : ∀ p ∈ slots ++ [q], s ≤ p.start)
    (hfree : free → (slots ++ [q]).IsChain Near) : Opens size (free ∨ q.start - s ≤ last) slots.getLast? q := by
  have hfollows := (List.isChain_append.1 h.follows).2.2
  have hzero : slots.getLast? = none → q.num = 0 := fun hnil =>
    h.zero q (by rw [List.getLast?_eq_none_iff.1 hnil]; rfl)
  obtain ⟨hpos, -, hstop⟩ := h.sized q (by simp)
  refine ⟨hpos, hstop, hzero, ?word, fun p hp => (hfollows p hp q rfl).counts hpos, fun hnear p hp => ?near⟩
  case word =>
    cases hl : slots.getLast? with
    | none => simp [hzero hl]
    | some p => exact (h.fits q (by simp)).word hpos (hfollows p hl q rfl).before
  case near =>
    have hgap := (List.isChain_append.1 (hnear.elim hfree (h.near hs))).2.2 p hp q rfl
    exact Instant.inRange_of_nonneg (Int.sub_nonneg_of_le (hfollows p hp q rfl).start) hgap

theorem start_eq (hfree : Unbroken s slots) : ∀ q ∈ slots, q.start = s + q.num * size := by
  have hchain := List.IsChain.iff_mem.1 ((h.follows.and h.counts).and hfree.next)
  refine hchain.induction (fun q : Slot => q.start = s + q.num * size) slots ?_ fun hne => ?_
  · rintro p q ⟨hp, -, ⟨hfollows, hcounts⟩, hnext⟩ hstart
    rw [← hnext, hcounts.succ hnext, hfollows.stop_eq (h.sized p hp), hstart, Int.natCast_succ, Int.add_mul,
      Int.one_mul, Int.add_assoc]
  · have hhead := List.head?_eq_some_head hne
    rw [hfree.start _ hhead, h.zero _ hhead, Int.natCast_zero, Int.zero_mul, Int.add_zero]

end Numbered

end Slot

namespace Grid

variable {g : Grid} {l slot : Slot} {anchor : Int}

theorem follows_openAt (hl : g.last = some l) (hle : l.stop ≤ anchor) (hlast : anchor < Instant.last) :
    l.Follows g.size ⟨anchor, Instant.after anchor g.size, g.numberAt anchor⟩ :=
  ⟨hle, hlast, by simp only [numberAt, hl, if_pos hle]⟩

theorem follows_next (g : Grid) (hlast : slot.stop < Instant.last) : slot.Follows g.size (g.next slot) :=
  ⟨Int.le_refl _, hlast, by simp [next]⟩

end Grid

end EventMetrics
