namespace EventMetrics

class Keyed (κ : Type) where
  text : κ → String

instance : Keyed String := ⟨id⟩

structure Table (κ β : Type) [Keyed κ] where
  entries : List (κ × β) := []
  ascending : entries.Pairwise (fun a b => Keyed.text a.1 < Keyed.text b.1) := by simp

namespace Table

variable {κ β γ : Type} [Keyed κ]

open Keyed

def lookup (k : κ) : List (κ × β) → Option β
  | [] => none
  | (j, v) :: rest => if text j = text k then some v else lookup k rest

/-- One pass; an entry whose key is present keeps that key and takes the new value. -/
def put (k : κ) (v : β) : List (κ × β) → List (κ × β)
  | [] => [(k, v)]
  | (j, w) :: rest =>
    if text k < text j then (k, v) :: (j, w) :: rest
    else if text k = text j then (j, v) :: rest
    else (j, w) :: put k v rest

theorem text_of_mem_put {k : κ} {v : β} {e : κ × β} {l : List (κ × β)} (h : e ∈ put k v l) :
    text e.1 = text k ∨ ∃ d ∈ l, text e.1 = text d.1 := by
  induction l with
  | nil => simp_all [put]
  | cons d rest ih =>
    obtain ⟨j, w⟩ := d
    rw [put] at h
    split at h
    · grind
    · split at h <;> grind

theorem lt_of_not_lt_of_ne {a b : String} (h : ¬ a < b) (hne : a ≠ b) : b < a := by
  rcases Std.lt_trichotomy a b with h' | h' | h'
  · exact absurd h' h
  · exact absurd h' hne
  · exact h'

theorem put_ascending (k : κ) (v : β) {l : List (κ × β)}
    (h : l.Pairwise (fun a b => text a.1 < text b.1)) :
    (put k v l).Pairwise (fun a b => text a.1 < text b.1) := by
  induction l with
  | nil => simp [put]
  | cons d rest ih =>
    obtain ⟨j, w⟩ := d
    obtain ⟨hd, hrest⟩ := List.pairwise_cons.1 h
    rw [put]
    split
    next hlt =>
      refine List.pairwise_cons.2 ⟨fun e he => ?_, h⟩
      rcases List.mem_cons.1 he with rfl | he
      · exact hlt
      · exact String.lt_trans hlt (hd e he)
    next hlt =>
      split
      next heq => exact List.pairwise_cons.2 ⟨hd, hrest⟩
      next hne =>
        refine List.pairwise_cons.2 ⟨fun e he => ?_, ih hrest⟩
        rcases text_of_mem_put he with he | ⟨d, hmem, he⟩
        · exact he ▸ lt_of_not_lt_of_ne hlt hne
        · exact he ▸ hd d hmem

def empty : Table κ β := {}

def get? (t : Table κ β) (k : κ) : Option β := lookup k t.entries

def contains (t : Table κ β) (k : κ) : Bool := (t.get? k).isSome

def insert (t : Table κ β) (k : κ) (v : β) : Table κ β :=
  ⟨put k v t.entries, put_ascending k v t.ascending⟩

def retain (t : Table κ β) (keep : κ → β → Bool) : Table κ β :=
  ⟨t.entries.filter (fun e => keep e.1 e.2), t.ascending.filter _⟩

def erase (t : Table κ β) (k : κ) : Table κ β :=
  t.retain (fun j _ => text j ≠ text k)

def mapValues (t : Table κ β) (f : κ → β → γ) : Table κ γ :=
  ⟨t.entries.map (fun e => (e.1, f e.1 e.2)), List.pairwise_map.2 t.ascending⟩

def size (t : Table κ β) : Nat := t.entries.length

def isEmpty (t : Table κ β) : Bool := t.entries.isEmpty

def ofList (pairs : List (κ × β)) : Table κ β :=
  pairs.foldl (fun t e => t.insert e.1 e.2) empty

end Table

end EventMetrics
