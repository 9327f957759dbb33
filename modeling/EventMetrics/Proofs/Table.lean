import EventMetrics.Table

namespace EventMetrics.Table

open Keyed

variable {κ β γ α : Type} [Keyed κ] {k j : κ} {v : β} {l : List (κ × β)} {t : Table κ β}

theorem lookup_put (k j : κ) (v : β) (l : List (κ × β)) :
    lookup j (put k v l) = if text j = text k then some v else lookup j l := by
  induction l with
  | nil =>
      simp only [put, lookup, eq_comm]
  | cons d rest ih =>
      obtain ⟨i, w⟩ := d
      rw [put]
      split
      · simp only [lookup, eq_comm]
      · split
        next h => simp only [lookup, h, eq_comm (a := text j)]; split <;> rfl
        next h =>
          rw [lookup, ih, lookup]
          by_cases hi : text i = text j
          · have hj : ¬ text j = text k := fun he => h (hi.trans he).symm
            simp [hi, hj]
          · simp [hi]

theorem lookup_erase (k j : κ) (l : List (κ × β)) :
    lookup j (l.filter fun e => text e.1 ≠ text k) = if text j = text k then none else lookup j l := by
  induction l with
  | nil => simp [lookup]
  | cons d rest ih =>
      obtain ⟨i, w⟩ := d
      by_cases hi : text i = text k
      · rw [List.filter_cons_of_neg (by simpa using hi), ih, lookup]
        by_cases hj : text j = text k
        · simp [hj]
        · simp [hj, show ¬ text i = text j by rw [hi]; exact Ne.symm hj]
      · rw [List.filter_cons_of_pos (by simpa using hi), lookup, ih, lookup]
        by_cases hj : text i = text j
        · simp [hj, show ¬ text j = text k by rwa [← hj]]
        · simp [hj]

theorem lookup_map (f : β → γ) (j : κ) (l : List (κ × β)) :
    lookup j (l.map fun e => (e.1, f e.2)) = (lookup j l).map f := by
  induction l with
  | nil => rfl
  | cons d rest ih =>
      simp only [List.map_cons, lookup, ih]
      split <;> rfl

theorem lookup_map_key (f : String → β → γ) (j : String) (l : List (String × β)) :
    lookup j (l.map fun e => (e.1, f e.1 e.2)) = (lookup j l).map (f j) := by
  induction l with
  | nil => rfl
  | cons d rest ih =>
      simp only [List.map_cons, lookup, ih]
      split
      next h => rw [show d.1 = j from h, Option.map_some]
      next => rfl

theorem get?_empty (j : κ) : (empty : Table κ β).get? j = none := rfl

theorem get?_insert (t : Table κ β) (k j : κ) (v : β) :
    (t.insert k v).get? j = if text j = text k then some v else t.get? j := lookup_put k j v t.entries

theorem get?_erase (t : Table κ β) (k j : κ) :
    (t.erase k).get? j = if text j = text k then none else t.get? j := lookup_erase k j t.entries

theorem get?_mapValues (t : Table κ β) (f : β → γ) (j : κ) :
    (t.mapValues fun _ v => f v).get? j = (t.get? j).map f := lookup_map f j t.entries

theorem put_map (f : β → γ) (k : κ) (v : β) (l : List (κ × β)) :
    put k (f v) (l.map fun e => (e.1, f e.2)) = (put k v l).map fun e => (e.1, f e.2) := by
  induction l with
  | nil => rfl
  | cons d rest ih =>
      simp only [List.map_cons, put, ih]
      split
      · rfl
      · split <;> rfl

theorem insert_mapValues (f : β → γ) (t : Table κ β) (k : κ) (v : β) :
    (t.mapValues fun _ v => f v).insert k (f v) = (t.insert k v).mapValues fun _ v => f v := by
  simp only [insert, mapValues, put_map]

theorem retain_mapValues {f : β → γ} {keep : κ → β → Bool} {keep' : κ → γ → Bool}
    (h : ∀ k v, keep' k (f v) = keep k v) (t : Table κ β) :
    (t.mapValues fun _ v => f v).retain keep' = (t.retain keep).mapValues fun _ v => f v := by
  simp only [retain, mapValues, List.filter_map, Function.comp_def, h]

theorem erase_mapValues (f : β → γ) (t : Table κ β) (k : κ) :
    (t.mapValues fun _ v => f v).erase k = (t.erase k).mapValues fun _ v => f v :=
  retain_mapValues (fun _ _ => rfl) t

theorem get?_congr (h : text j = text k) (t : Table κ β) : t.get? j = t.get? k := by
  have hl : ∀ l : List (κ × β), lookup j l = lookup k l := by
    intro l
    induction l with
    | nil => rfl
    | cons d rest ih => simp only [lookup, h, ih]
  exact hl t.entries

theorem filter_entries (l : List (κ × β)) (h : l.Pairwise fun a b => text a.1 < text b.1) (k : κ) :
    (lookup k l = none ∧ l.filter (fun e => text e.1 = text k) = []) ∨
    ∃ j v, text j = text k ∧ lookup k l = some v ∧ l.filter (fun e => text e.1 = text k) = [(j, v)] := by
  induction l with
  | nil => exact .inl ⟨rfl, rfl⟩
  | cons d rest ih =>
      obtain ⟨i, w⟩ := d
      obtain ⟨hd, hrest⟩ := List.pairwise_cons.1 h
      by_cases hi : text i = text k
      · have hnil : rest.filter (fun e => text e.1 = text k) = [] := by
          refine List.filter_eq_nil_iff.2 fun e he hk => ?_
          have hlt := hd e he
          rw [hi, ← of_decide_eq_true hk] at hlt
          exact String.lt_irrefl _ hlt
        exact .inr ⟨i, w, hi, by simp [lookup, hi], by rw [List.filter_cons_of_pos (by simpa using hi), hnil]⟩
      · rw [lookup, if_neg hi, List.filter_cons_of_neg (by simpa using hi)]
        exact ih hrest

theorem lookup_eq_none (h : ∀ e ∈ l, text e.1 ≠ text j) : lookup j l = none := by
  induction l with
  | nil => rfl
  | cons e rest ih =>
      rw [lookup, if_neg (h e List.mem_cons_self)]
      exact ih fun d hd => h d (List.mem_cons_of_mem e hd)

theorem get?_retain (t : Table κ β) (p : β → Bool) (j : κ) :
    (t.retain fun _ v => p v).get? j = (t.get? j).filter p := by
  have hlist : ∀ l : List (κ × β), l.Pairwise (fun a b => text a.1 < text b.1) →
      lookup j (l.filter fun e => p e.2) = (lookup j l).filter p := by
    intro l hl
    induction l with
    | nil => rfl
    | cons e rest ih =>
        obtain ⟨hfirst, hrest⟩ := List.pairwise_cons.1 hl
        by_cases hj : text e.1 = text j
        · have hnone : lookup j rest = none := lookup_eq_none fun d hd he =>
            String.lt_irrefl _ ((hj.trans he.symm) ▸ hfirst d hd)
          cases hp : p e.2 <;> simp [lookup, hp, hj, ih hrest, hnone, Option.filter]
        · cases hp : p e.2 <;> simp [lookup, hp, hj, ih hrest]
  exact hlist t.entries t.ascending

theorem get?_of_mem {e : κ × β} (h : e ∈ t.entries) : t.get? e.1 = some e.2 := by
  have hmem : e ∈ t.entries.filter (fun d => text d.1 = text e.1) := List.mem_filter.2 ⟨h, by simp⟩
  rcases filter_entries t.entries t.ascending e.1 with ⟨-, hf⟩ | ⟨j, v, -, hk, hf⟩
  · simp [hf] at hmem
  · rw [hf, List.mem_singleton] at hmem
    rw [get?, hk, hmem]

theorem isEmpty_iff (t : Table κ β) : t.isEmpty = true ↔ ∀ k, t.get? k = none := by
  rw [isEmpty, List.isEmpty_iff]
  constructor
  · intro h k
    rw [get?, h, lookup]
  · intro h
    apply List.eq_nil_iff_forall_not_mem.2
    intro e he
    have hk := get?_of_mem he
    simp [h e.1] at hk

theorem countP_entries (t : Table κ β) (k : κ) :
    t.entries.countP (fun e => text e.1 = text k) = if (t.get? k).isSome then 1 else 0 := by
  rw [List.countP_eq_length_filter, get?]
  rcases filter_entries t.entries t.ascending k with ⟨hk, hf⟩ | ⟨j, v, -, hk, hf⟩ <;> simp [hk, hf]

theorem foldl_entries {τ : Type} (see : τ → α) (step : τ → κ × β → τ) (own : β → α → α)
    (hstep : ∀ s e, see (step s e) = if text e.1 = text k then own e.2 (see s) else see s)
    (h : l.Pairwise fun a b => text a.1 < text b.1) (s : τ) :
    see (l.foldl step s) = match lookup k l with
      | none => see s
      | some v => own v (see s) := by
  have hfold : ∀ (l : List (κ × β)) (s : τ), see (l.foldl step s) =
      (l.filter fun e => text e.1 = text k).foldl (fun x e => own e.2 x) (see s) := by
    intro l
    induction l with
    | nil => intro s; rfl
    | cons e rest ih =>
        intro s
        rw [List.foldl_cons, ih, hstep]
        by_cases he : text e.1 = text k
        · rw [if_pos he, List.filter_cons_of_pos (by simpa using he), List.foldl_cons]
        · rw [if_neg he, List.filter_cons_of_neg (by simpa using he)]
  rw [hfold]
  rcases filter_entries l h k with ⟨hk, hf⟩ | ⟨j, v, -, hk, hf⟩
  · rw [hk, hf]
    rfl
  · rw [hk, hf]
    rfl

end EventMetrics.Table
