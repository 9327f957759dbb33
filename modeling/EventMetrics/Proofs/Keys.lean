import EventMetrics.Proofs.Table
import Mathlib.Data.Finset.Card

namespace EventMetrics.Table

open Keyed

variable {κ β γ : Type} [Keyed κ] {k : κ} {x : String} {t : Table κ β}

theorem find?_of_nodup {α ι : Type} [DecidableEq ι] {key : α → ι} {l : List α} (h : (l.map key).Nodup) {a : α}
    (ha : a ∈ l) : l.find? (fun b => key b = key a) = some a := by
  have hsome : (l.find? fun b => decide (key b = key a)).isSome := List.find?_isSome.2 ⟨a, ha, decide_eq_true rfl⟩
  obtain ⟨b, hb⟩ := Option.isSome_iff_exists.1 hsome
  have hkey : key b = key a := by simpa using List.find?_some hb
  rw [hb, List.inj_on_of_nodup_map h (List.mem_of_find?_eq_some hb) ha hkey]

def keys (t : Table κ β) : Finset String := (t.entries.map fun e => text e.1).toFinset

theorem mem_keys : x ∈ t.keys ↔ ∃ e ∈ t.entries, text e.1 = x := by simp [keys]

theorem nodup_texts (t : Table κ β) : (t.entries.map fun e => text e.1).Nodup := by
  have hne : ∀ {a b : String}, a < b → a ≠ b := fun hlt heq => String.lt_irrefl _ (heq ▸ hlt)
  exact List.pairwise_map.2 (t.ascending.imp hne)

theorem card_keys (t : Table κ β) : t.keys.card = t.size := by
  rw [keys, List.toFinset_card_of_nodup t.nodup_texts, List.length_map, size]

theorem text_mem_keys : text k ∈ t.keys ↔ t.get? k ≠ none := by
  constructor
  · intro hk
    obtain ⟨e, he, htext⟩ := mem_keys.1 hk
    rw [← get?_congr htext, get?_of_mem he]
    exact Option.some_ne_none e.2
  · intro hne
    by_contra hk
    exact hne (lookup_eq_none fun e he htext => hk (mem_keys.2 ⟨e, he, htext⟩))

theorem keys_insert (t : Table κ β) (k : κ) (v : β) : (t.insert k v).keys = Insert.insert (text k) t.keys := by
  ext x
  rw [Finset.mem_insert]
  constructor
  · intro hx
    obtain ⟨e, he, rfl⟩ := mem_keys.1 hx
    exact (text_of_mem_put he).imp_right fun ⟨d, hd, htext⟩ => mem_keys.2 ⟨d, hd, htext.symm⟩
  · rintro (rfl | hx)
    · rw [text_mem_keys, get?_insert, if_pos rfl]
      exact Option.some_ne_none v
    · obtain ⟨e, he, rfl⟩ := mem_keys.1 hx
      rw [text_mem_keys, get?_insert, get?_of_mem he]
      split <;> exact Option.some_ne_none _

theorem size_le_size_insert (t : Table κ β) (k : κ) (v : β) : t.size ≤ (t.insert k v).size := by
  rw [← card_keys, ← card_keys, keys_insert]
  exact Finset.card_le_card (Finset.subset_insert _ _)

theorem card_keys_insert_le {limit : Nat} (hroom : t.keys.card ≤ limit) (hk : t.get? k ≠ none ∨ ¬ limit ≤ t.size)
    (v : β) : (t.insert k v).keys.card ≤ limit := by
  rw [keys_insert]
  rcases hk with hk | hsize
  · rwa [Finset.insert_eq_of_mem (text_mem_keys.2 hk)]
  · rw [← card_keys] at hsize
    exact (Finset.card_insert_le _ _).trans (Nat.succ_le_of_lt (Nat.lt_of_not_le hsize))

theorem full_of_size {limit : Nat} (hk : t.get? k = none) (hsize : limit ≤ t.size) :
    text k ∉ t.keys ∧ limit ≤ t.keys.card :=
  ⟨fun hmem => text_mem_keys.1 hmem hk, t.card_keys.symm ▸ hsize⟩

theorem keys_erase (t : Table κ β) (k : κ) : (t.erase k).keys = t.keys.erase (text k) := by
  ext x
  simp only [mem_keys, Finset.mem_erase, erase, retain, List.mem_filter, decide_eq_true_eq]
  constructor
  · rintro ⟨e, ⟨he, hne⟩, rfl⟩
    exact ⟨hne, e, he, rfl⟩
  · rintro ⟨hne, e, he, rfl⟩
    exact ⟨e, ⟨he, hne⟩, rfl⟩

theorem keys_mapValues (t : Table κ β) (f : κ → β → γ) : (t.mapValues f).keys = t.keys := by
  simp [keys, mapValues, Function.comp_def]

theorem keys_foldl {step : Table κ γ → κ × β → Table κ γ}
    (hstep : ∀ s e, (step s e).keys ⊆ Insert.insert (text e.1) s.keys) (t : Table κ β) (s : Table κ γ) :
    (t.entries.foldl step s).keys ⊆ t.keys ∪ s.keys := by
  have hlist : ∀ (l : List (κ × β)) (s : Table κ γ),
      (l.foldl step s).keys ⊆ (l.map fun e => text e.1).toFinset ∪ s.keys := by
    intro l
    induction l with
    | nil =>
        intro s
        simp
    | cons e l ih =>
        intro s
        rw [List.map_cons, List.toFinset_cons, Finset.insert_union]
        have hnext := Finset.union_subset_union_right (s := (l.map fun e => text e.1).toFinset) (hstep s e)
        exact (ih (step s e)).trans (hnext.trans (Finset.union_insert ..).subset)
  exact hlist t.entries s

end EventMetrics.Table
