import EventMetrics.DimensionKey
import EventMetrics.Proofs.Check
import EventMetrics.Proofs.Table
import Mathlib

namespace EventMetrics

theorem append_sep_inj {α : Type} {c : α} {l l' r r' : List α} (hl : c ∉ l) (hl' : c ∉ l')
    (h : l ++ c :: r = l' ++ c :: r') : l = l' ∧ r = r' := by
  induction l generalizing l' with
  | nil =>
      cases l' with
      | nil => exact ⟨rfl, (List.cons.inj h).2⟩
      | cons b l' => exact absurd (List.cons.inj h).1 (List.ne_of_not_mem_cons hl')
  | cons a l ih =>
      cases l' with
      | nil => exact absurd (List.cons.inj h).1.symm (List.ne_of_not_mem_cons hl)
      | cons b l' =>
          obtain ⟨rfl, htail⟩ := List.cons.inj h
          obtain ⟨rfl, hr⟩ := ih (List.not_mem_of_not_mem_cons hl) (List.not_mem_of_not_mem_cons hl') htail
          exact ⟨rfl, hr⟩

namespace Value

theorem isDigit_of_mem_toString {n : Int} {c : Char} (hc : c ∈ (toString n).toList) :
    c.isDigit = true ∨ c = '-' := by
  have hdigits {n : Nat} (hc : c ∈ n.repr.toList) : c.isDigit = true :=
    Nat.isDigit_of_mem_toDigits (by decide) (by decide) (Nat.toList_repr ▸ hc)
  rw [Int.toString_eq_repr, Int.repr_eq_if] at hc
  split at hc
  · exact .inl (hdigits hc)
  · rw [String.toList_append, List.mem_append] at hc
    exact hc.symm.imp hdigits fun hsign => by simpa using hsign

/-- Nothing in the text of the value reads as its end. -/
def Parted (v : Value) : Prop := '\x1f' ∉ v.render.toList

theorem parted_int (n : Int) : (int n).Parted := fun hc => by
  rcases isDigit_of_mem_toString hc with h | h <;> exact absurd h (by decide)

theorem parted_ordinal (n : Int) : (ordinal n).Parted := parted_int n

theorem eq_of_tag_render {v w : Value} (hv : ∀ x, v ≠ real x) (htag : v.tag = w.tag)
    (hrender : v.render = w.render) : v = w := by
  cases v <;> cases w <;> simp only [tag, Char.reduceEq] at htag
  case int.int m n => exact congrArg int (Int.repr_injective hrender)
  case real.real x _ => exact absurd rfl (hv x)
  case text.text s t => exact congrArg text hrender
  case ordinal.ordinal m n => exact congrArg ordinal (Int.repr_injective hrender)

end Value

namespace DimensionKey

variable {e : Event} {f : String} {fields : List String} {k : DimensionKey}

theorem extract?_cons : extract? e (f :: fields) = some k ↔
    ∃ v k', e.field? f = some v ∧ extract? e fields = some k' ∧ k = ⟨(f, v) :: k'.values⟩ := by
  simp only [extract?, linked?, List.map_cons, List.mapM_cons]
  cases e.field? f with
  | none => simp
  | some v => cases (fields.map fun f => (f, f)).mapM fun link => (e.field? link.1).map (link.2, ·) <;> simp [eq_comm]

theorem extract?_eq_some : extract? e fields = some k ↔
    k.values.map Prod.fst = fields ∧ ∀ a ∈ k.values, e.field? a.1 = some a.2 := by
  induction fields generalizing k with
  | nil =>
      rw [List.map_eq_nil_iff]
      constructor
      · intro h
        obtain rfl : (⟨[]⟩ : DimensionKey) = k := Option.some.inj h
        exact ⟨rfl, by simp⟩
      · rintro ⟨h, -⟩
        exact congrArg some (congrArg DimensionKey.mk h.symm)
  | cons f fields ih =>
      rw [extract?_cons]
      constructor
      · rintro ⟨v, k', hv, hk', rfl⟩
        obtain ⟨hfields, hvalues⟩ := ih.1 hk'
        exact ⟨congrArg (f :: ·) hfields, List.forall_mem_cons.2 ⟨hv, hvalues⟩⟩
      · obtain ⟨values⟩ := k
        rintro ⟨hfields, hvalues⟩
        obtain ⟨⟨_, v⟩, vs, rfl, rfl, hrest⟩ := List.map_eq_cons_iff.1 hfields
        rw [List.forall_mem_cons] at hvalues
        exact ⟨v, ⟨vs⟩, hvalues.1, ih.2 ⟨hrest, hvalues.2⟩, rfl⟩

theorem toList_canonicalPart (f : String) (v : Value) :
    (canonicalPart f v).toList = f.toList ++ '\x1e' :: v.tag :: v.render.toList := by
  simp [canonicalPart]

theorem toList_canonical_singleton (f : String) (v : Value) :
    (canonical ⟨[(f, v)]⟩).toList = f.toList ++ '\x1e' :: v.tag :: v.render.toList := by
  simp [canonical, toList_canonicalPart]

theorem toList_canonical_cons (f : String) (v : Value) (b : String × Value) (vs : List (String × Value)) :
    (canonical ⟨(f, v) :: b :: vs⟩).toList =
      f.toList ++ '\x1e' :: v.tag :: (v.render.toList ++ '\x1f' :: (canonical ⟨b :: vs⟩).toList) := by
  rw [canonical, List.map_cons, String.intercalate_cons_of_ne_nil (by simp)]
  simp [toList_canonicalPart, canonical]

/-- Keys of the same fields, whose values but the last can be told from what follows them. -/
theorem canonical_inj {vs ws : List (String × Value)} (hfields : vs.map Prod.fst = ws.map Prod.fst)
    (hwhole : ∀ a ∈ vs, ∀ x, a.2 ≠ .real x) (hvs : ∀ a ∈ vs.dropLast, a.2.Parted)
    (hws : ∀ a ∈ ws.dropLast, a.2.Parted) (h : canonical ⟨vs⟩ = canonical ⟨ws⟩) : vs = ws := by
  induction vs generalizing ws with
  | nil => exact (List.map_eq_nil_iff.1 hfields.symm).symm
  | cons a vs ih =>
      obtain ⟨f, v⟩ := a
      obtain ⟨⟨g, w⟩, ws, rfl, hfield, hrest⟩ := List.map_eq_cons_iff.1 hfields.symm
      obtain rfl : g = f := hfield
      rw [List.forall_mem_cons] at hwhole
      have htext := congrArg String.toList h
      cases vs with
      | nil =>
          obtain rfl := List.map_eq_nil_iff.1 hrest
          simp only [toList_canonical_singleton, List.append_cancel_left_eq, List.cons.injEq, true_and] at htext
          obtain rfl := Value.eq_of_tag_render hwhole.1 htext.1 (String.toList_inj.1 htext.2)
          rfl
      | cons b vs =>
          obtain ⟨c, ws, rfl, -, -⟩ := List.map_eq_cons_iff.1 hrest
          rw [List.dropLast_cons_cons, List.forall_mem_cons] at hvs hws
          simp only [toList_canonical_cons, List.append_cancel_left_eq, List.cons.injEq, true_and] at htext
          obtain ⟨hrender, hsame⟩ := append_sep_inj hvs.1 hws.1 htext.2
          obtain rfl := Value.eq_of_tag_render hwhole.1 htext.1 (String.toList_inj.1 hrender)
          rw [ih hrest.symm hwhole.2 hvs.2 hws.2 (String.toList_inj.1 hsame)]

/-- The event has no real numbers in these fields, and the sign that parts values in no text but
that of the last field. -/
structure Legible (e : Event) (fields : List String) : Prop where
  whole : ∀ f ∈ fields, ∀ x, e.field? f ≠ some (.real x)
  clear : ∀ f ∈ fields.dropLast, ∀ s, e.field? f = some (.text s) → '\x1f' ∉ s.toList

theorem Legible.whole_values (he : Legible e fields) (hk : extract? e fields = some k) :
    ∀ a ∈ k.values, ∀ x, a.2 ≠ .real x := by
  obtain ⟨rfl, hvalues⟩ := extract?_eq_some.1 hk
  intro a ha x hx
  exact he.whole _ (List.mem_map_of_mem ha) x (hx ▸ hvalues a ha)

theorem Legible.parted_values (he : Legible e fields) (hk : extract? e fields = some k) :
    ∀ a ∈ k.values.dropLast, a.2.Parted := by
  have hwhole := he.whole_values hk
  obtain ⟨rfl, hvalues⟩ := extract?_eq_some.1 hk
  rintro ⟨f, v⟩ ha
  have hmem := List.mem_of_mem_dropLast ha
  cases v with
  | int n => exact Value.parted_int n
  | real x => exact absurd rfl (hwhole _ hmem x)
  | text s => exact he.clear f (List.map_dropLast ▸ List.mem_map_of_mem ha) s (hvalues _ hmem)
  | ordinal n => exact Value.parted_ordinal n

theorem beq_iff {k j : DimensionKey} : (k == j) = true ↔ k.canonical = j.canonical := by
  show (k.canonical == j.canonical) = true ↔ _
  rw [beq_iff_eq]

/-- Keys with one text are those that no table tells apart. -/
theorem canonical_eq_iff_get? {k j : DimensionKey} :
    k.canonical = j.canonical ↔ ∀ (β : Type) (t : Table DimensionKey β), t.get? k = t.get? j := by
  constructor
  · exact fun h β t => Table.get?_congr h t
  · intro h
    by_contra hne
    have hget := h Unit (Table.empty.insert k ())
    rw [Table.get?_insert, Table.get?_insert, if_pos rfl, if_neg fun heq => hne heq.symm] at hget
    exact Option.some_ne_none _ hget

/-- Two keys of legible events are the same key, and find the same entry in every table, exactly
when the events have the same value in every field. -/
theorem extract?_same_iff {e₁ e₂ : Event} {k₁ k₂ : DimensionKey} (hk₁ : extract? e₁ fields = some k₁)
    (hk₂ : extract? e₂ fields = some k₂) (he₁ : Legible e₁ fields) (he₂ : Legible e₂ fields) :
    ((k₁ == k₂) = true ↔ ∀ f ∈ fields, e₁.field? f = e₂.field? f) ∧
      ((∀ (β : Type) (t : Table DimensionKey β), t.get? k₁ = t.get? k₂) ↔
        ∀ f ∈ fields, e₁.field? f = e₂.field? f) := by
  have hsame : k₁.canonical = k₂.canonical ↔ ∀ f ∈ fields, e₁.field? f = e₂.field? f := by
    obtain ⟨hfields₁, hvalues₁⟩ := extract?_eq_some.1 hk₁
    obtain ⟨hfields₂, hvalues₂⟩ := extract?_eq_some.1 hk₂
    constructor
    · intro h f hf
      have hvalues := canonical_inj (hfields₁.trans hfields₂.symm) (he₁.whole_values hk₁) (he₁.parted_values hk₁)
        (he₂.parted_values hk₂) h
      obtain ⟨a, ha, rfl⟩ := List.mem_map.1 (hfields₁ ▸ hf)
      rw [hvalues₁ a ha, hvalues₂ a (hvalues ▸ ha)]
    · intro h
      have hk : extract? e₂ fields = some k₁ := by
        refine extract?_eq_some.2 ⟨hfields₁, fun a ha => ?_⟩
        rw [← h a.1 (hfields₁ ▸ List.mem_map_of_mem ha), hvalues₁ a ha]
      obtain rfl : k₁ = k₂ := Option.some.inj (hk.symm.trans hk₂)
      rfl
  exact ⟨beq_iff.trans hsame, canonical_eq_iff_get?.symm.trans hsame⟩

theorem extract?_same_iff_guests :
    let ann : Event := { atom := 1, time := 0, fields := .ofList [("room", .int 7), ("user", .text "ann")] }
    let bob : Event := { atom := 1, time := 0, fields := .ofList [("room", .text "7"), ("user", .text "ann")] }
    ∃ k j, extract? ann ["room", "user"] = some k ∧ extract? bob ["room", "user"] = some j ∧
      ann.field? "room" ≠ bob.field? "room" ∧ (k == j) = false := by
  intro ann bob
  have hann : Legible ann ["room", "user"] := by
    constructor
    · have hroom : ann.field? "room" = some (.int 7) := rfl
      have huser : ann.field? "user" = some (.text "ann") := rfl
      simp [hroom, huser]
    · have hroom : ann.field? "room" = some (.int 7) := rfl
      simp [hroom]
  have hbob : Legible bob ["room", "user"] := by
    constructor
    · have hroom : bob.field? "room" = some (.text "7") := rfl
      have huser : bob.field? "user" = some (.text "ann") := rfl
      simp [hroom, huser]
    · have hroom : bob.field? "room" = some (.text "7") := rfl
      simp [hroom]
  have hne : ann.field? "room" ≠ bob.field? "room" := by
    show some (Value.int 7) ≠ some (Value.text "7")
    simp
  refine ⟨_, _, rfl, rfl, hne, Bool.eq_false_iff.2 fun hsame => hne ?_⟩
  exact (extract?_same_iff rfl rfl hann hbob).1.1 hsame "room" (by simp)

/-- A text that holds the end of its own part and the start of the next. -/
theorem one_key_of_two_tuples :
    ∃ (e₁ e₂ : Event) (k₁ k₂ : DimensionKey),
      e₁.field? "room" = some (.text "a\x1fuser\x1esb") ∧ e₁.field? "user" = some (.text "c") ∧
      e₂.field? "room" = some (.text "a") ∧ e₂.field? "user" = some (.text "b\x1fuser\x1esc") ∧
      extract? e₁ ["room", "user"] = some k₁ ∧ extract? e₂ ["room", "user"] = some k₂ ∧ (k₁ == k₂) = true ∧
      ¬ ∀ f ∈ ["room", "user"], e₁.field? f = e₂.field? f := by
  refine ⟨{ atom := 1, time := 0, fields := .ofList [("room", .text "a\x1fuser\x1esb"), ("user", .text "c")] },
    { atom := 1, time := 0, fields := .ofList [("room", .text "a"), ("user", .text "b\x1fuser\x1esc")] },
    _, _, rfl, rfl, rfl, rfl, rfl, rfl, rfl, fun h => ?_⟩
  have hroom : some (Value.text "a\x1fuser\x1esb") = some (Value.text "a") := h "room" (by simp)
  simp at hroom

end DimensionKey
end EventMetrics
