import EventMetrics.Event.Decoder
import EventMetrics.Proofs.Check
import EventMetrics.Proofs.Table
import Mathlib

namespace EventMetrics.Event

def Small (n : Int) : Prop := -2 ^ 31 ≤ n ∧ n < 2 ^ 31

/-- The part is the value or somewhere inside it, at any depth. -/
inductive Part (part : Json) : Json → Prop
  | self : Part part part
  | item {items : List Json} {v : Json} : v ∈ items → Part part v → Part part (.array items)
  | member {members : List (String × Json)} {name : String} {v : Json} : (name, v) ∈ members → Part part v →
      Part part (.object members)

/-- An object that stands for an ordinal and has none. -/
def Misfit (j : Json) : Prop := ∃ x, j = .object [("enum", x)] ∧ ∀ n, x = .int n → ¬ Small n

/-- A value that goes into a field by itself. A null does not, nor does an array or an object with parts. -/
inductive Leaf : Json → Value → Prop
  | bool (b : Bool) : Leaf (.bool b) (.int (if b then 1 else 0))
  | int {n : Int} : Instant.InRange n → Leaf (.int n) (.int n)
  | large {n : Int} : ¬ Instant.InRange n → Leaf (.int n) (.real (Float.ofInt n))
  | real (x : Float) : Leaf (.real x) (.real x)
  | string (s : String) : Leaf (.string s) (.text s)
  | ordinal {n : Int} : Small n → Leaf (.object [("enum", .int n)]) (.ordinal n)

mutual

/-- What is inside a value, in the order in which it is met, each part with its path. Nothing is met inside an
object that stands for an ordinal. -/
def inside (path : String) : Json → List (String × Json)
  | .array items => insideItems path 0 items
  | .object members => if (enum? members).isSome then [] else insideMembers (path ++ ".") members
  | .null | .bool _ | .int _ | .real _ | .string _ => []

def insideItems (path : String) (index : Nat) : List Json → List (String × Json)
  | [] => []
  | v :: rest =>
    (path ++ "." ++ toString index, v) :: inside (path ++ "." ++ toString index) v ++
      insideItems path (index + 1) rest

def insideMembers (stem : String) : List (String × Json) → List (String × Json)
  | [] => []
  | (name, v) :: rest => (stem ++ name, v) :: inside (stem ++ name) v ++ insideMembers stem rest

end

def walk (fields : List (String × Json)) : List (String × Json) := insideMembers "" fields

/-- The last leaf at the path among what is visited. -/
def LastLeaf (visited : List (String × Json)) (path : String) (v : Value) : Prop :=
  ∃ before j after, visited = before ++ (path, j) :: after ∧ Leaf j v ∧
    ∀ e ∈ after, e.1 = path → ∀ w, ¬ Leaf e.2 w

/-- The path of the first misfit among what is visited. -/
def FirstMisfit (visited : List (String × Json)) (path : String) : Prop :=
  ∃ before j after, visited = before ++ (path, j) :: after ∧ Misfit j ∧ ∀ e ∈ before, ¬ Misfit e.2

def HasAtom (members : List (String × Json)) (n : Int) : Prop :=
  Json.member? "atom" members = some (.int n) ∧ Small n

def HasTime (members : List (String × Json)) (t : Int) : Prop :=
  Json.member? "ts" members = some (.int t) ∧ Instant.InRange t

def HasFields (members fields : List (String × Json)) : Prop :=
  Json.member? "fields" members = some (.object fields) ∨ Json.member? "fields" members = none ∧ fields = []

/-- A value that is an event, with what it says. -/
structure Whole (j : Json) (members : List (String × Json)) (n t : Int) (fields : List (String × Json)) : Prop where
  object : j = .object members
  atom : HasAtom members n
  time : HasTime members t
  named : HasFields members fields
  fit : ∀ f ∈ fields, ∀ part, Part part f.2 → ¬ Misfit part

/-- What is wrong with a value, each fault only without those before it. -/
inductive Fault : Json → DecodeError → Prop
  | notAnObject {j : Json} : (∀ members, j ≠ .object members) → Fault j .notAnObject
  | missingAtom {members : List (String × Json)} : (∀ n, ¬ HasAtom members n) → Fault (.object members) .missingAtom
  | missingTimestamp {members : List (String × Json)} {n : Int} : HasAtom members n → (∀ t, ¬ HasTime members t) →
      Fault (.object members) .missingTimestamp
  | fieldsNotAnObject {members : List (String × Json)} {n t : Int} {v : Json} : HasAtom members n →
      HasTime members t → Json.member? "fields" members = some v → (∀ fields, v ≠ .object fields) →
      Fault (.object members) .fieldsNotAnObject
  | unsupportedField {members fields : List (String × Json)} {n t : Int} {path : String} : HasAtom members n →
      HasTime members t → Json.member? "fields" members = some (.object fields) →
      FirstMisfit (walk fields) path → Fault (.object members) (.unsupportedField path)

variable {j : Json} {members fields : List (String × Json)} {visited : List (String × Json)} {path : String}
  {v : Value} {n t : Int} {d : DecodeError}

theorem isSmall_iff : isSmall n = true ↔ Small n := by
  simp only [isSmall, Small, Bool.and_eq_true, decide_eq_true_eq]
  omega

theorem checked_eq_some {P : Int → Prop} [DecidablePred P] {m : Int} :
    (if P m then some m else none) = some n ↔ m = n ∧ P n := by
  rw [Option.ite_none_right_eq_some, Option.some.injEq]
  constructor
  · rintro ⟨hm, rfl⟩
    exact ⟨rfl, hm⟩
  · rintro ⟨rfl, hm⟩
    exact ⟨hm, rfl⟩

theorem smallInt?_eq_some : smallInt? j = some n ↔ j = .int n ∧ Small n := by
  rw [← isSmall_iff]
  cases j with
  | int m => rw [smallInt?, checked_eq_some (P := fun m => isSmall m = true), Json.int.injEq]
  | _ => simp [smallInt?]

theorem instant?_eq_some : instant? j = some t ↔ j = .int t ∧ Instant.InRange t := by
  cases j with
  | int m => rw [instant?, checked_eq_some, Json.int.injEq]
  | _ => simp [instant?]

theorem enum?_eq_some {x : Json} : enum? members = some x ↔ members = [("enum", x)] := by
  rcases members with _ | ⟨⟨name, y⟩, _ | ⟨e, rest⟩⟩
  · simp [enum?]
  · by_cases hname : name = "enum" <;> simp [enum?, hname]
  · simp [enum?]

def isMisfit : Json → Bool
  | .object members => (enum? members).any fun x => (smallInt? x).isNone
  | _ => false

theorem isMisfit_iff : isMisfit j = true ↔ Misfit j := by
  have hnone (x : Json) : smallInt? x = none ↔ ∀ n, x = .int n → ¬ Small n := by
    rw [Option.eq_none_iff_forall_ne_some]
    simp only [ne_eq, smallInt?_eq_some, not_and]
  cases j <;> simp only [isMisfit, Misfit, reduceCtorEq, false_and, exists_false, Bool.false_eq_true]
  case object members =>
    simp only [Option.any_eq_true, enum?_eq_some, Option.isNone_iff_eq_none, hnone, Json.object.injEq]

def leaf? : Json → Option Value
  | .bool b => some (.int (if b then 1 else 0))
  | .int n => some (ofWhole n)
  | .real x => some (.real x)
  | .string s => some (.text s)
  | .object members => (enum? members >>= smallInt?).map .ordinal
  | .null | .array _ => none

theorem leaf?_eq_some : leaf? j = some v ↔ Leaf j v := by
  constructor
  · intro h
    cases j <;> simp only [leaf?, Option.some.injEq, reduceCtorEq] at h
    case bool b => exact h ▸ .bool b
    case int n =>
      subst h
      rw [ofWhole]
      split
      next hn => exact .int hn
      next hn => exact .large hn
    case real x => exact h ▸ .real x
    case string s => exact h ▸ .string s
    case object members =>
      obtain ⟨n, hn, rfl⟩ := Option.map_eq_some_iff.1 h
      obtain ⟨x, hx, hn⟩ := Option.bind_eq_some_iff.1 hn
      obtain rfl := enum?_eq_some.1 hx
      obtain ⟨rfl, hsmall⟩ := smallInt?_eq_some.1 hn
      exact .ordinal hsmall
  · intro h
    cases h with
    | bool b => rfl
    | int hn => rw [leaf?, ofWhole, if_pos hn]
    | large hn => rw [leaf?, ofWhole, if_neg hn]
    | real x => rfl
    | string s => rfl
    | @ordinal n hn =>
        have hsmall : smallInt? (.int n) = some n := smallInt?_eq_some.2 ⟨rfl, hn⟩
        rw [leaf?, enum?_eq_some.2 rfl]
        simp [hsmall]

def gather (visited : List (String × Json)) : Except DecodeError (List (String × Value)) :=
  match visited.find? (isMisfit ·.2) with
  | some e => .error (.unsupportedField e.1)
  | none => .ok (visited.filterMap fun e => (leaf? e.2).map (e.1, ·))

theorem gather_append (xs ys : List (String × Json)) : gather (xs ++ ys) = (do
    let first ← gather xs
    let others ← gather ys
    return first ++ others) := by
  simp only [gather, List.find?_append, List.filterMap_append]
  cases xs.find? (isMisfit ·.2) with
  | some e => rfl
  | none => cases ys.find? (isMisfit ·.2) <;> rfl

theorem gather_cons (h : isMisfit j = false) (rest : List (String × Json)) :
    gather ((path, j) :: rest) = (gather rest).map (((leaf? j).map (path, ·)).toList ++ ·) := by
  have hfind : ((path, j) :: rest).find? (isMisfit ·.2) = rest.find? (isMisfit ·.2) :=
    List.find?_cons_of_neg (by simp [h])
  rw [gather, hfind, gather]
  cases rest.find? (isMisfit ·.2) with
  | some e => rfl
  | none => cases hj : leaf? j <;> simp [hj, Except.map]

theorem gather_leaf (h : isMisfit j = false) (hv : leaf? j = some v) : gather [(path, j)] = .ok [(path, v)] := by
  rw [gather_cons h, hv]
  rfl

mutual

theorem leaves_eq (path : String) : ∀ j : Json, leaves path j = gather ((path, j) :: inside path j)
  | .null => rfl
  | .bool _ => rfl
  | .int _ => rfl
  | .real _ => rfl
  | .string _ => rfl
  | .array items => by
      rw [leaves, itemLeaves_eq path 0 items, inside, gather_cons rfl]
      cases gather (insideItems path 0 items) <;> rfl
  | .object members => by
      rw [leaves, inside]
      cases hx : enum? members with
      | none =>
          have hfit : isMisfit (.object members) = false := by simp [isMisfit, hx]
          have hleaf : leaf? (.object members) = none := by simp [leaf?, hx]
          simp only [Option.isSome_none, Bool.false_eq_true, if_false]
          rw [memberLeaves_eq (path ++ ".") members, gather_cons hfit, hleaf]
          cases gather (insideMembers (path ++ ".") members) <;> rfl
      | some x =>
          simp only [Option.isSome_some, if_true]
          cases hn : smallInt? x with
          | none =>
              have hmisfit : isMisfit (.object members) = true := by simp [isMisfit, hx, hn]
              simp [gather, hmisfit]
          | some n =>
              have hfit : isMisfit (.object members) = false := by simp [isMisfit, hx, hn]
              have hleaf : leaf? (.object members) = some (.ordinal n) := by simp [leaf?, hx, hn]
              exact (gather_leaf hfit hleaf).symm

theorem itemLeaves_eq (path : String) (index : Nat) :
    ∀ items : List Json, itemLeaves path index items = gather (insideItems path index items)
  | [] => rfl
  | v :: rest => by
      rw [itemLeaves, insideItems, gather_append, leaves_eq _ v, itemLeaves_eq path (index + 1) rest]

theorem memberLeaves_eq (stem : String) :
    ∀ members : List (String × Json), memberLeaves stem members = gather (insideMembers stem members)
  | [] => rfl
  | (name, v) :: rest => by
      rw [memberLeaves, insideMembers, gather_append, leaves_eq _ v, memberLeaves_eq stem rest]

end

mutual

theorem part_of_mem_inside (path : String) : ∀ (j : Json), ∀ e ∈ inside path j, Part e.2 j
  | .null, _, he | .bool _, _, he | .int _, _, he | .real _, _, he | .string _, _, he => nomatch he
  | .array items, e, he => by
      obtain ⟨v, hv, hpart⟩ := part_of_mem_insideItems path 0 items e he
      exact .item hv hpart
  | .object members, e, he => by
      rw [inside] at he
      split at he
      · cases he
      · obtain ⟨name, v, hv, hpart⟩ := part_of_mem_insideMembers (path ++ ".") members e he
        exact .member hv hpart

theorem part_of_mem_insideItems (path : String) (index : Nat) :
    ∀ (items : List Json), ∀ e ∈ insideItems path index items, ∃ v ∈ items, Part e.2 v
  | [], _, he => nomatch he
  | v :: rest, e, he => by
      rw [insideItems, List.cons_append, List.mem_cons, List.mem_append] at he
      rcases he with rfl | he | he
      · exact ⟨v, List.mem_cons_self, .self⟩
      · exact ⟨v, List.mem_cons_self, part_of_mem_inside _ v e he⟩
      · obtain ⟨w, hw, hpart⟩ := part_of_mem_insideItems path (index + 1) rest e he
        exact ⟨w, List.mem_cons_of_mem v hw, hpart⟩

theorem part_of_mem_insideMembers (stem : String) :
    ∀ (members : List (String × Json)), ∀ e ∈ insideMembers stem members, ∃ name v, (name, v) ∈ members ∧ Part e.2 v
  | [], _, he => nomatch he
  | (name, v) :: rest, e, he => by
      rw [insideMembers, List.cons_append, List.mem_cons, List.mem_append] at he
      rcases he with rfl | he | he
      · exact ⟨name, v, List.mem_cons_self, .self⟩
      · exact ⟨name, v, List.mem_cons_self, part_of_mem_inside _ v e he⟩
      · obtain ⟨other, w, hw, hpart⟩ := part_of_mem_insideMembers stem rest e he
        exact ⟨other, w, List.mem_cons_of_mem _ hw, hpart⟩

end

theorem exists_subset_insideItems {items : List Json} {w : Json} (h : w ∈ items) (path : String) (index : Nat) :
    ∃ q, (q, w) :: inside q w ⊆ insideItems path index items := by
  induction items generalizing index with
  | nil => cases h
  | cons v rest ih =>
      rw [insideItems]
      rcases List.mem_cons.1 h with rfl | h
      · exact ⟨_, List.subset_append_left ..⟩
      · obtain ⟨q, hq⟩ := ih h (index + 1)
        exact ⟨q, List.subset_append_of_subset_right _ hq⟩

theorem subset_insideMembers {name : String} {w : Json} (h : (name, w) ∈ members) (stem : String) :
    (stem ++ name, w) :: inside (stem ++ name) w ⊆ insideMembers stem members := by
  induction members with
  | nil => cases h
  | cons e rest ih =>
      obtain ⟨other, v⟩ := e
      rw [insideMembers]
      rcases List.mem_cons.1 h with h | h
      · obtain ⟨rfl, rfl⟩ := Prod.mk.inj h
        exact List.subset_append_left ..
      · exact List.subset_append_of_subset_right _ (ih h)

theorem not_misfit_of_part {part : Json} (hpart : Part part j)
    (hmet : ∀ e ∈ (path, j) :: inside path j, ¬ Misfit e.2) : ¬ Misfit part := by
  induction hpart generalizing path with
  | self => exact hmet _ List.mem_cons_self
  | @item items v hv _ ih =>
      obtain ⟨q, hq⟩ := exists_subset_insideItems hv path 0
      exact @ih q fun e he => hmet e (List.mem_cons_of_mem _ (hq he))
  | @member members name v hv hpart ih =>
      cases hx : enum? members with
      | none =>
          refine @ih (path ++ "." ++ name) fun e he => hmet e (List.mem_cons_of_mem _ ?_)
          rw [inside, hx]
          exact subset_insideMembers hv (path ++ ".") he
      | some x =>
          obtain rfl := enum?_eq_some.1 hx
          cases List.mem_singleton.1 hv
          -- the only value inside an object that stands for an ordinal is a number, or the object is a misfit
          intro hmisfit
          refine hmet _ List.mem_cons_self ⟨v, rfl, fun n hn => ?_⟩
          subst hn
          cases hpart
          obtain ⟨_, hmisfit, -⟩ := hmisfit
          cases hmisfit

theorem fit_iff : (∀ e ∈ walk fields, ¬ Misfit e.2) ↔ ∀ f ∈ fields, ∀ part, Part part f.2 → ¬ Misfit part := by
  constructor
  · intro h f hf part hpart
    exact not_misfit_of_part hpart fun e he => h e (subset_insideMembers hf "" he)
  · intro h e he
    obtain ⟨name, v, hv, hpart⟩ := part_of_mem_insideMembers "" fields e he
    exact h (name, v) hv e.2 hpart

theorem lastLeaf_concat {q : String} : LastLeaf (visited ++ [(q, j)]) path v ↔
    (q = path ∧ Leaf j v) ∨ (¬ (q = path ∧ ∃ w, Leaf j w) ∧ LastLeaf visited path v) := by
  constructor
  · rintro ⟨before, k, after, h, hleaf, hafter⟩
    rcases List.eq_nil_or_concat after with rfl | ⟨rest, e, rfl⟩
    · obtain ⟨rfl, hlast⟩ := List.append_inj' h rfl
      cases hlast
      exact .inl ⟨rfl, hleaf⟩
    · rw [List.concat_eq_append, ← List.cons_append, ← List.append_assoc] at h
      obtain ⟨rfl, hlast⟩ := List.append_inj' h rfl
      cases hlast
      refine .inr ⟨?_, before, k, rest, rfl, hleaf, fun e he => hafter e (by simp [he])⟩
      rintro ⟨hq, w, hw⟩
      exact hafter (q, j) (by simp) hq w hw
  · rintro (⟨rfl, hleaf⟩ | ⟨hnone, before, k, after, rfl, hleaf, hafter⟩)
    · exact ⟨visited, j, [], rfl, hleaf, by simp⟩
    · refine ⟨before, k, after ++ [(q, j)], by simp, hleaf, fun e he hpath w hw => ?_⟩
      rcases List.mem_append.1 he with he | he
      · exact hafter e he hpath w hw
      · cases List.mem_singleton.1 he
        exact hnone ⟨hpath, w, hw⟩

theorem ofList_concat (l : List (String × Value)) (e : String × Value) :
    Table.ofList (l ++ [e]) = (Table.ofList l).insert e.1 e.2 := by
  rw [Table.ofList, List.foldl_append]
  rfl

theorem get?_ofList_leaves (visited : List (String × Json)) (path : String) (v : Value) :
    (Table.ofList (visited.filterMap fun e => (leaf? e.2).map (e.1, ·))).get? path = some v ↔
      LastLeaf visited path v := by
  induction visited using List.reverseRecOn with
  | nil =>
      constructor
      · intro h
        cases h
      · rintro ⟨before, j, after, h, -⟩
        simp at h
  | append_singleton visited e ih =>
      obtain ⟨q, j⟩ := e
      rw [lastLeaf_concat, List.filterMap_append, ← ih]
      cases hj : leaf? j with
      | none =>
          have hno (w : Value) : ¬ Leaf j w := fun hw => by
            rw [leaf?_eq_some.2 hw] at hj
            cases hj
          simp [hj, hno]
      | some w =>
          have hleaf (u : Value) : Leaf j u ↔ w = u := by rw [← leaf?_eq_some, hj, Option.some.injEq]
          simp only [List.filterMap_cons, hj, Option.map_some, List.filterMap_nil, ofList_concat, Table.get?_insert,
            hleaf, exists_eq', and_true]
          by_cases hq : path = q
          · subst hq
            simp
          · rw [if_neg (show ¬ Keyed.text path = Keyed.text q from hq)]
            simp [Ne.symm hq]

theorem gather_of_fit (h : ∀ e ∈ visited, ¬ Misfit e.2) :
    gather visited = .ok (visited.filterMap fun e => (leaf? e.2).map (e.1, ·)) := by
  have hfind : visited.find? (isMisfit ·.2) = none :=
    List.find?_eq_none.2 fun e he hmisfit => h e he (isMisfit_iff.1 hmisfit)
  rw [gather, hfind]

theorem gather_of_firstMisfit (h : FirstMisfit visited path) :
    gather visited = .error (.unsupportedField path) := by
  obtain ⟨before, j, after, rfl, hj, hbefore⟩ := h
  have hfind : (before ++ (path, j) :: after).find? (isMisfit ·.2) = some (path, j) := by
    refine List.find?_eq_some_iff_append.2 ⟨isMisfit_iff.2 hj, before, after, rfl, fun e he => ?_⟩
    simpa [← isMisfit_iff] using hbefore e he
  rw [gather, hfind]

theorem fit_or_firstMisfit (visited : List (String × Json)) :
    (∀ e ∈ visited, ¬ Misfit e.2) ∨ ∃ path, FirstMisfit visited path := by
  cases h : visited.find? (isMisfit ·.2) with
  | none => exact .inl fun e he hmisfit => List.find?_eq_none.1 h e he (isMisfit_iff.2 hmisfit)
  | some e =>
      obtain ⟨hmisfit, before, after, rfl, hbefore⟩ := List.find?_eq_some_iff_append.1 h
      refine .inr ⟨e.1, before, e.2, after, rfl, isMisfit_iff.1 hmisfit, fun b hb => ?_⟩
      simpa [← isMisfit_iff] using hbefore b hb

theorem hasAtom_iff : HasAtom members n ↔ (Json.member? "atom" members >>= smallInt?) = some n := by
  simp [HasAtom, Option.bind_eq_some_iff, smallInt?_eq_some]

theorem hasTime_iff : HasTime members t ↔ (Json.member? "ts" members >>= instant?) = some t := by
  simp [HasTime, Option.bind_eq_some_iff, instant?_eq_some]

theorem ofJson_of_fields (hatom : HasAtom members n) (htime : HasTime members t) (hfields : HasFields members fields) :
    ofJson (.object members) =
      (gather (walk fields)).map fun pairs => { atom := n, time := t, fields := Table.ofList pairs } := by
  rw [hasAtom_iff] at hatom
  rw [hasTime_iff] at htime
  rcases hfields with hfields | ⟨hfields, rfl⟩
  · simp only [ofJson, hatom, htime, hfields, memberLeaves_eq, walk]
    cases gather (insideMembers "" fields) <;> rfl
  · simp only [ofJson, hatom, htime, hfields]
    rfl

theorem ofJson_of_fault (h : Fault j d) : ofJson j = .error d := by
  have hnone {α : Type} {x : Option α} {P : α → Prop} (hx : ∀ a, P a ↔ x = some a) (h : ∀ a, ¬ P a) : x = none :=
    Option.eq_none_iff_forall_ne_some.2 fun a ha => h a ((hx a).2 ha)
  cases h with
  | notAnObject hobject =>
      cases j with
      | object members => exact absurd rfl (hobject members)
      | _ => rfl
  | missingAtom hatom =>
      simp only [ofJson, hnone (fun n => hasAtom_iff) hatom]
      rfl
  | missingTimestamp hatom htime =>
      simp only [ofJson, hasAtom_iff.1 hatom, hnone (fun t => hasTime_iff) htime]
      rfl
  | @fieldsNotAnObject members n t v hatom htime hv hobject =>
      simp only [ofJson, hasAtom_iff.1 hatom, hasTime_iff.1 htime, hv]
      cases v with
      | object fields => exact absurd rfl (hobject fields)
      | _ => rfl
  | unsupportedField hatom htime hfields hmisfit =>
      rw [ofJson_of_fields hatom htime (.inl hfields), gather_of_firstMisfit hmisfit]
      rfl

theorem Whole.ofJson (h : Whole j members n t fields) : Event.ofJson j = .ok
    { atom := n, time := t, fields := .ofList ((walk fields).filterMap fun e => (leaf? e.2).map (e.1, ·)) } := by
  rw [h.object, ofJson_of_fields h.atom h.time h.named, gather_of_fit (fit_iff.2 h.fit)]
  rfl

theorem fault_or_whole (j : Json) : (∃ d, Fault j d) ∨ ∃ members n t fields, Whole j members n t fields := by
  cases j with
  | object members =>
      by_cases hatom : ∃ n, HasAtom members n
      · obtain ⟨n, hatom⟩ := hatom
        by_cases htime : ∃ t, HasTime members t
        · obtain ⟨t, htime⟩ := htime
          cases hv : Json.member? "fields" members with
          | none => exact .inr ⟨members, n, t, [], rfl, hatom, htime, .inr ⟨hv, rfl⟩, by simp⟩
          | some v =>
              by_cases hobject : ∃ fields, v = .object fields
              · obtain ⟨fields, rfl⟩ := hobject
                rcases fit_or_firstMisfit (walk fields) with hfit | ⟨path, hmisfit⟩
                · exact .inr ⟨members, n, t, fields, rfl, hatom, htime, .inl hv, fit_iff.1 hfit⟩
                · exact .inl ⟨_, .unsupportedField hatom htime hv hmisfit⟩
              · exact .inl ⟨_, .fieldsNotAnObject hatom htime hv fun fields h => hobject ⟨fields, h⟩⟩
        · exact .inl ⟨_, .missingTimestamp hatom fun t ht => htime ⟨t, ht⟩⟩
      · exact .inl ⟨_, .missingAtom fun n hn => hatom ⟨n, hn⟩⟩
  | _ => exact .inl ⟨_, .notAnObject fun members h => nomatch h⟩

/-- A value is an event just when it is an object with an atom, a time and fields in which every object that stands
for an ordinal has one. The event has at each path the last leaf that is met there, and no other fields. Otherwise
the first fault is reported. -/
theorem ofJson_meaning (j : Json) :
    ((∃ e, ofJson j = .ok e) ↔ ∃ members n t fields, Whole j members n t fields) ∧
    (∀ e, ofJson j = .ok e → ∃ members fields, Whole j members e.atom e.time fields ∧
      ∀ path v, e.field? path = some v ↔ LastLeaf (walk fields) path v) ∧
    ∀ d, ofJson j = .error d ↔ Fault j d := by
  rcases fault_or_whole j with ⟨d, hfault⟩ | ⟨members, n, t, fields, hwhole⟩
  · have herror := ofJson_of_fault hfault
    refine ⟨⟨?_, ?_⟩, ?_, fun d' => ⟨?_, ofJson_of_fault⟩⟩
    · rintro ⟨e, he⟩
      rw [herror] at he
      cases he
    · rintro ⟨members, n, t, fields, hwhole⟩
      rw [hwhole.ofJson] at herror
      cases herror
    · intro e he
      rw [herror] at he
      cases he
    · intro hd
      rw [herror] at hd
      cases hd
      exact hfault
  · have hok := hwhole.ofJson
    refine ⟨⟨fun _ => ⟨members, n, t, fields, hwhole⟩, fun _ => ⟨_, hok⟩⟩, ?_, fun d => ⟨?_, ?_⟩⟩
    · intro e he
      rw [hok] at he
      cases he
      exact ⟨members, fields, hwhole, get?_ofList_leaves (walk fields)⟩
    · intro hd
      rw [hok] at hd
      cases hd
    · intro hfault
      rw [ofJson_of_fault hfault] at hok
      cases hok

/-- Two ways to one path, of which the second counts, and two misfits, of which the first does. -/
theorem ofJson_meaning_paths :
    let fields : List (String × Json) :=
      [("a", .object [("b", .int 2)]), ("a.b", .bool true), ("c", .array [.null, .object [("enum", .int 3)]])]
    let misfits : List (String × Json) :=
      [("a", .array [.object [("enum", .string "x")], .object [("enum", .null)]]), ("b", .int 1)]
    let event (fields : List (String × Json)) : Json :=
      .object [("atom", .int 1), ("fields", .object fields), ("ts", .int 5)]
    (∃ e, ofJson (event fields) = .ok e ∧ e.field? "a.b" = some (.int 1) ∧ e.field? "c.1" = some (.ordinal 3)) ∧
      ofJson (event misfits) = .error (.unsupportedField "a.0") := by
  intro fields misfits event
  have hatom (fs : List (String × Json)) : HasAtom [("atom", .int 1), ("fields", .object fs), ("ts", .int 5)] 1 :=
    ⟨rfl, by norm_num [Small]⟩
  have htime (fs : List (String × Json)) : HasTime [("atom", .int 1), ("fields", .object fs), ("ts", .int 5)] 5 :=
    ⟨rfl, by decide⟩
  have hwalk : walk fields = [("a", .object [("b", .int 2)]), ("a.b", .int 2), ("a.b", .bool true),
      ("c", .array [.null, .object [("enum", .int 3)]]), ("c.0", .null), ("c.1", .object [("enum", .int 3)])] := rfl
  have hmisfits : walk misfits = [("a", .array [.object [("enum", .string "x")], .object [("enum", .null)]]),
      ("a.0", .object [("enum", .string "x")]), ("a.1", .object [("enum", .null)]), ("b", .int 1)] := rfl
  constructor
  · have hfit : ∀ e ∈ walk fields, ¬ Misfit e.2 := by
      simp [hwalk, ← isMisfit_iff, isMisfit, enum?, smallInt?, isSmall]
    obtain ⟨e, he⟩ :=
      (ofJson_meaning (event fields)).1.2 ⟨_, 1, 5, fields, rfl, hatom _, htime _, .inl rfl, fit_iff.1 hfit⟩
    obtain ⟨_, read, hwhole, hfields⟩ := (ofJson_meaning (event fields)).2.1 e he
    cases hwhole.object
    obtain rfl : fields = read := by
      rcases hwhole.named with h | ⟨h, -⟩ <;> cases h
      rfl
    refine ⟨e, he, (hfields _ _).2 ?_, (hfields _ _).2 ?_⟩
    · exact ⟨(walk fields).take 2, _, (walk fields).drop 3, hwalk, .bool true, by simp [hwalk]⟩
    · exact ⟨(walk fields).take 5, _, [], hwalk, .ordinal (by norm_num [Small]), by simp⟩
  · refine ((ofJson_meaning (event misfits)).2.2 _).2 (.unsupportedField (hatom _) (htime _) rfl ?_)
    refine ⟨(walk misfits).take 1, _, (walk misfits).drop 2, hmisfits, ⟨.string "x", rfl, by simp⟩, ?_⟩
    simp [hmisfits, ← isMisfit_iff, isMisfit]

end EventMetrics.Event
