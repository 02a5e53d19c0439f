import Bundy.Config.ConfigData
import Mathlib.Data.List.Nodup

namespace Bundy.Config

open Bundy.Data

def itemName (e : Element) : String :=
  match e.field "item_name" with
  | some (.string s) => s
  | _ => ""

structure IsItem (e : Element) : Prop where
  map : ∃ m, e = .map m
  name : ∃ s, e.field "item_name" = some (.string s) ∧ s ≠ "" ∧ '/' ∉ s.toList
  type : ∃ t, e.field "item_type" = some (.string t)
  not_both : e.field "list_item_spec" = none ∨ e.field "map_item_spec" = none
  map_type : e.field "item_type" = some (.string "map") →
    ∃ l, e.field "map_item_spec" = some (.list l)

theorem IsItem.itemName_ne_empty {e : Element} (he : IsItem e) : itemName e ≠ "" := by
  obtain ⟨s, hs, hs0, -⟩ := he.name
  simpa [itemName, hs] using hs0

theorem IsItem.slash_not_mem {e : Element} (he : IsItem e) : '/' ∉ (itemName e).toList := by
  obtain ⟨s, hs, -, hsl⟩ := he.name
  simpa [itemName, hs] using hsl

inductive WellFormedSpec : List Element → Prop
  | mk {l : List Element} (item : ∀ e ∈ l, IsItem e) (distinct : (l.map itemName).Nodup)
      (sub : ∀ e ∈ l, ∀ l', e.field "item_type" = some (.string "map") →
        e.field "map_item_spec" = some (.list l') → WellFormedSpec l') : WellFormedSpec l

/-- The conditions of `WellFormedSpec` on every list nested in a specification under any
`list_item_spec` or `map_item_spec`, and no map carrying both. -/
inductive HereditarySpec : Element → Prop
  | list {l : List Element} (item : ∀ e ∈ l, IsItem e) (distinct : (l.map itemName).Nodup)
      (sub : ∀ e ∈ l, HereditarySpec e) : HereditarySpec (.list l)
  | map {m : List (String × Element)}
      (not_both : m.lookup "list_item_spec" = none ∨ m.lookup "map_item_spec" = none)
      (list_item_spec : ∀ v, m.lookup "list_item_spec" = some v → HereditarySpec v)
      (map_item_spec : ∀ v, m.lookup "map_item_spec" = some v → HereditarySpec v) :
      HereditarySpec (.map m)
  | leaf {e : Element} (not_list : ∀ l, e ≠ .list l) (not_map : ∀ m, e ≠ .map m) :
      HereditarySpec e

mutual

/-- `specNameList`, each name with the item it names. -/
def specNameSources : Element → String → Bool → Except Error (List (String × Element))
  | .list l, pfx, recurse => specNameSourcesItems l pfx recurse
  | .map m, pfx, recurse => specNameSourcesIn m pfx recurse (pure [])
  | _, _, _ => pure []

def specNameSourcesItems : List Element → String → Bool → Except Error (List (String × Element))
  | [], _, _ => pure []
  | .map m :: rest, pfx, recurse => do
    let names ← match m.lookup "item_name" with
      | some name => do
        let new_prefix := (if pfx ≠ "" then pfx ++ "/" else pfx) ++ (← name.stringValue)
        if recurse then
          if (← Element.stringValueOf (m.lookup "item_type")) = "map" then
            specNameSourcesIn m new_prefix recurse (throw .nullPointer)
          else pure [( new_prefix, .map m)]
        else pure [( new_prefix, .map m)]
      | none => pure []
    pure (names ++ (← specNameSourcesItems rest pfx recurse))
  | _ :: rest, pfx, recurse => specNameSourcesItems rest pfx recurse

def specNameSourcesIn : List (String × Element) → String → Bool →
    Except Error (List (String × Element)) → Except Error (List (String × Element))
  | [], _, _, fallback => fallback
  | (k, v) :: rest, pfx, recurse, fallback =>
    if k = "map_item_spec" then specNameSources v pfx recurse
    else specNameSourcesIn rest pfx recurse fallback

end

@[simp] theorem Except.ok_bind {ε α β : Type} (a : α) (f : α → Except ε β) :
    (Except.ok a >>= f) = f a := rfl

theorem Except.bind_eq_ok {ε α β : Type} {x : Except ε α} {f : α → Except ε β} {b : β}
    (h : x >>= f = .ok b) : ∃ a, x = .ok a ∧ f a = .ok b := by
  cases x with
  | error _ => cases h
  | ok a => exact ⟨a, rfl, h⟩

theorem Except.map_eq_ok {ε α β : Type} {x : Except ε α} {f : α → β} {b : β}
    (h : f <$> x = .ok b) : ∃ a, x = .ok a ∧ b = f a := by
  cases x with
  | error _ => cases h
  | ok a => cases h; exact ⟨a, rfl, rfl⟩

mutual

theorem specNameList_eq_sources : ∀ (e : Element) (pfx : String) (recurse : Bool),
    specNameList e pfx recurse = (List.map Prod.fst) <$> specNameSources e pfx recurse
  | .list l, pfx, recurse => by
    rw [specNameList, specNameSources, specNameListItems_eq_sources]
  | .map m, pfx, recurse => by
    rw [specNameList, specNameSources, ← specNameListIn_eq_sources]; rfl
  | .null, _, _ => rfl
  | .boolean _, _, _ => rfl
  | .integer _, _, _ => rfl
  | .real _, _, _ => rfl
  | .string _, _, _ => rfl

theorem specNameListItems_eq_sources : ∀ (l : List Element) (pfx : String) (recurse : Bool),
    specNameListItems l pfx recurse = (List.map Prod.fst) <$> specNameSourcesItems l pfx recurse
  | [], _, _ => rfl
  | .map m :: rest, pfx, recurse => by
    have hite (c : Prop) [Decidable c] (a b : Except Error (List (String × Element))) :=
      apply_ite ((List.map Prod.fst) <$> ·) c a b
    have hthrow : (throw .nullPointer : Except Error (List String)) =
        (List.map Prod.fst) <$> (throw .nullPointer : Except Error (List (String × Element))) :=
      rfl
    rw [specNameListItems, specNameSourcesItems, specNameListItems_eq_sources rest]
    split <;> rename_i hl <;>
      simp only [hl, map_bind, bind_map_left, map_pure, pure_bind, hite, hthrow,
        specNameListIn_eq_sources, List.map_append, List.map_cons, List.map_nil]
  | .null :: rest, pfx, recurse => specNameListItems_eq_sources rest pfx recurse
  | .boolean _ :: rest, pfx, recurse => specNameListItems_eq_sources rest pfx recurse
  | .integer _ :: rest, pfx, recurse => specNameListItems_eq_sources rest pfx recurse
  | .real _ :: rest, pfx, recurse => specNameListItems_eq_sources rest pfx recurse
  | .string _ :: rest, pfx, recurse => specNameListItems_eq_sources rest pfx recurse
  | .list _ :: rest, pfx, recurse => specNameListItems_eq_sources rest pfx recurse

theorem specNameListIn_eq_sources : ∀ (m : List (String × Element)) (pfx : String)
    (recurse : Bool) (fallback : Except Error (List (String × Element))),
    specNameListIn m pfx recurse ((List.map Prod.fst) <$> fallback) =
      (List.map Prod.fst) <$> specNameSourcesIn m pfx recurse fallback
  | [], _, _, _ => rfl
  | (k, v) :: rest, pfx, recurse, fallback => by
    rw [specNameListIn, specNameSourcesIn]
    split
    · exact specNameList_eq_sources v pfx recurse
    · exact specNameListIn_eq_sources rest pfx recurse fallback

end

end Bundy.Config
