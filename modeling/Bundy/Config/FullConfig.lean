import Bundy.Config.ItemList

namespace Bundy.Config

open Bundy.Data

section Fold

variable {ε α : Type} (g : String → Except ε α)

theorem foldlM_setEntry : ∀ (items : List String) (r : List (String × α)),
    (∀ k ∈ items, ∃ v, g k = .ok v) →
    ∃ result, items.foldlM (fun result item => do pure (setEntry result item (← g item))) r =
        .ok result ∧
      (∀ k, k ∈ result.map Prod.fst ↔ k ∈ items ∨ k ∈ r.map Prod.fst) ∧
      ∀ k, result.lookup k = if k ∈ items then (g k).toOption else r.lookup k
  | [], r, _ => ⟨r, rfl, by simp, by simp⟩
  | k :: rest, r, h => by
    obtain ⟨v, hv⟩ := h k (List.mem_cons_self _ _)
    obtain ⟨result, hres, hkeys, hlook⟩ :=
      foldlM_setEntry rest (setEntry r k v) fun k' hk' => h k' (List.mem_cons_of_mem _ hk')
    refine ⟨result, by simpa only [List.foldlM_cons, hv, bind, Except.bind] using hres,
      fun k' => ?_, fun k' => ?_⟩
    · rw [hkeys, mem_keys_setEntry, List.mem_cons, or_assoc]
      exact or_left_comm
    · rw [hlook, lookup_setEntry]
      by_cases hr : k' ∈ rest
      · simp [hr]
      · by_cases hk : k' = k
        · subst hk; simp [hv, Except.toOption]
        · simp [hr, hk]

end Fold

theorem specNameSourcesItems_toplevel : ∀ {l : List Element}, (∀ e ∈ l, IsItem e) →
    specNameSourcesItems l "" false = .ok (l.map fun e => (itemName e, e))
  | [], _ => rfl
  | e :: rest, hl => by
    have he := hl e (List.mem_cons_self _ _)
    obtain ⟨m, rfl⟩ := he.map
    obtain ⟨s, hs, -, -⟩ := he.name
    obtain ⟨t, ht⟩ := he.type
    rw [specNameSourcesItems_item hs ht,
      specNameSourcesItems_toplevel fun e he => hl e (List.mem_cons_of_mem _ he)]
    simp only [Element.field] at hs
    simp [itemName, Element.field, hs]

namespace ConfigData

variable {S : List Element} {C : List (String × Element)}

theorem getItemList_toplevel (hS : ∀ e ∈ S, IsItem e) (config : Element) :
    (ConfigData.mk (some (.list S)) config).getItemList "" false =
      .ok (S.map itemName ++ ["_generation_id"]) := by
  rw [getItemList_of_toplevel rfl (.inl rfl), specNameList_eq_sources, specNameSources,
    specNameSourcesItems_toplevel hS]
  simp [addReservedItems]

theorem findSpecPart_item {S : List Element} (hS : WellFormedSpec S) {J : Element} (hJ : J ∈ S) :
    findSpecPart (some (.list S)) (itemName J) = .ok J := by
  obtain ⟨item, distinct, -⟩ : (∀ e ∈ S, IsItem e) ∧ (S.map itemName).Nodup ∧ True := by
    cases hS; exact ⟨‹_›, ‹_›, trivial⟩
  rw [findSpecPart_some _ (item J hJ).itemName_ne_empty]
  exact findSpecPartLoop_item item distinct hJ

section Resolved

variable {spec : Option Element} {n : String} {J : Element}

theorem findDefaultValue_of_findSpecPart (hJ : IsItem J) (hgen : n ≠ "_generation_id")
    (h : findSpecPart spec n = .ok J) :
    findDefaultValue spec n = .ok (J.field "item_default", (J.field "item_default").isSome) := by
  rw [findDefaultValue, if_neg hgen, h, Except.ok_bind]
  obtain ⟨m, rfl⟩ := hJ.map
  cases hd : m.lookup "item_default" <;>
    simp [Element.contains, Element.get, Element.field, hd] <;> rfl

theorem getDefaultValue_of_findSpecPart (hJ : IsItem J) (hgen : n ≠ "_generation_id")
    (config : Element) (h : findSpecPart spec n = .ok J) :
    (ConfigData.mk spec config).getDefaultValue n =
      match J.field "item_default" with
      | some v => .ok (some v)
      | none => .error (.dataNotFound ("No default for " ++ n)) := by
  rw [getDefaultValue, findDefaultValue_of_findSpecPart hJ hgen h]
  cases J.field "item_default" <;> rfl

end Resolved

/-- `getDefaultValue` of a top-level item is its `item_default`, and raises
`DataNotFoundError` when the item has none. -/
theorem getDefaultValue_item (hS : WellFormedSpec S) {J : Element} (hJ : J ∈ S)
    (hgen : itemName J ≠ "_generation_id") (config : Element) :
    (ConfigData.mk (some (.list S)) config).getDefaultValue (itemName J) =
      match J.field "item_default" with
      | some v => .ok (some v)
      | none => .error (.dataNotFound ("No default for " ++ itemName J)) :=
  getDefaultValue_of_findSpecPart ((by cases hS; assumption : ∀ e ∈ S, IsItem e) J hJ) hgen
    config (findSpecPart_item hS hJ)

theorem getDefaultValue_item_nestedSpec :
    (ConfigData.mk (some (.list nestedSpec)) (.map [])).getDefaultValue (itemName defaultItem) =
      (match defaultItem.field "item_default" with
      | some v => .ok (some v)
      | none => .error (.dataNotFound ("No default for " ++ itemName defaultItem))) ∧
    (ConfigData.mk (some (.list nestedSpec)) (.map [])).getDefaultValue (itemName mapItem) =
      match mapItem.field "item_default" with
      | some v => .ok (some v)
      | none => .error (.dataNotFound ("No default for " ++ itemName mapItem)) :=
  ⟨getDefaultValue_item nestedSpec_hereditary.wellFormedSpec (by simp [nestedSpec]) (by decide) _,
    getDefaultValue_item nestedSpec_hereditary.wellFormedSpec (by simp [nestedSpec]) (by decide) _⟩

/-- Every name `getItemList` lists from the top level, nested ones included, resolves to an
item, and `getDefaultValue` reads that item's `item_default` or raises `No default for`. -/
theorem getItemList_getDefaultValue (S : List Element) (config : Element) (recurse : Bool)
    (hS : WellFormedSpec S) (names : List String)
    (h : (ConfigData.mk (some (.list S)) config).getItemList "" recurse = .ok names) :
    ∀ n ∈ names, n ≠ "_generation_id" → ∃ J, findSpecPart (some (.list S)) n = .ok J ∧
      IsItem J ∧ (ConfigData.mk (some (.list S)) config).getDefaultValue n =
        match J.field "item_default" with
        | some v => .ok (some v)
        | none => .error (.dataNotFound ("No default for " ++ n)) := by
  obtain ⟨srcs, hs, rfl⟩ := getItemList_toplevel_ok rfl (.inl rfl) h
  intro n hn hgen
  obtain ⟨nJ, hnJ, rfl⟩ : ∃ nJ ∈ srcs, nJ.1 = n := by simpa [addReservedItems, hgen] using hn
  have hfind := sources_resolve_toplevel hS hs nJ hnJ
  have hitem := (specNameSources_resolve hS.namesResolve hs nJ hnJ).1
  exact ⟨nJ.2, hfind, hitem, getDefaultValue_of_findSpecPart hitem hgen config hfind⟩

theorem getItemList_getDefaultValue_nestedSpec :
    ∃ J, findSpecPart (some (.list nestedSpec)) "m/x" = .ok J ∧ IsItem J ∧
      (ConfigData.mk (some (.list nestedSpec)) (.map [])).getDefaultValue "m/x" =
        match J.field "item_default" with
        | some v => .ok (some v)
        | none => .error (.dataNotFound ("No default for " ++ "m/x")) :=
  getItemList_getDefaultValue nestedSpec (.map []) true nestedSpec_hereditary.wellFormedSpec _ rfl
    "m/x" (by decide) (by decide)

theorem getValueIsDefault_item (hS : WellFormedSpec S) {J : Element} (hJ : J ∈ S)
    (hgen : itemName J ≠ "_generation_id") :
    (ConfigData.mk (some (.list S)) (.map C)).getValueIsDefault (itemName J) =
      .ok (match C.lookup (itemName J) with
        | some v => (some v, false)
        | none => (J.field "item_default", (J.field "item_default").isSome)) := by
  have hitem : ∀ e ∈ S, IsItem e := by cases hS; assumption
  rw [getValueIsDefault, Element.find_of_not_mem (hitem J hJ).slash_not_mem]
  cases hc : C.lookup (itemName J) with
  | some v => simp [Element.get, hc]; rfl
  | none =>
    simp only [Element.get, hc, pure_bind,
      findDefaultValue_of_findSpecPart (hitem J hJ) hgen (findSpecPart_item hS hJ)]

theorem getValue_item (hS : WellFormedSpec S) {J : Element} (hJ : J ∈ S)
    (hgen : itemName J ≠ "_generation_id") :
    (ConfigData.mk (some (.list S)) (.map C)).getValue (itemName J) =
      .ok (C.lookup (itemName J) <|> J.field "item_default") := by
  rw [getValue, getValueIsDefault_item hS hJ hgen]
  cases C.lookup (itemName J) <;> rfl

theorem getValueIsDefault_generation_id (spec : Option Element) :
    (ConfigData.mk spec (.map C)).getValueIsDefault "_generation_id" =
      .ok (match C.lookup "_generation_id" with
        | some v => (some v, false)
        | none => (some (.integer 0), true)) := by
  rw [getValueIsDefault, Element.find_of_not_mem (by decide)]
  cases hc : C.lookup "_generation_id" <;> simp [Element.get, hc, findDefaultValue] <;> rfl

theorem getValue_generation_id (spec : Option Element) :
    (ConfigData.mk spec (.map C)).getValue "_generation_id" =
      .ok (C.lookup "_generation_id" <|> some (.integer 0)) := by
  rw [getValue, getValueIsDefault_generation_id]
  cases C.lookup "_generation_id" <;> rfl

/-- `getFullConfig` lists every top-level item and `_generation_id`, each with its value in
the configuration, or else its default. -/
theorem getFullConfig_eq (S : List Element) (C : List (String × Element))
    (hS : WellFormedSpec S) :
    ∃ result, (ConfigData.mk (some (.list S)) (.map C)).getFullConfig = .ok result ∧
      (∀ k, k ∈ result.map Prod.fst ↔ k ∈ S.map itemName ∨ k = "_generation_id") ∧
      (∀ J ∈ S, itemName J ≠ "_generation_id" →
        result.lookup (itemName J) = some (C.lookup (itemName J) <|> J.field "item_default")) ∧
      result.lookup "_generation_id" = some (C.lookup "_generation_id" <|> some (.integer 0)) := by
  have hitem : ∀ e ∈ S, IsItem e := by cases hS; assumption
  have hval : ∀ k ∈ S.map itemName ++ ["_generation_id"],
      ∃ v, (ConfigData.mk (some (.list S)) (.map C)).getValue k = .ok v := by
    intro k hk
    by_cases hg : k = "_generation_id"
    · exact hg ▸ ⟨_, getValue_generation_id _⟩
    · obtain ⟨J, hJ, rfl⟩ : ∃ J ∈ S, itemName J = k := by simpa [hg] using hk
      exact ⟨_, getValue_item hS hJ hg⟩
  obtain ⟨result, hres, hkeys, hlook⟩ := foldlM_setEntry _ _ [] hval
  refine ⟨result, by rw [getFullConfig, getItemList_toplevel hitem, Except.ok_bind]; exact hres,
    fun k => by simp [hkeys], fun J hJ hg => ?_, ?_⟩
  · rw [hlook, if_pos (List.mem_append_left _ (List.mem_map_of_mem _ hJ)), getValue_item hS hJ hg]
    rfl
  · rw [hlook, if_pos (List.mem_append_right _ (List.mem_singleton_self _)),
      getValue_generation_id]
    rfl

theorem getFullConfig_eq_nestedSpec :
    ∃ result, (ConfigData.mk (some (.list nestedSpec)) (.map [("a", .integer 7)])).getFullConfig =
        .ok result ∧
      (∀ k, k ∈ result.map Prod.fst ↔ k ∈ nestedSpec.map itemName ∨ k = "_generation_id") ∧
      (∀ J ∈ nestedSpec, itemName J ≠ "_generation_id" →
        result.lookup (itemName J) =
          some (List.lookup (itemName J) [("a", .integer 7)] <|> J.field "item_default")) ∧
      result.lookup "_generation_id" =
        some (List.lookup "_generation_id" [("a", .integer 7)] <|> some (.integer 0)) :=
  getFullConfig_eq nestedSpec [("a", .integer 7)] nestedSpec_hereditary.wellFormedSpec

example : (ConfigData.mk (some (.list nestedSpec)) (.map [("a", .integer 7)])).getFullConfig =
    .ok [("a", some (.integer 7)), ("m", none), ("_generation_id", some (.integer 0))] := rfl

end ConfigData

end Bundy.Config
