import Bundy.Config.SpecPart
import Mathlib.Data.String.Basic

namespace Bundy.Config

open Bundy.Data

inductive NamesResolve : Element → Prop
  | list {l : List Element} (item : ∀ e ∈ l, IsItem e) (distinct : (l.map itemName).Nodup)
      (sub : ∀ e ∈ l, ∀ l', e.field "item_type" = some (.string "map") →
        e.field "map_item_spec" = some (.list l') → NamesResolve (.list l')) :
      NamesResolve (.list l)
  | map {m : List (String × Element)} {v : Element} (no_list : m.lookup "list_item_spec" = none)
      (map_item_spec : m.lookup "map_item_spec" = some v) (sub : NamesResolve v) :
      NamesResolve (.map m)
  | leaf {e : Element} (not_list : ∀ l, e ≠ .list l)
      (no_sub : ∀ m, e = .map m → m.lookup "map_item_spec" = none) : NamesResolve e

theorem WellFormedSpec.namesResolve {l : List Element} (h : WellFormedSpec l) :
    NamesResolve (.list l) := by
  induction h with
  | mk item distinct _ ih => exact .list item distinct ih

theorem HereditarySpec.namesResolve {e : Element} (h : HereditarySpec e) :
    NamesResolve e ∧ ∀ m v, e = .map m → m.lookup "map_item_spec" = some v → NamesResolve v := by
  induction h with
  | list item distinct _ ih =>
    refine ⟨.list item distinct fun e he l' _ hm => ?_, fun m v h => by cases h⟩
    obtain ⟨m, rfl⟩ := (item e he).map
    exact (ih _ he).2 m _ rfl hm
  | @map m not_both _ _ _ ihm =>
    refine ⟨?_, fun m' v h hv => by cases h; exact (ihm v hv).1⟩
    cases hv : m.lookup "map_item_spec" with
    | none => exact .leaf (fun l h => by cases h) (fun m' h => by cases h; exact hv)
    | some v => exact .map (not_both.resolve_right (by simp [hv])) hv (ihm v hv).1
  | leaf not_list not_map =>
    exact ⟨.leaf not_list fun m h => absurd h (not_map m), fun m v h => absurd h (not_map m)⟩

section Hereditary

theorem HereditarySpec.wellFormedSpec {l : List Element} (h : HereditarySpec (.list l)) :
    WellFormedSpec l := by
  suffices key : ∀ e, HereditarySpec e → (∀ l, e = .list l → WellFormedSpec l) ∧
      ∀ m l', e = .map m → m.lookup "map_item_spec" = some (.list l') → WellFormedSpec l' from
    (key _ h).1 l rfl
  intro e he
  induction he with
  | list item distinct _ ih =>
    refine ⟨fun l' h => ?_, fun _ _ h => (nomatch h)⟩
    cases h
    refine .mk item distinct fun e he l' _ hm => ?_
    obtain ⟨m, rfl⟩ := (item e he).map
    exact (ih _ he).2 m l' rfl hm
  | map _ _ _ _ ihm =>
    refine ⟨fun _ h => (nomatch h), fun m' l' h hv => ?_⟩
    cases h
    exact (ihm _ hv).1 l' rfl
  | leaf not_list not_map =>
    exact ⟨fun l h => absurd h (not_list l), fun m _ h => absurd h (not_map m)⟩

theorem HereditarySpec.of_mem {l : List Element} (h : HereditarySpec (.list l)) {e : Element}
    (he : e ∈ l) : HereditarySpec e ∧ IsItem e := by
  cases h with
  | list item _ sub => exact ⟨sub e he, item e he⟩
  | leaf not_list _ => exact absurd rfl (not_list l)

theorem HereditarySpec.of_map_item_spec {m : List (String × Element)} {v : Element}
    (h : HereditarySpec (.map m)) (hv : m.lookup "map_item_spec" = some v) : HereditarySpec v := by
  cases h with
  | map _ _ map_item_spec => exact map_item_spec v hv
  | leaf _ not_map => exact absurd rfl (not_map m)

theorem HereditarySpec.findListOrMapSubSpec {e : Element} (h : HereditarySpec e) :
    HereditarySpec (findListOrMapSubSpec e) := by
  induction h with
  | list item distinct sub => exact .list item distinct sub
  | @map m not_both list_item_spec map_item_spec ihl ihm =>
    rw [findListOrMapSubSpec_map]
    split
    · next v hv => exact ihl v hv
    · split
      · next v hv => exact ihm v hv
      · exact .map not_both list_item_spec map_item_spec
  | @leaf e not_list not_map =>
    cases e with
    | list l => exact absurd rfl (not_list l)
    | map m => exact absurd rfl (not_map m)
    | _ => exact .leaf not_list not_map

theorem HereditarySpec.findSpecPartLoop {i : String} :
    ∀ (rest part : List Char) (sp I : Element), HereditarySpec sp → '/' ∉ part →
      part ++ rest ≠ [] → rest.getLast? ≠ some '/' →
      findSpecPartLoop i sp part rest = .ok I → HereditarySpec I ∧ ∀ l, I ≠ .list l
  | [], part, sp, I, hsp, hpart, hne, _, h => by
    have hid := mk_ne_empty_and_ne_slash_of_not_mem (by simpa using hne) hpart
    rw [Bundy.Config.findSpecPartLoop] at h
    rcases findSpecPartLast_ok hid h with ⟨l, rfl, hf⟩ | ⟨m, v, rfl, hv, hf⟩ | ⟨rfl, hnl, -⟩
    · obtain ⟨l', he, hJ⟩ := findItemInSpecList_mem hf
      cases he
      obtain ⟨hI, hitem⟩ := hsp.of_mem hJ
      obtain ⟨m, rfl⟩ := hitem.map
      exact ⟨hI, fun _ h => (nomatch h)⟩
    · obtain ⟨l', rfl, hJ⟩ := findItemInSpecList_mem hf
      obtain ⟨hI, hitem⟩ := (hsp.of_map_item_spec hv).of_mem hJ
      obtain ⟨m, rfl⟩ := hitem.map
      exact ⟨hI, fun _ h => (nomatch h)⟩
    · exact ⟨hsp, hnl⟩
  | c :: rest, part, sp, I, hsp, hpart, _, hlast, h => by
    by_cases hc : c = '/'
    · subst hc
      have hrest := (ne_nil_of_slash_cons hlast).1
      obtain ⟨l, J, rfl, hJ, hloop⟩ := findSpecPartLoop_slash_ok h
      obtain ⟨l', he, hJl⟩ := findItemInSpecList_mem hJ
      cases he
      have hJ' := (hsp.of_mem hJl).1
      refine HereditarySpec.findSpecPartLoop rest [] _ I ?_ (List.not_mem_nil _)
        (by simpa using hrest) (getLast?_ne_of_cons hlast) hloop
      split
      · exact hJ'.findListOrMapSubSpec
      · exact hJ'
    · rw [findSpecPartLoop_cons_of_ne hc] at h
      exact HereditarySpec.findSpecPartLoop rest (part ++ [c]) sp I hsp
        (by simp [hpart, Ne.symm hc]) (by simp) (getLast?_ne_of_cons hlast) h

end Hereditary

theorem specNameSources_of_no_sub {e : Element} (not_list : ∀ l, e ≠ .list l)
    (no_sub : ∀ m, e = .map m → m.lookup "map_item_spec" = none) (pfx : String) (recurse : Bool) :
    specNameSources e pfx recurse = .ok [] := by
  cases e with
  | list l => exact absurd rfl (not_list l)
  | map m => rw [specNameSources, specNameSourcesIn_eq, no_sub m rfl]; rfl
  | _ => rfl

theorem specNameSources_ok_resolve {E : Element} (hE : NamesResolve E) (pfx : String)
    (recurse : Bool) :
    ∃ srcs, specNameSources E pfx recurse = .ok srcs ∧ ∀ nJ ∈ srcs, IsItem nJ.2 ∧
      ∃ q : List Char, nJ.1 = (if pfx ≠ "" then pfx ++ "/" else pfx) ++ ⟨q⟩ ∧ q ≠ [] ∧
        q.head? ≠ some '/' ∧ ∀ i, findSpecPartLoop i (findListOrMapSubSpec E) [] q = .ok nJ.2 := by
  induction hE generalizing pfx with
  | @list l item distinct _ ih =>
    suffices key : ∀ l', (∀ e ∈ l', e ∈ l) → ∀ pfx, ∃ srcs,
        specNameSourcesItems l' pfx recurse = .ok srcs ∧ ∀ nJ ∈ srcs, IsItem nJ.2 ∧
          ∃ q : List Char, nJ.1 = (if pfx ≠ "" then pfx ++ "/" else pfx) ++ ⟨q⟩ ∧ q ≠ [] ∧
            q.head? ≠ some '/' ∧ ∀ i, findSpecPartLoop i (.list l) [] q = .ok nJ.2 from
      key l (fun _ h => h) pfx
    intro l' hl'
    induction l' with
    | nil => exact fun _ => ⟨[], rfl, by simp⟩
    | cons e rest ihr =>
      intro pfx
      have hel : e ∈ l := hl' e (List.mem_cons_self _ _)
      have he := item e hel
      obtain ⟨m, rfl⟩ := he.map
      obtain ⟨s, hs, hs0, hsl⟩ := he.name
      obtain ⟨t, ht⟩ := he.type
      simp only [Element.field] at hs ht
      have hname : itemName (.map m) = s := by simp [itemName, Element.field, hs]
      have hsne : s.toList ≠ [] := fun h => hs0 (String.ext (by simpa using h))
      have hhead : s.toList.head? ≠ some '/' := fun h => hsl (List.mem_of_mem_head? h)
      obtain ⟨more, hmore, hPmore⟩ := ihr (fun e he => hl' e (List.mem_cons_of_mem _ he)) pfx
      rw [specNameSourcesItems_item hs ht, hmore]
      split
      · next hrec =>
        obtain ⟨l'', hl''⟩ := he.map_type (by simp [Element.field, ht, hrec.2])
        simp only [Element.field] at hl''
        have hnl : m.lookup "list_item_spec" = none :=
          he.not_both.resolve_right (by simp [Element.field, hl''])
        obtain ⟨names, hnames, hPnames⟩ := ih _ hel l'' (by simp [Element.field, ht, hrec.2])
          (by simp [Element.field, hl'']) ((if pfx ≠ "" then pfx ++ "/" else pfx) ++ s)
        simp only [specNameSourcesIn_eq, hl'', hnames]
        refine ⟨names ++ more, rfl, fun nJ hnJ => ?_⟩
        rcases List.mem_append.mp hnJ with hnJ | hnJ
        · obtain ⟨hitem, q', hn, hq', hqh, hloop⟩ := hPnames nJ hnJ
          have hq'2 : q' ≠ ['/'] := fun h => hqh (by simp [h])
          have hps : (if pfx ≠ "" then pfx ++ "/" else pfx) ++ s ≠ "" := fun h =>
            hsne (List.append_eq_nil.mp (congrArg String.data h)).2
          refine ⟨hitem, s.toList ++ '/' :: q', ?_, by simp, by
            rw [List.head?_append_of_ne_nil _ hsne]; exact hhead, fun i => ?_⟩
          · rw [hn, if_pos hps]
            simp [String.ext_iff]
          · rw [findSpecPartLoop_append_part hsl, List.nil_append, findSpecPartLoop_list_slash,
              show (⟨s.toList⟩ : String) = s from rfl, ← hname,
              findItemInSpecList_of_mem item distinct hel, Except.ok_bind, if_pos ⟨hq', hq'2⟩,
              findListOrMapSubSpec_of_map_item_spec hnl hl'']
            exact hloop i
        · exact hPmore nJ hnJ
      · refine ⟨_, rfl, fun nJ hnJ => ?_⟩
        rcases List.mem_append.mp hnJ with hnJ | hnJ
        · obtain rfl := List.mem_singleton.mp hnJ
          refine ⟨he, s.toList, rfl, hsne, hhead, fun i => ?_⟩
          rw [← hname]
          exact findSpecPartLoop_item item distinct hel
        · exact hPmore nJ hnJ
  | map no_list hv _ ih =>
    rw [specNameSources, specNameSourcesIn_eq, hv, findListOrMapSubSpec_of_map_item_spec no_list hv]
    exact ih pfx
  | leaf not_list no_sub =>
    exact ⟨[], specNameSources_of_no_sub not_list no_sub pfx recurse, by simp⟩

theorem specNameSources_resolve {E : Element} (hE : NamesResolve E) {pfx : String}
    {recurse : Bool} {srcs : List (String × Element)}
    (h : specNameSources E pfx recurse = .ok srcs) :
    ∀ nJ ∈ srcs, IsItem nJ.2 ∧ ∃ q : List Char,
      nJ.1 = (if pfx ≠ "" then pfx ++ "/" else pfx) ++ ⟨q⟩ ∧ q ≠ [] ∧ q.head? ≠ some '/' ∧
      ∀ i, findSpecPartLoop i (findListOrMapSubSpec E) [] q = .ok nJ.2 := by
  obtain ⟨srcs', hs', hP⟩ := specNameSources_ok_resolve hE pfx recurse
  rw [hs'] at h
  cases h
  exact hP

theorem NamesResolve.map_of_mem_sources {E : Element} (hE : NamesResolve E)
    (hnl : ∀ l, E ≠ .list l) {pfx : String} {recurse : Bool} {srcs : List (String × Element)}
    (hs : specNameSources E pfx recurse = .ok srcs) {nJ : String × Element} (hnJ : nJ ∈ srcs) :
    ∃ m v, E = .map m ∧ m.lookup "map_item_spec" = some v := by
  cases hE with
  | list => exact absurd rfl (hnl _)
  | map _ hv _ => exact ⟨_, _, rfl, hv⟩
  | leaf not_list no_sub =>
    rw [specNameSources_of_no_sub not_list no_sub] at hs
    cases hs
    cases hnJ

theorem NamesResolve.subSpec_list {E : Element} (hE : NamesResolve E) {pfx : String}
    {recurse : Bool} {srcs : List (String × Element)}
    (hs : specNameSources E pfx recurse = .ok srcs) (hne : srcs ≠ []) :
    ∃ L, findListOrMapSubSpec E = .list L ∧ ∀ e ∈ L, IsItem e := by
  induction hE generalizing srcs with
  | list item => exact ⟨_, rfl, item⟩
  | map no_list hv _ ih =>
    rw [specNameSources, specNameSourcesIn_eq, hv] at hs
    rw [findListOrMapSubSpec_of_map_item_spec no_list hv]
    exact ih hs hne
  | leaf not_list no_sub =>
    rw [specNameSources_of_no_sub not_list no_sub] at hs
    cases hs
    exact absurd rfl hne

theorem findSpecPart_some (spec : Element) {identifier : String} (h : identifier ≠ "") :
    findSpecPart (some spec) identifier =
      findSpecPartLoop identifier spec [] identifier.toList := by
  simp [findSpecPart, h]

section Resolve

variable {S : List Element} {recurse : Bool} {srcs : List (String × Element)}

theorem sources_resolve_toplevel (hS : WellFormedSpec S)
    (hs : specNameSources (.list S) "" recurse = .ok srcs) :
    ∀ nJ ∈ srcs, findSpecPart (some (.list S)) nJ.1 = .ok nJ.2 := by
  intro nJ hnJ
  obtain ⟨-, q, hn, hq, -, hloop⟩ := specNameSources_resolve hS.namesResolve hs nJ hnJ
  have hq' : (⟨q⟩ : String) ≠ "" := fun h => hq (congrArg String.data h)
  simp only [ne_eq, not_true_eq_false, if_false, String.empty_append] at hn
  rw [hn, findSpecPart_some _ hq']
  exact hloop _

theorem sources_resolve_inner (hS : HereditarySpec (.list S)) {p : String} {I : Element}
    (hI : findSpecPart (some (.list S)) p = .ok I) (hlast : p.toList.getLast? ≠ some '/')
    (hs : specNameSources I p recurse = .ok srcs) :
    ∀ nJ ∈ srcs, findSpecPart (some (.list S)) nJ.1 = .ok nJ.2 := by
  intro nJ hnJ
  have hp : p ≠ "" := by rintro rfl; cases hI
  have hpne : p.toList ≠ [] := fun h => hp (String.ext h)
  rw [findSpecPart_some _ hp] at hI
  obtain ⟨hIH, hIlist⟩ := hS.findSpecPartLoop p.toList [] _ I (List.not_mem_nil _)
    (by simpa using hpne) hlast hI
  have hIres := hIH.namesResolve.1
  obtain ⟨-, q, hn, hq, hqh, hloop⟩ := specNameSources_resolve hIres hs nJ hnJ
  have hname : nJ.1.toList = p.toList ++ '/' :: q := by
    rw [hn, if_pos hp]
    simp [String.toList]
  have hne : nJ.1 ≠ "" := fun h => by simp [h] at hname
  rw [findSpecPart_some _ hne, hname, findSpecPartLoop_extend ⟨hq, fun h => hqh (by simp [h])⟩
    p.toList [] (.list S) I (fun _ h => (nomatch h)) (List.not_mem_nil _) (by simpa using hpne)
    hlast hI (hIres.map_of_mem_sources hIlist hs hnJ)]
  exact hloop _

end Resolve

namespace ConfigData

variable {cd : ConfigData} {spec : Element} {identifier : String} {recurse : Bool}
  {names : List String}

theorem getItemList_of_toplevel (hs : cd.configSpec = some spec)
    (ht : identifier = "" ∨ identifier = "/") :
    cd.getItemList identifier recurse =
      addReservedItems <$> specNameList spec identifier recurse := by
  have htop : (identifier.isEmpty || identifier == "/") = true := by
    rcases ht with rfl | rfl <;> rfl
  simp only [getItemList, htop, hs, Bool.not_true, if_true]
  rfl

theorem getItemList_of_not_toplevel (hp : identifier ≠ "") (hp' : identifier ≠ "/") :
    cd.getItemList identifier recurse =
      findSpecPart cd.configSpec identifier >>= fun sp => specNameList sp identifier recurse := by
  have htop : (identifier.isEmpty || identifier == "/") = false := by
    rw [Bool.or_eq_false_iff, Bool.eq_false_iff, Ne, String.isEmpty_iff]
    exact ⟨hp, by simpa using hp'⟩
  simp only [getItemList, htop, Bool.not_false, if_true, Bool.false_eq_true, if_false]
  cases findSpecPart cd.configSpec identifier with
  | error _ => rfl
  | ok sp => simp only [Except.ok_bind]; cases specNameList sp identifier recurse <;> rfl

theorem getItemList_toplevel_ok (hs : cd.configSpec = some spec)
    (ht : identifier = "" ∨ identifier = "/") (h : cd.getItemList identifier recurse = .ok names) :
    ∃ srcs, specNameSources spec identifier recurse = .ok srcs ∧
      names = addReservedItems (srcs.map Prod.fst) := by
  rw [getItemList_of_toplevel hs ht, specNameList_eq_sources] at h
  obtain ⟨l, hl, rfl⟩ := Except.map_eq_ok h
  obtain ⟨srcs, hsrcs, rfl⟩ := Except.map_eq_ok hl
  exact ⟨srcs, hsrcs, rfl⟩

theorem getItemList_not_toplevel_ok (hp : identifier ≠ "") (hp' : identifier ≠ "/")
    (h : cd.getItemList identifier recurse = .ok names) :
    ∃ sp srcs, findSpecPart cd.configSpec identifier = .ok sp ∧
      specNameSources sp identifier recurse = .ok srcs ∧ names = srcs.map Prod.fst := by
  rw [getItemList_of_not_toplevel hp hp'] at h
  obtain ⟨sp, hsp, h⟩ := Except.bind_eq_ok h
  rw [specNameList_eq_sources] at h
  obtain ⟨srcs, hsrcs, rfl⟩ := Except.map_eq_ok h
  exact ⟨sp, srcs, hsp, hsrcs, rfl⟩

/-- The names `getItemList` lists, paired with the items `specNameList` built them from, are
identifiers `findSpecPart` resolves to those items: from the top level when the top-level
list is well formed, and from an inner identifier that does not end in `/` when every
nested specification is. -/
theorem getItemList_names_resolve (S : List Element) (config : Element) (recurse : Bool) :
    (WellFormedSpec S → ∀ names,
      (ConfigData.mk (some (.list S)) config).getItemList "" recurse = .ok names →
      ∃ srcs, specNameSources (.list S) "" recurse = .ok srcs ∧
        names = srcs.map Prod.fst ++ ["_generation_id"] ∧
        ∀ nJ ∈ srcs, findSpecPart (some (.list S)) nJ.1 = .ok nJ.2) ∧
    (HereditarySpec (.list S) → ∀ p I names, findSpecPart (some (.list S)) p = .ok I →
      p.toList.getLast? ≠ some '/' →
      (ConfigData.mk (some (.list S)) config).getItemList p recurse = .ok names →
      ∃ srcs, specNameSources I p recurse = .ok srcs ∧ names = srcs.map Prod.fst ∧
        ∀ nJ ∈ srcs, findSpecPart (some (.list S)) nJ.1 = .ok nJ.2) := by
  constructor
  · intro hS names h
    obtain ⟨srcs, hs, rfl⟩ := getItemList_toplevel_ok rfl (.inl rfl) h
    exact ⟨srcs, hs, rfl, sources_resolve_toplevel hS hs⟩
  · intro hS p I names hI hlast h
    obtain ⟨sp, srcs, hsp, hs, rfl⟩ :=
      getItemList_not_toplevel_ok (by rintro rfl; cases hI) (by rintro rfl; exact hlast rfl) h
    obtain rfl : sp = I := Except.ok.inj (hsp.symm.trans hI)
    exact ⟨srcs, hs, rfl, sources_resolve_inner hS hI hlast hs⟩

def defaultItem : Element :=
  .map [("item_name", .string "a"), ("item_type", .string "integer"), ("item_default", .integer 1)]

def mapItem : Element :=
  .map [("item_name", .string "m"), ("item_type", .string "map"),
    ("map_item_spec", .list [.map [("item_name", .string "x"), ("item_type", .string "string")]])]

def nestedSpec : List Element := [defaultItem, mapItem]

theorem nestedSpec_hereditary : HereditarySpec (.list nestedSpec) := by
  have hx : IsItem (.map [("item_name", .string "x"), ("item_type", .string "string")]) :=
    ⟨⟨_, rfl⟩, ⟨"x", rfl, by decide, by decide⟩, ⟨_, rfl⟩, .inl rfl,
      fun h => by simp [Element.field, lookup_cons_pair] at h⟩
  have hsub :
      HereditarySpec (.list [.map [("item_name", .string "x"), ("item_type", .string "string")]]) :=
    .list (by simpa using hx) (by decide)
      (by simpa using .map (.inl rfl) (fun _ h => nomatch h) (fun _ h => nomatch h))
  refine .list (fun e he => ?_) (by decide) (fun e he => ?_) <;>
    simp only [nestedSpec, List.mem_cons, List.mem_singleton, List.not_mem_nil, or_false] at he <;>
    rcases he with rfl | rfl
  · exact ⟨⟨_, rfl⟩, ⟨"a", rfl, by decide, by decide⟩, ⟨_, rfl⟩, .inl rfl,
      fun h => by simp [defaultItem, Element.field, lookup_cons_pair] at h⟩
  · exact ⟨⟨_, rfl⟩, ⟨"m", rfl, by decide, by decide⟩, ⟨_, rfl⟩, .inl rfl, fun _ => ⟨_, rfl⟩⟩
  · exact .map (.inl rfl) (fun _ h => nomatch h) (fun _ h => nomatch h)
  · exact .map (.inl rfl) (fun _ h => nomatch h) (fun v h => by cases h; exact hsub)

theorem getItemList_names_resolve_nestedSpec :
    (∃ srcs, specNameSources (.list nestedSpec) "" true = .ok srcs ∧
      ["a", "m/x", "_generation_id"] = srcs.map Prod.fst ++ ["_generation_id"] ∧
      ∀ nJ ∈ srcs, findSpecPart (some (.list nestedSpec)) nJ.1 = .ok nJ.2) ∧
    (∃ srcs, specNameSources mapItem "m" true = .ok srcs ∧ ["m/x"] = srcs.map Prod.fst ∧
      ∀ nJ ∈ srcs, findSpecPart (some (.list nestedSpec)) nJ.1 = .ok nJ.2) :=
  ⟨(getItemList_names_resolve nestedSpec (.map []) true).1 nestedSpec_hereditary.wellFormedSpec _
      rfl,
    (getItemList_names_resolve nestedSpec (.map []) true).2 nestedSpec_hereditary "m" _ _ rfl
      (by decide) rfl⟩

/-- `getItemList` returns from the top level of a well-formed specification, and from every
inner identifier that does not end in `/` when every nested specification is well formed. -/
theorem getItemList_ok (S : List Element) (config : Element) (recurse : Bool) :
    (WellFormedSpec S →
      ∃ names, (ConfigData.mk (some (.list S)) config).getItemList "" recurse = .ok names) ∧
    (HereditarySpec (.list S) → ∀ p I, findSpecPart (some (.list S)) p = .ok I →
      p.toList.getLast? ≠ some '/' →
      ∃ names, (ConfigData.mk (some (.list S)) config).getItemList p recurse = .ok names) := by
  constructor
  · intro hS
    obtain ⟨srcs, hs, -⟩ := specNameSources_ok_resolve hS.namesResolve "" recurse
    rw [getItemList_of_toplevel rfl (.inl rfl), specNameList_eq_sources, hs]
    exact ⟨_, rfl⟩
  · intro hS p I hI hlast
    have hp : p ≠ "" := by rintro rfl; cases hI
    rw [getItemList_of_not_toplevel hp (by rintro rfl; exact hlast rfl), hI, Except.ok_bind,
      specNameList_eq_sources]
    rw [findSpecPart_some _ hp] at hI
    obtain ⟨hIH, -⟩ := hS.findSpecPartLoop p.toList [] _ I (List.not_mem_nil _)
      (by simpa using fun h => hp (String.ext h)) hlast hI
    obtain ⟨srcs, hs, -⟩ := specNameSources_ok_resolve hIH.namesResolve.1 p recurse
    rw [hs]
    exact ⟨_, rfl⟩

theorem getItemList_ok_nestedSpec :
    (∃ names, (ConfigData.mk (some (.list nestedSpec)) (.map [])).getItemList "" true =
      .ok names) ∧
    ∃ names, (ConfigData.mk (some (.list nestedSpec)) (.map [])).getItemList "m" true = .ok names :=
  ⟨(getItemList_ok nestedSpec (.map []) true).1 nestedSpec_hereditary.wellFormedSpec,
    (getItemList_ok nestedSpec (.map []) true).2 nestedSpec_hereditary "m" mapItem rfl
      (by decide)⟩

/-- An item that is not of type `map` but carries a `map_item_spec`, whose item name has a
`/`: the top-level list is well formed, and the name listed from `a` does not resolve. -/
def strayItem : Element :=
  .map [("item_name", .string "a"), ("item_type", .string "integer"),
    ("map_item_spec",
      .list [.map [("item_name", .string "b/c"), ("item_type", .string "integer")]])]

theorem getItemList_lists_unresolvable_name :
    WellFormedSpec [strayItem] ∧ findSpecPart (some (.list [strayItem])) "a" = .ok strayItem ∧
    (ConfigData.mk (some (.list [strayItem])) (.map [])).getItemList "a" false = .ok ["a/b/c"] ∧
    findSpecPart (some (.list [strayItem])) "a/b/c" =
      .error (.dataNotFound "b in a/b/c not found") := by
  refine ⟨.mk (fun e he => ?_) (by decide) (fun e he _ ht _ => ?_), rfl, rfl, rfl⟩ <;>
    rw [List.mem_singleton.mp he] at *
  · exact ⟨⟨_, rfl⟩, ⟨"a", rfl, by decide, by decide⟩, ⟨_, rfl⟩, .inl rfl,
      fun h => by simp [strayItem, Element.field, lookup_cons_pair] at h⟩
  · simp [strayItem, Element.field, lookup_cons_pair] at ht

end ConfigData

end Bundy.Config
