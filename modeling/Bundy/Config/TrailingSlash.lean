import Bundy.Config.ItemList

namespace Bundy.Config

open Bundy.Data

section Resolve

variable {S : List Element} {recurse : Bool} {srcs : List (String × Element)}

theorem sources_rejected_slash (hS : WellFormedSpec S)
    (hs : specNameSources (.list S) "/" recurse = .ok srcs) :
    ∀ nJ ∈ srcs, findSpecPart (some (.list S)) nJ.1 =
      .error (.dataNotFound (" in " ++ nJ.1 ++ " not found")) := by
  intro nJ hnJ
  obtain ⟨-, q, hn, -, -, -⟩ := specNameSources_resolve hS.namesResolve hs nJ hnJ
  have hname : nJ.1.toList = '/' :: '/' :: q := by
    rw [hn]
    simp [String.toList]
  have hne : nJ.1 ≠ "" := fun h => by simp [h] at hname
  rw [findSpecPart_some _ hne, hname]
  exact findSpecPartLoop_empty_part (by cases hS; assumption) _

theorem sources_rejected_inner_slash (hS : HereditarySpec (.list S)) {p : String} {I : Element}
    (hI : findSpecPart (some (.list S)) p = .ok I) (hlast : p.toList.getLast? ≠ some '/')
    (hs : specNameSources I (p ++ "/") recurse = .ok srcs) :
    ∀ nJ ∈ srcs, findSpecPart (some (.list S)) nJ.1 =
      .error (.dataNotFound (" in " ++ nJ.1 ++ " not found")) := by
  intro nJ hnJ
  have hp : p ≠ "" := by rintro rfl; cases hI
  have hpne : p.toList ≠ [] := fun h => hp (String.ext h)
  rw [findSpecPart_some _ hp] at hI
  obtain ⟨hIH, hIlist⟩ := hS.findSpecPartLoop p.toList [] _ I (List.not_mem_nil _)
    (by simpa using hpne) hlast hI
  have hIres := hIH.namesResolve.1
  obtain ⟨-, q, hn, hq, -, -⟩ := specNameSources_resolve hIres hs nJ hnJ
  obtain ⟨L, hL, hitems⟩ := hIres.subSpec_list hs (List.ne_nil_of_mem hnJ)
  have hname : nJ.1.toList = p.toList ++ '/' :: '/' :: q := by
    rw [hn, if_pos (fun h => by simp [String.ext_iff] at h)]
    simp [String.toList]
  have hne : nJ.1 ≠ "" := fun h => by simp [h] at hname
  rw [findSpecPart_some _ hne, hname, findSpecPartLoop_extend (by simp [hq]) p.toList [] (.list S) I
    (fun _ h => (nomatch h)) (List.not_mem_nil _) (by simpa using hpne) hlast hI
    (hIres.map_of_mem_sources hIlist hs hnJ), hL]
  exact findSpecPartLoop_empty_part hitems q

end Resolve

namespace ConfigData

/-- From `"/"`, which it takes as the top level, `getItemList` lists the names of a
well-formed specification under the prefix `"//"`, and `findSpecPart` rejects each of them. -/
theorem getItemList_slash_unresolved (S : List Element) (config : Element) (recurse : Bool)
    (hS : WellFormedSpec S) (names : List String)
    (h : (ConfigData.mk (some (.list S)) config).getItemList "/" recurse = .ok names) :
    ∀ n ∈ names, n ≠ "_generation_id" →
      findSpecPart (some (.list S)) n = .error (.dataNotFound (" in " ++ n ++ " not found")) := by
  obtain ⟨srcs, hs, rfl⟩ := getItemList_toplevel_ok rfl (.inr rfl) h
  intro n hn hgen
  obtain ⟨nJ, hnJ, rfl⟩ : ∃ nJ ∈ srcs, nJ.1 = n := by simpa [addReservedItems, hgen] using hn
  exact sources_rejected_slash hS hs nJ hnJ

theorem getItemList_slash_unresolved_nestedSpec :
    findSpecPart (some (.list nestedSpec)) "//m" =
      .error (.dataNotFound (" in " ++ "//m" ++ " not found")) :=
  getItemList_slash_unresolved nestedSpec (.map []) false nestedSpec_hereditary.wellFormedSpec _ rfl
    "//m" (by decide) (by decide)

/-- From an inner identifier followed by `/`, `getItemList` lists the names of the element the
identifier resolves to with a doubled `/` after it, and `findSpecPart` rejects each of them. -/
theorem getItemList_inner_slash_unresolved (S : List Element) (config : Element)
    (recurse : Bool) (hS : HereditarySpec (.list S)) (p : String) (I : Element)
    (names : List String) (hI : findSpecPart (some (.list S)) p = .ok I)
    (hlast : p.toList.getLast? ≠ some '/')
    (h : (ConfigData.mk (some (.list S)) config).getItemList (p ++ "/") recurse = .ok names) :
    ∀ n ∈ names,
      findSpecPart (some (.list S)) n = .error (.dataNotFound (" in " ++ n ++ " not found")) := by
  have hp : p ≠ "" := by rintro rfl; cases hI
  have hpsl : (p ++ "/").toList = p.toList ++ ['/'] := by simp [String.toList]
  have hps : p ++ "/" ≠ "" := fun h => by simp [h] at hpsl
  have hps' : p ++ "/" ≠ "/" := fun h => hp (String.ext (by simpa [h] using hpsl))
  obtain ⟨sp, srcs, hsp, hs, rfl⟩ := getItemList_not_toplevel_ok hps hps' h
  rw [findSpecPart_some _ hps, hpsl] at hsp
  obtain ⟨J, hJ, hloop⟩ := findSpecPartLoop_split p.toList [] _ sp (List.not_mem_nil _)
    (by simpa using fun h => hp (String.ext h)) hlast hsp
  obtain rfl : J = I := Except.ok.inj ((hJ p).symm.trans (by rwa [findSpecPart_some _ hp] at hI))
  obtain rfl : sp = J := Except.ok.inj hloop.symm
  intro n hn
  obtain ⟨nJ, hnJ, rfl⟩ := List.mem_map.mp hn
  exact sources_rejected_inner_slash hS hI hlast hs nJ hnJ

theorem getItemList_inner_slash_unresolved_nestedSpec :
    findSpecPart (some (.list nestedSpec)) "m//x" =
      .error (.dataNotFound (" in " ++ "m//x" ++ " not found")) :=
  getItemList_inner_slash_unresolved nestedSpec (.map []) false nestedSpec_hereditary "m" mapItem
    ["m//x"] rfl (by decide) rfl "m//x" (List.mem_singleton_self _)

theorem getItemList_trailing_slash_differs :
    WellFormedSpec nestedSpec ∧
    (ConfigData.mk (some (.list nestedSpec)) (.map [])).getItemList "" false =
      .ok ["a", "m", "_generation_id"] ∧
    (ConfigData.mk (some (.list nestedSpec)) (.map [])).getItemList "/" false =
      .ok ["//a", "//m", "_generation_id"] ∧
    (ConfigData.mk (some (.list nestedSpec)) (.map [])).getItemList "m" false = .ok ["m/x"] ∧
    (ConfigData.mk (some (.list nestedSpec)) (.map [])).getItemList "m/" false = .ok ["m//x"] :=
  ⟨nestedSpec_hereditary.wellFormedSpec, rfl, rfl, rfl, rfl⟩

end ConfigData

end Bundy.Config
