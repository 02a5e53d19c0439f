import Bundy.Config.Spec

namespace Bundy.Config

open Bundy.Data

theorem subSpecIn_eq (key : String) (fallback : Element) (m : List (String × Element)) :
    subSpecIn key fallback m =
      match m.lookup key with
      | some v => findListOrMapSubSpec v
      | none => fallback := by
  induction m with
  | nil => rfl
  | cons kv m ih =>
    obtain ⟨k, v⟩ := kv
    rw [subSpecIn, lookup_cons_pair]
    split <;> simp_all

theorem findListOrMapSubSpec_map (m : List (String × Element)) :
    findListOrMapSubSpec (.map m) =
      match m.lookup "list_item_spec" with
      | some v => findListOrMapSubSpec v
      | none =>
        match m.lookup "map_item_spec" with
        | some v => findListOrMapSubSpec v
        | none => .map m := by
  rw [findListOrMapSubSpec, subSpecIn_eq, subSpecIn_eq]

theorem findListOrMapSubSpec_of_map_item_spec {m : List (String × Element)} {v : Element}
    (hl : m.lookup "list_item_spec" = none) (hv : m.lookup "map_item_spec" = some v) :
    findListOrMapSubSpec (.map m) = findListOrMapSubSpec v := by
  rw [findListOrMapSubSpec_map, hl, hv]

def NoSubSpec (m : List (String × Element)) : Prop :=
  m.lookup "list_item_spec" = none ∧ m.lookup "map_item_spec" = none

mutual

theorem findListOrMapSubSpec_stops : ∀ (e : Element) (m : List (String × Element)),
    findListOrMapSubSpec e = .map m → NoSubSpec m
  | .map m', m, h => by
    rw [findListOrMapSubSpec] at h
    refine subSpecIn_stops _ _ m' (fun hl => subSpecIn_stops _ _ m' (fun hm m h => ?_)) m h
    cases h
    exact ⟨hl, hm⟩
  | .null, _, h => by cases h
  | .boolean _, _, h => by cases h
  | .integer _, _, h => by cases h
  | .real _, _, h => by cases h
  | .string _, _, h => by cases h
  | .list _, _, h => by cases h

theorem subSpecIn_stops : ∀ (key : String) (fallback : Element) (l : List (String × Element)),
    (l.lookup key = none → ∀ m, fallback = .map m → NoSubSpec m) →
    ∀ m, subSpecIn key fallback l = .map m → NoSubSpec m
  | _, _, [], hf, m, h => hf rfl m h
  | key, fallback, (k, v) :: rest, hf, m, h => by
    rw [subSpecIn] at h
    split at h
    · exact findListOrMapSubSpec_stops v m h
    · next hk =>
      exact subSpecIn_stops key fallback rest
        (fun hr => hf (by rw [lookup_cons_pair, if_neg hk, hr])) m h

end

theorem mk_ne_empty_and_ne_slash (l : List Char) :
    ((⟨l⟩ : String) ≠ "" ∧ (⟨l⟩ : String) ≠ "/") ↔ (l ≠ [] ∧ l ≠ ['/']) := by
  simp [String.ext_iff]

theorem mk_ne_empty_and_ne_slash_of_not_mem {l : List Char} (hl : l ≠ []) (h : '/' ∉ l) :
    (⟨l⟩ : String) ≠ "" ∧ (⟨l⟩ : String) ≠ "/" :=
  (mk_ne_empty_and_ne_slash l).mpr ⟨hl, fun e => h (e ▸ List.mem_singleton_self _)⟩

section FindItem

variable {x : String}

theorem findItemInSpecListLoop_item {e : Element} (he : IsItem e) (found : Option Element)
    (rest : List Element) :
    findItemInSpecListLoop x found (e :: rest) =
      findItemInSpecListLoop x (if itemName e = x then some e else found) rest := by
  obtain ⟨m, rfl⟩ := he.map
  obtain ⟨s, hs, -, -⟩ := he.name
  simp only [Element.field] at hs
  simp [findItemInSpecListLoop, hs, itemName, Element.field, Element.stringValue]

theorem findItemInSpecListLoop_eq {l : List Element} (hl : ∀ e ∈ l, IsItem e)
    (found : Option Element) :
    findItemInSpecListLoop x found l =
      .ok (l.foldl (fun found e => if itemName e = x then some e else found) found) := by
  induction l generalizing found with
  | nil => rfl
  | cons e l ih =>
    rw [findItemInSpecListLoop_item (hl e (List.mem_cons_self _ _)), List.foldl_cons]
    exact ih (fun e he => hl e (List.mem_cons_of_mem _ he)) _

theorem foldl_named_of_forall_ne {l : List Element} (h : ∀ e ∈ l, itemName e ≠ x)
    (found : Option Element) :
    l.foldl (fun found e => if itemName e = x then some e else found) found = found := by
  induction l generalizing found with
  | nil => rfl
  | cons e l ih =>
    rw [List.foldl_cons, if_neg (h e (List.mem_cons_self _ _))]
    exact ih (fun e he => h e (List.mem_cons_of_mem _ he)) found

theorem foldl_named_of_unique {l : List Element} {J : Element} (hJ : J ∈ l) (hx : itemName J = x)
    (hu : ∀ e ∈ l, itemName e = x → e = J) (found : Option Element) :
    l.foldl (fun found e => if itemName e = x then some e else found) found = some J := by
  induction l generalizing found with
  | nil => cases hJ
  | cons e l ih =>
    rw [List.foldl_cons]
    by_cases hJl : J ∈ l
    · exact ih hJl (fun e he => hu e (List.mem_cons_of_mem _ he)) _
    · have he : e = J := by
        rcases List.mem_cons.mp hJ with h | h
        · exact h.symm
        · exact absurd h hJl
      subst he
      rw [if_pos hx]
      exact foldl_named_of_forall_ne
        (fun e' he' hx' => hJl (hu e' (List.mem_cons_of_mem _ he') hx' ▸ he')) _

theorem findItemInSpecList_of_mem {l : List Element} (hl : ∀ e ∈ l, IsItem e)
    (hd : (l.map itemName).Nodup) {J : Element} (hJ : J ∈ l) (id_full : String) :
    findItemInSpecList (.list l) (itemName J) id_full = .ok J := by
  have hu : ∀ e ∈ l, itemName e = itemName J → e = J :=
    fun e he h => List.inj_on_of_nodup_map hd he hJ h
  simp only [findItemInSpecList, Element.listValue, pure_bind, findItemInSpecListLoop_eq hl,
    Except.ok_bind, foldl_named_of_unique hJ rfl hu]
  rfl

theorem findItemInSpecList_of_forall_ne {l : List Element} (hl : ∀ e ∈ l, IsItem e)
    (h : ∀ e ∈ l, itemName e ≠ x) (id_full : String) :
    findItemInSpecList (.list l) x id_full =
      .error (.dataNotFound (x ++ " in " ++ id_full ++ " not found")) := by
  simp only [findItemInSpecList, Element.listValue, pure_bind, findItemInSpecListLoop_eq hl,
    Except.ok_bind, foldl_named_of_forall_ne h]
  rfl

theorem findItemInSpecListLoop_mem {J : Element} : ∀ {l : List Element} {found : Option Element},
    findItemInSpecListLoop x found l = .ok (some J) → J ∈ l ∨ found = some J
  | [], _, h => .inr (by cases h; rfl)
  | e :: rest, found, h => by
    simp only [findItemInSpecListLoop] at h
    have step : ∀ found', findItemInSpecListLoop x found' rest = .ok (some J) →
        (found' = some e ∨ found' = found) → J ∈ e :: rest ∨ found = some J := by
      rintro found' h' (rfl | rfl)
      · rcases findItemInSpecListLoop_mem h' with h | h
        · exact .inl (List.mem_cons_of_mem _ h)
        · exact .inl (by cases h; exact List.mem_cons_self _ _)
      · rcases findItemInSpecListLoop_mem h' with h | h
        · exact .inl (List.mem_cons_of_mem _ h)
        · exact .inr h
    split at h
    · next m =>
      split at h
      · next name _ =>
        cases hs : name.stringValue with
        | error _ => rw [hs] at h; cases h
        | ok s =>
          rw [hs, Except.ok_bind] at h
          split at h
          · exact step _ h (.inl rfl)
          · exact step _ h (.inr rfl)
      · exact step _ h (.inr rfl)
    · exact step _ h (.inr rfl)

theorem findItemInSpecList_mem {spec_part J : Element} {id_full : String}
    (h : findItemInSpecList spec_part x id_full = .ok J) : ∃ l, spec_part = .list l ∧ J ∈ l := by
  unfold findItemInSpecList at h
  cases spec_part with
  | list l =>
    refine ⟨l, rfl, ?_⟩
    revert h
    simp only [Element.listValue, pure_bind]
    rcases hlo : findItemInSpecListLoop x none l with _ | _ | r
    · exact fun h => by cases h
    · exact fun h => by cases h
    · intro h
      cases h
      exact (findItemInSpecListLoop_mem hlo).resolve_right (by simp)
  | _ => cases h

theorem findItemInSpecList_ok {spec_part J : Element} {id_full : String}
    (h : findItemInSpecList spec_part x id_full = .ok J) (id_full' : String) :
    findItemInSpecList spec_part x id_full' = .ok J := by
  unfold findItemInSpecList at h ⊢
  revert h
  rcases spec_part.listValue with _ | l
  · exact fun h => by cases h
  · rw [Except.ok_bind, Except.ok_bind]
    rcases findItemInSpecListLoop x none l with _ | _ | r
    · exact fun h => by cases h
    · exact fun h => by cases h
    · exact id

end FindItem

section Loop

variable {identifier : String}

theorem findSpecPartLoop_cons_of_ne {c : Char} (hc : c ≠ '/') (sp : Element)
    (part rest : List Char) :
    findSpecPartLoop identifier sp part (c :: rest) =
      findSpecPartLoop identifier sp (part ++ [c]) rest := by
  rw [findSpecPartLoop, if_neg hc]

theorem findSpecPartLoop_list_slash (l : List Element) (part rest : List Char) :
    findSpecPartLoop identifier (.list l) part ('/' :: rest) =
      findItemInSpecList (.list l) ⟨part⟩ identifier >>= fun sp =>
        findSpecPartLoop identifier
          (if rest ≠ [] ∧ rest ≠ ['/'] then findListOrMapSubSpec sp else sp) [] rest := by
  rw [findSpecPartLoop, if_pos rfl]
  simp only [mk_ne_empty_and_ne_slash]

theorem findSpecPartLoop_slash_ok {sp I : Element} {part rest : List Char}
    (h : findSpecPartLoop identifier sp part ('/' :: rest) = .ok I) :
    ∃ l J, sp = .list l ∧ findItemInSpecList sp ⟨part⟩ identifier = .ok J ∧
      findSpecPartLoop identifier
        (if rest ≠ [] ∧ rest ≠ ['/'] then findListOrMapSubSpec J else J) [] rest = .ok I := by
  cases sp with
  | list l =>
    rw [findSpecPartLoop_list_slash] at h
    revert h
    rcases findItemInSpecList (.list l) ⟨part⟩ identifier with _ | J
    · exact fun h => by cases h
    · exact fun h => ⟨l, J, rfl, rfl, h⟩
  | _ => rw [findSpecPartLoop, if_pos rfl] at h; cases h

theorem findSpecPartLoop_append_part {w : List Char} (hw : '/' ∉ w) (sp : Element)
    (part rest : List Char) :
    findSpecPartLoop identifier sp part (w ++ rest) =
      findSpecPartLoop identifier sp (part ++ w) rest := by
  induction w generalizing part with
  | nil => simp
  | cons c w ih =>
    rw [List.cons_append, findSpecPartLoop_cons_of_ne (fun h => hw (h ▸ List.mem_cons_self _ _)),
      ih (fun h => hw (List.mem_cons_of_mem _ h))]
    simp

theorem findSpecPartLast_of_not {id : String} (hid : ¬(id ≠ "" ∧ id ≠ "/")) (sp : Element) :
    findSpecPartLast identifier sp id = .ok sp := by
  unfold findSpecPartLast
  rw [if_neg hid]; rfl

theorem findSpecPartLast_ok {sp I : Element} {id : String} (hid : id ≠ "" ∧ id ≠ "/")
    (h : findSpecPartLast identifier sp id = .ok I) :
    (∃ l, sp = .list l ∧ findItemInSpecList sp id identifier = .ok I) ∨
      (∃ m v, sp = .map m ∧ m.lookup "map_item_spec" = some v ∧
        findItemInSpecList v id identifier = .ok I) ∨
      (I = sp ∧ (∀ l, sp ≠ .list l) ∧ ∀ m, sp = .map m → m.lookup "map_item_spec" = none) := by
  unfold findSpecPartLast at h
  rw [if_pos hid] at h
  · cases sp with
    | list l => exact .inl ⟨l, rfl, h⟩
    | map m =>
      simp only at h
      split at h
      · next v hv => exact .inr (.inl ⟨m, v, rfl, hv, h⟩)
      · next hv =>
        refine .inr (.inr ⟨?_, fun _ h => (nomatch h), fun m' hm => by cases hm; exact hv⟩)
        split at h
        · next name _ =>
          revert h
          rcases name.stringValue with _ | s
          · exact fun h => by cases h
          · simp only [Except.ok_bind]
            split
            · exact fun h => by cases h
            · exact fun h => by cases h; rfl
        · cases h
    | _ => exact .inr (.inr ⟨by cases h; rfl, fun _ h => (nomatch h), fun _ hm => (nomatch hm)⟩)

theorem findSpecPartLoop_item {l : List Element} (hl : ∀ e ∈ l, IsItem e)
    (hd : (l.map itemName).Nodup) {J : Element} (hJ : J ∈ l) :
    findSpecPartLoop identifier (.list l) [] (itemName J).toList = .ok J := by
  have he := hl J hJ
  have hid : (⟨(itemName J).toList⟩ : String) ≠ "" ∧ (⟨(itemName J).toList⟩ : String) ≠ "/" :=
    mk_ne_empty_and_ne_slash_of_not_mem (fun h => he.itemName_ne_empty (String.ext h))
      he.slash_not_mem
  rw [← List.append_nil (itemName J).toList, findSpecPartLoop_append_part he.slash_not_mem,
    List.nil_append, findSpecPartLoop, findSpecPartLast, if_pos hid]
  exact findItemInSpecList_of_mem hl hd hJ identifier

theorem findSpecPartLoop_empty_part {l : List Element} (hl : ∀ e ∈ l, IsItem e) (q : List Char) :
    findSpecPartLoop identifier (.list l) [] ('/' :: q) =
      .error (.dataNotFound (" in " ++ identifier ++ " not found")) := by
  rw [findSpecPartLoop_list_slash, show (⟨[]⟩ : String) = "" from rfl,
    findItemInSpecList_of_forall_ne hl fun e he => (hl e he).itemName_ne_empty]
  rfl

theorem getLast?_ne_of_cons {c x : Char} {rest : List Char} (h : (c :: rest).getLast? ≠ some x) :
    rest.getLast? ≠ some x :=
  fun h' => h (by rw [List.getLast?_cons, h']; rfl)

theorem ne_nil_of_slash_cons {rest : List Char} (h : ('/' :: rest).getLast? ≠ some '/') :
    rest ≠ [] ∧ rest ≠ ['/'] :=
  ⟨fun hr => h (by simp [hr]), fun hr => getLast?_ne_of_cons h (by simp [hr])⟩

theorem append_slash_ne {rest : List Char} (hrest : rest ≠ []) (q : List Char) :
    rest ++ '/' :: q ≠ [] ∧ rest ++ '/' :: q ≠ ['/'] := by
  refine ⟨by simp, fun h => hrest ?_⟩
  have := congrArg List.length h
  simp only [List.length_append, List.length_cons, List.length_nil] at this
  exact List.eq_nil_of_length_eq_zero (by omega)

theorem findSpecPartLoop_extend {i i' : String} {q : List Char} (hq : q ≠ [] ∧ q ≠ ['/']) :
    ∀ (rest part : List Char) (sp I : Element),
      (∀ m, sp = .map m → m.lookup "map_item_spec" = none) → '/' ∉ part → part ++ rest ≠ [] →
      rest.getLast? ≠ some '/' → findSpecPartLoop i sp part rest = .ok I →
      (∃ m v, I = .map m ∧ m.lookup "map_item_spec" = some v) →
      findSpecPartLoop i' sp part (rest ++ '/' :: q) =
        findSpecPartLoop i' (findListOrMapSubSpec I) [] q
  | [], part, sp, I, hsp, hpart, hne, _, h, ⟨m, v, hI, hv⟩ => by
    have hid := mk_ne_empty_and_ne_slash_of_not_mem (by simpa using hne) hpart
    rw [findSpecPartLoop] at h
    rcases findSpecPartLast_ok hid h with ⟨l, rfl, hf⟩ | ⟨m', v', rfl, hv', -⟩ | ⟨rfl, -, hno⟩
    · rw [List.nil_append, findSpecPartLoop_list_slash, findItemInSpecList_ok hf i',
        Except.ok_bind, if_pos hq]
    · simp [hsp m' rfl] at hv'
    · simp [hno m hI] at hv
  | c :: rest, part, sp, I, hsp, hpart, hne, hlast, h, hI => by
    by_cases hc : c = '/'
    · subst hc
      have hrest := ne_nil_of_slash_cons hlast
      obtain ⟨l, J, rfl, hJ, hloop⟩ := findSpecPartLoop_slash_ok h
      rw [if_pos hrest] at hloop
      rw [List.cons_append, findSpecPartLoop_list_slash, findItemInSpecList_ok hJ i',
        Except.ok_bind, if_pos (append_slash_ne hrest.1 q)]
      exact findSpecPartLoop_extend hq rest [] _ I
        (fun m hm => (findListOrMapSubSpec_stops J m hm).2) (List.not_mem_nil _)
        (by simpa using hrest.1) (getLast?_ne_of_cons hlast) hloop hI
    · rw [findSpecPartLoop_cons_of_ne hc] at h
      rw [List.cons_append, findSpecPartLoop_cons_of_ne hc]
      exact findSpecPartLoop_extend hq rest (part ++ [c]) sp I hsp
        (by simp [hpart, Ne.symm hc]) (by simp) (getLast?_ne_of_cons hlast) h hI

theorem findSpecPartLoop_split {i' : String} {q : List Char} :
    ∀ (rest part : List Char) (sp I' : Element), '/' ∉ part → part ++ rest ≠ [] →
      rest.getLast? ≠ some '/' → findSpecPartLoop i' sp part (rest ++ '/' :: q) = .ok I' →
      ∃ J, (∀ i, findSpecPartLoop i sp part rest = .ok J) ∧
        findSpecPartLoop i' (if q ≠ [] ∧ q ≠ ['/'] then findListOrMapSubSpec J else J) [] q =
          .ok I'
  | [], part, sp, I', hpart, hne, _, h => by
    have hid := mk_ne_empty_and_ne_slash_of_not_mem (by simpa using hne) hpart
    obtain ⟨l, J, rfl, hJ, hloop⟩ := findSpecPartLoop_slash_ok h
    refine ⟨J, fun i => ?_, hloop⟩
    rw [findSpecPartLoop, findSpecPartLast, if_pos hid]
    exact findItemInSpecList_ok hJ i
  | c :: rest, part, sp, I', hpart, _, hlast, h => by
    by_cases hc : c = '/'
    · subst hc
      have hrest := ne_nil_of_slash_cons hlast
      rw [List.cons_append] at h
      obtain ⟨l, J, rfl, hJ, hloop⟩ := findSpecPartLoop_slash_ok h
      rw [if_pos (append_slash_ne hrest.1 q)] at hloop
      obtain ⟨K, hK, hq⟩ := findSpecPartLoop_split rest [] _ I' (List.not_mem_nil _)
        (by simpa using hrest.1) (getLast?_ne_of_cons hlast) hloop
      refine ⟨K, fun i => ?_, hq⟩
      rw [findSpecPartLoop_list_slash, findItemInSpecList_ok hJ i, Except.ok_bind, if_pos hrest]
      exact hK i
    · rw [List.cons_append, findSpecPartLoop_cons_of_ne hc] at h
      obtain ⟨J, hJ, hq⟩ := findSpecPartLoop_split rest (part ++ [c]) sp I'
        (by simp [hpart, Ne.symm hc]) (by simp) (getLast?_ne_of_cons hlast) h
      exact ⟨J, fun i => by rw [findSpecPartLoop_cons_of_ne hc]; exact hJ i, hq⟩

end Loop

section Sources

theorem specNameSourcesIn_eq (m : List (String × Element)) (pfx : String) (recurse : Bool)
    (fallback : Except Error (List (String × Element))) :
    specNameSourcesIn m pfx recurse fallback =
      match m.lookup "map_item_spec" with
      | some v => specNameSources v pfx recurse
      | none => fallback := by
  induction m with
  | nil => rfl
  | cons kv m ih =>
    obtain ⟨k, v⟩ := kv
    rw [specNameSourcesIn, lookup_cons_pair]
    split <;> simp_all

theorem specNameSourcesItems_item {m : List (String × Element)} {s t : String}
    (hs : m.lookup "item_name" = some (.string s)) (ht : m.lookup "item_type" = some (.string t))
    (rest : List Element) (pfx : String) (recurse : Bool) :
    specNameSourcesItems (.map m :: rest) pfx recurse =
      (if recurse = true ∧ t = "map" then
          specNameSourcesIn m ((if pfx ≠ "" then pfx ++ "/" else pfx) ++ s) recurse
            (throw .nullPointer)
        else pure [((if pfx ≠ "" then pfx ++ "/" else pfx) ++ s, .map m)]) >>= fun names =>
        (names ++ ·) <$> specNameSourcesItems rest pfx recurse := by
  rw [specNameSourcesItems, hs]
  simp only [Element.stringValue, Except.ok_bind, pure_bind, map_eq_pure_bind]
  cases recurse
  · simp
  · by_cases h : t = "map" <;> simp [Element.stringValueOf, ht, Element.stringValue, h]

end Sources

end Bundy.Config
