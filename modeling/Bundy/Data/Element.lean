namespace Bundy.Data

/-- The data elements of `cc/data.h`. A map element is its list of entries, looked up as
`std::map` looks a key up. -/
inductive Element where
  | null
  | boolean (b : Bool)
  | integer (i : Int)
  | real (d : Float)
  | string (s : String)
  | list (l : List Element)
  | map (m : List (String × Element))
  deriving Repr, Inhabited

inductive Error where
  | typeError (accessor : String)
  | dataNotFound (what : String)
  /-- `DataNotFoundError` whose text ends in `element->str()`. -/
  | dataNotFoundAt (what : String) (element : Element)
  | nullPointer
  deriving Repr

namespace Element

def stringValue : Element → Except Error String
  | .string s => pure s
  | _ => throw (.typeError "stringValue")

def listValue : Element → Except Error (List Element)
  | .list l => pure l
  | _ => throw (.typeError "listValue")

def contains : Element → String → Except Error Bool
  | .map m, key => pure (m.lookup key).isSome
  | _, _ => throw (.typeError "contains")

def get : Element → String → Except Error (Option Element)
  | .map m, key => pure (m.lookup key)
  | _, _ => throw (.typeError "get")

def field : Element → String → Option Element
  | .map m, key => m.lookup key
  | _, _ => none

/-- `stringValue` through a possibly empty `ElementPtr`. -/
def stringValueOf : Option Element → Except Error String
  | some e => e.stringValue
  | none => throw .nullPointer

/-- `find` walks a `/`-separated identifier down the maps; a trailing `/` is ignored. -/
def findLoop : Element → List Char → List Char → Except Error (Option Element)
  | e, part, [] => e.get ⟨part⟩
  | e, part, c :: rest =>
    if c = '/' then do
      match ← e.get ⟨part⟩ with
      | some ce => if rest ≠ [] then findLoop ce [] rest else pure (some ce)
      | none => pure none
    else findLoop e (part ++ [c]) rest

def find (e : Element) (identifier : String) : Except Error (Option Element) :=
  findLoop e [] identifier.toList

theorem findLoop_of_not_mem : ∀ (e : Element) (part rest : List Char), '/' ∉ rest →
    findLoop e part rest = e.get ⟨part ++ rest⟩
  | e, part, [], _ => by rw [findLoop, List.append_nil]
  | e, part, c :: rest, h => by
    rw [findLoop, if_neg (fun hc : c = '/' => h (hc ▸ List.mem_cons_self _ _)),
      findLoop_of_not_mem e _ rest (fun h' => h (List.mem_cons_of_mem _ h')), List.append_assoc]
    rfl

theorem find_of_not_mem {identifier : String} (h : '/' ∉ identifier.toList) (e : Element) :
    e.find identifier = e.get identifier :=
  findLoop_of_not_mem e [] _ h

end Element

/-- `MapElement::set`: replace the value of a present key, or add the key. -/
def setEntry {α : Type} : List (String × α) → String → α → List (String × α)
  | [], key, value => [(key, value)]
  | (k, v) :: rest, key, value =>
    if k = key then (key, value) :: rest else (k, v) :: setEntry rest key value

theorem lookup_cons_pair {α : Type} (k key : String) (v : α) (m : List (String × α)) :
    ((k, v) :: m).lookup key = if k = key then some v else m.lookup key := by
  by_cases h : k = key
  · subst h; simp
  · rw [List.lookup_cons, beq_false_of_ne (Ne.symm h)]
    simp [h]

section SetEntry

variable {α : Type} (key k : String) (value : α)

@[simp] theorem lookup_setEntry (r : List (String × α)) :
    (setEntry r key value).lookup k = if k = key then some value else r.lookup k := by
  induction r with
  | nil => rw [setEntry, lookup_cons_pair]; simp only [@eq_comm _ key k]
  | cons kv r ih =>
    obtain ⟨k', v'⟩ := kv
    rw [setEntry]
    by_cases hk : k' = key
    · subst hk
      simp only [if_true, lookup_cons_pair]
      by_cases h : k' = k <;> simp [h, Ne.symm]
    · simp only [hk, if_false, lookup_cons_pair, ih]
      by_cases h : k' = k
      · subst h; simp [hk]
      · simp [h]

@[simp] theorem mem_keys_setEntry (r : List (String × α)) :
    k ∈ (setEntry r key value).map Prod.fst ↔ k = key ∨ k ∈ r.map Prod.fst := by
  induction r with
  | nil => simp [setEntry]
  | cons kv r ih =>
    obtain ⟨k', v'⟩ := kv
    rw [setEntry]
    by_cases hk : k' = key
    · subst hk; simp
    · simp only [hk, if_false, List.map_cons, List.mem_cons, ih]
      exact or_left_comm

end SetEntry

end Bundy.Data
