import Bundy.Data.Element

/-!
`config/config_data.cc`: resolving `/`-separated identifiers against a module's
configuration specification, listing the item names a specification declares, and reading
values with their defaults.
-/

namespace Bundy.Config

open Bundy.Data

mutual

def findListOrMapSubSpec : Element → Element
  | .map m => subSpecIn "list_item_spec" (subSpecIn "map_item_spec" (.map m) m) m
  | spec_part => spec_part

def subSpecIn (key : String) (fallback : Element) : List (String × Element) → Element
  | [] => fallback
  | (k, v) :: rest => if k = key then findListOrMapSubSpec v else subSpecIn key fallback rest

end

/-- The `BOOST_FOREACH` of `findItemInSpecList`: the last item named `id_part`. -/
def findItemInSpecListLoop (id_part : String) : Option Element → List Element →
    Except Error (Option Element)
  | found, [] => pure found
  | found, list_el :: rest => do
    let found ← match list_el with
      | .map m =>
        match m.lookup "item_name" with
        | some name => do pure (if (← name.stringValue) = id_part then some list_el else found)
        | none => pure found
      | _ => pure found
    findItemInSpecListLoop id_part found rest

def findItemInSpecList (spec_part : Element) (id_part id_full : String) : Except Error Element := do
  match ← findItemInSpecListLoop id_part none (← spec_part.listValue) with
  | some list_el => pure list_el
  | none => throw (.dataNotFound (id_part ++ " in " ++ id_full ++ " not found"))

/-- The part of `findSpecPart` after its loop, on the last part `id` of the identifier. -/
def findSpecPartLast (identifier : String) (spec_part : Element) (id : String) :
    Except Error Element :=
  if id ≠ "" ∧ id ≠ "/" then
    match spec_part with
    | .list _ => findItemInSpecList spec_part id identifier
    | .map m =>
      match m.lookup "map_item_spec" with
      | some map_item_spec => findItemInSpecList map_item_spec id identifier
      | none =>
        match m.lookup "item_name" with
        | some name => do
          if (← name.stringValue) ≠ id then
            throw (.dataNotFoundAt ("Element above " ++ id ++ " in " ++ identifier ++
              " is not a map: ") spec_part)
          pure spec_part
        | none => throw (.dataNotFoundAt ("Element above " ++ id ++ " in " ++ identifier ++
            " is not a map: ") spec_part)
    | _ => pure spec_part
  else pure spec_part

/-- The loop of `findSpecPart`, scanning `id` for `/`: `part` is what has been read of the
current part, and the rest of `id` follows. -/
def findSpecPartLoop (identifier : String) : Element → List Char → List Char →
    Except Error Element
  | spec_part, part, [] => findSpecPartLast identifier spec_part ⟨part⟩
  | spec_part, part, c :: rest =>
    if c = '/' then do
      let spec_part ← match spec_part with
        | .list _ => findItemInSpecList spec_part ⟨part⟩ identifier
        | _ => throw (.dataNotFoundAt "Not a list of spec items: " spec_part)
      let id : String := ⟨rest⟩
      findSpecPartLoop identifier
        (if id ≠ "" ∧ id ≠ "/" then findListOrMapSubSpec spec_part else spec_part) [] rest
    else findSpecPartLoop identifier spec_part (part ++ [c]) rest

def findSpecPart (spec : Option Element) (identifier : String) : Except Error Element :=
  match spec with
  | none => throw (.dataNotFound "Empty specification")
  | some spec =>
    if identifier = "" then throw (.dataNotFound "Empty identifier")
    else findSpecPartLoop identifier spec [] identifier.toList

def findDefaultValue (spec : Option Element) (identifier : String) :
    Except Error (Option Element × Bool) :=
  if identifier = "_generation_id" then pure (some (.integer 0), true)
  else do
    let spec_part ← findSpecPart spec identifier
    if ← spec_part.contains "item_default" then pure (← spec_part.get "item_default", true)
    else pure (none, false)

def addReservedItems (result_list : List String) : List String :=
  result_list ++ ["_generation_id"]

mutual

def specNameList : Element → String → Bool → Except Error (List String)
  | .list l, pfx, recurse => specNameListItems l pfx recurse
  | .map m, pfx, recurse => specNameListIn m pfx recurse (pure [])
  | _, _, _ => pure []

/-- The `BOOST_FOREACH` of `specNameList` over a list element. -/
def specNameListItems : List Element → String → Bool → Except Error (List String)
  | [], _, _ => pure []
  | .map m :: rest, pfx, recurse => do
    let names ← match m.lookup "item_name" with
      | some name => do
        let new_prefix := (if pfx ≠ "" then pfx ++ "/" else pfx) ++ (← name.stringValue)
        if recurse then
          if (← Element.stringValueOf (m.lookup "item_type")) = "map" then
            specNameListIn m new_prefix recurse (throw .nullPointer)
          else pure [ new_prefix]
        else pure [ new_prefix]
      | none => pure []
    pure (names ++ (← specNameListItems rest pfx recurse))
  | _ :: rest, pfx, recurse => specNameListItems rest pfx recurse

/-- `specNameList (spec_part->get("map_item_spec"))` when the map has the key, else
`fallback`. -/
def specNameListIn : List (String × Element) → String → Bool →
    Except Error (List String) → Except Error (List String)
  | [], _, _, fallback => fallback
  | (k, v) :: rest, pfx, recurse, fallback =>
    if k = "map_item_spec" then specNameList v pfx recurse
    else specNameListIn rest pfx recurse fallback

end

structure ConfigData where
  configSpec : Option Element
  config : Element

namespace ConfigData

/-- `getValue(is_default, identifier)`: the value and `is_default`. -/
def getValueIsDefault (cd : ConfigData) (identifier : String) :
    Except Error (Option Element × Bool) := do
  match ← cd.config.find identifier with
  | some value => pure (some value, false)
  | none => findDefaultValue cd.configSpec identifier

def getValue (cd : ConfigData) (identifier : String) : Except Error (Option Element) :=
  Prod.fst <$> cd.getValueIsDefault identifier

def getDefaultValue (cd : ConfigData) (identifier : String) : Except Error (Option Element) := do
  let (value, is_default) ← findDefaultValue cd.configSpec identifier
  if !is_default then throw (.dataNotFound ("No default for " ++ identifier))
  pure value

def getItemList (cd : ConfigData) (identifier : String) (recurse : Bool) :
    Except Error (List String) := do
  let search_toplevel := identifier.isEmpty || identifier == "/"
  let spec_part ← if !search_toplevel then findSpecPart cd.configSpec identifier
    else match cd.configSpec with
      | some spec => pure spec
      | none => throw .nullPointer
  let result ← specNameList spec_part identifier recurse
  pure (if search_toplevel then addReservedItems result else result)

def getFullConfig (cd : ConfigData) : Except Error (List (String × Option Element)) := do
  let items ← cd.getItemList "" false
  items.foldlM (fun result item => do pure (setEntry result item (← cd.getValue item))) []

end ConfigData

end Bundy.Config
