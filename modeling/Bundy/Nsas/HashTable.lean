import Mathlib.Logic.Function.Basic
import Mathlib.Data.List.Basic

namespace Bundy.Nsas

/-- `HashTable<T>` of `nsas/hash_table.h`: a key stands for the `(key, keylen)` pair, the compare
object and the hash are fields, and each slot is its list of objects. -/
@[ext] structure HashTable (K T : Type) (size : Nat) where
  compare : T → K → Bool
  hash : K → Fin size
  table : Fin size → List T

namespace HashTable

variable {K T : Type} {size : Nat}

def new (compare : T → K → Bool) (hash : K → Fin size) : HashTable K T size :=
  ⟨compare, hash, fun _ => []⟩

def tableSize (_ : HashTable K T size) : Nat := size

def setSlot (t : HashTable K T size) (index : Fin size) (slot : List T) : HashTable K T size :=
  { t with table := Function.update t.table index slot }

def get (t : HashTable K T size) (key : K) : Option T :=
  (t.table (t.hash key)).find? (t.compare · key)

def remove (t : HashTable K T size) (key : K) : Bool × HashTable K T size :=
  let index := t.hash key
  let slot := t.table index
  if slot.any (t.compare · key) then (true, t.setSlot index (slot.eraseP (t.compare · key)))
  else (false, t)

def add (t : HashTable K T size) (object : T) (key : K) (replace : Bool := false) :
    Bool × HashTable K T size :=
  let index := t.hash key
  let slot := t.table index
  if slot.any (t.compare · key) then
    if replace then (true, t.setSlot index (slot.eraseP (t.compare · key) ++ [object]))
    else (false, t)
  else (true, t.setSlot index (slot ++ [object]))

@[simp] theorem setSlot_compare (t : HashTable K T size) (i : Fin size) (l : List T) :
    (t.setSlot i l).compare = t.compare := rfl

@[simp] theorem setSlot_hash (t : HashTable K T size) (i : Fin size) (l : List T) :
    (t.setSlot i l).hash = t.hash := rfl

@[simp] theorem setSlot_table (t : HashTable K T size) (i : Fin size) (l : List T) :
    (t.setSlot i l).table = Function.update t.table i l := rfl

theorem setSlot_self (t : HashTable K T size) (i : Fin size) : t.setSlot i (t.table i) = t := by
  simp [setSlot]

@[simp] theorem new_compare (compare : T → K → Bool) (hash : K → Fin size) :
    (new compare hash).compare = compare := rfl

@[simp] theorem new_hash (compare : T → K → Bool) (hash : K → Fin size) :
    (new compare hash).hash = hash := rfl

@[simp] theorem new_table (compare : T → K → Bool) (hash : K → Fin size) (i : Fin size) :
    (new compare hash).table i = [] := rfl

theorem get_setSlot (t : HashTable K T size) (i : Fin size) (l : List T) (k : K) :
    (t.setSlot i l).get k = if t.hash k = i then l.find? (t.compare · k) else t.get k := by
  by_cases h : t.hash k = i
  · subst h; simp [get]
  · simp [get, h]

theorem get_isSome (t : HashTable K T size) (key : K) :
    (t.get key).isSome = (t.table (t.hash key)).any (t.compare · key) := by
  rw [Bool.eq_iff_iff]
  simp [get]

theorem eraseP_of_not_any {p : T → Bool} {l : List T} (h : ¬l.any p = true) : l.eraseP p = l :=
  List.eraseP_of_forall_not (by simpa using h)

theorem remove_eq (t : HashTable K T size) (key : K) :
    t.remove key = ((t.get key).isSome,
      t.setSlot (t.hash key) ((t.table (t.hash key)).eraseP (t.compare · key))) := by
  dsimp only [remove]
  rw [get_isSome]
  split
  · simp_all
  · simp_all [eraseP_of_not_any, setSlot_self]

theorem add_eq (t : HashTable K T size) (object : T) (key : K) (replace : Bool) :
    t.add object key replace =
      if (t.get key).isSome && !replace then (false, t)
      else (true, t.setSlot (t.hash key)
        ((t.table (t.hash key)).eraseP (t.compare · key) ++ [object])) := by
  dsimp only [add]
  rw [get_isSome]
  by_cases h : (t.table (t.hash key)).any (t.compare · key) = true
  · cases replace <;> simp [h]
  · simp [h, eraseP_of_not_any h]

theorem remove_fst (t : HashTable K T size) (key : K) : (t.remove key).1 = (t.get key).isSome := by
  rw [remove_eq]

theorem add_fst (t : HashTable K T size) (object : T) (key : K) (replace : Bool) :
    (t.add object key replace).1 = !((t.get key).isSome && !replace) := by
  rw [add_eq]
  split
  · next h => simp [h]
  · next h => cases replace <;> simp_all

theorem add_of_fst_false {t : HashTable K T size} {object : T} {key : K} {replace : Bool}
    (h : (t.add object key replace).1 = false) : (t.add object key replace).2 = t := by
  rw [add_eq] at h ⊢
  split <;> simp_all

@[simp] theorem remove_compare (t : HashTable K T size) (key : K) :
    (t.remove key).2.compare = t.compare := by
  rw [remove_eq]; rfl

@[simp] theorem remove_hash (t : HashTable K T size) (key : K) :
    (t.remove key).2.hash = t.hash := by
  rw [remove_eq]; rfl

@[simp] theorem add_compare (t : HashTable K T size) (object : T) (key : K) (replace : Bool) :
    (t.add object key replace).2.compare = t.compare := by
  rw [add_eq]; split <;> rfl

@[simp] theorem add_hash (t : HashTable K T size) (object : T) (key : K) (replace : Bool) :
    (t.add object key replace).2.hash = t.hash := by
  rw [add_eq]; split <;> rfl

inductive Call (K T : Type) where
  | add (object : T) (key : K) (replace : Bool)
  | remove (key : K)

def call (t : HashTable K T size) : Call K T → Bool × HashTable K T size
  | .add object key replace => t.add object key replace
  | .remove key => t.remove key

def run (t : HashTable K T size) : List (Call K T) → List Bool × HashTable K T size
  | [] => ([], t)
  | c :: cs => ((t.call c).1 :: ((t.call c).2.run cs).1, ((t.call c).2.run cs).2)

@[simp] theorem call_compare (t : HashTable K T size) (c : Call K T) :
    (t.call c).2.compare = t.compare := by
  cases c <;> simp [call]

@[simp] theorem call_hash (t : HashTable K T size) (c : Call K T) :
    (t.call c).2.hash = t.hash := by
  cases c <;> simp [call]

end HashTable

end Bundy.Nsas
