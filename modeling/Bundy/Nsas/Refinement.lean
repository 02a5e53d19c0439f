import Bundy.Nsas.HashTable
import Mathlib.Data.Finmap

namespace Bundy.Nsas

variable {K T : Type} {size : Nat} [s : Setoid K]

/-- What the compare object and the hash must keep: `compare` decides whether an object's own key
is equivalent to a key, and equivalent keys hash alike. -/
structure Contract (keyOf : T → K) (compare : T → K → Bool) (hash : K → Fin size) : Prop where
  compare_iff : ∀ o k, compare o k = true ↔ keyOf o ≈ k
  hash_eqv : ∀ k k', k ≈ k' → hash k = hash k'

namespace HashTable

structure Inv (keyOf : T → K) (t : HashTable K T size) : Prop where
  slot_hash : ∀ i, ∀ o ∈ t.table i, t.hash (keyOf o) = i
  slot_distinct : ∀ i, (t.table i).Pairwise (fun a b => ¬keyOf a ≈ keyOf b)

end HashTable

section Slot

variable {keyOf : T → K} {compare : T → K → Bool}

theorem not_eqv_of_mem_eraseP (hc : ∀ o k, compare o k = true ↔ keyOf o ≈ k) {l : List T}
    {k : K} (hl : l.Pairwise (fun a b => ¬keyOf a ≈ keyOf b)) :
    ∀ x ∈ l.eraseP (compare · k), ¬keyOf x ≈ k := by
  induction l with
  | nil => simp
  | cons a l ih =>
    rw [List.pairwise_cons] at hl
    by_cases ha : compare a k = true
    · simp only [List.eraseP_cons, ha, cond_true]
      exact fun x hx hxk => hl.1 x hx (Setoid.trans ((hc a k).mp ha) (Setoid.symm hxk))
    · simp only [List.eraseP_cons, ha, cond_false]
      rintro x (_ | ⟨_, hx⟩)
      · exact fun h => ha ((hc a k).mpr h)
      · exact ih hl.2 x hx

theorem find?_eraseP_of_eqv (hc : ∀ o k, compare o k = true ↔ keyOf o ≈ k) {l : List T}
    (hl : l.Pairwise (fun a b => ¬keyOf a ≈ keyOf b)) {k k' : K} (hk : k' ≈ k) :
    (l.eraseP (compare · k)).find? (compare · k') = none :=
  List.find?_eq_none.mpr fun x hx hxk =>
    not_eqv_of_mem_eraseP hc hl x hx (Setoid.trans ((hc x k').mp hxk) hk)

theorem find?_eraseP_of_not_eqv (hc : ∀ o k, compare o k = true ↔ keyOf o ≈ k) (l : List T)
    {k k' : K} (hk : ¬k' ≈ k) :
    (l.eraseP (compare · k)).find? (compare · k') = l.find? (compare · k') := by
  induction l with
  | nil => rfl
  | cons a l ih =>
    by_cases ha : compare a k = true
    · have ha' : compare a k' = false := by
        rw [← Bool.not_eq_true, hc]
        exact fun h => hk (Setoid.trans (Setoid.symm h) ((hc a k).mp ha))
      simp [List.eraseP_cons, ha, ha']
    · by_cases ha' : compare a k' = true <;> simp [List.eraseP_cons, ha, ha', ih]

end Slot

namespace HashTable

variable {keyOf : T → K} {t : HashTable K T size}

theorem Inv.setSlot (hI : t.Inv keyOf) {i : Fin size} {l : List T}
    (hhash : ∀ o ∈ l, t.hash (keyOf o) = i) (hl : l.Pairwise (fun a b => ¬keyOf a ≈ keyOf b)) :
    (t.setSlot i l).Inv keyOf := by
  constructor
  · intro j o ho
    by_cases hj : j = i
    · subst hj; simp_all
    · simp only [setSlot_table, Function.update_noteq hj] at ho
      exact hI.slot_hash j o ho
  · intro j
    by_cases hj : j = i
    · subst hj; simpa using hl
    · simpa [Function.update_noteq hj] using hI.slot_distinct j

theorem Inv.remove (hI : t.Inv keyOf) (k : K) : (t.remove k).2.Inv keyOf := by
  rw [remove_eq]
  exact hI.setSlot (fun o ho => hI.slot_hash _ o (List.mem_of_mem_eraseP ho))
    ((hI.slot_distinct _).eraseP _)

theorem Inv.add (hC : Contract keyOf t.compare t.hash) (hI : t.Inv keyOf) {o : T} {k : K}
    (hok : keyOf o ≈ k) (replace : Bool) : (t.add o k replace).2.Inv keyOf := by
  rw [add_eq]
  split
  · exact hI
  refine hI.setSlot ?_ ?_
  · intro x hx
    rcases List.mem_append.mp hx with hx | hx
    · exact hI.slot_hash _ x (List.mem_of_mem_eraseP hx)
    · rw [List.mem_singleton.mp hx]; exact hC.hash_eqv _ _ hok
  · refine List.pairwise_append.mpr ⟨(hI.slot_distinct _).eraseP _, by simp, ?_⟩
    intro a ha b hb hab
    rw [List.mem_singleton.mp hb] at hab
    exact not_eqv_of_mem_eraseP hC.compare_iff (hI.slot_distinct _) a ha
      (Setoid.trans hab hok)

def Call.KeyedBy (keyOf : T → K) : Call K T → Prop
  | .add object key _ => keyOf object ≈ key
  | .remove _ => True

variable [DecidableRel fun a b : K => a ≈ b]

theorem get_remove (hC : Contract keyOf t.compare t.hash) (hI : t.Inv keyOf) (k k' : K) :
    (t.remove k).2.get k' = if k' ≈ k then none else t.get k' := by
  rw [remove_eq, get_setSlot]
  by_cases hk : k' ≈ k
  · simp only [hC.hash_eqv _ _ hk, hk, if_true,
      find?_eraseP_of_eqv hC.compare_iff (hI.slot_distinct _) hk]
  · simp only [hk, if_false]
    split
    · next hh => rw [find?_eraseP_of_not_eqv hC.compare_iff _ hk, ← hh]; rfl
    · rfl

theorem get_add (hC : Contract keyOf t.compare t.hash) (hI : t.Inv keyOf) {o : T} {k : K}
    {replace : Bool} (hok : keyOf o ≈ k) (hadd : (t.add o k replace).1 = true) (k' : K) :
    (t.add o k replace).2.get k' = if k' ≈ k then some o else t.get k' := by
  rw [add_eq] at hadd ⊢
  split at hadd
  · cases hadd
  rename_i hcond
  rw [if_neg hcond, get_setSlot, List.find?_append]
  by_cases hk : k' ≈ k
  · have ho : t.compare o k' = true := (hC.compare_iff o k').mpr (Setoid.trans hok (Setoid.symm hk))
    simp [hC.hash_eqv _ _ hk, hk, ho,
      find?_eraseP_of_eqv hC.compare_iff (hI.slot_distinct (t.hash k)) hk]
  · have ho : t.compare o k' = false := by
      rw [← Bool.not_eq_true, hC.compare_iff]
      exact fun h => hk (Setoid.trans (Setoid.symm h) hok)
    simp only [hk, if_false]
    split
    · next hh =>
      rw [find?_eraseP_of_not_eqv hC.compare_iff _ hk]
      simp [ho, get, hh]
    · rfl

end HashTable

/-- A finite map from key classes to objects: what the table stands for. -/
abbrev KeyMap (K T : Type) [s : Setoid K] := Finmap fun _ : Quotient s => T

namespace KeyMap

variable [DecidableRel fun a b : K => a ≈ b]

def get (M : KeyMap K T) (key : K) : Option T := M.lookup ⟦key⟧

def remove (M : KeyMap K T) (key : K) : Bool × KeyMap K T :=
  if ⟦key⟧ ∈ M then (true, M.erase ⟦key⟧) else (false, M)

def add (M : KeyMap K T) (object : T) (key : K) (replace : Bool) : Bool × KeyMap K T :=
  if replace then (true, M.insert ⟦key⟧ object)
  else if ⟦key⟧ ∈ M then (false, M) else (true, M.insert ⟦key⟧ object)

def call (M : KeyMap K T) : HashTable.Call K T → Bool × KeyMap K T
  | .add object key replace => M.add object key replace
  | .remove key => M.remove key

def run (M : KeyMap K T) : List (HashTable.Call K T) → List Bool × KeyMap K T
  | [] => ([], M)
  | c :: cs => ((M.call c).1 :: ((M.call c).2.run cs).1, ((M.call c).2.run cs).2)

theorem mem_iff_get_isSome (M : KeyMap K T) (k : K) : ⟦k⟧ ∈ M ↔ (M.get k).isSome = true :=
  Finmap.lookup_isSome.symm

theorem get_congr (M : KeyMap K T) {k k' : K} (h : k' ≈ k) : M.get k' = M.get k := by
  unfold get
  rw [Quotient.sound h]

theorem get_insert (M : KeyMap K T) (o : T) (k k' : K) :
    get (M.insert ⟦k⟧ o) k' = if k' ≈ k then some o else M.get k' := by
  unfold get
  split
  · next h => rw [Quotient.sound h, Finmap.lookup_insert]
  · next h => exact Finmap.lookup_insert_of_ne _ fun he => h (Quotient.exact he)

theorem get_erase (M : KeyMap K T) (k k' : K) :
    get (M.erase ⟦k⟧) k' = if k' ≈ k then none else M.get k' := by
  unfold get
  split
  · next h => rw [Quotient.sound h, Finmap.lookup_erase]
  · next h => exact Finmap.lookup_erase_ne fun he => h (Quotient.exact he)

theorem remove_fst (M : KeyMap K T) (k : K) : (M.remove k).1 = (M.get k).isSome := by
  unfold remove
  split <;> simp_all [mem_iff_get_isSome]

theorem get_remove (M : KeyMap K T) (k k' : K) :
    (M.remove k).2.get k' = if k' ≈ k then none else M.get k' := by
  unfold remove
  split
  · exact get_erase M k k'
  · next h =>
    split
    · next hk => simpa [get_congr M hk, mem_iff_get_isSome] using h
    · rfl

theorem add_fst (M : KeyMap K T) (o : T) (k : K) (replace : Bool) :
    (M.add o k replace).1 = !((M.get k).isSome && !replace) := by
  unfold add
  cases replace <;> by_cases h : ⟦k⟧ ∈ M <;> simp_all [mem_iff_get_isSome]

theorem add_of_fst_false {M : KeyMap K T} {o : T} {k : K} {replace : Bool}
    (h : (M.add o k replace).1 = false) : (M.add o k replace).2 = M := by
  unfold add at h ⊢
  cases replace <;> by_cases hk : ⟦k⟧ ∈ M <;> simp_all

theorem get_add {M : KeyMap K T} {o : T} {k : K} {replace : Bool}
    (h : (M.add o k replace).1 = true) (k' : K) :
    (M.add o k replace).2.get k' = if k' ≈ k then some o else M.get k' := by
  unfold add at h ⊢
  cases replace <;> by_cases hk : ⟦k⟧ ∈ M <;> simp_all [get_insert]

end KeyMap

namespace HashTable

variable {keyOf : T → K}

theorem inv_new (compare : T → K → Bool) (hash : K → Fin size) : (new compare hash).Inv keyOf :=
  ⟨by simp, by simp⟩

variable [DecidableRel fun a b : K => a ≈ b]

theorem call_refines {t : HashTable K T size} {M : KeyMap K T}
    (hC : Contract keyOf t.compare t.hash) (hI : t.Inv keyOf) (hR : ∀ k, t.get k = M.get k)
    {c : Call K T} (hc : c.KeyedBy keyOf) :
    (t.call c).1 = (M.call c).1 ∧ (t.call c).2.Inv keyOf ∧
      ∀ k, (t.call c).2.get k = (M.call c).2.get k := by
  cases c with
  | remove k =>
    refine ⟨by simp only [call, KeyMap.call, remove_fst, KeyMap.remove_fst, hR], hI.remove k,
      fun k' => ?_⟩
    simp only [call, KeyMap.call, get_remove hC hI, KeyMap.get_remove, hR]
  | add o k replace =>
    have hfst : (t.add o k replace).1 = (M.add o k replace).1 := by
      rw [add_fst, KeyMap.add_fst, hR]
    refine ⟨hfst, hI.add hC hc replace, fun k' => ?_⟩
    simp only [call, KeyMap.call]
    cases h : (t.add o k replace).1
    · rw [add_of_fst_false h, KeyMap.add_of_fst_false (hfst ▸ h), hR]
    · rw [get_add hC hI hc h, KeyMap.get_add (hfst ▸ h), hR]

theorem run_refines {t : HashTable K T size} {M : KeyMap K T}
    (hC : Contract keyOf t.compare t.hash) (hI : t.Inv keyOf) (hR : ∀ k, t.get k = M.get k)
    (calls : List (Call K T)) (hcalls : ∀ c ∈ calls, c.KeyedBy keyOf) :
    (t.run calls).1 = (M.run calls).1 ∧ (t.run calls).2.Inv keyOf ∧
      ∀ k, (t.run calls).2.get k = (M.run calls).2.get k := by
  induction calls generalizing t M with
  | nil => exact ⟨rfl, hI, hR⟩
  | cons c cs ih =>
    obtain ⟨h1, hI', hR'⟩ := call_refines hC hI hR (hcalls c (List.mem_cons_self _ _))
    obtain ⟨h2, hI'', hR''⟩ := ih (by simpa using hC) hI' hR'
      fun c' hc' => hcalls c' (List.mem_cons_of_mem _ hc')
    exact ⟨by simp only [run, KeyMap.run, h1, h2], hI'', hR''⟩

theorem new_run_refines_keyMap (keyOf : T → K) (compare : T → K → Bool) (hash : K → Fin size)
    (hC : Contract keyOf compare hash) (calls : List (Call K T))
    (hcalls : ∀ c ∈ calls, c.KeyedBy keyOf) :
    ((new compare hash).run calls).1 = ((∅ : KeyMap K T).run calls).1 ∧
      ((new compare hash).run calls).2.Inv keyOf ∧
      ∀ k, ((new compare hash).run calls).2.get k = ((∅ : KeyMap K T).run calls).2.get k :=
  run_refines hC (inv_new compare hash) (fun k => by simp [get, KeyMap.get, Finmap.lookup_empty])
    calls hcalls

end HashTable

section Caseless

def caseFold (key : List Char) : List Char := key.map Char.toLower

def caseless : Setoid (List Char) :=
  ⟨fun a b => caseFold a = caseFold b, ⟨fun _ => rfl, Eq.symm, Eq.trans⟩⟩

attribute [local instance] caseless

def caselessDecidable : DecidableRel fun a b : List Char => a ≈ b := fun a b =>
  inferInstanceAs (Decidable (caseFold a = caseFold b))

attribute [local instance] caselessDecidable

def caselessCompare (object key : List Char) : Bool := caseFold object == caseFold key

def caselessHash (key : List Char) : Fin 4 := ⟨key.length % 4, Nat.mod_lt _ (by decide)⟩

theorem contract_caseless : Contract id caselessCompare caselessHash := by
  refine ⟨fun o k => by simp only [caselessCompare, beq_iff_eq, id]; rfl, fun k k' h => ?_⟩
  have hl : k.length = k'.length := by
    simpa only [caseFold, List.length_map] using
      congrArg List.length (show caseFold k = caseFold k' from h)
  simp only [caselessHash, hl]

theorem new_run_refines_keyMap_caseless :
    Contract id caselessCompare caselessHash ∧
      let calls : List (HashTable.Call (List Char) (List Char)) :=
        [.add "Example.org".toList "example.org".toList false,
          .add "EXAMPLE.ORG".toList "Example.ORG".toList false,
          .add "isc.org".toList "ISC.org".toList true, .remove "example.ORG".toList]
      ((HashTable.new caselessCompare caselessHash).run calls).1 =
          ((∅ : KeyMap (List Char) (List Char)).run calls).1 ∧
        ((HashTable.new caselessCompare caselessHash).run calls).2.Inv id ∧
        ∀ k, ((HashTable.new caselessCompare caselessHash).run calls).2.get k =
          ((∅ : KeyMap (List Char) (List Char)).run calls).2.get k := by
  refine ⟨contract_caseless,
    HashTable.new_run_refines_keyMap id _ caselessHash contract_caseless _ ?_⟩
  simp only [List.mem_cons, List.mem_singleton, List.not_mem_nil, or_false]
  rintro c (rfl | rfl | rfl | rfl) <;> simp only [HashTable.Call.KeyedBy, id] <;> decide

end Caseless

end Bundy.Nsas
