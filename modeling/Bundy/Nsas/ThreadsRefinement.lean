import Bundy.Nsas.Linearizable

namespace Bundy.Nsas

variable {K T : Type} {size : Nat} [Setoid K]

def HashTable.Op.KeyedBy (keyOf : T → K) : HashTable.Op K T → Prop
  | .get _ => True
  | .call c => c.KeyedBy keyOf

namespace KeyMap

variable [DecidableRel fun a b : K => a ≈ b]

def exec (M : KeyMap K T) : HashTable.Op K T → HashTable.Outcome T × KeyMap K T
  | .get key => (.found (M.get key), M)
  | .call c => (.flag (M.call c).1, (M.call c).2)

def replay (M : KeyMap K T) : List (HashTable.Op K T) → List (HashTable.Outcome T) × KeyMap K T
  | [] => ([], M)
  | op :: ops => ((M.exec op).1 :: ((M.exec op).2.replay ops).1, ((M.exec op).2.replay ops).2)

end KeyMap

namespace HashTable

variable {keyOf : T → K}

theorem Inv.of_sublist {t u : HashTable K T size} (hI : t.Inv keyOf) (hh : u.hash = t.hash)
    (hs : ∀ i, (u.table i).Sublist (t.table i)) : u.Inv keyOf :=
  ⟨fun i o ho => hh ▸ hI.slot_hash i o ((hs i).subset ho),
    fun i => (hI.slot_distinct i).sublist (hs i)⟩

theorem search_find?_of_not_eqv {compare : T → K → Bool}
    (hc : ∀ o k, compare o k = true ↔ keyOf o ≈ k) (c : Call K T) (slot : List T) {k : K}
    (hk : ¬k ≈ c.key) : (c.search compare slot).2.find? (compare · k) = slot.find? (compare · k) := by
  rcases search_snd compare c slot with h | h <;> rw [h]
  exact find?_eraseP_of_not_eqv hc slot hk

namespace Sys

variable {s : Sys K T size} {t0 : HashTable K T size} {progs : List (List (Op K T))}

theorem Inv.get_eq_of_not_held (hI : s.Inv t0 progs) (hC : Contract keyOf t0.compare t0.hash)
    {k : K} (hk : ∀ (n : Nat) c rest found, s.workers[n]? = some (Worker.locked c rest found) →
      ¬k ≈ c.key) :
    s.table.get k = (t0.replay s.ops).2.get k := by
  cases ho : s.owner (s.table.hash k) with
  | none => exact hI.get_eq ho
  | some n =>
    obtain ⟨c, rest, found, hw, he⟩ := lockedBy_eq_some.mp ((hI.owner_iff _ n).mp ho)
    rw [hI.hash] at he
    rw [HashTable.get, HashTable.get, replay_compare, replay_hash, hI.compare, hI.hash, ← he,
      hI.table_of_locked hw,
      search_find?_of_not_eqv hC.compare_iff c _ (hk n c rest found hw)]

end Sys

variable [DecidableRel fun a b : K => a ≈ b]

theorem exec_refines {t : HashTable K T size} {M : KeyMap K T}
    (hC : Contract keyOf t.compare t.hash) (hI : t.Inv keyOf) (hR : ∀ k, t.get k = M.get k)
    {op : Op K T} (hop : op.KeyedBy keyOf) :
    (t.exec op).1 = (M.exec op).1 ∧ (t.exec op).2.Inv keyOf ∧
      ∀ k, (t.exec op).2.get k = (M.exec op).2.get k := by
  cases op with
  | get key => exact ⟨by rw [exec, KeyMap.exec, hR], hI, hR⟩
  | call c =>
    obtain ⟨h1, h2, h3⟩ := call_refines hC hI hR hop
    exact ⟨by rw [exec, KeyMap.exec, h1], h2, h3⟩

theorem replay_refines {t : HashTable K T size} {M : KeyMap K T}
    (hC : Contract keyOf t.compare t.hash) (hI : t.Inv keyOf) (hR : ∀ k, t.get k = M.get k)
    (ops : List (Op K T)) (hops : ∀ op ∈ ops, op.KeyedBy keyOf) :
    (t.replay ops).1 = (M.replay ops).1 ∧ (t.replay ops).2.Inv keyOf ∧
      ∀ k, (t.replay ops).2.get k = (M.replay ops).2.get k := by
  induction ops generalizing t M with
  | nil => exact ⟨rfl, hI, hR⟩
  | cons op ops ih =>
    obtain ⟨h1, hI', hR'⟩ := exec_refines hC hI hR (hops op (List.mem_cons_self _ _))
    obtain ⟨h2, hI'', hR''⟩ := ih (by simpa [exec_hash, exec_compare] using hC) hI' hR'
      fun op' hop' => hops op' (List.mem_cons_of_mem _ hop')
    exact ⟨by simp only [replay, KeyMap.replay, h1, h2], hI'', hR''⟩

namespace Sys

variable {s : Sys K T size}

/-- Every run of the threads on a new table refines the finite map: each completed call
returned what it returns on the map, with the calls replayed in the order they completed. The
table keeps its invariant and answers `get` as the map they leave for every key no thread is
inside an `add` or a `remove` on, which is every key once no thread is. -/
theorem run_refines_keyMap (keyOf : T → K) (compare : T → K → Bool) (hash : K → Fin size)
    (hC : Contract keyOf compare hash) (progs : List (List (Op K T)))
    (hprogs : ∀ p ∈ progs, ∀ op ∈ p, op.KeyedBy keyOf) (sched : List Nat)
    (h : (init (new compare hash) progs).run sched = some s) :
    s.outcomes = ((∅ : KeyMap K T).replay s.ops).1 ∧ s.table.Inv keyOf ∧
      ∀ k, (∀ (n : Nat) c rest found, s.workers[n]? = some (Worker.locked c rest found) →
        ¬k ≈ c.key) → s.table.get k = ((∅ : KeyMap K T).replay s.ops).2.get k := by
  have hI := (inv_init _ progs).run h
  have hops : ∀ op ∈ s.ops, op.KeyedBy keyOf := by
    intro op hop
    obtain ⟨e, he, rfl⟩ := List.mem_map.mp hop
    obtain ⟨p, hp, hep⟩ := hI.mem_progs he
    exact hprogs p hp e.op hep
  have hR (k : K) : (new compare hash).get k = (∅ : KeyMap K T).get k := by
    simp [HashTable.get, KeyMap.get, Finmap.lookup_empty]
  obtain ⟨h1, hInv, hget⟩ := replay_refines hC (inv_new compare hash) hR s.ops hops
  refine ⟨hI.outcomes ▸ h1, hInv.of_sublist (by rw [hI.hash, replay_hash]) hI.slot_sublist,
    fun k hk => ?_⟩
  rw [hI.get_eq_of_not_held hC hk, hget]

end Sys

end HashTable

section Caseless

attribute [local instance] caseless caselessDecidable

theorem run_refines_keyMap_racingAdds :
    ∃ s, (HashTable.Sys.init (HashTable.new caselessCompare caselessHash)
        HashTable.Sys.racingAdds).run [0, 0, 1, 1, 0, 1, 1] = some s ∧
      s.outcomes = ((∅ : KeyMap (List Char) (List Char)).replay s.ops).1 ∧ s.table.Inv id ∧
      ∀ k, (∀ (n : Nat) c rest found,
          s.workers[n]? = some (HashTable.Worker.locked c rest found) → ¬k ≈ c.key) →
        s.table.get k = ((∅ : KeyMap (List Char) (List Char)).replay s.ops).2.get k := by
  refine ⟨_, rfl, HashTable.Sys.run_refines_keyMap id _ _ contract_caseless
    HashTable.Sys.racingAdds ?_ [0, 0, 1, 1, 0, 1, 1] rfl⟩
  simp only [HashTable.Sys.racingAdds, List.mem_cons, List.mem_singleton, List.not_mem_nil,
    or_false, forall_eq_or_imp, forall_eq]
  simp only [HashTable.Op.KeyedBy, HashTable.Call.KeyedBy, id]
  decide

end Caseless

end Bundy.Nsas
