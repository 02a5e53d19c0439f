import Bundy.Nsas.HashTable

/-!
The threads that share one `HashTable` (`nsas/hash_table.h`). Each slot is a mutex and a
list: `get` takes its slot's mutex in sharable mode, `add` and `remove` take it in
exclusive mode, and each call touches the slot of its key only. A thread makes its calls
one after another. A `get` scans its slot in one step, which it can take only while no
writer holds the mutex. An `add` or a `remove` takes the mutex, scans the slot and erases
the match it erases in one step; in a later step `add` pushes its object to the back, and
the call releases the mutex and returns. In between, the slot lacks the match an `add`
replaces: this is what a `get` must not see. Other threads move between any two steps.
Besides the table, the threads and the owner of each mutex, the state records the calls
completed so far with what they returned.
-/

namespace Bundy.Nsas

namespace HashTable

variable {K T : Type} {size : Nat}

def Call.key : Call K T → K
  | .add _ key _ => key
  | .remove key => key

inductive Op (K T : Type) where
  | get (key : K)
  | call (c : Call K T)

inductive Outcome (T : Type) where
  | found (object : Option T)
  | flag (ok : Bool)
  deriving DecidableEq

def exec (t : HashTable K T size) : Op K T → Outcome T × HashTable K T size
  | .get key => (.found (t.get key), t)
  | .call c => (.flag (t.call c).1, (t.call c).2)

def replay (t : HashTable K T size) : List (Op K T) → List (Outcome T) × HashTable K T size
  | [] => ([], t)
  | op :: ops => ((t.exec op).1 :: ((t.exec op).2.replay ops).1, ((t.exec op).2.replay ops).2)

theorem call_eq_setSlot (t : HashTable K T size) (c : Call K T) :
    (t.call c).2 = t.setSlot (t.hash c.key) ((t.call c).2.table (t.hash c.key)) := by
  cases c with
  | remove key => rw [call, remove_eq]; simp [setSlot, Call.key]
  | add object key replace =>
    simp only [call, Call.key, add_eq]
    split
    · exact (setSlot_self t _).symm
    · simp [setSlot]

theorem call_table_of_ne (t : HashTable K T size) (c : Call K T) {i : Fin size}
    (hi : i ≠ t.hash c.key) : (t.call c).2.table i = t.table i := by
  rw [call_eq_setSlot, setSlot_table, Function.update_noteq hi]

@[simp] theorem exec_compare (t : HashTable K T size) (op : Op K T) :
    (t.exec op).2.compare = t.compare := by
  cases op <;> simp [exec]

@[simp] theorem exec_hash (t : HashTable K T size) (op : Op K T) : (t.exec op).2.hash = t.hash := by
  cases op <;> simp [exec]

theorem replay_append (t : HashTable K T size) (xs ys : List (Op K T)) :
    t.replay (xs ++ ys) =
      ((t.replay xs).1 ++ ((t.replay xs).2.replay ys).1, ((t.replay xs).2.replay ys).2) := by
  induction xs generalizing t with
  | nil => rfl
  | cons x xs ih => simp [replay, ih]

theorem replay_concat (t : HashTable K T size) (ops : List (Op K T)) (op : Op K T) :
    t.replay (ops ++ [op]) =
      ((t.replay ops).1 ++ [((t.replay ops).2.exec op).1], ((t.replay ops).2.exec op).2) := by
  simp [replay_append, replay]

@[simp] theorem replay_hash (t : HashTable K T size) (ops : List (Op K T)) :
    (t.replay ops).2.hash = t.hash := by
  induction ops generalizing t with
  | nil => rfl
  | cons o ops ih => simp [replay, ih]

@[simp] theorem replay_compare (t : HashTable K T size) (ops : List (Op K T)) :
    (t.replay ops).2.compare = t.compare := by
  induction ops generalizing t with
  | nil => rfl
  | cons o ops ih => simp [replay, ih]

def Op.key : Op K T → K
  | .get key => key
  | .call c => c.key

theorem setSlot_comm (t : HashTable K T size) {i j : Fin size} (h : i ≠ j) (l m : List T) :
    (t.setSlot i l).setSlot j m = (t.setSlot j m).setSlot i l := by
  simp only [setSlot, Function.update_comm h]

theorem exec_eq_setSlot (t : HashTable K T size) (op : Op K T) :
    (t.exec op).2 = t.setSlot (t.hash op.key) ((t.exec op).2.table (t.hash op.key)) := by
  cases op with
  | get key => exact (setSlot_self t _).symm
  | call c => exact call_eq_setSlot t c

theorem exec_setSlot_of_ne (t : HashTable K T size) (op : Op K T) {i : Fin size} (l : List T)
    (hi : i ≠ t.hash op.key) :
    (t.setSlot i l).exec op = ((t.exec op).1, (t.exec op).2.setSlot i l) := by
  have hg : (t.setSlot i l).get op.key = t.get op.key := by rw [get_setSlot, if_neg (Ne.symm hi)]
  have ht : (t.setSlot i l).table (t.hash op.key) = t.table (t.hash op.key) := by
    rw [setSlot_table, Function.update_noteq (Ne.symm hi)]
  cases op with
  | get key =>
    simp only [Op.key] at hg
    simp only [exec, hg]
  | call c =>
    cases c with
    | remove key =>
      simp only [Op.key, Call.key] at hg ht hi
      simp only [exec, call, remove_eq, hg, setSlot_hash, setSlot_compare, ht,
        setSlot_comm _ hi]
    | add object key replace =>
      simp only [Op.key, Call.key] at hg ht hi
      simp only [exec, call, add_eq, hg, setSlot_hash, setSlot_compare, ht]
      split <;> simp only [setSlot_comm _ hi]

theorem exec_comm (t : HashTable K T size) {a b : Op K T} (h : t.hash a.key ≠ t.hash b.key) :
    ((t.exec a).2.exec b).1 = (t.exec b).1 ∧ ((t.exec b).2.exec a).1 = (t.exec a).1 ∧
      ((t.exec a).2.exec b).2 = ((t.exec b).2.exec a).2 := by
  have hab := exec_setSlot_of_ne t b ((t.exec a).2.table (t.hash a.key)) h
  have hba := exec_setSlot_of_ne t a ((t.exec b).2.table (t.hash b.key)) (Ne.symm h)
  rw [← exec_eq_setSlot] at hab hba
  rw [hab, hba]
  refine ⟨rfl, rfl, ?_⟩
  conv_lhs => rw [exec_eq_setSlot t b]
  conv_rhs => rw [exec_eq_setSlot t a]
  exact setSlot_comm t (Ne.symm h) _ _

/-- Each call reads and writes the slot of its key only, and two neighbouring calls on keys of
different slots, swapped, return the same as each returns alone on the table before them, in
swapped places, and leave the same table. -/
theorem replay_swap (t : HashTable K T size) (xs ys : List (Op K T)) {a b : Op K T}
    (h : t.hash a.key ≠ t.hash b.key) :
    (∀ (op : Op K T) (i : Fin size) (l : List T), i ≠ t.hash op.key →
      (t.setSlot i l).exec op = ((t.exec op).1, (t.exec op).2.setSlot i l)) ∧
    (t.replay (xs ++ b :: a :: ys)).2 = (t.replay (xs ++ a :: b :: ys)).2 ∧
      ∃ post, (t.replay (xs ++ a :: b :: ys)).1 =
          (t.replay xs).1 ++ ((t.replay xs).2.exec a).1 :: ((t.replay xs).2.exec b).1 :: post ∧
        (t.replay (xs ++ b :: a :: ys)).1 =
          (t.replay xs).1 ++ ((t.replay xs).2.exec b).1 :: ((t.replay xs).2.exec a).1 :: post := by
  have hu : (t.replay xs).2.hash a.key ≠ (t.replay xs).2.hash b.key := by rwa [replay_hash]
  obtain ⟨h1, h2, h3⟩ := exec_comm _ hu
  refine ⟨fun op i l hi => exec_setSlot_of_ne t op l hi, ?_⟩
  simp only [replay_append, replay, h1, h2, h3, true_and]
  exact ⟨_, rfl, rfl⟩

def parityTable : HashTable Nat Nat 2 :=
  new (fun o k => o == k) fun k => ⟨k % 2, Nat.mod_lt _ (by decide)⟩

theorem replay_swap_parityTable :
    let a : Op Nat Nat := .call (.add 1 1 false)
    let b : Op Nat Nat := .get 2
    let xs : List (Op Nat Nat) := [.call (.add 2 2 false)]
    let ys : List (Op Nat Nat) := [.get 1]
    parityTable.hash a.key ≠ parityTable.hash b.key ∧
      (∀ (op : Op Nat Nat) (i : Fin 2) (l : List Nat), i ≠ parityTable.hash op.key →
        (parityTable.setSlot i l).exec op =
          ((parityTable.exec op).1, (parityTable.exec op).2.setSlot i l)) ∧
      (parityTable.replay (xs ++ b :: a :: ys)).2 = (parityTable.replay (xs ++ a :: b :: ys)).2 ∧
      ∃ post, (parityTable.replay (xs ++ a :: b :: ys)).1 = (parityTable.replay xs).1 ++
          ((parityTable.replay xs).2.exec a).1 :: ((parityTable.replay xs).2.exec b).1 :: post ∧
        (parityTable.replay (xs ++ b :: a :: ys)).1 = (parityTable.replay xs).1 ++
          ((parityTable.replay xs).2.exec b).1 :: ((parityTable.replay xs).2.exec a).1 :: post :=
  ⟨by decide, replay_swap _ _ _ (by decide)⟩

/-- The part of `add` or `remove` up to its first change of the slot: the scan for a match of
the key, which `remove`, and `add` with `replace`, erase (`list_.erase(i)`). Whether a match
was found, and the slot after the scan. -/
def Call.search (compare : T → K → Bool) : Call K T → List T → Bool × List T
  | .add _ key replace, slot =>
    if slot.any (compare · key) then (true, if replace then slot.eraseP (compare · key) else slot)
    else (false, slot)
  | .remove key, slot =>
    if slot.any (compare · key) then (true, slot.eraseP (compare · key)) else (false, slot)

/-- The rest of the call: `add` pushes its object to the back of the slot unless it found a
match it may not replace, and the call returns its flag. -/
def Call.finish : Call K T → Bool → List T → Bool × List T
  | .add object _ replace, found, slot =>
    if found && !replace then (false, slot) else (true, slot ++ [object])
  | .remove _, found, slot => (found, slot)

/-- The scan leaves the slot as it was, or erases the first match of the key. -/
theorem search_snd (compare : T → K → Bool) (c : Call K T) (slot : List T) :
    (c.search compare slot).2 = slot ∨
      (c.search compare slot).2 = slot.eraseP (compare · c.key) := by
  cases c <;> simp only [Call.search, Call.key] <;> split_ifs <;> simp

theorem search_sublist (compare : T → K → Bool) (c : Call K T) (slot : List T) :
    (c.search compare slot).2.Sublist slot := by
  rcases search_snd compare c slot with h | h <;> rw [h]
  exact List.eraseP_sublist _

theorem call_eq_finish_search (t : HashTable K T size) (c : Call K T) :
    let r := c.search t.compare (t.table (t.hash c.key))
    t.call c = ((c.finish r.1 r.2).1, t.setSlot (t.hash c.key) (c.finish r.1 r.2).2) := by
  cases c with
  | remove key =>
    simp only [call, remove, Call.search, Call.finish, Call.key]
    split <;> simp [setSlot_self]
  | add object key replace =>
    simp only [call, add, Call.search, Call.finish, Call.key]
    split
    · cases replace <;> simp [setSlot_self]
    · simp

/-- A thread: the calls it has still to make, or the `add` or `remove` it is inside, holding its
slot's mutex, with whether its scan found a match, and the calls after it. -/
inductive Worker (K T : Type) where
  | idle (ops : List (Op K T))
  | locked (c : Call K T) (rest : List (Op K T)) (found : Bool)

def Worker.pending : Worker K T → List (Op K T)
  | .idle ops => ops
  | .locked c rest _ => .call c :: rest

def Worker.lockedSlot (hash : K → Fin size) : Worker K T → Option (Fin size)
  | .idle _ => none
  | .locked c _ _ => some (hash c.key)

structure Completed (K T : Type) where
  thread : Nat
  op : Op K T
  outcome : Outcome T

structure Sys (K T : Type) (size : Nat) where
  table : HashTable K T size
  workers : List (Worker K T)
  /-- The thread holding the slot's mutex in exclusive mode. -/
  owner : Fin size → Option Nat
  history : List (Completed K T)

namespace Sys

def init (t : HashTable K T size) (progs : List (List (Op K T))) : Sys K T size :=
  ⟨t, progs.map .idle, fun _ => none, []⟩

/-- `get`: the sharable lock, the scan of the slot and the release. -/
@[simps] def get (s : Sys K T size) (n : Nat) (key : K) (rest : List (Op K T)) : Sys K T size :=
  { s with
    workers := s.workers.set n (.idle rest)
    history := s.history ++ [⟨n, .get key, .found (s.table.get key)⟩] }

/-- `add` or `remove` takes its slot's mutex and scans the slot, erasing what it erases. -/
@[simps] def lock (s : Sys K T size) (n : Nat) (c : Call K T) (rest : List (Op K T)) :
    Sys K T size :=
  let index := s.table.hash c.key
  let r := c.search s.table.compare (s.table.table index)
  ⟨s.table.setSlot index r.2, s.workers.set n (.locked c rest r.1),
    Function.update s.owner index (some n), s.history⟩

/-- The call pushes its object back where it does, releases the mutex and returns. -/
@[simps] def unlock (s : Sys K T size) (n : Nat) (c : Call K T) (rest : List (Op K T))
    (found : Bool) : Sys K T size :=
  let index := s.table.hash c.key
  let r := c.finish found (s.table.table index)
  ⟨s.table.setSlot index r.2, s.workers.set n (.idle rest),
    Function.update s.owner index none, s.history ++ [⟨n, .call c, .flag r.1⟩]⟩

/-- The next step of thread `n`, or `none` when it has finished or waits for a mutex. -/
def step (s : Sys K T size) (n : Nat) : Option (Sys K T size) :=
  match s.workers[n]? with
  | some (.idle (.get key :: rest)) =>
    if s.owner (s.table.hash key) = none then some (s.get n key rest) else none
  | some (.idle (.call c :: rest)) =>
    if s.owner (s.table.hash c.key) = none then some (s.lock n c rest) else none
  | some (.locked c rest found) => some (s.unlock n c rest found)
  | _ => none

def run (s : Sys K T size) : List Nat → Option (Sys K T size)
  | [] => some s
  | n :: ns => (s.step n).bind (·.run ns)

theorem step_eq_some {s s' : Sys K T size} {n : Nat} (h : s.step n = some s') :
    (∃ key rest, s.workers[n]? = some (.idle (.get key :: rest)) ∧
      s.owner (s.table.hash key) = none ∧ s' = s.get n key rest) ∨
    (∃ c rest, s.workers[n]? = some (.idle (.call c :: rest)) ∧
      s.owner (s.table.hash c.key) = none ∧ s' = s.lock n c rest) ∨
    (∃ c rest found, s.workers[n]? = some (.locked c rest found) ∧
      s' = s.unlock n c rest found) := by
  unfold step at h
  split at h
  · next key rest hw =>
    split at h
    · exact .inl ⟨key, rest, hw, ‹_›, (Option.some.inj h).symm⟩
    · cases h
  · next c rest hw =>
    split at h
    · exact .inr (.inl ⟨c, rest, hw, ‹_›, (Option.some.inj h).symm⟩)
    · cases h
  · next c rest found hw => exact .inr (.inr ⟨c, rest, found, hw, (Option.some.inj h).symm⟩)
  · cases h

theorem run_cons {s s' : Sys K T size} {n : Nat} {ns : List Nat}
    (h : s.run (n :: ns) = some s') : ∃ s₁, s.step n = some s₁ ∧ s₁.run ns = some s' := by
  simp only [run, Option.bind_eq_some] at h
  exact h

end Sys

end HashTable

end Bundy.Nsas
