import Bundy.Nsas.Threads
import Bundy.Nsas.Refinement
import Mathlib.Algebra.Order.Ring.Nat

namespace Bundy.Nsas

theorem getElem?_set_of_getElem? {α : Type} {l : List α} {n : Nat} {a : α} (h : l[n]? = some a)
    (b : α) (m : Nat) : (l.set n b)[m]? = if n = m then some b else l[m]? := by
  rw [List.getElem?_set, if_pos (List.getElem?_eq_some_iff.1 h).1]

theorem getElem?_set_eq_some {α : Type} {l : List α} {n m : Nat} {a b v : α} (h : l[n]? = some a)
    (hv : (l.set n b)[m]? = some v) : (n = m ∧ b = v) ∨ (n ≠ m ∧ l[m]? = some v) := by
  rw [getElem?_set_of_getElem? h] at hv
  split at hv
  · exact .inl ⟨‹_›, Option.some.inj hv⟩
  · exact .inr ⟨‹_›, hv⟩

namespace HashTable

variable {K T : Type} {size : Nat}

namespace Sys

def ops (s : Sys K T size) : List (Op K T) := s.history.map Completed.op

def outcomes (s : Sys K T size) : List (Outcome T) := s.history.map Completed.outcome

@[simp] theorem lock_ops (s : Sys K T size) (n : Nat) (c : Call K T) (rest : List (Op K T)) :
    (s.lock n c rest).ops = s.ops := rfl

def doneBy (s : Sys K T size) (n : Nat) : List (Op K T) :=
  (s.history.filter (·.thread == n)).map Completed.op

def lockedBy (s : Sys K T size) (n : Nat) : Option (Fin size) :=
  (s.workers[n]?).bind (·.lockedSlot s.table.hash)

theorem lockedBy_of_locked {s : Sys K T size} {n : Nat} {c : Call K T} {rest : List (Op K T)}
    {found : Bool} (hw : s.workers[n]? = some (.locked c rest found)) :
    s.lockedBy n = some (s.table.hash c.key) := by
  simp [lockedBy, hw, Worker.lockedSlot]

theorem lockedBy_of_idle {s : Sys K T size} {n : Nat} {ops : List (Op K T)}
    (hw : s.workers[n]? = some (.idle ops)) : s.lockedBy n = none := by
  simp [lockedBy, hw, Worker.lockedSlot]

theorem lockedBy_eq_some {s : Sys K T size} {n : Nat} {i : Fin size} :
    s.lockedBy n = some i ↔
      ∃ c rest found, s.workers[n]? = some (.locked c rest found) ∧ s.table.hash c.key = i := by
  constructor
  · intro h
    obtain ⟨w, hw, hl⟩ := Option.bind_eq_some.mp h
    cases w with
    | idle ops => cases hl
    | locked c rest found => exact ⟨c, rest, found, hw, Option.some.inj hl⟩
  · rintro ⟨c, rest, found, hw, rfl⟩
    exact lockedBy_of_locked hw

variable (t0 : HashTable K T size) (progs : List (List (Op K T)))

/-- The table a run leaves is the table the completed calls leave when replayed, except in the
slots whose mutex a writer holds: there it is what the writer's scan left of that slot. -/
structure Inv (s : Sys K T size) : Prop where
  outcomes : (t0.replay s.ops).1 = s.outcomes
  compare : s.table.compare = t0.compare
  hash : s.table.hash = t0.hash
  free_slot : ∀ i, s.owner i = none → s.table.table i = (t0.replay s.ops).2.table i
  held_slot : ∀ (n : Nat) c rest found, s.workers[n]? = some (Worker.locked c rest found) →
    c.search t0.compare ((t0.replay s.ops).2.table (t0.hash c.key)) =
      (found, s.table.table (t0.hash c.key))
  length : s.workers.length = progs.length
  program : ∀ (n : Nat) w, s.workers[n]? = some w → progs[n]? = some (s.doneBy n ++ w.pending)
  thread_lt : ∀ e ∈ s.history, e.thread < progs.length
  owner_iff : ∀ i n, s.owner i = some n ↔ s.lockedBy n = some i

theorem inv_init : (init t0 progs).Inv t0 progs where
  outcomes := rfl
  compare := rfl
  hash := rfl
  free_slot _ _ := rfl
  held_slot n c rest found hw := by simp [init] at hw
  length := List.length_map _ _
  program n w hw := by
    rw [init, List.getElem?_map, Option.map_eq_some'] at hw
    obtain ⟨p, hp, rfl⟩ := hw
    simpa [doneBy, init, Worker.pending] using hp
  thread_lt e he := by simp [init] at he
  owner_iff i n := by
    simp only [init, lockedBy, List.getElem?_map, reduceCtorEq, false_iff]
    cases progs[n]? <;> simp [Worker.lockedSlot]

variable {t0 progs} {s : Sys K T size} {n : Nat}

section Frame

theorem ops_snoc (t0 : HashTable K T size) (s' : Sys K T size) {m : Nat} {op : Op K T}
    {o : Outcome T} (h : s'.history = s.history ++ [⟨m, op, o⟩]) :
    t0.replay s'.ops = ((t0.replay s.ops).1 ++ [((t0.replay s.ops).2.exec op).1],
      ((t0.replay s.ops).2.exec op).2) ∧ s'.outcomes = s.outcomes ++ [o] := by
  simp only [ops, outcomes, h, List.map_append, List.map_cons, List.map_nil, replay_concat,
    and_self]

theorem doneBy_snoc (s' : Sys K T size) {e : Completed K T} (h : s'.history = s.history ++ [e])
    (m : Nat) :
    s'.doneBy m = if e.thread = m then s.doneBy m ++ [e.op] else s.doneBy m := by
  by_cases he : e.thread = m <;> simp [doneBy, h, he]

theorem thread_lt_snoc (s' : Sys K T size) (hI : s.Inv t0 progs) {w : Worker K T}
    (hw : s.workers[n]? = some w) {e : Completed K T} (h : s'.history = s.history ++ [e])
    (he : e.thread = n) :
    ∀ x ∈ s'.history, x.thread < progs.length := by
  rw [h]
  intro x hx
  rcases List.mem_append.mp hx with hx | hx
  · exact hI.thread_lt x hx
  · rw [List.mem_singleton.mp hx, he, ← hI.length]
    exact (List.getElem?_eq_some_iff.1 hw).1

theorem lockedBy_set (s' : Sys K T size) {w w' : Worker K T} (hw : s.workers[n]? = some w)
    (hws : s'.workers = s.workers.set n w') (hh : s'.table.hash = s.table.hash) (m : Nat) :
    s'.lockedBy m = if n = m then w'.lockedSlot s.table.hash else s.lockedBy m := by
  rw [lockedBy, hws, hh, getElem?_set_of_getElem? hw]
  split <;> rfl

theorem program_set (s' : Sys K T size) (hI : s.Inv t0 progs) {w w' : Worker K T}
    (hw : s.workers[n]? = some w) (hws : s'.workers = s.workers.set n w')
    (hdone : ∀ m, n ≠ m → s'.doneBy m = s.doneBy m)
    (hn : s'.doneBy n ++ w'.pending = s.doneBy n ++ w.pending) :
    ∀ m v, s'.workers[m]? = some v → progs[m]? = some (s'.doneBy m ++ v.pending) := by
  intro m v hv
  rw [hws] at hv
  rcases getElem?_set_eq_some hw hv with ⟨rfl, rfl⟩ | ⟨hm, hv⟩
  · rw [hn]; exact hI.program n w hw
  · rw [hdone m hm]; exact hI.program m v hv

theorem Inv.owner_of_locked (hI : s.Inv t0 progs) {c : Call K T} {rest : List (Op K T)}
    {found : Bool} (hw : s.workers[n]? = some (.locked c rest found)) :
    s.owner (s.table.hash c.key) = some n :=
  (hI.owner_iff _ _).mpr (lockedBy_of_locked hw)

theorem Inv.hash_ne_of_locked (hI : s.Inv t0 progs) {c c' : Call K T}
    {rest rest' : List (Op K T)} {found found' : Bool} {m : Nat}
    (hw : s.workers[n]? = some (.locked c rest found))
    (hm : s.workers[m]? = some (.locked c' rest' found')) (hnm : n ≠ m) :
    s.table.hash c'.key ≠ s.table.hash c.key := fun he =>
  hnm (Option.some.inj ((hI.owner_of_locked hw).symm.trans (he ▸ hI.owner_of_locked hm)))

theorem Inv.table_of_locked (hI : s.Inv t0 progs) {c : Call K T} {rest : List (Op K T)}
    {found : Bool} (hw : s.workers[n]? = some (.locked c rest found)) :
    s.table.table (t0.hash c.key) =
      (c.search t0.compare ((t0.replay s.ops).2.table (t0.hash c.key))).2 := by
  rw [hI.held_slot n c rest found hw]

theorem Inv.slot_sublist (hI : s.Inv t0 progs) (i : Fin size) :
    (s.table.table i).Sublist ((t0.replay s.ops).2.table i) := by
  cases ho : s.owner i with
  | none => exact (hI.free_slot i ho).symm ▸ List.Sublist.refl _
  | some n =>
    obtain ⟨c, rest, found, hw, rfl⟩ := lockedBy_eq_some.mp ((hI.owner_iff i n).mp ho)
    rw [hI.hash, hI.table_of_locked hw]
    exact search_sublist _ _ _

theorem Inv.get_eq (hI : s.Inv t0 progs) {key : K} (hfree : s.owner (s.table.hash key) = none) :
    s.table.get key = (t0.replay s.ops).2.get key := by
  rw [HashTable.get, HashTable.get, hI.free_slot _ hfree, replay_compare, replay_hash, hI.compare,
    hI.hash]

end Frame

section Steps

variable {key : K} {c : Call K T} {rest : List (Op K T)} {found : Bool}

theorem Inv.get (hI : s.Inv t0 progs) (hw : s.workers[n]? = some (.idle (.get key :: rest)))
    (hfree : s.owner (s.table.hash key) = none) : (s.get n key rest).Inv t0 progs := by
  obtain ⟨hrep, hout⟩ := ops_snoc t0 (s.get n key rest) rfl
  simp only [exec] at hrep
  refine ⟨?_, hI.compare, hI.hash, ?_, fun m c' rest' found' hm => ?_, by simp [hI.length],
    program_set _ hI hw rfl (fun m hm => by simp [doneBy_snoc (s.get n key rest) rfl, hm])
      (by simp [doneBy_snoc (s.get n key rest) rfl, Worker.pending]),
    thread_lt_snoc _ hI hw rfl rfl, fun i m => ?_⟩
  · -- the guard: the slot is free, so the scan sees the replayed slot
    rw [hrep, hout, hI.outcomes, hI.get_eq hfree]
  · rw [hrep]
    exact hI.free_slot
  · obtain ⟨-, ⟨⟩⟩ | ⟨-, hm⟩ := getElem?_set_eq_some hw hm
    rw [hrep]
    exact hI.held_slot m c' rest' found' hm
  · rw [get_owner, hI.owner_iff, lockedBy_set (s.get n key rest) hw rfl rfl]
    split
    · next hm => subst hm; rw [lockedBy_of_idle hw]; rfl
    · rfl

theorem Inv.lock (hI : s.Inv t0 progs) (hw : s.workers[n]? = some (.idle (.call c :: rest)))
    (hfree : s.owner (s.table.hash c.key) = none) : (s.lock n c rest).Inv t0 progs := by
  have hslot := hI.free_slot _ hfree
  refine ⟨hI.outcomes, hI.compare, hI.hash, fun i hi => ?_, fun m c' rest' found' hm => ?_,
    by simp [hI.length], program_set _ hI hw rfl (fun _ _ => rfl) (by simp [doneBy, Worker.pending]),
    hI.thread_lt, fun i m => ?_⟩
  · -- the slot just taken is not free
    have hne : i ≠ s.table.hash c.key := by
      rintro rfl
      simp at hi
    rw [lock_owner, Function.update_noteq hne] at hi
    rw [lock_table, setSlot_table, Function.update_noteq hne]
    exact hI.free_slot i hi
  · rw [lock_workers] at hm
    rw [lock_ops, lock_table, setSlot_table, ← hI.hash]
    obtain ⟨rfl, ⟨⟩⟩ | ⟨hnm, hm⟩ := getElem?_set_eq_some hw hm
    · rw [Function.update_same, ← hslot, hI.compare]
    · have hne : s.table.hash c'.key ≠ s.table.hash c.key := fun he =>
        absurd (he ▸ hI.owner_of_locked hm) (by rw [hfree]; exact Option.noConfusion)
      rw [Function.update_noteq hne, hI.hash]
      exact hI.held_slot m c' rest' found' hm
  · rw [lock_owner, lockedBy_set (s.lock n c rest) hw rfl rfl]
    by_cases hi : i = s.table.hash c.key
    · subst hi
      by_cases hm : n = m
      · simp [hm, Worker.lockedSlot]
      · rw [Function.update_same, if_neg hm, ← hI.owner_iff, hfree]
        simp [hm]
    · rw [Function.update_noteq hi]
      split
      · next hm =>
        subst hm
        simp [hI.owner_iff, lockedBy_of_idle hw, Worker.lockedSlot, Ne.symm hi]
      · exact hI.owner_iff i m

theorem Inv.unlock (hI : s.Inv t0 progs) (hw : s.workers[n]? = some (.locked c rest found)) :
    (s.unlock n c rest found).Inv t0 progs := by
  obtain ⟨hrep, hout⟩ := ops_snoc t0 (s.unlock n c rest found) rfl
  -- replayed, the call is the writer's scan followed by the rest of the call
  have hcall := call_eq_finish_search (t0.replay s.ops).2 c
  dsimp only at hcall
  rw [replay_compare, replay_hash, hI.held_slot n c rest found hw] at hcall
  rw [exec, hcall, hI.outcomes] at hrep
  have hlocked := lockedBy_set (s.unlock n c rest found) hw rfl rfl
  refine ⟨?_, hI.compare, hI.hash, fun i hi => ?_, fun m c' rest' found' hm => ?_,
    by simp [hI.length],
    program_set _ hI hw rfl (fun m hm => by simp [doneBy_snoc (s.unlock n c rest found) rfl, hm])
      (by simp [doneBy_snoc (s.unlock n c rest found) rfl, Worker.pending]),
    thread_lt_snoc _ hI hw rfl rfl, fun i m => ?_⟩
  · rw [hrep, hout, hI.hash]
  · rw [hrep, unlock_table, setSlot_table, setSlot_table, hI.hash]
    by_cases hi' : i = t0.hash c.key
    · subst hi'
      simp only [Function.update_same]
    · rw [unlock_owner, hI.hash, Function.update_noteq hi'] at hi
      rw [Function.update_noteq hi', Function.update_noteq hi']
      exact hI.free_slot i hi
  · rw [unlock_workers] at hm
    obtain ⟨-, ⟨⟩⟩ | ⟨hnm, hm⟩ := getElem?_set_eq_some hw hm
    have hne := hI.hash_ne_of_locked hw hm hnm
    rw [hI.hash] at hne
    rw [hrep, unlock_table, setSlot_table, setSlot_table, hI.hash, Function.update_noteq hne,
      Function.update_noteq hne]
    exact hI.held_slot m c' rest' found' hm
  · rw [unlock_owner, hlocked]
    by_cases hi : i = s.table.hash c.key
    · subst hi
      simp only [Function.update_same, reduceCtorEq, false_iff]
      split
      · simp [Worker.lockedSlot]
      · next hm =>
        intro h
        obtain ⟨c', rest', found', hm', he⟩ := lockedBy_eq_some.mp h
        exact hI.hash_ne_of_locked hw hm' hm he
    · rw [Function.update_noteq hi, hI.owner_iff]
      split
      · next hm => subst hm; simp [lockedBy_of_locked hw, Worker.lockedSlot, Ne.symm hi]
      · rfl

theorem Inv.step {s' : Sys K T size} (hI : s.Inv t0 progs) (h : s.step n = some s') :
    s'.Inv t0 progs := by
  obtain ⟨key, rest, hw, hfree, rfl⟩ | ⟨c, rest, hw, hfree, rfl⟩ | ⟨c, rest, found, hw, rfl⟩ :=
    step_eq_some h
  · exact hI.get hw hfree
  · exact hI.lock hw hfree
  · exact hI.unlock hw

theorem Inv.run {s' : Sys K T size} (hI : s.Inv t0 progs) {sched : List Nat}
    (h : s.run sched = some s') :
    s'.Inv t0 progs := by
  induction sched generalizing s with
  | nil => cases h; exact hI
  | cons m ms ih =>
    obtain ⟨s₁, h₁, h₂⟩ := run_cons h
    exact ih (hI.step h₁) h₂

theorem Inv.mem_progs (hI : s.Inv t0 progs) {e : Completed K T} (he : e ∈ s.history) :
    ∃ p ∈ progs, e.op ∈ p := by
  have hn : e.thread < s.workers.length := hI.length ▸ hI.thread_lt e he
  have hprog := hI.program _ _ (List.getElem?_eq_getElem hn)
  refine ⟨_, List.getElem?_mem hprog, List.mem_append_left _ ?_⟩
  exact List.mem_map_of_mem _ (List.mem_filter.mpr ⟨he, beq_self_eq_true _⟩)

end Steps

/-- No two threads are ever inside an `add` or a `remove` on the same slot at once: a slot's
mutex is held by exactly the thread inside a call on that slot. -/
theorem run_mutual_exclusion (t0 : HashTable K T size) (progs : List (List (Op K T)))
    (sched : List Nat) {s : Sys K T size} (h : (init t0 progs).run sched = some s) :
    (∀ (i : Fin size) (n : Nat), s.owner i = some n ↔
      ∃ c rest found, s.workers[n]? = some (Worker.locked c rest found) ∧
        s.table.hash c.key = i) ∧
    ∀ (n m : Nat) c c' rest rest' found found',
      s.workers[n]? = some (Worker.locked c rest found) →
      s.workers[m]? = some (Worker.locked c' rest' found') →
      s.table.hash c.key = s.table.hash c'.key → n = m := by
  have hI := (inv_init t0 progs).run h
  refine ⟨fun i n => (hI.owner_iff i n).trans lockedBy_eq_some, ?_⟩
  intro n m c c' rest rest' found found' hn hm hslot
  by_contra hnm
  exact hI.hash_ne_of_locked hn hm hnm hslot.symm

def racingAdds : List (List (Op (List Char) (List Char))) :=
  [[.call (.add "Example.org".toList "example.org".toList false), .get "EXAMPLE.org".toList],
    [.call (.add "EXAMPLE.ORG".toList "Example.ORG".toList false),
      .call (.remove "isc.org".toList)]]

theorem run_mutual_exclusion_racingAdds :
    ∃ s, (init (new caselessCompare caselessHash) racingAdds).run [0, 0, 1] = some s ∧
      (∀ (i : Fin 4) (n : Nat), s.owner i = some n ↔
        ∃ c rest found, s.workers[n]? = some (Worker.locked c rest found) ∧
          s.table.hash c.key = i) ∧
      ∀ (n m : Nat) c c' rest rest' found found',
        s.workers[n]? = some (Worker.locked c rest found) →
        s.workers[m]? = some (Worker.locked c' rest' found') →
        s.table.hash c.key = s.table.hash c'.key → n = m :=
  ⟨_, rfl, run_mutual_exclusion (new caselessCompare caselessHash) racingAdds [0, 0, 1] rfl⟩

-- Thread 1 holds the slot of both names, so thread 0 cannot start its `add`.
example : ((init (new caselessCompare caselessHash) racingAdds).run [1, 0]).isNone = true := rfl

-- Between the two steps of an `add` that replaces, its slot lacks the name that is in the table
-- before and after it: a `get` taken there would miss the name, and the guard keeps it waiting.
example :
    let progs : List (List (Op (List Char) (List Char))) :=
      [[.call (.add "a.org".toList "a.org".toList false)],
        [.call (.add "A.org".toList "A.ORG".toList true)], [.get "a.org".toList]]
    ((init (new caselessCompare caselessHash) progs).run [0, 0, 1]).map (fun s =>
      (s.table.get "a.org".toList,
        ((new caselessCompare caselessHash).replay s.ops).2.get "a.org".toList, (s.step 2).isNone)) =
      some (none, some "a.org".toList, true) := rfl

section Progress

def Op.steps : Op K T → Nat
  | .get _ => 1
  | .call _ => 2

def Worker.stepsLeft : Worker K T → Nat
  | .idle ops => (ops.map Op.steps).sum
  | .locked _ rest _ => 1 + (rest.map Op.steps).sum

def stepsLeft (s : Sys K T size) : Nat := (s.workers.map Worker.stepsLeft).sum

theorem sum_map_set {α : Type} {l : List α} {n : Nat} {a : α} (h : l[n]? = some a)
    (f : α → Nat) (b : α) : ((l.set n b).map f).sum + f a = (l.map f).sum + f b := by
  induction l generalizing n with
  | nil => cases h
  | cons x l ih =>
    cases n with
    | zero =>
      rw [List.getElem?_cons_zero, Option.some.injEq] at h
      subst h
      simp only [List.set_cons_zero, List.map_cons, List.sum_cons]
      omega
    | succ n =>
      rw [List.getElem?_cons_succ] at h
      simp only [List.set_cons_succ, List.map_cons, List.sum_cons]
      have := ih h
      omega

theorem stepsLeft_set (s' : Sys K T size) {w w' : Worker K T} (hw : s.workers[n]? = some w)
    (hws : s'.workers = s.workers.set n w') (hstep : Worker.stepsLeft w' + 1 = Worker.stepsLeft w) :
    s'.stepsLeft + 1 = s.stepsLeft := by
  have := sum_map_set hw Worker.stepsLeft w'
  rw [stepsLeft, stepsLeft, hws]
  omega

theorem stepsLeft_step {s s' : Sys K T size} (h : s.step n = some s') :
    s'.stepsLeft + 1 = s.stepsLeft := by
  obtain ⟨key, rest, hw, -, rfl⟩ | ⟨c, rest, hw, -, rfl⟩ | ⟨c, rest, found, hw, rfl⟩ :=
    step_eq_some h
  all_goals
    refine stepsLeft_set _ hw rfl ?_
    simp only [Worker.stepsLeft, List.map_cons, List.sum_cons, Op.steps]
    omega

theorem stepsLeft_run {s s' : Sys K T size} {sched : List Nat} (h : s.run sched = some s') :
    sched.length + s'.stepsLeft = s.stepsLeft := by
  induction sched generalizing s with
  | nil => cases h; simp
  | cons m ms ih =>
    obtain ⟨s₁, h₁, h₂⟩ := run_cons h
    have := ih h₂
    have := stepsLeft_step h₁
    simp only [List.length_cons]
    omega

theorem step_of_locked {c : Call K T} {rest : List (Op K T)} {found : Bool}
    (hw : s.workers[n]? = some (.locked c rest found)) :
    s.step n = some (s.unlock n c rest found) := by
  simp [step, hw]

theorem Inv.idle_of_stuck (hI : s.Inv t0 progs) (hstuck : ∀ n, s.step n = none) :
    ∀ (n : Nat) w, s.workers[n]? = some w → w = Worker.idle [] := by
  have hfree : ∀ i, s.owner i = none := fun i => by
    cases ho : s.owner i with
    | none => rfl
    | some m =>
      obtain ⟨c, rest, found, hm, -⟩ := lockedBy_eq_some.mp ((hI.owner_iff i m).mp ho)
      have := hstuck m
      rw [step_of_locked hm] at this
      cases this
  intro n w hw
  have hn := hstuck n
  cases w with
  | locked c rest found => rw [step_of_locked hw] at hn; cases hn
  | idle ops =>
    cases ops with
    | nil => rfl
    | cons op rest => cases op <;> rw [Sys.step, hw] at hn <;> simp [hfree] at hn

/-- A run stops only when every thread has made all its calls, and then it has taken exactly
one step for each `get` and two for each `add` and `remove`: no thread is left waiting for
a mutex. -/
theorem run_stuck_complete (t0 : HashTable K T size) (progs : List (List (Op K T)))
    (sched : List Nat) {s : Sys K T size} (h : (init t0 progs).run sched = some s)
    (hstuck : ∀ n, s.step n = none) :
    sched.length = (progs.map fun p => (p.map Op.steps).sum).sum ∧
      ∀ n p, progs[n]? = some p → s.doneBy n = p := by
  have hI := (inv_init t0 progs).run h
  have hidle := hI.idle_of_stuck hstuck
  have hzero : s.stepsLeft = 0 := by
    refine List.sum_eq_zero fun x hx => ?_
    obtain ⟨w, hw, rfl⟩ := List.mem_map.mp hx
    obtain ⟨n, hn⟩ := List.mem_iff_getElem?.mp hw
    rw [hidle n w hn]
    rfl
  refine ⟨?_, fun n p hp => ?_⟩
  · have := stepsLeft_run h
    rw [hzero] at this
    simpa [stepsLeft, init, Function.comp_def, Worker.stepsLeft] using this
  · have hn : n < s.workers.length := hI.length ▸ (List.getElem?_eq_some_iff.1 hp).1
    have hw := List.getElem?_eq_getElem hn
    have hprog := hI.program n _ hw
    rw [hp, hidle n _ hw, Worker.pending, List.append_nil, Option.some.injEq] at hprog
    exact hprog.symm

theorem run_stuck_complete_racingAdds :
    ∃ s, (init (new caselessCompare caselessHash) racingAdds).run [0, 0, 1, 1, 0, 1, 1] = some s ∧
      (∀ n, s.step n = none) ∧
      [0, 0, 1, 1, 0, 1, 1].length = (racingAdds.map fun p => (p.map Op.steps).sum).sum ∧
      ∀ n p, racingAdds[n]? = some p → s.doneBy n = p := by
  refine ⟨_, rfl, fun n => ?_, run_stuck_complete (new caselessCompare caselessHash) racingAdds
    [0, 0, 1, 1, 0, 1, 1] rfl fun n => ?_⟩ <;>
    match n with
    | 0 | 1 => rfl
    | n + 2 => simp [step, init, racingAdds]

end Progress

end Sys

end HashTable

end Bundy.Nsas
