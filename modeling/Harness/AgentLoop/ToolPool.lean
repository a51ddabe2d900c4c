-- SUMMARY: The invariant of a group's pool: a started call is filled or in flight, and dispatches keep to the limit and to their barrier.
import Harness.AgentLoop.Frame
import Harness.AgentLoop.ToolCalls

namespace Harness

open List

/-! ## Safety -/

/-- The dispatched calls that still run keep to the limit, and an exclusive one runs alone. -/
structure LoopWorld.Exclusion (w : LoopWorld) : Prop where
  limit : w.running.length ≤ w.pool.limit
  exclusive : ∀ call ∈ w.running, call.2 = .exclusive → w.running.length = 1

/-- Everything that still runs is in flight. -/
structure LoopWorld.Drainable (w : LoopWorld) : Prop extends w.Exclusion where
  inFlight : (w.running.map Prod.fst).Sublist w.pool.inFlight

/-! ## The invariant -/

/-- The pool of a group of which `n` calls are started and `c` committed. The call at
`exempt` has been raced and is not checked for failure yet. -/
structure PoolInv (mode : ToolExecutionMode) (limit n c : Nat) (exempt : Option Nat)
    (pool : ToolPool) (running : List (Nat × ToolExecutionMode)) : Prop where
  limited : pool.limit = limit
  nodup : pool.inFlight.Nodup
  started : ∀ i ∈ pool.inFlight, i < n
  room : pool.inFlight.length ≤ limit
  alone : mode = .exclusive → n ≤ 1
  filled : ∀ i, (pool.slots i).isSome → i < n
  covered : ∀ i, c ≤ i → i < n → exempt ≠ some i → (pool.slots i).isSome ∨ i ∈ pool.inFlight
  exempted : ∀ i, exempt = some i → (pool.slots i).isSome ∨ pool.schedulerFailure.isSome
  settled : ∀ i ∈ pool.inFlight, i ∉ running.map Prod.fst →
    (pool.slots i).isSome ∨ pool.schedulerFailure.isSome
  inFlight : (running.map Prod.fst).Sublist pool.inFlight
  modes : ∀ call ∈ running, call.2 = mode

variable {mode : ToolExecutionMode} {limit n c : Nat} {exempt : Option Nat} {pool : ToolPool}
  {running : List (Nat × ToolExecutionMode)}

/-- A fresh pool, when nothing is left running. -/
theorem PoolInv.open (mode : ToolExecutionMode) (limit : Nat) :
    PoolInv mode limit 0 0 none { ToolPool.empty with limit } [] where
  limited := rfl
  nodup := nodup_nil
  started := by simp [ToolPool.empty]
  room := Nat.zero_le _
  alone _ := Nat.zero_le _
  filled := by simp [ToolPool.empty]
  covered := by omega
  exempted := by simp
  settled := by simp [ToolPool.empty]
  inFlight := nil_sublist _
  modes := by simp

/-- Numbers without repetition below one are at most one. -/
theorem length_le_of_lt {xs : List Nat} (hnodup : xs.Nodup) (hlt : ∀ x ∈ xs, x < n) :
    xs.length ≤ n := by
  have hsub : xs ⊆ List.range n := fun x hx => mem_range.mpr (hlt x hx)
  simpa using (hnodup.subperm hsub).length_le

theorem PoolInv.drainable {w : LoopWorld} (h : PoolInv mode limit n c exempt w.pool w.running) :
    w.Drainable where
  inFlight := h.inFlight
  limit := by
    have hlength := h.inFlight.length_le
    rw [length_map] at hlength
    rw [h.limited]
    exact hlength.trans h.room
  exclusive := by
    intro call hcall hexclusive
    have hn : n ≤ 1 := h.alone ((h.modes call hcall).symm.trans hexclusive)
    have hlength := h.inFlight.length_le
    rw [length_map] at hlength
    have hinFlight := length_le_of_lt h.nodup h.started
    have hpos := length_pos_of_mem hcall
    omega

namespace ToolPool

variable (pool : ToolPool) (index : Nat) (slot : Slot) (error : Thrown)

theorem setSlot_isSome (i : Nat) :
    ((pool.setSlot index slot).slots i).isSome ↔ i = index ∨ (pool.slots i).isSome := by
  by_cases h : i = index
  · simp [setSlot, h]
  · simp [setSlot, h]

@[simp] theorem fail_schedulerFailure_isSome : (pool.fail error).schedulerFailure.isSome := by
  simp [fail]

end ToolPool

/-! ## Settlements -/

namespace LoopWorld

variable {w : LoopWorld}

theorem isRunning_iff {index : Nat} : w.isRunning index = true ↔ index ∈ w.running.map Prod.fst := by
  simp [isRunning]

/-- What a settlement does: it fills the slot of a running call, or records its failure. -/
theorem settle_cases (w : LoopWorld) (index : Nat) (outcome : Except Thrown Slot) :
    w.settle index outcome = w ∨ index ∈ w.running.map Prod.fst ∧
      ((∃ slot, w.settle index outcome =
          { w with pool := w.pool.setSlot index slot, running := w.running.filter (·.1 != index) }) ∨
        ∃ error, w.settle index outcome =
          { w with pool := w.pool.fail error, running := w.running.filter (·.1 != index) }) := by
  unfold settle
  split
  · rename_i hrunning
    refine .inr ⟨isRunning_iff.mp hrunning, ?_⟩
    cases outcome with
    | ok slot => exact .inl ⟨slot, rfl⟩
    | error error => exact .inr ⟨error, rfl⟩
  · exact .inl rfl

theorem filter_sublist (w : LoopWorld) (index : Nat) :
    ((w.running.filter (·.1 != index)).map Prod.fst).Sublist (w.running.map Prod.fst) :=
  List.filter_sublist.map _

theorem not_mem_filter {index i : Nat}
    (h : i ∉ (w.running.filter (·.1 != index)).map Prod.fst) :
    i = index ∨ i ∉ w.running.map Prod.fst := by
  by_cases hi : i = index
  · exact .inl hi
  refine .inr fun hmem => h ?_
  obtain ⟨call, hcall, rfl⟩ := mem_map.mp hmem
  exact mem_map_of_mem (mem_filter.mpr ⟨hcall, by simpa using hi⟩)

theorem Drainable.settle (h : w.Drainable) (index : Nat) (outcome : Except Thrown Slot) :
    (w.settle index outcome).Drainable := by
  have hafter : ∀ pool : ToolPool, pool.limit = w.pool.limit → pool.inFlight = w.pool.inFlight →
      LoopWorld.Drainable { w with pool, running := w.running.filter (·.1 != index) } := by
    intro pool hlimit hinFlight
    have hlength := (List.filter_sublist (p := (·.1 != index)) (l := w.running)).length_le
    refine ⟨⟨?_, ?_⟩, ?_⟩
    · rw [hlimit]
      exact hlength.trans h.limit
    · intro call hcall hexclusive
      have hone := h.exclusive call (mem_filter.mp hcall).1 hexclusive
      have hpos : 0 < (w.running.filter (·.1 != index)).length := length_pos_of_mem hcall
      show (w.running.filter (·.1 != index)).length = 1
      omega
    · rw [hinFlight]
      exact (w.filter_sublist index).trans h.inFlight
  rcases w.settle_cases index outcome with heq | ⟨-, ⟨slot, heq⟩ | ⟨error, heq⟩⟩
  · rw [heq]
    exact h
  · rw [heq]
    exact hafter _ rfl rfl
  · rw [heq]
    exact hafter _ rfl rfl

end LoopWorld

theorem PoolInv.settle {w : LoopWorld} (h : PoolInv mode limit n c exempt w.pool w.running)
    (index : Nat) (outcome : Except Thrown Slot) :
    PoolInv mode limit n c exempt (w.settle index outcome).pool (w.settle index outcome).running := by
  rcases w.settle_cases index outcome with heq | ⟨hindex, ⟨slot, heq⟩ | ⟨error, heq⟩⟩
  · rw [heq]
    exact h
  · rw [heq]
    have hmono : ∀ i, (w.pool.slots i).isSome → ((w.pool.setSlot index slot).slots i).isSome :=
      fun i hi => (w.pool.setSlot_isSome index slot i).mpr (.inr hi)
    refine ⟨h.limited, h.nodup, h.started, h.room, h.alone, ?_, ?_, ?_, ?_,
      (w.filter_sublist index).trans h.inFlight,
      fun call hcall => h.modes call (mem_filter.mp hcall).1⟩
    · intro i hi
      rcases (w.pool.setSlot_isSome index slot i).mp hi with rfl | hi
      · exact h.started i (h.inFlight.subset hindex)
      · exact h.filled i hi
    · exact fun i hc hn hexempt => (h.covered i hc hn hexempt).imp_left (hmono i)
    · exact fun i hi => (h.exempted i hi).imp_left (hmono i)
    · intro i hi hnot
      rcases LoopWorld.not_mem_filter hnot with rfl | hnot
      · exact .inl ((w.pool.setSlot_isSome i slot i).mpr (.inl rfl))
      · exact (h.settled i hi hnot).imp_left (hmono i)
  · rw [heq]
    refine ⟨h.limited, h.nodup, h.started, h.room, h.alone, h.filled, h.covered, ?_, ?_,
      (w.filter_sublist index).trans h.inFlight,
      fun call hcall => h.modes call (mem_filter.mp hcall).1⟩
    · exact fun i _ => .inr (w.pool.fail_schedulerFailure_isSome error)
    · exact fun i _ _ => .inr (w.pool.fail_schedulerFailure_isSome error)

/-! ## The driver's own moves -/

theorem PoolInv.dispatch (h : PoolInv mode limit n c none pool running)
    (hroom : pool.inFlight.length < limit) (halone : mode = .exclusive → n = 0) :
    PoolInv mode limit (n + 1) c none { pool with inFlight := pool.inFlight ++ [n] }
      (running ++ [(n, mode)]) where
  limited := h.limited
  nodup := by
    have hfresh : n ∉ pool.inFlight := fun hn => Nat.lt_irrefl n (h.started n hn)
    exact nodup_append.mpr ⟨h.nodup, by simp, by
      intro i hi j hj hij
      rw [mem_singleton.mp hj] at hij
      exact hfresh (hij ▸ hi)⟩
  started i hi := by
    rcases mem_append.mp hi with hi | hi
    · exact Nat.lt_succ_of_lt (h.started i hi)
    · rw [mem_singleton.mp hi]
      exact Nat.lt_succ_self n
  room := by
    rw [length_append, length_singleton]
    exact hroom
  alone hexclusive := by rw [halone hexclusive]
  filled i hi := Nat.lt_succ_of_lt (h.filled i hi)
  covered i hc hi _ := by
    rcases Nat.lt_succ_iff_lt_or_eq.mp hi with hi | rfl
    · exact (h.covered i hc hi (by simp)).imp_right fun hi => mem_append_left _ hi
    · exact .inr (by simp)
  exempted := by simp
  settled i hi hnot := by
    rcases mem_append.mp hi with hi | hi
    · exact h.settled i hi fun hmem => hnot (by simp [hmem])
    · exact absurd (by rw [mem_singleton.mp hi]; simp) hnot
  inFlight := by
    rw [map_append]
    exact h.inFlight.append (List.Sublist.refl _)
  modes call hcall := by
    rcases mem_append.mp hcall with hcall | hcall
    · exact h.modes call hcall
    · rw [mem_singleton.mp hcall]

/-- A call that needs no dispatch fills its slot at once. -/
theorem PoolInv.setSlot (h : PoolInv mode limit n c none pool running)
    (halone : mode = .exclusive → n = 0) (slot : Slot) :
    PoolInv mode limit (n + 1) c none (pool.setSlot n slot) running :=
  { h with
    started i hi := Nat.lt_succ_of_lt (h.started i hi)
    alone hexclusive := by rw [halone hexclusive]
    filled i hi := by
      rcases (pool.setSlot_isSome n slot i).mp hi with rfl | hi
      · exact Nat.lt_succ_self _
      · exact Nat.lt_succ_of_lt (h.filled i hi)
    covered i hc hi _ := by
      rcases Nat.lt_succ_iff_lt_or_eq.mp hi with hi | rfl
      · refine (h.covered i hc hi (by simp)).imp_left fun hi => ?_
        exact (pool.setSlot_isSome n slot i).mpr (.inr hi)
      · exact .inl ((pool.setSlot_isSome i slot i).mpr (.inl rfl))
    exempted := by simp
    settled i hi hnot := (h.settled i hi hnot).imp_left fun hi =>
      (pool.setSlot_isSome n slot i).mpr (.inr hi) }

/-- A raced call leaves the pool; whether it failed is not known yet. -/
theorem PoolInv.deleteInFlight (h : PoolInv mode limit n c none pool running) {index : Nat}
    (hindex : index ∈ pool.inFlight) (hsettled : index ∉ running.map Prod.fst) :
    PoolInv mode limit n c (some index) { pool with inFlight := pool.inFlight.erase index }
      running :=
  { h with
    nodup := h.nodup.erase index
    started i hi := h.started i (mem_of_mem_erase hi)
    room := (erase_sublist.length_le).trans h.room
    covered i hc hi hexempt := by
      refine (h.covered i hc hi (by simp)).imp_right fun hmem => ?_
      have hne : i ≠ index := fun heq => hexempt (by rw [heq])
      exact (mem_erase_of_ne hne).mpr hmem
    exempted i hi := by
      cases hi
      exact h.settled index hindex hsettled
    settled i hi hnot := h.settled i (mem_of_mem_erase hi) hnot
    inFlight := by
      have herase := h.inFlight.erase index
      rwa [erase_of_not_mem hsettled] at herase }

/-- The failure check after a race. -/
theorem PoolInv.checked (h : PoolInv mode limit n c exempt pool running)
    (hfailure : pool.schedulerFailure = none) : PoolInv mode limit n c none pool running :=
  { h with
    covered := by
      intro i hc hi _
      by_cases hexempt : exempt = some i
      · refine .inl ((h.exempted i hexempt).resolve_right ?_)
        simp [hfailure]
      · exact h.covered i hc hi hexempt
    exempted := by simp }

/-- Committing the next call. -/
theorem PoolInv.commit (h : PoolInv mode limit n c exempt pool running) :
    PoolInv mode limit n (c + 1) exempt pool running :=
  { h with covered := fun i hc hi => h.covered i (by omega) hi }

end Harness
