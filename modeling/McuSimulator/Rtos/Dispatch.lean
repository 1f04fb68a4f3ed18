import McuSimulator.Rtos.System

/-!
# The dispatch of the source

What `select_next` chooses, and where the discrete-event loop of `schedule_from` and
`schedule_after_delete` ends: it moves the clock while no task can be selected (`Advanced`),
and then either switches to the selected task or falls back to the idle context.
-/

namespace McuSimulator.Rtos

open McuSimulator.Base

namespace Scheduler

/-! ### The selected task -/

/-- The value that `select_next` looks for is the least of its candidates. -/
theorem bestPrio_eq (s : Scheduler) :
    s.bestPrio = least (fun i ↦ (s.tasks i).state = .ready) (fun i ↦ (s.tasks i).priority)
      (List.range s.taskCount) 0xFF := by
  unfold bestPrio least
  congr 1
  funext best i
  by_cases hr : (s.tasks i).state = .ready
  · rw [if_pos hr]
    split
    · next h => exact (Nat.min_eq_right (Nat.le_of_lt h.2)).symm
    · next h => exact (Nat.min_eq_left (Nat.le_of_not_lt fun hlt ↦ h ⟨hr, hlt⟩)).symm
  · rw [if_neg hr, if_neg fun h ↦ hr h.1]

/-- The round-robin scan passes by every task. -/
theorem exists_scan (s : Scheduler) {j : Nat} (hj : j < s.taskCount) :
    ∃ i < s.taskCount, (s.scanStart + i) % s.taskCount = j := by
  have hstart : s.scanStart < s.taskCount := by
    unfold scanStart
    split
    · exact Nat.zero_lt_of_lt hj
    · exact Nat.mod_lt _ (Nat.zero_lt_of_lt hj)
  by_cases hle : s.scanStart ≤ j
  · refine ⟨j - s.scanStart, by omega, ?_⟩
    rw [Nat.add_sub_cancel' hle, Nat.mod_eq_of_lt hj]
  · refine ⟨j + s.taskCount - s.scanStart, by omega, ?_⟩
    rw [show s.scanStart + (j + s.taskCount - s.scanStart) = j + s.taskCount by omega,
      Nat.add_mod_right, Nat.mod_eq_of_lt hj]

/-- A `READY` task with a priority below `0xFF` makes the selection succeed. -/
theorem selectNext_ne {s : Scheduler} (hcount : s.taskCount ≤ maxTasks) {j : Nat}
    (hj : j < s.taskCount) (hr : (s.tasks j).state = .ready) (hp : (s.tasks j).priority < 0xFF) :
    s.selectNext ≠ invalidTask := by
  have hle : s.bestPrio ≤ (s.tasks j).priority := by
    rw [bestPrio_eq]
    exact least_le _ _ (List.mem_range.mpr hj) hr _
  have hbest : s.bestPrio ≠ 0xFF := by omega
  obtain ⟨k, hk, hready, hprio⟩ : ∃ k ∈ List.range s.taskCount, (s.tasks k).state = .ready ∧
      (s.tasks k).priority = s.bestPrio := by
    rw [bestPrio_eq] at hbest ⊢
    exact (least_mem _ _ _ _).resolve_left hbest
  obtain ⟨i, hi, hik⟩ := s.exists_scan (List.mem_range.mp hk)
  unfold selectNext
  rw [if_neg hbest]
  split
  · next i' _ =>
    have hlt : (s.scanStart + i') % s.taskCount < s.taskCount :=
      Nat.mod_lt _ (Nat.zero_lt_of_lt hj)
    exact Nat.ne_of_lt (Nat.lt_of_lt_of_le hlt (Nat.le_trans hcount (by decide)))
  · next hnone =>
    have hno := List.find?_eq_none.mp hnone i (List.mem_range.mpr hi)
    rw [hik] at hno
    exact absurd (decide_eq_true ⟨hready, hprio⟩) hno

/-- No `READY` task has a higher priority than the selected one. -/
theorem selectNext_best {s : Scheduler} (h : s.selectNext ≠ invalidTask) {j : Nat}
    (hj : j < s.taskCount) (hr : (s.tasks j).state = .ready) :
    (s.tasks s.selectNext).priority ≤ (s.tasks j).priority := by
  have hle : s.bestPrio ≤ (s.tasks j).priority := by
    rw [bestPrio_eq]
    exact least_le _ _ (List.mem_range.mpr hj) hr _
  suffices hsel : (s.tasks s.selectNext).priority = s.bestPrio by rwa [hsel]
  generalize he : s.selectNext = t at h ⊢
  unfold selectNext at he
  split at he
  · exact absurd he.symm h
  · split at he
    · next i hf =>
      have hp := List.find?_some hf
      simp only [decide_eq_true_eq] at hp
      rw [← he]
      exact hp.2
    · exact absurd he.symm h

/-! ### The earliest deadline -/

/-- No deadline is before the earliest one. -/
theorem earliest_le {s : Scheduler} {i : Nat} (hi : i < s.taskCount) (ht : Timed (s.tasks i)) :
    s.earliest ≤ (s.tasks i).resumeTick :=
  least_le (fun i ↦ Timed (s.tasks i)) (fun i ↦ (s.tasks i).resumeTick) (List.mem_range.mpr hi)
    ht uint32Max

/-! ### The discrete-event advance -/

/-- The scheduler of the source dispatches. -/
theorem dispatch_dispatches (s : Scheduler) {ph : Phase} (hp : ph ≠ .code) :
    Dispatches s (s.dispatch ph) :=
  Dispatcher.code.sound ph s _ ⟨hp, rfl⟩

/-- The table with the clock at the earliest deadline and the expired tasks woken. -/
def advance (s : Scheduler) : Scheduler := { s with tickCount := s.earliest }.wakeExpired

/-- The second table is the first after some turns of the discrete-event loop. -/
inductive Advanced : Scheduler → Scheduler → Prop
  | refl (s : Scheduler) : Advanced s s
  | turn {s u : Scheduler} (hn : s.selectNext = invalidTask) (he : s.earliest ≠ uint32Max)
      (h : Advanced s.advance u) : Advanced s u

/-- What one turn preserves, the advance preserves. -/
theorem Advanced.preserves {P : Scheduler → Prop}
    (hturn : ∀ s : Scheduler, P s → s.earliest ≠ uint32Max → P s.advance) {s u : Scheduler}
    (h : Advanced s u) (hs : P s) : P u := by
  induction h with
  | refl s => exact hs
  | turn hn he h ih => exact ih (hturn _ hs he)

/-- The clock does not create tasks. -/
theorem Advanced.taskCount {s u : Scheduler} (h : Advanced s u) : u.taskCount = s.taskCount :=
  h.preserves (P := fun v ↦ v.taskCount = s.taskCount) (fun _ hv _ ↦ hv) rfl

/-- The advance changes the table as a deadline scan does. -/
theorem Advanced.woken {s u : Scheduler} (h : Advanced s u) (t : TaskHandle) :
    Woken (s.tasks t) (u.tasks t) := by
  refine h.preserves (P := fun v ↦ Woken (s.tasks t) (v.tasks t)) (fun v hv _ ↦ hv.trans ?_)
    (.refl _)
  exact woken_wakeExpired { v with tickCount := v.earliest } t

/-- How a dispatch ends. -/
inductive Dispatched (u : Scheduler) : Scheduler → Prop
  | switch (hn : u.selectNext ≠ invalidTask) : Dispatched u (u.switchTo u.selectNext)
  | idle (hn : u.selectNext = invalidTask) (he : u.earliest = uint32Max) :
      Dispatched u { u with current := invalidTask }

/-- The loop advances the clock and then takes the selected task or falls back to idle. -/
theorem desLoop_advanced {take : Scheduler → TaskHandle → Scheduler} (s : Scheduler)
    (htake : ∀ u : Scheduler, u.current = s.current → take u u.selectNext = u.switchTo u.selectNext)
    (turns : Nat) (h : s.deadlines < turns) :
    ∃ u, Advanced s u ∧ Dispatched u (desLoop take turns s) := by
  induction turns generalizing s with
  | zero => omega
  | succ turns ih =>
    unfold desLoop
    split
    · next hn =>
      rw [htake s rfl]
      exact ⟨s, .refl s, .switch hn⟩
    · next hn =>
      have hn' := Decidable.not_not.mp hn
      split
      · next he => exact ⟨s, .refl s, .idle hn' he⟩
      · next he =>
        have hlt := deadlines_advance_lt s he
        obtain ⟨u, hu, hd⟩ := ih s.advance htake (by unfold advance; omega)
        exact ⟨u, .turn hn' he hu, hd⟩

/-- The task that entered is taken as any other, since `current_` names it already. -/
theorem takeFrom_current (s : Scheduler) (next : TaskHandle) :
    (if next = s.current then s.setState s.current .running else s.switchTo next) =
      s.switchTo next := by
  split
  · next h =>
    rw [h]
    rfl
  · rfl

/-- The dispatch of the source, from either entry. -/
theorem dispatch_advanced (s : Scheduler) {ph : Phase} (hp : ph ≠ .code) :
    ∃ u, Advanced s u ∧ Dispatched u (s.dispatch ph) := by
  have hturns : s.deadlines < s.taskCount + 1 := Nat.lt_succ_of_le (deadlines_le s)
  cases ph with
  | code => exact absurd rfl hp
  | scheduleFrom =>
    refine desLoop_advanced s (fun u hu ↦ ?_) _ hturns
    rw [← hu]
    exact u.takeFrom_current u.selectNext
  | afterDelete => exact desLoop_advanced s (fun u hu ↦ rfl) _ hturns

end Scheduler

end McuSimulator.Rtos
