import McuSimulator.Base.Loop
import McuSimulator.Rtos.Dispatch

/-!
# The two discrete-event loops

`schedule_from` and `schedule_after_delete` each have a `while (true)` loop of their own. Each turn
that goes on wakes a task, so both loops end, and entered with `prev` as `current_` they make the
same choice at the same time with the same table.
-/

namespace McuSimulator.Rtos

open McuSimulator.Base

namespace Scheduler

/-! ### The loops -/

/-- One turn of the loop of `schedule_from(prev)`, up to the switch; rtos/scheduler.cpp:180–220. -/
def scheduleFromTurn (prev : TaskHandle) (s : Scheduler) : Turn Scheduler :=
  let next := s.selectNext
  if next ≠ invalidTask then
    if next = prev then .leave (s.setState prev .running)
    else
      let s := { s with current := next }
      .leave (s.setState next .running)
  else
    let earliest := s.earliest
    if earliest = uint32Max then .leave { s with current := invalidTask }
    else
      let s := { s with tickCount := earliest }
      .again s.wakeExpired

/-- One turn of the loop of `schedule_after_delete`, up to the switch;
rtos/scheduler.cpp:227–260. -/
def scheduleAfterDeleteTurn (s : Scheduler) : Turn Scheduler :=
  let next := s.selectNext
  if next ≠ invalidTask then
    let s := { s with current := next }
    .leave (s.setState next .running)
  else
    let earliest := s.earliest
    if earliest = uint32Max then .leave { s with current := invalidTask }
    else
      let s := { s with tickCount := earliest }
      .again s.wakeExpired

/-- A task that was blocked with a deadline is `READY`. -/
def WakesOne (s s' : Scheduler) : Prop :=
  ∃ t < s.taskCount, Timed (s.tasks t) ∧ (s'.tasks t).state = .ready

/-- One turn of `desLoop`. -/
def desTurn (take : Scheduler → TaskHandle → Scheduler) (s : Scheduler) : Turn Scheduler :=
  if s.selectNext ≠ invalidTask then .leave (take s s.selectNext)
  else if s.earliest = uint32Max then .leave { s with current := invalidTask }
  else .again s.advance

/-! ### One turn -/

section Turn

variable {take : Scheduler → TaskHandle → Scheduler} {s u : Scheduler}

private theorem scheduleFromTurn_eq (prev : TaskHandle) : scheduleFromTurn prev =
    desTurn fun s next ↦ if next = prev then s.setState prev .running else s.switchTo next := by
  funext s
  unfold scheduleFromTurn desTurn
  dsimp only
  split
  · split <;> rfl
  · rfl

private theorem scheduleAfterDeleteTurn_eq :
    scheduleAfterDeleteTurn = desTurn fun s next ↦ s.switchTo next := rfl

/-- A turn goes on where no task can be selected and there is a deadline, and advances the clock
to it. -/
theorem desTurn_eq_again : desTurn take s = .again u ↔
    s.selectNext = invalidTask ∧ s.earliest ≠ uint32Max ∧ u = s.advance := by
  unfold desTurn
  split
  · next hn => exact iff_of_false (fun h ↦ nomatch h) fun h ↦ hn h.1
  · next hn =>
    have hn := Decidable.not_not.mp hn
    split
    · next he => exact iff_of_false (fun h ↦ nomatch h) fun h ↦ h.2.1 he
    · next he => simp [hn, he, eq_comm]

/-- A turn that goes on wakes the task with the earliest deadline. -/
theorem wakesOne_of_again (h : desTurn take s = .again u) : WakesOne s u := by
  obtain ⟨-, he, rfl⟩ := desTurn_eq_again.mp h
  obtain ⟨t, ht, htimed, hdue⟩ := earliest_attained s he
  refine ⟨t, ht, htimed, ?_⟩
  simp [advance, wakeExpired, ht, htimed, hdue]

private theorem deadlines_lt_of_again (h : desTurn take s = .again u) :
    u.deadlines < s.deadlines := by
  obtain ⟨-, he, rfl⟩ := desTurn_eq_again.mp h
  exact deadlines_advance_lt s he

end Turn

/-! ### Runs -/

private theorem desLoop_succ (take : Scheduler → TaskHandle → Scheduler) (turns : Nat)
    (s : Scheduler) :
    desLoop take (turns + 1) s =
      match desTurn take s with
      | .leave t => t
      | .again u => desLoop take turns u := by
  rw [desLoop, desTurn]
  split
  · rfl
  · split <;> rfl

/-- `desLoop` computes what its loop leaves with, given a turn more than go on. -/
theorem desLoop_of_leaves {take : Scheduler → TaskHandle → Scheduler} {n turns : Nat}
    {s t : Scheduler} (h : Leaves (desTurn take) n s t) (hn : n < turns) :
    desLoop take turns s = t := by
  obtain ⟨turns, rfl⟩ : ∃ k, turns = k + 1 := ⟨turns - 1, by omega⟩
  induction h generalizing turns with
  | leave hs => rw [desLoop_succ, hs]
  | again hs _ ih =>
    obtain ⟨turns, rfl⟩ : ∃ k, turns = k + 1 := ⟨turns - 1, by omega⟩
    rw [desLoop_succ, hs]
    exact ih turns (by omega)

/-- The advance leaves `current_` alone, so `schedule_from(current_)` takes the selected task as
`schedule_after_delete` does, also where that is the task that entered. -/
theorem leaves_scheduleAfterDelete {n : Nat} {s t : Scheduler}
    (h : Leaves (scheduleFromTurn s.current) n s t) : Leaves scheduleAfterDeleteTurn n s t := by
  rw [scheduleFromTurn_eq] at h
  rw [scheduleAfterDeleteTurn_eq]
  refine h.congr (fun u ↦ u.current = s.current) (fun u hu ↦ ?_) (fun u v hu hv ↦ ?_) rfl
  · unfold desTurn
    rw [← hu]
    simp only [takeFrom_current]
  · obtain ⟨-, -, rfl⟩ := desTurn_eq_again.mp hv
    exact hu

/-- Each turn of either loop that goes on wakes a task. From any table, with `prev` as `current_`,
both loops end, after the same number of turns and in the same state: with the same choice, the
same clock and the same tasks. It is the state that the dispatch computes. -/
theorem eventLoops_agree (s : Scheduler) :
    (∀ prev u v, scheduleFromTurn prev u = .again v → WakesOne u v) ∧
    (∀ u v, scheduleAfterDeleteTurn u = .again v → WakesOne u v) ∧
    ∃ n ≤ s.deadlines, ∃ t,
      (∀ m u, Leaves (scheduleFromTurn s.current) m s u ↔ m = n ∧ u = t) ∧
      (∀ m u, Leaves scheduleAfterDeleteTurn m s u ↔ m = n ∧ u = t) ∧
      s.scheduleFrom s.current = t ∧ s.scheduleAfterDelete = t := by
  refine ⟨fun prev u v h ↦ ?_, fun u v h ↦ ?_, ?_⟩
  · rw [scheduleFromTurn_eq] at h
    exact wakesOne_of_again h
  · rw [scheduleAfterDeleteTurn_eq] at h
    exact wakesOne_of_again h
  · have hturns : s.deadlines < s.taskCount + 1 := Nat.lt_succ_of_le s.deadlines_le
    have hmeasure : ∀ u v, scheduleFromTurn s.current u = .again v → v.deadlines < u.deadlines := by
      intro u v h
      rw [scheduleFromTurn_eq] at h
      exact deadlines_lt_of_again h
    obtain ⟨n, hn, t, ht⟩ := exists_leaves deadlines hmeasure s
    have ht' := leaves_scheduleAfterDelete ht
    refine ⟨n, hn, t, fun m u ↦ ht.iff, fun m u ↦ ht'.iff, ?_, ?_⟩
    · rw [scheduleFromTurn_eq] at ht
      exact desLoop_of_leaves ht (Nat.lt_of_le_of_lt hn hturns)
    · exact desLoop_of_leaves ht' (Nat.lt_of_le_of_lt hn hturns)

end Scheduler

end McuSimulator.Rtos
