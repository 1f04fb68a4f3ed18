import Mathlib.Algebra.Group.Nat.Defs
import McuSimulator.Base.Counting
import McuSimulator.Base.Least

/-!
# Scheduler state and task selection

The kernel of `rtos/scheduler.h` and `rtos/scheduler.cpp`: task control blocks, the choice
of the next task, and the discrete-event time advance. A context switch is modelled by its
effect on the table (`current_` and the `RUNNING` mark); the contexts themselves are the
continuations of `McuSimulator.Rtos.System`. `uint32_t` ticks are naturals taken modulo
`2 ^ 32`, handles and priorities are naturals holding bytes.
-/

namespace McuSimulator.Rtos

open McuSimulator.Base

/-- `TaskHandle_t`, a byte; rtos/scheduler.h:21. -/
abbrev TaskHandle := Nat

/-- `MAX_TASKS`; rtos/scheduler.h:16. -/
def maxTasks : Nat := 16

/-- `INVALID_TASK`; rtos/scheduler.h:22. -/
def invalidTask : TaskHandle := 0xFF

/-- `PRI_LOWEST`, the default priority of a control block; rtos/scheduler.h:19. -/
def priLowest : Nat := 7

/-- `UINT32_MAX`, the "no deadline" mark of the discrete-event advance. -/
def uint32Max : Nat := 0xFFFFFFFF

/-- `TaskState`; rtos/scheduler.h:24–26. -/
inductive TaskState where
  | ready
  | running
  | blocked
  | suspended
  | deleted
  deriving DecidableEq, Repr

/-- The scheduling fields of `TCB`; rtos/scheduler.h:29–37. -/
structure Tcb where
  priority : Nat := priLowest
  state : TaskState := .deleted
  resumeTick : Nat := 0
  deriving DecidableEq, Repr

/-- The private fields of `Scheduler` other than contexts; rtos/scheduler.h:78–82. -/
structure Scheduler where
  tasks : TaskHandle → Tcb
  taskCount : Nat
  tickCount : Nat
  current : TaskHandle

namespace Scheduler

/-- The default-constructed scheduler. -/
def init : Scheduler :=
  { tasks := fun _ ↦ {}, taskCount := 0, tickCount := 0, current := invalidTask }

/-- Overwrite one control block. -/
def setTask (s : Scheduler) (t : TaskHandle) (b : Tcb) : Scheduler :=
  { s with tasks := Function.update s.tasks t b }

/-- `tasks_[t].state = st`. -/
def setState (s : Scheduler) (t : TaskHandle) (st : TaskState) : Scheduler :=
  s.setTask t { s.tasks t with state := st }

/-- The state of a task, without the range check of `get_state`. -/
def stateOf (s : Scheduler) (t : TaskHandle) : TaskState := (s.tasks t).state

/-- `get_state`; rtos/scheduler.cpp:147–150. -/
def getState (s : Scheduler) (t : TaskHandle) : TaskState :=
  if s.taskCount ≤ t then .deleted else (s.tasks t).state

/-- `get_priority`; rtos/scheduler.cpp:152–155. -/
def getPriority (s : Scheduler) (t : TaskHandle) : Nat :=
  if s.taskCount ≤ t then 0xFF else (s.tasks t).priority

/-! ### Field lemmas -/

section Fields

variable (s : Scheduler) (t u : TaskHandle) (b : Tcb) (st : TaskState)

/-- A new entry creates no task. -/
@[simp] theorem setTask_taskCount : (s.setTask t b).taskCount = s.taskCount := rfl
/-- A new entry leaves the clock. -/
@[simp] theorem setTask_tickCount : (s.setTask t b).tickCount = s.tickCount := rfl
/-- A new entry does not switch tasks. -/
@[simp] theorem setTask_current : (s.setTask t b).current = s.current := rfl
/-- A new state creates no task. -/
@[simp] theorem setState_taskCount : (s.setState t st).taskCount = s.taskCount := rfl
/-- A new state leaves the clock. -/
@[simp] theorem setState_tickCount : (s.setState t st).tickCount = s.tickCount := rfl
/-- A new state does not switch tasks. -/
@[simp] theorem setState_current : (s.setState t st).current = s.current := rfl

/-- The entry that has been set. -/
@[simp] theorem setTask_tasks_self : (s.setTask t b).tasks t = b := by simp [setTask]

/-- The other entries are as before. -/
theorem setTask_tasks_of_ne {t u : TaskHandle} (h : u ≠ t) :
    (s.setTask t b).tasks u = s.tasks u := by
  simp [setTask, h]

/-- The entry with its new state. -/
theorem setState_tasks_self :
    (s.setState t st).tasks t = { s.tasks t with state := st } := by
  simp [setState]

/-- The other entries are as before. -/
theorem setState_tasks_of_ne {t u : TaskHandle} (h : u ≠ t) :
    (s.setState t st).tasks u = s.tasks u := by
  simp [setState, setTask_tasks_of_ne s _ h]

/-- The states after a change of one. -/
theorem stateOf_setState :
    (s.setState t st).stateOf u = if u = t then st else s.stateOf u := by
  unfold stateOf
  split
  · next h => rw [h, setState_tasks_self]
  · next h => rw [setState_tasks_of_ne s st h]

/-- A new state leaves the deadlines. -/
@[simp] theorem resumeTick_setState :
    ((s.setState t st).tasks u).resumeTick = (s.tasks u).resumeTick := by
  by_cases h : u = t
  · rw [h, setState_tasks_self]
  · rw [setState_tasks_of_ne s st h]

/-- A new state leaves the priorities. -/
@[simp] theorem priority_setState :
    ((s.setState t st).tasks u).priority = (s.tasks u).priority := by
  by_cases h : u = t
  · rw [h, setState_tasks_self]
  · rw [setState_tasks_of_ne s st h]

end Fields

/-! ### Selecting the next task -/

/-- The first loop of `select_next`: the least priority value below `0xFF` among the
`READY` tasks, or `0xFF`; rtos/scheduler.cpp:159–163. -/
def bestPrio (s : Scheduler) : Nat :=
  (List.range s.taskCount).foldl
    (fun best i ↦
      if (s.tasks i).state = .ready ∧ (s.tasks i).priority < best then (s.tasks i).priority
      else best) 0xFF

/-- Where the round-robin scan starts; rtos/scheduler.cpp:166. -/
def scanStart (s : Scheduler) : Nat :=
  if s.current = invalidTask then 0 else (s.current + 1) % s.taskCount

/-- `select_next`; rtos/scheduler.cpp:158–174. -/
def selectNext (s : Scheduler) : TaskHandle :=
  if s.bestPrio = 0xFF then invalidTask
  else
    match (List.range s.taskCount).find? (fun i ↦
        let idx := (s.scanStart + i) % s.taskCount
        decide ((s.tasks idx).state = .ready ∧ (s.tasks idx).priority = s.bestPrio)) with
    | some i => (s.scanStart + i) % s.taskCount
    | none => invalidTask

/-- The task chosen by `select_next` exists and is `READY`. -/
theorem selectNext_ready (s : Scheduler) (h : s.selectNext ≠ invalidTask) :
    s.selectNext < s.taskCount ∧ (s.tasks s.selectNext).state = .ready := by
  generalize he : s.selectNext = t at h ⊢
  unfold selectNext at he
  split at he
  · exact absurd he.symm h
  · split at he
    · next i hf =>
      have hp := List.find?_some hf
      have hlt : i < s.taskCount := List.mem_range.mp (List.mem_of_find?_eq_some hf)
      simp only [decide_eq_true_eq] at hp
      rw [← he]
      exact ⟨Nat.mod_lt _ (by omega), hp.1⟩
    · exact absurd he.symm h

/-! ### Deadlines -/

/-- A task the deadline scans look at: `BLOCKED` with a nonzero `resume_tick`. -/
def Timed (b : Tcb) : Prop := b.state = .blocked ∧ 0 < b.resumeTick

instance (b : Tcb) : Decidable (Timed b) := inferInstanceAs (Decidable (_ ∧ _))

/-- The earliest pending deadline, `UINT32_MAX` when there is none;
rtos/scheduler.cpp:197–202. -/
def earliest (s : Scheduler) : Nat :=
  (List.range s.taskCount).foldl
    (fun e i ↦ if Timed (s.tasks i) then min e (s.tasks i).resumeTick else e) uint32Max

/-- The deadline scan shared by `tick` and both discrete-event loops: every expired
`BLOCKED` task becomes `READY`; rtos/scheduler.cpp:130–137, 211–218, 252–259. -/
def wakeExpired (s : Scheduler) : Scheduler :=
  { s with
    tasks := fun i ↦
      if i < s.taskCount ∧ Timed (s.tasks i) ∧ (s.tasks i).resumeTick ≤ s.tickCount then
        { s.tasks i with state := .ready, resumeTick := 0 }
      else s.tasks i }

/-- Waking expired tasks creates none. -/
@[simp] theorem wakeExpired_taskCount (s : Scheduler) :
    s.wakeExpired.taskCount = s.taskCount := rfl
/-- Waking expired tasks leaves the clock. -/
@[simp] theorem wakeExpired_tickCount (s : Scheduler) :
    s.wakeExpired.tickCount = s.tickCount := rfl
/-- Waking expired tasks does not switch tasks. -/
@[simp] theorem wakeExpired_current (s : Scheduler) : s.wakeExpired.current = s.current := rfl

/-- `current_ = next; tasks_[next].state = RUNNING`, and the switch into `next`. The first
thing `next` does when it is resumed inside `schedule_from` is to mark itself `RUNNING`
once more; rtos/scheduler.cpp:188–192. -/
def switchTo (s : Scheduler) (next : TaskHandle) : Scheduler :=
  { s with current := next }.setState next .running

/-- A switch creates no task. -/
@[simp] theorem switchTo_taskCount (s : Scheduler) (t : TaskHandle) :
    (s.switchTo t).taskCount = s.taskCount := rfl
/-- The task that is switched to is the current one. -/
@[simp] theorem switchTo_current (s : Scheduler) (t : TaskHandle) :
    (s.switchTo t).current = t := rfl

/-- The task that is switched to is `RUNNING`. -/
theorem switchTo_tasks_self (s : Scheduler) (t : TaskHandle) :
    (s.switchTo t).tasks t = { s.tasks t with state := .running } := by
  simp [switchTo, setState]

/-- The other entries are as before. -/
theorem switchTo_tasks_of_ne (s : Scheduler) {t u : TaskHandle} (h : u ≠ t) :
    (s.switchTo t).tasks u = s.tasks u := by
  simp [switchTo, setState, setTask, h]

/-- The discrete-event loop of `schedule_from` and `schedule_after_delete`: take the next
task if there is one, else move the clock to the earliest deadline, else fall back to the
idle context. `take` is what is done with the chosen task. Each turn that finds no task
wakes one, so `taskCount + 1` turns are enough (`desLoop_dispatches`). -/
def desLoop (take : Scheduler → TaskHandle → Scheduler) : Nat → Scheduler → Scheduler
  | 0, s => s
  | turns + 1, s =>
    if s.selectNext ≠ invalidTask then take s s.selectNext
    else if s.earliest = uint32Max then { s with current := invalidTask }
    else desLoop take turns { s with tickCount := s.earliest }.wakeExpired

/-- `schedule_from`; rtos/scheduler.cpp:179–221. -/
def scheduleFrom (s : Scheduler) (prev : TaskHandle) : Scheduler :=
  desLoop (fun s next ↦ if next = prev then s.setState prev .running else s.switchTo next)
    (s.taskCount + 1) s

/-- `schedule_after_delete`; rtos/scheduler.cpp:226–261. -/
def scheduleAfterDelete (s : Scheduler) : Scheduler :=
  desLoop (fun s next ↦ s.switchTo next) (s.taskCount + 1) s

/-! ### What a dispatch can do -/

/-- A control block as a deadline scan may leave it. -/
def Woken (b c : Tcb) : Prop :=
  c = b ∨ (Timed b ∧ c = { b with state := .ready, resumeTick := 0 })

/-- A task that is left alone. -/
theorem Woken.refl (b : Tcb) : Woken b b := .inl rfl

/-- A task is woken once. -/
theorem Woken.trans {b c d : Tcb} (h : Woken b c) (h' : Woken c d) : Woken b d := by
  rcases h with rfl | ⟨ht, rfl⟩
  · exact h'
  · rcases h' with rfl | ⟨ht', rfl⟩
    · exact .inr ⟨ht, rfl⟩
    · exact absurd ht'.1 (by simp)

/-- Waking expired tasks leaves a task or wakes it. -/
theorem woken_wakeExpired (s : Scheduler) (t : TaskHandle) :
    Woken (s.tasks t) (s.wakeExpired.tasks t) := by
  unfold wakeExpired
  simp only
  split
  · next h => exact .inr ⟨h.2.1, rfl⟩
  · exact .inl rfl

/-- What any dispatcher may do to the table: wake deadline-blocked tasks, then run one
`READY` task or fall back to the idle context. -/
structure Dispatches (s s' : Scheduler) : Prop where
  taskCount : s'.taskCount = s.taskCount
  tasks : ∀ t, (t = s'.current → t = invalidTask) → Woken (s.tasks t) (s'.tasks t)
  current : s'.current = invalidTask ∨
    (s'.current < s.taskCount ∧ ∃ b, Woken (s.tasks s'.current) b ∧ b.state = .ready ∧
      s'.tasks s'.current = { b with state := .running })

/-- A dispatch does to a task at most what a deadline scan does, and marks the one that is given
the CPU. -/
theorem Dispatches.task_cases {s s' : Scheduler} (h : Dispatches s s') (t : TaskHandle) :
    Woken (s.tasks t) (s'.tasks t) ∨ (t = s'.current ∧ t ≠ invalidTask ∧
      ∃ b, Woken (s.tasks t) b ∧ b.state = .ready ∧ s'.tasks t = { b with state := .running }) := by
  by_cases ht : t = s'.current → t = invalidTask
  · exact .inl (h.tasks t ht)
  · obtain ⟨hcur, hinv⟩ := Classical.not_imp.mp ht
    rcases h.current with h0 | ⟨-, b, hb, hr, he⟩
    · exact absurd (hcur.trans h0) hinv
    · rw [← hcur] at hb he
      exact .inr ⟨hcur, hinv, b, hb, hr, he⟩

/-- A deadline scan before a dispatch is part of the dispatch. -/
theorem Dispatches.of_woken {s u s' : Scheduler} (hc : u.taskCount = s.taskCount)
    (hw : ∀ t, Woken (s.tasks t) (u.tasks t)) (h : Dispatches u s') : Dispatches s s' where
  taskCount := h.taskCount.trans hc
  tasks t ht := (hw t).trans (h.tasks t ht)
  current := by
    rcases h.current with h0 | ⟨hlt, b, hb, hr, he⟩
    · exact .inl h0
    · exact .inr ⟨hc ▸ hlt, b, (hw _).trans hb, hr, he⟩

/-- Switching to a `READY` task is a dispatch. -/
theorem dispatches_switchTo {s : Scheduler} {t : TaskHandle} (hlt : t < s.taskCount)
    (hr : (s.tasks t).state = .ready) (hn : t ≠ invalidTask) : Dispatches s (s.switchTo t) where
  taskCount := rfl
  tasks u hu := by
    rw [switchTo_current] at hu
    rw [switchTo_tasks_of_ne s fun h ↦ hn (h.symm.trans (hu h))]
    exact .refl _
  current := .inr ⟨hlt, _, .refl _, hr, switchTo_tasks_self s t⟩

/-- The number of deadlines the discrete-event advance still has ahead of it. -/
def deadlines (s : Scheduler) : Nat :=
  (List.range s.taskCount).countP (fun i ↦ decide (Timed (s.tasks i)))

/-- There are no more deadlines than tasks. -/
theorem deadlines_le (s : Scheduler) : s.deadlines ≤ s.taskCount := by
  have h : s.deadlines ≤ (List.range s.taskCount).length := List.countP_le_length
  rwa [List.length_range] at h

/-- A deadline below `UINT32_MAX` belongs to a task. -/
theorem earliest_attained (s : Scheduler) (h : s.earliest ≠ uint32Max) :
    ∃ i < s.taskCount, Timed (s.tasks i) ∧ (s.tasks i).resumeTick = s.earliest := by
  rcases least_mem (fun i ↦ Timed (s.tasks i)) (fun i ↦ (s.tasks i).resumeTick)
    (List.range s.taskCount) uint32Max with h0 | ⟨i, hi, ht, he⟩
  · exact absurd h0 h
  · exact ⟨i, List.mem_range.mp hi, ht, he⟩

/-- An unsuccessful turn of the discrete-event loop wakes at least one task. -/
theorem deadlines_advance_lt (s : Scheduler) (h : s.earliest ≠ uint32Max) :
    ({ s with tickCount := s.earliest }.wakeExpired).deadlines < s.deadlines := by
  obtain ⟨i, hi, ht, he⟩ := earliest_attained s h
  unfold deadlines
  rw [wakeExpired_taskCount]
  refine countP_lt_of_imp ?_ (List.mem_range.mpr hi) ?_ (decide_eq_true ht)
  · intro j hj
    simp only [decide_eq_true_eq] at hj ⊢
    rcases woken_wakeExpired { s with tickCount := s.earliest } j with hw | ⟨hw, _⟩
    · rwa [hw] at hj
    · exact hw
  · have hw : (({ s with tickCount := s.earliest }.wakeExpired).tasks i).state = .ready := by
      simp [wakeExpired, hi, ht, he]
    simp [Timed, hw]

/-- The discrete-event loop ends, in a dispatch of the table it started from. The advance
leaves `current_` alone, so what is done with the chosen task may rely on it. -/
theorem desLoop_dispatches {take : Scheduler → TaskHandle → Scheduler} (s : Scheduler)
    (htake : ∀ u : Scheduler, u.current = s.current → u.selectNext ≠ invalidTask →
      Dispatches u (take u u.selectNext))
    (turns : Nat) (h : s.deadlines < turns) : Dispatches s (desLoop take turns s) := by
  induction turns generalizing s with
  | zero => omega
  | succ turns ih =>
    unfold desLoop
    split
    · next hn => exact htake s rfl hn
    · split
      · exact ⟨rfl, fun t _ ↦ .refl _, .inl rfl⟩
      · next he =>
        have hlt := deadlines_advance_lt s he
        refine Dispatches.of_woken (u := { s with tickCount := s.earliest }.wakeExpired) rfl
          (fun t ↦ woken_wakeExpired { s with tickCount := s.earliest } t) ?_
        exact ih _ htake (by omega)

/-- `schedule_from(current_)` dispatches. -/
theorem scheduleFrom_dispatches (s : Scheduler) :
    Dispatches s (s.scheduleFrom s.current) := by
  refine desLoop_dispatches s (fun u hu hn ↦ ?_) _ (Nat.lt_succ_of_le (deadlines_le s))
  obtain ⟨hlt, hr⟩ := selectNext_ready u hn
  split
  · next hp =>
    have hs : u.setState s.current .running = u.switchTo u.selectNext := by
      rw [hp, ← hu]
      rfl
    rw [hs]
    exact dispatches_switchTo hlt hr hn
  · exact dispatches_switchTo hlt hr hn

/-- `schedule_after_delete` dispatches. -/
theorem scheduleAfterDelete_dispatches (s : Scheduler) : Dispatches s s.scheduleAfterDelete := by
  refine desLoop_dispatches s (fun u _ hn ↦ ?_) _ (Nat.lt_succ_of_le (deadlines_le s))
  obtain ⟨hlt, hr⟩ := selectNext_ready u hn
  exact dispatches_switchTo hlt hr hn

end Scheduler

end McuSimulator.Rtos
