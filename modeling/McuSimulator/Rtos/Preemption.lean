import McuSimulator.Rtos.Lifecycle

/-!
# Priorities and preemption

`unblock`, `tick` and every dispatch leave the CPU with a task of the highest priority among
those that can run. `vTaskResume` and `xTaskCreate` make a task `READY` and return to the caller,
whatever the priorities.
-/

namespace McuSimulator.Rtos

open McuSimulator.Base

variable {α : Type}

/-! ### Priorities -/

/-- Tasks are created with priorities from `PRI_HIGHEST` to `PRI_LOWEST`. -/
def LegalPriority (_ : Scheduler) : Request → Prop
  | .xTaskCreate p => p ≤ priLowest
  | _ => True

instance (s : Scheduler) (r : Request) : Decidable (LegalPriority s r) := by
  induction r using Request.casesOn <;> first
    | exact .isTrue trivial
    | exact inferInstanceAs (Decidable (_ ≤ _))

/-- The priorities of all tasks are legal. -/
def LegalTable (s : Scheduler) : Prop := ∀ t < s.taskCount, (s.tasks t).priority ≤ priLowest

section Table

variable {s s' : Scheduler} {r : Request} {ph : Phase}

/-- Priorities of existing tasks never change. -/
theorem Served.priority_eq (h : Served s r s' ph) {t : TaskHandle} (ht : t < s.taskCount) :
    (s'.tasks t).priority = (s.tasks t).priority := by
  cases h with
  | stay => rfl
  | create p hlt =>
    rw [Scheduler.xTaskCreate_of_lt hlt, Scheduler.setTask_tasks_of_ne _ _ (Nat.ne_of_lt ht)]
  | start hm hn => exact Scheduler.priority_setState _ _ _ _
  | leave _ b _ hm hb hp =>
    by_cases he : t = s.current
    · rw [he, Scheduler.setTask_tasks_self]
      exact hb.priority
    · rw [Scheduler.setTask_tasks_of_ne _ _ he]
  | suspend u hu hne => exact Scheduler.priority_setState _ _ _ _
  | delete u hu hne => exact Scheduler.priority_setState _ _ _ _
  | resume u hu hs => exact Scheduler.priority_setState _ _ _ _
  | wake u hu hb hlow => exact Scheduler.priority_setState _ _ _ _
  | preempt u hu hb hm => rw [Scheduler.priority_setState, Scheduler.priority_setState]
  | scan ms hlow => exact s.scanned_priority ms t
  | scanPreempt ms hm =>
    rw [Scheduler.priority_setState]
    exact s.scanned_priority ms t

/-- Every request with a legal priority keeps the priorities legal. -/
theorem LegalTable.served (h : LegalTable s) (hr : Served s r s' ph) (hg : LegalPriority s r) :
    LegalTable s' := by
  intro t ht
  by_cases hold : t < s.taskCount
  · rw [hr.priority_eq hold]
    exact h t hold
  · cases hr with
    | create p hlt =>
      rw [Scheduler.xTaskCreate_of_lt hlt] at ht ⊢
      have he : t = s.taskCount :=
        Nat.le_antisymm (Nat.le_of_lt_succ ht) (Nat.le_of_not_lt hold)
      rw [he, Scheduler.setTask_tasks_self]
      exact hg
    | _ => exact absurd ht hold

/-- The clock keeps the priorities legal. -/
theorem LegalTable.advanced (h : LegalTable s) {u : Scheduler} (hu : Scheduler.Advanced s u) :
    LegalTable u := by
  intro t ht
  rw [woken_priority (hu.woken t)]
  exact h t (hu.taskCount ▸ ht)

/-- A dispatch keeps the priorities legal. -/
theorem LegalTable.dispatch (h : LegalTable s) (hp : ph ≠ .code) : LegalTable (s.dispatch ph) := by
  obtain ⟨u, hu, hd⟩ := s.dispatch_advanced hp
  have hlegal := h.advanced hu
  generalize s.dispatch ph = v at hd
  cases hd with
  | switch hn =>
    intro t ht
    rw [show (u.switchTo u.selectNext).tasks t =
      (({ u with current := u.selectNext } : Scheduler).setState u.selectNext .running).tasks t
      from rfl, Scheduler.priority_setState]
    exact hlegal t ht
  | idle hn he => exact hlegal

/-- With legal priorities the selection fails only if no task is `READY`. -/
theorem LegalTable.no_ready (h : LegalTable s) (hcount : s.taskCount ≤ maxTasks)
    (hn : s.selectNext = invalidTask) {t : TaskHandle} (ht : t < s.taskCount) :
    (s.tasks t).state ≠ .ready :=
  fun hr ↦ Scheduler.selectNext_ne hcount ht hr (Nat.lt_of_le_of_lt (h t ht) (by decide)) hn

/-! ### Preemption -/

/-- While a task executes, no `READY` task has a higher priority. -/
def Preemptive (s : Scheduler) : Prop :=
  s.current ≠ invalidTask → ∀ t < s.taskCount, (s.tasks t).state = .ready →
    (s.tasks s.current).priority ≤ (s.tasks t).priority

/-- A task neither resumes a suspended task of a higher priority nor creates one. -/
def KeepsPriority (s : Scheduler) : Request → Prop
  | .vTaskResume t => s.current ≠ invalidTask → t < s.taskCount →
      (s.tasks t).state = .suspended → (s.tasks s.current).priority ≤ (s.tasks t).priority
  | .xTaskCreate p => s.current ≠ invalidTask → s.taskCount < maxTasks →
      (s.tasks s.current).priority ≤ p
  | _ => True

instance (s : Scheduler) (r : Request) : Decidable (KeepsPriority s r) := by
  induction r using Request.casesOn <;> first
    | exact .isTrue trivial
    | exact inferInstanceAs (Decidable (_ → _))

/-- A request that does nothing keeps priorities. -/
theorem keepsPriority_of_idle (h : r.Idle s) : KeepsPriority s r := by
  cases r with
  | vTaskResume t =>
    intro hm ht hs
    exact absurd h (not_or.mpr ⟨Nat.not_le.mpr ht, not_not.mpr hs⟩)
  | xTaskCreate p =>
    intro hm hlt
    exact absurd hlt (Nat.not_lt.mpr h)
  | _ => trivial

/-- The new task is `READY`, and nothing else changes. -/
theorem Preemptive.create (h : Preemptive s) (hi : TableInv s .code) (hlt : s.taskCount < maxTasks)
    (p : Nat) : Preemptive (s.xTaskCreate p) ↔
      (s.current ≠ invalidTask → (s.tasks s.current).priority ≤ p) := by
  rw [Scheduler.xTaskCreate_of_lt hlt]
  constructor
  · intro hp hm
    have hne : s.current ≠ s.taskCount := Nat.ne_of_lt (hi.current_lt hm)
    have hnew := hp hm s.taskCount (Nat.lt_succ_self _) (by simp)
    rw [Scheduler.setTask_current, Scheduler.setTask_tasks_self,
      Scheduler.setTask_tasks_of_ne _ _ hne] at hnew
    exact hnew
  · intro hp hm t ht hr
    have hne : s.current ≠ s.taskCount := Nat.ne_of_lt (hi.current_lt hm)
    rw [Scheduler.setTask_current, Scheduler.setTask_tasks_of_ne _ _ hne]
    by_cases he : t = s.taskCount
    · rw [he, Scheduler.setTask_tasks_self]
      exact hp hm
    · rw [Scheduler.setTask_tasks_of_ne _ _ he] at hr ⊢
      exact h hm t (Nat.lt_of_le_of_ne (Nat.le_of_lt_succ ht) he) hr

/-- One task becomes `READY`, and nothing else changes. -/
theorem Preemptive.ready (h : Preemptive s) {t : TaskHandle} (ht : t < s.taskCount) :
    Preemptive (s.setState t .ready) ↔
      (s.current ≠ invalidTask → (s.tasks s.current).priority ≤ (s.tasks t).priority) := by
  constructor
  · intro hp hm
    have hnew := hp hm t ht (by rw [Scheduler.setState_tasks_self])
    rwa [Scheduler.setState_current, Scheduler.priority_setState,
      Scheduler.priority_setState] at hnew
  · intro hp hm u hu hr
    rw [Scheduler.setState_current, Scheduler.priority_setState, Scheduler.priority_setState]
    by_cases he : u = t
    · rw [he]
      exact hp hm
    · rw [Scheduler.setState_tasks_of_ne _ _ he] at hr
      exact h hm u hu hr

/-- A task stops being `READY`, or was not, and nothing else changes. -/
theorem Preemptive.stop (h : Preemptive s) (t : TaskHandle) {st : TaskState} (hst : st ≠ .ready) :
    Preemptive (s.setState t st) := by
  intro hm u hu hr
  rw [Scheduler.setState_current, Scheduler.priority_setState, Scheduler.priority_setState]
  have hstate := s.stateOf_setState t u st
  unfold Scheduler.stateOf at hstate
  rw [hstate] at hr
  split at hr
  · exact absurd hr hst
  · exact h hm u hu hr

/-- Switching to the selected task. -/
theorem preemptive_switchTo {v : Scheduler} (hn : v.selectNext ≠ invalidTask) :
    Preemptive (v.switchTo v.selectNext) := by
  intro _ t ht hr
  have hne : t ≠ v.selectNext := by
    rintro rfl
    rw [Scheduler.switchTo_tasks_self] at hr
    cases hr
  rw [Scheduler.switchTo_tasks_of_ne _ hne] at hr ⊢
  rw [Scheduler.switchTo_current, Scheduler.switchTo_tasks_self]
  exact Scheduler.selectNext_best hn ht hr

/-- A request that returns to the caller is served without leaving a higher priority `READY`,
exactly if it keeps priorities. -/
theorem Preemptive.served (h : Preemptive s) (hi : TableInv s .code) (hl : LegalTable s)
    (hr : Served s r s' .code) : Preemptive s' ↔ KeepsPriority s r := by
  have hscan (ms : Nat) (hlow : (s.scanned ms).selectNext ≠ invalidTask →
      s.current ≠ invalidTask → (s.tasks s.current).priority ≤
        ((s.scanned ms).tasks (s.scanned ms).selectNext).priority) :
      Preemptive (s.scanned ms) := by
    intro hm t ht hready
    rw [Scheduler.scanned_current] at hm ⊢
    have hcount : (s.scanned ms).taskCount ≤ maxTasks := hi.taskCount_le
    have hprio : (s.tasks t).priority ≤ priLowest := hl t ht
    have hn : (s.scanned ms).selectNext ≠ invalidTask :=
      Scheduler.selectNext_ne hcount ht hready (by
        rw [s.scanned_priority]
        exact Nat.lt_of_le_of_lt hprio (by decide))
    rw [s.scanned_priority]
    exact Nat.le_trans (hlow hn hm) (Scheduler.selectNext_best hn ht hready)
  cases hr with
  | stay _ hidle => exact iff_of_true h (keepsPriority_of_idle hidle)
  | create p hlt =>
    rw [h.create hi hlt]
    exact ⟨fun hp hm _ ↦ hp hm, fun hp hm ↦ hp hm hlt⟩
  | start hm hn => exact iff_of_true (preemptive_switchTo hn) trivial
  | leave _ b _ hm hb hp => exact absurd rfl hp
  | suspend t ht hne => exact iff_of_true (h.stop t (by decide)) trivial
  | delete t ht hne => exact iff_of_true (h.stop t (by decide)) trivial
  | resume t ht hs =>
    rw [h.ready ht]
    exact ⟨fun hp hm _ _ ↦ hp hm, fun hp hm ↦ hp hm ht hs⟩
  | wake t ht hb hlow => exact iff_of_true ((h.ready ht).mpr hlow) trivial
  | scan ms hlow => exact iff_of_true (hscan ms hlow) trivial

/-- A dispatch leaves the CPU with a task of the highest priority. -/
theorem preemptive_dispatch (s : Scheduler) (hp : ph ≠ .code) : Preemptive (s.dispatch ph) := by
  obtain ⟨u, -, hd⟩ := s.dispatch_advanced hp
  generalize s.dispatch ph = v at hd
  cases hd with
  | switch hn => exact preemptive_switchTo hn
  | idle hn he => exact fun hm ↦ absurd rfl hm

end Table

/-! ### Runs -/

/-- What a program promises: legal priorities, and no task that makes one of a higher priority
`READY`. -/
def PriorityCalls (s : Scheduler) (r : Request) : Prop := LegalPriority s r ∧ KeepsPriority s r

instance (s : Scheduler) (r : Request) : Decidable (PriorityCalls s r) :=
  inferInstanceAs (Decidable (_ ∧ _))

/-- The invariant of preemption. -/
structure PriorityInv (s : Sys α) : Prop where
  table : TableInv s.sched s.phase
  legal : LegalTable s.sched
  preemptive : s.phase = .code → Preemptive s.sched

section Step

variable {s s' : Sys α} {a : ApiAct α}

private theorem LegalTable.step (h : LegalTable s.sched) (hi : TableInv s.sched s.phase)
    (hg : Asks LegalPriority s a) (hs : ApiStep s a s') : LegalTable s'.sched := by
  rcases hs.served hi.taskCount_le with ⟨-, hr⟩ | ⟨hp, -, he, -⟩
  · exact h.served hr hg
  · rw [he]
    exact h.dispatch hp

/-- Exactly the steps that keep priorities lead to code that executes with the highest one. -/
theorem PriorityInv.step_iff (h : PriorityInv s) (hs : ApiStep s a s') (hc : s'.phase = .code) :
    Preemptive s'.sched ↔ Asks KeepsPriority s a := by
  rcases hs.served h.table.taskCount_le with ⟨hp, hr⟩ | ⟨hp, rfl, he, -⟩
  · have hi := h.table
    rw [hp] at hi
    rw [hc] at hr
    exact (h.preemptive hp).served hi h.legal hr
  · rw [he]
    exact iff_of_true (preemptive_dispatch s.sched hp) trivial

private theorem PriorityInv.step (h : PriorityInv s) (hg : Asks PriorityCalls s a)
    (hs : ApiStep s a s') :
    PriorityInv s' where
  table := h.table.step hs
  legal := h.legal.step h.table hg.1 hs
  preemptive hc := (h.step_iff hs hc).mpr hg.2

end Step

private theorem priorityInv_of_reach [Inhabited α] {s : Sys α}
    (h : Reach IsInit (Asks PriorityCalls) ApiStep s) : PriorityInv s := by
  have hinit : ∀ u : Sys α, IsInit u → PriorityInv u := by
    rintro _ ⟨cfg, rfl⟩
    exact ⟨.init cfg, fun t ht ↦ absurd ht (Nat.not_lt_zero t), fun _ hm ↦ absurd rfl hm⟩
  exact h.invariant hinit fun _ _ _ hi hg hst ↦ hi.step hg hst

/-- Whenever a task executes code, no `READY` task has a higher priority. -/
theorem runs_highest [Inhabited α] (s : Sys α) (h : Reach IsInit (Asks PriorityCalls) ApiStep s)
    (hp : s.phase = .code) (hm : s.sched.current ≠ invalidTask) :
    ∀ t < s.sched.taskCount, s.sched.getState t = .ready →
      s.sched.getPriority s.sched.current ≤ s.sched.getPriority t := by
  have hi := priorityInv_of_reach h
  intro t ht hr
  rw [TableInv.getState_eq ht] at hr
  rw [Scheduler.getPriority, Scheduler.getPriority, if_neg (Nat.not_le.mpr ht),
    if_neg (Nat.not_le.mpr (hi.table.current_lt hm))]
  exact hi.preemptive hp hm t ht hr

/-- A low task gives to a high one that waits, and is preempted inside `give`. -/
def preemptedRun : List (ApiAct Unit) :=
  [.act (.call (.xTaskCreate 1)), .act (.call (.xTaskCreate 6)),
    .act (.call .vTaskStartScheduler), .act (.call (.take 0)), .act .dispatch,
    .act (.call (.give 0)), .act .dispatch, .act .resume]

private theorem preemptedRun_isSome :
    (runActs Sys.apiExec preemptedRun (.init {})).isSome = true := by
  decide +kernel

def preemptedEnd : Sys Unit :=
  (runActs Sys.apiExec preemptedRun (.init {})).get preemptedRun_isSome

/-- The high task runs while the low one is `READY`. -/
theorem runs_highest_preempted :
    preemptedEnd.sched.getState 1 = .ready ∧
      preemptedEnd.sched.getPriority preemptedEnd.sched.current ≤
        preemptedEnd.sched.getPriority 1 := by
  have hready : preemptedEnd.sched.getState 1 = .ready := by decide +kernel
  exact ⟨hready, runs_highest preemptedEnd
    (Reach.of_guardedRun ApiStep.of_apiExec preemptedRun ⟨{}, rfl⟩ (by decide +kernel)
      preemptedRun_isSome)
    (by decide +kernel) (by decide +kernel) 1 (by decide +kernel) hready⟩

/-- A low task resumes a high one, which had been suspended before the start. -/
def resumeHigherRun : List (ApiAct Unit) :=
  [.act (.call (.xTaskCreate 1)), .act (.call (.xTaskCreate 6)), .act (.call (.vTaskSuspend 0)),
    .act (.call .vTaskStartScheduler), .act (.call (.vTaskResume 0))]

private theorem resumeHigherRun_isSome :
    (runActs Sys.apiExec resumeHigherRun (.init {})).isSome = true := by
  decide +kernel

def resumeHigherEnd : Sys Unit :=
  (runActs Sys.apiExec resumeHigherRun (.init {})).get resumeHigherRun_isSome

/-- The low task goes on while the high one is `READY`. -/
theorem resume_does_not_preempt :
    (resumeHigherEnd.sched.current = 1 ∧ (resumeHigherEnd.kont 1).IsUser ∧
      resumeHigherEnd.sched.getState 0 = .ready ∧
      resumeHigherEnd.sched.getPriority 0 < resumeHigherEnd.sched.getPriority 1) ∧
    ¬ ∀ s : Sys Unit, Reach IsInit (Asks LegalPriority) ApiStep s → s.phase = .code →
      s.sched.current ≠ invalidTask → ∀ t < s.sched.taskCount, s.sched.getState t = .ready →
        s.sched.getPriority s.sched.current ≤ s.sched.getPriority t := by
  have hend : resumeHigherEnd.sched.current = 1 ∧ (resumeHigherEnd.kont 1).IsUser ∧
      resumeHigherEnd.sched.getState 0 = .ready ∧
      resumeHigherEnd.sched.getPriority 0 < resumeHigherEnd.sched.getPriority 1 := by
    decide +kernel
  refine ⟨hend, fun h ↦ ?_⟩
  obtain ⟨hcur, -, hready, hlt⟩ := hend
  have hle := h resumeHigherEnd
    (Reach.of_guardedRun ApiStep.of_apiExec resumeHigherRun ⟨{}, rfl⟩ (by decide +kernel)
      resumeHigherRun_isSome)
    (by decide +kernel) (by decide +kernel) 0 (by decide +kernel) hready
  rw [hcur] at hle
  exact absurd hlt (Nat.not_lt.mpr hle)

end McuSimulator.Rtos
