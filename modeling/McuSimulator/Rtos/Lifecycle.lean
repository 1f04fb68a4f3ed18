import McuSimulator.Rtos.Discipline

/-!
# The running task and the deleted ones

Over every run of the whole API: the task that `current_` names is the one marked `RUNNING`,
and a deleted task stays deleted. Both are about programs that do not apply `vTaskSuspend`,
which does not look at the old state, to a deleted task: the task would become `SUSPENDED`, and
`vTaskResume` would then make it `READY`.
-/

namespace McuSimulator.Rtos

open McuSimulator.Base

variable {α : Type}

/-- What a program promises of its requests. -/
def Asks (P : Scheduler → Request → Prop) (s : Sys α) (a : ApiAct α) : Prop :=
  P s.sched (s.request a)

instance (P : Scheduler → Request → Prop) [∀ s r, Decidable (P s r)] (s : Sys α) (a : ApiAct α) :
    Decidable (Asks P s a) :=
  inferInstanceAs (Decidable (P _ _))

/-- Anything may be asked for. -/
def AnyCalls (_ : Scheduler) (_ : Request) : Prop := True

instance (s : Scheduler) (r : Request) : Decidable (AnyCalls s r) := .isTrue trivial

/-- `vTaskSuspend` is not applied to a deleted task. -/
def SparesDeleted (s : Scheduler) : Request → Prop
  | .vTaskSuspend t => t < s.taskCount → (s.tasks t).state ≠ .deleted
  | _ => True

instance (s : Scheduler) (r : Request) : Decidable (SparesDeleted s r) := by
  induction r using Request.casesOn <;> first
    | exact .isTrue trivial
    | exact inferInstanceAs (Decidable (_ → _))

/-! ### The running task -/

/-- The invariant of the table holds at the start. -/
theorem TableInv.init [Inhabited α] (cfg : Config) :
    TableInv (Sys.init cfg : Sys α).sched (Sys.init cfg : Sys α).phase :=
  (SchedInv.init cfg).table

/-- The table and `current_` are in step in every state of every run. -/
theorem tableInv_of_reach [Inhabited α] {P : Scheduler → Request → Prop} {s : Sys α}
    (h : Reach IsInit (Asks P) ApiStep s) : TableInv s.sched s.phase := by
  have hinit : ∀ u : Sys α, IsInit u → TableInv u.sched u.phase := by
    rintro _ ⟨cfg, rfl⟩
    exact .init cfg
  exact h.invariant hinit fun _ _ _ hi _ hst ↦ hi.step hst

/-- The state of an existing task is read from its entry. -/
theorem TableInv.getState_eq {s : Scheduler} {t : TaskHandle} (ht : t < s.taskCount) :
    s.getState t = (s.tasks t).state :=
  if_neg (Nat.not_le.mpr ht)

/-- Whenever code executes, a task is `RUNNING` if and only if `current_` names it, and none is
outside the tasks. -/
theorem running_iff_current [Inhabited α] (s : Sys α)
    (h : Reach IsInit (Asks SparesDeleted) ApiStep s) (hp : s.phase = .code) :
    (∀ t < s.sched.taskCount, s.sched.getState t = .running ↔ t = s.sched.current) ∧
      (s.sched.current = invalidTask →
        ∀ t < s.sched.taskCount, s.sched.getState t ≠ .running) := by
  have hi := tableInv_of_reach h
  rw [hp] at hi
  have hiff : ∀ t < s.sched.taskCount, s.sched.getState t = .running ↔ t = s.sched.current := by
    intro t ht
    rw [TableInv.getState_eq ht, hi.running t]
    constructor
    · intro hr
      exact hr.2.1
    · intro he
      exact ⟨rfl, he, he ▸ hi.ne_invalid ht⟩
  refine ⟨hiff, fun hm t ht hr ↦ ?_⟩
  exact hi.ne_invalid ht (((hiff t ht).mp hr).trans hm)

/-- Two tasks; the first waits, the second gives and is preempted, the first returns, the second
goes on and returns, and the scheduler is started again for a third. -/
def restartRun : List (ApiAct Unit) :=
  [.act (.call (.xTaskCreate 1)), .act (.call (.xTaskCreate 2)),
    .act (.call .vTaskStartScheduler), .act (.call (.take 0)), .act .dispatch,
    .act (.call (.give 0)), .act .dispatch, .act .resume, .act (.call .taskReturn),
    .act .dispatch, .act (.call .taskReturn), .act .dispatch, .act (.call (.xTaskCreate 3)),
    .act (.call .vTaskStartScheduler)]

private theorem restartRun_isSome : (runActs Sys.apiExec restartRun (.init {})).isSome = true := by
  decide +kernel

def restartEnd : Sys Unit := (runActs Sys.apiExec restartRun (.init {})).get restartRun_isSome

/-- The third task runs, and the others do not. -/
theorem running_iff_current_restart :
    restartEnd.sched.getState 2 = .running ∧ restartEnd.sched.getState 0 ≠ .running := by
  have hreach : Reach IsInit (Asks SparesDeleted) ApiStep restartEnd :=
    Reach.of_guardedRun ApiStep.of_apiExec restartRun ⟨{}, rfl⟩ (by decide +kernel)
      restartRun_isSome
  have hcur : restartEnd.sched.current = 2 ∧ restartEnd.sched.taskCount = 3 := by decide +kernel
  obtain ⟨hiff, -⟩ := running_iff_current restartEnd hreach (by decide +kernel)
  rw [hcur.1, hcur.2] at hiff
  exact ⟨(hiff 2 (by decide)).mpr rfl, fun hr ↦ absurd ((hiff 0 (by decide)).mp hr) (by decide)⟩

/-! ### Deleted tasks -/

section Deleted

variable {s s' : Scheduler} {ph : Phase} {t : TaskHandle}

/-- A change of another task's state is not seen. -/
theorem state_setState_of_ne {u : TaskHandle} (h : t ≠ u) (st : TaskState) :
    ((s.setState u st).tasks t).state = (s.tasks t).state := by
  rw [Scheduler.setState_tasks_of_ne _ _ h]

/-- No request but `vTaskSuspend` changes the state of a deleted task. -/
theorem TableInv.deleted_served (h : TableInv s .code) {r : Request} (hr : Served s r s' ph)
    (ht : t < s.taskCount) (hd : (s.tasks t).state = .deleted) (hne : r ≠ .vTaskSuspend t) :
    (s'.tasks t).state = .deleted := by
  have hother {u : TaskHandle} {st : TaskState} (hu : (s.tasks u).state = st)
      (hst : st ≠ .deleted) : t ≠ u := by
    rintro rfl
    exact hst (hu.symm.trans hd)
  have hscan (ms : Nat) : ((s.scanned ms).tasks t).state = .deleted := by
    rcases s.scanned_woken ms t with he | ⟨hb, -⟩
    · rw [he, hd]
    · exact absurd (hd.symm.trans hb.1) (by decide)
  cases hr with
  | stay => exact hd
  | create p hlt =>
    rw [Scheduler.xTaskCreate_of_lt hlt, Scheduler.setTask_tasks_of_ne _ _ (Nat.ne_of_lt ht)]
    exact hd
  | start hm hn =>
    rw [Scheduler.switchTo_tasks_of_ne _ (hother (s.selectNext_ready hn).2 (by decide))]
    exact hd
  | leave _ b _ hm hb hp =>
    rw [Scheduler.setTask_tasks_of_ne _ _ (hother (h.running_current hm) (by decide))]
    exact hd
  | suspend u hu hcur =>
    rw [state_setState_of_ne fun he ↦ hne (congrArg Request.vTaskSuspend he.symm)]
    exact hd
  | delete u hu hcur =>
    have hst := s.stateOf_setState u t .deleted
    unfold Scheduler.stateOf at hst
    rw [hst, hd, ite_self]
  | resume u hu hs =>
    rw [state_setState_of_ne (hother hs (by decide))]
    exact hd
  | wake u hu hb hlow =>
    rw [state_setState_of_ne (hother hb (by decide))]
    exact hd
  | preempt u hu hb hm =>
    rw [state_setState_of_ne (hother (h.running_current hm) (by decide)),
      state_setState_of_ne (hother hb (by decide))]
    exact hd
  | scan ms hlow => exact hscan ms
  | scanPreempt ms hm =>
    rw [state_setState_of_ne (hother (h.running_current hm) (by decide))]
    exact hscan ms

/-- A dispatch does not run a deleted task. -/
theorem deleted_dispatch (hd : Scheduler.Dispatches s s') (h : (s.tasks t).state = .deleted) :
    (s'.tasks t).state = .deleted := by
  have hkeep {b : Tcb} (hw : Scheduler.Woken (s.tasks t) b) : b = s.tasks t := by
    rcases hw with he | ⟨hb, -⟩
    · exact he
    · exact absurd (h.symm.trans hb.1) (by decide)
  rcases hd.task_cases t with hw | ⟨-, -, b, hw, hr, -⟩
  · rw [hkeep hw]
    exact h
  · rw [hkeep hw, h] at hr
    cases hr

end Deleted

/-- Tasks are never removed from the table. -/
theorem Served.taskCount_le {s s' : Scheduler} {r : Request} {ph : Phase} (h : Served s r s' ph) :
    s.taskCount ≤ s'.taskCount := by
  cases h with
  | create p hlt =>
    rw [Scheduler.xTaskCreate_of_lt hlt]
    exact Nat.le_succ _
  | _ => exact Nat.le_refl _

/-- One step keeps a deleted task deleted, unless it suspends it. -/
theorem TableInv.deleted_step {s s' : Sys α} {a : ApiAct α} (h : TableInv s.sched s.phase)
    (hs : ApiStep s a s') {t : TaskHandle} (hne : s.request a ≠ .vTaskSuspend t)
    (hd : t < s.sched.taskCount ∧ (s.sched.tasks t).state = .deleted) :
    t < s'.sched.taskCount ∧ (s'.sched.tasks t).state = .deleted := by
  rcases hs.served h.taskCount_le with ⟨hp, hr⟩ | ⟨hp, -, he, -⟩
  · rw [hp] at h
    exact ⟨Nat.lt_of_lt_of_le hd.1 hr.taskCount_le, h.deleted_served hr hd.1 hd.2 hne⟩
  · have hdis := s.sched.dispatch_dispatches hp
    rw [← he] at hdis
    exact ⟨hdis.taskCount ▸ hd.1, deleted_dispatch hdis hd.2⟩

/-- Deleted tasks stay deleted in every run that does not suspend one. -/
theorem deleted_forever [Inhabited α] (s : Sys α)
    (h : Reach IsInit (Asks SparesDeleted) ApiStep s) (t : TaskHandle)
    (ht : t < s.sched.taskCount) (hd : s.sched.getState t = .deleted) (s' : Sys α)
    (h' : Reach (· = s) (Asks SparesDeleted) ApiStep s') : s'.sched.getState t = .deleted := by
  have hi := tableInv_of_reach h
  rw [TableInv.getState_eq ht] at hd
  suffices hend : TableInv s'.sched s'.phase ∧
      t < s'.sched.taskCount ∧ (s'.sched.tasks t).state = .deleted by
    rw [TableInv.getState_eq hend.2.1]
    exact hend.2.2
  have hstart : ∀ u : Sys α, u = s → TableInv u.sched u.phase ∧
      t < u.sched.taskCount ∧ (u.sched.tasks t).state = .deleted := by
    rintro _ rfl
    exact ⟨hi, ht, hd⟩
  refine h'.invariant hstart fun u a v hu hg hst ↦ ?_
  refine ⟨hu.1.step hst, hu.1.deleted_step hst (fun he ↦ ?_) hu.2⟩
  rw [Asks, he] at hg
  exact hg hu.2.1 hu.2.2

/-- One task deletes another and runs on. -/
def deleteRun : List (ApiAct Unit) :=
  [.act (.call (.xTaskCreate 1)), .act (.call (.xTaskCreate 2)),
    .act (.call .vTaskStartScheduler), .act (.call (.vTaskDelete 1))]

private theorem deleteRun_isSome : (runActs Sys.apiExec deleteRun (.init {})).isSome = true := by
  decide +kernel

def deleteEnd : Sys Unit := (runActs Sys.apiExec deleteRun (.init {})).get deleteRun_isSome

/-- The deleted task is resumed, unblocked and waited for. -/
def afterDeleteRun : List (ApiAct Unit) :=
  [.act (.call (.vTaskResume 1)), .act (.call (.unblock 1)), .act (.call (.tick 3)),
    .act (.call (.vTaskDelay 5)), .act .dispatch]

private theorem afterDeleteRun_isSome :
    (runActs Sys.apiExec afterDeleteRun deleteEnd).isSome = true := by
  decide +kernel

/-- Task 1 stays deleted. -/
theorem deleted_forever_delete :
    ((runActs Sys.apiExec afterDeleteRun deleteEnd).get afterDeleteRun_isSome).sched.getState 1 =
      .deleted :=
  deleted_forever deleteEnd
    (Reach.of_guardedRun ApiStep.of_apiExec deleteRun ⟨{}, rfl⟩ (by decide +kernel)
      deleteRun_isSome)
    1 (by decide +kernel) (by decide +kernel) _
    (Reach.of_guardedRun ApiStep.of_apiExec afterDeleteRun (by rfl) (by decide +kernel)
      afterDeleteRun_isSome)

/-- Exactly the steps that suspend a deleted task give one another state. -/
theorem deleted_step_iff {s s' : Sys α} {a : ApiAct α} (h : TableInv s.sched s.phase)
    (hp : s.phase = .code) (hs : ApiStep s a s') :
    (∀ t < s.sched.taskCount, (s.sched.tasks t).state = .deleted →
      (s'.sched.tasks t).state = .deleted) ↔ Asks SparesDeleted s a := by
  constructor
  · intro hkeep
    obtain ⟨-, hr⟩ := (hs.served h.taskCount_le).resolve_right fun hd ↦ hd.1 hp
    unfold Asks
    cases hq : s.request a with
    | vTaskSuspend t =>
      intro ht hd
      have hstill := hkeep t ht hd
      rw [hq] at hr
      generalize s'.sched = v at hr hstill
      generalize s'.phase = ph at hr
      cases hr with
      | stay _ hidle => exact absurd ht (Nat.not_lt.mpr hidle)
      | leave _ b _ hm hb hph =>
        rw [← hb.1, Scheduler.setTask_tasks_self, hb.2] at hstill
        cases hstill
      | suspend _ _ hne =>
        rw [Scheduler.setState_tasks_self] at hstill
        cases hstill
    | _ => trivial
  · intro hg t ht hd
    refine (h.deleted_step hs (fun he ↦ ?_) ⟨ht, hd⟩).2
    rw [Asks, he] at hg
    exact hg ht hd

/-- The only task returns, and is then suspended and resumed. -/
def finishedRun : List (ApiAct Unit) :=
  [.act (.call (.xTaskCreate 1)), .act (.call .vTaskStartScheduler), .act (.call .taskReturn),
    .act .dispatch]

private theorem finishedRun_isSome :
    (runActs Sys.apiExec finishedRun (.init {})).isSome = true := by
  decide +kernel

def finishedEnd : Sys Unit :=
  (runActs Sys.apiExec finishedRun (.init {})).get finishedRun_isSome

def revivalRun : List (ApiAct Unit) :=
  [.act (.call (.vTaskSuspend 0)), .act (.call (.vTaskResume 0)),
    .act (.call .vTaskStartScheduler)]

private theorem revivalRun_isSome : (runActs Sys.apiExec revivalRun finishedEnd).isSome = true := by
  decide +kernel

def revivalEnd : Sys Unit := (runActs Sys.apiExec revivalRun finishedEnd).get revivalRun_isSome

/-- The finished task runs again. -/
theorem finished_task_runs :
    finishedEnd.sched.getState 0 = .deleted ∧ revivalEnd.sched.getState 0 = .running ∧
      ¬ ∀ s : Sys Unit, Reach IsInit (Asks AnyCalls) ApiStep s → ∀ t < s.sched.taskCount,
        s.sched.getState t = .deleted → ∀ s', Reach (· = s) (Asks AnyCalls) ApiStep s' →
          s'.sched.getState t = .deleted := by
  have hdel : finishedEnd.sched.getState 0 = .deleted := by decide +kernel
  have hrun : revivalEnd.sched.getState 0 = .running := by decide +kernel
  refine ⟨hdel, hrun, fun h ↦ ?_⟩
  have hreach : Reach IsInit (Asks AnyCalls) ApiStep finishedEnd :=
    Reach.of_guardedRun ApiStep.of_apiExec finishedRun ⟨{}, rfl⟩ (by decide +kernel)
      finishedRun_isSome
  have hlater : Reach (· = finishedEnd) (Asks AnyCalls) ApiStep revivalEnd :=
    Reach.of_guardedRun ApiStep.of_apiExec revivalRun (by rfl) (by decide +kernel)
      revivalRun_isSome
  have hstill := h finishedEnd hreach 0 (by decide +kernel) hdel revivalEnd hlater
  rw [hrun] at hstill
  cases hstill

end McuSimulator.Rtos
