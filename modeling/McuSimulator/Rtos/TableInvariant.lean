import McuSimulator.Rtos.Kernel

/-!
# The executing task

`TableInv` keeps the table of control blocks and `current_` in step: while code executes, the
task that `current_` names is the one marked `RUNNING`. Every request and every dispatch
preserves it.
-/

namespace McuSimulator.Rtos

open McuSimulator.Base

/-- Bookkeeping of the table. -/
structure TableInv (s : Scheduler) (ph : Phase) : Prop where
  taskCount_le : s.taskCount ≤ maxTasks
  current_lt : s.current ≠ invalidTask → s.current < s.taskCount
  running : ∀ t, (s.tasks t).state = .running ↔
    ph = .code ∧ t = s.current ∧ s.current ≠ invalidTask
  busy : ph ≠ .code → s.current ≠ invalidTask

/-- A deadline scan turns no state into any other than `READY`. -/
theorem woken_state {b c : Tcb} (h : Scheduler.Woken b c) :
    c.state = b.state ∨ c.state = .ready := by
  rcases h with rfl | ⟨-, rfl⟩
  · exact .inl rfl
  · exact .inr rfl

/-- A deadline scan leaves priorities alone. -/
theorem woken_priority {b c : Tcb} (h : Scheduler.Woken b c) : c.priority = b.priority := by
  rcases h with rfl | ⟨-, rfl⟩
  · rfl
  · rfl

/-- What a deadline scan leaves in a state other than `READY` it leaves alone. -/
theorem woken_eq {b c : Tcb} (h : Scheduler.Woken b c) (hc : c.state ≠ .ready) : c = b := by
  rcases h with rfl | ⟨-, rfl⟩
  · rfl
  · exact absurd rfl hc

namespace TableInv

variable {s : Scheduler} {ph : Phase}

/-- Handles of tasks are not `INVALID_TASK`. -/
theorem ne_invalid (h : TableInv s ph) {t : TaskHandle} (ht : t < s.taskCount) :
    t ≠ invalidTask :=
  Nat.ne_of_lt (Nat.lt_of_lt_of_le ht (Nat.le_trans h.taskCount_le (by decide)))

/-- At its own code the current task is `RUNNING`. -/
theorem running_current (h : TableInv s .code) (hm : s.current ≠ invalidTask) :
    (s.tasks s.current).state = .running :=
  (h.running s.current).mpr ⟨rfl, rfl, hm⟩

private theorem ne_running (h : TableInv s ph) {t : TaskHandle} (ht : t ≠ s.current) :
    (s.tasks t).state ≠ .running :=
  fun hr ↦ ht ((h.running t).mp hr).2.1

/-- A task that is not running goes to another state. -/
theorem mark (h : TableInv s ph) {t : TaskHandle} {st : TaskState}
    (hs : (s.tasks t).state ≠ .running) (hst : st ≠ .running) : TableInv (s.setState t st) ph := by
  refine ⟨h.taskCount_le, h.current_lt, fun u ↦ ?_, h.busy⟩
  have hr := h.running u
  have hu := s.stateOf_setState t u st
  unfold Scheduler.stateOf at hu
  rw [hu]
  by_cases he : u = t
  · rw [if_pos he]
    rw [he] at hr ⊢
    constructor
    · intro hc
      exact absurd hc hst
    · intro hc
      exact absurd (hr.mpr hc) hs
  · rw [if_neg he]
    exact hr

/-- The executing task gives the CPU up. -/
theorem leave (h : TableInv s .code) (hm : s.current ≠ invalidTask) {b : Tcb}
    (hb : b.state ≠ .running) (hp : ph ≠ .code) : TableInv (s.setTask s.current b) ph := by
  refine ⟨h.taskCount_le, h.current_lt, fun u ↦ ?_, fun _ ↦ hm⟩
  constructor
  · intro hr
    by_cases hu : u = s.current
    · rw [hu, Scheduler.setTask_tasks_self] at hr
      exact absurd hr hb
    · rw [Scheduler.setTask_tasks_of_ne _ _ hu] at hr
      exact absurd hr (h.ne_running hu)
  · intro hc
    exact absurd hc.1 hp

/-- The deadlines are scanned. -/
theorem scanned (h : TableInv s ph) (ms : Nat) : TableInv (s.scanned ms) ph := by
  refine ⟨h.taskCount_le, h.current_lt, fun t ↦ ?_, h.busy⟩
  refine Iff.trans ?_ (h.running t)
  rcases s.scanned_woken ms t with he | ⟨ht, he⟩
  · rw [he]
  · rw [he, ht.1]
    simp

/-- A task is created. -/
theorem create (h : TableInv s .code) (hlt : s.taskCount < maxTasks) (p : Nat) :
    TableInv (s.xTaskCreate p) .code := by
  rw [Scheduler.xTaskCreate_of_lt hlt]
  refine ⟨hlt, fun hm ↦ Nat.lt_succ_of_lt (h.current_lt hm), fun t ↦ ?_, fun hp ↦ absurd rfl hp⟩
  by_cases ht : t = s.taskCount
  · rw [ht, Scheduler.setTask_tasks_self]
    constructor
    · intro hc
      cases hc
    · rintro ⟨-, he, hm⟩
      exact absurd (h.current_lt hm) (Nat.not_lt.mpr (Nat.le_of_eq he))
  · rw [Scheduler.setTask_tasks_of_ne _ _ ht]
    exact h.running t

/-- The scheduler starts a task. -/
theorem start (h : TableInv s .code) (hm : s.current = invalidTask)
    (hn : s.selectNext ≠ invalidTask) : TableInv (s.switchTo s.selectNext) .code := by
  refine ⟨h.taskCount_le, fun _ ↦ (s.selectNext_ready hn).1, fun t ↦ ?_, fun hp ↦ absurd rfl hp⟩
  by_cases ht : t = s.selectNext
  · rw [ht, Scheduler.switchTo_tasks_self]
    exact ⟨fun _ ↦ ⟨rfl, rfl, hn⟩, fun _ ↦ rfl⟩
  · rw [Scheduler.switchTo_tasks_of_ne _ ht]
    constructor
    · intro hc
      exact absurd hm ((h.running t).mp hc).2.2
    · intro hc
      exact absurd hc.2.1 ht

/-- Every request keeps the table and `current_` in step. -/
theorem served (h : TableInv s .code) {r : Request} {s' : Scheduler} (hr : Served s r s' ph) :
    TableInv s' ph := by
  cases hr with
  | stay => exact h
  | create p hlt => exact h.create hlt p
  | start hm hn => exact h.start hm hn
  | leave _ b _ hm hb hp => exact h.leave hm hb.ne_running hp
  | suspend t ht hne => exact h.mark (h.ne_running hne) (by decide)
  | delete t ht hne => exact h.mark (h.ne_running hne) (by decide)
  | resume t ht hs => exact h.mark (by simp [hs]) (by decide)
  | wake t ht hb hlow => exact h.mark (by simp [hb]) (by decide)
  | preempt t ht hb hm =>
    have hmark : TableInv (s.setState t .ready) .code := h.mark (by simp [hb]) (by decide)
    exact hmark.leave hm (by simp) (by decide)
  | scan ms hlow => exact h.scanned ms
  | scanPreempt ms hm => exact (h.scanned ms).leave hm (by simp) (by decide)

/-- A dispatch marks the task it switches to. -/
theorem dispatch (h : TableInv s ph) (hp : ph ≠ .code) {s' : Scheduler}
    (hd : Scheduler.Dispatches s s') : TableInv s' .code := by
  refine ⟨?_, fun hm ↦ ?_, fun t ↦ ?_, fun hc ↦ absurd rfl hc⟩
  · rw [hd.taskCount]
    exact h.taskCount_le
  · rcases hd.current with h0 | ⟨hlt, -⟩
    · exact absurd h0 hm
    · rw [hd.taskCount]
      exact hlt
  · constructor
    · intro hr
      rcases hd.task_cases t with hw | ⟨htc, hti, -⟩
      · rcases woken_state hw with he | he
        · exact absurd ((h.running t).mp (he.symm.trans hr)).1 hp
        · rw [he] at hr
          cases hr
      · exact ⟨rfl, htc, fun hm ↦ hti (htc.trans hm)⟩
    · rintro ⟨-, ht, hm⟩
      rcases hd.current with h0 | ⟨-, b, -, -, he⟩
      · exact absurd h0 hm
      · rw [ht, he]

end TableInv

/-- Every step keeps the table and `current_` in step. -/
theorem TableInv.step {α : Type} {s t : Sys α} {a : ApiAct α} (h : TableInv s.sched s.phase)
    (hs : ApiStep s a t) : TableInv t.sched t.phase := by
  rcases hs.served h.taskCount_le with ⟨hp, hr⟩ | ⟨hp, -, he, hc⟩
  · rw [hp] at h
    exact h.served hr
  · rw [he, hc]
    exact h.dispatch hp (s.sched.dispatch_dispatches hp)

end McuSimulator.Rtos
