import McuSimulator.Rtos.Effect
import McuSimulator.Rtos.TableInvariant

/-!
# The table and the contexts

`SchedInv` keeps the table of control blocks and the contexts in step: the executing task is
the one marked `RUNNING`, and no API function is in progress outside the tasks. Every step
preserves it, whatever the tasks do and however they are dispatched.
-/

namespace McuSimulator.Rtos

open McuSimulator.Base

variable {α : Type}

/-- Bookkeeping of the scheduler and the contexts. -/
structure SchedInv (s : Sys α) : Prop where
  taskCount_le : s.sched.taskCount ≤ maxTasks
  me_lt : s.me ≠ invalidTask → s.me < s.sched.taskCount
  running : ∀ t, s.state t = .running ↔ s.phase = .code ∧ t = s.me ∧ s.me ≠ invalidTask
  busy : s.phase ≠ .code → s.me ≠ invalidTask
  fresh : ∀ t, s.sched.taskCount ≤ t → s.kont t = .user

section Facts

variable {s s' : Sys α}

/-- The invariant of the table is a part of it. -/
theorem SchedInv.table (h : SchedInv s) : TableInv s.sched s.phase :=
  ⟨h.taskCount_le, h.me_lt, h.running, h.busy⟩

private theorem SchedInv.of_table (h : TableInv s.sched s.phase)
    (hf : ∀ t, s.sched.taskCount ≤ t → s.kont t = .user) : SchedInv s :=
  ⟨h.taskCount_le, h.current_lt, h.running, h.busy, hf⟩

/-- At its own code a task is `RUNNING`. -/
theorem SchedInv.running_me (h : SchedInv s) (hp : s.phase = .code) (hm : s.me ≠ invalidTask) :
    s.state s.me = .running :=
  (h.running s.me).mpr ⟨hp, rfl, hm⟩

/-- A context inside an API function belongs to a task. -/
theorem SchedInv.lt_of_kont (h : SchedInv s) {t : TaskHandle} (ht : s.kont t ≠ .user) :
    t < s.sched.taskCount :=
  Nat.lt_of_not_le fun hle ↦ ht (h.fresh t hle)

/-- Only existing tasks wait. -/
theorem SchedInv.lt_of_waitsOn (h : SchedInv s) {t : TaskHandle} {p : Prim}
    (ht : s.waitsOn t = some p) : t < s.sched.taskCount := by
  refine h.lt_of_kont fun hu ↦ ?_
  rw [Sys.waitsOn, hu] at ht
  cases ht

/-- Handles of tasks are not `INVALID_TASK`. -/
theorem SchedInv.ne_invalid (h : SchedInv s) {t : TaskHandle} (ht : t < s.sched.taskCount) :
    t ≠ invalidTask := by
  have hle : s.sched.taskCount ≤ invalidTask := Nat.le_trans h.taskCount_le (by decide)
  exact Nat.ne_of_lt (Nat.lt_of_lt_of_le ht hle)

/-- Outside the tasks no API function is in progress. -/
theorem SchedInv.outside (h : SchedInv s) (hm : s.me = invalidTask) : s.kont s.me = .user :=
  Classical.byContradiction fun hk ↦ h.ne_invalid (h.lt_of_kont hk) hm

/-- Steps by tasks leave the contexts of other handles alone. -/
theorem SchedInv.fresh_update (h : SchedInv s) {k : Kont α} (ht : ByTask s s' k)
    (t : TaskHandle) (hle : s.sched.taskCount ≤ t) : s'.kont t = .user := by
  have hlt := h.me_lt ht.task
  have hne : t ≠ s.me := Nat.ne_of_gt (Nat.lt_of_lt_of_le hlt hle)
  rw [ht.kont, Function.update_of_ne hne]
  exact h.fresh t hle

end Facts

/-! ### Changes of the table -/

section Table

variable {s : Sys α}

/-- One control block changes state. -/
theorem state_setState (sched : Scheduler) (t u : TaskHandle) (st : TaskState) :
    ((sched.setState t st).tasks u).state = if u = t then st else (sched.tasks u).state :=
  sched.stateOf_setState t u st

/-- A task that `unblock` neither wakes nor preempts keeps its state. -/
theorem state_unblock_other (sched : Scheduler) {w t : TaskHandle}
    (hw : t = w → (sched.tasks w).state ≠ .blocked)
    (hc : t = sched.current → (sched.unblock w).2 = false) :
    ((sched.unblock w).1.tasks t).state = (sched.tasks t).state := by
  rcases sched.unblock_cases w with ⟨-, he⟩ | ⟨-, hb, he | ⟨-, he⟩⟩
  · rw [he]
  · have ht : t ≠ w := fun h ↦ hw h hb
    rw [he, state_setState, if_neg ht]
  · have ht : t ≠ w := fun h ↦ hw h hb
    have htc : t ≠ sched.current := by
      intro h
      have := hc h
      rw [he] at this
      cases this
    rw [he, state_setState, if_neg htc, state_setState, if_neg ht]

/-- A `BLOCKED` task in the table that is unblocked becomes `READY`. -/
theorem state_unblock_self (sched : Scheduler) {w : TaskHandle} (hlt : w < sched.taskCount)
    (hb : (sched.tasks w).state = .blocked) :
    ((sched.unblock w).1.tasks w).state = .ready := by
  rcases sched.unblock_cases w with ⟨hno | hno, -⟩ | ⟨-, -, he | ⟨-, he⟩⟩
  · exact absurd hlt (Nat.not_lt.mpr hno)
  · exact absurd hb hno
  · rw [he, state_setState, if_pos rfl]
  · rw [he, state_setState]
    split
    · rfl
    · rw [state_setState, if_pos rfl]

end Table

/-! ### `SchedInv` over a step -/

section Preserve

variable {D : Dispatcher} {s s' : Sys α}

/-- The contexts of handles that are not tasks are at their own code after a scheduler call. -/
theorem SchedInv.fresh_api (h : SchedInv s) {op : Op α} (ho : op.IsSched) (hp : s.phase = .code)
    (hi : s.Issues op) (t : TaskHandle) (ht : (s.call op).sched.taskCount ≤ t) :
    (s.call op).kont t = .user := by
  cases op with
  | xTaskCreate p =>
    simp only [Sys.call, Sys.xTaskCreate] at ht ⊢
    split at ht
    · next hfull =>
      rw [if_pos hfull]
      exact h.fresh t ht
    · next hlt =>
      rw [if_neg hlt]
      rw [Scheduler.xTaskCreate_of_lt (Nat.lt_of_not_le hlt)] at ht
      exact (Function.update_of_ne (Nat.ne_of_gt ht) _ _).trans (h.fresh t (Nat.le_of_succ_le ht))
  | vTaskStartScheduler =>
    simp only [Sys.call, Sys.vTaskStartScheduler] at ht ⊢
    split at ht <;> split <;> exact h.fresh t ht
  | vTaskDelay n =>
    simp only [Sys.call, Sys.vTaskDelay] at ht ⊢
    by_cases hm : s.me = invalidTask
    · rw [if_pos hm] at ht ⊢
      exact h.fresh t ht
    · rw [if_neg hm] at ht ⊢
      by_cases hn : n = 0
      · rw [if_pos hn] at ht ⊢
        exact h.fresh t ht
      · rw [if_neg hn] at ht ⊢
        exact h.fresh_update (k := .delayed) ⟨hp, hm, rfl⟩ t ht
  | vTaskSuspend u =>
    simp only [Sys.call, Sys.vTaskSuspend] at ht ⊢
    split at ht <;> split <;> exact h.fresh t ht
  | vTaskResume u =>
    simp only [Sys.call, Sys.vTaskResume] at ht ⊢
    repeat' split at ht
    all_goals repeat' split
    all_goals exact h.fresh t ht
  | vTaskDelete u =>
    simp only [Sys.call, Sys.vTaskDelete] at ht ⊢
    split at ht <;> split <;> exact h.fresh t ht
  | tick ms =>
    have hcount : (s.call (.tick ms)).sched.taskCount = s.sched.taskCount := by
      obtain ⟨u, rfl, he | ⟨-, he⟩⟩ := s.sched.tick_cases ms
      · exact congrArg (·.1.taskCount) he
      · exact congrArg (·.1.taskCount) he
    rw [hcount] at ht
    exact h.fresh t ht
  | taskReturn => exact h.fresh_update (k := .exited) ⟨hp, hi, rfl⟩ t ht
  | _ => exact ho.elim

/-- The table and the contexts stay in step across a scheduler call. -/
theorem SchedInv.api (h : SchedInv s) {op : Op α} (ho : op.IsSched) (hp : s.phase = .code)
    (hi : s.Issues op) : SchedInv (s.call op) := by
  refine .of_table ?_ (h.fresh_api ho hp hi)
  have ht := h.table
  rw [hp] at ht
  exact ht.served (Sys.served_call hp h.taskCount_le op hi)

/-- Every step keeps the table and the contexts in step. -/
theorem SchedInv.step (h : SchedInv s) {a : Act α} (he : Effect D s a s') : SchedInv s' := by
  have ht := h.table
  cases he with
  | quiet k hk _ hs hp =>
    rw [hk.phase] at ht
    refine .of_table (by rwa [hs, hp]) ?_
    rw [hs]
    exact h.fresh_update hk
  | block p k hobj hk _ hs hp =>
    rw [hk.phase] at ht
    refine .of_table ?_ ?_
    · rw [hs, hp]
      exact ht.leave hk.task (by simp) (by decide)
    · rw [hs]
      exact h.fresh_update hk
  | wake p w i k hobj hk _ hs hp =>
    rw [hk.phase] at ht
    have hserved := s.served_unblock w
    rw [← hs, ← hp] at hserved
    refine .of_table (ht.served hserved) ?_
    have hcount : s'.sched.taskCount = s.sched.taskCount := by
      rcases s.sched.unblock_cases w with ⟨-, he⟩ | ⟨-, -, he | ⟨-, he⟩⟩ <;> rw [hs, he] <;> rfl
    rw [hcount]
    exact h.fresh_update hk
  | api op ha ho hp hi hu he =>
    rw [he]
    exact h.api ho hp hi
  | dispatch ha hp sched hd he =>
    rw [he]
    have hs := D.sound _ _ _ hd
    refine .of_table (ht.dispatch hp hs) ?_
    rw [show ({ s with sched := sched, phase := .code } : Sys α).sched = sched from rfl,
      hs.taskCount]
    exact h.fresh

end Preserve

end McuSimulator.Rtos
