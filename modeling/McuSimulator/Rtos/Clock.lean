import McuSimulator.Rtos.Lifecycle

/-!
# The clock

`tick_count_` is added to by `tick`, modulo `2 ^ 32`, and assigned by the discrete-event loops
from the smallest deadline of a `BLOCKED` task. It does not go back as long as no such deadline
lies in the past, which is so if every task that blocks does it without a deadline or with one
still to come, and `tick` does not wrap.
-/

namespace McuSimulator.Rtos

open McuSimulator.Base

variable {α : Type}

namespace Scheduler

/-- No deadline that the discrete-event loops look at lies in the past. -/
def DeadlinesAhead (s : Scheduler) : Prop :=
  ∀ t < s.taskCount, Timed (s.tasks t) → s.tickCount ≤ (s.tasks t).resumeTick

/-- What is still timed after a scan has not expired. -/
theorem timed_wakeExpired {s : Scheduler} {t : TaskHandle} (ht : t < s.taskCount)
    (h : Timed (s.wakeExpired.tasks t)) :
    s.tickCount < (s.wakeExpired.tasks t).resumeTick := by
  unfold wakeExpired at h ⊢
  dsimp only at h ⊢
  split at h
  · exact absurd h.1 (by simp)
  · next hno =>
    rw [if_neg hno]
    exact Nat.lt_of_not_le fun hle ↦ hno ⟨ht, h, hle⟩

/-- After a scan every deadline lies ahead. -/
theorem deadlinesAhead_wakeExpired (s : Scheduler) : s.wakeExpired.DeadlinesAhead :=
  fun _ ht h ↦ Nat.le_of_lt (timed_wakeExpired (s := s) ht h)

private theorem DeadlinesAhead.setTask {s : Scheduler} (h : s.DeadlinesAhead) (t : TaskHandle)
    {b : Tcb} (hb : Timed b → s.tickCount ≤ b.resumeTick) : (s.setTask t b).DeadlinesAhead := by
  intro u hu ht
  by_cases he : u = t
  · rw [he, setTask_tasks_self] at ht ⊢
    exact hb ht
  · rw [setTask_tasks_of_ne _ _ he] at ht ⊢
    exact h u hu ht

/-- A task that goes to a state other than `BLOCKED` has no deadline. -/
theorem DeadlinesAhead.setState {s : Scheduler} (h : s.DeadlinesAhead) (t : TaskHandle)
    {st : TaskState} (hst : st ≠ .blocked) : (s.setState t st).DeadlinesAhead :=
  h.setTask t fun ht ↦ absurd ht.1 hst

/-- The discrete-event advance takes the clock forward. -/
theorem DeadlinesAhead.advanced {s u : Scheduler} (h : s.DeadlinesAhead) (hu : Advanced s u) :
    u.DeadlinesAhead ∧ s.tickCount ≤ u.tickCount := by
  refine hu.preserves (P := fun v ↦ v.DeadlinesAhead ∧ s.tickCount ≤ v.tickCount) ?_
    ⟨h, Nat.le_refl _⟩
  intro v ⟨hv, hle⟩ he
  refine ⟨deadlinesAhead_wakeExpired _, Nat.le_trans hle ?_⟩
  obtain ⟨i, hi, ht, hmin⟩ := earliest_attained v he
  have hi' := hv i hi ht
  rwa [hmin] at hi'

end Scheduler

/-- `tick` does not wrap, and a task that blocks has no deadline or one that is not past. The
deadline of a task that `block_current` blocks is what an earlier `vTaskDelay` has left. -/
def KeepsTime (s : Scheduler) : Request → Prop
  | .tick ms => s.tickCount + ms < 2 ^ 32
  | .vTaskDelay n => s.current ≠ invalidTask → n ≠ 0 →
      (s.tickCount + n) % 2 ^ 32 = 0 ∨ s.tickCount ≤ (s.tickCount + n) % 2 ^ 32
  | .blockCurrent => s.current ≠ invalidTask →
      (s.tasks s.current).resumeTick = 0 ∨ s.tickCount ≤ (s.tasks s.current).resumeTick
  | _ => True

instance (s : Scheduler) (r : Request) : Decidable (KeepsTime s r) := by
  induction r using Request.casesOn <;> first
    | exact .isTrue trivial
    | exact inferInstanceAs (Decidable (_ < _))
    | exact inferInstanceAs (Decidable (_ → _))

section Request

variable {s s' : Scheduler} {r : Request} {ph : Phase}

/-- The deadline that the executing task leaves the CPU with is not past. -/
theorem Request.Leaves.deadline {b : Tcb} (h : r.Leaves s b) (hm : s.current ≠ invalidTask)
    (hg : KeepsTime s r) (ht : Scheduler.Timed b) : s.tickCount ≤ b.resumeTick := by
  cases r with
  | vTaskDelay n =>
    obtain ⟨-, rfl⟩ | ⟨hn, rfl⟩ := h
    · exact absurd ht.1 (by simp)
    · exact (hg hm hn).resolve_left (Nat.ne_of_gt ht.2)
  | blockCurrent =>
    rw [show b = _ from h] at ht ⊢
    exact (hg hm).resolve_left (Nat.ne_of_gt ht.2)
  | vTaskSuspend t =>
    rw [h.2] at ht
    exact absurd ht.1 (by simp)
  | vTaskDelete t =>
    rw [h.2] at ht
    exact absurd ht.1 (by simp)
  | taskReturn =>
    rw [show b = _ from h] at ht
    exact absurd ht.1 (by simp)
  | _ => exact h.elim

/-- A request that keeps time leaves the deadlines ahead of a clock that has not gone back. -/
theorem Scheduler.DeadlinesAhead.served (h : s.DeadlinesAhead) (hr : Served s r s' ph)
    (hg : KeepsTime s r) : s'.DeadlinesAhead ∧ s.tickCount ≤ s'.tickCount := by
  have hscan (ms : Nat) (hms : KeepsTime s (.tick ms)) :
      (s.scanned ms).DeadlinesAhead ∧ s.tickCount ≤ (s.scanned ms).tickCount := by
    refine ⟨Scheduler.deadlinesAhead_wakeExpired _, ?_⟩
    have hlt : s.tickCount + ms < 2 ^ 32 := hms
    show s.tickCount ≤ (s.tickCount + ms) % 2 ^ 32
    rw [Nat.mod_eq_of_lt hlt]
    exact Nat.le_add_right _ _
  cases hr with
  | stay => exact ⟨h, Nat.le_refl _⟩
  | create p hlt =>
    rw [Scheduler.xTaskCreate_of_lt hlt]
    refine ⟨fun t ht htimed ↦ ?_, Nat.le_refl _⟩
    by_cases he : t = s.taskCount
    · rw [he, Scheduler.setTask_tasks_self] at htimed
      exact absurd htimed.1 (by simp)
    · rw [Scheduler.setTask_tasks_of_ne _ _ he] at htimed ⊢
      exact h t (Nat.lt_of_le_of_ne (Nat.le_of_lt_succ ht) he) htimed
  | start hm hn =>
    have hcur : ({ s with current := s.selectNext } : Scheduler).DeadlinesAhead := h
    exact ⟨hcur.setState _ (by decide), Nat.le_refl _⟩
  | leave _ b _ hm hb hp => exact ⟨h.setTask _ (hb.deadline hm hg), Nat.le_refl _⟩
  | suspend t ht hne => exact ⟨h.setState t (by decide), Nat.le_refl _⟩
  | delete t ht hne => exact ⟨h.setState t (by decide), Nat.le_refl _⟩
  | resume t ht hs => exact ⟨h.setState t (by decide), Nat.le_refl _⟩
  | wake t ht hb hlow => exact ⟨h.setState t (by decide), Nat.le_refl _⟩
  | preempt t ht hb hm =>
    exact ⟨(h.setState t (by decide)).setState _ (by decide), Nat.le_refl _⟩
  | scan ms hlow => exact hscan ms hg
  | scanPreempt ms hm =>
    obtain ⟨hahead, hle⟩ := hscan ms hg
    exact ⟨hahead.setState _ (by decide), hle⟩

/-- A dispatch leaves the deadlines ahead of a clock that has not gone back. -/
theorem Scheduler.DeadlinesAhead.dispatch (h : s.DeadlinesAhead) (hp : ph ≠ .code) :
    (s.dispatch ph).DeadlinesAhead ∧ s.tickCount ≤ (s.dispatch ph).tickCount := by
  obtain ⟨u, hu, hd⟩ := s.dispatch_advanced hp
  obtain ⟨hahead, hle⟩ := h.advanced hu
  generalize s.dispatch ph = v at hd
  cases hd with
  | switch hn =>
    have hcur : ({ u with current := u.selectNext } : Scheduler).DeadlinesAhead := hahead
    exact ⟨hcur.setState _ (by decide), hle⟩
  | idle hn he => exact ⟨hahead, hle⟩

end Request

/-- A step that keeps time. -/
theorem deadlinesAhead_step {s s' : Sys α} {a : ApiAct α} (hi : TableInv s.sched s.phase)
    (h : s.sched.DeadlinesAhead) (hg : Asks KeepsTime s a) (hs : ApiStep s a s') :
    s'.sched.DeadlinesAhead ∧ s.sched.tickCount ≤ s'.sched.tickCount := by
  rcases hs.served hi.taskCount_le with ⟨-, hr⟩ | ⟨hp, -, he, -⟩
  · exact h.served hr hg
  · rw [he]
    exact h.dispatch hp

private theorem deadlinesAhead_of_reach [Inhabited α] {s : Sys α}
    (h : Reach IsInit (Asks KeepsTime) ApiStep s) : s.sched.DeadlinesAhead := by
  have hknown : ∀ u : Sys α, Reach IsInit (Asks KeepsTime) ApiStep u →
      TableInv u.sched u.phase := fun _ hr ↦ tableInv_of_reach hr
  have hinit : ∀ u : Sys α, IsInit u → u.sched.DeadlinesAhead := by
    rintro _ ⟨cfg, rfl⟩ t ht
    exact absurd ht (Nat.not_lt_zero t)
  exact h.invariant_of hknown hinit fun _ _ _ hk _ hi hg hst ↦ (deadlinesAhead_step hk hi hg hst).1

/-- In a run whose steps keep time, every step leaves the clock where it is or takes it
forward. -/
theorem tickCount_mono [Inhabited α] (s s' : Sys α) (a : ApiAct α)
    (h : Reach IsInit (Asks KeepsTime) ApiStep s) (hg : Asks KeepsTime s a)
    (hs : ApiStep s a s') : s.sched.tickCount ≤ s'.sched.tickCount :=
  (deadlinesAhead_step (tableInv_of_reach h) (deadlinesAhead_of_reach h) hg hs).2

/-- The only task delays itself. -/
def delayRun : List (ApiAct Unit) :=
  [.act (.call (.xTaskCreate 1)), .act (.call .vTaskStartScheduler), .act (.call (.tick 2)),
    .act (.call (.vTaskDelay 5))]

private theorem delayRun_isSome : (runActs Sys.apiExec delayRun (.init {})).isSome = true := by
  decide +kernel

def delayEnd : Sys Unit := (runActs Sys.apiExec delayRun (.init {})).get delayRun_isSome

private theorem delayEnd_dispatches : (delayEnd.apiExec (.act .dispatch)).isSome = true := by
  decide +kernel

/-- The dispatch takes the clock to the deadline. -/
theorem tickCount_mono_delay :
    delayEnd.sched.tickCount ≤
      ((delayEnd.apiExec (.act .dispatch)).get delayEnd_dispatches).sched.tickCount ∧
    ((delayEnd.apiExec (.act .dispatch)).get delayEnd_dispatches).sched.tickCount = 7 :=
  ⟨tickCount_mono _ _ (.act .dispatch)
    (Reach.of_guardedRun ApiStep.of_apiExec delayRun ⟨{}, rfl⟩ (by decide +kernel)
      delayRun_isSome)
    trivial (.of_apiExec _ _ _ (Option.some_get delayEnd_dispatches).symm), by decide +kernel⟩

/-- The first task is suspended inside `vTaskDelay(5)` and resumed, which leaves its deadline
behind; `tick(10)` goes past it. Then both tasks wait in `take`. -/
def staleClockRun : List (ApiAct Unit) :=
  [.act (.call (.xTaskCreate 1)), .act (.call (.xTaskCreate 2)),
    .act (.call .vTaskStartScheduler), .act (.call (.vTaskDelay 5)), .act .dispatch,
    .act (.call (.vTaskSuspend 0)), .act (.call (.vTaskResume 0)), .act (.call (.tick 10)),
    .act .dispatch, .act .resume, .act (.call (.take 0)), .act .dispatch,
    .act (.call (.take 0))]

private theorem staleClockRun_isSome :
    (runActs Sys.apiExec staleClockRun (.init {})).isSome = true := by
  decide +kernel

def staleClockEnd : Sys Unit :=
  (runActs Sys.apiExec staleClockRun (.init {})).get staleClockRun_isSome

private theorem staleClockEnd_dispatches :
    (staleClockEnd.apiExec (.act .dispatch)).isSome = true := by
  decide +kernel

/-- The dispatch takes the clock from 10 back to 5. -/
theorem tickCount_goes_back :
    staleClockEnd.sched.tickCount = 10 ∧
    ((staleClockEnd.apiExec (.act .dispatch)).get staleClockEnd_dispatches).sched.tickCount = 5 ∧
    ¬ ∀ (s s' : Sys Unit) (a : ApiAct Unit), Reach IsInit (Asks AnyCalls) ApiStep s →
      ApiStep s a s' → s.sched.tickCount ≤ s'.sched.tickCount := by
  have hten : staleClockEnd.sched.tickCount = 10 := by decide +kernel
  have hfive : ((staleClockEnd.apiExec (.act .dispatch)).get
      staleClockEnd_dispatches).sched.tickCount = 5 := by decide +kernel
  refine ⟨hten, hfive, fun h ↦ ?_⟩
  have hle := h staleClockEnd _ (.act .dispatch)
    (Reach.of_guardedRun ApiStep.of_apiExec staleClockRun ⟨{}, rfl⟩ (by decide +kernel)
      staleClockRun_isSome)
    (.of_apiExec _ _ _ (Option.some_get staleClockEnd_dispatches).symm)
  rw [hten, hfive] at hle
  exact absurd hle (by decide)

end McuSimulator.Rtos
