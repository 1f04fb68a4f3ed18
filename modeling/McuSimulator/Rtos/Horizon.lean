import McuSimulator.Rtos.Deadlock

/-!
# A bound on the clock

The discrete-event loops take the clock to deadlines only, and a deadline is one that a delay has
asked for. So the clock stays below any bound that no delay goes beyond, and does not wrap below it.
-/

namespace McuSimulator.Rtos

open McuSimulator.Base

variable {α : Type}

/-! ### Deadlines -/

/-- Neither the clock nor a deadline is later than `g`. -/
structure Scheduler.Within (s : Scheduler) (g : Nat) : Prop where
  clock : s.tickCount ≤ g
  deadline : ∀ t, (s.tasks t).resumeTick ≤ g

/-- No `tick`, and no delay that ends later than `g`. -/
def EndsWithin (g : Nat) (s : Scheduler) : Request → Prop
  | .tick _ => False
  | .vTaskDelay n => s.tickCount + n ≤ g
  | _ => True

namespace Scheduler

variable {s u : Scheduler} {g g' : Nat}

/-- A later bound. -/
theorem Within.mono (h : s.Within g) (hle : g ≤ g') : s.Within g' :=
  ⟨Nat.le_trans h.clock hle, fun t ↦ Nat.le_trans (h.deadline t) hle⟩

private theorem Within.setTask (h : s.Within g) (t : TaskHandle) {b : Tcb} (hb : b.resumeTick ≤ g) :
    (s.setTask t b).Within g := by
  refine ⟨h.clock, fun u ↦ ?_⟩
  by_cases he : u = t
  · rw [he, setTask_tasks_self]
    exact hb
  · rw [setTask_tasks_of_ne _ _ he]
    exact h.deadline u

private theorem Within.setState (h : s.Within g) (t : TaskHandle) (st : TaskState) :
    (s.setState t st).Within g := h.setTask t (h.deadline t)

/-- The advance takes the clock to a deadline. -/
theorem Within.advance (h : s.Within g) (he : s.earliest ≠ uint32Max) : s.advance.Within g := by
  obtain ⟨i, -, -, hi⟩ := s.earliest_attained he
  have hclock : s.earliest ≤ g := hi ▸ h.deadline i
  refine ⟨hclock, fun t ↦ ?_⟩
  rcases woken_wakeExpired { s with tickCount := s.earliest } t with hw | ⟨-, hw⟩
  · rw [show s.advance.tasks t = s.tasks t from hw]
    exact h.deadline t
  · rw [show s.advance.tasks t = _ from hw]
    exact Nat.zero_le g

private theorem Within.dispatch {ph : Phase} (h : s.Within g) (hp : ph ≠ .code) :
    (s.dispatch ph).Within g := by
  obtain ⟨u, hu, hd⟩ := s.dispatch_advanced hp
  have hwithin : u.Within g := hu.preserves (P := (·.Within g)) (fun _ hv he ↦ hv.advance he) h
  generalize s.dispatch ph = v at hd
  cases hd with
  | switch hn =>
    have hcur : ({ u with current := u.selectNext } : Scheduler).Within g :=
      ⟨hwithin.clock, hwithin.deadline⟩
    exact hcur.setState _ _
  | idle => exact ⟨hwithin.clock, hwithin.deadline⟩

/-- What is asked for leaves the clock within the bound. -/
theorem Within.served {r : Request} {ph : Phase} (h : s.Within g) (hg : EndsWithin g s r)
    (hr : Served s r u ph) : u.Within g := by
  cases hr with
  | stay => exact h
  | create p hlt =>
    rw [xTaskCreate_of_lt hlt]
    have hmore : ({ s with taskCount := s.taskCount + 1 } : Scheduler).Within g :=
      ⟨h.clock, h.deadline⟩
    exact hmore.setTask _ (Nat.zero_le g)
  | start =>
    have hcur : ({ s with current := s.selectNext } : Scheduler).Within g :=
      ⟨h.clock, h.deadline⟩
    exact hcur.setState _ _
  | leave _ b _ _ hb =>
    refine h.setTask _ ?_
    cases r with
    | vTaskDelay n =>
      obtain ⟨-, rfl⟩ | ⟨-, rfl⟩ := hb
      · exact h.deadline _
      · exact Nat.le_trans (Nat.mod_le _ _) hg
    | vTaskSuspend | vTaskDelete =>
      obtain ⟨-, rfl⟩ := hb
      exact h.deadline _
    | blockCurrent | taskReturn =>
      obtain rfl := hb
      exact h.deadline _
    | _ => exact hb.elim
  | suspend | delete | resume | wake => exact h.setState _ _
  | preempt => exact (h.setState _ _).setState _ _
  | scan | scanPreempt => exact hg.elim

end Scheduler

/-- Every step whose delays end within the bound keeps it. -/
theorem Scheduler.Within.step {g : Nat} {s s' : Sys α} {a : ApiAct α} (h : s.sched.Within g)
    (hcount : s.sched.taskCount ≤ maxTasks) (hg : Asks (EndsWithin g) s a) (hs : ApiStep s a s') :
    s'.sched.Within g := by
  rcases hs.served hcount with ⟨-, hr⟩ | ⟨hp, -, he, -⟩
  · exact h.served hg hr
  · rw [he]
    exact h.dispatch hp

/-! ### Requests without time -/

/-- A request that neither moves the clock nor creates or suspends a task. -/
def Request.Untimed : Request → Prop
  | .none | .blockCurrent | .unblock _ => True
  | _ => False

/-- A request without a delay ends within any bound. -/
theorem Request.Untimed.endsWithin {s : Scheduler} {r : Request} {g : Nat} (h : r.Untimed) :
    EndsWithin g s r := by
  cases r with
  | none | blockCurrent | unblock => trivial
  | _ => exact h.elim

/-- A request without a delay asks for none that ends at a sentinel. -/
theorem Request.Untimed.delayCalls {s : Scheduler} {r : Request} (h : r.Untimed) :
    DelayCalls s r := by
  cases r with
  | none | blockCurrent | unblock => exact ⟨trivial, trivial⟩
  | _ => exact h.elim

/-- A request without a delay suspends nobody. -/
theorem Request.Untimed.ne_suspend {r : Request} {t : TaskHandle} (h : r.Untimed) :
    r ≠ .vTaskSuspend t := by
  rintro rfl
  exact h

/-- Going on inside an API function moves no clock. -/
theorem Sys.untimed_resume (s : Sys α) (k : Kont α) : (s.resumeRequest k).Untimed := by
  have hbest : ∀ ws, (s.wakeBest ws).Untimed := by
    intro ws
    unfold wakeBest
    split <;> trivial
  cases k with
  | sendTest | recvTest =>
    show (if _ then _ else _ : Request).Untimed
    split
    · trivial
    · exact hbest _
  | bitsTest | checkTest =>
    show (if _ then _ else _ : Request).Untimed
    split <;> trivial
  | _ => trivial

end McuSimulator.Rtos
