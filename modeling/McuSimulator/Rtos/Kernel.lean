import McuSimulator.Rtos.Dispatch

/-!
# What reaches the scheduler

Every step of the machine asks the scheduler for at most one thing (`Request`), and the ways in
which a request can be served are listed once (`Served`), with the guards under which each of
them is taken. Invariants of the scheduler are proved from the list and from the dispatch, not
from the API functions and the primitives.

The calls of `Op` are those of tasks and primitives. The machine here can do two things more:
task code may call the public `block_current` itself, and the context of a finished task is
entered again if the task is suspended and resumed. The saved context is then wherever it was
last switched out, which the machine does not keep, so it may go on anywhere.
-/

namespace McuSimulator.Rtos

open McuSimulator.Base

variable {α : Type}

/-! ### Steps over the whole API -/

/-- What happens next, with the whole API at hand. -/
inductive ApiAct (α : Type) where
  | act (a : Act α)
  /-- Task code calls `block_current`. -/
  | blockCurrent
  /-- The context of a finished task goes on at `k`. -/
  | reenter (k : Kont α)

/-- `block_current()` called at task code; rtos/scheduler.cpp:108–112. -/
def Sys.callBlockCurrent (s : Sys α) : Sys α :=
  if s.me = invalidTask then s else s.reschedule (s.sched.setState s.me .blocked)

/-- The transitions under the source's dispatcher. -/
inductive ApiStep : Sys α → ApiAct α → Sys α → Prop
  | act {s t : Sys α} {a : Act α} (h : Step .code s a t) : ApiStep s (.act a) t
  | blockCurrent {s : Sys α} (hp : s.phase = .code) (hk : (s.kont s.me).IsUser) :
      ApiStep s .blockCurrent s.callBlockCurrent
  | reenter {s : Sys α} {k : Kont α} (hp : s.phase = .code) (hk : s.kont s.me = .exited) :
      ApiStep s (.reenter k) (s.setKont k)

/-- The same as a partial function. -/
def Sys.apiExec [DecidableEq α] (s : Sys α) : ApiAct α → Option (Sys α)
  | .act a => s.exec a
  | .blockCurrent =>
    if s.phase = .code ∧ (s.kont s.me).IsUser then some s.callBlockCurrent else none
  | .reenter k => if s.phase = .code ∧ s.kont s.me = .exited then some (s.setKont k) else none

/-- What the executable step returns is a step. -/
theorem ApiStep.of_apiExec [DecidableEq α] (s : Sys α) (a : ApiAct α) (t : Sys α)
    (h : s.apiExec a = some t) : ApiStep s a t := by
  cases a with
  | act a => exact .act (.of_exec s a t h)
  | blockCurrent =>
    simp only [Sys.apiExec] at h
    split at h
    · next hc =>
      rw [← Option.some.inj h]
      exact .blockCurrent hc.1 hc.2
    · cases h
  | reenter k =>
    simp only [Sys.apiExec] at h
    split at h
    · next hc =>
      rw [← Option.some.inj h]
      exact .reenter hc.1 hc.2
    · cases h

/-! ### Requests -/

/-- What a step asks of the scheduler. -/
inductive Request where
  | none
  | xTaskCreate (priority : Nat)
  | vTaskStartScheduler
  | vTaskDelay (ticks : Nat)
  | vTaskSuspend (t : TaskHandle)
  | vTaskResume (t : TaskHandle)
  | vTaskDelete (t : TaskHandle)
  | tick (ms : Nat)
  | blockCurrent
  | unblock (t : TaskHandle)
  | taskReturn
  deriving DecidableEq, Repr

namespace Sys

/-- The waiter that a primitive unblocks. -/
def wakeBest (s : Sys α) (ws : List TaskHandle) : Request :=
  if ws.length = 0 then .none
  else .unblock (ws.getD (bestIdx s.sched.getPriority ws) invalidTask)

private theorem wakeBest_of_pos (s : Sys α) (ws : List TaskHandle) (h : 0 < ws.length) :
    s.wakeBest ws = .unblock (ws.getD (bestIdx s.sched.getPriority ws) invalidTask) :=
  if_neg (Nat.ne_of_gt h)

private theorem wakeBest_of_empty (s : Sys α) (ws : List TaskHandle) (h : ¬ 0 < ws.length) :
    s.wakeBest ws = .none :=
  if_pos (Nat.eq_zero_of_not_pos h)

/-- What a call asks for. The calls with a loop only go to its test. -/
def callRequest (s : Sys α) : Op α → Request
  | .xTaskCreate p => .xTaskCreate p
  | .vTaskStartScheduler => .vTaskStartScheduler
  | .vTaskDelay n => .vTaskDelay n
  | .vTaskSuspend t => .vTaskSuspend t
  | .vTaskResume t => .vTaskResume t
  | .vTaskDelete t => .vTaskDelete t
  | .tick ms => .tick ms
  | .unblock t => .unblock t
  | .taskReturn => .taskReturn
  | .lock m => if (s.mutex m).owner = invalidTask then .none else .blockCurrent
  | .unlock m => s.wakeBest (s.mutex m).waiters
  | .take i => if 0 < (s.sem i).count then .none else .blockCurrent
  | .give i => s.wakeBest (s.sem i).waiters
  | .trySend q _ =>
    if (s.queue q).count = (s.queue q).cap then .none else s.wakeBest (s.queue q).recvWaiters
  | .tryReceive q =>
    if (s.queue q).count = 0 then .none else s.wakeBest (s.queue q).sendWaiters
  | _ => .none

/-- What going on inside an API function asks for. -/
def resumeRequest (s : Sys α) : Kont α → Request
  | .sendTest q _ =>
    if (s.queue q).count = (s.queue q).cap then .blockCurrent
    else s.wakeBest (s.queue q).recvWaiters
  | .recvTest q =>
    if (s.queue q).count = 0 then .blockCurrent else s.wakeBest (s.queue q).sendWaiters
  | .bitsTest e bits all _ => if (s.events e).satisfied bits all then .none else .blockCurrent
  | .checkTest e i =>
    if i < (s.events e).waitCount ∧ (s.events e).satisfiedAt i then
      .unblock ((s.events e).waiters i).task
    else .none
  | _ => .none

/-- What a step asks of the scheduler. A dispatch is not asked for. -/
def request (s : Sys α) : ApiAct α → Request
  | .act (.call op) => s.callRequest op
  | .act .resume => s.resumeRequest (s.kont s.me)
  | .act .dispatch => .none
  | .blockCurrent => .blockCurrent
  | .reenter _ => .none

end Sys

/-! ### How requests are served -/

/-- There is nothing to do, or an argument is out of range. -/
def Request.Idle (s : Scheduler) : Request → Prop
  | .none => True
  | .xTaskCreate _ => maxTasks ≤ s.taskCount
  | .vTaskStartScheduler => s.selectNext = invalidTask
  | .vTaskDelay _ | .blockCurrent => s.current = invalidTask
  | .vTaskSuspend t | .vTaskDelete t => s.taskCount ≤ t
  | .vTaskResume t => s.taskCount ≤ t ∨ (s.tasks t).state ≠ .suspended
  | .unblock t => s.taskCount ≤ t ∨ (s.tasks t).state ≠ .blocked
  | .tick _ | .taskReturn => False

/-- The control block that the executing task leaves the CPU with. -/
def Request.Leaves (s : Scheduler) (b : Tcb) : Request → Prop
  | .vTaskDelay n => (n = 0 ∧ b = { s.tasks s.current with state := .ready }) ∨
      (n ≠ 0 ∧ b = { s.tasks s.current with
        state := .blocked, resumeTick := (s.tickCount + n) % 2 ^ 32 })
  | .vTaskSuspend t => t = s.current ∧ b = { s.tasks s.current with state := .suspended }
  | .vTaskDelete t => t = s.current ∧ b = { s.tasks s.current with state := .deleted }
  | .blockCurrent => b = { s.tasks s.current with state := .blocked }
  | .taskReturn => b = { s.tasks s.current with state := .deleted }
  | _ => False

/-- The table after `tick` has scanned the deadlines. -/
def Scheduler.scanned (s : Scheduler) (ms : Nat) : Scheduler :=
  { s with tickCount := (s.tickCount + ms) % 2 ^ 32 }.wakeExpired

/-- The ways to serve a request: the table afterwards, and where control is then. -/
inductive Served (s : Scheduler) : Request → Scheduler → Phase → Prop
  | stay (r : Request) (h : r.Idle s) : Served s r s .code
  | create (p : Nat) (h : s.taskCount < maxTasks) :
      Served s (.xTaskCreate p) (s.xTaskCreate p) .code
  | start (hm : s.current = invalidTask) (hn : s.selectNext ≠ invalidTask) :
      Served s .vTaskStartScheduler (s.switchTo s.selectNext) .code
  /-- The executing task leaves the CPU. -/
  | leave (r : Request) (b : Tcb) (ph : Phase) (hm : s.current ≠ invalidTask)
      (hb : r.Leaves s b) (hp : ph ≠ .code) : Served s r (s.setTask s.current b) ph
  | suspend (t : TaskHandle) (ht : t < s.taskCount) (hne : t ≠ s.current) :
      Served s (.vTaskSuspend t) (s.setState t .suspended) .code
  | delete (t : TaskHandle) (ht : t < s.taskCount) (hne : t ≠ s.current) :
      Served s (.vTaskDelete t) (s.setState t .deleted) .code
  | resume (t : TaskHandle) (ht : t < s.taskCount) (hs : (s.tasks t).state = .suspended) :
      Served s (.vTaskResume t) (s.setState t .ready) .code
  | wake (t : TaskHandle) (ht : t < s.taskCount) (hb : (s.tasks t).state = .blocked)
      (hlow : s.current ≠ invalidTask → (s.tasks s.current).priority ≤ (s.tasks t).priority) :
      Served s (.unblock t) (s.setState t .ready) .code
  | preempt (t : TaskHandle) (ht : t < s.taskCount) (hb : (s.tasks t).state = .blocked)
      (hm : s.current ≠ invalidTask) :
      Served s (.unblock t) ((s.setState t .ready).setState s.current .ready) .scheduleFrom
  | scan (ms : Nat) (hlow : (s.scanned ms).selectNext ≠ invalidTask → s.current ≠ invalidTask →
        (s.tasks s.current).priority ≤ ((s.scanned ms).tasks (s.scanned ms).selectNext).priority) :
      Served s (.tick ms) (s.scanned ms) .code
  | scanPreempt (ms : Nat) (hm : s.current ≠ invalidTask) :
      Served s (.tick ms) ((s.scanned ms).setState s.current .ready) .scheduleFrom

/-- A task that leaves the CPU keeps its priority. -/
theorem Request.Leaves.priority {s : Scheduler} {b : Tcb} {r : Request} (h : r.Leaves s b) :
    b.priority = (s.tasks s.current).priority := by
  cases r with
  | vTaskDelay n =>
    obtain ⟨-, rfl⟩ | ⟨-, rfl⟩ := h
    · rfl
    · rfl
  | vTaskSuspend t => rw [h.2]
  | vTaskDelete t => rw [h.2]
  | blockCurrent => rw [show b = _ from h]
  | taskReturn => rw [show b = _ from h]
  | _ => exact h.elim

/-- A task that leaves the CPU is not `RUNNING` any more. -/
theorem Request.Leaves.ne_running {s : Scheduler} {b : Tcb} {r : Request} (h : r.Leaves s b) :
    b.state ≠ .running := by
  cases r with
  | vTaskDelay n =>
    obtain ⟨-, rfl⟩ | ⟨-, rfl⟩ := h
    · simp
    · simp
  | vTaskSuspend t => simp [h.2]
  | vTaskDelete t => simp [h.2]
  | blockCurrent => simp [show b = _ from h]
  | taskReturn => simp [show b = _ from h]
  | _ => exact h.elim

/-- A scan creates no task. -/
@[simp] theorem Scheduler.scanned_taskCount (s : Scheduler) (ms : Nat) :
    (s.scanned ms).taskCount = s.taskCount := rfl

/-- A scan does not switch tasks. -/
@[simp] theorem Scheduler.scanned_current (s : Scheduler) (ms : Nat) :
    (s.scanned ms).current = s.current := rfl

/-- A scan leaves a task or wakes it. -/
theorem Scheduler.scanned_woken (s : Scheduler) (ms : Nat) (t : TaskHandle) :
    Scheduler.Woken (s.tasks t) ((s.scanned ms).tasks t) :=
  woken_wakeExpired { s with tickCount := (s.tickCount + ms) % 2 ^ 32 } t

/-- A scan leaves the priorities. -/
theorem Scheduler.scanned_priority (s : Scheduler) (ms : Nat) (t : TaskHandle) :
    ((s.scanned ms).tasks t).priority = (s.tasks t).priority := by
  rcases s.scanned_woken ms t with h | ⟨-, h⟩ <;> rw [h]

/-! ### Every step is a request served -/

namespace Sys

variable (u : Sys α)

/-- How an `unblock` is served. -/
theorem served_unblock (w : TaskHandle) :
    Served u.sched (.unblock w) (u.sched.unblock w).1
      (if (u.sched.unblock w).2 then .scheduleFrom else .code) := by
  unfold Scheduler.unblock
  split
  · next hout => exact .stay _ (.inl hout)
  · next hlt =>
    have ht := Nat.lt_of_not_le hlt
    split
    · next hb => exact .stay _ (.inr hb)
    · next hb =>
      have hb := Decidable.not_not.mp hb
      dsimp only
      split
      · next hpre => exact .preempt w ht hb hpre.1
      · next hpre =>
        refine .wake w ht hb fun hm ↦ ?_
        have hle := Nat.le_of_not_lt fun hlt ↦ hpre ⟨hm, hlt⟩
        simpa using hle

private theorem served_tick (ms : Nat) :
    Served u.sched (.tick ms) (u.sched.tick ms).1
      (if (u.sched.tick ms).2 then .scheduleFrom else .code) := by
  unfold Scheduler.tick
  dsimp only
  split
  · next hpre => exact .scanPreempt ms hpre.2.1
  · next hpre =>
    refine .scan ms fun hn hm ↦ ?_
    have hle := Nat.le_of_not_lt fun hlt ↦ hpre ⟨hn, hm, hlt⟩
    rw [Scheduler.wakeExpired_current] at hle
    rwa [← u.sched.scanned_priority ms u.sched.current]

variable {u} (hp : u.phase = .code)

include hp

private theorem served_continueWith {r : Request} {v : Scheduler × Bool}
    (h : Served u.sched r v.1 (if v.2 then .scheduleFrom else .code)) :
    Served u.sched r (u.continueWith v).sched (u.continueWith v).phase := by
  rw [continueWith, hp]
  exact h

private theorem served_unblockFor (p : Prim) (w : TaskHandle) :
    Served u.sched (.unblock w) (u.unblockFor p w).sched (u.unblockFor p w).phase :=
  served_continueWith (u := u.emit (.unblock p w)) hp (u.served_unblock w)

private theorem served_blockCurrent (p : Prim) (k : Kont α) :
    Served u.sched .blockCurrent (u.blockCurrent p k).sched (u.blockCurrent p k).phase := by
  unfold blockCurrent
  dsimp only
  split
  · next hm =>
    rw [show (u.setKont k).phase = .code from hp]
    exact .stay _ hm
  · next hm => exact .leave _ _ .scheduleFrom hm rfl (by decide)

private theorem served_wakeReceiver (q : Nat) :
    Served u.sched (u.wakeBest (u.queue q).recvWaiters) (u.wakeReceiver q).sched
      (u.wakeReceiver q).phase := by
  unfold wakeReceiver wakeBest
  dsimp only
  split
  · rw [hp]
    exact .stay _ trivial
  · exact served_unblockFor (u := u.setQueue q _) hp _ _

private theorem served_wakeSender (q : Nat) :
    Served u.sched (u.wakeBest (u.queue q).sendWaiters) (u.wakeSender q).sched
      (u.wakeSender q).phase := by
  unfold wakeSender wakeBest
  dsimp only
  split
  · rw [hp]
    exact .stay _ trivial
  · exact served_unblockFor (u := u.setQueue q _) hp _ _

private theorem served_enqueue (q : Nat) (item : α) :
    Served u.sched (u.wakeBest (u.queue q).recvWaiters) (u.enqueue q item).sched
      (u.enqueue q item).phase := by
  have h := served_wakeReceiver
    (u := (u.setQueue q ((u.queue q).put item)).emit (.enqueued q item)) hp q
  rwa [show (((u.setQueue q ((u.queue q).put item)).emit (.enqueued q item)).queue q) =
    (u.queue q).put item from Function.update_self ..] at h

private theorem served_dequeue (q : Nat) :
    Served u.sched (u.wakeBest (u.queue q).sendWaiters) (u.dequeue q).sched
      (u.dequeue q).phase := by
  have h := served_wakeSender
    (u := (u.setQueue q (u.queue q).drop).emit (.dequeued q (u.queue q).front)) hp q
  rwa [show (((u.setQueue q (u.queue q).drop).emit (.dequeued q (u.queue q).front)).queue q) =
    (u.queue q).drop from Function.update_self ..] at h

end Sys

namespace Sys

variable {s : Sys α}

/-- A step that does not reach the scheduler. -/
theorem served_stay (hp : s.phase = .code) {t : Sys α} {r : Request} (h : r.Idle s.sched)
    (hs : t.sched = s.sched) (ht : t.phase = s.phase) : Served s.sched r t.sched t.phase := by
  rw [hs, ht, hp]
  exact .stay r h

/-- Suspending or deleting a task, which leaves the CPU if it is the executing one. -/
theorem served_stop (hcount : s.sched.taskCount ≤ maxTasks) {r : Request} {t : TaskHandle}
    {st : TaskState} (ht : t < s.sched.taskCount)
    (hself : t = s.me → r.Leaves s.sched { s.sched.tasks s.me with state := st })
    (hother : t ≠ s.me → Served s.sched r (s.sched.setState t st) .code) :
    Served s.sched r (s.sched.setState t st)
      (if decide (t = s.me) then .scheduleFrom else .code) := by
  by_cases he : t = s.me
  · have hm : s.me ≠ invalidTask := by
      rw [← he]
      exact Nat.ne_of_lt (Nat.lt_of_lt_of_le ht (Nat.le_trans hcount (by decide)))
    rw [if_pos (decide_eq_true he), he]
    exact .leave r _ _ hm (hself he) (by decide)
  · rw [if_neg (by simpa using he)]
    exact hother he

/-- Every call is a request served. -/
theorem served_call (hp : s.phase = .code) (hcount : s.sched.taskCount ≤ maxTasks) (op : Op α)
    (hi : s.Issues op) : Served s.sched (s.callRequest op) (s.call op).sched (s.call op).phase := by
  have hnone {t : Sys α} (hs : t.sched = s.sched) (ht : t.phase = s.phase) :
      Served s.sched .none t.sched t.phase := served_stay hp (r := .none) trivial hs ht
  cases op with
  | xTaskCreate p =>
    simp only [call, xTaskCreate, callRequest]
    split
    · next hfull => exact served_stay hp hfull rfl rfl
    · next hlt =>
      dsimp only
      rw [hp]
      exact .create p (Nat.lt_of_not_le hlt)
  | vTaskStartScheduler =>
    simp only [call, vTaskStartScheduler, callRequest]
    split
    · next hn => exact served_stay hp hn rfl rfl
    · next hn =>
      dsimp only
      rw [hp]
      exact .start hi hn
  | vTaskDelay n =>
    simp only [call, vTaskDelay, callRequest]
    split
    · next hm => exact served_stay hp hm rfl rfl
    · next hm =>
      split
      · next hn => exact .leave _ _ .scheduleFrom hm (.inl ⟨hn, rfl⟩) (by decide)
      · next hn => exact .leave _ _ .scheduleFrom hm (.inr ⟨hn, rfl⟩) (by decide)
  | vTaskSuspend t =>
    simp only [call, vTaskSuspend, callRequest]
    split
    · next hout => exact served_stay hp hout rfl rfl
    · next hlt =>
      have ht := Nat.lt_of_not_le hlt
      refine served_continueWith hp (served_stop hcount ht (fun he ↦ ⟨he, rfl⟩) fun hne ↦ ?_)
      exact .suspend t ht hne
  | vTaskResume t =>
    simp only [call, vTaskResume, callRequest]
    split
    · next hout => exact served_stay hp (.inl hout) rfl rfl
    · next hlt =>
      split
      · next hs =>
        dsimp only
        rw [hp]
        exact .resume t (Nat.lt_of_not_le hlt) hs
      · next hs => exact served_stay hp (.inr hs) rfl rfl
  | vTaskDelete t =>
    simp only [call, vTaskDelete, callRequest]
    split
    · next hout => exact served_stay hp hout rfl rfl
    · next hlt =>
      have ht := Nat.lt_of_not_le hlt
      refine served_continueWith hp (served_stop hcount ht (fun he ↦ ⟨he, rfl⟩) fun hne ↦ ?_)
      exact .delete t ht hne
  | tick ms => exact served_continueWith hp (s.served_tick ms)
  | unblock t => exact served_continueWith hp (s.served_unblock t)
  | taskReturn => exact .leave _ _ .afterDelete hi rfl (by decide)
  | lock m =>
    simp only [call, lock, callRequest]
    split
    · exact hnone rfl rfl
    · exact served_blockCurrent (u := s.setMutex m _) hp _ _
  | unlock m =>
    simp only [call, unlock]
    split
    · next hlt =>
      rw [callRequest, s.wakeBest_of_pos (s.mutex m).waiters hlt]
      exact served_unblockFor (u := (s.emit (.unlocked m s.me)).setMutex m _) hp _ _
    · next hlt =>
      rw [callRequest, s.wakeBest_of_empty (s.mutex m).waiters hlt]
      exact hnone rfl rfl
  | tryLock m =>
    simp only [call, tryLock, callRequest]
    split
    · exact hnone rfl rfl
    · exact hnone rfl rfl
  | take i =>
    simp only [call, take, callRequest]
    split
    · exact hnone rfl rfl
    · exact served_blockCurrent (u := s.setSem i _) hp _ _
  | give i =>
    simp only [call, give]
    split
    · next hlt =>
      rw [callRequest, s.wakeBest_of_pos (s.sem i).waiters hlt]
      exact served_unblockFor (u := ((s.emit (.gave i _ _)).setSem i _).emit (.handedOff i _)) hp
        _ _
    · next hlt =>
      rw [callRequest, s.wakeBest_of_empty (s.sem i).waiters hlt]
      split
      · exact hnone rfl rfl
      · exact hnone rfl rfl
  | tryTake i =>
    simp only [call, tryTake, callRequest]
    split
    · exact hnone rfl rfl
    · exact hnone rfl rfl
  | trySend q item =>
    simp only [call, trySend, callRequest]
    split
    · exact hnone rfl rfl
    · exact served_enqueue hp q item
  | tryReceive q =>
    simp only [call, tryReceive, callRequest]
    split
    · exact hnone rfl rfl
    · exact served_dequeue hp q
  | send q item | receive q | setBits e bits | clearBits e bits | waitBits e bits all clr
  | checkBits e bits all => exact hnone rfl rfl

/-- Going on is a request served. -/
theorem served_resume (hp : s.phase = .code) (k : Kont α) :
    Served s.sched (s.resumeRequest k) (s.resume k).sched (s.resume k).phase := by
  have hnone {t : Sys α} (hs : t.sched = s.sched) (ht : t.phase = s.phase) :
      Served s.sched .none t.sched t.phase := served_stay hp (r := .none) trivial hs ht
  cases k with
  | sendTest q item =>
    simp only [resume, sendTest, resumeRequest]
    split
    · exact served_blockCurrent (u := s.setQueue q _) hp _ _
    · exact served_enqueue (u := s.setKont .user) hp q item
  | recvTest q =>
    simp only [resume, recvTest, resumeRequest]
    split
    · exact served_blockCurrent (u := s.setQueue q _) hp _ _
    · exact served_dequeue (u := s.setKont .user) hp q
  | bitsTest e bits all clr =>
    simp only [resume, bitsTest, resumeRequest]
    split
    · split
      · exact hnone rfl rfl
      · exact hnone rfl rfl
    · exact served_blockCurrent (u := s.setEvents e _) hp _ _
  | checkTest e i =>
    simp only [resume, checkTest, resumeRequest]
    by_cases hi : i < (s.events e).waitCount
    · rw [if_pos hi]
      by_cases hsat : (s.events e).satisfiedAt i = true
      · rw [if_pos hsat, if_pos ⟨hi, hsat⟩]
        exact served_unblockFor (u := s.setKont (.checkCompact e i)) hp _ _
      · rw [if_neg hsat, if_neg fun h ↦ hsat h.2]
        exact hnone rfl rfl
    · rw [if_neg hi, if_neg fun h ↦ hi h.1]
      exact hnone rfl rfl
  | user | exited | delayed | lockWait m | takeWait i | sendWait q item | recvWait q
  | bitsWait e bits all clr | checkCompact e i => exact hnone rfl rfl

end Sys

/-- What a step does to the scheduler: it serves a request, or it dispatches. -/
theorem ApiStep.served {s t : Sys α} {a : ApiAct α} (h : ApiStep s a t)
    (hcount : s.sched.taskCount ≤ maxTasks) :
    (s.phase = .code ∧ Served s.sched (s.request a) t.sched t.phase) ∨
      (s.phase ≠ .code ∧ a = .act .dispatch ∧ t.sched = s.sched.dispatch s.phase ∧
        t.phase = .code) := by
  cases h with
  | act h =>
    cases h with
    | call hp hk hi => exact .inl ⟨hp, Sys.served_call hp hcount _ hi⟩
    | resume hp hk => exact .inl ⟨hp, Sys.served_resume hp _⟩
    | dispatch hp hd => exact .inr ⟨hp, rfl, hd.2, rfl⟩
  | blockCurrent hp hk =>
    refine .inl ⟨hp, ?_⟩
    unfold Sys.callBlockCurrent
    show Served s.sched .blockCurrent _ _
    split
    · next hm => exact Sys.served_stay hp hm rfl rfl
    · next hm => exact .leave _ _ .scheduleFrom hm rfl (by decide)
  | reenter hp hk => exact .inl ⟨hp, Sys.served_stay hp (r := .none) trivial rfl rfl⟩

/-- A dispatch is made outside task code, by the source's scheduler. -/
theorem ApiStep.dispatch_eq {s t : Sys α} (h : ApiStep s (.act .dispatch) t) :
    s.phase ≠ .code ∧ t.sched = s.sched.dispatch s.phase := by
  cases h with
  | act h =>
    cases h with
    | dispatch hp hd => exact ⟨hp, hd.2⟩

end McuSimulator.Rtos
