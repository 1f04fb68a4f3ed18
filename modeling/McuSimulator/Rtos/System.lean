import McuSimulator.Base.Transition
import McuSimulator.Rtos.Primitives

/-!
# Tasks, contexts and steps

One scheduler, any number of primitives, and the contexts of up to `MAX_TASKS` tasks plus
the code outside them. A context is a continuation: the point of an API function at which
the task goes on when it next has the CPU. Control moves between tasks only inside
`schedule_from` and `schedule_after_delete`, so each step of the executing context up to
its next scheduler entry is one transition, and the dispatch itself is another.

Task code is arbitrary: whenever a context is at its own code it may issue any call. The
context outside the tasks is the one executing while `current_` is `INVALID_TASK`, and its
continuation is stored under that handle. The log is a ghost: it lets statements speak of
what has been sent, handed over or returned, and no function reads it.
-/

namespace McuSimulator.Rtos

open McuSimulator.Base

/-- A place inside a primitive where a task waits. -/
inductive Prim where
  | mutex (m : Nat)
  | sem (i : Nat)
  | sendTo (q : Nat)
  | recvFrom (q : Nat)
  | events (e : Nat)
  deriving DecidableEq, Repr

/-- Where a context goes on. The `…Wait` points are returns from `block_current`. -/
inductive Kont (α : Type) where
  /-- In task code: not started, or between two API calls. -/
  | user
  /-- The task function has returned; the context must not be entered again. -/
  | exited
  /-- In `vTaskDelay` with a nonzero delay. -/
  | delayed
  | lockWait (m : Nat)
  | takeWait (i : Nat)
  | sendWait (q : Nat) (item : α)
  /-- At the loop test of `send`. -/
  | sendTest (q : Nat) (item : α)
  | recvWait (q : Nat)
  /-- At the loop test of `receive`. -/
  | recvTest (q : Nat)
  | bitsWait (e : Nat) (bits : BitVec 32) (all clearOnExit : Bool)
  /-- At the loop test of `wait_bits`. -/
  | bitsTest (e : Nat) (bits : BitVec 32) (all clearOnExit : Bool)
  /-- At the loop test of `check_waiters`. -/
  | checkTest (e : Nat) (i : Nat)
  /-- In `check_waiters`, after `unblock`, before the compaction of entry `i`. -/
  | checkCompact (e : Nat) (i : Nat)
  deriving DecidableEq

/-- The place a context waits at inside `block_current`. -/
def Kont.waitsOn {α : Type} : Kont α → Option Prim
  | .lockWait m => some (.mutex m)
  | .takeWait i => some (.sem i)
  | .sendWait q _ => some (.sendTo q)
  | .recvWait q => some (.recvFrom q)
  | .bitsWait e _ _ _ => some (.events e)
  | _ => none

/-- What is executing: task code, `schedule_from(current_)` or `schedule_after_delete()`. -/
inductive Phase where
  | code
  | scheduleFrom
  | afterDelete
  deriving DecidableEq, Repr

/-- Ghost events, in the order of the code. -/
inductive Event (α : Type) where
  | blocked (p : Prim) (t : TaskHandle)
  | unblock (p : Prim) (t : TaskHandle)
  | acquired (m : Nat) (t : TaskHandle)
  | unlocked (m : Nat) (t : TaskHandle)
  /-- A `give` that found so many waiters and this count. -/
  | gave (i : Nat) (waiters : Nat) (count : Int)
  | took (i : Nat) (t : TaskHandle)
  | handedOff (i : Nat) (t : TaskHandle)
  | enqueued (q : Nat) (item : α)
  | dequeued (q : Nat) (item : α)
  | sendRefused (q : Nat)
  | receiveRefused (q : Nat)
  | bitsReturned (e : Nat) (t : TaskHandle) (snapshot : BitVec 32)

/-- The calls a context may issue at its own code. -/
inductive Op (α : Type) where
  | xTaskCreate (priority : Nat)
  | vTaskStartScheduler
  | vTaskDelay (ticks : Nat)
  | vTaskSuspend (t : TaskHandle)
  | vTaskResume (t : TaskHandle)
  | vTaskDelete (t : TaskHandle)
  | tick (ms : Nat)
  | unblock (t : TaskHandle)
  /-- The task function returns. -/
  | taskReturn
  | lock (m : Nat)
  | unlock (m : Nat)
  | tryLock (m : Nat)
  | take (i : Nat)
  | give (i : Nat)
  | tryTake (i : Nat)
  | send (q : Nat) (item : α)
  | receive (q : Nat)
  | trySend (q : Nat) (item : α)
  | tryReceive (q : Nat)
  | setBits (e : Nat) (bits : BitVec 32)
  | clearBits (e : Nat) (bits : BitVec 32)
  | waitBits (e : Nat) (bits : BitVec 32) (all clearOnExit : Bool)
  | checkBits (e : Nat) (bits : BitVec 32) (all : Bool)

/-- The whole machine. -/
structure Sys (α : Type) where
  sched : Scheduler
  kont : TaskHandle → Kont α
  phase : Phase
  mutex : Nat → Mutex
  sem : Nat → Semaphore
  queue : Nat → Queue α
  events : Nat → EventGroup
  log : List (Event α)

/-- The default capacity is positive. -/
theorem queueCap_default_pos : ∀ q : Nat, 0 < (fun _ ↦ 1 : Nat → Nat) q := fun _ ↦ Nat.one_pos

/-- Constructor arguments of the primitives. -/
structure Config where
  semInitial : Nat → Int := fun _ ↦ 0
  semMax : Nat → Int := fun _ ↦ 0x7FFFFFFF
  queueCap : Nat → Nat := fun _ ↦ 1
  queueCap_pos : ∀ q, 0 < queueCap q := by first | exact queueCap_default_pos | intro _; decide

namespace Scheduler

/-! ### Scheduler calls -/

/-- `xTaskCreate`; rtos/scheduler.cpp:16–45. -/
def xTaskCreate (s : Scheduler) (priority : Nat) : Scheduler :=
  if maxTasks ≤ s.taskCount then s
  else
    { s with taskCount := s.taskCount + 1 }.setTask s.taskCount
      { priority := priority, state := .ready, resumeTick := 0 }

/-- With room in the table the task is appended to it. -/
theorem xTaskCreate_of_lt {s : Scheduler} (h : s.taskCount < maxTasks) (priority : Nat) :
    s.xTaskCreate priority = { s with taskCount := s.taskCount + 1 }.setTask s.taskCount
      { priority := priority, state := .ready, resumeTick := 0 } :=
  if_neg (Nat.not_le.mpr h)

/-- The state changes of `unblock`, and whether it goes on into `schedule_from`;
rtos/scheduler.cpp:114–125. -/
def unblock (s : Scheduler) (task : TaskHandle) : Scheduler × Bool :=
  if s.taskCount ≤ task then (s, false)
  else if (s.tasks task).state ≠ .blocked then (s, false)
  else
    let s := s.setState task .ready
    if s.current ≠ invalidTask ∧ (s.tasks task).priority < (s.tasks s.current).priority then
      (s.setState s.current .ready, true)
    else (s, false)

/-- The state changes of `tick`, and whether it goes on into `schedule_from`;
rtos/scheduler.cpp:128–144. -/
def tick (s : Scheduler) (ms : Nat) : Scheduler × Bool :=
  let s := { s with tickCount := (s.tickCount + ms) % 2 ^ 32 }.wakeExpired
  let next := s.selectNext
  if next ≠ invalidTask ∧ s.current ≠ invalidTask ∧
      (s.tasks next).priority < (s.tasks s.current).priority then
    (s.setState s.current .ready, true)
  else (s, false)

/-- `unblock` acts on a `BLOCKED` task only, and then preempts or not. -/
theorem unblock_cases (s : Scheduler) (w : TaskHandle) :
    ((s.taskCount ≤ w ∨ (s.tasks w).state ≠ .blocked) ∧ s.unblock w = (s, false)) ∨
    (w < s.taskCount ∧ (s.tasks w).state = .blocked ∧
      (s.unblock w = (s.setState w .ready, false) ∨
        (s.current ≠ invalidTask ∧
          s.unblock w = ((s.setState w .ready).setState s.current .ready, true)))) := by
  unfold unblock
  split
  · next h => exact .inl ⟨.inl h, rfl⟩
  · next h =>
    split
    · next hb => exact .inl ⟨.inr hb, rfl⟩
    · next hb =>
      refine .inr ⟨Nat.lt_of_not_le h, Decidable.not_not.mp hb, ?_⟩
      dsimp only
      split
      · next hp => exact .inr ⟨hp.1, rfl⟩
      · exact .inl rfl

/-- `tick` scans the deadlines, and then preempts or not. -/
theorem tick_cases (s : Scheduler) (ms : Nat) :
    ∃ u : Scheduler, u = { s with tickCount := (s.tickCount + ms) % 2 ^ 32 }.wakeExpired ∧
      (s.tick ms = (u, false) ∨
        (s.current ≠ invalidTask ∧ s.tick ms = (u.setState s.current .ready, true))) := by
  refine ⟨_, rfl, ?_⟩
  unfold tick
  dsimp only
  split
  · next hp => exact .inr ⟨hp.2.1, rfl⟩
  · exact .inl rfl

end Scheduler

namespace Sys

variable {α : Type}

/-- The machine before any task is created. -/
def init [Inhabited α] (cfg : Config) : Sys α :=
  { sched := .init
    kont := fun _ ↦ .user
    phase := .code
    mutex := fun _ ↦ {}
    sem := fun i ↦ { count := cfg.semInitial i, maxCount := cfg.semMax i }
    queue := fun q ↦ .init (cfg.queueCap q) (cfg.queueCap_pos q)
    events := fun _ ↦ {}
    log := [] }

/-- `xTaskGetCurrentTaskHandle()`, the handle under which the executing context is stored. -/
def me (s : Sys α) : TaskHandle := s.sched.current

def setKont (s : Sys α) (k : Kont α) : Sys α :=
  { s with kont := Function.update s.kont s.me k }

def emit (s : Sys α) (e : Event α) : Sys α := { s with log := e :: s.log }

def setMutex (s : Sys α) (m : Nat) (v : Mutex) : Sys α :=
  { s with mutex := Function.update s.mutex m v }

def setSem (s : Sys α) (i : Nat) (v : Semaphore) : Sys α :=
  { s with sem := Function.update s.sem i v }

def setQueue (s : Sys α) (q : Nat) (v : Queue α) : Sys α :=
  { s with queue := Function.update s.queue q v }

def setEvents (s : Sys α) (e : Nat) (v : EventGroup) : Sys α :=
  { s with events := Function.update s.events e v }

/-- Replace the scheduler and go on into `schedule_from(current_)`. -/
def reschedule (s : Sys α) (sched : Scheduler) : Sys α :=
  { s with sched := sched, phase := .scheduleFrom }

/-- Replace the scheduler and go on into `schedule_from(current_)` if asked to. -/
def continueWith (s : Sys α) (r : Scheduler × Bool) : Sys α :=
  { s with sched := r.1, phase := if r.2 then .scheduleFrom else s.phase }

/-- `block_current()` inside a primitive; rtos/scheduler.cpp:108–112. -/
def blockCurrent (s : Sys α) (p : Prim) (k : Kont α) : Sys α :=
  let s := s.setKont k
  if s.me = invalidTask then s
  else (s.emit (.blocked p s.me)).reschedule (s.sched.setState s.me .blocked)

/-- `unblock(t)` called by a primitive. -/
def unblockFor (s : Sys α) (p : Prim) (t : TaskHandle) : Sys α :=
  (s.emit (.unblock p t)).continueWith (s.sched.unblock t)

/-! ### Mutex -/

/-- `Mutex::lock` up to the block; rtos/mutex.h:21–28. -/
def lock (s : Sys α) (m : Nat) : Sys α :=
  if (s.mutex m).owner = invalidTask then
    (s.setMutex m { s.mutex m with owner := s.me }).emit (.acquired m s.me)
  else
    (s.setMutex m { s.mutex m with waiters := register (s.mutex m).waiters s.me }).blockCurrent
      (.mutex m) (.lockWait m)

/-- `Mutex::unlock`; rtos/mutex.h:31–47. -/
def unlock (s : Sys α) (m : Nat) : Sys α :=
  let s := s.emit (.unlocked m s.me)
  let ws := (s.mutex m).waiters
  if 0 < ws.length then
    let i := bestIdx s.sched.getPriority ws
    let w := ws.getD i invalidTask
    (s.setMutex m { owner := w, waiters := swapRemove ws i }).unblockFor (.mutex m) w
  else s.setMutex m { s.mutex m with owner := invalidTask }

/-- `Mutex::try_lock`; rtos/mutex.h:50–54. -/
def tryLock (s : Sys α) (m : Nat) : Sys α :=
  if (s.mutex m).owner ≠ invalidTask then s
  else (s.setMutex m { s.mutex m with owner := s.me }).emit (.acquired m s.me)

/-! ### Semaphore -/

/-- `Semaphore::take` up to the block; rtos/semaphore.h:26–32. -/
def take (s : Sys α) (i : Nat) : Sys α :=
  if 0 < (s.sem i).count then
    (s.setSem i { s.sem i with count := (s.sem i).count - 1 }).emit (.took i s.me)
  else
    (s.setSem i { s.sem i with waiters := register (s.sem i).waiters s.me }).blockCurrent
      (.sem i) (.takeWait i)

/-- `Semaphore::give`; rtos/semaphore.h:35–50. -/
def give (s : Sys α) (i : Nat) : Sys α :=
  let s := s.emit (.gave i (s.sem i).waiters.length (s.sem i).count)
  let ws := (s.sem i).waiters
  if 0 < ws.length then
    let b := bestIdx s.sched.getPriority ws
    let w := ws.getD b invalidTask
    ((s.setSem i { s.sem i with waiters := swapRemove ws b }).emit (.handedOff i w)).unblockFor
      (.sem i) w
  else if (s.sem i).count < (s.sem i).maxCount then
    s.setSem i { s.sem i with count := (s.sem i).count + 1 }
  else s

/-- `Semaphore::try_take`; rtos/semaphore.h:53–57. -/
def tryTake (s : Sys α) (i : Nat) : Sys α :=
  if (s.sem i).count ≤ 0 then s
  else (s.setSem i { s.sem i with count := (s.sem i).count - 1 }).emit (.took i s.me)

/-! ### Queue -/

/-- `wake_receiver`; rtos/queue.h:76–87. -/
def wakeReceiver (s : Sys α) (q : Nat) : Sys α :=
  let ws := (s.queue q).recvWaiters
  if ws.length = 0 then s
  else
    let i := bestIdx s.sched.getPriority ws
    (s.setQueue q { s.queue q with recvWaiters := swapRemove ws i }).unblockFor
      (.recvFrom q) (ws.getD i invalidTask)

/-- `wake_sender`; rtos/queue.h:89–100. -/
def wakeSender (s : Sys α) (q : Nat) : Sys α :=
  let ws := (s.queue q).sendWaiters
  if ws.length = 0 then s
  else
    let i := bestIdx s.sched.getPriority ws
    (s.setQueue q { s.queue q with sendWaiters := swapRemove ws i }).unblockFor
      (.sendTo q) (ws.getD i invalidTask)

/-- Store an item and wake a receiver, the common tail of `send` and `try_send`. -/
def enqueue (s : Sys α) (q : Nat) (item : α) : Sys α :=
  ((s.setQueue q ((s.queue q).put item)).emit (.enqueued q item)).wakeReceiver q

/-- Remove an item and wake a sender, the common tail of `receive` and `try_receive`. -/
def dequeue (s : Sys α) (q : Nat) : Sys α :=
  ((s.setQueue q (s.queue q).drop).emit (.dequeued q (s.queue q).front)).wakeSender q

/-- One turn of the loop of `Queue::send`, with its tail; rtos/queue.h:25–33. -/
def sendTest (s : Sys α) (q : Nat) (item : α) : Sys α :=
  if (s.queue q).count = (s.queue q).cap then
    (s.setQueue q
      { s.queue q with sendWaiters := register (s.queue q).sendWaiters s.me }).blockCurrent
      (.sendTo q) (.sendWait q item)
  else (s.setKont .user).enqueue q item

/-- One turn of the loop of `Queue::receive`, with its tail; rtos/queue.h:38–47. -/
def recvTest (s : Sys α) (q : Nat) : Sys α :=
  if (s.queue q).count = 0 then
    (s.setQueue q
      { s.queue q with recvWaiters := register (s.queue q).recvWaiters s.me }).blockCurrent
      (.recvFrom q) (.recvWait q)
  else (s.setKont .user).dequeue q

/-- `Queue::try_send`; rtos/queue.h:51–58. -/
def trySend (s : Sys α) (q : Nat) (item : α) : Sys α :=
  if (s.queue q).count = (s.queue q).cap then s.emit (.sendRefused q)
  else s.enqueue q item

/-- `Queue::try_receive`; rtos/queue.h:61–68. -/
def tryReceive (s : Sys α) (q : Nat) : Sys α :=
  if (s.queue q).count = 0 then s.emit (.receiveRefused q) else s.dequeue q

/-! ### Event group -/

/-- `set_bits` up to the loop of `check_waiters`; rtos/event_group.h:20–23. -/
def setBits (s : Sys α) (e : Nat) (bits : BitVec 32) : Sys α :=
  (s.setEvents e { s.events e with bits := (s.events e).bits ||| bits }).setKont (.checkTest e 0)

/-- `clear_bits`; rtos/event_group.h:26. -/
def clearBits (s : Sys α) (e : Nat) (bits : BitVec 32) : Sys α :=
  s.setEvents e { s.events e with bits := (s.events e).bits &&& ~~~bits }

/-- One turn of the loop of `wait_bits`, with its tail; rtos/event_group.h:39–48. -/
def bitsTest (s : Sys α) (e : Nat) (bits : BitVec 32) (all clearOnExit : Bool) : Sys α :=
  if (s.events e).satisfied bits all then
    let snapshot := (s.events e).bits
    let s := (s.setKont .user).emit (.bitsReturned e s.me snapshot)
    if clearOnExit then s.clearBits e bits else s
  else
    (s.setEvents e
      ((s.events e).register { task := s.me, waitBits := bits, all := all })).blockCurrent
      (.events e) (.bitsWait e bits all clearOnExit)

/-- One loop test of `check_waiters`, up to `unblock`; rtos/event_group.h:70–72. -/
def checkTest (s : Sys α) (e : Nat) (i : Nat) : Sys α :=
  if i < (s.events e).waitCount then
    if (s.events e).satisfiedAt i then
      (s.setKont (.checkCompact e i)).unblockFor (.events e) ((s.events e).waiters i).task
    else s.setKont (.checkTest e (i + 1))
  else s.setKont .user

/-- The compaction in `check_waiters`; rtos/event_group.h:73. -/
def checkCompact (s : Sys α) (e : Nat) (i : Nat) : Sys α :=
  (s.setEvents e ((s.events e).compact i)).setKont (.checkTest e i)

/-! ### Scheduler API -/

/-- `xTaskCreate`; the new context starts at its task function. -/
def xTaskCreate (s : Sys α) (priority : Nat) : Sys α :=
  if maxTasks ≤ s.sched.taskCount then s
  else
    { s with
      sched := s.sched.xTaskCreate priority
      kont := Function.update s.kont s.sched.taskCount .user }

/-- `vTaskStartScheduler`; rtos/scheduler.cpp:61–73. -/
def vTaskStartScheduler (s : Sys α) : Sys α :=
  if s.sched.selectNext = invalidTask then s
  else { s with sched := s.sched.switchTo s.sched.selectNext }

/-- `vTaskDelay`; rtos/scheduler.cpp:76–86. -/
def vTaskDelay (s : Sys α) (ticks : Nat) : Sys α :=
  if s.me = invalidTask then s
  else if ticks = 0 then s.reschedule (s.sched.setState s.me .ready)
  else
    (s.setKont .delayed).reschedule (s.sched.setTask s.me
      { s.sched.tasks s.me with
        state := .blocked
        resumeTick := (s.sched.tickCount + ticks) % 2 ^ 32 })

/-- `vTaskSuspend`; rtos/scheduler.cpp:89–93. -/
def vTaskSuspend (s : Sys α) (t : TaskHandle) : Sys α :=
  if s.sched.taskCount ≤ t then s
  else s.continueWith (s.sched.setState t .suspended, decide (t = s.me))

/-- `vTaskResume`; rtos/scheduler.cpp:95–99. -/
def vTaskResume (s : Sys α) (t : TaskHandle) : Sys α :=
  if s.sched.taskCount ≤ t then s
  else if (s.sched.tasks t).state = .suspended then
    { s with sched := s.sched.setState t .ready }
  else s

/-- `vTaskDelete`; rtos/scheduler.cpp:101–105. -/
def vTaskDelete (s : Sys α) (t : TaskHandle) : Sys α :=
  if s.sched.taskCount ≤ t then s
  else s.continueWith (s.sched.setState t .deleted, decide (t = s.me))

/-- The task function returned: `task_entry` marks the task and leaves for good;
rtos/scheduler.cpp:55–56. -/
def taskReturn (s : Sys α) : Sys α :=
  { s.setKont .exited with sched := s.sched.setState s.me .deleted, phase := .afterDelete }

/-- Issue a call at task code. -/
def call (s : Sys α) : Op α → Sys α
  | .xTaskCreate p => s.xTaskCreate p
  | .vTaskStartScheduler => s.vTaskStartScheduler
  | .vTaskDelay n => s.vTaskDelay n
  | .vTaskSuspend t => s.vTaskSuspend t
  | .vTaskResume t => s.vTaskResume t
  | .vTaskDelete t => s.vTaskDelete t
  | .tick ms => s.continueWith (s.sched.tick ms)
  | .unblock t => s.continueWith (s.sched.unblock t)
  | .taskReturn => s.taskReturn
  | .lock m => s.lock m
  | .unlock m => s.unlock m
  | .tryLock m => s.tryLock m
  | .take i => s.take i
  | .give i => s.give i
  | .tryTake i => s.tryTake i
  | .send q item => s.setKont (.sendTest q item)
  | .receive q => s.setKont (.recvTest q)
  | .trySend q item => s.trySend q item
  | .tryReceive q => s.tryReceive q
  | .setBits e bits => s.setBits e bits
  | .clearBits e bits => s.clearBits e bits
  | .waitBits e bits all clr => s.setKont (.bitsTest e bits all clr)
  | .checkBits _ _ _ => s

/-- Go on inside an API function, up to the next scheduler entry or loop test. -/
def resume (s : Sys α) : Kont α → Sys α
  | .user | .exited => s
  | .delayed => s.setKont .user
  | .lockWait m => (s.setKont .user).emit (.acquired m s.me)
  | .takeWait _ => s.setKont .user
  | .sendWait q item => s.setKont (.sendTest q item)
  | .sendTest q item => s.sendTest q item
  | .recvWait q => s.setKont (.recvTest q)
  | .recvTest q => s.recvTest q
  | .bitsWait e bits all clr => s.setKont (.bitsTest e bits all clr)
  | .bitsTest e bits all clr => s.bitsTest e bits all clr
  | .checkTest e i => s.checkTest e i
  | .checkCompact e i => s.checkCompact e i

end Sys

/-! ### Steps -/

/-- A dispatcher: what `schedule_from` and `schedule_after_delete` do to the scheduler.
Results quantified over dispatchers hold for every order of scheduling. -/
structure Dispatcher where
  dispatch : Phase → Scheduler → Scheduler → Prop
  sound : ∀ ph s s', dispatch ph s s' → Scheduler.Dispatches s s'

/-- The scheduler entry a phase stands for. -/
def Scheduler.dispatch (s : Scheduler) : Phase → Scheduler
  | .code => s
  | .scheduleFrom => s.scheduleFrom s.current
  | .afterDelete => s.scheduleAfterDelete

/-- The dispatcher of rtos/scheduler.cpp. -/
def Dispatcher.code : Dispatcher where
  dispatch ph s s' := ph ≠ .code ∧ s' = s.dispatch ph
  sound := by
    rintro ph s s' ⟨hp, rfl⟩
    cases ph with
    | code => exact absurd rfl hp
    | scheduleFrom => exact s.scheduleFrom_dispatches
    | afterDelete => exact s.scheduleAfterDelete_dispatches

/-- The dispatcher that may run any `READY` task, or none. -/
def Dispatcher.any : Dispatcher := ⟨fun _ ↦ Scheduler.Dispatches, fun _ _ _ h ↦ h⟩

/-- What happens next. -/
inductive Act (α : Type) where
  | call (op : Op α)
  | resume
  | dispatch

/-- The calls of the executing context that make sense: tasks do not start the scheduler,
and only tasks return from a task function. -/
def Sys.Issues {α : Type} (s : Sys α) : Op α → Prop
  | .vTaskStartScheduler => s.me = invalidTask
  | .taskReturn => s.me ≠ invalidTask
  | _ => True

instance {α : Type} (s : Sys α) (op : Op α) : Decidable (s.Issues op) := by
  induction op using Op.casesOn with
  | vTaskStartScheduler => exact inferInstanceAs (Decidable (s.me = invalidTask))
  | taskReturn => exact inferInstanceAs (Decidable (s.me ≠ invalidTask))
  | _ => exact .isTrue trivial

/-- A context is inside an API function, with code left to run. -/
def Kont.Resumable {α : Type} : Kont α → Prop
  | .user | .exited => False
  | _ => True

instance {α : Type} (k : Kont α) : Decidable k.Resumable := by
  induction k using Kont.casesOn <;> first | exact .isTrue trivial | exact .isFalse id

/-- A context is at its own code. -/
def Kont.IsUser {α : Type} : Kont α → Prop
  | .user => True
  | _ => False

instance {α : Type} (k : Kont α) : Decidable k.IsUser := by
  induction k using Kont.casesOn <;> first | exact .isTrue trivial | exact .isFalse id

/-- A context at its own code is nowhere else. -/
theorem Kont.IsUser.eq {α : Type} {k : Kont α} (h : k.IsUser) : k = .user := by
  cases k with
  | user => rfl
  | _ => exact h.elim

/-- The transitions of the machine under a dispatcher. -/
inductive Step {α : Type} (D : Dispatcher) : Sys α → Act α → Sys α → Prop
  | call {s : Sys α} {op : Op α} (hp : s.phase = .code) (hk : (s.kont s.me).IsUser)
      (hi : s.Issues op) : Step D s (.call op) (s.call op)
  | resume {s : Sys α} (hp : s.phase = .code) (hk : (s.kont s.me).Resumable) :
      Step D s .resume (s.resume (s.kont s.me))
  | dispatch {s : Sys α} {sched : Scheduler} (hp : s.phase ≠ .code)
      (hd : D.dispatch s.phase s.sched sched) :
      Step D s .dispatch { s with sched := sched, phase := .code }

/-- The machine with the scheduler of the source, as a partial function. -/
def Sys.exec {α : Type} (s : Sys α) : Act α → Option (Sys α)
  | .call op =>
    if s.phase = .code ∧ (s.kont s.me).IsUser ∧ s.Issues op then some (s.call op) else none
  | .resume =>
    if s.phase = .code ∧ (s.kont s.me).Resumable then some (s.resume (s.kont s.me)) else none
  | .dispatch =>
    if s.phase ≠ .code then some { s with sched := s.sched.dispatch s.phase, phase := .code }
    else none

/-- The executable machine takes steps of the machine under the source's dispatcher. -/
theorem Step.of_exec {α : Type} (s : Sys α) (a : Act α) (t : Sys α) (h : s.exec a = some t) :
    Step .code s a t := by
  cases a with
  | call op =>
    simp only [Sys.exec] at h
    split at h
    · next hc =>
      rw [← Option.some.inj h]
      exact .call hc.1 hc.2.1 hc.2.2
    · cases h
  | resume =>
    simp only [Sys.exec] at h
    split at h
    · next hc =>
      rw [← Option.some.inj h]
      exact .resume hc.1 hc.2
    · cases h
  | dispatch =>
    simp only [Sys.exec] at h
    split at h
    · next hc =>
      rw [← Option.some.inj h]
      exact .dispatch hc ⟨hc, rfl⟩
    · cases h

end McuSimulator.Rtos
