import McuSimulator.Rtos.Discipline

/-!
# Waiter arrays

The arrays that stand for the waiter lists of mutexes, semaphores and queues, with their counts,
and the wake-ups as they scan and compact them. All four wake-ups take the first waiter with the
least priority value and leave the others. Read off as lists, the arrays are what the machine of
tasks keeps, and its wake-ups are these.
-/

namespace McuSimulator.Rtos

open McuSimulator.Base

/-- `waiters_` and `wait_count_`, at most `MAX_TASKS` entries; rtos/mutex.h:73–74,
rtos/semaphore.h:66–67, rtos/queue.h:108–111. -/
structure WaiterArray where
  entries : Nat → TaskHandle := fun _ ↦ 0
  waitCount : Nat := 0
  waitCount_le : waitCount ≤ maxTasks := by exact Nat.zero_le _

namespace WaiterArray

/-- The entries in use, in array order. -/
def toList (ws : WaiterArray) : List TaskHandle := (List.range ws.waitCount).map ws.entries

/-- `if (wait_count_ < MAX_TASKS) waiters_[wait_count_++] = me`; rtos/mutex.h:25,
rtos/semaphore.h:28–29, rtos/queue.h:26–27, 39–40. -/
def register (ws : WaiterArray) (me : TaskHandle) : WaiterArray :=
  if h : ws.waitCount < maxTasks then
    { entries := Function.update ws.entries ws.waitCount me
      waitCount := ws.waitCount + 1
      waitCount_le := h }
  else ws

/-- The scan for the best waiter, at its loop test with index `i`; rtos/mutex.h:36–39,
rtos/semaphore.h:40–43, rtos/queue.h:80–83, 93–96. -/
def scan (ws : WaiterArray) (prio : TaskHandle → Nat) (i bestIdx bestPrio : Nat) : Nat :=
  if i < ws.waitCount then
    let p := prio (ws.entries i)
    if p < bestPrio then ws.scan prio (i + 1) i p
    else ws.scan prio (i + 1) bestIdx bestPrio
  else bestIdx
termination_by ws.waitCount - i

/-- `best_idx` after the scan; rtos/mutex.h:34–39, rtos/semaphore.h:38–43,
rtos/queue.h:78–83, 91–96. -/
def bestIdx (ws : WaiterArray) (prio : TaskHandle → Nat) : Nat :=
  ws.scan prio 1 0 (prio (ws.entries 0))

/-- `waiters_[i] = waiters_[--wait_count_]` on an 8-bit count; rtos/mutex.h:42,
rtos/semaphore.h:45, rtos/queue.h:85, 98. -/
def compact (ws : WaiterArray) (i : Nat) (h : 0 < ws.waitCount) : WaiterArray :=
  let n := (ws.waitCount + 255) % 256
  { entries := Function.update ws.entries i (ws.entries n)
    waitCount := n
    waitCount_le := by
      have hle := ws.waitCount_le
      unfold maxTasks at hle ⊢
      omega }

/-! ### The entries as a list -/

section List

variable {ws : WaiterArray} (prio : TaskHandle → Nat)

/-- The list is as long as the count says. -/
@[simp] theorem length_toList (ws : WaiterArray) : ws.toList.length = ws.waitCount := by
  simp [toList]

private theorem getElem?_toList {i : Nat} (h : i < ws.waitCount) :
    ws.toList[i]? = some (ws.entries i) := by
  simp [toList, h]

private theorem toList_drop {i : Nat} (h : i < ws.waitCount) :
    ws.toList.drop i = ws.entries i :: ws.toList.drop (i + 1) := by
  have hi : i < ws.toList.length := by rwa [length_toList]
  rw [List.drop_eq_getElem_cons hi]
  simp [toList]

private theorem toList_register (ws : WaiterArray) (me : TaskHandle) :
    (ws.register me).toList = Rtos.register ws.toList me := by
  unfold register Rtos.register
  rw [length_toList]
  split
  · -- the entries below the count keep their values
    have hkeep : ∀ i ∈ List.range ws.waitCount,
        Function.update ws.entries ws.waitCount me i = ws.entries i := by
      intro i hi
      exact Function.update_of_ne (Nat.ne_of_lt (List.mem_range.mp hi)) _ _
    simp [toList, List.range_succ, List.map_congr_left hkeep]
  · rfl

/-- At index `i` the scan has the entries from there on to go. -/
theorem scan_eq (i b p : Nat) : ws.scan prio i b p = scanBest prio (ws.toList.drop i) i b p := by
  fun_induction scan ws prio i b p with
  | case1 i b p hi _ hp ih => rw [toList_drop hi, scanBest, if_pos hp, ih]
  | case2 i b p hi _ hp ih => rw [toList_drop hi, scanBest, if_neg hp, ih]
  | case3 i b p hi =>
    rw [List.drop_of_length_le (by rw [length_toList]; omega)]
    rfl

private theorem bestIdx_eq (h : 0 < ws.waitCount) :
    ws.bestIdx prio = Rtos.bestIdx prio ws.toList := by
  have hcons : ws.toList = ws.entries 0 :: ws.toList.drop 1 := toList_drop h
  rw [bestIdx, scan_eq, hcons]
  rfl

private theorem bestIdx_lt (h : 0 < ws.waitCount) : ws.bestIdx prio < ws.waitCount := by
  rw [bestIdx_eq prio h, ← length_toList]
  exact Rtos.bestIdx_lt prio ws.toList (by rwa [length_toList])

private theorem waitCount_compact (i : Nat) (h : 0 < ws.waitCount) :
    (ws.compact i h).waitCount = ws.waitCount - 1 := by
  have hle := ws.waitCount_le
  unfold maxTasks at hle
  simp only [compact]
  omega

/-- Also where the removed entry is the last one, whose slot is then overwritten by itself. -/
theorem toList_compact {i : Nat} (h : 0 < ws.waitCount) (hi : i < ws.waitCount) :
    (ws.compact i h).toList = swapRemove ws.toList i := by
  have hn : (ws.waitCount + 255) % 256 = ws.waitCount - 1 := waitCount_compact i h
  rw [toList, toList, swapRemove_map_range ws.entries hi]
  simp only [compact, hn]

/-- What the list scan finds and removes is what the array scan does. -/
theorem take_toList (h : 0 < ws.waitCount) :
    ws.toList[Rtos.bestIdx prio ws.toList]? = some (ws.entries (ws.bestIdx prio)) ∧
      swapRemove ws.toList (Rtos.bestIdx prio ws.toList) =
        (ws.compact (ws.bestIdx prio) h).toList := by
  have hi := bestIdx_lt prio h
  rw [← bestIdx_eq prio h]
  exact ⟨getElem?_toList hi, (toList_compact h hi).symm⟩

end List

/-- The first waiter with the least priority value is taken out, and the others stay, in some
order. -/
structure TakesFirstLeast (prio : TaskHandle → Nat) (ws : WaiterArray) (w : TaskHandle)
    (rest : WaiterArray) : Prop where
  count : rest.waitCount + 1 = ws.waitCount
  chosen : ∃ r, ws.toList[r]? = some w ∧ FirstLeast prio ws.toList r ∧
    rest.toList.Perm (ws.toList.eraseIdx r)

/-- The scan and the compaction together. -/
theorem takesFirstLeast_compact (prio : TaskHandle → Nat) {ws : WaiterArray}
    (h : 0 < ws.waitCount) :
    ws.TakesFirstLeast prio (ws.entries (ws.bestIdx prio)) (ws.compact (ws.bestIdx prio) h) := by
  have hi := bestIdx_lt prio h
  constructor
  case count =>
    have hc := waitCount_compact (ws.bestIdx prio) h
    omega
  case chosen =>
    refine ⟨ws.bestIdx prio, getElem?_toList hi, ?_, ?_⟩
    · rw [bestIdx_eq prio h]
      exact firstLeast_bestIdx prio (by rwa [length_toList])
    · rw [toList_compact h hi]
      exact swapRemove_perm_eraseIdx (by rwa [length_toList])

end WaiterArray

/-! ### The primitives over their arrays

Each wake-up returns the primitive it leaves, with the task that it passes to `unblock`. -/

namespace Raw

/-- `Mutex`; rtos/mutex.h:70–74. -/
structure Mutex where
  owner : TaskHandle := invalidTask
  waiters : WaiterArray := {}

/-- `Semaphore`; rtos/semaphore.h:63–67. -/
structure Semaphore where
  count : Int := 0
  maxCount : Int := 0x7FFFFFFF
  waiters : WaiterArray := {}

/-- `Queue<T, N>`; rtos/queue.h:103–111. -/
structure Queue (α : Type) extends RingBuf α where
  cap : Nat
  cap_pos : 0 < cap
  recvWaiters : WaiterArray := {}
  sendWaiters : WaiterArray := {}

/-- `Mutex::unlock`; rtos/mutex.h:31–47. -/
def Mutex.unlock (x : Mutex) (sched : Scheduler) : Mutex × Option TaskHandle :=
  if h : 0 < x.waiters.waitCount then
    let i := x.waiters.bestIdx sched.getPriority
    let owner := x.waiters.entries i
    ({ owner := owner, waiters := x.waiters.compact i h }, some owner)
  else ({ x with owner := invalidTask }, none)

/-- `Semaphore::give`; rtos/semaphore.h:35–50. -/
def Semaphore.give (x : Semaphore) (sched : Scheduler) : Semaphore × Option TaskHandle :=
  if h : 0 < x.waiters.waitCount then
    let i := x.waiters.bestIdx sched.getPriority
    let w := x.waiters.entries i
    ({ x with waiters := x.waiters.compact i h }, some w)
  else if x.count < x.maxCount then ({ x with count := x.count + 1 }, none)
  else (x, none)

namespace Queue

variable {α : Type}

/-- `Queue::wake_receiver`; rtos/queue.h:76–87. -/
def wakeReceiver (x : Queue α) (sched : Scheduler) : Queue α × Option TaskHandle :=
  if h : x.recvWaiters.waitCount = 0 then (x, none)
  else
    let i := x.recvWaiters.bestIdx sched.getPriority
    let w := x.recvWaiters.entries i
    ({ x with recvWaiters := x.recvWaiters.compact i (Nat.pos_of_ne_zero h) }, some w)

/-- `Queue::wake_sender`; rtos/queue.h:89–100. -/
def wakeSender (x : Queue α) (sched : Scheduler) : Queue α × Option TaskHandle :=
  if h : x.sendWaiters.waitCount = 0 then (x, none)
  else
    let i := x.sendWaiters.bestIdx sched.getPriority
    let w := x.sendWaiters.entries i
    ({ x with sendWaiters := x.sendWaiters.compact i (Nat.pos_of_ne_zero h) }, some w)

end Queue

/-- From the same array all four wake-ups take the same waiter, the first with the least priority
value, and leave the same array of the others. -/
theorem wakeUps_takeFirstLeast (α : Type) (sched : Scheduler) (ws : WaiterArray)
    (h : 0 < ws.waitCount) :
    ∃ w rest, ws.TakesFirstLeast sched.getPriority w rest ∧
      (∀ x : Mutex, x.waiters = ws →
        x.unlock sched = ({ owner := w, waiters := rest }, some w)) ∧
      (∀ x : Semaphore, x.waiters = ws → x.give sched = ({ x with waiters := rest }, some w)) ∧
      (∀ x : Queue α, x.recvWaiters = ws →
        x.wakeReceiver sched = ({ x with recvWaiters := rest }, some w)) ∧
      (∀ x : Queue α, x.sendWaiters = ws →
        x.wakeSender sched = ({ x with sendWaiters := rest }, some w)) := by
  have hne : ¬ ws.waitCount = 0 := Nat.ne_of_gt h
  refine ⟨_, _, WaiterArray.takesFirstLeast_compact sched.getPriority h, ?_, ?_, ?_, ?_⟩
  · rintro x rfl
    exact dif_pos h
  · rintro x rfl
    exact dif_pos h
  · rintro x rfl
    exact dif_neg hne
  · rintro x rfl
    exact dif_neg hne

/-- Three waiters, of which the last two have the best priority. -/
def tiedWaiters : WaiterArray := { entries := id, waitCount := 3, waitCount_le := by decide }

def tiedSched : Scheduler :=
  { Scheduler.init with taskCount := 4, tasks := fun t ↦ { priority := if t = 0 then 5 else 2 } }

/-- The second of the three is woken, and the other two stay. -/
theorem wakeUps_takeFirstLeast_of_tie :
    ∃ rest : WaiterArray, rest.toList.Perm [0, 2] ∧
      Mutex.unlock { owner := 3, waiters := tiedWaiters } tiedSched =
        ({ owner := 1, waiters := rest }, some 1) := by
  obtain ⟨w, rest, htakes, hunlock, -⟩ :=
    wakeUps_takeFirstLeast Unit tiedSched tiedWaiters (by decide)
  obtain ⟨r, hw, ⟨x, hx, hleast⟩, hrest⟩ := htakes.chosen
  have h1 := hleast 1 1 rfl
  obtain rfl : r = 1 := by
    match r with
    | 0 =>
      obtain rfl : 0 = x := Option.some.inj hx
      exact absurd h1.1 (by decide)
    | 1 => rfl
    | 2 =>
      obtain rfl : 2 = x := Option.some.inj hx
      exact absurd (h1.2 (by decide)) (by decide)
  obtain rfl : 1 = w := Option.some.inj hw
  exact ⟨rest, hrest, hunlock _ rfl⟩

/-! ### The machine

The machine keeps lists for the arrays. Each of its wake-ups changes the primitive as the one over
the array does, and then calls `unblock`. -/

section Machine

variable {α : Type}

/-- The mutex of the machine. -/
def Mutex.view (x : Mutex) : Rtos.Mutex := { owner := x.owner, waiters := x.waiters.toList }

/-- The semaphore of the machine. -/
def Semaphore.view (x : Semaphore) : Rtos.Semaphore :=
  { count := x.count, maxCount := x.maxCount, waiters := x.waiters.toList }

/-- The queue of the machine. -/
def Queue.view (x : Queue α) : Rtos.Queue α :=
  { x with recvWaiters := x.recvWaiters.toList, sendWaiters := x.sendWaiters.toList }

variable {s : Sys α}

/-- `Mutex::unlock` over the array is `unlock` of the machine. -/
theorem unlock_view {m : Nat} {x : Mutex} (h : s.mutex m = x.view) :
    s.unlock m =
      let r := x.unlock s.sched
      let s := (s.emit (.unlocked m s.me)).setMutex m r.1.view
      r.2.elim s (s.unblockFor (.mutex m)) := by
  by_cases hw : 0 < x.waiters.waitCount
  · obtain ⟨hget, hrest⟩ := WaiterArray.take_toList s.sched.getPriority hw
    simp [Sys.unlock, Mutex.unlock, Mutex.view, Sys.emit, h, hw, hget, hrest]
  · simp [Sys.unlock, Mutex.unlock, Mutex.view, Sys.emit, h, hw]

/-- `Semaphore::give` over the array is `give` of the machine. -/
theorem give_view {i : Nat} {x : Semaphore} (h : s.sem i = x.view) :
    s.give i =
      let r := x.give s.sched
      let s := (s.emit (.gave i x.waiters.waitCount x.count)).setSem i r.1.view
      r.2.elim s fun w ↦ (s.emit (.handedOff i w)).unblockFor (.sem i) w := by
  by_cases hw : 0 < x.waiters.waitCount
  · obtain ⟨hget, hrest⟩ := WaiterArray.take_toList s.sched.getPriority hw
    simp [Sys.give, Semaphore.give, Semaphore.view, Sys.emit, h, hw, hget, hrest]
  · by_cases hc : x.count < x.maxCount
    · simp [Sys.give, Semaphore.give, Semaphore.view, Sys.emit, h, hw, hc]
    · simp [Sys.give, Semaphore.give, Semaphore.view, Sys.emit, Sys.setSem, h, hw, hc]

private theorem setQueue_eq_self {q : Nat} {v : Rtos.Queue α} (h : s.queue q = v) :
    s.setQueue q v = s := by
  rw [Sys.setQueue, ← h, Function.update_eq_self]

/-- `Queue::wake_receiver` over the array is that of the machine. -/
theorem wakeReceiver_view {q : Nat} {x : Queue α} (h : s.queue q = x.view) :
    s.wakeReceiver q =
      let r := x.wakeReceiver s.sched
      let s := s.setQueue q r.1.view
      r.2.elim s (s.unblockFor (.recvFrom q)) := by
  by_cases hw : x.recvWaiters.waitCount = 0
  · simp only [Queue.wakeReceiver, dif_pos hw, Option.elim_none, setQueue_eq_self h]
    simp [Sys.wakeReceiver, Queue.view, h, hw]
  · obtain ⟨hget, hrest⟩ :=
      WaiterArray.take_toList s.sched.getPriority (Nat.pos_of_ne_zero hw)
    simp [Sys.wakeReceiver, Queue.wakeReceiver, Queue.view, h, hw, hget, hrest]

/-- `Queue::wake_sender` over the array is that of the machine. -/
theorem wakeSender_view {q : Nat} {x : Queue α} (h : s.queue q = x.view) :
    s.wakeSender q =
      let r := x.wakeSender s.sched
      let s := s.setQueue q r.1.view
      r.2.elim s (s.unblockFor (.sendTo q)) := by
  by_cases hw : x.sendWaiters.waitCount = 0
  · simp only [Queue.wakeSender, dif_pos hw, Option.elim_none, setQueue_eq_self h]
    simp [Sys.wakeSender, Queue.view, h, hw]
  · obtain ⟨hget, hrest⟩ :=
      WaiterArray.take_toList s.sched.getPriority (Nat.pos_of_ne_zero hw)
    simp [Sys.wakeSender, Queue.wakeSender, Queue.view, h, hw, hget, hrest]

end Machine

/-! ### Runs -/

section Runs

variable {α : Type} {D : Dispatcher} {s s' : Sys α} {a : Act α}

/-- The waiter lists of the machine are arrays with a count of at most `MAX_TASKS`. -/
def HasArrays (s : Sys α) : Prop := ∀ p, ∃ ws : WaiterArray, ws.toList = s.waitList p

private theorem HasArrays.congr (h : HasArrays s) (hl : ∀ p, s'.waitList p = s.waitList p) :
    HasArrays s' := by
  intro p
  rw [hl p]
  exact h p

private theorem HasArrays.step (h : HasArrays s) (hs : SchedInv s) (he : Effect D s a s') :
    HasArrays s' := by
  cases he with
  | quiet k ht hk hss hp hlog hl => exact h.congr hl
  | block p k hobj ht hk hss hp hlog hl =>
    intro p'
    obtain ⟨ws, hws⟩ := h p
    rw [hl p']
    split
    · exact ⟨ws.register s.me, by rw [WaiterArray.toList_register, hws]⟩
    · exact h p'
  | wake p w i k hobj ht hk hss hp hi hw hlog hl =>
    intro p'
    obtain ⟨ws, hws⟩ := h p
    rw [hl p']
    split
    · next hp' =>
      have hlt : i < ws.waitCount := by
        rw [← ws.length_toList, hws]
        exact (List.getElem?_eq_some_iff.mp (hi hp'.2)).1
      exact ⟨ws.compact i (by omega), by rw [WaiterArray.toList_compact _ hlt, hws]⟩
    · exact h p'
  | api op ha ho hp hi hu he =>
    rw [he]
    exact h.congr (api_frame hs ho hu).2.1
  | dispatch ha hp sched hd he =>
    rw [he]
    exact h.congr fun p ↦ by cases p <;> rfl

/-- However the tasks are dispatched, every primitive of the machine is one over its arrays. -/
theorem exists_view [Inhabited α] (h : Reach IsInit TasksOnly (Step D) s) :
    (∀ m, ∃ x : Mutex, s.mutex m = x.view) ∧ (∀ i, ∃ x : Semaphore, s.sem i = x.view) ∧
      ∀ q, ∃ x : Queue α, s.queue q = x.view := by
  have hinit : ∀ s : Sys α, IsInit s → SchedInv s ∧ HasArrays s := by
    rintro s ⟨cfg, rfl⟩
    exact ⟨.init cfg, fun p ↦ ⟨{}, by cases p <;> rfl⟩⟩
  have hstep : ∀ (s : Sys α) a s', SchedInv s ∧ HasArrays s → TasksOnly s a → Step D s a s' →
      SchedInv s' ∧ HasArrays s' := by
    rintro s a s' ⟨hs, ha⟩ hg hst
    have he := hst.effect hs.outside hg
    exact ⟨hs.step he, ha.step hs he⟩
  have ha := (h.invariant hinit hstep).2
  refine ⟨fun m ↦ ?_, fun i ↦ ?_, fun q ↦ ?_⟩
  · obtain ⟨ws, hws⟩ := ha (.mutex m)
    exact ⟨{ owner := (s.mutex m).owner, waiters := ws }, by rw [Mutex.view, hws]; rfl⟩
  · obtain ⟨ws, hws⟩ := ha (.sem i)
    exact ⟨{ s.sem i with waiters := ws }, by rw [Semaphore.view, hws]; rfl⟩
  · obtain ⟨recv, hrecv⟩ := ha (.recvFrom q)
    obtain ⟨send, hsend⟩ := ha (.sendTo q)
    exact ⟨{ s.queue q with recvWaiters := recv, sendWaiters := send }, by
      rw [Queue.view, hrecv, hsend]
      rfl⟩

end Runs

end Raw

end McuSimulator.Rtos
