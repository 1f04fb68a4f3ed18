import McuSimulator.Base.Ring
import McuSimulator.Base.SwapRemove
import McuSimulator.Rtos.Scheduler

/-!
# Synchronisation primitives: data and pure parts

The fields of `rtos/mutex.h`, `rtos/semaphore.h`, `rtos/queue.h` and `rtos/event_group.h`
and the parts of their operations that do not call the scheduler. The waiter arrays of the
first three, which never underflow, are lists whose length is `wait_count_`; the event
group keeps its array and its 8-bit count apart, because its compaction can decrement a
count that is already zero.
-/

namespace McuSimulator.Rtos

open McuSimulator.Base

/-! ### Waiter arrays -/

/-- `if (wait_count_ < MAX_TASKS) waiters_[wait_count_++] = me`; rtos/mutex.h:25. -/
def register (ws : List TaskHandle) (me : TaskHandle) : List TaskHandle :=
  if ws.length < maxTasks then ws ++ [me] else ws

/-- The scan for the best waiter from index `i` on, with the best index and priority so
far; rtos/mutex.h:36–39. -/
def scanBest (prio : TaskHandle → Nat) : List TaskHandle → Nat → Nat → Nat → Nat
  | [], _, bestIdx, _ => bestIdx
  | w :: ws, i, bestIdx, bestPrio =>
    if prio w < bestPrio then scanBest prio ws (i + 1) i (prio w)
    else scanBest prio ws (i + 1) bestIdx bestPrio

/-- The index of the waiter to wake: the scan starts at the first waiter;
rtos/mutex.h:34–39, rtos/semaphore.h:38–43, rtos/queue.h:78–83, 91–96. -/
def bestIdx (prio : TaskHandle → Nat) : List TaskHandle → Nat
  | [] => 0
  | w :: ws => scanBest prio ws 1 0 (prio w)

private theorem scanBest_lt (prio : TaskHandle → Nat) (ws : List TaskHandle) (i b p : Nat)
    (hb : b < i) : scanBest prio ws i b p < i + ws.length := by
  induction ws generalizing i b p with
  | nil => simpa [scanBest] using hb
  | cons w ws ih =>
    unfold scanBest
    rw [List.length_cons]
    split
    · have := ih (i + 1) i (prio w) (Nat.lt_succ_self i)
      omega
    · have := ih (i + 1) b p (by omega)
      omega

/-- The scan stays inside a nonempty array. -/
theorem bestIdx_lt (prio : TaskHandle → Nat) (ws : List TaskHandle) (h : 0 < ws.length) :
    bestIdx prio ws < ws.length := by
  cases ws with
  | nil => simp at h
  | cons w ws =>
    have hlt := scanBest_lt prio ws 1 0 (prio w) Nat.zero_lt_one
    simp only [bestIdx, List.length_cons]
    omega

/-- The element at `r` has the least value, and is the first one that has it. -/
def FirstLeast (f : TaskHandle → Nat) (l : List TaskHandle) (r : Nat) : Prop :=
  ∃ x, l[r]? = some x ∧ ∀ j y, l[j]? = some y → f x ≤ f y ∧ (j < r → f x < f y)

private theorem firstLeast_singleton (f : TaskHandle → Nat) (w : TaskHandle) :
    FirstLeast f [w] 0 := by
  refine ⟨w, rfl, fun j y hy ↦ ⟨?_, fun hj ↦ absurd hj (Nat.not_lt_zero j)⟩⟩
  have hyw : y = w := List.mem_singleton.mp (List.mem_of_getElem? hy)
  exact Nat.le_of_eq (congrArg f hyw.symm)

/-- The scan goes on from the first least element so far. -/
theorem firstLeast_scanBest (f : TaskHandle → Nat) (ws : List TaskHandle) :
    ∀ (pre : List TaskHandle) (b : Nat) (x : TaskHandle), pre[b]? = some x →
      FirstLeast f pre b → FirstLeast f (pre ++ ws) (scanBest f ws pre.length b (f x)) := by
  induction ws with
  | nil =>
    intro pre b x hx h
    rwa [List.append_nil]
  | cons w ws ih =>
    intro pre b x hx h
    obtain ⟨x', hx', hleast⟩ := h
    obtain rfl : x' = x := Option.some.inj (hx'.symm.trans hx)
    have hb : b < pre.length := (List.getElem?_eq_some_iff.mp hx).1
    have hlen : (pre ++ [w]).length = pre.length + 1 := List.length_append
    have hlast : (pre ++ [w])[pre.length]? = some w := List.getElem?_concat_length
    -- an element of the longer prefix is `w` or an earlier one
    have hcases : ∀ j y, (pre ++ [w])[j]? = some y →
        (pre[j]? = some y ∧ j < pre.length) ∨ (j = pre.length ∧ y = w) := by
      intro j y hy
      rcases Nat.lt_trichotomy j pre.length with hj | rfl | hj
      · exact .inl ⟨by rwa [List.getElem?_append_left hj] at hy, hj⟩
      · exact .inr ⟨rfl, Option.some.inj (hy.symm.trans hlast)⟩
      · rw [List.getElem?_eq_none (by omega)] at hy
        cases hy
    rw [List.append_cons, scanBest, ← hlen]
    split
    case isTrue hlt =>
      refine ih _ _ w hlast ⟨w, hlast, fun j y hy ↦ ?_⟩
      rcases hcases j y hy with ⟨hy, hj⟩ | ⟨rfl, rfl⟩
      · have hle := (hleast j y hy).1
        exact ⟨by omega, fun _ ↦ by omega⟩
      · exact ⟨Nat.le_refl _, fun hj ↦ absurd hj (Nat.lt_irrefl _)⟩
    case isFalse hge =>
      have hx'' : (pre ++ [w])[b]? = some x' := by rwa [List.getElem?_append_left hb]
      refine ih _ _ x' hx'' ⟨x', hx'', fun j y hy ↦ ?_⟩
      rcases hcases j y hy with ⟨hy, -⟩ | ⟨rfl, rfl⟩
      · exact hleast j y hy
      · exact ⟨Nat.le_of_not_lt hge, fun hj ↦ absurd hj (by omega)⟩

/-- The first waiter of the best priority is chosen. -/
theorem firstLeast_bestIdx (f : TaskHandle → Nat) {ws : List TaskHandle} (h : 0 < ws.length) :
    FirstLeast f ws (bestIdx f ws) := by
  cases ws with
  | nil => exact absurd h (Nat.lt_irrefl 0)
  | cons w ws => exact firstLeast_scanBest f ws [w] 0 w rfl (firstLeast_singleton f w)

/-! ### Mutex and semaphore -/

/-- `Mutex`; rtos/mutex.h:70–74. -/
structure Mutex where
  owner : TaskHandle := invalidTask
  waiters : List TaskHandle := []
  deriving DecidableEq, Repr

/-- `Semaphore`; rtos/semaphore.h:62–67. Both counts are `int32_t`; `count_` moves by one
between `0` and `max_count_`, so no operation wraps. -/
structure Semaphore where
  count : Int := 0
  maxCount : Int := 0x7FFFFFFF
  waiters : List TaskHandle := []
  deriving DecidableEq, Repr

/-! ### Queue -/

/-- `Queue<T, N>`: a ring of capacity `N > 0` and two waiter arrays; rtos/queue.h:102–112. -/
structure Queue (α : Type) extends RingBuf α where
  cap : Nat
  cap_pos : 0 < cap
  recvWaiters : List TaskHandle := []
  sendWaiters : List TaskHandle := []

namespace Queue

variable {α : Type}

/-- A freshly constructed queue. -/
def init [Inhabited α] (cap : Nat) (h : 0 < cap) : Queue α :=
  { buf := fun _ ↦ default, head := 0, tail := 0, count := 0, cap := cap, cap_pos := h }

/-- `buf_[tail_] = item; tail_ = (tail_ + 1) % N; ++count_`; rtos/queue.h:30–32, 53–55. -/
def put (q : Queue α) (item : α) : Queue α :=
  { q with
    buf := Function.update q.buf q.tail item
    tail := (q.tail + 1) % q.cap
    count := q.count + 1 }

/-- The item `buf_[head_]` that a receive moves out; rtos/queue.h:43, 63. -/
def front (q : Queue α) : α := q.buf q.head

/-- `head_ = (head_ + 1) % N; --count_`; rtos/queue.h:44–45, 64–65. -/
def drop (q : Queue α) : Queue α :=
  { q with head := (q.head + 1) % q.cap, count := q.count - 1 }

/-- The undelivered items, oldest first. -/
def contents (q : Queue α) : List α := q.toRingBuf.contents q.cap

/-- The ring invariant of a queue. -/
def WF (q : Queue α) : Prop := q.toRingBuf.WF q.cap

end Queue

/-! ### Event group -/

/-- `EventGroup::Waiter`; rtos/event_group.h:58–62. -/
structure Waiter where
  task : TaskHandle := 0
  waitBits : BitVec 32 := 0
  all : Bool := false
  deriving DecidableEq, Repr

/-- `EventGroup`; rtos/event_group.h:80–83. `waitCount` is a byte. -/
structure EventGroup where
  bits : BitVec 32 := 0
  waiters : Nat → Waiter := fun _ ↦ {}
  waitCount : Nat := 0

namespace EventGroup

/-- `satisfied`; rtos/event_group.h:64–67. -/
def satisfied (e : EventGroup) (bits : BitVec 32) (all : Bool) : Bool :=
  if all then e.bits &&& bits == bits else e.bits &&& bits != 0

/-- The condition of the waiter at an index. -/
def satisfiedAt (e : EventGroup) (i : Nat) : Bool :=
  e.satisfied (e.waiters i).waitBits (e.waiters i).all

/-- The registration in `wait_bits`; rtos/event_group.h:40–43. -/
def register (e : EventGroup) (w : Waiter) : EventGroup :=
  if e.waitCount < maxTasks then
    { e with
      waiters := Function.update e.waiters e.waitCount w
      waitCount := e.waitCount + 1 }
  else e

/-- `waiters_[i] = waiters_[--wait_count_]` on an 8-bit count; rtos/event_group.h:73. -/
def compact (e : EventGroup) (i : Nat) : EventGroup :=
  let n := (e.waitCount + 255) % 256
  { e with waiters := Function.update e.waiters i (e.waiters n), waitCount := n }

end EventGroup

end McuSimulator.Rtos
