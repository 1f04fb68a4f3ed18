import McuSimulator.Rtos.Frame

/-!
# What a step can do to waiting tasks

`Released` reads from the log whether a task has been sent an `unblock` since it blocked,
and `Owed` says that it still waits for one. Every step of the machine is of one of five
kinds (`Effect`): it leaves the waiter arrays alone, it registers and blocks the executing
task, it unblocks one task, it is a scheduler call, or it is a dispatch. The invariants of
waiting are proved from the kinds, not from the operations.
-/

namespace McuSimulator.Rtos

open McuSimulator.Base

variable {α : Type}

/-! ### The log -/

/-- An event that neither blocks nor unblocks a task. -/
def Event.Quiet : Event α → Prop
  | .blocked _ _ | .unblock _ _ => False
  | _ => True

/-- Since it last blocked, the task has been sent an `unblock` by the primitive. The log is
newest first. -/
def Released (p : Prim) (t : TaskHandle) : List (Event α) → Prop
  | [] => False
  | .unblock p' t' :: es => (p' = p ∧ t' = t) ∨ Released p t es
  | .blocked _ t' :: es => t' ≠ t ∧ Released p t es
  | _ :: es => Released p t es

/-- The log grew by quiet events only. -/
def QuietExt (l l' : List (Event α)) : Prop := ∃ es, (∀ e ∈ es, Event.Quiet e) ∧ l' = es ++ l

/-- No events at all. -/
theorem QuietExt.refl (l : List (Event α)) : QuietExt l l := ⟨[], by simp, rfl⟩

private theorem QuietExt.cons {l l' : List (Event α)} {e : Event α} (he : e.Quiet)
    (h : QuietExt l l') : QuietExt l (e :: l') := by
  obtain ⟨es, hes, rfl⟩ := h
  refine ⟨e :: es, ?_, rfl⟩
  intro x hx
  rcases List.mem_cons.mp hx with rfl | hx
  · exact he
  · exact hes x hx

private theorem released_cons_quiet {p : Prim} {t : TaskHandle} {e : Event α} {l : List (Event α)}
    (he : e.Quiet) : Released p t (e :: l) ↔ Released p t l := by
  cases e <;> first | exact he.elim | exact Iff.rfl

/-- Quiet events release nobody. -/
theorem QuietExt.released {p : Prim} {t : TaskHandle} {l l' : List (Event α)}
    (h : QuietExt l l') : Released p t l' ↔ Released p t l := by
  obtain ⟨es, hes, rfl⟩ := h
  induction es with
  | nil => exact Iff.rfl
  | cons e es ih =>
    rw [List.cons_append, released_cons_quiet (hes e List.mem_cons_self)]
    exact ih fun x hx ↦ hes x (List.mem_cons_of_mem _ hx)

/-! ### Waiting -/

/-- The primitives that keep their waiters in a plain array of handles. -/
def Prim.isList : Prim → Bool
  | .events _ => false
  | _ => true

namespace Sys

/-- The waiter arrays kept as lists. -/
def waitList (s : Sys α) : Prim → List TaskHandle
  | .mutex m => (s.mutex m).waiters
  | .sem i => (s.sem i).waiters
  | .sendTo q => (s.queue q).sendWaiters
  | .recvFrom q => (s.queue q).recvWaiters
  | .events _ => []

/-- The state of a task, as the table has it. -/
def state (s : Sys α) (t : TaskHandle) : TaskState := (s.sched.tasks t).state

/-- The primitive a context waits at inside `block_current`. -/
def waitsOn (s : Sys α) (t : TaskHandle) : Option Prim := (s.kont t).waitsOn

/-- The task waits at a primitive that has not unblocked it since. -/
def Owed (s : Sys α) (p : Prim) (t : TaskHandle) : Prop :=
  s.waitsOn t = some p ∧ ¬ Released p t s.log

end Sys

/-! ### Kinds of step -/

/-- The calls that belong to the scheduler itself. -/
def Op.IsSched : Op α → Prop
  | .xTaskCreate _ | .vTaskStartScheduler | .vTaskDelay _ | .vTaskSuspend _ | .vTaskResume _
  | .vTaskDelete _ | .tick _ | .taskReturn => True
  | _ => False

instance (op : Op α) : Decidable op.IsSched := by
  induction op using Op.casesOn <;> first | exact .isTrue trivial | exact .isFalse id

/-- A task executed up to continuation `k`. -/
structure ByTask (s s' : Sys α) (k : Kont α) : Prop where
  phase : s.phase = .code
  task : s.me ≠ invalidTask
  kont : s'.kont = Function.update s.kont s.me k

/-- If the primitive is an event group, the task is that of the satisfied entry at which its
`check_waiters` stands. -/
def Sys.Delivers (s : Sys α) (a : Act α) (p : Prim) (w : TaskHandle) : Prop :=
  ∀ e, p = .events e → ∃ i, a = .resume ∧ s.kont s.me = .checkTest e i ∧
    i < (s.events e).waitCount ∧ (s.events e).satisfiedAt i = true ∧
    ((s.events e).waiters i).task = w

private theorem Sys.Delivers.of_isList {s : Sys α} {a : Act α} {p : Prim} (w : TaskHandle)
    (h : p.isList = true) : s.Delivers a p w := by
  rintro e rfl
  cases h

/-- What one step does to the scheduler, the executing context, the waiter arrays and the
part of the log that concerns waiting. -/
inductive Effect (D : Dispatcher) (s : Sys α) (a : Act α) (s' : Sys α) : Prop
  | quiet (k : Kont α) (h : ByTask s s' k) (hk : k.waitsOn = none) (hs : s'.sched = s.sched)
      (hp : s'.phase = .code) (hlog : QuietExt s.log s'.log)
      (hl : ∀ p, s'.waitList p = s.waitList p)
  | block (p : Prim) (k : Kont α) (ho : a.obj s = some p.obj) (h : ByTask s s' k)
      (hk : k.waitsOn = some p) (hs : s'.sched = s.sched.setState s.me .blocked)
      (hp : s'.phase = .scheduleFrom) (hlog : s'.log = .blocked p s.me :: s.log)
      (hl : ∀ p', s'.waitList p' =
        if p' = p ∧ p.isList then register (s.waitList p) s.me else s.waitList p')
  | wake (p : Prim) (w : TaskHandle) (i : Nat) (k : Kont α) (ho : a.obj s = some p.obj)
      (h : ByTask s s' k) (hk : k.waitsOn = none) (hs : s'.sched = (s.sched.unblock w).1)
      (hp : s'.phase = if (s.sched.unblock w).2 then .scheduleFrom else .code)
      (hi : p.isList → (s.waitList p)[i]? = some w)
      (hw : s.Delivers a p w)
      (hlog : ∃ l, QuietExt s.log l ∧ (∀ n, p = .sem n → l.head? = some (.handedOff n w)) ∧
        s'.log = .unblock p w :: l)
      (hl : ∀ p', s'.waitList p' =
        if p' = p ∧ p.isList then swapRemove (s.waitList p) i else s.waitList p')
  | api (op : Op α) (ha : a = .call op) (ho : op.IsSched) (hp : s.phase = .code)
      (hi : s.Issues op) (hu : s.kont s.me = .user) (he : s' = s.call op)
  | dispatch (ha : a = .dispatch) (hp : s.phase ≠ .code) (sched : Scheduler)
      (hd : D.dispatch s.phase s.sched sched)
      (he : s' = { s with sched := sched, phase := .code })

/-! ### Changes that keep the waiter arrays -/

/-- `s'` differs from `s` in the executing context, quiet log entries and data of
primitives other than their waiter arrays. -/
structure Calm (s s' : Sys α) (k : Kont α) : Prop where
  kont : s'.kont = Function.update s.kont s.me k
  sched : s'.sched = s.sched
  phase : s'.phase = s.phase
  log : QuietExt s.log s'.log
  lists : ∀ p, s'.waitList p = s.waitList p

namespace Calm

variable {s s' : Sys α} {k : Kont α}

/-- A context that has not moved yet. -/
theorem refl (h : s.kont s.me = k) : Calm s s k where
  kont := by rw [← h, Function.update_eq_self]
  sched := rfl
  phase := rfl
  log := .refl _
  lists _ := rfl

private theorem me (h : Calm s s' k) : s'.me = s.me := by
  unfold Sys.me
  rw [h.sched]

/-- A new place in the code. -/
theorem setKont (h : Calm s s' k) (k' : Kont α) : Calm s (s'.setKont k') k' where
  kont := by
    change Function.update s'.kont s'.me k' = _
    rw [h.kont, h.me, Function.update_idem]
  sched := h.sched
  phase := h.phase
  log := h.log
  lists := h.lists

/-- A quiet event. -/
theorem emit (h : Calm s s' k) {e : Event α} (he : e.Quiet) : Calm s (s'.emit e) k where
  kont := h.kont
  sched := h.sched
  phase := h.phase
  log := h.log.cons he
  lists := h.lists

private theorem setMutex (h : Calm s s' k) (m : Nat) (v : Mutex)
    (hv : v.waiters = (s'.mutex m).waiters) : Calm s (s'.setMutex m v) k where
  kont := h.kont
  sched := h.sched
  phase := h.phase
  log := h.log
  lists p := by
    rw [← h.lists p]
    cases p with
    | mutex m' =>
      by_cases hm : m' = m
      · rw [hm]
        simp [Sys.waitList, Sys.setMutex, hv]
      · simp [Sys.waitList, Sys.setMutex, hm]
    | _ => rfl

private theorem setSem (h : Calm s s' k) (i : Nat) (v : Semaphore)
    (hv : v.waiters = (s'.sem i).waiters) : Calm s (s'.setSem i v) k where
  kont := h.kont
  sched := h.sched
  phase := h.phase
  log := h.log
  lists p := by
    rw [← h.lists p]
    cases p with
    | sem i' =>
      by_cases hi : i' = i
      · rw [hi]
        simp [Sys.waitList, Sys.setSem, hv]
      · simp [Sys.waitList, Sys.setSem, hi]
    | _ => rfl

private theorem setQueue (h : Calm s s' k) (q : Nat) (v : Queue α)
    (hr : v.recvWaiters = (s'.queue q).recvWaiters)
    (hs : v.sendWaiters = (s'.queue q).sendWaiters) : Calm s (s'.setQueue q v) k where
  kont := h.kont
  sched := h.sched
  phase := h.phase
  log := h.log
  lists p := by
    rw [← h.lists p]
    cases p with
    | sendTo q' =>
      by_cases hq : q' = q
      · rw [hq]
        simp [Sys.waitList, Sys.setQueue, hs]
      · simp [Sys.waitList, Sys.setQueue, hq]
    | recvFrom q' =>
      by_cases hq : q' = q
      · rw [hq]
        simp [Sys.waitList, Sys.setQueue, hr]
      · simp [Sys.waitList, Sys.setQueue, hq]
    | _ => rfl

/-- A new state of an event group. -/
theorem setEvents (h : Calm s s' k) (e : Nat) (v : EventGroup) :
    Calm s (s'.setEvents e v) k where
  kont := h.kont
  sched := h.sched
  phase := h.phase
  log := h.log
  lists p := by
    rw [← h.lists p]
    cases p <;> rfl

end Calm

/-! ### Building effects -/

section Build

variable {D : Dispatcher} {s u : Sys α} {a : Act α} {p : Prim} {k : Kont α}

/-- A calm change of the executing task is a quiet step. -/
theorem Calm.effect (h : Calm s u k) (hp : s.phase = .code) (hme : s.me ≠ invalidTask)
    (hk : k.waitsOn = none) : Effect D s a u :=
  .quiet k ⟨hp, hme, h.kont⟩ hk h.sched (h.phase.trans hp) h.log h.lists

/-- `block_current` of a task, field by field. -/
theorem blockCurrent_eq (hme : u.me ≠ invalidTask) (p : Prim) (k : Kont α) :
    u.blockCurrent p k =
      { u with
        kont := Function.update u.kont u.me k
        log := .blocked p u.me :: u.log
        sched := u.sched.setState u.me .blocked
        phase := .scheduleFrom } := by
  have hne : (u.setKont k).me ≠ invalidTask := hme
  rw [Sys.blockCurrent, if_neg hne]
  rfl

private theorem waitList_blockCurrent (hme : u.me ≠ invalidTask) (p' : Prim) :
    (u.blockCurrent p k).waitList p' = u.waitList p' := by
  rw [blockCurrent_eq hme]
  cases p' <;> rfl

/-- Registering at a primitive and blocking. The array is written in `u`, which is `s`
otherwise. -/
theorem Effect.of_block (ho : a.obj s = some p.obj) (hk : k.waitsOn = some p)
    (hp : s.phase = .code) (hme : s.me ≠ invalidTask) (h1 : u.kont = s.kont)
    (h2 : u.sched = s.sched) (h3 : u.log = s.log) (hl : ∀ p', u.waitList p' =
      if p' = p ∧ p.isList then register (s.waitList p) s.me else s.waitList p') :
    Effect D s a (u.blockCurrent p k) := by
  have hm : u.me = s.me := congrArg Scheduler.current h2
  have hlist : ∀ p', (u.blockCurrent p k).waitList p' = u.waitList p' :=
    waitList_blockCurrent (hm ▸ hme)
  refine .block p k ho ⟨hp, hme, ?_⟩ hk ?_ ?_ ?_ fun p' ↦ ?_
  · rw [blockCurrent_eq (hm ▸ hme), hm, h1]
  · rw [blockCurrent_eq (hm ▸ hme), hm, h2]
  · rw [blockCurrent_eq (hm ▸ hme)]
  · rw [blockCurrent_eq (hm ▸ hme), hm, h3]
  · rw [hlist, hl]

/-- Unregistering the waiter at an index of a list primitive and unblocking it. The array
is written in `u'`; `u` is a calm change. -/
theorem Calm.wake {u' : Sys α} {i : Nat} (h : Calm s u k) (ho : a.obj s = some p.obj)
    (hph : s.phase = .code)
    (hme : s.me ≠ invalidTask) (hk : k.waitsOn = none) (hpl : p.isList = true)
    (hi : i < (s.waitList p).length) (h1 : u'.kont = u.kont) (h2 : u'.sched = u.sched)
    (h3 : u'.phase = u.phase) (h4 : u'.log = u.log)
    (hg : ∀ n, p = .sem n →
      u.log.head? = some (.handedOff n ((s.waitList p).getD i invalidTask)))
    (hl : ∀ p', u'.waitList p' = if p' = p then swapRemove (u.waitList p) i else u.waitList p') :
    Effect D s a (u'.unblockFor p ((u.waitList p).getD i invalidTask)) := by
  rw [h.lists]
  generalize hw : (s.waitList p).getD i invalidTask = w at hg ⊢
  have hwi : (s.waitList p)[i]? = some w := by
    rw [← hw, List.getD_eq_getElem?_getD, List.getElem?_eq_getElem hi, Option.getD_some]
  have hlist : ∀ p', (u'.unblockFor p w).waitList p' = u'.waitList p' := by
    intro p'
    cases p' <;> rfl
  refine .wake p w i k ho ⟨hph, hme, h1.trans h.kont⟩ hk ?_ ?_ (fun _ ↦ hwi)
    (.of_isList w hpl) ⟨u.log, h.log, hg, ?_⟩ fun p' ↦ ?_
  · simp only [Sys.unblockFor, Sys.continueWith, h2, h.sched]
  · simp only [Sys.unblockFor, Sys.continueWith, Sys.emit, h2, h3, h.sched, h.phase, hph]
  · simp only [Sys.unblockFor, Sys.continueWith, Sys.emit, h4]
  · simp only [hlist, hl, hpl, and_true, h.lists]

end Build

/-! ### Effects of the calls -/

section Calls

variable {D : Dispatcher} {s : Sys α} {a : Act α}

/-- A task is about to issue a call. -/
structure AtUser (s : Sys α) : Prop where
  phase : s.phase = .code
  task : s.me ≠ invalidTask
  kont : s.kont s.me = .user

/-- A calm change at task code. -/
theorem AtUser.calm (h : AtUser s) {s' : Sys α} (hc : Calm s s' .user) : Effect D s a s' :=
  hc.effect h.phase h.task rfl

private theorem lock_effect (h : AtUser s) (m : Nat) : Effect D s (.call (.lock m)) (s.lock m) := by
  unfold Sys.lock
  split
  · exact h.calm (Calm.emit (Calm.setMutex (.refl h.kont) m _ (by rfl)) (by trivial))
  · refine Effect.of_block rfl rfl h.phase h.task rfl rfl rfl fun p' ↦ ?_
    cases p' with
    | mutex m' =>
      by_cases hm : m' = m
      · simp [Sys.waitList, Sys.setMutex, Prim.isList, hm]
      · simp [Sys.waitList, Sys.setMutex, hm]
    | _ => rfl

private theorem unlock_effect (h : AtUser s) (m : Nat) :
    Effect D s (.call (.unlock m)) (s.unlock m) := by
  unfold Sys.unlock
  have hc : Calm s (s.emit (.unlocked m s.me)) .user := (Calm.refl h.kont).emit trivial
  dsimp only
  split
  · next hl =>
    refine hc.wake rfl h.phase h.task rfl (p := .mutex m) rfl (bestIdx_lt _ _ hl) rfl rfl rfl rfl
      (by simp) fun p' ↦ ?_
    cases p' with
    | mutex m' =>
      by_cases hm : m' = m
      · simp [Sys.waitList, Sys.setMutex, hm]
      · simp [Sys.waitList, Sys.setMutex, hm]
    | _ => rfl
  · exact h.calm (hc.setMutex m _ rfl)

private theorem tryLock_effect (h : AtUser s) (m : Nat) :
    Effect D s (.call (.tryLock m)) (s.tryLock m) := by
  unfold Sys.tryLock
  split
  · exact h.calm (.refl h.kont)
  · exact h.calm (Calm.emit (Calm.setMutex (.refl h.kont) m _ (by rfl)) (by trivial))

private theorem take_effect (h : AtUser s) (i : Nat) : Effect D s (.call (.take i)) (s.take i) := by
  unfold Sys.take
  split
  · exact h.calm (Calm.emit (Calm.setSem (.refl h.kont) i _ (by rfl)) (by trivial))
  · refine Effect.of_block rfl rfl h.phase h.task rfl rfl rfl fun p' ↦ ?_
    cases p' with
    | sem i' =>
      by_cases hi : i' = i
      · simp [Sys.waitList, Sys.setSem, Prim.isList, hi]
      · simp [Sys.waitList, Sys.setSem, hi]
    | _ => rfl

private theorem give_effect (h : AtUser s) (i : Nat) : Effect D s (.call (.give i)) (s.give i) := by
  unfold Sys.give
  have hc := (Calm.refl h.kont).emit (e := .gave i (s.sem i).waiters.length (s.sem i).count) trivial
  dsimp only
  generalize Event.gave i (s.sem i).waiters.length (s.sem i).count = x at hc ⊢
  split
  · next hl =>
    have hc' := fun w ↦ hc.emit (e := .handedOff i w) trivial
    refine Calm.wake (u := (s.emit x).emit (.handedOff i _)) (hc' _) rfl h.phase h.task rfl
      (p := .sem i) rfl (bestIdx_lt _ _ hl) rfl rfl rfl rfl ?_ fun p' ↦ ?_
    · intro n hn
      rw [← Prim.sem.inj hn]
      rfl
    cases p' with
    | sem i' =>
      by_cases hi : i' = i
      · simp [Sys.waitList, Sys.setSem, Sys.emit, hi]
      · simp [Sys.waitList, Sys.setSem, Sys.emit, hi]
    | _ => rfl
  · split
    · exact h.calm (hc.setSem i _ rfl)
    · exact h.calm hc

private theorem tryTake_effect (h : AtUser s) (i : Nat) :
    Effect D s (.call (.tryTake i)) (s.tryTake i) := by
  unfold Sys.tryTake
  split
  · exact h.calm (.refl h.kont)
  · exact h.calm (Calm.emit (Calm.setSem (.refl h.kont) i _ (by rfl)) (by trivial))

end Calls

/-! ### Effects of the queue -/

section Queue

variable {D : Dispatcher} {s u : Sys α} {a : Act α}

/-- Waking a receiver after a calm change. -/
theorem wakeReceiver_effect (h : Calm s u .user) (hp : s.phase = .code)
    (hme : s.me ≠ invalidTask) (q : Nat) (ho : a.obj s = some (.queue q)) :
    Effect D s a (u.wakeReceiver q) := by
  unfold Sys.wakeReceiver
  have hq : (u.queue q).recvWaiters = s.waitList (.recvFrom q) := h.lists (.recvFrom q)
  dsimp only
  split
  · exact h.effect hp hme rfl
  · next hl =>
    rw [hq] at hl
    refine h.wake ho hp hme rfl (p := .recvFrom q) rfl ?_ rfl rfl rfl rfl (by simp) fun p' ↦ ?_
    · rw [hq]
      exact bestIdx_lt _ _ (Nat.pos_of_ne_zero hl)
    cases p' with
    | recvFrom q' =>
      by_cases hne : q' = q
      · simp [Sys.waitList, Sys.setQueue, hne]
      · simp [Sys.waitList, Sys.setQueue, hne]
    | sendTo q' =>
      by_cases hne : q' = q
      · simp [Sys.waitList, Sys.setQueue, hne]
      · simp [Sys.waitList, Sys.setQueue, hne]
    | _ => rfl

/-- Waking a sender after a calm change. -/
theorem wakeSender_effect (h : Calm s u .user) (hp : s.phase = .code)
    (hme : s.me ≠ invalidTask) (q : Nat) (ho : a.obj s = some (.queue q)) :
    Effect D s a (u.wakeSender q) := by
  unfold Sys.wakeSender
  have hq : (u.queue q).sendWaiters = s.waitList (.sendTo q) := h.lists (.sendTo q)
  dsimp only
  split
  · exact h.effect hp hme rfl
  · next hl =>
    rw [hq] at hl
    refine h.wake ho hp hme rfl (p := .sendTo q) rfl ?_ rfl rfl rfl rfl (by simp) fun p' ↦ ?_
    · rw [hq]
      exact bestIdx_lt _ _ (Nat.pos_of_ne_zero hl)
    cases p' with
    | sendTo q' =>
      by_cases hne : q' = q
      · simp [Sys.waitList, Sys.setQueue, hne]
      · simp [Sys.waitList, Sys.setQueue, hne]
    | recvFrom q' =>
      by_cases hne : q' = q
      · simp [Sys.waitList, Sys.setQueue, hne]
      · simp [Sys.waitList, Sys.setQueue, hne]
    | _ => rfl

private theorem enqueue_effect (h : Calm s u .user) (hp : s.phase = .code)
    (hme : s.me ≠ invalidTask)
    (q : Nat) (ho : a.obj s = some (.queue q)) (item : α) : Effect D s a (u.enqueue q item) :=
  wakeReceiver_effect (Calm.emit (h.setQueue q _ (by rfl) (by rfl)) (by trivial)) hp hme q ho

private theorem dequeue_effect (h : Calm s u .user) (hp : s.phase = .code)
    (hme : s.me ≠ invalidTask)
    (q : Nat) (ho : a.obj s = some (.queue q)) : Effect D s a (u.dequeue q) :=
  wakeSender_effect (Calm.emit (h.setQueue q _ (by rfl) (by rfl)) (by trivial)) hp hme q ho

private theorem trySend_effect (h : AtUser s) (q : Nat) (item : α) :
    Effect D s (.call (.trySend q item)) (s.trySend q item) := by
  unfold Sys.trySend
  split
  · exact h.calm ((Calm.refl h.kont).emit trivial)
  · exact enqueue_effect (.refl h.kont) h.phase h.task q rfl item

private theorem tryReceive_effect (h : AtUser s) (q : Nat) :
    Effect D s (.call (.tryReceive q)) (s.tryReceive q) := by
  unfold Sys.tryReceive
  split
  · exact h.calm ((Calm.refl h.kont).emit trivial)
  · exact dequeue_effect (.refl h.kont) h.phase h.task q rfl

private theorem sendTest_effect (hp : s.phase = .code) (hme : s.me ≠ invalidTask) (q : Nat)
    (item : α) (ho : a.obj s = some (.queue q)) : Effect D s a (s.sendTest q item) := by
  unfold Sys.sendTest
  split
  · refine Effect.of_block ho rfl hp hme rfl rfl rfl fun p' ↦ ?_
    cases p' with
    | sendTo q' =>
      by_cases hq : q' = q
      · simp [Sys.waitList, Sys.setQueue, Prim.isList, hq]
      · simp [Sys.waitList, Sys.setQueue, hq]
    | recvFrom q' =>
      by_cases hq : q' = q
      · simp [Sys.waitList, Sys.setQueue, hq]
      · simp [Sys.waitList, Sys.setQueue, hq]
    | _ => rfl
  · exact enqueue_effect ((Calm.refl rfl).setKont .user) hp hme q ho item

private theorem recvTest_effect (hp : s.phase = .code) (hme : s.me ≠ invalidTask) (q : Nat)
    (ho : a.obj s = some (.queue q)) : Effect D s a (s.recvTest q) := by
  unfold Sys.recvTest
  split
  · refine Effect.of_block ho rfl hp hme rfl rfl rfl fun p' ↦ ?_
    cases p' with
    | recvFrom q' =>
      by_cases hq : q' = q
      · simp [Sys.waitList, Sys.setQueue, Prim.isList, hq]
      · simp [Sys.waitList, Sys.setQueue, hq]
    | sendTo q' =>
      by_cases hq : q' = q
      · simp [Sys.waitList, Sys.setQueue, hq]
      · simp [Sys.waitList, Sys.setQueue, hq]
    | _ => rfl
  · exact dequeue_effect ((Calm.refl rfl).setKont .user) hp hme q ho

end Queue

/-! ### Effects of the event group -/

section Events

variable {D : Dispatcher} {s : Sys α} {a : Act α}

private theorem setBits_effect (h : AtUser s) (e : Nat) (bits : BitVec 32) :
    Effect D s a (s.setBits e bits) :=
  (((Calm.refl h.kont).setEvents e _).setKont _).effect h.phase h.task rfl

private theorem bitsTest_effect (hp : s.phase = .code) (hme : s.me ≠ invalidTask) (e : Nat)
    (bits : BitVec 32) (all clr : Bool) (ho : a.obj s = some (.events e)) :
    Effect D s a (s.bitsTest e bits all clr) := by
  unfold Sys.bitsTest
  split
  · have hc := fun b ↦ ((Calm.refl (s := s) rfl).setKont .user).emit
      (e := .bitsReturned e s.me b) trivial
    dsimp only
    split
    · exact Calm.effect ((hc _).setEvents e _) hp hme rfl
    · exact (hc _).effect hp hme rfl
  · refine Effect.of_block ho rfl hp hme rfl rfl rfl fun p' ↦ ?_
    rw [if_neg (by simp [Prim.isList])]
    cases p' <;> rfl

/-- A loop test of `check_waiters` unblocks the task of its entry; the waiter arrays of the
other primitives are what they were. -/
theorem checkTest_effect (hp : s.phase = .code) (hme : s.me ≠ invalidTask) (e i : Nat)
    (hk : s.kont s.me = .checkTest e i) : Effect D s .resume (s.checkTest e i) := by
  unfold Sys.checkTest
  split
  · next hi =>
    split
    · next hsat =>
      refine .wake (.events e) ((s.events e).waiters i).task 0 (.checkCompact e i)
        (congrArg Kont.obj hk) ⟨hp, hme, rfl⟩ rfl rfl ?_ ?_ ?_ ⟨s.log, .refl _, by simp, rfl⟩
        fun p' ↦ ?_
      · simp only [Sys.unblockFor, Sys.continueWith, Sys.emit, Sys.setKont, hp]
      · simp [Prim.isList]
      · intro e' he
        rw [← Prim.events.inj he]
        exact ⟨i, rfl, hk, hi, hsat, rfl⟩
      · rw [if_neg (by simp [Prim.isList])]
        cases p' <;> rfl
    · exact ((Calm.refl rfl).setKont _).effect hp hme rfl
  · exact ((Calm.refl rfl).setKont _).effect hp hme rfl

end Events

/-! ### The kind of a step -/

/-- Only the scheduler's own calls are issued outside tasks, and nobody but the primitives
calls `unblock`. -/
def TasksOnly (s : Sys α) : Act α → Prop
  | .call (.unblock _) => False
  | .call op => s.me = invalidTask → op.IsSched
  | _ => True

instance (s : Sys α) (a : Act α) : Decidable (TasksOnly s a) := by
  induction a using Act.casesOn with
  | call op =>
    induction op using Op.casesOn <;> first
      | exact .isFalse id
      | exact inferInstanceAs (Decidable (s.me = invalidTask → _))
  | _ => exact .isTrue trivial

private theorem call_effect {D : Dispatcher} {s : Sys α} (h : AtUser s) (op : Op α)
    (hi : s.Issues op) (hu : ∀ t, op ≠ .unblock t) : Effect D s (.call op) (s.call op) := by
  cases op with
  | unblock t => exact absurd rfl (hu t)
  | lock m => exact lock_effect h m
  | unlock m => exact unlock_effect h m
  | tryLock m => exact tryLock_effect h m
  | take i => exact take_effect h i
  | give i => exact give_effect h i
  | tryTake i => exact tryTake_effect h i
  | send q item => exact ((Calm.refl rfl).setKont _).effect h.phase h.task rfl
  | receive q => exact ((Calm.refl rfl).setKont _).effect h.phase h.task rfl
  | trySend q item => exact trySend_effect h q item
  | tryReceive q => exact tryReceive_effect h q
  | setBits e bits => exact setBits_effect h e bits
  | clearBits e bits => exact h.calm ((Calm.refl h.kont).setEvents e _)
  | waitBits e bits all clr => exact ((Calm.refl rfl).setKont _).effect h.phase h.task rfl
  | checkBits e bits all => exact h.calm (.refl h.kont)
  | _ => exact .api _ rfl (by trivial) h.phase hi h.kont rfl

private theorem resume_effect {D : Dispatcher} {s : Sys α} (hp : s.phase = .code)
    (hme : s.me ≠ invalidTask) (hk : (s.kont s.me).Resumable) :
    Effect D s .resume (s.resume (s.kont s.me)) := by
  cases h : s.kont s.me with
  | user =>
    rw [h] at hk
    exact hk.elim
  | exited =>
    rw [h] at hk
    exact hk.elim
  | delayed => exact ((Calm.refl rfl).setKont _).effect hp hme rfl
  | lockWait m => exact Calm.effect (((Calm.refl rfl).setKont .user).emit (by trivial)) hp hme rfl
  | takeWait i => exact ((Calm.refl rfl).setKont _).effect hp hme rfl
  | sendWait q item => exact ((Calm.refl rfl).setKont _).effect hp hme rfl
  | sendTest q item => exact sendTest_effect hp hme q item (congrArg Kont.obj h)
  | recvWait q => exact ((Calm.refl rfl).setKont _).effect hp hme rfl
  | recvTest q => exact recvTest_effect hp hme q (congrArg Kont.obj h)
  | bitsWait e bits all clr => exact ((Calm.refl rfl).setKont _).effect hp hme rfl
  | bitsTest e bits all clr => exact bitsTest_effect hp hme e bits all clr (congrArg Kont.obj h)
  | checkTest e i => exact checkTest_effect hp hme e i h
  | checkCompact e i =>
    exact Calm.effect (((Calm.refl rfl).setEvents e _).setKont (.checkTest e i)) hp hme rfl

/-- Every step has an effect. Outside the tasks nothing is left inside an API function. -/
theorem Step.effect {D : Dispatcher} {s s' : Sys α} {a : Act α} (h : Step D s a s')
    (hout : s.me = invalidTask → s.kont s.me = .user) (hg : TasksOnly s a) :
    Effect D s a s' := by
  cases h with
  | @call op hp hk hi =>
    have hu : s.kont s.me = .user := hk.eq
    by_cases hm : s.me = invalidTask
    · have ho : op.IsSched := by
        cases op with
        | unblock t => exact hg.elim
        | _ => exact hg hm
      exact .api op rfl ho hp hi hu rfl
    · refine call_effect ⟨hp, hm, hu⟩ op hi ?_
      rintro t rfl
      exact hg
  | resume hp hk =>
    refine resume_effect hp (fun hm ↦ ?_) hk
    rw [hout hm] at hk
    exact hk
  | dispatch hp hd => exact .dispatch rfl hp _ hd rfl

end McuSimulator.Rtos
