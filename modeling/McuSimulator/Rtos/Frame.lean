import McuSimulator.Rtos.System

/-!
# What a step leaves alone

The control flow of the contexts (`Op.Enters`, `Kont.Goes`), and the frame of each step: a
step moves the executing context only, and changes a primitive only if the call it issues or
resumes is one on that primitive.
-/

namespace McuSimulator.Rtos

open McuSimulator.Base

variable {α : Type}

/-! ### Control flow -/

/-- The points inside API functions that a call can leave its context at. -/
def Op.Enters : Op α → Kont α → Prop
  | .vTaskDelay _, k => k = .delayed
  | .taskReturn, k => k = .exited
  | .lock m, k => k = .lockWait m
  | .take i, k => k = .takeWait i
  | .send q item, k => k = .sendTest q item
  | .receive q, k => k = .recvTest q
  | .setBits e _, k => k = .checkTest e 0
  | .waitBits e bits all clr, k => k = .bitsTest e bits all clr
  | _, _ => False

/-- The points a context can go on to from a point inside an API function. -/
def Kont.Goes : Kont α → Kont α → Prop
  | .user, k => k = .user
  | .exited, k => k = .exited
  | .delayed, k => k = .user
  | .lockWait _, k => k = .user
  | .takeWait _, k => k = .user
  | .sendWait q item, k => k = .sendTest q item
  | .sendTest q item, k => k = .user ∨ k = .sendWait q item
  | .recvWait q, k => k = .recvTest q
  | .recvTest q, k => k = .user ∨ k = .recvWait q
  | .bitsWait e bits all clr, k => k = .bitsTest e bits all clr
  | .bitsTest e bits all clr, k => k = .user ∨ k = .bitsWait e bits all clr
  | .checkTest e i, k => k = .user ∨ k = .checkTest e (i + 1) ∨ k = .checkCompact e i
  | .checkCompact e i, k => k = .checkTest e i

namespace Sys

variable (s : Sys α)

/-! ### Contexts -/

/-- Only the context that blocks gets a new place. -/
theorem kont_blockCurrent (p : Prim) (k : Kont α) :
    (s.blockCurrent p k).kont = Function.update s.kont s.me k := by
  unfold blockCurrent
  dsimp only
  split <;> rfl

private theorem kont_wakeReceiver (q : Nat) : (s.wakeReceiver q).kont = s.kont := by
  unfold wakeReceiver
  dsimp only
  split <;> rfl

private theorem kont_wakeSender (q : Nat) : (s.wakeSender q).kont = s.kont := by
  unfold wakeSender
  dsimp only
  split <;> rfl

/-- Storing an item moves no context. -/
theorem kont_enqueue (q : Nat) (item : α) : (s.enqueue q item).kont = s.kont :=
  kont_wakeReceiver _ q

/-- Taking an item moves no context. -/
theorem kont_dequeue (q : Nat) : (s.dequeue q).kont = s.kont :=
  kont_wakeSender _ q

/-- A call moves the context that issues it, or leaves it at its own code. -/
theorem kont_call (op : Op α) (hu : s.kont s.me = .user) :
    (∃ k, (k = .user ∨ op.Enters k) ∧ (s.call op).kont = Function.update s.kont s.me k) ∨
      (∃ p, op = .xTaskCreate p ∧
        (s.call op).kont = Function.update s.kont s.sched.taskCount .user) := by
  have hself : s.kont = Function.update s.kont s.me .user := by
    rw [← hu, Function.update_eq_self]
  have hstay : ∀ s' : Sys α, s'.kont = s.kont →
      ∃ k, (k = .user ∨ op.Enters k) ∧ s'.kont = Function.update s.kont s.me k :=
    fun s' h ↦ ⟨.user, .inl rfl, h.trans hself⟩
  cases op with
  | xTaskCreate p =>
    simp only [call, xTaskCreate]
    split
    · exact .inl (hstay _ rfl)
    · exact .inr ⟨p, rfl, rfl⟩
  | vTaskStartScheduler =>
    refine .inl (hstay _ ?_)
    simp only [call, vTaskStartScheduler]
    split <;> rfl
  | vTaskDelay n =>
    simp only [call, vTaskDelay]
    split
    · exact .inl (hstay _ rfl)
    · split
      · exact .inl (hstay _ rfl)
      · exact .inl ⟨.delayed, .inr rfl, rfl⟩
  | vTaskSuspend t =>
    refine .inl (hstay _ ?_)
    simp only [call, vTaskSuspend]
    split <;> rfl
  | vTaskResume t =>
    refine .inl (hstay _ ?_)
    simp only [call, vTaskResume]
    split
    · rfl
    · split <;> rfl
  | vTaskDelete t =>
    refine .inl (hstay _ ?_)
    simp only [call, vTaskDelete]
    split <;> rfl
  | tick ms => exact .inl (hstay _ rfl)
  | unblock t => exact .inl (hstay _ rfl)
  | taskReturn => exact .inl ⟨.exited, .inr rfl, rfl⟩
  | lock m =>
    simp only [call, lock]
    split
    · exact .inl (hstay _ rfl)
    · exact .inl ⟨.lockWait m, .inr rfl, kont_blockCurrent _ _ _⟩
  | unlock m =>
    refine .inl (hstay _ ?_)
    simp only [call, unlock]
    split <;> rfl
  | tryLock m =>
    refine .inl (hstay _ ?_)
    simp only [call, tryLock]
    split <;> rfl
  | take i =>
    simp only [call, take]
    split
    · exact .inl (hstay _ rfl)
    · exact .inl ⟨.takeWait i, .inr rfl, kont_blockCurrent _ _ _⟩
  | give i =>
    refine .inl (hstay _ ?_)
    simp only [call, give]
    split
    · rfl
    · split <;> rfl
  | tryTake i =>
    refine .inl (hstay _ ?_)
    simp only [call, tryTake]
    split <;> rfl
  | send q item => exact .inl ⟨.sendTest q item, .inr rfl, rfl⟩
  | receive q => exact .inl ⟨.recvTest q, .inr rfl, rfl⟩
  | trySend q item =>
    refine .inl (hstay _ ?_)
    simp only [call, trySend]
    split
    · rfl
    · exact kont_enqueue s q item
  | tryReceive q =>
    refine .inl (hstay _ ?_)
    simp only [call, tryReceive]
    split
    · rfl
    · exact kont_dequeue s q
  | setBits e bits => exact .inl ⟨.checkTest e 0, .inr rfl, rfl⟩
  | clearBits e bits => exact .inl (hstay _ rfl)
  | waitBits e bits all clr => exact .inl ⟨.bitsTest e bits all clr, .inr rfl, rfl⟩
  | checkBits e bits all => exact .inl (hstay _ rfl)

/-- Going on moves the executing context along the control flow. -/
theorem kont_resume :
    ∃ k, (s.kont s.me).Goes k ∧
      (s.resume (s.kont s.me)).kont = Function.update s.kont s.me k := by
  have hself : Function.update s.kont s.me (s.kont s.me) = s.kont := Function.update_eq_self _ _
  cases h : s.kont s.me with
  | user =>
    rw [h] at hself
    exact ⟨.user, rfl, hself.symm⟩
  | exited =>
    rw [h] at hself
    exact ⟨.exited, rfl, hself.symm⟩
  | delayed => exact ⟨.user, rfl, rfl⟩
  | lockWait m => exact ⟨.user, rfl, rfl⟩
  | takeWait i => exact ⟨.user, rfl, rfl⟩
  | sendWait q item => exact ⟨.sendTest q item, rfl, rfl⟩
  | sendTest q item =>
    simp only [resume, sendTest]
    split
    · exact ⟨.sendWait q item, .inr rfl, kont_blockCurrent _ _ _⟩
    · exact ⟨.user, .inl rfl, kont_enqueue _ _ _⟩
  | recvWait q => exact ⟨.recvTest q, rfl, rfl⟩
  | recvTest q =>
    simp only [resume, recvTest]
    split
    · exact ⟨.recvWait q, .inr rfl, kont_blockCurrent _ _ _⟩
    · exact ⟨.user, .inl rfl, kont_dequeue _ _⟩
  | bitsWait e bits all clr => exact ⟨.bitsTest e bits all clr, rfl, rfl⟩
  | bitsTest e bits all clr =>
    simp only [resume, bitsTest]
    split
    · refine ⟨.user, .inl rfl, ?_⟩
      split <;> rfl
    · exact ⟨.bitsWait e bits all clr, .inr rfl, kont_blockCurrent _ _ _⟩
  | checkTest e i =>
    simp only [resume, checkTest]
    split
    · split
      · exact ⟨.checkCompact e i, .inr (.inr rfl), rfl⟩
      · exact ⟨.checkTest e (i + 1), .inr (.inl rfl), rfl⟩
    · exact ⟨.user, .inl rfl, rfl⟩
  | checkCompact e i => exact ⟨.checkTest e i, rfl, rfl⟩

end Sys

/-- Where a step can take the executing context. -/
def Act.Leads (s : Sys α) : Act α → Kont α → Prop
  | .call op, k => s.kont s.me = .user ∧ (k = .user ∨ op.Enters k)
  | .resume, k => (s.kont s.me).Goes k
  | .dispatch, k => k = s.kont s.me

/-- Every step moves the executing context only. -/
theorem Step.leads {D : Dispatcher} {s s' : Sys α} {a : Act α} (h : Step D s a s')
    (hf : ∀ t, s.sched.taskCount ≤ t → s.kont t = .user) :
    ∃ k, a.Leads s k ∧ s'.kont = Function.update s.kont s.me k := by
  cases h with
  | call hp hk hi =>
    have hu := hk.eq
    rcases s.kont_call _ hu with ⟨k, hk', he⟩ | ⟨p, -, he⟩
    · exact ⟨k, ⟨hu, hk'⟩, he⟩
    · refine ⟨.user, ⟨hu, .inl rfl⟩, he.trans ?_⟩
      rw [← hf s.sched.taskCount (Nat.le_refl _), Function.update_eq_self,
        hf s.sched.taskCount (Nat.le_refl _), ← hu, Function.update_eq_self]
  | resume hp hk => exact s.kont_resume
  | dispatch hp hd => exact ⟨s.kont s.me, rfl, (Function.update_eq_self _ _).symm⟩

/-! ### Primitives -/

/-- A primitive object of the machine. -/
inductive Obj where
  | mutex (m : Nat)
  | sem (i : Nat)
  | queue (q : Nat)
  | events (e : Nat)
  deriving DecidableEq, Repr

/-- The object a task waits at. -/
def Prim.obj : Prim → Obj
  | .mutex m => .mutex m
  | .sem i => .sem i
  | .sendTo q | .recvFrom q => .queue q
  | .events e => .events e

/-- The object an event is about. -/
def Event.obj : Event α → Obj
  | .blocked p _ | .unblock p _ => p.obj
  | .acquired m _ | .unlocked m _ => .mutex m
  | .gave i _ _ | .took i _ | .handedOff i _ => .sem i
  | .enqueued q _ | .dequeued q _ | .sendRefused q | .receiveRefused q => .queue q
  | .bitsReturned e _ _ => .events e

/-- The object a call works on. -/
def Op.obj : Op α → Option Obj
  | .lock m | .unlock m | .tryLock m => some (.mutex m)
  | .take i | .give i | .tryTake i => some (.sem i)
  | .send q _ | .receive q | .trySend q _ | .tryReceive q => some (.queue q)
  | .setBits e _ | .clearBits e _ | .waitBits e _ _ _ | .checkBits e _ _ => some (.events e)
  | _ => none

/-- The object the API function in progress works on. -/
def Kont.obj : Kont α → Option Obj
  | .user | .exited | .delayed => none
  | .lockWait m => some (.mutex m)
  | .takeWait i => some (.sem i)
  | .sendWait q _ | .sendTest q _ | .recvWait q | .recvTest q => some (.queue q)
  | .bitsWait e _ _ _ | .bitsTest e _ _ _ | .checkTest e _ | .checkCompact e _ =>
    some (.events e)

/-- A context waits at the object its function works on. -/
theorem Kont.obj_of_waitsOn {k : Kont α} {p : Prim} (h : k.waitsOn = some p) :
    k.obj = some p.obj := by
  cases k <;> cases h <;> rfl

/-- Only one object changed, and only events about it were logged. -/
structure SameBut (o : Option Obj) (s s' : Sys α) : Prop where
  mutex : ∀ m, o ≠ some (.mutex m) → s'.mutex m = s.mutex m
  sem : ∀ i, o ≠ some (.sem i) → s'.sem i = s.sem i
  queue : ∀ q, o ≠ some (.queue q) → s'.queue q = s.queue q
  events : ∀ e, o ≠ some (.events e) → s'.events e = s.events e
  log : ∃ es, s'.log = es ++ s.log ∧ ∀ x ∈ es, o = some x.obj

namespace SameBut

variable {o : Option Obj} {s u : Sys α}

private theorem refl (s : Sys α) : SameBut o s s :=
  ⟨fun _ _ ↦ rfl, fun _ _ ↦ rfl, fun _ _ ↦ rfl, fun _ _ ↦ rfl, [], rfl, by simp⟩

/-- The scheduler, the contexts and the phase are not framed. -/
theorem of_eq {v : Sys α} (h : SameBut o s u) (h1 : v.mutex = u.mutex) (h2 : v.sem = u.sem)
    (h3 : v.queue = u.queue) (h4 : v.events = u.events) (h5 : v.log = u.log) :
    SameBut o s v where
  mutex m hm := by
    rw [h1]
    exact h.mutex m hm
  sem i hi := by
    rw [h2]
    exact h.sem i hi
  queue q hq := by
    rw [h3]
    exact h.queue q hq
  events e he := by
    rw [h4]
    exact h.events e he
  log := by
    rw [h5]
    exact h.log

private theorem setKont (h : SameBut o s u) (k : Kont α) : SameBut o s (u.setKont k) :=
  h.of_eq rfl rfl rfl rfl rfl

private theorem emit (h : SameBut o s u) (x : Event α) (hx : o = some x.obj) :
    SameBut o s (u.emit x) where
  mutex := h.mutex
  sem := h.sem
  queue := h.queue
  events := h.events
  log := by
    obtain ⟨es, he, hes⟩ := h.log
    refine ⟨x :: es, congrArg (x :: ·) he, fun y hy ↦ ?_⟩
    rcases List.mem_cons.mp hy with rfl | hy
    · exact hx
    · exact hes y hy

private theorem setMutex (h : SameBut o s u) (m : Nat) (v : Mutex) (ho : o = some (.mutex m)) :
    SameBut o s (u.setMutex m v) where
  mutex m' hm := by
    have hne : m' ≠ m := by
      rintro rfl
      exact hm ho
    rw [← h.mutex m' hm]
    exact Function.update_of_ne hne _ _
  sem := h.sem
  queue := h.queue
  events := h.events
  log := h.log

private theorem setSem (h : SameBut o s u) (i : Nat) (v : Semaphore) (ho : o = some (.sem i)) :
    SameBut o s (u.setSem i v) where
  mutex := h.mutex
  sem i' hi := by
    have hne : i' ≠ i := by
      rintro rfl
      exact hi ho
    rw [← h.sem i' hi]
    exact Function.update_of_ne hne _ _
  queue := h.queue
  events := h.events
  log := h.log

private theorem setQueue (h : SameBut o s u) (q : Nat) (v : Queue α) (ho : o = some (.queue q)) :
    SameBut o s (u.setQueue q v) where
  mutex := h.mutex
  sem := h.sem
  queue q' hq := by
    have hne : q' ≠ q := by
      rintro rfl
      exact hq ho
    rw [← h.queue q' hq]
    exact Function.update_of_ne hne _ _
  events := h.events
  log := h.log

private theorem setEvents (h : SameBut o s u) (e : Nat) (v : EventGroup)
    (ho : o = some (.events e)) :
    SameBut o s (u.setEvents e v) where
  mutex := h.mutex
  sem := h.sem
  queue := h.queue
  events e' he := by
    have hne : e' ≠ e := by
      rintro rfl
      exact he ho
    rw [← h.events e' he]
    exact Function.update_of_ne hne _ _
  log := h.log

private theorem blockCurrent (h : SameBut o s u) (p : Prim) (k : Kont α) (ho : o = some p.obj) :
    SameBut o s (u.blockCurrent p k) := by
  unfold Sys.blockCurrent
  dsimp only
  split
  · exact h.setKont k
  · exact ((h.setKont k).emit (.blocked p _) ho).of_eq rfl rfl rfl rfl rfl

private theorem unblockFor (h : SameBut o s u) (p : Prim) (t : TaskHandle) (ho : o = some p.obj) :
    SameBut o s (u.unblockFor p t) :=
  (h.emit (.unblock p t) ho).of_eq rfl rfl rfl rfl rfl

private theorem wakeReceiver (h : SameBut o s u) (q : Nat) (ho : o = some (.queue q)) :
    SameBut o s (u.wakeReceiver q) := by
  unfold Sys.wakeReceiver
  dsimp only
  split
  · exact h
  · exact (h.setQueue q _ ho).unblockFor _ _ ho

private theorem wakeSender (h : SameBut o s u) (q : Nat) (ho : o = some (.queue q)) :
    SameBut o s (u.wakeSender q) := by
  unfold Sys.wakeSender
  dsimp only
  split
  · exact h
  · exact (h.setQueue q _ ho).unblockFor _ _ ho

private theorem enqueue (h : SameBut o s u) (q : Nat) (item : α) (ho : o = some (.queue q)) :
    SameBut o s (u.enqueue q item) :=
  ((h.setQueue q _ ho).emit (.enqueued q item) ho).wakeReceiver q ho

private theorem dequeue (h : SameBut o s u) (q : Nat) (ho : o = some (.queue q)) :
    SameBut o s (u.dequeue q) :=
  ((h.setQueue q _ ho).emit (.dequeued q _) ho).wakeSender q ho

end SameBut

/-- Scheduler calls touch no primitive. -/
private theorem sched_sameBut (s : Sys α) (op : Op α) (h : op.obj = none) :
    SameBut none s (s.call op) := by
  have hr := SameBut.refl (o := none) s
  cases op with
  | xTaskCreate p =>
    simp only [Sys.call, Sys.xTaskCreate]
    split
    · exact hr
    · exact hr.of_eq rfl rfl rfl rfl rfl
  | vTaskStartScheduler =>
    simp only [Sys.call, Sys.vTaskStartScheduler]
    split
    · exact hr
    · exact hr.of_eq rfl rfl rfl rfl rfl
  | vTaskDelay n =>
    simp only [Sys.call, Sys.vTaskDelay]
    split
    · exact hr
    · split
      · exact hr.of_eq rfl rfl rfl rfl rfl
      · exact hr.of_eq rfl rfl rfl rfl rfl
  | vTaskSuspend t =>
    simp only [Sys.call, Sys.vTaskSuspend]
    split
    · exact hr
    · exact hr.of_eq rfl rfl rfl rfl rfl
  | vTaskResume t =>
    simp only [Sys.call, Sys.vTaskResume]
    split
    · exact hr
    · split
      · exact hr.of_eq rfl rfl rfl rfl rfl
      · exact hr
  | vTaskDelete t =>
    simp only [Sys.call, Sys.vTaskDelete]
    split
    · exact hr
    · exact hr.of_eq rfl rfl rfl rfl rfl
  | tick ms => exact hr.of_eq rfl rfl rfl rfl rfl
  | unblock t => exact hr.of_eq rfl rfl rfl rfl rfl
  | taskReturn => exact hr.of_eq rfl rfl rfl rfl rfl
  | _ => cases h

/-- A call changes the object it works on only. -/
theorem call_sameBut (s : Sys α) (op : Op α) : SameBut op.obj s (s.call op) := by
  have hr := SameBut.refl (o := op.obj) s
  cases op with
  | lock m =>
    simp only [Sys.call, Sys.lock]
    split
    · exact (hr.setMutex m _ rfl).emit _ rfl
    · exact (hr.setMutex m _ rfl).blockCurrent _ _ rfl
  | unlock m =>
    have he := hr.emit (.unlocked m s.me) rfl
    simp only [Sys.call, Sys.unlock]
    split
    · exact (he.setMutex m _ rfl).unblockFor _ _ rfl
    · exact he.setMutex m _ rfl
  | tryLock m =>
    simp only [Sys.call, Sys.tryLock]
    split
    · exact hr
    · exact (hr.setMutex m _ rfl).emit _ rfl
  | take i =>
    simp only [Sys.call, Sys.take]
    split
    · exact (hr.setSem i _ rfl).emit _ rfl
    · exact (hr.setSem i _ rfl).blockCurrent _ _ rfl
  | give i =>
    have he := hr.emit (.gave i (s.sem i).waiters.length (s.sem i).count) rfl
    simp only [Sys.call, Sys.give]
    split
    · exact ((he.setSem i _ rfl).emit _ rfl).unblockFor _ _ rfl
    · split
      · exact he.setSem i _ rfl
      · exact he
  | tryTake i =>
    simp only [Sys.call, Sys.tryTake]
    split
    · exact hr
    · exact (hr.setSem i _ rfl).emit _ rfl
  | send q item => exact hr.setKont _
  | receive q => exact hr.setKont _
  | trySend q item =>
    simp only [Sys.call, Sys.trySend]
    split
    · exact hr.emit _ rfl
    · exact hr.enqueue q item rfl
  | tryReceive q =>
    simp only [Sys.call, Sys.tryReceive]
    split
    · exact hr.emit _ rfl
    · exact hr.dequeue q rfl
  | setBits e bits => exact (hr.setEvents e _ rfl).setKont _
  | clearBits e bits => exact hr.setEvents e _ rfl
  | waitBits e bits all clr => exact hr.setKont _
  | checkBits e bits all => exact hr
  | _ => exact sched_sameBut s _ rfl

/-- Going on changes the object of the function in progress only. -/
theorem resume_sameBut (s : Sys α) (k : Kont α) : SameBut k.obj s (s.resume k) := by
  have hr := SameBut.refl (o := k.obj) s
  cases k with
  | user => exact hr
  | exited => exact hr
  | delayed => exact hr.setKont _
  | lockWait m => exact (hr.setKont _).emit _ rfl
  | takeWait i => exact hr.setKont _
  | sendWait q item => exact hr.setKont _
  | sendTest q item =>
    simp only [Sys.resume, Sys.sendTest]
    split
    · exact (hr.setQueue q _ rfl).blockCurrent _ _ rfl
    · exact (hr.setKont .user).enqueue q item rfl
  | recvWait q => exact hr.setKont _
  | recvTest q =>
    simp only [Sys.resume, Sys.recvTest]
    split
    · exact (hr.setQueue q _ rfl).blockCurrent _ _ rfl
    · exact (hr.setKont .user).dequeue q rfl
  | bitsWait e bits all clr => exact hr.setKont _
  | bitsTest e bits all clr =>
    simp only [Sys.resume, Sys.bitsTest]
    split
    · have he := (hr.setKont .user).emit (.bitsReturned e s.me (s.events e).bits) rfl
      split
      · exact he.setEvents e _ rfl
      · exact he
    · exact (hr.setEvents e _ rfl).blockCurrent _ _ rfl
  | checkTest e i =>
    simp only [Sys.resume, Sys.checkTest]
    split
    · split
      · exact (hr.setKont _).unblockFor _ _ rfl
      · exact hr.setKont _
    · exact hr.setKont _
  | checkCompact e i => exact (hr.setEvents e _ rfl).setKont _

/-- The object a step works on. -/
def Act.obj (s : Sys α) : Act α → Option Obj
  | .call op => op.obj
  | .resume => (s.kont s.me).obj
  | .dispatch => none

/-- Every step changes its object only. -/
theorem Step.sameBut {D : Dispatcher} {s s' : Sys α} {a : Act α} (h : Step D s a s') :
    SameBut (a.obj s) s s' := by
  cases h with
  | call hp hk hi => exact call_sameBut s _
  | resume hp hk => exact resume_sameBut s _
  | dispatch hp hd => exact (SameBut.refl s).of_eq rfl rfl rfl rfl rfl

/-- A call enters functions of its own object only. -/
theorem Op.Enters.obj_eq {op : Op α} {k : Kont α} (h : op.Enters k) : k.obj = op.obj := by
  cases op <;> first | (cases h; rfl) | exact h.elim

/-- A function in progress stays on its object until it returns. -/
theorem Kont.Goes.obj_eq {k k' : Kont α} (h : k.Goes k') : k'.obj = none ∨ k'.obj = k.obj := by
  cases k with
  | sendTest q item =>
    rcases h with rfl | rfl
    · exact .inl rfl
    · exact .inr rfl
  | recvTest q =>
    rcases h with rfl | rfl
    · exact .inl rfl
    · exact .inr rfl
  | bitsTest e bits all clr =>
    rcases h with rfl | rfl
    · exact .inl rfl
    · exact .inr rfl
  | checkTest e i =>
    rcases h with rfl | rfl | rfl
    · exact .inl rfl
    · exact .inr rfl
    · exact .inr rfl
  | _ =>
    cases h
    first | exact .inl rfl | exact .inr rfl

/-- Contexts enter and leave the functions of an object in steps on that object only. -/
theorem Step.kont_iff {D : Dispatcher} {s s' : Sys α} {a : Act α} (h : Step D s a s')
    (hf : ∀ t, s.sched.taskCount ≤ t → s.kont t = .user) {o : Obj} (ho : a.obj s ≠ some o)
    {k : Kont α} (hk : k.obj = some o) (t : TaskHandle) : s'.kont t = k ↔ s.kont t = k := by
  obtain ⟨k', hl, he⟩ := h.leads hf
  rw [he]
  by_cases ht : t = s.me
  · rw [ht, Function.update_self]
    have hne : k = .user → False := by
      rintro rfl
      cases hk
    cases a with
    | call op =>
      obtain ⟨hu, hc⟩ := hl
      rw [hu]
      refine iff_of_false ?_ fun h ↦ hne h.symm
      rintro rfl
      rcases hc with hc | hc
      · exact hne hc
      · exact ho (hc.obj_eq.symm.trans hk)
    | resume =>
      refine iff_of_false ?_ ?_
      · rintro rfl
        rcases Kont.Goes.obj_eq hl with hn | hn
        · rw [hk] at hn
          cases hn
        · exact ho (hn.symm.trans hk)
      · rintro rfl
        exact ho hk
    | dispatch =>
      rw [show k' = s.kont s.me from hl]
  · rw [Function.update_of_ne ht]

end McuSimulator.Rtos
