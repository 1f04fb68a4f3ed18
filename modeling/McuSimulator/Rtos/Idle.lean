import McuSimulator.Rtos.Deadlock
import McuSimulator.Rtos.Mutex
import McuSimulator.Rtos.QueueWakeUp
import McuSimulator.Rtos.Semaphore
import McuSimulator.Rtos.SetBits

/-!
# What the scheduler leaves behind when it idles

A task that cannot go on is blocked in a call, and the object of the call does not let it go on: its
mutex is owned, its semaphore has no unit, its queue is full or empty, its condition on the bits of
an event group does not hold. When the scheduler falls back to the idle context, every task is one
of these, or has been suspended or deleted.
-/

namespace McuSimulator.Rtos

open McuSimulator.Base

variable {α : Type}

/-- Inside `block_current` of a delay or of a call that waits for an object. -/
def Kont.Blocks (k : Kont α) : Prop := k = .delayed ∨ ∃ p, k.waitsOn = some p

/-- Inside the scan of a table of waiters. -/
def Kont.Scans : Kont α → Prop
  | .checkTest _ _ | .checkCompact _ _ => True
  | _ => False

instance (k : Kont α) : Decidable k.Scans := by
  induction k using Kont.casesOn <;> first | exact .isTrue trivial | exact .isFalse id

/-- A context waits, and the object it waits at does not let it go on. -/
inductive Sys.Refuses (s : Sys α) : Kont α → Prop
  | lock (m : Nat) (h : (s.mutex m).owner ≠ invalidTask) : s.Refuses (.lockWait m)
  | take (i : Nat) (h : (s.sem i).count ≤ 0) : s.Refuses (.takeWait i)
  | send (q : Nat) (item : α) (h : (s.queue q).count = (s.queue q).cap) :
    s.Refuses (.sendWait q item)
  | receive (q : Nat) (h : (s.queue q).count = 0) : s.Refuses (.recvWait q)
  | waitBits (e : Nat) (bits : BitVec 32) (all clr : Bool)
    (h : (s.events e).satisfied bits all = false) : s.Refuses (.bitsWait e bits all clr)

/-- As long as a task is listed, the mutex is owned and the semaphore has no unit. -/
structure RefuseInv (s : Sys α) : Prop where
  mutex : ∀ m, (s.mutex m).waiters ≠ [] → (s.mutex m).owner ≠ invalidTask
  sem : ∀ i, (s.sem i).waiters ≠ [] → (s.sem i).count ≤ 0

section Step

variable {D : Dispatcher} {s s' : Sys α} {a : Act α}

private theorem RefuseInv.step (h : RefuseInv s) (hr : RunInv s) (hg : TasksOnly s a)
    (hst : Step D s a s') : RefuseInv s' where
  mutex m := by
    have hold := h.mutex m
    cases hst.mutexStep hr.sched hg m with
    | frame hm => rwa [hm]
    | acquire hme hu ho hm =>
      rw [hm]
      exact fun _ ↦ hme
    | wait ha hp hme ho hm =>
      rw [hm]
      exact fun _ ↦ ho
    | handOff ha hu i w hi hw hm =>
      rw [hm]
      have howed := hr.wait.owed_of_mem (p := .mutex m) (hw ▸ List.getElem_mem hi)
      exact fun _ ↦ hr.sched.ne_invalid (hr.sched.lt_of_waitsOn howed.1)
    | release ha hu hw hm =>
      rw [hm]
      exact fun hne ↦ absurd hw hne
    | enter hp hme hl hm => rwa [hm]
  sem i := by
    have hold := h.sem i
    cases hst.semStep hg i with
    | frame hm => rwa [hm]
    | take hc hm =>
      rw [hm]
      intro hne
      have hle := hold hne
      show (s.sem i).count - 1 ≤ 0
      omega
    | wait hc hm =>
      rw [hm]
      exact fun _ ↦ hc
    | handOff hw b w hm =>
      rw [hm]
      exact fun _ ↦ hold hw
    | add hw hc hm =>
      rw [hm]
      exact fun hne ↦ absurd hw hne
    | saturate hw hc hm => rwa [hm]

/-- What a request can make the state of a task. -/
inductive Request.Makes (v : Scheduler) (r : Request) (t : TaskHandle) : TaskState → Prop
  | keeps : r.Makes v t (v.tasks t).state
  | ready : r.Makes v t .ready
  | running : r.Makes v t .running
  | blocked (ht : t = v.current) (h : r = .blockCurrent ∨ ∃ n, n ≠ 0 ∧ r = .vTaskDelay n) :
    r.Makes v t .blocked
  | suspended (h : r = .vTaskSuspend t) : r.Makes v t .suspended
  | deleted (h : r = .vTaskDelete t ∨ r = .taskReturn ∧ t = v.current) : r.Makes v t .deleted

private theorem Request.Leaves.makes {v : Scheduler} {r : Request} {b : Tcb} (h : r.Leaves v b) :
    r.Makes v v.current b.state := by
  cases r with
  | vTaskDelay n =>
    obtain ⟨-, rfl⟩ | ⟨hn, rfl⟩ := h
    · exact .ready
    · exact .blocked rfl (.inr ⟨n, hn, rfl⟩)
  | blockCurrent =>
    rw [show b = _ from h]
    exact .blocked rfl (.inl rfl)
  | vTaskSuspend u =>
    obtain ⟨rfl, rfl⟩ := h
    exact .suspended rfl
  | vTaskDelete u =>
    obtain ⟨rfl, rfl⟩ := h
    exact .deleted (.inl rfl)
  | taskReturn =>
    rw [show b = _ from h]
    exact .deleted (.inr ⟨rfl, rfl⟩)
  | _ => exact h.elim

private theorem Served.makes {v v' : Scheduler} {r : Request} {ph : Phase} (h : Served v r v' ph)
    (t : TaskHandle) : r.Makes v t (v'.tasks t).state := by
  -- one task is marked
  have hmark : ∀ {u : Scheduler} {w : TaskHandle} {st : TaskState},
      r.Makes v t (u.tasks t).state → (t = w → r.Makes v t st) →
      r.Makes v t ((u.setState w st).tasks t).state := by
    intro u w st hu hw
    rw [state_setState]
    split
    case isTrue ht => exact hw ht
    case isFalse => exact hu
  have hscan : ∀ ms, r.Makes v t ((v.scanned ms).tasks t).state := by
    intro ms
    rcases woken_state (v.scanned_woken ms t) with he | he
    · rw [he]
      exact .keeps
    · rw [he]
      exact .ready
  cases h with
  | stay => exact .keeps
  | create p hlt =>
    rw [Scheduler.xTaskCreate_of_lt hlt]
    by_cases ht : t = v.taskCount
    · rw [ht, Scheduler.setTask_tasks_self]
      exact .ready
    · rw [Scheduler.setTask_tasks_of_ne _ _ ht]
      exact .keeps
  | start hm hn => exact hmark (u := { v with current := v.selectNext }) .keeps fun _ ↦ .running
  | leave r b ph hm hl hp =>
    by_cases ht : t = v.current
    · rw [ht, Scheduler.setTask_tasks_self]
      exact hl.makes
    · rw [Scheduler.setTask_tasks_of_ne _ _ ht]
      exact .keeps
  | suspend u hu hne => exact hmark .keeps fun ht ↦ .suspended (congrArg _ ht.symm)
  | delete u hu hne => exact hmark .keeps fun ht ↦ .deleted (.inl (congrArg _ ht.symm))
  | resume u hu hs => exact hmark .keeps fun _ ↦ .ready
  | wake u hu hs hlow => exact hmark .keeps fun _ ↦ .ready
  | preempt u hu hs hm => exact hmark (hmark .keeps fun _ ↦ .ready) fun _ ↦ .ready
  | scan ms hlow => exact hscan ms
  | scanPreempt ms hm => exact hmark (hscan ms) fun _ ↦ .ready

/-- A new task is `READY`. -/
theorem Served.lt_or_ready {v v' : Scheduler} {r : Request} {ph : Phase} (h : Served v r v' ph)
    {t : TaskHandle} (ht : t < v'.taskCount) :
    t < v.taskCount ∨ (v'.tasks t).state = .ready := by
  cases h with
  | create p hlt =>
    rw [Scheduler.xTaskCreate_of_lt hlt] at ht ⊢
    by_cases hnew : t = v.taskCount
    · rw [hnew, Scheduler.setTask_tasks_self]
      exact .inr rfl
    · exact .inl (Nat.lt_of_le_of_ne (Nat.le_of_lt_succ ht) hnew)
  | _ => exact .inl ht

/-- A request that blocks a task. -/
theorem Request.Makes.of_blocked {v : Scheduler} {r : Request} {t : TaskHandle}
    {st : TaskState} (h : r.Makes v t st) (hst : st = .blocked) :
    (v.tasks t).state = .blocked ∨
      t = v.current ∧ (r = .blockCurrent ∨ ∃ n, n ≠ 0 ∧ r = .vTaskDelay n) := by
  cases h with
  | keeps => exact .inl hst
  | blocked ht h => exact .inr ⟨ht, h⟩
  | _ => cases hst

/-- A request that stops a task. -/
theorem Request.Makes.of_stopped {v : Scheduler} {r : Request} {t : TaskHandle}
    {st : TaskState} (h : r.Makes v t st) (hst : st = .suspended ∨ st = .deleted) :
    (v.tasks t).state = st ∨ r = .vTaskSuspend t ∨ r = .vTaskDelete t ∨
      r = .taskReturn ∧ t = v.current := by
  cases h with
  | keeps => exact .inl rfl
  | suspended h => exact .inr (.inl h)
  | deleted h => exact .inr (.inr h)
  | _ => rcases hst with hst | hst <;> cases hst

end Step

/-! ### Blocked and stopped tasks -/

/-- A `BLOCKED` task is delayed, or blocked in a call that waits for an object. -/
def BlockedWaits (s : Sys α) : Prop :=
  ∀ t < s.sched.taskCount, s.state t = .blocked → (s.kont t).Blocks

/-- The task has been suspended or deleted. -/
def Sys.Stopped (s : Sys α) (t : TaskHandle) : Prop :=
  s.state t = .suspended ∨ s.state t = .deleted

/-- The contexts of stopped tasks have this property. -/
def StoppedAt (P : Kont α → Prop) (s : Sys α) : Prop :=
  ∀ t < s.sched.taskCount, s.Stopped t → P (s.kont t)

/-- A step that stops a task finds the context of the task with this property. -/
def StopsAt (P : Kont α → Prop) (s : Sys α) : Act α → Prop
  | .call (.vTaskSuspend t) | .call (.vTaskDelete t) => P (s.kont t)
  | _ => True

instance {P : Kont α → Prop} [DecidablePred P] (s : Sys α) (a : Act α) :
    Decidable (StopsAt P s a) := by
  induction a using Act.casesOn with
  | call op =>
    induction op using Op.casesOn <;> first
      | exact .isTrue trivial
      | exact inferInstanceAs (Decidable (P _))
  | _ => exact .isTrue trivial

section Preserve

variable {D : Dispatcher} {s s' : Sys α} {a : Act α}

/-- The executing task is blocked in a call that waits. -/
theorem Effect.blocks_me (he : Effect D s a s') (hs : SchedInv s) (hm : s.me ≠ invalidTask)
    (hp : s.phase = .code) (hb : s'.state s.me = .blocked) : (s'.kont s.me).Blocks := by
  have hrun := hs.running_me hp hm
  have hblocked {r : Request} {v : Scheduler} {ph : Phase} (hv : v = s'.sched)
      (h : Served s.sched r v ph) : r = .blockCurrent ∨ ∃ n, n ≠ 0 ∧ r = .vTaskDelay n := by
    subst hv
    rcases (h.makes s.me).of_blocked hb with hold | ⟨-, h⟩
    · cases hrun.symm.trans hold
    · exact h
  cases he with
  | quiet k h hk hs' =>
    rw [Sys.state, hs'] at hb
    cases hrun.symm.trans hb
  | block p k ho h hk =>
    rw [h.kont, Function.update_self]
    exact .inr ⟨p, hk⟩
  | wake p w i k ho h hk hs' =>
    rcases hblocked hs'.symm (s.served_unblock w) with hr | ⟨n, -, hr⟩
    · cases hr
    · cases hr
  | api op ha ho _ hi hu he =>
    subst he
    rcases hblocked rfl (Sys.served_call hp hs.taskCount_le op hi) with hr | ⟨n, hn, hr⟩
    · cases op <;> first | cases hr | exact ho.elim
    · cases op with
      | vTaskDelay n' =>
        obtain rfl : n' = n := Request.vTaskDelay.inj hr
        show ((s.vTaskDelay n').kont s.me).Blocks
        rw [Sys.vTaskDelay, if_neg hm, if_neg hn]
        show (Function.update s.kont s.me Kont.delayed s.me).Blocks
        rw [Function.update_self]
        exact .inl rfl
      | _ => first | cases hr | exact ho.elim
  | dispatch ha hp' => exact absurd hp hp'

/-- What a step asks of the scheduler that is about the state of a task. -/
inductive Asked (s : Sys α) (a : Act α) : Request → Prop
  | none : Asked s a .none
  | blockCurrent (hp : s.phase = .code) : Asked s a .blockCurrent
  | unblock (hp : s.phase = .code) (w : TaskHandle) : Asked s a (.unblock w)
  | call (hp : s.phase = .code) (op : Op α) (ha : a = .call op) (ho : op.IsSched) :
    Asked s a (s.callRequest op)

/-- A new task is `READY`, and the state of another one changes by what is asked. -/
theorem Effect.makes (he : Effect D s a s') (hs : SchedInv s) {t : TaskHandle}
    (ht : t < s'.sched.taskCount) : s'.state t = .ready ∨
      t < s.sched.taskCount ∧ ∃ r, Asked s a r ∧ r.Makes s.sched t (s'.state t) := by
  have hserved {r : Request} (hr : Asked s a r) (h : ∃ ph, Served s.sched r s'.sched ph) :
      s'.state t = .ready ∨
        t < s.sched.taskCount ∧ ∃ r, Asked s a r ∧ r.Makes s.sched t (s'.state t) := by
    obtain ⟨ph, h⟩ := h
    exact (h.lt_or_ready ht).symm.imp_right fun hlt ↦ ⟨hlt, r, hr, h.makes t⟩
  cases he with
  | quiet k h hk hs' =>
    refine hserved .none ⟨.code, ?_⟩
    rw [hs']
    exact .stay _ trivial
  | block p k ho h hk hs' =>
    rw [Sys.state, hs', state_setState]
    rw [hs'] at ht
    refine .inr ⟨ht, .blockCurrent, .blockCurrent h.phase, ?_⟩
    split
    case isTrue hme => exact .blocked hme (.inl rfl)
    case isFalse => exact .keeps
  | wake p w i k ho h hk hs' =>
    refine hserved (.unblock h.phase w) ⟨if (s.sched.unblock w).2 then .scheduleFrom else .code, ?_⟩
    rw [hs']
    exact s.served_unblock w
  | api op ha ho hp hi hu he =>
    subst he
    exact hserved (.call hp op ha ho) ⟨_, Sys.served_call hp hs.taskCount_le op hi⟩
  | dispatch ha hp sched hd he =>
    subst he
    have hsound := D.sound _ _ _ hd
    have hlt : t < s.sched.taskCount := hsound.taskCount ▸ ht
    show (sched.tasks t).state = .ready ∨ t < s.sched.taskCount ∧
      ∃ r, Asked s a r ∧ r.Makes s.sched t (sched.tasks t).state
    rcases dispatch_state hsound (t := t) with hsame | hr | hr
    · rw [hsame]
      exact .inr ⟨hlt, .none, .none, .keeps⟩
    · exact .inl hr
    · rw [hr]
      exact .inr ⟨hlt, .none, .none, .running⟩

/-- A step moves the context of the executing task only, and a dispatch none. -/
theorem Step.kont_of_not_own (hst : Step D s a s') (hs : SchedInv s) {t : TaskHandle}
    (hown : ¬ (s.phase = .code ∧ t = s.me)) : s'.kont t = s.kont t := by
  by_cases hme : t = s.me
  · cases hst with
    | call hp | resume hp => exact absurd ⟨hp, hme⟩ hown
    | dispatch => rfl
  · obtain ⟨k, -, hk⟩ := hst.leads hs.fresh
    rw [hk, Function.update_of_ne hme]

/-- A task is blocked by nobody else, and blocks itself in a call that waits. -/
theorem BlockedWaits.step (h : BlockedWaits s) (hs : SchedInv s) (hg : TasksOnly s a)
    (hst : Step D s a s') : BlockedWaits s' := by
  have he := hst.effect hs.outside hg
  intro t ht hb
  by_cases hown : s.phase = .code ∧ t = s.me
  · obtain ⟨hp, rfl⟩ := hown
    exact he.blocks_me hs ((hs.step he).ne_invalid ht) hp hb
  rw [hst.kont_of_not_own hs hown]
  rcases he.makes hs ht with hr | ⟨hlt, r, hr, hmakes⟩
  · cases hb.symm.trans hr
  rcases hmakes.of_blocked hb with hold | ⟨hme, hreq⟩
  · exact h t hlt hold
  · cases hr with
    | none => rcases hreq with hreq | ⟨n, -, hreq⟩ <;> cases hreq
    | blockCurrent hp | unblock hp | call hp => exact absurd ⟨hp, hme⟩ hown

/-- A stopped task stays in its context, and one that returns is in no call. -/
theorem StoppedAt.step {P : Kont α → Prop} (h : StoppedAt P s) (hexited : P .exited)
    (hs : SchedInv s) (hg : TasksOnly s a) (hstop : StopsAt P s a) (hst : Step D s a s') :
    StoppedAt P s' := by
  have he := hst.effect hs.outside hg
  intro t ht hstopped
  rcases he.makes hs ht with hr | ⟨hlt, r, hr, hmakes⟩
  · rcases hstopped with hb | hb <;> cases hb.symm.trans hr
  rcases hmakes.of_stopped hstopped with hsame | hreq
  · have hold : s.Stopped t := hstopped.imp hsame.trans hsame.trans
    rw [hst.kont_of_not_own hs]
    · exact h t hlt hold
    · rintro ⟨hp, rfl⟩
      have hrun := hs.running_me hp (hs.ne_invalid hlt)
      rcases hold with hb | hb <;> cases hb.symm.trans hrun
  · -- the task is stopped by a call
    cases hr with
    | none | blockCurrent | unblock => simp at hreq
    | call hp op ha ho =>
      subst ha
      cases hst with
      | call hp hu hi =>
        cases op with
        | vTaskSuspend u =>
          obtain rfl : u = t := by simpa [Sys.callRequest] using hreq
          rw [show (s.call (.vTaskSuspend u)).kont = s.kont by
            simp only [Sys.call, Sys.vTaskSuspend]
            split <;> rfl]
          exact hstop
        | vTaskDelete u =>
          obtain rfl : u = t := by simpa [Sys.callRequest] using hreq
          rw [show (s.call (.vTaskDelete u)).kont = s.kont by
            simp only [Sys.call, Sys.vTaskDelete]
            split <;> rfl]
          exact hstop
        | taskReturn =>
          have hme : t = s.sched.current := by simpa [Sys.callRequest] using hreq
          obtain rfl : t = s.me := hme
          show P (Function.update s.kont s.me .exited s.me)
          rw [Function.update_self]
          exact hexited
        | _ => first | exact ho.elim | simp [Sys.callRequest] at hreq

end Preserve

/-! ### Conditions that hold -/

/-- A task that is blocked in `wait_bits` though its condition holds is ahead of a scan. -/
def ConditionsScanned (s : Sys α) : Prop :=
  ∀ c : WaitCall, c.Blocked s → c.HoldsOn (s.events c.group) → c.Scanned s

section Conditions

variable {D : Dispatcher} {s s' : Sys α} {a : Act α}

/-- Only `set_bits` sets bits of a group. -/
theorem Step.bits_before (hst : Step D s a s') {e : Nat}
    (ha : ∀ b, a ≠ .call (.setBits e b)) : ∃ b, (s.events e).bits = (s'.events e).bits ||| b := by
  have hsame : ∀ {u : Sys α}, (u.events e).bits = (s.events e).bits →
      ∃ b, (s.events e).bits = (u.events e).bits ||| b := by
    intro u hu
    exact ⟨0#32, by rw [hu, BitVec.or_zero]⟩
  have hclear : ∀ {u : Sys α} (m : BitVec 32), (u.events e).bits = (s.events e).bits &&& ~~~m →
      ∃ b, (s.events e).bits = (u.events e).bits ||| b := by
    intro u m hu
    refine ⟨(s.events e).bits &&& m, ?_⟩
    rw [hu, ← BitVec.and_or_distrib_left, BitVec.or_comm, BitVec.or_not_self, BitVec.and_allOnes]
  by_cases ho : a.obj s = some (.events e)
  · cases hst with
    | @call op hp hk hi =>
      cases op with
      | setBits e' bits =>
        obtain rfl := Obj.events.inj (Option.some.inj ho)
        exact absurd rfl (ha bits)
      | clearBits e' bits =>
        obtain rfl := Obj.events.inj (Option.some.inj ho)
        refine hclear bits ?_
        simp [Sys.call, Sys.clearBits, Sys.setEvents]
      | waitBits e' bits all clr => exact hsame rfl
      | checkBits e' bits all => exact hsame rfl
      | _ => cases ho
    | resume hp hk =>
      simp only [Act.obj] at ho
      cases hc : s.kont s.me with
      | bitsWait e' bits all clr => exact hsame rfl
      | bitsTest e' bits all clr =>
        rw [hc] at ho
        obtain rfl := Obj.events.inj (Option.some.inj ho)
        simp only [Sys.resume]
        unfold Sys.bitsTest
        split
        · cases clr with
          | true =>
            refine hclear bits ?_
            simp [Sys.clearBits, Sys.setEvents, Sys.emit, Sys.setKont]
          | false => exact hsame rfl
        · refine hsame ?_
          rw [Sys.events_blockCurrent]
          simp [Sys.setEvents]
      | checkTest e' i =>
        refine hsame ?_
        simp only [Sys.resume]
        unfold Sys.checkTest
        split
        · split <;> rfl
        · rfl
      | checkCompact e' i =>
        rw [hc] at ho
        obtain rfl := Obj.events.inj (Option.some.inj ho)
        refine hsame ?_
        simp [Sys.resume, Sys.checkCompact, Sys.setEvents, Sys.setKont, EventGroup.compact]
      | _ =>
        rw [hc] at ho
        cases ho
    | dispatch => cases ho
  · exact hsame (congrArg EventGroup.bits (hst.sameBut.events e ho))

/-- Only `set_bits` makes a condition hold. -/
theorem WaitCall.HoldsOn.before {c : WaitCall} (h : c.HoldsOn (s'.events c.group))
    (hst : Step D s a s') (ha : ∀ b, a ≠ .call (.setBits c.group b)) :
    c.HoldsOn (s.events c.group) := by
  obtain ⟨b, hb⟩ := hst.bits_before ha
  exact EventGroup.satisfied_or hb h

/-- A task does not block itself in `wait_bits` when its condition holds. -/
theorem WaitCall.owed_before {c : WaitCall} (hb : c.Blocked s')
    (hc : c.HoldsOn (s'.events c.group)) (hr : RunInv s) (hr' : RunInv s')
    (hg : TasksOnly s a) (hst : Step D s a s') :
    s.Owed (.events c.group) c.task ∧ s'.Owed (.events c.group) c.task := by
  have howed' : s'.Owed (.events c.group) c.task :=
    hr'.wait.blocked _ _ (by rw [Sys.waitsOn, hb.1]; rfl) hb.2
  refine ⟨?_, howed'⟩
  cases hst.eventStep hr.sched hr.wait hg c.group with
  | frame hw hcount hk hkeep howed => exact (howed _).mp howed'
  | wait bits all clr hp hm hk he hk' howed =>
    rcases (howed _).mp howed' with ho | hme
    · exact ho
    · -- the test would have returned from the call
      have hkont := hb.1
      rw [hk', hme, Function.update_self] at hkont
      injection hkont with _ hbits hall hclr
      have hholds : c.HoldsOn (s.events c.group) := by
        unfold HoldsOn EventGroup.satisfied at hc ⊢
        rwa [he, EventGroup.register_bits] at hc
      have hret := returned_bitsTest hme.symm hholds
      cases hst with
      | call hp hu hi =>
        rw [hk] at hu
        exact hu.elim
      | resume hp hres =>
        rw [hk, hbits, hall, hclr] at hb
        cases hb.1.symm.trans hret.1
      | dispatch hcode hd => exact absurd hp hcode
  | deliver i ha hp hm hk hi hsat he hk' howed => exact ((howed _).mp howed').1
  | compact i ha hp hm hk he hk' howed => exact (howed _).mp howed'

private theorem ConditionsScanned.step (h : ConditionsScanned s) (hr : RunInv s) (hr' : RunInv s')
    (hi : ∀ e, EventInv e s) (hg : TasksOnly s a) (hst : Step D s a s') :
    ConditionsScanned s' := by
  intro c hb hc
  obtain ⟨howed, howed'⟩ := c.owed_before hb hc hr hr' hg hst
  have hstate := hr.blocked_of_owed howed
  have hown : ¬ (s.phase = .code ∧ c.task = s.me) := by
    rintro ⟨hp, hme⟩
    have hrun := hr.sched.running_me hp (hme ▸ hr.sched.ne_invalid (hr.sched.lt_of_waitsOn howed.1))
    cases (hme ▸ hstate : s.state s.me = .blocked).symm.trans hrun
  have hkont : s.kont c.task = .bitsWait c.group c.bits c.all c.clearOnExit :=
    (hst.kont_of_not_own hr.sched hown).symm.trans hb.1
  by_cases hset : ∃ b, a = .call (.setBits c.group b)
  · obtain ⟨b, rfl⟩ := hset
    have hor : c.HoldsOn { bits := (s.events c.group).bits ||| b } := by
      cases hst with
      | call => simpa [WaitCall.HoldsOn, EventGroup.satisfied, Sys.call, Sys.setBits, Sys.setEvents,
          Sys.setKont] using hc
    have hdue : c.Due s' := .start ⟨hkont, hstate⟩ hr (hi c.group) hst hor
    rcases hdue.stage with ⟨-, hscan⟩ | hawake
    · exact hscan
    · exact absurd hb hawake.not_blocked
  · have hholds := hc.before hst fun b hab ↦ hset ⟨b, hab⟩
    have hscan := h c ⟨hkont, hstate⟩ hholds
    exact hscan.step hst (hst.eventStep hr.sched hr.wait hg c.group) hr (hi c.group) hholds hkont
      howed'

end Conditions

/-! ### Idle -/

/-- A disciplined program that uses the tables of its event groups safely, and stops no task inside
a scan. -/
def ScanDisciplined (s : Sys α) (a : Act α) : Prop :=
  TableDisciplined s a ∧ StopsAt (¬ ·.Scans) s a

instance [DecidableEq α] (s : Sys α) (a : Act α) : Decidable (ScanDisciplined s a) :=
  inferInstanceAs (Decidable (_ ∧ _))

/-- Calls of such a program that has legal priorities and delays that do not end at a sentinel. -/
def IdleCalls (s : Sys α) (a : Act α) : Prop := ScanDisciplined s a ∧ Asks DelayCalls s (.act a)

instance [DecidableEq α] (s : Sys α) (a : Act α) : Decidable (IdleCalls s a) :=
  inferInstanceAs (Decidable (_ ∧ _))

/-- The invariants of waiting, with what a wait is refused for. -/
structure IdleInv (s : Sys α) : Prop where
  run : RunInv s
  refuse : RefuseInv s
  blocked : BlockedWaits s
  stopped : StoppedAt (¬ ·.Scans) s
  conditions : ConditionsScanned s

/-- With no task `READY` or `RUNNING`, no context is inside a scan. -/
theorem IdleInv.not_scans {s : Sys α} (h : IdleInv s)
    (hidle : ∀ t < s.sched.taskCount, s.state t ≠ .ready ∧ s.state t ≠ .running)
    (u : TaskHandle) : ¬ (s.kont u).Scans := by
  intro hu
  have hlt : u < s.sched.taskCount := by
    refine h.run.sched.lt_of_kont fun hk ↦ ?_
    rw [hk] at hu
    exact hu
  cases hstate : s.state u with
  | ready => exact (hidle u hlt).1 hstate
  | running => exact (hidle u hlt).2 hstate
  | suspended => exact h.stopped u hlt (.inl hstate) hu
  | deleted => exact h.stopped u hlt (.inr hstate) hu
  | blocked =>
    rcases h.blocked u hlt hstate with hk | ⟨p, hk⟩
    · rw [hk] at hu
      exact hu
    · cases hkont : s.kont u with
      | checkTest | checkCompact =>
        rw [hkont] at hk
        cases hk
      | _ =>
        rw [hkont] at hu
        exact hu

section Idle

variable [Inhabited α] {cfg : Config} {s s' : Sys α}

private theorem runInv_of_scanReach {D : Dispatcher}
    (h : Reach (· = .init cfg) ScanDisciplined (Step D) s) : RunInv s ∧ ∀ e, EventInv e s :=
  eventInv_of_reach (h.mono (fun _ h0 ↦ ⟨cfg, h0⟩) fun _ _ hg ↦ hg.1)

private theorem idleInv_of_reach {D : Dispatcher}
    (h : Reach (· = .init cfg) ScanDisciplined (Step D) s) : IdleInv s := by
  refine h.invariant_of (fun _ ↦ runInv_of_scanReach) ?_ ?_
  · rintro s rfl
    refine ⟨.init cfg, ⟨?_, ?_⟩, ?_, ?_, ?_⟩
    · exact fun m hne ↦ absurd rfl hne
    · exact fun i hne ↦ absurd rfl hne
    · exact fun t ht ↦ absurd ht (Nat.not_lt_zero t)
    · exact fun t ht ↦ absurd ht (Nat.not_lt_zero t)
    · rintro c ⟨hk, -⟩
      cases hk
  · rintro s a s' ⟨hr, hi⟩ ⟨hr', -⟩ ⟨-, hrefuse, hblocked, hstopped, hcond⟩ hg hst
    have htasks := hg.1.1.1
    exact ⟨hr', hrefuse.step hr htasks hst, hblocked.step hr.sched htasks hst,
      hstopped.step id hr.sched htasks hg.2 hst, hcond.step hr hr' hi htasks hst⟩

/-- With no task `READY` or `RUNNING`, a `BLOCKED` task that is not in `vTaskDelay` is refused. -/
theorem refuses_of_quiet {D : Dispatcher} (h : Reach (· = .init cfg) ScanDisciplined (Step D) s)
    (hidle : ∀ t < s.sched.taskCount, s.state t ≠ .ready ∧ s.state t ≠ .running)
    {t : TaskHandle} (ht : t < s.sched.taskCount) (hb : s.state t = .blocked)
    (hd : s.kont t ≠ .delayed) : s.Refuses (s.kont t) := by
  have hi := idleInv_of_reach h
  have hr := hi.run
  have hlisted : ∀ p, p.isList = true → (s.kont t).waitsOn = some p → s.waitList p ≠ [] :=
    fun p hp hw ↦ List.ne_nil_of_mem ((hr.mem_waitList_iff hp t).mpr ⟨hw, hb⟩)
  have hqueue : ∀ q, (∀ u, s.waitsOn u = some (.recvFrom q) → (s.queue q).count = 0) ∧
      ∀ u, s.waitsOn u = some (.sendTo q) → (s.queue q).count = (s.queue q).cap := by
    intro q
    obtain ⟨hts, hw, hq⟩ :=
      queueInvs_of_reach (fun _ _ hg ↦ hg.1.1.1) (fun _ h ↦ (runInv_of_scanReach h).1) h q
    exact hr.count_of_quiet hts hw hq hidle
  obtain ⟨p, hwait⟩ := (hi.blocked t ht hb).resolve_left hd
  cases hk : s.kont t with
  | lockWait m =>
    exact .lock m (hi.refuse.mutex m (hlisted (.mutex m) rfl (congrArg Kont.waitsOn hk)))
  | takeWait i =>
    exact .take i (hi.refuse.sem i (hlisted (.sem i) rfl (congrArg Kont.waitsOn hk)))
  | sendWait q item => exact .send q item ((hqueue q).2 t (congrArg Kont.waitsOn hk))
  | recvWait q => exact .receive q ((hqueue q).1 t (congrArg Kont.waitsOn hk))
  | bitsWait e bits all clr =>
    refine .waitBits e bits all clr ?_
    by_contra hsat
    -- a condition that holds would have a scan ahead
    obtain ⟨j, -, -, -, u, i, -, hu⟩ :=
      hi.conditions ⟨e, t, bits, all, clr⟩ ⟨hk, hb⟩ (eq_true_of_ne_false hsat)
    refine hi.not_scans hidle u ?_
    rcases hu with hu | hu <;> rw [hu] <;> trivial
  | _ =>
    rw [hk] at hwait
    cases hwait

private theorem delayInv_of_idleCalls (h : Reach (· = .init cfg) IdleCalls (Step .code) s) :
    DelayInv s := by
  refine h.invariant ?_ fun u a v hi hg hst ↦ hi.step hg.2 (.act hst)
  rintro u rfl
  exact delayInv_of_reach (.start ⟨cfg, rfl⟩)

/-- No wake-up is lost: when the scheduler falls back to the idle context, every task has been
suspended or deleted, or is blocked in a call whose object does not let it go on. -/
theorem idle_only_refused (h : Reach (· = .init cfg) IdleCalls (Step .code) s)
    (hst : Step .code s .dispatch s') (hidle : s'.me = invalidTask) :
    ∀ t < s'.sched.taskCount, s'.state t = .suspended ∨ s'.state t = .deleted ∨
      s'.state t = .blocked ∧ s'.Refuses (s'.kont t) := by
  have hguard : IdleCalls s .dispatch :=
    ⟨⟨⟨⟨trivial, trivial⟩, trivial⟩, trivial⟩, trivial, trivial⟩
  have hnext := h.next hguard hst
  have hdelay := delayInv_of_idleCalls hnext
  have hscan := hnext.mono (fun _ h0 ↦ h0) fun _ _ hg ↦ hg.1
  have hsched := (idleInv_of_reach hscan).run.sched
  obtain ⟨hp, heq⟩ := (ApiStep.act hst).dispatch_eq
  have hcode : s'.phase = .code := by
    by_contra hne
    exact hdelay.table.busy hne hidle
  have hcount : s'.sched.taskCount = s.sched.taskCount := by
    rw [heq, (s.sched.dispatch_dispatches hp).taskCount]
  have hquiet : ∀ t < s'.sched.taskCount, s'.state t ≠ .ready ∧ s'.state t ≠ .running := by
    intro t ht
    refine ⟨?_, fun hrun ↦ ((hsched.running t).mp hrun).2.2 hidle⟩
    have hready := ((delayInv_of_idleCalls h).idle hp (heq ▸ hidle) (hcount ▸ ht)).1
    rwa [← heq] at hready
  intro t ht
  cases hstate : s'.state t with
  | suspended => exact .inl rfl
  | deleted => exact .inr (.inl rfl)
  | blocked =>
    refine .inr (.inr ⟨rfl, refuses_of_quiet hscan hquiet ht hstate fun hk ↦ ?_⟩)
    exact hdelay.outside hcode hidle t ht ⟨hk, hstate⟩
  | ready => exact absurd hstate (hquiet t ht).1
  | running => exact absurd hstate (hquiet t ht).2

end Idle

/-- Four tasks. The first takes a mutex and waits for an item, the second waits for the mutex, the
third for a unit of a semaphore, and the last for one of two bits, neither of which is set. -/
def stuckRun : List (Act Unit) :=
  [.call (.xTaskCreate 1), .call (.xTaskCreate 1), .call (.xTaskCreate 1), .call (.xTaskCreate 1),
    .call .vTaskStartScheduler, .call (.lock 0), .call (.setBits 0 4), .resume, .call (.receive 0),
    .resume, .dispatch, .call (.lock 0), .dispatch, .call (.take 0), .dispatch,
    .call (.waitBits 0 3 false true), .resume]

private theorem stuckRun_isSome : (runActs Sys.exec stuckRun (.init {})).isSome = true := by
  decide +kernel

/-- The state in which the last task leaves the CPU. -/
def stuckLeft : Sys Unit := (runActs Sys.exec stuckRun (.init {})).get stuckRun_isSome

private theorem stuckLeft_dispatches : (stuckLeft.exec .dispatch).isSome = true := by
  decide +kernel

/-- The state of the idle context. -/
def stuckEnd : Sys Unit := (stuckLeft.exec .dispatch).get stuckLeft_dispatches

/-- All four are refused. -/
theorem idle_only_refused_stuck :
    stuckEnd.Refuses (stuckEnd.kont 0) ∧ stuckEnd.Refuses (stuckEnd.kont 1) ∧
      stuckEnd.Refuses (stuckEnd.kont 2) ∧ stuckEnd.Refuses (stuckEnd.kont 3) := by
  have hreach : Reach (· = .init {}) IdleCalls (Step .code) stuckLeft :=
    Reach.of_guardedRun Step.of_exec stuckRun (by rfl) (by decide +kernel) stuckRun_isSome
  have hst : Step .code stuckLeft .dispatch stuckEnd :=
    .of_exec _ _ _ (Option.some_get stuckLeft_dispatches).symm
  have hidle : stuckEnd.me = invalidTask := by decide +kernel
  have hcount : stuckEnd.sched.taskCount = 4 := by decide +kernel
  have hblocked : ∀ t < 4, stuckEnd.state t = .blocked := by decide +kernel
  have hrefused : ∀ t < 4, stuckEnd.Refuses (stuckEnd.kont t) := by
    intro t ht
    have hb := hblocked t ht
    have hlt : t < stuckEnd.sched.taskCount := by rwa [hcount]
    rcases idle_only_refused hreach hst hidle t hlt with h | h | h
    · cases hb.symm.trans h
    · cases hb.symm.trans h
    · exact h.2
  exact ⟨hrefused 0 (by decide), hrefused 1 (by decide), hrefused 2 (by decide),
    hrefused 3 (by decide)⟩

end McuSimulator.Rtos
