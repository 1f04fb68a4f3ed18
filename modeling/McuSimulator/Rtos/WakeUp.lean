import McuSimulator.Rtos.EventTable
import McuSimulator.Rtos.Kernel
import McuSimulator.Rtos.Mutex
import McuSimulator.Rtos.Semaphore

/-!
# Wake-ups of waiting tasks

A task inside `block_current` is meant to become `READY` by the `unblock` of the primitive it waits
at, and by nothing else. Three other paths reach the state field: `vTaskResume`, the deadline scans
of `tick` and of the discrete-event loop, which look at a `resume_tick` that suspending a delayed
task leaves behind, and a `check_waiters` that stands at an entry delivered already. A program that
resumes no task suspended inside `block_current`, enters it without a `resume_tick` and delivers no
entry twice (`WakeSafe`) takes none of them: every wake-up in its runs is the primitive's own, over
the whole API and in every order of scheduling.
-/

namespace McuSimulator.Rtos

open McuSimulator.Base

variable {α : Type}

/-! ### Programs -/

/-- `unlock` is called by owners only. -/
def UnlockByOwner (s : Sys α) : Act α → Prop
  | .call (.unlock m) => (s.mutex m).owner = s.me
  | _ => True

instance (s : Sys α) (a : Act α) : Decidable (UnlockByOwner s a) := by
  induction a using Act.casesOn with
  | call op =>
    induction op using Op.casesOn <;> first
      | exact .isTrue trivial
      | exact inferInstanceAs (Decidable (_ = _))
  | _ => exact .isTrue trivial

/-- Calls on the API by tasks, with `unlock` by the owner only. -/
def ApiCalls (s : Sys α) (a : Act α) : Prop := TasksOnly s a ∧ UnlockByOwner s a

instance (s : Sys α) (a : Act α) : Decidable (ApiCalls s a) :=
  inferInstanceAs (Decidable (_ ∧ _))

/-- The loop test at this point of `send`, `receive` or `wait_bits` goes into `block_current`. -/
def Sys.BlocksAt (s : Sys α) : Kont α → Prop
  | .sendTest q _ => (s.queue q).count = (s.queue q).cap
  | .recvTest q => (s.queue q).count = 0
  | .bitsTest e bits all _ => (s.events e).satisfied bits all = false
  | _ => False

instance (s : Sys α) (k : Kont α) : Decidable (s.BlocksAt k) := by
  induction k using Kont.casesOn <;> first
    | exact .isFalse id
    | exact inferInstanceAs (Decidable (_ = _))

/-- The step goes into `block_current`: the mutex is owned, no unit is left, or the test of a
waiting loop fails. -/
def Sys.Blocks (s : Sys α) : Act α → Prop
  | .call (.lock m) => (s.mutex m).owner ≠ invalidTask
  | .call (.take i) => ¬ 0 < (s.sem i).count
  | .resume => s.BlocksAt (s.kont s.me)
  | _ => False

instance (s : Sys α) (a : Act α) : Decidable (s.Blocks a) := by
  induction a using Act.casesOn with
  | call op =>
    induction op using Op.casesOn <;> first
      | exact .isFalse id
      | exact inferInstanceAs (Decidable (¬ _))
  | resume => exact inferInstanceAs (Decidable (s.BlocksAt _))
  | dispatch => exact .isFalse id

/-- Nobody goes into `block_current` with a deadline that an earlier `vTaskDelay` has left. -/
def NoStaleDeadline (s : Sys α) (a : Act α) : Prop :=
  s.Blocks a → (s.sched.tasks s.me).resumeTick = 0

/-- No task suspended inside `block_current` is resumed. -/
def NoWaiterResumed (s : Sys α) : Act α → Prop
  | .call (.vTaskResume t) => s.state t = .suspended → s.waitsOn t = none
  | _ => True

instance (s : Sys α) (a : Act α) : Decidable (NoWaiterResumed s a) := by
  induction a using Act.casesOn with
  | call op =>
    induction op using Op.casesOn <;> first
      | exact .isTrue trivial
      | exact inferInstanceAs (Decidable (_ → _))
  | _ => exact .isTrue trivial

/-- The step keeps deadlines and suspension apart from `block_current`, and delivers no entry of an
event group that another task is delivering. -/
structure WakeSafe (s : Sys α) (a : Act α) : Prop where
  deadline : NoStaleDeadline s a
  resumed : NoWaiterResumed s a
  table : TableSafe s a

instance [DecidableEq α] (s : Sys α) (a : Act α) : Decidable (WakeSafe s a) :=
  have : Decidable (NoStaleDeadline s a) := inferInstanceAs (Decidable (_ → _))
  decidable_of_iff (NoStaleDeadline s a ∧ NoWaiterResumed s a ∧ TableSafe s a)
    ⟨fun h ↦ ⟨h.1, h.2.1, h.2.2⟩, fun h ↦ ⟨h.deadline, h.resumed, h.table⟩⟩

/-- A program of tasks over the API whose steps are `WakeSafe`. -/
def WakeSafeCalls (s : Sys α) (a : Act α) : Prop := ApiCalls s a ∧ WakeSafe s a

instance [DecidableEq α] (s : Sys α) (a : Act α) : Decidable (WakeSafeCalls s a) :=
  inferInstanceAs (Decidable (_ ∧ _))

/-- A program whose `unlock` calls are the owner's keeps to that on each mutex. -/
theorem UnlockByOwner.ownerUnlocks {s : Sys α} {a : Act α} (h : UnlockByOwner s a) (m : Nat) :
    OwnerUnlocks m s a := by
  cases a with
  | call op =>
    cases op with
    | unlock m' =>
      rintro rfl
      exact h
    | _ => trivial
  | _ => trivial

/-! ### Deadlines -/

/-- A task that is not executing gets no deadline from a call. -/
theorem Served.no_deadline {s s' : Scheduler} {r : Request} {ph : Phase} (h : Served s r s' ph)
    {t : TaskHandle} (hlt : t < s.taskCount) (hne : t ≠ s.current)
    (hz : (s.tasks t).resumeTick = 0) : (s'.tasks t).resumeTick = 0 := by
  have hscan (ms : Nat) : ((s.scanned ms).tasks t).resumeTick = 0 := by
    rcases Scheduler.woken_wakeExpired
      { s with tickCount := (s.tickCount + ms) % 2 ^ 32 } t with hw | ⟨-, hw⟩
    · rw [Scheduler.scanned, hw]
      exact hz
    · rw [Scheduler.scanned, hw]
  cases h with
  | stay => exact hz
  | create p hroom =>
    rw [Scheduler.xTaskCreate_of_lt hroom, Scheduler.setTask_tasks_of_ne _ _ (Nat.ne_of_lt hlt)]
    exact hz
  | start hm hn => exact (Scheduler.resumeTick_setState ..).trans hz
  | leave _ b _ hm hb hp =>
    rw [Scheduler.setTask_tasks_of_ne _ _ hne]
    exact hz
  | suspend | delete | resume | wake => rwa [Scheduler.resumeTick_setState]
  | preempt => rwa [Scheduler.resumeTick_setState, Scheduler.resumeTick_setState]
  | scan ms hlow => exact hscan ms
  | scanPreempt ms hm => rw [Scheduler.resumeTick_setState, hscan ms]

/-- No task inside `block_current` has a deadline. -/
def Untimed (s : Sys α) : Prop := ∀ t, s.waitsOn t ≠ none → (s.sched.tasks t).resumeTick = 0

section Untimed

variable {D : Dispatcher} {s s' : Sys α} {a : Act α}

/-- Only a step that `Blocks` leaves its context inside `block_current`. -/
theorem Step.blocks (h : Step D s a s') (hs : SchedInv s) (hp : s.phase = .code) {p : Prim}
    (hk : s'.waitsOn s.me = some p) : s.Blocks a := by
  obtain ⟨k, hl, hk'⟩ := h.leads hs.fresh
  have hkp : k.waitsOn = some p := by rwa [Sys.waitsOn, hk', Function.update_self] at hk
  cases h with
  | @call op _ hu hi =>
    have huser : s.waitsOn s.me = none := by
      rw [Sys.waitsOn, hu.eq]
      rfl
    rcases hl.2 with rfl | he
    · cases hkp
    · cases op with
      | lock m =>
        intro ho
        rw [Sys.call, Sys.lock, if_pos ho] at hk
        exact absurd (huser.symm.trans hk) (by simp)
      | take i =>
        intro hc
        rw [Sys.call, Sys.take, if_pos hc] at hk
        exact absurd (huser.symm.trans hk) (by simp)
      | vTaskDelay | taskReturn | send | receive | setBits | waitBits =>
        cases he
        cases hkp
      | _ => exact he.elim
  | resume _ hr =>
    show s.BlocksAt (s.kont s.me)
    have hgoes : (s.kont s.me).Goes k := hl
    have huser : ∀ u : Sys α, u.kont = Function.update s.kont s.me .user →
        u.waitsOn s.me = none := by
      intro u hu
      rw [Sys.waitsOn, hu, Function.update_self]
      rfl
    cases hc : s.kont s.me with
    | sendTest q item =>
      refine Classical.byContradiction fun hn ↦ ?_
      have hroom : ¬ (s.queue q).count = (s.queue q).cap := hn
      rw [hc, Sys.resume, Sys.sendTest, if_neg hroom] at hk
      exact absurd ((huser _ (Sys.kont_enqueue _ _ _)).symm.trans hk) (by simp)
    | recvTest q =>
      refine Classical.byContradiction fun hn ↦ ?_
      have hitem : ¬ (s.queue q).count = 0 := hn
      rw [hc, Sys.resume, Sys.recvTest, if_neg hitem] at hk
      exact absurd ((huser _ (Sys.kont_dequeue _ _)).symm.trans hk) (by simp)
    | bitsTest e bits all clr =>
      refine Bool.eq_false_iff.mpr fun hsat ↦ ?_
      rw [hc, Sys.resume, Sys.bitsTest, if_pos hsat] at hk
      exact absurd ((huser _ (by dsimp only; split <;> rfl)).symm.trans hk) (by simp)
    | checkTest e i =>
      rw [hc] at hgoes
      rcases hgoes with rfl | rfl | rfl <;> cases hkp
    | _ =>
      rw [hc] at hgoes
      cases hgoes
      cases hkp
  | dispatch hne hd => exact absurd hp hne

/-- No step gives a task inside `block_current` a deadline. -/
theorem Untimed.step (h : Untimed s) (hs : SchedInv s) (hg : NoStaleDeadline s a)
    (hst : Step D s a s') (he : Effect D s a s') : Untimed s' := by
  intro t ht
  cases he with
  | quiet k hby hk hss hp hlog hl =>
    obtain ⟨p, hwt⟩ := Option.ne_none_iff_exists'.mp ht
    rw [hss]
    exact h t (by rw [(hby.ne_me hk hwt).2]; simp)
  | block p k hobj hby hk hss hp hlog hl =>
    rw [hss, Scheduler.resumeTick_setState]
    by_cases htm : t = s.me
    · rw [htm]
      exact hg (hst.blocks hs hby.phase (hby.waitsOn_me.trans hk))
    · rw [hby.waitsOn_of_ne htm] at ht
      exact h t ht
  | wake p w i k hobj hby hk hss hp hi hwk hlog hl =>
    obtain ⟨p', hwt⟩ := Option.ne_none_iff_exists'.mp ht
    obtain ⟨htm, hwt⟩ := hby.ne_me hk hwt
    rw [hss]
    exact (s.served_unblock w).no_deadline (hs.lt_of_waitsOn hwt) htm (h t (by rw [hwt]; simp))
  | api op ha hop hp hi hu he =>
    subst he
    rw [(api_frame hs hop hu).2.2 t] at ht
    obtain ⟨p, hwt⟩ := Option.ne_none_iff_exists'.mp ht
    have htm : t ≠ s.me := by
      rintro rfl
      rw [Sys.waitsOn, hu] at hwt
      cases hwt
    exact (Sys.served_call hp hs.taskCount_le op hi).no_deadline (hs.lt_of_waitsOn hwt) htm (h t ht)
  | dispatch ha hp sched hd he =>
    subst he
    have hz := h t ht
    rcases (D.sound _ _ _ hd).task_cases t with (hw | ⟨-, hw⟩) | ⟨-, -, b, hw | ⟨-, hw⟩, -, hrun⟩
    · rw [hw, hz]
    · rw [hw]
    · rw [hrun, hw, hz]
    · rw [hrun, hw]

/-- A deadline scan takes no task inside `block_current`. -/
theorem Untimed.not_timed (h : Untimed s) {t : TaskHandle} (ht : s.waitsOn t ≠ none) :
    ¬ Scheduler.Timed (s.sched.tasks t) := fun htimed ↦
  Nat.ne_of_gt htimed.2 (h t ht)

end Untimed

/-! ### Wake-ups -/

/-- If the step makes a task inside `block_current` `READY` or runs it, then the task was `BLOCKED`
and the step is the `unblock` that the primitive it waits at calls for it. -/
def WokenByUnblock (s s' : Sys α) : Prop :=
  ∀ t p, s.waitsOn t = some p → s.state t ≠ .ready → s.state t ≠ .running →
    s'.state t = .ready ∨ s'.state t = .running →
    s.state t = .blocked ∧ s'.sched = (s.sched.unblock t).1 ∧
      ∃ l, s'.log = .unblock p t :: l ∧ QuietExt s.log l

section Woken

variable {D : Dispatcher} {s s' : Sys α} {a : Act α}

/-- A scheduler call wakes no task inside `block_current`. -/
theorem Untimed.idle_api (h : Untimed s) (hs : SchedInv s) {op : Op α} (ho : op.IsSched)
    (hu : s.kont s.me = .user) (hg : NoWaiterResumed s (.call op)) {t : TaskHandle}
    (ht : s.waitsOn t ≠ none) (hr : s.state t ≠ .ready) (hrun : s.state t ≠ .running) :
    (s.call op).state t ≠ .ready ∧ (s.call op).state t ≠ .running := by
  have hst := api_state hs ho hu ht
  generalize (s.call op).state t = st at hst
  cases hst with
  | same => exact ⟨hr, hrun⟩
  | suspended => simp
  | deleted => simp
  | resumed hop hsus =>
    rw [hop] at hg
    exact absurd (hg hsus) ht
  | expired ms hop htimed => exact absurd htimed (h.not_timed ht)
  | started hready => exact absurd hready hr

/-- Nor does a dispatch. -/
theorem Untimed.idle_dispatch (h : Untimed s) {sched : Scheduler}
    (hd : Scheduler.Dispatches s.sched sched) {t : TaskHandle} (ht : s.waitsOn t ≠ none)
    (hr : s.state t ≠ .ready) : (sched.tasks t).state = s.state t := by
  have hwoken : ∀ b, Scheduler.Woken (s.sched.tasks t) b → b = s.sched.tasks t := by
    rintro b (hb | ⟨htimed, -⟩)
    · exact hb
    · exact absurd htimed (h.not_timed ht)
  rcases hd.task_cases t with hw | ⟨-, -, b, hb, hready, -⟩
  · rw [hwoken _ hw]
    rfl
  · rw [hwoken b hb] at hready
    exact absurd hready hr

/-- Every step that is safe wakes a waiting task by its `unblock` only. -/
theorem Untimed.woken (h : Untimed s) (hs : SchedInv s) (hw : WaitInv s) (hg : NoWaiterResumed s a)
    (ha : Addressed s a) (he : Effect D s a s') : WokenByUnblock s s' := by
  intro t p hwt hr hrun hgo
  have ht : s.waitsOn t ≠ none := by
    rw [hwt]
    simp
  cases he with
  | quiet k hby hk hss hp hlog hl =>
    rw [Sys.state, hss] at hgo
    exact (hgo.elim hr hrun).elim
  | block p' k hobj hby hk hss hp hlog hl =>
    rw [Sys.state, hss, state_setState] at hgo
    split at hgo
    · simp at hgo
    · exact (hgo.elim hr hrun).elim
  | wake p' w i k hobj hby hk hss hp hi hwk hlog hl =>
    obtain ⟨l, hlq, -, hlog⟩ := hlog
    have htm : t ≠ s.me := by
      rintro rfl
      exact hrun (hs.running_me hby.phase hby.task)
    rw [Sys.state, hss] at hgo
    by_cases htw : t = w ∧ s.state w = .blocked
    · obtain ⟨rfl, hb⟩ := htw
      have hp' : p = p' := Option.some.inj (hwt.symm.trans (hw.waitsOn_of_wake hi hwk ha hb))
      exact ⟨hb, hss, l, by rw [hlog, hp'], hlq⟩
    · rw [state_unblock_other s.sched (fun hc hb ↦ htw ⟨hc, hb⟩) fun hc ↦ absurd hc htm] at hgo
      exact (hgo.elim hr hrun).elim
  | api op ha hop hp hi hu he =>
    rw [ha] at hg
    rw [he] at hgo
    obtain ⟨hnr, hnrun⟩ := h.idle_api hs hop hu hg ht hr hrun
    exact (hgo.elim hnr hnrun).elim
  | dispatch ha hp sched hd he =>
    have hst : s'.state t = s.state t := by
      rw [he]
      exact h.idle_dispatch (D.sound _ _ _ hd) ht hr
    rw [hst] at hgo
    exact (hgo.elim hr hrun).elim

end Woken

/-! ### Units handed over -/

/-- Since it last blocked, the task has been handed a unit of the semaphore. -/
def Given (i : Nat) (t : TaskHandle) : List (Event α) → Prop
  | [] => False
  | .handedOff i' t' :: es => (i' = i ∧ t' = t) ∨ Given i t es
  | .blocked _ t' :: es => t' ≠ t ∧ Given i t es
  | _ :: es => Given i t es

instance decidableGiven (i : Nat) (t : TaskHandle) :
    (l : List (Event α)) → Decidable (Given i t l)
  | [] => .isFalse id
  | x :: es =>
    have := decidableGiven i t es
    match x with
    | .handedOff _ _ => inferInstanceAs (Decidable ((_ ∧ _) ∨ _))
    | .blocked _ _ => inferInstanceAs (Decidable (_ ∧ _))
    | .unblock _ _ | .acquired _ _ | .unlocked _ _ | .gave _ _ _ | .took _ _ | .enqueued _ _
    | .dequeued _ _ | .sendRefused _ | .receiveRefused _ | .bitsReturned _ _ _ => this

private theorem Given.of_quietExt {i : Nat} {t : TaskHandle} {l l' : List (Event α)}
    (h : Given i t l) (hl : QuietExt l l') : Given i t l' := by
  obtain ⟨es, hes, rfl⟩ := hl
  induction es with
  | nil => exact h
  | cons x es ih =>
    have hrest := ih fun y hy ↦ hes y (List.mem_cons_of_mem _ hy)
    have hx := hes x List.mem_cons_self
    cases x with
    | blocked p u => exact hx.elim
    | handedOff i' u => exact .inr hrest
    | _ => exact hrest

/-- Whoever `give` unblocks has been handed a unit. -/
def GivenInv (s : Sys α) : Prop := ∀ i t, Released (.sem i) t s.log → Given i t s.log

private theorem GivenInv.step {D : Dispatcher} {s s' : Sys α} {a : Act α} (h : GivenInv s)
    (hs : SchedInv s) (he : Effect D s a s') : GivenInv s' := by
  cases he with
  | quiet k ht hk hss hp hlog hl =>
    intro i t hr
    exact (h i t (hlog.released.mp hr)).of_quietExt hlog
  | block p k hobj ht hk hss hp hlog hl =>
    rw [GivenInv, hlog]
    rintro i t ⟨hne, hr⟩
    exact ⟨hne, h i t hr⟩
  | wake p w i k hobj ht hk hss hp hi hwk hlog hl =>
    obtain ⟨l, hlq, hhead, hlog⟩ := hlog
    rw [GivenInv, hlog]
    rintro n t (⟨rfl, rfl⟩ | hr)
    · obtain ⟨es, rfl⟩ : ∃ es, l = .handedOff n w :: es := by
        cases l with
        | nil => cases hhead n rfl
        | cons x es => exact ⟨es, by rw [Option.some.inj (hhead n rfl)]⟩
      exact .inl ⟨rfl, rfl⟩
    · have hg : Given n t l := (h n t (hlq.released.mp hr)).of_quietExt hlq
      exact hg
  | api op ha hop hp hi hu he =>
    rw [GivenInv, he, (api_frame hs hop hu).1]
    exact h
  | dispatch ha hp sched hd he =>
    rw [he]
    exact h

/-! ### Wake-up integrity -/

/-- A task inside `block_current` that may run has been unblocked by the primitive it waits
at; inside `take`, a unit has been handed to it; inside `lock`, it is the recorded owner. -/
structure WakeUpIntegrity (s : Sys α) : Prop where
  released : ∀ t p, s.waitsOn t = some p → s.state t = .ready ∨ s.state t = .running →
    Released p t s.log
  given : ∀ t i, s.kont t = .takeWait i → s.state t = .ready ∨ s.state t = .running →
    Given i t s.log
  owner : ∀ t m, s.kont t = .lockWait m → s.state t = .ready ∨ s.state t = .running →
    (s.mutex m).owner = t

/-- The invariants behind it. -/
structure WakeUpInv (s : Sys α) : Prop where
  sched : SchedInv s
  wait : WaitInv s
  untimed : Untimed s
  given : GivenInv s
  handOff : ∀ m, HandOff m s
  table : ∀ e, EventInv e s

section WakeUpInv

variable {D : Dispatcher} {s s' : Sys α} {a : Act α}

/-- Where the tables are right, a safe step acts on the entries of their own waiters. -/
theorem WakeUpInv.addressed (h : WakeUpInv s) (hg : WakeSafe s a) : Addressed s a :=
  addressed_of_tableSafe h.table h.sched hg.table

/-- Every safe step keeps the invariants. -/
theorem WakeUpInv.step (h : WakeUpInv s) (hg : WakeSafeCalls s a) (hst : Step D s a s') :
    WakeUpInv s' := by
  have he := hst.effect h.sched.outside hg.1.1
  have hwait : WaitInv s' := by
    refine h.wait.step h.sched he (h.addressed hg.2).ownGroup ?_ ?_
    · rintro op rfl ho
      cases hst with
      | call hp hk hi =>
        intro p t howed
        obtain ⟨hr, hrun⟩ := h.wait.idle p t howed
        exact h.untimed.idle_api h.sched ho hk.eq hg.2.resumed (by rw [howed.1]; simp) hr hrun
    · rintro rfl
      cases hst with
      | dispatch hp hd =>
        intro p t howed
        obtain ⟨hr, hrun⟩ := h.wait.idle p t howed
        rw [Sys.state, h.untimed.idle_dispatch (D.sound _ _ _ hd) (by rw [howed.1]; simp) hr]
        exact ⟨hr, hrun⟩
  exact ⟨h.sched.step he, hwait, h.untimed.step h.sched hg.2.deadline hst he,
    h.given.step h.sched he,
    fun m ↦ (h.handOff m).step h.sched h.wait (hst.mutexStep h.sched hg.1.1 m)
      (hg.1.2.ownerUnlocks m),
    fun e ↦ (h.table e).step h.sched h.wait (hst.eventStep h.sched h.wait hg.1.1 e) hg.2.table⟩

/-- A waiting task that may run is not owed a wake-up. -/
theorem WaitInv.not_owed_of_state (h : WaitInv s) {p : Prim} {t : TaskHandle}
    (ht : s.state t = .ready ∨ s.state t = .running) : ¬ s.Owed p t := fun ho ↦
  ht.elim (h.idle p t ho).1 (h.idle p t ho).2

/-- The invariants give what a caller sees. -/
theorem WakeUpInv.integrity (h : WakeUpInv s) : WakeUpIntegrity s := by
  have hrel : ∀ t p, s.waitsOn t = some p → s.state t = .ready ∨ s.state t = .running →
      Released p t s.log := fun t p hp ht ↦
    Classical.byContradiction fun hr ↦ h.wait.not_owed_of_state ht ⟨hp, hr⟩
  refine ⟨hrel, fun t i hk ht ↦ ?_, fun t m hk ht ↦ ?_⟩
  · exact h.given i t (hrel t (.sem i) (by rw [Sys.waitsOn, hk]; rfl) ht)
  · refine h.handOff m t ⟨hk, fun hmem ↦ ?_⟩
    exact h.wait.not_owed_of_state ht ((h.wait.mem_iff (.mutex m) t rfl).mp hmem)

/-- What a step that returns from `lock` or takes a unit from the count leaves behind. -/
structure ReturnIntegrity (s s' : Sys α) : Prop where
  lock : ∀ m t, s'.log = .acquired m t :: s.log → (s'.mutex m).owner = t
  take : ∀ i t, s'.log = .took i t :: s.log →
    0 < (s.sem i).count ∧ (s'.sem i).count = (s.sem i).count - 1

/-- A log that grew by events about other objects did not grow by this one. -/
private theorem obj_of_log {es l : List (Event α)} {x : Event α} {o : Obj}
    (hes : ∀ y ∈ es, y.obj ≠ o) (h : es ++ l = x :: l) : x.obj ≠ o := by
  have hx : es = [x] := List.append_cancel_right (show es ++ l = [x] ++ l from h)
  exact hes x (by simp [hx])

/-- `lock` returns to the owner, and `take` returns at once only if there was a unit. -/
theorem WakeUpInv.returns (h : WakeUpInv s) (hg : TasksOnly s a) (hst : Step D s a s') :
    ReturnIntegrity s s' := by
  refine ⟨fun m t hlog ↦ ?_, fun i t hlog ↦ ?_⟩
  · cases hst.mutexStep h.sched hg m with
    | frame hm hk hl =>
      obtain ⟨es, he, hes⟩ := hl
      exact absurd rfl (obj_of_log hes (he.symm.trans hlog))
    | acquire hme hu ho hm hk hl =>
      rw [hlog] at hl
      cases hl
      rw [hm]
    | enter hp hme hl hm hk hl' =>
      rw [hlog] at hl'
      cases hl'
      rw [hm]
      refine h.handOff m s.me ⟨hl, fun hmem ↦ ?_⟩
      have ho := (h.wait.mem_iff (.mutex m) s.me rfl).mp hmem
      exact h.wait.not_owed_me h.sched hp hme (.mutex m) ho
    | wait ha hp hme ho hm hk hl | handOff ha hu j w hi hw hm hk hl
    | release ha hu hw hm hk hl =>
      rw [hlog] at hl
      cases hl
  · cases hst.semStep hg i with
    | frame hm hl =>
      obtain ⟨es, he, hes⟩ := hl
      exact absurd rfl (obj_of_log hes (he.symm.trans hlog))
    | take hc hm hl => exact ⟨hc, by rw [hm]⟩
    | wait hc hm hl | handOff hw b w hm hl | add hw hc hm hl | saturate hw hc hm hl =>
      rw [hlog] at hl
      cases hl

end WakeUpInv

/-- The invariants hold in every run of such a program, in every order of scheduling. -/
theorem wakeUpInv_of_reach [Inhabited α] {D : Dispatcher} {s : Sys α}
    (h : Reach IsInit WakeSafeCalls (Step D) s) : WakeUpInv s := by
  have hstart : ∀ s : Sys α, IsInit s → WakeUpInv s := by
    rintro s ⟨cfg, rfl⟩
    refine ⟨.init cfg, .init cfg, fun t _ ↦ rfl, fun i t hr ↦ hr.elim, fun m t ht ↦ ?_,
      fun e ↦ .init cfg⟩
    cases ht.1
  exact h.invariant hstart fun s a t hi hg hst ↦ hi.step hg hst

/-- A task inside `block_current` becomes `READY` only by the `unblock` of the primitive it waits
at, and what `lock` and `take` return has been given. -/
theorem wakeUp_integrity [Inhabited α] (D : Dispatcher) (s : Sys α)
    (h : Reach IsInit WakeSafeCalls (Step D) s) :
    WakeUpIntegrity s ∧
      (∀ a s', WakeSafeCalls s a → Step D s a s' → WokenByUnblock s s') ∧
      ∀ a s', ApiCalls s a → Step D s a s' → ReturnIntegrity s s' := by
  have hi := wakeUpInv_of_reach h
  refine ⟨hi.integrity, fun a s' hg hst ↦ ?_, fun a s' hg hst ↦ hi.returns hg.1 hst⟩
  exact hi.untimed.woken hi.sched hi.wait hg.2.resumed (hi.addressed hg.2)
    (hst.effect hi.sched.outside hg.1.1)

/-- A task waits for a unit, and a task of lower priority goes on. -/
def waitingRun : List (Act Unit) :=
  [.call (.xTaskCreate 1), .call (.xTaskCreate 2), .call .vTaskStartScheduler,
    .call (.take 0), .dispatch]

private theorem waitingRun_isSome : (runActs Sys.exec waitingRun (.init {})).isSome = true := by
  decide +kernel

/-- The state in which one task waits. -/
def waitingEnd : Sys Unit := (runActs Sys.exec waitingRun (.init {})).get waitingRun_isSome

/-- It is handed a unit: the `give` unblocks it, and it preempts the giver. -/
theorem wakeUp_integrity_handed :
    (waitingEnd.waitsOn 0 = some (.sem 0) ∧ waitingEnd.state 0 = .blocked ∧
      (waitingEnd.call (.give 0)).state 0 = .ready) ∧
      WokenByUnblock waitingEnd (waitingEnd.call (.give 0)) := by
  refine ⟨by decide +kernel, ?_⟩
  have hreach : Reach IsInit WakeSafeCalls (Step .code) waitingEnd :=
    Reach.of_guardedRun Step.of_exec waitingRun ⟨{}, rfl⟩ (by decide +kernel) waitingRun_isSome
  exact (wakeUp_integrity .code waitingEnd hreach).2.1 (.call (.give 0)) _ (by decide +kernel)
    (.call (by decide +kernel) (by decide +kernel) trivial)

/-- A task is suspended inside `vTaskDelay` and resumed before its time, so that its
`resume_tick` stays; it then waits in `take`, and the clock is about to reach that tick. -/
def staleDeadlineRun : List (Act Unit) :=
  [.call (.xTaskCreate 1), .call (.xTaskCreate 2), .call .vTaskStartScheduler,
    .call (.vTaskDelay 5), .dispatch, .call (.vTaskSuspend 0), .call (.vTaskResume 0),
    .call (.vTaskDelay 0), .dispatch, .resume, .call (.take 0), .dispatch,
    .call (.vTaskDelay 10)]

private theorem staleDeadlineRun_isSome :
    (runActs Sys.exec staleDeadlineRun (.init {})).isSome = true := by
  decide +kernel

/-- The state before the dispatch that reaches the tick. -/
def staleDeadlineEnd : Sys Unit :=
  (runActs Sys.exec staleDeadlineRun (.init {})).get staleDeadlineRun_isSome

private theorem staleDeadlineEnd_reach : Reach IsInit ApiCalls (Step .code) staleDeadlineEnd :=
  Reach.of_guardedRun Step.of_exec staleDeadlineRun ⟨{}, rfl⟩ (by decide +kernel)
    staleDeadlineRun_isSome

private theorem staleDeadlineEnd_dispatches : (staleDeadlineEnd.exec .dispatch).isSome = true := by
  decide +kernel

/-- The state at the return of `take`. -/
def staleDeadlineNext : Sys Unit :=
  (staleDeadlineEnd.exec .dispatch).get staleDeadlineEnd_dispatches

/-- The dispatch runs the task inside `take`; nobody has given anything or called `unblock`. -/
theorem stale_deadline_wakes :
    (staleDeadlineEnd.waitsOn 0 = some (.sem 0) ∧ staleDeadlineEnd.state 0 = .blocked ∧
      staleDeadlineNext.state 0 = .running ∧ ¬ Given 0 0 staleDeadlineNext.log) ∧
      ¬ ∀ s : Sys Unit, Reach IsInit ApiCalls (Step .code) s →
        WakeUpIntegrity s ∧ ∀ a s', ApiCalls s a → Step .code s a s' → WokenByUnblock s s' := by
  have hend : staleDeadlineEnd.waitsOn 0 = some (.sem 0) ∧ staleDeadlineEnd.state 0 = .blocked ∧
      staleDeadlineNext.state 0 = .running ∧ ¬ Given 0 0 staleDeadlineNext.log := by
    decide +kernel
  refine ⟨hend, fun h ↦ ?_⟩
  obtain ⟨hk, hb, hrun, -⟩ := hend
  have hst : Step .code staleDeadlineEnd .dispatch staleDeadlineNext :=
    .of_exec _ _ _ (Option.some_get staleDeadlineEnd_dispatches).symm
  have hwoken := (h staleDeadlineEnd staleDeadlineEnd_reach).2 .dispatch staleDeadlineNext
    ⟨trivial, trivial⟩ hst
  obtain ⟨-, -, l, hl, hext⟩ := hwoken 0 (.sem 0) hk (by rw [hb]; simp) (by rw [hb]; simp)
    (.inr hrun)
  have hsame : staleDeadlineNext.log = staleDeadlineEnd.log := by
    cases hst
    rfl
  obtain ⟨es, -, rfl⟩ := hext
  have hlen := congrArg List.length (hl.symm.trans hsame)
  rw [List.length_cons, List.length_append] at hlen
  omega

end McuSimulator.Rtos
