import McuSimulator.Rtos.Frame
import McuSimulator.Rtos.WaitInvariant

/-!
# Programs that leave waiting tasks alone

A program is disciplined if only tasks use the primitives, nobody calls `unblock` directly,
and no task is suspended or deleted inside a call that waits. In its runs a deadline belongs
to a task inside `vTaskDelay` (`Undisturbed`), so no deadline scan and no `vTaskResume`
wakes a task waiting at a primitive, and the invariants of waiting hold throughout.
-/

namespace McuSimulator.Rtos

open McuSimulator.Base

variable {α : Type}

/-- Inside a call that waits: `vTaskDelay`, `lock`, `take`, `send`, `receive` or
`wait_bits`. -/
def Kont.Waiting : Kont α → Prop
  | .user | .exited | .checkTest _ _ | .checkCompact _ _ => False
  | _ => True

instance (k : Kont α) : Decidable k.Waiting := by
  induction k using Kont.casesOn <;> first | exact .isTrue trivial | exact .isFalse id

/-- A context that waits on a primitive is inside a call that waits. -/
theorem Kont.waiting_of_waitsOn {k : Kont α} {p : Prim} (h : k.waitsOn = some p) :
    k.Waiting := by
  cases k <;> trivial

/-- No task is suspended or deleted inside a call that waits. -/
def NoInterference (s : Sys α) : Act α → Prop
  | .call (.vTaskSuspend t) | .call (.vTaskDelete t) => ¬ (s.kont t).Waiting
  | _ => True

instance (s : Sys α) (a : Act α) : Decidable (NoInterference s a) := by
  induction a using Act.casesOn with
  | call op =>
    induction op using Op.casesOn <;> first
      | exact .isTrue trivial
      | exact inferInstanceAs (Decidable (¬ _))
  | _ => exact .isTrue trivial

/-- Deadlines belong to tasks inside `vTaskDelay`, and waiting tasks are not stopped. -/
structure Undisturbed (s : Sys α) : Prop where
  timed : ∀ t, (s.sched.tasks t).resumeTick ≠ 0 → s.kont t = .delayed ∧ s.state t = .blocked
  live : ∀ t, (s.kont t).Waiting → s.state t ≠ .suspended ∧ s.state t ≠ .deleted

section Step

variable {D : Dispatcher} {s s' : Sys α}

/-- A task that is not inside `vTaskDelay` has no deadline. -/
theorem Undisturbed.no_deadline (h : Undisturbed s) {t : TaskHandle} (ht : s.kont t ≠ .delayed) :
    (s.sched.tasks t).resumeTick = 0 :=
  Classical.byContradiction fun hr ↦ ht (h.timed t hr).1

/-- A task that is not `BLOCKED` has no deadline. -/
theorem Undisturbed.no_deadline_of_state (h : Undisturbed s) {t : TaskHandle}
    (ht : s.state t ≠ .blocked) : (s.sched.tasks t).resumeTick = 0 :=
  Classical.byContradiction fun hr ↦ ht (h.timed t hr).2

private theorem Undisturbed.not_timed (h : Undisturbed s) {t : TaskHandle} {p : Prim}
    (ht : s.waitsOn t = some p) : ¬ Scheduler.Timed (s.sched.tasks t) := by
  rintro ⟨-, hpos⟩
  have hk : s.kont t ≠ .delayed := by
    intro hk
    rw [Sys.waitsOn, hk] at ht
    cases ht
  rw [h.no_deadline hk] at hpos
  exact Nat.lt_irrefl 0 hpos

/-- The scheduler calls of an undisturbed state wake no task waiting at a primitive. -/
theorem Undisturbed.spared_api (h : Undisturbed s) (hs : SchedInv s) (hw : WaitInv s)
    {op : Op α} (ho : op.IsSched) (hu : s.kont s.me = .user) : Spared s (s.call op) := by
  intro p t howed
  have hst := api_state hs ho hu (t := t) (by rw [howed.1]; simp)
  have hidle := hw.idle p t howed
  have hlive := h.live t (Kont.waiting_of_waitsOn howed.1)
  generalize (s.call op).state t = st at hst
  cases hst with
  | same => exact hidle
  | suspended => simp
  | deleted => simp
  | resumed _ hsus => exact absurd hsus hlive.1
  | expired ms _ ht => exact absurd ht (h.not_timed howed.1)
  | started hr => exact absurd hr hidle.1

/-- Nor does a dispatch. -/
theorem Undisturbed.spared_dispatch (h : Undisturbed s) (hw : WaitInv s) {sched : Scheduler}
    (hd : Scheduler.Dispatches s.sched sched) :
    Spared s { s with sched := sched, phase := .code } := by
  intro p t howed
  have hidle := hw.idle p t howed
  have hwoken : ∀ b, Scheduler.Woken (s.sched.tasks t) b → b = s.sched.tasks t := by
    rintro b (hb | ⟨ht, -⟩)
    · exact hb
    · exact absurd ht (h.not_timed howed.1)
  rcases hd.task_cases t with hw | ⟨-, -, b, hb, hr, -⟩
  · rw [Sys.state, hwoken _ hw]
    exact hidle
  · rw [hwoken b hb] at hr
    exact absurd hr hidle.1

/-- A change of one control block and of the executing context. -/
private theorem Undisturbed.set (h : Undisturbed s) {t : TaskHandle} {b : Tcb} {k : Kont α}
    (hs : s'.sched = s.sched.setTask t b) (hk : s'.kont = Function.update s.kont t k)
    (ht : b.resumeTick ≠ 0 → k = .delayed ∧ b.state = .blocked)
    (hl : k.Waiting → b.state ≠ .suspended ∧ b.state ≠ .deleted) : Undisturbed s' := by
  refine ⟨fun u ↦ ?_, fun u ↦ ?_⟩
  · rw [Sys.state, hs, hk]
    by_cases hu : u = t
    · rw [hu, Scheduler.setTask_tasks_self, Function.update_self]
      exact ht
    · rw [Scheduler.setTask_tasks_of_ne _ _ hu, Function.update_of_ne hu]
      exact h.timed u
  · rw [Sys.state, hs, hk]
    by_cases hu : u = t
    · rw [hu, Scheduler.setTask_tasks_self, Function.update_self]
      exact hl
    · rw [Scheduler.setTask_tasks_of_ne _ _ hu, Function.update_of_ne hu]
      exact h.live u

/-- A task without a deadline changes to a state of the table that is not a stop. -/
private theorem Undisturbed.setState (h : Undisturbed s) {t : TaskHandle} {x : TaskState}
    (hs : s'.sched = s.sched.setState t x) (hk : s'.kont = s.kont)
    (hr : (s.sched.tasks t).resumeTick = 0)
    (hl : (s.kont t).Waiting → x ≠ .suspended ∧ x ≠ .deleted) : Undisturbed s' := by
  refine h.set hs (k := s.kont t) ?_ (fun hne ↦ absurd hr hne) hl
  rw [hk, Function.update_eq_self]

/-- A deadline scan clears what it expires. -/
private theorem Undisturbed.woken (h : Undisturbed s) (hk : s'.kont = s.kont)
    (hw : ∀ t, Scheduler.Woken (s.sched.tasks t) (s'.sched.tasks t)) : Undisturbed s' := by
  refine ⟨fun t ht ↦ ?_, fun t ht ↦ ?_⟩
  · rw [hk, Sys.state]
    rcases hw t with he | ⟨-, he⟩
    · rw [he] at ht ⊢
      exact h.timed t ht
    · rw [he] at ht
      exact absurd rfl ht
  · rw [hk] at ht
    rw [Sys.state]
    rcases hw t with he | ⟨-, he⟩
    · rw [he]
      exact h.live t ht
    · rw [he]
      simp

/-- Scheduler calls of disciplined programs leave deadlines to delayed tasks. -/
theorem Undisturbed.api (h : Undisturbed s) (hs : SchedInv s) {op : Op α} (ho : op.IsSched)
    (hp : s.phase = .code) (hi : s.Issues op) (hg : NoInterference s (.call op)) :
    Undisturbed (s.call op) := by
  have hme : s.me ≠ invalidTask → (s.sched.tasks s.me).resumeTick = 0 := fun hm ↦
    h.no_deadline_of_state (by rw [hs.running_me hp hm]; simp)
  cases op with
  | xTaskCreate p =>
    simp only [Sys.call, Sys.xTaskCreate]
    split
    · exact h
    · next hlt =>
      refine Undisturbed.set (s := { s with
        sched := { s.sched with taskCount := s.sched.taskCount + 1 } }) ⟨h.timed, h.live⟩
        (t := s.sched.taskCount) (b := { priority := p, state := .ready, resumeTick := 0 })
        (k := .user) ?_ rfl (fun hr ↦ absurd rfl hr) ?_
      · rw [Scheduler.xTaskCreate_of_lt (Nat.lt_of_not_le hlt)]
      · exact fun hk ↦ hk.elim
  | vTaskStartScheduler =>
    simp only [Sys.call, Sys.vTaskStartScheduler]
    split
    · exact h
    · next hn =>
      have hr := (s.sched.selectNext_ready hn).2
      refine Undisturbed.setState (s := { s with
        sched := { s.sched with current := s.sched.selectNext } }) ⟨h.timed, h.live⟩ rfl rfl
        ?_ (by simp)
      exact h.no_deadline_of_state (by rw [Sys.state, hr]; simp)
  | vTaskDelay n =>
    simp only [Sys.call, Sys.vTaskDelay]
    split
    · exact h
    · next hm =>
      split
      · exact h.setState (t := s.me) (x := .ready) rfl rfl (hme hm) (by simp)
      · exact h.set (t := s.me) (k := .delayed) rfl rfl (fun _ ↦ ⟨rfl, rfl⟩) (by simp)
  | vTaskSuspend t =>
    simp only [Sys.call, Sys.vTaskSuspend]
    split
    · exact h
    · refine h.setState (t := t) (x := .suspended) rfl rfl ?_ (fun hk ↦ absurd hk hg)
      exact h.no_deadline fun hk ↦ hg (by rw [hk]; trivial)
  | vTaskDelete t =>
    simp only [Sys.call, Sys.vTaskDelete]
    split
    · exact h
    · refine h.setState (t := t) (x := .deleted) rfl rfl ?_ (fun hk ↦ absurd hk hg)
      exact h.no_deadline fun hk ↦ hg (by rw [hk]; trivial)
  | vTaskResume t =>
    simp only [Sys.call, Sys.vTaskResume]
    split
    · exact h
    · split
      · next hsus =>
        refine h.setState (t := t) (x := .ready) rfl rfl ?_ (by simp)
        exact h.no_deadline_of_state (by rw [Sys.state, hsus]; simp)
      · exact h
  | tick ms =>
    obtain ⟨u, rfl, hu⟩ := s.sched.tick_cases ms
    have hscan : Undisturbed { s with sched :=
        { s.sched with tickCount := (s.sched.tickCount + ms) % 2 ^ 32 }.wakeExpired } :=
      h.woken rfl fun t ↦ Scheduler.woken_wakeExpired { s.sched with tickCount := _ } t
    rcases hu with he | ⟨hm, he⟩
    · rw [Sys.call, he]
      exact hscan.woken rfl fun t ↦ .refl _
    · rw [Sys.call, he]
      refine hscan.setState (t := s.me) (x := .ready) rfl rfl ?_ (by simp)
      refine hscan.no_deadline_of_state fun hb ↦ ?_
      have hr := hs.running_me hp hm
      rcases woken_state (Scheduler.woken_wakeExpired { s.sched with
        tickCount := (s.sched.tickCount + ms) % 2 ^ 32 } s.me) with hw | hw
      · rw [Sys.state, hw] at hb
        exact absurd (hb.symm.trans hr) (by simp)
      · rw [Sys.state, hw] at hb
        cases hb
  | taskReturn =>
    exact h.set (t := s.me) (k := .exited) rfl rfl (fun hr ↦ absurd (hme hi) hr)
      (fun hk ↦ hk.elim)
  | _ => exact ho.elim

/-- An entry that `check_waiters` is about to act on is that of a task waiting in this
group, if the task is `BLOCKED` at all. -/
def Addressed (s : Sys α) (a : Act α) : Prop :=
  a = .resume → ∀ e i, s.kont s.me = .checkTest e i → i < (s.events e).waitCount →
    (s.events e).satisfiedAt i = true → s.state ((s.events e).waiters i).task = .blocked →
    s.waitsOn ((s.events e).waiters i).task = some (.events e)

/-- A task that waits in the group is not blocked at another primitive. -/
theorem Addressed.ownGroup {a : Act α} (h : Addressed s a) : OwnGroup s a := by
  intro ha e i hk hi hsat hb p hp
  exact Option.some.inj (hp.symm.trans (h ha e i hk hi hsat hb))

/-- A `BLOCKED` task that a primitive is about to unblock waits there. -/
theorem WaitInv.waitsOn_of_wake (hw : WaitInv s) {a : Act α} {p : Prim} {w : TaskHandle}
    {i : Nat} (hi : p.isList → (s.waitList p)[i]? = some w) (hd : s.Delivers a p w)
    (ha : Addressed s a) (hb : s.state w = .blocked) : s.waitsOn w = some p := by
  cases p with
  | events e =>
    obtain ⟨i, hres, hk, hlt, hsat, rfl⟩ := hd e rfl
    exact ha hres e i hk hlt hsat hb
  | _ => exact (hw.owed_of_mem (List.mem_of_getElem? (hi rfl))).1

/-- Every step of a disciplined program leaves deadlines to delayed tasks. -/
theorem Undisturbed.step (h : Undisturbed s) (hs : SchedInv s) (hw : WaitInv s) {a : Act α}
    (he : Effect D s a s') (hg : NoInterference s a) (had : Addressed s a) :
    Undisturbed s' := by
  cases he with
  | quiet k ht hk hss hp hlog hl =>
    have hr := hs.running_me ht.phase ht.task
    refine h.set (t := s.me) (b := s.sched.tasks s.me) (k := k) ?_ ht.kont (fun hne ↦ ?_)
      fun _ ↦ ?_
    · rw [hss, Scheduler.setTask, Function.update_eq_self]
    · exact absurd (h.no_deadline_of_state (by rw [hr]; simp)) hne
    · rw [show (s.sched.tasks s.me).state = .running from hr]
      simp
  | block p k hobj ht hk hss hp hlog hl =>
    have hr := hs.running_me ht.phase ht.task
    refine h.set (t := s.me) (k := k) hss ht.kont (fun hne ↦ ?_) (fun _ ↦ by simp)
    exact absurd (h.no_deadline_of_state (by rw [hr]; simp)) hne
  | wake p w i k hobj ht hk hss hp hi hwk hlog hl =>
    have hr := hs.running_me ht.phase ht.task
    have hmove : Undisturbed { s with kont := s'.kont } :=
      h.set (t := s.me) (b := s.sched.tasks s.me) (k := k)
        (by rw [Scheduler.setTask, Function.update_eq_self]) ht.kont
        (fun hne ↦ absurd (h.no_deadline_of_state (by rw [hr]; simp)) hne)
        (fun _ ↦ by rw [show (s.sched.tasks s.me).state = .running from hr]; simp)
    have hdl : s.state w = .blocked → (s.sched.tasks w).resumeTick = 0 := fun hb ↦ by
      refine h.no_deadline fun hd ↦ ?_
      have hww := hw.waitsOn_of_wake hi hwk had hb
      rw [Sys.waitsOn, hd] at hww
      cases hww
    rcases s.sched.unblock_cases w with ⟨-, hu⟩ | ⟨-, hb, hu | ⟨-, hu⟩⟩
    · exact hmove.woken rfl fun t ↦ by rw [hss, hu]; exact .refl _
    · rw [hu] at hss
      exact hmove.setState hss rfl (hdl hb) (by simp)
    · rw [hu] at hss
      have hwake : Undisturbed { s with
          kont := s'.kont, sched := s.sched.setState w .ready } :=
        hmove.setState rfl rfl (hdl hb) (by simp)
      refine hwake.setState hss rfl ?_ (by simp)
      rw [Scheduler.resumeTick_setState]
      exact h.no_deadline_of_state (t := s.me) (by rw [hr]; simp)
  | api op ha ho hp hi hu he =>
    rw [he]
    rw [ha] at hg
    exact h.api hs ho hp hi hg
  | dispatch ha hp sched hd he =>
    have hd := D.sound _ _ _ hd
    rw [he]
    refine ⟨fun t hne ↦ ?_, fun t hk ↦ ?_⟩
    · rw [Sys.state]
      rcases hd.task_cases t with (hw | ⟨-, hw⟩) | ⟨-, -, b, hb, hr, hrun⟩
      · rw [hw] at hne ⊢
        exact h.timed t hne
      · rw [hw] at hne
        exact absurd rfl hne
      · -- the task that is given the CPU was `READY`, or has just been expired
        rw [hrun] at hne
        rcases hb with rfl | ⟨-, rfl⟩
        · exact absurd (h.no_deadline_of_state (by rw [Sys.state, hr]; simp)) hne
        · exact absurd rfl hne
    · rw [Sys.state]
      rcases hd.task_cases t with (hw | ⟨-, hw⟩) | ⟨-, -, b, -, -, hrun⟩
      · rw [hw]
        exact h.live t hk
      · rw [hw]
        simp
      · rw [hrun]
        simp

end Step

/-! ### Disciplined runs -/

/-- A machine before any task is created. -/
def IsInit [Inhabited α] (s : Sys α) : Prop := ∃ cfg, s = .init cfg

/-- What a disciplined program promises at each step. -/
def Disciplined (s : Sys α) (a : Act α) : Prop := TasksOnly s a ∧ NoInterference s a

instance (s : Sys α) (a : Act α) : Decidable (Disciplined s a) :=
  inferInstanceAs (Decidable (_ ∧ _))

/-- The invariants of disciplined runs. -/
structure RunInv (s : Sys α) : Prop where
  sched : SchedInv s
  wait : WaitInv s
  undisturbed : Undisturbed s

/-- A task owed a wake-up is `BLOCKED`. -/
theorem RunInv.blocked_of_owed {s : Sys α} (h : RunInv s) {p : Prim} {t : TaskHandle}
    (ho : s.Owed p t) : s.state t = .blocked := by
  have hidle := h.wait.idle p t ho
  have hlive := h.undisturbed.live t (Kont.waiting_of_waitsOn ho.1)
  cases hst : s.state t with
  | blocked => rfl
  | ready => exact absurd hst hidle.1
  | running => exact absurd hst hidle.2
  | suspended => exact absurd hst hlive.1
  | deleted => exact absurd hst hlive.2

/-- A waiter array lists the tasks `BLOCKED` at its primitive. -/
theorem RunInv.mem_waitList_iff {s : Sys α} (h : RunInv s) {p : Prim} (hp : p.isList = true)
    (t : TaskHandle) : t ∈ s.waitList p ↔ s.waitsOn t = some p ∧ s.state t = .blocked := by
  rw [h.wait.mem_iff p t hp]
  exact ⟨fun ho ↦ ⟨ho.1, h.blocked_of_owed ho⟩, fun hb ↦ h.wait.blocked p t hb.1 hb.2⟩

/-- A task inside a primitive and no longer listed there has been woken. -/
theorem RunInv.woken_of_not_mem {s : Sys α} (h : RunInv s) {p : Prim} (hp : p.isList = true)
    {t : TaskHandle} (hw : s.waitsOn t = some p) (hn : t ∉ s.waitList p) :
    s.state t = .ready ∨ s.state t = .running := by
  have hlive := h.undisturbed.live t (Kont.waiting_of_waitsOn hw)
  cases hst : s.state t with
  | ready => exact .inl rfl
  | running => exact .inr rfl
  | blocked => exact absurd ((h.mem_waitList_iff hp t).mpr ⟨hw, hst⟩) hn
  | suspended => exact absurd hst hlive.1
  | deleted => exact absurd hst hlive.2

/-- The invariant of the scheduler holds at the start. -/
theorem SchedInv.init [Inhabited α] (cfg : Config) : SchedInv (.init cfg : Sys α) := by
  refine ⟨Nat.zero_le _, fun h ↦ absurd rfl h, fun t ↦ ?_, fun h ↦ absurd rfl h, fun _ _ ↦ rfl⟩
  refine iff_of_false ?_ fun h ↦ h.2.2 rfl
  intro h
  cases h

/-- The invariant of the waiters holds at the start. -/
theorem WaitInv.init [Inhabited α] (cfg : Config) : WaitInv (.init cfg : Sys α) := by
  have hno : ∀ p t, ¬ (Sys.init cfg : Sys α).Owed p t := by
    rintro p t ⟨h, -⟩
    cases h
  have hempty : ∀ p, (Sys.init cfg : Sys α).waitList p = [] := by
    intro p
    cases p <;> rfl
  refine ⟨fun p ↦ ?_, fun p t _ ↦ ?_, fun p t h ↦ absurd h (hno p t), fun p t h ↦ ?_⟩
  · rw [hempty]
    exact List.nodup_nil
  · rw [hempty]
    exact iff_of_false (List.not_mem_nil) (hno p t)
  · cases h

/-- The invariants of disciplined runs hold at the start. -/
theorem RunInv.init [Inhabited α] (cfg : Config) : RunInv (.init cfg : Sys α) where
  sched := .init cfg
  wait := .init cfg
  undisturbed := ⟨fun _ h ↦ absurd rfl h, fun _ h ↦ h.elim⟩

/-- One step of a disciplined program whose event groups wake their own waiters. -/
theorem RunInv.step {D : Dispatcher} {s s' : Sys α} {a : Act α} (h : RunInv s)
    (hg : Disciplined s a) (ha : Addressed s a) (hst : Step D s a s') : RunInv s' := by
  have he := hst.effect h.sched.outside hg.1
  refine ⟨h.sched.step he, h.wait.step h.sched he ha.ownGroup ?_ ?_,
    h.undisturbed.step h.sched h.wait he hg.2 ha⟩
  · rintro op rfl ho
    cases hst with
    | call hp hk hi => exact h.undisturbed.spared_api h.sched h.wait ho hk.eq
  · rintro rfl
    cases hst with
    | dispatch hp hd => exact h.undisturbed.spared_dispatch h.wait (D.sound _ _ _ hd)

/-! ### Programs without event groups -/

/-- The call is not one on an event group. -/
def NoEvents : Act α → Prop
  | .call op => ∀ e, op.obj ≠ some (.events e)
  | _ => True

instance (a : Act α) : Decidable (NoEvents a) :=
  match a with
  | .call op =>
    match h : op.obj with
    | some (.events e) => .isFalse fun hn ↦ hn e h
    | none | some (.mutex _) | some (.sem _) | some (.queue _) => .isTrue fun e ↦ by rw [h]; simp
  | .resume | .dispatch => .isTrue trivial

/-- No context is inside an event-group function. -/
def OutsideEvents (s : Sys α) : Prop := ∀ t e, (s.kont t).obj ≠ some (.events e)

/-- Without calls on event groups, no context gets inside one. -/
theorem OutsideEvents.step {D : Dispatcher} {s s' : Sys α} {a : Act α} (h : OutsideEvents s)
    (hs : SchedInv s) (hg : NoEvents a) (hst : Step D s a s') : OutsideEvents s' := by
  obtain ⟨k, hl, hk⟩ := hst.leads hs.fresh
  have hobj : ∀ e, k.obj ≠ some (.events e) := by
    intro e
    cases a with
    | call op =>
      rcases hl.2 with rfl | he
      · simp [Kont.obj]
      · rw [he.obj_eq]
        exact hg e
    | resume =>
      rcases Kont.Goes.obj_eq hl with ho | ho
      · simp [ho]
      · rw [ho]
        exact h s.me e
    | dispatch =>
      rw [show k = s.kont s.me from hl]
      exact h s.me e
  intro t e
  rw [hk]
  by_cases ht : t = s.me
  · rw [ht, Function.update_self]
    exact hobj e
  · rw [Function.update_of_ne ht]
    exact h t e

/-- Outside the event groups every step is addressed. -/
theorem OutsideEvents.addressed {s : Sys α} (h : OutsideEvents s) (a : Act α) :
    Addressed s a := by
  rintro - e i hk
  have := h s.me e
  rw [hk] at this
  exact absurd rfl this

/-- A disciplined program that does not use event groups. -/
def PlainDisciplined (s : Sys α) (a : Act α) : Prop := Disciplined s a ∧ NoEvents a

instance (s : Sys α) (a : Act α) : Decidable (PlainDisciplined s a) :=
  inferInstanceAs (Decidable (_ ∧ _))

/-- The invariants of waiting hold in every run of such a program, in every order of
scheduling. -/
theorem runInv_of_reach [Inhabited α] {D : Dispatcher} {s : Sys α}
    (h : Reach IsInit PlainDisciplined (Step D) s) : RunInv s := by
  have hstart : ∀ s : Sys α, IsInit s → RunInv s ∧ OutsideEvents s := by
    rintro s ⟨cfg, rfl⟩
    exact ⟨.init cfg, fun _ _ ↦ by simp [Sys.init, Kont.obj]⟩
  have hstep : ∀ (s : Sys α) a t, RunInv s ∧ OutsideEvents s → PlainDisciplined s a →
      Step D s a t → RunInv t ∧ OutsideEvents t := by
    rintro s a t ⟨hi, ho⟩ hg hst
    exact ⟨hi.step hg.1 (ho.addressed a) hst, ho.step hi.sched hg.2 hst⟩
  exact (h.invariant hstart hstep).1

/-- So they do in every run from this configuration. -/
theorem runInv_of_init [Inhabited α] {D : Dispatcher} {cfg : Config} {s : Sys α}
    (h : Reach (· = .init cfg) PlainDisciplined (Step D) s) : RunInv s :=
  runInv_of_reach (h.mono (fun _ h0 ↦ ⟨cfg, h0⟩) fun _ _ hg ↦ hg)

end McuSimulator.Rtos
