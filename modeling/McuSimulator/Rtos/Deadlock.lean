import McuSimulator.Rtos.Preemption

/-!
# Falling back to idle

The discrete-event loops read `0` and `UINT32_MAX` in `resume_tick` as "no deadline". As long as
no `vTaskDelay` computes one of these two as its deadline, the scheduler falls back to the idle
context only when no task is `READY` and none is blocked in `vTaskDelay`.
-/

namespace McuSimulator.Rtos

open McuSimulator.Base

variable {α : Type}

/-- No delay ends at a tick that is read as "no deadline". -/
def DelaysEnd (s : Scheduler) : Request → Prop
  | .vTaskDelay n => s.current ≠ invalidTask → n ≠ 0 →
      (s.tickCount + n) % 2 ^ 32 ≠ 0 ∧ (s.tickCount + n) % 2 ^ 32 ≠ uint32Max
  | _ => True

instance (s : Scheduler) (r : Request) : Decidable (DelaysEnd s r) := by
  induction r using Request.casesOn <;> first
    | exact .isTrue trivial
    | exact inferInstanceAs (Decidable (_ → _))

/-! ### Blocked tasks -/

section Table

variable {s s' : Scheduler} {r : Request} {ph : Phase}

/-- No request blocks any task but the executing one. -/
theorem Served.blocked_of_ne (h : Served s r s' ph) {t : TaskHandle} (ht : t < s'.taskCount)
    (hne : t ≠ s.current) (hb : (s'.tasks t).state = .blocked) :
    t < s.taskCount ∧ s'.tasks t = s.tasks t := by
  have hmark {v : Scheduler} {u : TaskHandle} {st : TaskState}
      (hv : ((v.setState u st).tasks t).state = .blocked) (hst : st ≠ .blocked) :
      (v.setState u st).tasks t = v.tasks t := by
    refine Scheduler.setState_tasks_of_ne _ _ ?_
    rintro rfl
    rw [Scheduler.setState_tasks_self] at hv
    exact hst hv
  cases h with
  | stay => exact ⟨ht, rfl⟩
  | create p hlt =>
    rw [Scheduler.xTaskCreate_of_lt hlt] at ht hb ⊢
    have hold : t ≠ s.taskCount := by
      rintro rfl
      rw [Scheduler.setTask_tasks_self] at hb
      cases hb
    rw [Scheduler.setTask_tasks_of_ne _ _ hold]
    exact ⟨Nat.lt_of_le_of_ne (Nat.le_of_lt_succ ht) hold, rfl⟩
  | start hm hn => exact ⟨ht, hmark (v := { s with current := s.selectNext }) hb (by decide)⟩
  | leave _ b _ hm hl hp => exact ⟨ht, Scheduler.setTask_tasks_of_ne _ _ hne⟩
  | suspend u hu hc => exact ⟨ht, hmark hb (by decide)⟩
  | delete u hu hc => exact ⟨ht, hmark hb (by decide)⟩
  | resume u hu hs => exact ⟨ht, hmark hb (by decide)⟩
  | wake u hu hs hlow => exact ⟨ht, hmark hb (by decide)⟩
  | preempt u hu hs hm =>
    have houter := hmark hb (by decide)
    rw [houter] at hb
    exact ⟨ht, houter.trans (hmark hb (by decide))⟩
  | scan ms hlow => exact ⟨ht, woken_eq (s.scanned_woken ms t) (by simp [hb])⟩
  | scanPreempt ms hm =>
    have houter := hmark hb (by decide)
    rw [houter] at hb
    exact ⟨ht, houter.trans (woken_eq (s.scanned_woken ms t) (by simp [hb]))⟩

end Table

/-! ### Contexts in `vTaskDelay` -/

/-- The task is blocked inside `vTaskDelay`. -/
def Sys.DelayBlocked (s : Sys α) (t : TaskHandle) : Prop :=
  s.kont t = .delayed ∧ (s.sched.tasks t).state = .blocked

/-- A deadline that the discrete-event loops reach. -/
def Ends (b : Tcb) : Prop := 0 < b.resumeTick ∧ b.resumeTick < uint32Max

/-- Going on does not get a context into `vTaskDelay`. -/
theorem Kont.Goes.ne_delayed {k k' : Kont α} (h : k.Goes k') : k' ≠ .delayed := by
  rintro rfl
  cases k <;> simp [Kont.Goes] at h

/-- Only `vTaskDelay` with a nonzero delay gets a task into it. -/
theorem Sys.delayed_of_call {s : Sys α} {op : Op α} (hu : s.kont s.me = .user)
    (hk : (s.call op).kont s.me = .delayed) :
    ∃ n, n ≠ 0 ∧ s.me ≠ invalidTask ∧ op = .vTaskDelay n := by
  have hstays (h : (s.call op).kont = s.kont) : False := by
    rw [h, hu] at hk
    cases hk
  rcases s.kont_call op hu with ⟨k, hk', he⟩ | ⟨p, -, he⟩
  · have hkd : k = .delayed := by rwa [he, Function.update_self] at hk
    rcases hk' with hk' | hk'
    · rw [hkd] at hk'
      cases hk'
    · rw [hkd] at hk'
      cases op with
      | vTaskDelay n =>
        simp only [call, vTaskDelay] at hstays
        refine ⟨n, fun hn ↦ hstays ?_, fun hm ↦ hstays ?_, rfl⟩
        · rw [if_pos hn]
          split <;> rfl
        · rw [if_pos hm]
      | _ => cases hk'
  · rw [he] at hk
    by_cases hc : s.me = s.sched.taskCount
    · rw [hc, Function.update_self] at hk
      cases hk
    · rw [Function.update_of_ne hc, hu] at hk
      cases hk

section Step

variable {s s' : Sys α} {a : ApiAct α}

/-- A step moves no task but the executing one. -/
theorem ApiStep.kont_of_ne (h : ApiStep s a s') {t : TaskHandle} (hne : t ≠ s.me)
    (ht : t < s.sched.taskCount) : s'.kont t = s.kont t := by
  cases h with
  | act h =>
    cases h with
    | call hp hk hi =>
      rcases s.kont_call _ hk.eq with ⟨k, -, he⟩ | ⟨p, -, he⟩
      · rw [he, Function.update_of_ne hne]
      · rw [he, Function.update_of_ne (Nat.ne_of_lt ht)]
    | resume hp hk =>
      obtain ⟨k, -, he⟩ := s.kont_resume
      rw [he, Function.update_of_ne hne]
    | dispatch hp hd => rfl
  | blockCurrent hp hk =>
    unfold Sys.callBlockCurrent
    split <;> rfl
  | reenter hp hk => exact Function.update_of_ne hne _ _

/-- How the executing context gets into `vTaskDelay`. -/
theorem ApiStep.delayed_me (h : ApiStep s a s') (hp : s.phase = .code)
    (hk : s'.kont s.me = .delayed) :
    (∃ n, n ≠ 0 ∧ s.me ≠ invalidTask ∧ s.request a = .vTaskDelay n) ∨ s'.sched = s.sched := by
  cases h with
  | act h =>
    cases h with
    | call _ hu hi =>
      obtain ⟨n, hn, hm, rfl⟩ := Sys.delayed_of_call hu.eq hk
      exact .inl ⟨n, hn, hm, rfl⟩
    | resume _ hr =>
      obtain ⟨k, hgo, he⟩ := s.kont_resume
      rw [he, Function.update_self] at hk
      exact absurd hk hgo.ne_delayed
    | dispatch hd => exact absurd hp hd
  | blockCurrent _ hu =>
    have hkont : s.callBlockCurrent.kont = s.kont := by
      unfold Sys.callBlockCurrent
      split <;> rfl
    rw [hkont, hu.eq] at hk
    cases hk
  | reenter _ _ => exact .inr rfl

end Step

/-! ### The invariant -/

/-- Tasks blocked in `vTaskDelay` have deadlines that the loops reach, and there are none of them
while the code outside the tasks executes. -/
structure DelayInv (s : Sys α) : Prop where
  table : TableInv s.sched s.phase
  legal : LegalTable s.sched
  ends : ∀ t < s.sched.taskCount, s.DelayBlocked t → Ends (s.sched.tasks t)
  outside : s.phase = .code → s.me = invalidTask → ∀ t < s.sched.taskCount, ¬ s.DelayBlocked t

/-- While code executes, only a start moves `current_`. -/
theorem Served.current_eq {s s' : Scheduler} {r : Request} {ph : Phase} (h : Served s r s' ph)
    (hm : s.current ≠ invalidTask) : s'.current = s.current := by
  cases h with
  | create p hlt =>
    rw [Scheduler.xTaskCreate_of_lt hlt]
    rfl
  | start hc hn => exact absurd hc hm
  | _ => rfl

section Preserve

variable {s s' : Sys α} {a : ApiAct α}

/-- A task that a request leaves blocked in `vTaskDelay` was so before, or it has just called
it. -/
theorem DelayInv.blocked_before (h : DelayInv s) (hp : s.phase = .code) (hs : ApiStep s a s')
    (hr : Served s.sched (s.request a) s'.sched s'.phase) {t : TaskHandle}
    (ht : t < s'.sched.taskCount) (hd : s'.DelayBlocked t) :
    (t < s.sched.taskCount ∧ s.DelayBlocked t ∧ s'.sched.tasks t = s.sched.tasks t) ∨
      (t = s.me ∧ s.me ≠ invalidTask ∧ ∃ n, n ≠ 0 ∧ s.request a = .vTaskDelay n) := by
  by_cases hme : t = s.me
  · rw [hme] at hd ⊢
    rcases hs.delayed_me hp hd.1 with ⟨n, hn, hm, hq⟩ | hsame
    · exact .inr ⟨rfl, hm, n, hn, hq⟩
    · -- the executing task is `RUNNING`, so it is not blocked in the same table
      have hm : s.me ≠ invalidTask := by
        intro hm
        rw [hsame] at ht
        exact h.table.ne_invalid ht (hme.trans hm)
      have hrun := h.table.running s.me
      have hstate := hrun.mpr ⟨hp, rfl, hm⟩
      have hblocked := hd.2
      rw [hsame, hstate] at hblocked
      cases hblocked
  · obtain ⟨hlt, he⟩ := hr.blocked_of_ne ht hme hd.2
    refine .inl ⟨hlt, ⟨?_, ?_⟩, he⟩
    · rw [← hs.kont_of_ne hme hlt]
      exact hd.1
    · rw [← he]
      exact hd.2

/-- A delay that does not end at a sentinel leaves a deadline that the loops reach. -/
theorem ends_of_delay {v v' : Scheduler} {n : Nat} {ph : Phase} (h : Served v (.vTaskDelay n) v' ph)
    (hn : n ≠ 0) (hm : v.current ≠ invalidTask) (hg : DelaysEnd v (.vTaskDelay n)) :
    Ends (v'.tasks v.current) := by
  obtain ⟨hzero, hmax⟩ := hg hm hn
  have hlt : (v.tickCount + n) % 2 ^ 32 < 2 ^ 32 := Nat.mod_lt _ (by decide)
  cases h with
  | stay _ hidle => exact absurd hidle hm
  | leave _ b _ _ hb hp =>
    rw [Scheduler.setTask_tasks_self, (hb.resolve_left fun hl ↦ hn hl.1).2]
    refine ⟨Nat.pos_of_ne_zero hzero, ?_⟩
    unfold uint32Max at hmax ⊢
    show (v.tickCount + n) % 2 ^ 32 < 0xFFFFFFFF
    omega

/-- What a dispatch to the idle context leaves behind. -/
theorem DelayInv.idle (h : DelayInv s) (hp : s.phase ≠ .code)
    (hcur : (s.sched.dispatch s.phase).current = invalidTask) {t : TaskHandle}
    (ht : t < s.sched.taskCount) :
    ((s.sched.dispatch s.phase).tasks t).state ≠ .ready ∧
      ¬ (s.kont t = .delayed ∧ ((s.sched.dispatch s.phase).tasks t).state = .blocked) := by
  obtain ⟨u, hu, hd⟩ := s.sched.dispatch_advanced hp
  have hlt : t < u.taskCount := hu.taskCount ▸ ht
  generalize s.sched.dispatch s.phase = v at hcur hd ⊢
  cases hd with
  | switch hn => exact absurd hcur hn
  | idle hn he =>
    refine ⟨(h.legal.advanced hu).no_ready (hu.taskCount ▸ h.table.taskCount_le) hn hlt, ?_⟩
    rintro ⟨hk, hb⟩
    have hsame : u.tasks t = s.sched.tasks t :=
      woken_eq (hu.woken t) (by rw [show (u.tasks t).state = .blocked from hb]; decide)
    have hends : Ends (u.tasks t) := by
      rw [hsame]
      exact h.ends t ht ⟨hk, hsame ▸ hb⟩
    have hle := Scheduler.earliest_le hlt ⟨hb, hends.1⟩
    rw [he] at hle
    exact absurd hends.2 (Nat.not_lt.mpr hle)

/-- A dispatch blocks no task. -/
theorem blocked_dispatch {v v' : Scheduler} (hd : Scheduler.Dispatches v v') {t : TaskHandle}
    (hb : (v'.tasks t).state = .blocked) : v'.tasks t = v.tasks t := by
  rcases hd.task_cases t with hw | ⟨-, -, b, -, -, he⟩
  · exact woken_eq hw (by simp [hb])
  · rw [he] at hb
    cases hb

/-- What a program promises: legal priorities, and no delay that ends at a sentinel. -/
def DelayCalls (s : Scheduler) (r : Request) : Prop := LegalPriority s r ∧ DelaysEnd s r

instance (s : Scheduler) (r : Request) : Decidable (DelayCalls s r) :=
  inferInstanceAs (Decidable (_ ∧ _))

/-- Every step with such a call keeps the invariant. -/
theorem DelayInv.step (h : DelayInv s) (hg : Asks DelayCalls s a) (hs : ApiStep s a s') :
    DelayInv s' := by
  rcases hs.served h.table.taskCount_le with ⟨hp, hr⟩ | ⟨hp, ha, he, -⟩
  · refine ⟨h.table.step hs, h.legal.served hr hg.1, fun t ht hd ↦ ?_, fun _ hm' t ht hd ↦ ?_⟩
    · rcases h.blocked_before hp hs hr ht hd with ⟨hlt, hold, he⟩ | ⟨rfl, hm, n, hn, hq⟩
      · rw [he]
        exact h.ends t hlt hold
      · have hdelay := hg.2
        rw [hq] at hr hdelay
        exact ends_of_delay hr hn hm hdelay
    · have hm : s.me = invalidTask := by
        by_contra hm
        exact hm ((hr.current_eq hm).symm.trans hm')
      rcases h.blocked_before hp hs hr ht hd with ⟨hlt, hold, -⟩ | ⟨-, hne, -⟩
      · exact h.outside hp hm t hlt hold
      · exact hne hm
  · have hkont : s'.kont = s.kont := by
      rw [ha] at hs
      cases hs with
      | act h =>
        cases h
        rfl
    have hdis := s.sched.dispatch_dispatches hp
    have hcount : s'.sched.taskCount = s.sched.taskCount := by rw [he, hdis.taskCount]
    have hidle {t : TaskHandle} := h.idle hp (t := t)
    rw [← he] at hdis hidle
    refine ⟨h.table.step hs, he ▸ h.legal.dispatch hp, fun t ht hd ↦ ?_, fun _ hm' t ht hd ↦ ?_⟩
    · obtain ⟨hk, hb⟩ := hd
      have hsame := blocked_dispatch hdis hb
      rw [hkont] at hk
      rw [hsame] at hb ⊢
      exact h.ends t (hcount ▸ ht) ⟨hk, hb⟩
    · rw [Sys.DelayBlocked, hkont] at hd
      exact (hidle hm' (hcount ▸ ht)).2 hd

end Preserve

/-- The invariant holds in every run with such calls. -/
theorem delayInv_of_reach [Inhabited α] {s : Sys α}
    (h : Reach IsInit (Asks DelayCalls) ApiStep s) : DelayInv s := by
  have hinit : ∀ u : Sys α, IsInit u → DelayInv u := by
    rintro _ ⟨cfg, rfl⟩
    refine ⟨.init cfg, fun t ht ↦ ?_, fun t ht ↦ ?_, fun _ _ t ht ↦ ?_⟩
    all_goals exact absurd ht (Nat.not_lt_zero t)
  exact h.invariant hinit fun _ _ _ hi hg hst ↦ hi.step hg hst

/-- When the scheduler falls back to the idle context, and when `vTaskStartScheduler` finds
nothing to start, no task is `READY` and none is blocked in `vTaskDelay`. -/
theorem no_false_deadlock [Inhabited α] (s s' : Sys α) (a : ApiAct α)
    (h : Reach IsInit (Asks DelayCalls) ApiStep s) (hg : Asks DelayCalls s a)
    (hs : ApiStep s a s') (ha : a = .act .dispatch ∨ a = .act (.call .vTaskStartScheduler))
    (hidle : s'.sched.current = invalidTask) :
    ∀ t < s'.sched.taskCount, s'.sched.getState t ≠ .ready ∧
      ¬ (s'.kont t = .delayed ∧ s'.sched.getState t = .blocked) := by
  have hi := delayInv_of_reach h
  have hi' := delayInv_of_reach (h.next hg hs)
  intro t ht
  rw [TableInv.getState_eq ht]
  have hcode : s'.phase = .code := by
    by_contra hp
    exact hi'.table.busy hp hidle
  refine ⟨?_, hi'.outside hcode hidle t ht⟩
  rcases hs.served hi.table.taskCount_le with ⟨hp, hr⟩ | ⟨hp, -, he, -⟩
  · obtain rfl | rfl := ha
    · cases hs with
      | act hst =>
        cases hst with
        | dispatch hne hd => exact absurd hp hne
    · obtain ⟨hnone, hsame⟩ : s.sched.selectNext = invalidTask ∧ s'.sched = s.sched := by
        generalize s'.sched = v at hr hidle ⊢
        generalize s'.phase = ph at hr
        have hq : s.request (.act (.call .vTaskStartScheduler)) = .vTaskStartScheduler := rfl
        rw [hq] at hr
        cases hr with
        | stay _ hn => exact ⟨hn, rfl⟩
        | start hm hn => exact absurd hidle hn
        | leave _ _ _ _ hb _ => exact hb.elim
      rw [hsame] at ht ⊢
      exact hi.legal.no_ready hi.table.taskCount_le hnone ht
  · rw [he] at hidle ht ⊢
    rw [(s.sched.dispatch_dispatches hp).taskCount] at ht
    exact (hi.idle hp hidle ht).1

/-- Two tasks. The second is suspended for good, the first delays itself and returns. -/
def idleRun : List (ApiAct Unit) :=
  [.act (.call (.xTaskCreate 1)), .act (.call (.xTaskCreate 2)), .act (.call (.vTaskSuspend 1)),
    .act (.call .vTaskStartScheduler), .act (.call (.vTaskDelay 5)), .act .dispatch,
    .act .resume, .act (.call .taskReturn)]

private theorem idleRun_isSome : (runActs Sys.apiExec idleRun (.init {})).isSome = true := by
  decide +kernel

def idleEnd : Sys Unit := (runActs Sys.apiExec idleRun (.init {})).get idleRun_isSome

private theorem idleEnd_dispatches : (idleEnd.apiExec (.act .dispatch)).isSome = true := by
  decide +kernel

/-- The scheduler falls back to idle, and the suspended task is neither. -/
theorem no_false_deadlock_idle :
    ((idleEnd.apiExec (.act .dispatch)).get idleEnd_dispatches).sched.getState 1 ≠ .ready :=
  (no_false_deadlock idleEnd _ (.act .dispatch)
    (Reach.of_guardedRun ApiStep.of_apiExec idleRun ⟨{}, rfl⟩ (by decide +kernel) idleRun_isSome)
    ⟨trivial, trivial⟩ (.of_apiExec _ _ _ (Option.some_get idleEnd_dispatches).symm) (.inl rfl)
    (by decide +kernel) 1 (by decide +kernel)).1

/-- The only task delays itself by `UINT32_MAX` ticks. -/
def longDelayRun : List (ApiAct Unit) :=
  [.act (.call (.xTaskCreate 1)), .act (.call .vTaskStartScheduler),
    .act (.call (.vTaskDelay uint32Max))]

private theorem longDelayRun_isSome :
    (runActs Sys.apiExec longDelayRun (.init {})).isSome = true := by
  decide +kernel

def longDelayEnd : Sys Unit :=
  (runActs Sys.apiExec longDelayRun (.init {})).get longDelayRun_isSome

private theorem longDelayEnd_dispatches :
    (longDelayEnd.apiExec (.act .dispatch)).isSome = true := by
  decide +kernel

/-- The scheduler falls back to idle with the task blocked in `vTaskDelay`. -/
theorem long_delay_deadlocks :
    ((longDelayEnd.apiExec (.act .dispatch)).get longDelayEnd_dispatches).sched.current =
      invalidTask ∧
    ((longDelayEnd.apiExec (.act .dispatch)).get longDelayEnd_dispatches).sched.getState 0 =
      .blocked ∧
    ¬ ∀ (s s' : Sys Unit) (a : ApiAct Unit), Reach IsInit (Asks LegalPriority) ApiStep s →
      Asks LegalPriority s a → ApiStep s a s' →
      (a = .act .dispatch ∨ a = .act (.call .vTaskStartScheduler)) →
      s'.sched.current = invalidTask →
      ∀ t < s'.sched.taskCount, s'.sched.getState t ≠ .ready ∧
        ¬ (s'.kont t = .delayed ∧ s'.sched.getState t = .blocked) := by
  have hidle : ((longDelayEnd.apiExec (.act .dispatch)).get longDelayEnd_dispatches).sched.current =
      invalidTask := by decide +kernel
  have hblocked : ((longDelayEnd.apiExec (.act .dispatch)).get
      longDelayEnd_dispatches).sched.getState 0 = .blocked := by decide +kernel
  refine ⟨hidle, hblocked, fun h ↦ ?_⟩
  have hno := h longDelayEnd _ (.act .dispatch)
    (Reach.of_guardedRun ApiStep.of_apiExec longDelayRun ⟨{}, rfl⟩ (by decide +kernel)
      longDelayRun_isSome)
    trivial (.of_apiExec _ _ _ (Option.some_get longDelayEnd_dispatches).symm) (.inl rfl) hidle 0
    (by decide +kernel)
  exact hno.2 ⟨by decide +kernel, hblocked⟩

end McuSimulator.Rtos
