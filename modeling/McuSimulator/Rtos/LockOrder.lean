import McuSimulator.Base.Chain
import McuSimulator.Rtos.Deadlock
import McuSimulator.Rtos.Mutex
import Mathlib.Order.Interval.Finset.Nat

/-!
# Lock order

A task that waits in `lock` waits for the owner, which may wait in the `lock` of another mutex. If
every task locks its mutexes in the order of a rank, nobody waits for itself in the end, and each
chain of waits leads to a task that waits in no `lock`. The scheduler then falls back to idle with a
task still in `lock` only where such a task has stopped with the mutex, or waits in a semaphore or a
queue.
-/

namespace McuSimulator.Rtos

open McuSimulator.Base Relation

variable {α : Type}

/-- The task waits in the `lock` of a mutex of the other. -/
def Sys.WaitsFor (s : Sys α) (t u : TaskHandle) : Prop :=
  ∃ m, t ∈ (s.mutex m).waiters ∧ (s.mutex m).owner = u

/-- The mutexes that a task owns have smaller ranks than the one it locks, and it unlocks only those
it owns. -/
def LocksInOrder (rank : Nat → Nat) (s : Sys α) : Act α → Prop
  | .call (.lock m) => ∀ m', (s.mutex m').owner = s.me → rank m' < rank m
  | .call (.unlock m) => (s.mutex m).owner = s.me
  | _ => True

/-- What a program with a lock order promises at each step. -/
structure LockDisciplined (rank : Nat → Nat) (s : Sys α) (a : Act α) : Prop where
  plain : PlainDisciplined s a
  delays : Asks DelayCalls s (.act a)
  order : LocksInOrder rank s a

private theorem LocksInOrder.mutexCalls {rank : Nat → Nat} {s : Sys α} {a : Act α}
    (h : LocksInOrder rank s a) (m : Nat) : MutexCalls m s a := by
  cases a with
  | call op =>
    cases op with
    | lock m' =>
      rintro rfl ho
      exact Nat.lt_irrefl _ (h m' ho)
    | unlock m' =>
      rintro rfl
      exact h
    | _ => trivial
  | _ => trivial

/-! ### Where blocked tasks are -/

/-- Every blocked task is in `vTaskDelay` or waits at a primitive. -/
def Parked (s : Sys α) : Prop :=
  ∀ t < s.sched.taskCount, s.state t = .blocked → s.kont t = .delayed ∨ ∃ p, s.waitsOn t = some p

/-- A request blocks the executing task only where it asks for that. -/
theorem Served.blocked_current {s s' : Scheduler} {r : Request} {ph : Phase}
    (h : Served s r s' ph) (hrun : (s.tasks s.current).state = .running)
    (hb : (s'.tasks s.current).state = .blocked) :
    r = .blockCurrent ∨ ∃ n, n ≠ 0 ∧ s.current ≠ invalidTask ∧ r = .vTaskDelay n := by
  have hmark {v : Scheduler} {u : TaskHandle} {st : TaskState} (hst : st ≠ .blocked)
      (hv : (v.tasks s.current).state ≠ .blocked) :
      ((v.setState u st).tasks s.current).state ≠ .blocked := by
    rw [state_setState]
    split
    · exact hst
    · exact hv
  have hne : (s.tasks s.current).state ≠ .blocked := by simp [hrun]
  cases h with
  | stay => exact absurd hb hne
  | create p hlt =>
    rw [Scheduler.xTaskCreate_of_lt hlt] at hb
    by_cases hc : s.current = s.taskCount
    · rw [hc, Scheduler.setTask_tasks_self] at hb
      cases hb
    · rw [Scheduler.setTask_tasks_of_ne _ _ hc] at hb
      exact absurd hb hne
  | start hm hn =>
    exact absurd hb (hmark (v := { s with current := s.selectNext }) (by decide) hne)
  | leave _ b _ hm hl hp =>
    rw [Scheduler.setTask_tasks_self] at hb
    cases r with
    | vTaskDelay n =>
      obtain ⟨-, rfl⟩ | ⟨hn, -⟩ := hl
      · cases hb
      · exact .inr ⟨n, hn, hm, rfl⟩
    | blockCurrent => exact .inl rfl
    | vTaskSuspend t => rw [hl.2] at hb; cases hb
    | vTaskDelete t => rw [hl.2] at hb; cases hb
    | taskReturn => rw [show b = _ from hl] at hb; cases hb
    | _ => exact hl.elim
  | suspend t ht hc => exact absurd hb (hmark (by decide) hne)
  | delete t ht hc => exact absurd hb (hmark (by decide) hne)
  | resume t ht hs => exact absurd hb (hmark (by decide) hne)
  | wake t ht hw hlow => exact absurd hb (hmark (by decide) hne)
  | preempt t ht hw hm => exact absurd hb (hmark (by decide) (hmark (by decide) hne))
  | scan ms hlow =>
    rw [woken_eq (s.scanned_woken ms _) (by simp [hb])] at hb
    exact absurd hb hne
  | scanPreempt ms hm =>
    rw [Scheduler.setState_tasks_self] at hb
    cases hb

section Step

variable {s s' : Sys α} {a : Act α}

private theorem Parked.step (h : Parked s) (hs : SchedInv s) (he : Effect .code s a s')
    (hst : Step .code s a s') : Parked s' := by
  intro t ht hb
  rcases (ApiStep.act hst).served hs.taskCount_le with ⟨hp, hr⟩ | ⟨hp, ha, hd, -⟩
  case inr =>
    rw [show a = .dispatch from ApiAct.act.inj ha] at hst
    cases hst with
    | dispatch _ hdis =>
      have hdis := Dispatcher.code.sound _ _ _ hdis
      have hsame := blocked_dispatch hdis hb
      rw [Sys.state, hsame] at hb
      exact h t (hdis.taskCount ▸ ht) hb
  by_cases hme : t = s.me
  case neg =>
    obtain ⟨hlt, hsame⟩ := hr.blocked_of_ne ht hme hb
    rw [Sys.state, hsame] at hb
    rw [Sys.waitsOn, (ApiStep.act hst).kont_of_ne hme hlt]
    exact h t hlt hb
  subst hme
  have hm : s.me ≠ invalidTask := (hs.step he).ne_invalid ht
  have hrun : s.state s.me = .running := hs.running_me hp hm
  cases he with
  | quiet k hk _ hss =>
    rw [Sys.state, hss] at hb
    cases hrun.symm.trans hb
  | block p k _ hk hwait =>
    right
    refine ⟨p, ?_⟩
    rw [Sys.waitsOn, hk.kont, Function.update_self]
    exact hwait
  | wake p w i k _ hk _ hss =>
    -- `unblock` leaves the executing task `RUNNING`, or makes it `READY`
    exfalso
    rw [Sys.state, hss] at hb
    have hrun' : (s.sched.tasks s.me).state = .running := hrun
    rcases s.sched.unblock_cases w with ⟨-, he⟩ | ⟨-, -, he | ⟨-, he⟩⟩
    · rw [he] at hb
      cases hrun'.symm.trans hb
    · rw [he, state_setState] at hb
      split at hb
      · cases hb
      · cases hrun'.symm.trans hb
    · rw [he, show s.me = s.sched.current from rfl, state_setState, if_pos rfl] at hb
      cases hb
  | api op ha ho _ _ hu he =>
    subst ha
    left
    rcases hr.blocked_current hrun hb with hq | ⟨n, hn, -, hq⟩
    · cases op with
      | vTaskDelay n => cases hq
      | _ => first | cases hq | exact ho.elim
    · cases op with
      | vTaskDelay n' =>
        obtain rfl : n' = n := Request.vTaskDelay.inj hq
        rw [he, Sys.call, Sys.vTaskDelay, if_neg hm, if_neg hn]
        exact Function.update_self _ _ _
      | _ => first | cases hq | exact ho.elim
  | dispatch _ hne => exact absurd hp hne

/-! ### Waits climb -/

/-- A mutex that a task owns while it waits in `lock` has a smaller rank than the one it waits for,
which it may own already itself if it has been chosen. -/
def Climbs (rank : Nat → Nat) (s : Sys α) : Prop :=
  ∀ t m m', s.kont t = .lockWait m → (s.mutex m').owner = t → m' = m ∨ rank m' < rank m

private theorem Climbs.step {rank : Nat → Nat} (h : Climbs rank s) (hs : SchedInv s)
    (hw : WaitInv s) (hg : LocksInOrder rank s a) (hstep : ∀ m, MutexStep m s a s') :
    Climbs rank s' := by
  intro t m m' hk ho
  have hcode : s.kont t = .user → t = s.me → s'.kont = s.kont → False := by
    rintro hu rfl hk'
    rw [hk', hu] at hk
    cases hk
  -- a task that enters `lock` in this step owns mutexes of smaller ranks only
  have hkont : s.kont t = .lockWait m ∨ (a = .call (.lock m) ∧ t = s.me) := by
    cases hstep m with
    | frame _ hk' => exact .inl ((hk' t).mp hk)
    | acquire _ _ _ _ hk' => exact .inl (hk' ▸ hk)
    | wait ha _ _ _ _ hk' =>
      by_cases ht : t = s.me
      · exact .inr ⟨ha, ht⟩
      · rw [hk', Function.update_of_ne ht] at hk
        exact .inl hk
    | handOff _ _ _ _ _ _ _ hk' => exact .inl (hk' ▸ hk)
    | release _ _ _ _ hk' => exact .inl (hk' ▸ hk)
    | enter _ _ hl _ hk' =>
      by_cases ht : t = s.me
      · rw [ht]
        exact .inl hl
      · rw [hk', Function.update_of_ne ht] at hk
        exact .inl hk
  have hold : (s.mutex m').owner = t → m' = m ∨ rank m' < rank m := by
    intro ho
    rcases hkont with hkt | ⟨rfl, rfl⟩
    · exact h t m m' hkt ho
    · exact .inr (hg m' ho)
  cases hstep m' with
  | frame hm => exact hold (hm ▸ ho)
  | acquire _ hu _ hm hk' =>
    rw [hm] at ho
    exact (hcode (ho ▸ hu) ho.symm hk').elim
  | wait _ _ _ _ hm => exact hold (by rw [hm] at ho; exact ho)
  | handOff _ _ i w hi hwi hm hk' =>
    -- the chosen task waits for this mutex
    rw [hm] at ho
    have hmem : t ∈ s.waitList (.mutex m') := ho ▸ hwi ▸ List.getElem_mem hi
    have hkt := Kont.eq_lockWait (hw.owed_of_mem hmem).1
    rw [hk', hkt] at hk
    exact .inl (Kont.lockWait.inj hk)
  | release _ _ _ hm hk' =>
    rw [hm] at ho
    rw [hk'] at hk
    exact absurd ho.symm (hs.lockWait_ne_invalid hk)
  | enter _ _ _ hm => exact hold (hm ▸ ho)

/-! ### Owners are tasks -/

/-- Whoever owns a mutex is a task of the table. -/
def OwnersExist (s : Sys α) : Prop :=
  ∀ m, (s.mutex m).owner ≠ invalidTask → (s.mutex m).owner < s.sched.taskCount

private theorem OwnersExist.step (h : OwnersExist s) (hs : SchedInv s) (hw : WaitInv s)
    (hcount : s.sched.taskCount ≤ s'.sched.taskCount) (hstep : ∀ m, MutexStep m s a s') :
    OwnersExist s' := by
  intro m ho
  refine Nat.lt_of_lt_of_le ?_ hcount
  cases hstep m with
  | frame hm =>
    rw [hm] at ho ⊢
    exact h m ho
  | acquire hme _ _ hm =>
    rw [hm]
    exact hs.me_lt hme
  | wait _ _ _ ho' hm =>
    rw [hm]
    exact h m ho'
  | handOff _ _ i w hi hwi hm =>
    rw [hm]
    have hmem : w ∈ s.waitList (.mutex m) := hwi ▸ List.getElem_mem hi
    exact hs.lt_of_waitsOn (hw.owed_of_mem hmem).1
  | release _ _ _ hm =>
    rw [hm] at ho
    exact absurd rfl ho
  | enter _ _ _ hm =>
    rw [hm] at ho ⊢
    exact h m ho

end Step

/-! ### Runs -/

section Runs

variable {rank : Nat → Nat} {s s' : Sys α}

/-- The invariants of programs with a lock order. -/
structure LockInv (rank : Nat → Nat) (s : Sys α) : Prop where
  delays : DelayInv s
  mutex : ∀ m, MutexInv m s
  climbs : Climbs rank s
  owners : OwnersExist s
  parked : Parked s

private theorem runInv_of_locks [Inhabited α]
    (h : Reach IsInit (LockDisciplined rank) (Step .code) s) :
    RunInv s :=
  runInv_of_reach (h.mono (fun _ h0 ↦ h0) fun _ _ hg ↦ hg.plain)

private theorem lockInv_of_reach [Inhabited α]
    (h : Reach IsInit (LockDisciplined rank) (Step .code) s) :
    LockInv rank s := by
  refine h.invariant_of (fun _ ↦ runInv_of_locks) ?_ ?_
  · rintro _ ⟨cfg, rfl⟩
    have hdelay : DelayInv (Sys.init cfg : Sys α) := delayInv_of_reach (.start ⟨cfg, rfl⟩)
    refine ⟨hdelay, fun m ↦ ?_, fun t m m' hk ↦ ?_, fun m ho ↦ absurd rfl ho, fun t ht ↦ ?_⟩
    · exact ⟨fun t ht ↦ absurd ht.1 (by simp [Sys.init]), fun t ht ↦ ht.elim,
        fun ho ↦ absurd rfl ho, fun hw ↦ absurd rfl hw⟩
    · cases hk
    · exact absurd ht (Nat.not_lt_zero t)
  · intro s a s' hr hr' hi hg hst
    have hstep := hst.mutexStep hr.sched hg.plain.1.1
    have he := hst.effect hr.sched.outside hg.plain.1.1
    have hcount : s.sched.taskCount ≤ s'.sched.taskCount := by
      rcases (ApiStep.act hst).served hr.sched.taskCount_le with ⟨-, hsv⟩ | ⟨hp, -, hd, -⟩
      · exact hsv.taskCount_le
      · rw [hd, (s.sched.dispatch_dispatches hp).taskCount]
    exact ⟨hi.delays.step hg.delays (.act hst),
      fun m ↦ (hi.mutex m).step hr.sched hr.wait (hstep m) (hg.order.mutexCalls m),
      hi.climbs.step hr.sched hr.wait hg.order hstep,
      hi.owners.step hr.sched hr.wait hcount hstep,
      hi.parked.step hr.sched he hst⟩

/-- The rank of the mutex whose `lock` a context is in. -/
def Kont.lockRank (rank : Nat → Nat) : Kont α → Nat
  | .lockWait m => rank m
  | _ => 0

/-- Whoever is waited for waits for a mutex of a greater rank. -/
theorem LockInv.climb (h : LockInv rank s) (hr : RunInv s) (t u v : TaskHandle)
    (htu : s.WaitsFor t u) (huv : s.WaitsFor u v) :
    (s.kont t).lockRank rank < (s.kont u).lockRank rank := by
  obtain ⟨m, ht, ho⟩ := htu
  obtain ⟨m', hu, -⟩ := huv
  have hkt : s.kont t = .lockWait m := ((hr.blocked_in_lock m t).mpr ht).1
  have hku : s.kont u = .lockWait m' := ((hr.blocked_in_lock m' u).mpr hu).1
  rw [hkt, hku]
  refine (h.climbs u m' m hku ho).resolve_left ?_
  -- the owner of a mutex does not wait for it
  rintro rfl
  have hne : (s.mutex m).owner ≠ invalidTask := ho ▸ hr.sched.lockWait_ne_invalid hku
  rcases (h.mutex m).owned hne with hin | ⟨-, hnot⟩
  · rw [ho] at hin
    exact ((h.mutex m).inside u hin).2.2 hku
  · rw [ho] at hnot
    exact hnot hu

/-- A chain of waits ends at a task that waits in no `lock`. -/
theorem LockInv.exists_end (h : LockInv rank s) (hr : RunInv s) {t : TaskHandle} {m : Nat}
    (ht : t ∈ (s.mutex m).waiters) :
    ∃ u m', TransGen s.WaitsFor t u ∧ (s.mutex m').owner = u ∧ u < s.sched.taskCount ∧
      ∀ m'', u ∉ (s.mutex m'').waiters := by
  have hbound : ∀ a b, s.WaitsFor a b → (s.kont a).lockRank rank ≤
      (Finset.range s.sched.taskCount).sup fun a ↦ (s.kont a).lockRank rank := by
    rintro a b ⟨m, ha, -⟩
    have hk := ((hr.blocked_in_lock m a).mpr ha).1
    have hlt : a < s.sched.taskCount := hr.sched.lt_of_kont (by rw [hk]; simp)
    exact Finset.le_sup (f := fun a ↦ (s.kont a).lockRank rank) (Finset.mem_range.mpr hlt)
  obtain ⟨u, htu, hend⟩ := exists_chain_end (h.climb hr) hbound ⟨m, ht, rfl⟩
  obtain ⟨v, -, m', hv, ho⟩ := TransGen.tail'_iff.mp htu
  have hne : (s.mutex m').owner ≠ invalidTask := (h.mutex m').waiting (List.ne_nil_of_mem hv)
  exact ⟨u, m', htu, ho, ho ▸ h.owners m' hne, fun m'' hu ↦ hend _ ⟨m'', hu, rfl⟩⟩

/-- No deadlock by mutexes. If every task locks its mutexes in the order of a rank and unlocks only
what it owns, then in every state of every run nobody waits for itself, each chain of waits ends at
an owner that waits in no `lock`, and when the scheduler falls back to idle this owner has been
stopped or waits in a semaphore or a queue. -/
theorem lockOrder_no_deadlock [Inhabited α] (rank : Nat → Nat) (s : Sys α)
    (h : Reach IsInit (LockDisciplined rank) (Step .code) s) :
    (∀ t, ¬ TransGen s.WaitsFor t t) ∧
    (∀ t m, t ∈ (s.mutex m).waiters → ∃ u m', TransGen s.WaitsFor t u ∧
      (s.mutex m').owner = u ∧ u < s.sched.taskCount ∧ ∀ m'', u ∉ (s.mutex m'').waiters) ∧
    (∀ s', Step .code s .dispatch s' → s'.me = invalidTask → ∀ t m, t ∈ (s'.mutex m).waiters →
      ∃ u m', TransGen s'.WaitsFor t u ∧ (s'.mutex m').owner = u ∧
        (s'.state u = .suspended ∨ s'.state u = .deleted ∨
          s'.state u = .blocked ∧ ∃ p, s'.waitsOn u = some p ∧ ∀ m'', p ≠ .mutex m'')) := by
  have hr := runInv_of_locks h
  have hi := lockInv_of_reach h
  refine ⟨not_transGen_self (hi.climb hr), fun t m ↦ hi.exists_end hr, fun s' hst hidle t m ht ↦ ?_⟩
  have h' : Reach IsInit (LockDisciplined rank) (Step .code) s' :=
    h.next (a := .dispatch) ⟨⟨⟨trivial, trivial⟩, trivial⟩, ⟨trivial, trivial⟩, trivial⟩ hst
  have hr' := runInv_of_locks h'
  have hi' := lockInv_of_reach h'
  obtain ⟨u, m', htu, ho, hu, hfree⟩ := hi'.exists_end hr' ht
  refine ⟨u, m', htu, ho, ?_⟩
  obtain ⟨hready, hdelayed⟩ : s'.state u ≠ .ready ∧
      ¬ (s'.kont u = .delayed ∧ s'.state u = .blocked) := by
    cases hst with
    | dispatch hp hd =>
      obtain ⟨-, rfl⟩ := hd
      exact hi.delays.idle hp hidle ((s.sched.dispatch_dispatches hp).taskCount ▸ hu)
  cases hstate : s'.state u with
  | ready => exact absurd hstate hready
  | running => exact absurd hidle ((hr'.sched.running u).mp hstate).2.2
  | suspended => exact .inl rfl
  | deleted => exact .inr (.inl rfl)
  | blocked =>
    refine .inr (.inr ⟨rfl, ?_⟩)
    obtain ⟨p, hp⟩ := (hi'.parked u hu hstate).resolve_left fun hk ↦ hdelayed ⟨hk, hstate⟩
    refine ⟨p, hp, fun m'' hpm ↦ hfree m'' ?_⟩
    exact (hr'.mem_waitList_iff (p := .mutex m'') rfl u).mpr ⟨hpm ▸ hp, hstate⟩

end Runs

/-- Task 0 locks mutex 1, task 1 locks mutex 0 and waits for mutex 1, task 2 waits for mutex 0. -/
def chainRun : List (Act Unit) :=
  [.call (.xTaskCreate 1), .call (.xTaskCreate 1), .call (.xTaskCreate 1),
    .call .vTaskStartScheduler, .call (.lock 1), .call (.vTaskDelay 0), .dispatch, .call (.lock 0),
    .call (.lock 1), .dispatch, .call (.lock 0)]

def chainAt : Nat → Sys Unit := stateAt Sys.exec chainRun (.init {})

private theorem chainRun_isSome : (runActs Sys.exec chainRun (.init {})).isSome = true := by
  decide +kernel

private theorem reach_chain : Reach IsInit (LockDisciplined id) (Step .code) (chainAt 11) := by
  have hrun : IsRun IsInit (fun s a ↦ PlainDisciplined s a ∧ Asks DelayCalls s (.act a))
      (Step .code) 11 chainAt fun i ↦ chainRun.getD i .dispatch :=
    IsRun.of_guardedRun Step.of_exec chainRun .dispatch ⟨{}, rfl⟩ (by decide +kernel)
      chainRun_isSome
  have horder : ∀ i < 11, LocksInOrder id (chainAt i) (chainRun.getD i .dispatch) := by
    intro i hi
    match i with
    | 4 | 7 | 10 =>
      -- the task that locks owns nothing yet
      intro m ho
      match m with
      | 0 | 1 => exact absurd ho (by decide +kernel)
      | m + 2 => cases ho
    | 8 =>
      intro m ho
      match m with
      | 0 => exact Nat.zero_lt_one
      | 1 => exact absurd ho (by decide +kernel)
      | m + 2 => cases ho
    | 0 | 1 | 2 | 3 | 5 | 6 | 9 => trivial
  have hordered : IsRun IsInit (LockDisciplined id) (Step .code) 11 chainAt
      fun i ↦ chainRun.getD i .dispatch := by
    refine ⟨hrun.start, fun i hi ↦ ?_, hrun.next⟩
    exact ⟨(hrun.guarded i hi).1, (hrun.guarded i hi).2, horder i hi⟩
  exact hordered.reach (Nat.le_refl 11)

/-- The chain that task 2 waits in ends at task 0. -/
theorem lockOrder_no_deadlock_chain :
    ∃ u m', TransGen (chainAt 11).WaitsFor 2 u ∧ ((chainAt 11).mutex m').owner = u ∧
      u < (chainAt 11).sched.taskCount ∧ ∀ m'', u ∉ ((chainAt 11).mutex m'').waiters :=
  (lockOrder_no_deadlock id (chainAt 11) reach_chain).2.1 2 0 (by decide +kernel)

end McuSimulator.Rtos
