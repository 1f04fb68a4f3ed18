import McuSimulator.Rtos.Mutex
import McuSimulator.Rtos.Semaphore
import McuSimulator.Rtos.Preemption

/-!
# Overtaking at a mutex or a semaphore

`unlock` and `give` hand over to the first waiter of the best priority and move the last entry of
the array into its place. While a task waits, its place never moves back, and a task of the same
priority is handed the mutex before it only from a place before it. A task whose entry is moved
there from behind it overtakes it, any number of times.
-/

namespace McuSimulator.Rtos

open McuSimulator.Base

variable {α : Type}

/-! ### The best waiter -/

/-- A waiter of the same priority as the chosen one stands behind it. -/
theorem idxOf_bestIdx_lt {f : TaskHandle → Nat} {ws : List TaskHandle} {x y : TaskHandle}
    (hn : ws.Nodup) (hlt : bestIdx f ws < ws.length) (hy : ws[bestIdx f ws] = y) (hx : x ∈ ws)
    (hne : y ≠ x) (hf : f y = f x) : ws.idxOf y < ws.idxOf x := by
  have hyidx : ws.idxOf y = bestIdx f ws := by
    have hidx := hn.idxOf_getElem _ hlt
    rwa [hy] at hidx
  have hxlt : ws.idxOf x < ws.length := List.idxOf_lt_length_iff.mpr hx
  have hxget : ws[ws.idxOf x] = x := List.getElem_idxOf hxlt
  obtain ⟨y', hy', hleast⟩ := firstLeast_bestIdx f (Nat.lt_of_le_of_lt (Nat.zero_le _) hlt)
  rw [List.getElem?_eq_getElem hlt, hy] at hy'
  obtain rfl := Option.some.inj hy'
  have hstrict := (hleast (ws.idxOf x) x (by rw [List.getElem?_eq_getElem hxlt, hxget])).2
  have hxy : ws.idxOf x ≠ bestIdx f ws := by
    intro heq
    have hsame : ws[ws.idxOf x] = ws[bestIdx f ws] := by simp only [heq]
    exact hne (hy.symm.trans (hsame.symm.trans hxget))
  omega

/-! ### Steps on a waiter array -/

/-- A mutex or a semaphore. -/
def Prim.IsLock : Prim → Prop
  | .mutex _ | .sem _ => True
  | _ => False

/-- A task could take the mutex, or a unit, without waiting. -/
def Sys.Free (s : Sys α) : Prim → Prop
  | .mutex m => (s.mutex m).owner = invalidTask
  | .sem i => 0 < (s.sem i).count
  | _ => False

/-- What one step can do to the waiters of a mutex or a semaphore. -/
inductive ArrayStep (p : Prim) (s s' : Sys α) : Prop
  | keep (h : s'.waitList p = s.waitList p)
  | join (h : s'.waitList p = s.waitList p ++ [s.me])
  | handOver (hlt : bestIdx s.sched.getPriority (s.waitList p) < (s.waitList p).length)
      (h : s'.waitList p =
        swapRemove (s.waitList p) (bestIdx s.sched.getPriority (s.waitList p)))

/-- The step takes the entry of the task out of the array. Only `unlock` and `give` do, for the
task they hand over to. -/
def Sys.HandsOver (p : Prim) (t : TaskHandle) (s s' : Sys α) : Prop :=
  t ∈ s.waitList p ∧ t ∉ s'.waitList p

instance (p : Prim) (t : TaskHandle) (s s' : Sys α) : Decidable (Sys.HandsOver p t s s') :=
  inferInstanceAs (Decidable (_ ∧ _))

/-- The step hands over from a place before `x` while `y` stands last, behind `x`. -/
def Sys.Leaps (p : Prim) (x y : TaskHandle) (s s' : Sys α) : Prop :=
  (∃ t ∈ s.waitList p, t ∉ s'.waitList p ∧ (s.waitList p).idxOf t < (s.waitList p).idxOf x) ∧
    (s.waitList p).idxOf x < (s.waitList p).idxOf y ∧
    (s.waitList p).idxOf y + 1 = (s.waitList p).length

instance (p : Prim) (x y : TaskHandle) (s s' : Sys α) : Decidable (Sys.Leaps p x y s s') :=
  inferInstanceAs (Decidable (_ ∧ _))

section Steps

variable {D : Dispatcher} {s s' : Sys α} {a : Act α}

private theorem waiters_unlock (m : Nat) (h : 0 < (s.mutex m).waiters.length) :
    ((s.unlock m).mutex m).waiters = swapRemove (s.mutex m).waiters
      (bestIdx s.sched.getPriority (s.mutex m).waiters) := by
  unfold Sys.unlock
  dsimp only
  rw [if_pos (show 0 < ((s.emit (.unlocked m s.me)).mutex m).waiters.length from h)]
  simp [Sys.unblockFor, Sys.continueWith, Sys.setMutex, Sys.emit]

private theorem waiters_give (i : Nat) (h : 0 < (s.sem i).waiters.length) :
    ((s.give i).sem i).waiters = swapRemove (s.sem i).waiters
      (bestIdx s.sched.getPriority (s.sem i).waiters) := by
  unfold Sys.give
  dsimp only
  split
  · simp [Sys.unblockFor, Sys.continueWith, Sys.setSem, Sys.emit]
  · next hn => exact absurd h hn

private theorem arrayStep_mutex (h : Step D s a s') (hs : SchedInv s) (hw : WaitInv s)
    (hg : TasksOnly s a) (m : Nat) : ArrayStep (.mutex m) s s' := by
  have howner : ∀ o, s'.mutex m = { s.mutex m with owner := o } → ArrayStep (.mutex m) s s' := by
    intro o hm
    have hwaiters := congrArg Mutex.waiters hm
    exact .keep hwaiters
  cases h.mutexStep hs hg m with
  | frame hm hk hlog => exact .keep (congrArg Mutex.waiters hm)
  | acquire hme hu ho hm hk hlog => exact howner _ hm
  | wait ha hp hme ho hm hk hlog =>
    refine .join ((congrArg Mutex.waiters hm).trans ?_)
    exact hw.register_eq hs hp hme (.mutex m)
  | handOff ha hu i w hi hwi hm hk hlog =>
    have hpos : 0 < (s.mutex m).waiters.length := Nat.lt_of_le_of_lt (Nat.zero_le i) hi
    subst ha
    cases h with
    | call hp hk hi => exact .handOver (bestIdx_lt _ _ hpos) (waiters_unlock m hpos)
  | release ha hu hwn hm hk hlog => exact howner _ hm
  | enter hp hme hl hm hk hlog => exact .keep (congrArg Mutex.waiters hm)

private theorem arrayStep_sem (h : Step D s a s') (hs : SchedInv s) (hw : WaitInv s)
    (hg : TasksOnly s a) (i : Nat) : ArrayStep (.sem i) s s' := by
  by_cases ho : a.obj s = some (.sem i)
  · cases h with
    | @call op hp hk hi =>
      cases op with
      | take i' =>
        obtain rfl := Obj.sem.inj (Option.some.inj ho)
        have hme : s.me ≠ invalidTask := fun hm ↦ hg hm
        show ArrayStep (.sem i') s (s.take i')
        unfold Sys.take
        split
        · exact .keep (by simp [Sys.waitList, Sys.setSem, Sys.emit])
        · rw [blockCurrent_eq (u := s.setSem i' _) hme]
          refine .join ?_
          rw [← hw.register_eq hs hp hme (.sem i')]
          simp [Sys.waitList, Sys.setSem]
      | give i' =>
        obtain rfl := Obj.sem.inj (Option.some.inj ho)
        show ArrayStep (.sem i') s (s.give i')
        by_cases hpos : 0 < (s.sem i').waiters.length
        · exact .handOver (bestIdx_lt _ _ hpos) (waiters_give i' hpos)
        · refine .keep ?_
          unfold Sys.give
          dsimp only
          rw [if_neg (show ¬ 0 < ((s.emit _).sem i').waiters.length from hpos)]
          split <;> simp [Sys.waitList, Sys.setSem, Sys.emit]
      | tryTake i' =>
        obtain rfl := Obj.sem.inj (Option.some.inj ho)
        show ArrayStep (.sem i') s (s.tryTake i')
        unfold Sys.tryTake
        split <;> exact .keep (by simp [Sys.waitList, Sys.setSem, Sys.emit])
      | _ => cases ho
    | resume hp hk =>
      simp only [Act.obj] at ho
      cases hc : s.kont s.me with
      | takeWait i' => exact .keep rfl
      | _ =>
        rw [hc] at ho
        cases ho
    | dispatch => cases ho
  · exact .keep (congrArg Semaphore.waiters (h.sameBut.sem i ho))

/-- Every step does one of these to the waiters. -/
theorem Step.arrayStep (h : Step D s a s') (hs : SchedInv s) (hw : WaitInv s)
    (hg : TasksOnly s a) {p : Prim} (hp : p.IsLock) : ArrayStep p s s' := by
  cases p with
  | mutex m => exact arrayStep_mutex h hs hw hg m
  | sem i => exact arrayStep_sem h hs hw hg i
  | _ => exact hp.elim

/-! ### Nobody takes it past the waiters -/

/-- While a task waits, neither the mutex nor a unit can be taken without waiting. -/
theorem not_free_step (h : Step D s a s') (hs : SchedInv s) (hw : WaitInv s)
    (hg : TasksOnly s a) {p : Prim} (hp : p.IsLock) (hf : s.waitList p ≠ [] → ¬ s.Free p)
    (hne : s'.waitList p ≠ []) : ¬ s'.Free p := by
  cases p with
  | mutex m =>
    rw [Sys.Free]
    cases h.mutexStep hs hg m with
    | frame hm hk hlog =>
      rw [Sys.waitList, hm] at hne
      rw [hm]
      exact hf hne
    | acquire hme hu ho hm hk hlog =>
      rw [hm]
      exact hme
    | wait ha hph hme ho hm hk hlog =>
      rw [hm]
      exact ho
    | handOff ha hu i w hi hwi hm hk hlog =>
      have howed := hw.owed_of_mem (p := .mutex m) (hwi ▸ List.getElem_mem hi)
      rw [hm]
      exact hs.ne_invalid (hs.lt_of_waitsOn howed.1)
    | release ha hu hwn hm hk hlog =>
      rw [Sys.waitList, hm] at hne
      exact absurd hwn hne
    | enter hph hme hl hm hk hlog =>
      rw [Sys.waitList, hm] at hne
      rw [hm]
      exact hf hne
  | sem i =>
    rw [Sys.Free]
    cases h.semStep hg i with
    | frame hm hlog =>
      rw [Sys.waitList, hm] at hne
      rw [hm]
      exact hf hne
    | take hc hm hlog =>
      rw [Sys.waitList, hm] at hne
      exact absurd hc (hf hne)
    | wait hc hm hlog =>
      rw [hm]
      exact Int.not_lt.mpr hc
    | handOff hw' b w hm hlog =>
      rw [hm]
      exact hf hw'
    | add hw' hc hm hlog =>
      rw [Sys.waitList, hm] at hne
      exact absurd hw' hne
    | saturate hw' hc hm hlog =>
      rw [Sys.waitList, hm] at hne
      exact absurd hw' hne
  | _ => exact hp.elim

end Steps

/-! ### One step while a task waits -/

section Waiting

variable {s s' : Sys α} {a : Act α} {p : Prim} {x y : TaskHandle}

/-- The place of a waiting task never moves back. -/
theorem ArrayStep.idxOf_le (h : ArrayStep p s s') (hn : (s.waitList p).Nodup)
    (hx : x ∈ s.waitList p) (hx' : x ∈ s'.waitList p) :
    (s'.waitList p).idxOf x ≤ (s.waitList p).idxOf x := by
  cases h with
  | keep h => exact Nat.le_of_eq (by rw [h])
  | join h => exact Nat.le_of_eq (by rw [h, List.idxOf_append_of_mem hx])
  | handOver hlt h =>
    rw [h] at hx' ⊢
    exact idxOf_swapRemove_le hn hlt hx ((mem_swapRemove_iff hlt hn x).mp hx').2

/-- A task of the same priority is handed over to from a place before the waiting task. -/
theorem ArrayStep.idxOf_lt (h : ArrayStep p s s') (hn : (s.waitList p).Nodup)
    (hx : x ∈ s.waitList p) (hne : y ≠ x)
    (hf : s.sched.getPriority y = s.sched.getPriority x) (hy : Sys.HandsOver p y s s') :
    (s.waitList p).idxOf y < (s.waitList p).idxOf x := by
  obtain ⟨hin, hout⟩ := hy
  cases h with
  | keep h => exact absurd (h ▸ hin) hout
  | join h => exact absurd (h ▸ List.mem_append_left _ hin) hout
  | handOver hlt h =>
    rw [h, mem_swapRemove_iff hlt hn, not_and, not_not] at hout
    exact idxOf_bestIdx_lt hn hlt (hout hin).symm hx hne hf

/-- Unless it leaps, who stands before the waiting task did so before the step, and was not handed
over to. -/
theorem ArrayStep.idxOf_lt_of (h : ArrayStep p s s') (hn : (s.waitList p).Nodup)
    (hx : x ∈ s.waitList p) (hx' : x ∈ s'.waitList p) (hl : ¬ Sys.Leaps p x y s s')
    (hy : (s'.waitList p).idxOf y < (s'.waitList p).idxOf x) :
    ¬ Sys.HandsOver p y s s' ∧ (s.waitList p).idxOf y < (s.waitList p).idxOf x := by
  have hy' : y ∈ s'.waitList p :=
    List.idxOf_lt_length_iff.mp (Nat.lt_trans hy (List.idxOf_lt_length_iff.mpr hx'))
  refine ⟨fun hh ↦ hh.2 hy', ?_⟩
  cases h with
  | keep h => rwa [h] at hy
  | join h =>
    have hxlt : (s.waitList p).idxOf x < (s.waitList p).length := List.idxOf_lt_length_iff.mpr hx
    rw [h, List.idxOf_append_of_mem hx] at hy
    by_cases hin : y ∈ s.waitList p
    · rwa [List.idxOf_append_of_mem hin] at hy
    · rw [List.idxOf_append_of_notMem hin] at hy
      omega
  | handOver hlt h =>
    rw [h] at hx' hy
    refine (idxOf_lt_of_swapRemove hn hlt hx ((mem_swapRemove_iff hlt hn x).mp hx').2 ?_ hy).2
    intro hc
    have hidx := hn.idxOf_getElem _ hlt
    refine hl ⟨⟨_, List.getElem_mem hlt, ?_, ?_⟩, hc.2⟩
    · rw [h, mem_swapRemove_iff hlt hn]
      exact fun hm ↦ hm.2 rfl
    · rw [hidx]
      exact hc.1

end Waiting

/-! ### Runs -/

/-- The priority of an existing task never changes. -/
theorem ApiStep.getPriority_eq {s s' : Sys α} {a : ApiAct α} (h : ApiStep s a s')
    (hcount : s.sched.taskCount ≤ maxTasks) {t : TaskHandle} (ht : t < s.sched.taskCount) :
    t < s'.sched.taskCount ∧ s'.sched.getPriority t = s.sched.getPriority t := by
  have heq : ∀ v : Scheduler, s.sched.taskCount ≤ v.taskCount →
      (v.tasks t).priority = (s.sched.tasks t).priority →
      t < v.taskCount ∧ v.getPriority t = s.sched.getPriority t := by
    intro v hle hp
    have hlt : t < v.taskCount := Nat.lt_of_lt_of_le ht hle
    refine ⟨hlt, ?_⟩
    rw [Scheduler.getPriority, Scheduler.getPriority, if_neg (Nat.not_le.mpr hlt),
      if_neg (Nat.not_le.mpr ht), hp]
  rcases h.served hcount with ⟨-, hr⟩ | ⟨hp, -, he, -⟩
  · exact heq _ hr.taskCount_le (hr.priority_eq ht)
  · obtain ⟨u, hu, hd⟩ := s.sched.dispatch_advanced hp
    have hpu : (u.tasks t).priority = (s.sched.tasks t).priority := woken_priority (hu.woken t)
    rw [he]
    generalize s.sched.dispatch s.phase = v at hd
    cases hd with
    | switch hn =>
      refine heq _ (Nat.le_of_eq hu.taskCount.symm) ?_
      rw [← hpu]
      exact Scheduler.priority_setState _ _ _ _
    | idle hn he => exact heq _ (Nat.le_of_eq hu.taskCount.symm) hpu

section Runs

variable [Inhabited α] {p : Prim} {n : Nat} {states : Nat → Sys α} {labels : Nat → Act α}

/-- What the invariants say of each step of a run. -/
theorem arrayStep_of_run (h : IsRun IsInit PlainDisciplined (Step .code) n states labels)
    (hp : p.IsLock) {i : Nat} (hi : i < n) :
    RunInv (states i) ∧ ArrayStep p (states i) (states (i + 1)) := by
  have hr := runInv_of_reach (h.reach (Nat.le_of_lt hi))
  exact ⟨hr, (h.next i hi).arrayStep hr.sched hr.wait (h.guarded i hi).1.1 hp⟩

/-- A task keeps its priority to the end of the run. -/
theorem getPriority_of_run (h : IsRun IsInit PlainDisciplined (Step .code) n states labels)
    {i j : Nat} (hij : i ≤ j) (hj : j ≤ n) {t : TaskHandle}
    (ht : t < (states i).sched.taskCount) :
    t < (states j).sched.taskCount ∧
      (states j).sched.getPriority t = (states i).sched.getPriority t := by
  induction hij with
  | refl => exact ⟨ht, rfl⟩
  | @step j hij ih =>
    obtain ⟨hlt, hprio⟩ := ih (Nat.le_of_succ_le hj)
    have hr := runInv_of_reach (h.reach (Nat.le_of_succ_le hj))
    obtain ⟨hlt', hprio'⟩ :=
      (ApiStep.act (h.next j hj)).getPriority_eq hr.sched.taskCount_le hlt
    exact ⟨hlt', hprio'.trans hprio⟩

/-- While a task waits there is nothing to take past it. -/
theorem not_free_of_run (h : IsRun IsInit PlainDisciplined (Step .code) n states labels)
    (hp : p.IsLock) {i : Nat} (hi : i ≤ n) (hne : (states i).waitList p ≠ []) :
    ¬ (states i).Free p := by
  induction i with
  | zero =>
    obtain ⟨cfg, hcfg⟩ := h.start
    rw [hcfg] at hne
    cases p with
    | mutex m => exact absurd rfl hne
    | sem i => exact absurd rfl hne
    | _ => exact hp.elim
  | succ i ih =>
    have hr := runInv_of_reach (h.reach (Nat.le_of_succ_le hi))
    exact not_free_step (h.next i hi) hr.sched hr.wait (h.guarded i hi).1.1 hp
      (ih (Nat.le_of_succ_le hi)) hne

variable {x y : TaskHandle} {a b : Nat}

/-- A task of the same priority that has been handed over to is not before the waiting one any
more, and unless it leaps does not get there again. -/
theorem not_before_of_handsOver
    (h : IsRun IsInit PlainDisciplined (Step .code) n states labels) (hp : p.IsLock) (hb : b < n)
    (hw : ∀ i, a ≤ i → i ≤ b → x ∈ (states i).waitList p)
    (hl : ∀ i, a ≤ i → i ≤ b → ¬ Sys.Leaps p x y (states i) (states (i + 1))) {j k : Nat}
    (hj : a ≤ j) (hjk : j + 1 ≤ k) (hk : k ≤ b)
    (hy : Sys.HandsOver p y (states j) (states (j + 1))) :
    ¬ ((states k).waitList p).idxOf y < ((states k).waitList p).idxOf x := by
  have hback : ∀ i, j ≤ i → i + 1 ≤ b →
      ((states (i + 1)).waitList p).idxOf y < ((states (i + 1)).waitList p).idxOf x →
      ¬ Sys.HandsOver p y (states i) (states (i + 1)) ∧
        ((states i).waitList p).idxOf y < ((states i).waitList p).idxOf x := by
    intro i hji hib hlt
    obtain ⟨hr, hst⟩ := arrayStep_of_run h hp (show i < n by omega)
    exact hst.idxOf_lt_of (hr.wait.nodup p) (hw i (by omega) (by omega))
      (hw (i + 1) (by omega) hib) (hl i (by omega) (by omega)) hlt
  induction hjk with
  | refl => exact fun hlt ↦ (hback j (Nat.le_refl j) hk hlt).1 hy
  | @step k hjk ih =>
    intro hlt
    have hjk' : j + 1 ≤ k := hjk
    exact ih (Nat.le_of_succ_le hk) (hback k (by omega) hk hlt).2

/-- Bounded overtaking. While `x` waits at a mutex or a semaphore, nobody takes it without
waiting, the place of `x` never moves back, a task `y` of the same priority is not handed over to
once `x` is first, and it is handed over to at most once as long as no hand-over moves the entry of
`y` from behind `x` to a place before it. -/
theorem bounded_overtaking (h : IsRun IsInit PlainDisciplined (Step .code) n states labels)
    (hp : p.IsLock) (hb : b < n) (hw : ∀ i, a ≤ i → i ≤ b → x ∈ (states i).waitList p)
    (hne : y ≠ x) (hprio : (states b).sched.getPriority y = (states b).sched.getPriority x) :
    (∀ i, a ≤ i → i ≤ b → ¬ (states i).Free p) ∧
    (∀ i, a ≤ i → i + 1 ≤ b →
      ((states (i + 1)).waitList p).idxOf x ≤ ((states i).waitList p).idxOf x) ∧
    (∀ i, a ≤ i → i ≤ b → ((states i).waitList p).idxOf x = 0 →
      ¬ Sys.HandsOver p y (states i) (states (i + 1))) ∧
    ((∀ i, a ≤ i → i ≤ b → ¬ Sys.Leaps p x y (states i) (states (i + 1))) →
      ∀ j k, a ≤ j → j ≤ b → a ≤ k → k ≤ b →
        Sys.HandsOver p y (states j) (states (j + 1)) →
        Sys.HandsOver p y (states k) (states (k + 1)) → j = k) := by
  have hbefore : ∀ i, a ≤ i → i ≤ b → Sys.HandsOver p y (states i) (states (i + 1)) →
      ((states i).waitList p).idxOf y < ((states i).waitList p).idxOf x := by
    intro i hai hib hy
    obtain ⟨hr, hst⟩ := arrayStep_of_run h hp (show i < n by omega)
    have hlt : ∀ t, t ∈ (states i).waitList p → t < (states i).sched.taskCount := fun t ht ↦
      hr.sched.lt_of_waitsOn (hr.wait.owed_of_mem ht).1
    have hx := hw i hai hib
    refine hst.idxOf_lt (hr.wait.nodup p) hx hne ?_ hy
    rw [← (getPriority_of_run h hib (Nat.le_of_lt hb) (hlt y hy.1)).2,
      ← (getPriority_of_run h hib (Nat.le_of_lt hb) (hlt x hx)).2]
    exact hprio
  refine ⟨fun i hai hib ↦ ?_, fun i hai hib ↦ ?_, fun i hai hib hz hy ↦ ?_, fun hl ↦ ?_⟩
  · exact not_free_of_run h hp (by omega) (List.ne_nil_of_mem (hw i hai hib))
  · obtain ⟨hr, hst⟩ := arrayStep_of_run h hp (show i < n by omega)
    exact hst.idxOf_le (hr.wait.nodup p) (hw i hai (by omega)) (hw (i + 1) (by omega) hib)
  · have hlt := hbefore i hai hib hy
    omega
  · intro j k haj hjb hak hkb hyj hyk
    rcases Nat.lt_trichotomy j k with hjk | heq | hjk
    · exact absurd (hbefore k hak hkb hyk) (not_before_of_handsOver h hp hb hw hl haj hjk hkb hyj)
    · exact heq
    · exact absurd (hbefore j haj hjb hyj) (not_before_of_handsOver h hp hb hw hl hak hjk hjb hyk)

end Runs

/-- Four tasks of one priority lock and unlock in turn, and each locks again at once. Task 2 waits
in the second place, and each hand-over moves the last entry to the first one. -/
def overtakenRun : List (Act Unit) :=
  [.call (.xTaskCreate 1), .call (.xTaskCreate 1), .call (.xTaskCreate 1), .call (.xTaskCreate 1),
    .call .vTaskStartScheduler, .call (.lock 0), .call (.vTaskDelay 0), .dispatch,
    .call (.lock 0), .dispatch, .call (.lock 0), .dispatch, .call (.lock 0), .dispatch,
    .call (.unlock 0), .call (.lock 0), .dispatch, .resume, .call (.unlock 0),
    .call (.lock 0), .dispatch, .resume, .call (.unlock 0), .call (.lock 0), .dispatch,
    .resume, .call (.unlock 0), .call (.lock 0), .dispatch, .resume, .call (.unlock 0)]

/-- The states of that run. -/
def overtakenAt : Nat → Sys Unit := stateAt Sys.exec overtakenRun (.init {})

private theorem overtakenRun_isSome : (runActs Sys.exec overtakenRun (.init {})).isSome = true := by
  decide +kernel

private theorem isRun_overtaken : IsRun IsInit PlainDisciplined (Step .code) 31 overtakenAt
    (fun i ↦ overtakenRun.getD i .dispatch) :=
  IsRun.of_guardedRun Step.of_exec overtakenRun .dispatch ⟨{}, rfl⟩ (by decide +kernel)
    overtakenRun_isSome

private theorem waits_overtaken : ∀ i < 31, 11 ≤ i → 2 ∈ (overtakenAt i).waitList (.mutex 0) := by
  have hwaits : GuardedRun (fun (s : Sys Unit) (_ : Act Unit) ↦ 2 ∈ s.waitList (.mutex 0))
      Sys.exec (overtakenRun.drop 11) (overtakenAt 11) := by
    decide +kernel
  intro i hi hle
  exact guard_stateAt .dispatch overtakenRun_isSome hwaits hi hle

private theorem getPriority_overtaken :
    (overtakenAt 30).sched.getPriority 3 = (overtakenAt 30).sched.getPriority 2 := by
  decide +kernel

private theorem handsOver_overtaken : Sys.HandsOver (.mutex 0) 3 (overtakenAt 18) (overtakenAt 19) ∧
    Sys.HandsOver (.mutex 0) 3 (overtakenAt 30) (overtakenAt 31) := by
  decide +kernel

/-- Task 3 is handed the mutex twice while task 2 waits, whose place stays where it is. -/
theorem bounded_overtaking_four :
    (Sys.HandsOver (.mutex 0) 3 (overtakenAt 18) (overtakenAt 19) ∧
      Sys.HandsOver (.mutex 0) 3 (overtakenAt 30) (overtakenAt 31)) ∧
    (∀ i, 11 ≤ i → i + 1 ≤ 30 → ((overtakenAt (i + 1)).waitList (.mutex 0)).idxOf 2 ≤
      ((overtakenAt i).waitList (.mutex 0)).idxOf 2) :=
  ⟨handsOver_overtaken,
    (bounded_overtaking (p := .mutex 0) (y := 3) isRun_overtaken trivial (b := 30) (by decide)
      (fun i hi hle ↦ waits_overtaken i (by omega) hi) (by decide) getPriority_overtaken).2.1⟩

/-- Overtaking is not bounded by one. -/
theorem not_bounded_overtaking : ¬ ∀ (n : Nat) (states : Nat → Sys Unit) (labels : Nat → Act Unit)
    (p : Prim) (x y : TaskHandle) (a b : Nat),
    IsRun IsInit PlainDisciplined (Step .code) n states labels → p.IsLock → b < n →
    (∀ i, a ≤ i → i ≤ b → x ∈ (states i).waitList p) → y ≠ x →
    (states b).sched.getPriority y = (states b).sched.getPriority x →
    ∀ j k, a ≤ j → j ≤ b → a ≤ k → k ≤ b → Sys.HandsOver p y (states j) (states (j + 1)) →
      Sys.HandsOver p y (states k) (states (k + 1)) → j = k := by
  intro h
  have hsame := h 31 overtakenAt _ (.mutex 0) 2 3 11 30 isRun_overtaken trivial (by decide)
    (fun i hi hle ↦ waits_overtaken i (by omega) hi) (by decide) getPriority_overtaken 18 30
    (by decide) (by decide) (by decide) (by decide) handsOver_overtaken.1 handsOver_overtaken.2
  cases hsame

end McuSimulator.Rtos
