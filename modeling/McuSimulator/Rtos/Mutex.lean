import McuSimulator.Rtos.Discipline

/-!
# Mutual exclusion

`Inside` reads from the log whether a task is between the return of a `lock` or successful
`try_lock` and its `unlock`. What one step can do to a mutex is `MutexStep`; from it follow
that a waiter taken out of the array owns the mutex (`HandOff`), and, for programs that
unlock only what they own and do not lock it twice, that the task inside is the owner
(`MutexInv`). Both hold in every order of scheduling, so also when the task an `unlock`
hands the mutex to preempts it.
-/

namespace McuSimulator.Rtos

open McuSimulator.Base

variable {α : Type}

/-- The task is between the return of a `lock` or successful `try_lock` and its `unlock`. -/
def Inside (m : Nat) (t : TaskHandle) : List (Event α) → Prop
  | [] => False
  | .acquired m' t' :: es => (m' = m ∧ t' = t) ∨ Inside m t es
  | .unlocked m' t' :: es => ¬ (m' = m ∧ t' = t) ∧ Inside m t es
  | _ :: es => Inside m t es

/-- Events about other objects do not matter. -/
theorem inside_append {m : Nat} {t : TaskHandle} {es l : List (Event α)}
    (h : ∀ x ∈ es, x.obj ≠ .mutex m) : Inside m t (es ++ l) ↔ Inside m t l := by
  induction es with
  | nil => exact Iff.rfl
  | cons x es ih =>
    have hx := h x List.mem_cons_self
    rw [List.cons_append, ← ih fun y hy ↦ h y (List.mem_cons_of_mem _ hy)]
    cases x with
    | acquired m' t' =>
      have hm : m' ≠ m := fun he ↦ hx (by rw [he]; rfl)
      simp [Inside, hm]
    | unlocked m' t' =>
      have hm : m' ≠ m := fun he ↦ hx (by rw [he]; rfl)
      simp [Inside, hm]
    | _ => exact Iff.rfl

/-- A task that `unlock` has chosen as the owner and that has not returned from `lock` yet. -/
def Sys.Chosen (s : Sys α) (m : Nat) (t : TaskHandle) : Prop :=
  s.kont t = .lockWait m ∧ t ∉ (s.mutex m).waiters

/-! ### Steps on a mutex -/

/-- What one step can do to a mutex. -/
inductive MutexStep (m : Nat) (s : Sys α) (a : Act α) (s' : Sys α) : Prop
  | frame (hm : s'.mutex m = s.mutex m)
      (hk : ∀ t, s'.kont t = .lockWait m ↔ s.kont t = .lockWait m)
      (hlog : ∃ es, s'.log = es ++ s.log ∧ ∀ x ∈ es, x.obj ≠ .mutex m)
  | acquire (hme : s.me ≠ invalidTask) (hu : s.kont s.me = .user)
      (ho : (s.mutex m).owner = invalidTask)
      (hm : s'.mutex m = { s.mutex m with owner := s.me }) (hk : s'.kont = s.kont)
      (hlog : s'.log = .acquired m s.me :: s.log)
  | wait (ha : a = .call (.lock m)) (hp : s.phase = .code) (hme : s.me ≠ invalidTask)
      (ho : (s.mutex m).owner ≠ invalidTask)
      (hm : s'.mutex m = { s.mutex m with waiters := register (s.mutex m).waiters s.me })
      (hk : s'.kont = Function.update s.kont s.me (.lockWait m))
      (hlog : s'.log = .blocked (.mutex m) s.me :: s.log)
  | handOff (ha : a = .call (.unlock m)) (hu : s.kont s.me = .user) (i : Nat) (w : TaskHandle)
      (hi : i < (s.mutex m).waiters.length) (hw : (s.mutex m).waiters[i] = w)
      (hm : s'.mutex m = { owner := w, waiters := swapRemove (s.mutex m).waiters i })
      (hk : s'.kont = s.kont)
      (hlog : s'.log = .unblock (.mutex m) w :: .unlocked m s.me :: s.log)
  | release (ha : a = .call (.unlock m)) (hu : s.kont s.me = .user)
      (hw : (s.mutex m).waiters = [])
      (hm : s'.mutex m = { s.mutex m with owner := invalidTask }) (hk : s'.kont = s.kont)
      (hlog : s'.log = .unlocked m s.me :: s.log)
  | enter (hp : s.phase = .code) (hme : s.me ≠ invalidTask) (hl : s.kont s.me = .lockWait m)
      (hm : s'.mutex m = s.mutex m)
      (hk : s'.kont = Function.update s.kont s.me .user)
      (hlog : s'.log = .acquired m s.me :: s.log)

section Steps

variable {D : Dispatcher} {s s' : Sys α} {a : Act α}

private theorem lock_mutexStep (m : Nat) (hp : s.phase = .code) (hu : s.kont s.me = .user)
    (hm : s.me ≠ invalidTask) : MutexStep m s (.call (.lock m)) (s.lock m) := by
  unfold Sys.lock
  split
  · next ho => exact .acquire hm hu ho (by simp [Sys.setMutex, Sys.emit]) rfl rfl
  · next ho =>
    have hb := blockCurrent_eq (u := s.setMutex m { s.mutex m with
      waiters := register (s.mutex m).waiters s.me }) hm (.mutex m) (.lockWait m)
    rw [hb]
    exact .wait rfl hp hm ho (by simp [Sys.setMutex]) rfl rfl

private theorem tryLock_mutexStep (m : Nat) (hu : s.kont s.me = .user)
    (hm : s.me ≠ invalidTask) : MutexStep m s a (s.tryLock m) := by
  unfold Sys.tryLock
  split
  · exact .frame rfl (fun _ ↦ Iff.rfl) ⟨[], rfl, by simp⟩
  · next ho =>
    exact .acquire hm hu (Decidable.not_not.mp ho) (by simp [Sys.setMutex, Sys.emit]) rfl rfl

private theorem unlock_mutexStep (m : Nat) (hu : s.kont s.me = .user) :
    MutexStep m s (.call (.unlock m)) (s.unlock m) := by
  unfold Sys.unlock
  dsimp only
  split
  · next hl =>
    have hi := bestIdx_lt s.sched.getPriority (s.mutex m).waiters hl
    refine .handOff rfl hu _ _ hi rfl ?_ rfl ?_
    · simp [Sys.unblockFor, Sys.continueWith, Sys.setMutex, Sys.emit, hi]
    · simp [Sys.unblockFor, Sys.continueWith, Sys.setMutex, Sys.emit, hi]
  · next hl =>
    have hw : (s.mutex m).waiters = [] :=
      List.eq_nil_of_length_eq_zero (Nat.eq_zero_of_not_pos hl)
    exact .release rfl hu hw (by simp [Sys.setMutex, Sys.emit]) rfl rfl

/-- Every step does one of these to a mutex. -/
theorem Step.mutexStep (h : Step D s a s') (hs : SchedInv s) (hg : TasksOnly s a) (m : Nat) :
    MutexStep m s a s' := by
  by_cases ho : a.obj s = some (.mutex m)
  · cases h with
    | @call op hp hk hi =>
      have hu := hk.eq
      cases op with
      | lock m' =>
        rw [Obj.mutex.inj (Option.some.inj ho)]
        exact lock_mutexStep m hp hu fun hm ↦ hg hm
      | unlock m' =>
        rw [Obj.mutex.inj (Option.some.inj ho)]
        exact unlock_mutexStep m hu
      | tryLock m' =>
        rw [Obj.mutex.inj (Option.some.inj ho)]
        exact tryLock_mutexStep m hu fun hm ↦ hg hm
      | _ => cases ho
    | resume hp hk =>
      simp only [Act.obj] at ho
      cases hc : s.kont s.me with
      | lockWait m' =>
        rw [hc] at ho
        rw [Obj.mutex.inj (Option.some.inj ho)] at hc ⊢
        refine .enter hp (fun hm ↦ ?_) hc rfl rfl rfl
        have hout := hs.outside hm
        rw [hc] at hout
        cases hout
      | _ =>
        rw [hc] at ho
        cases ho
    | dispatch => cases ho
  · have hf := h.sameBut
    refine .frame (hf.mutex m ho) (h.kont_iff hs.fresh ho rfl) ?_
    obtain ⟨es, he, hes⟩ := hf.log
    exact ⟨es, he, fun x hx hxm ↦ ho ((hes x hx).trans (by rw [hxm]))⟩

end Steps

/-! ### Hand-off -/

/-- `unlock` is called by the owner only. -/
def OwnerUnlocks (m : Nat) (s : Sys α) : Act α → Prop
  | .call (.unlock m') => m' = m → (s.mutex m).owner = s.me
  | _ => True

/-- A task that `unlock` has chosen owns the mutex. -/
def HandOff (m : Nat) (s : Sys α) : Prop := ∀ t, s.Chosen m t → (s.mutex m).owner = t

section HandOff

variable {s s' : Sys α} {a : Act α} {m : Nat}

/-- A context inside `lock` is a task. -/
theorem SchedInv.lockWait_ne_invalid (hs : SchedInv s) {t : TaskHandle}
    (h : s.kont t = .lockWait m) : t ≠ invalidTask :=
  hs.ne_invalid (hs.lt_of_kont (by rw [h]; simp))

/-- Waiting at a mutex is waiting inside its `lock`. -/
theorem Kont.eq_lockWait {k : Kont α} (h : k.waitsOn = some (.mutex m)) : k = .lockWait m := by
  cases k <;> cases h
  rfl

/-- A chosen task stays the owner until it returns from `lock`. -/
theorem HandOff.step (h : HandOff m s) (hs : SchedInv s) (hw : WaitInv s)
    (hst : MutexStep m s a s') (hg : OwnerUnlocks m s a) : HandOff m s' := by
  -- nobody is chosen while the owner is at its own code
  have hnone : s.kont s.me = .user → (s.mutex m).owner = s.me → ∀ t, ¬ s.Chosen m t := by
    intro hu ho t ht
    have hkt := ht.1
    rw [← h t ht, ho, hu] at hkt
    cases hkt
  cases hst with
  | frame hm hk hlog =>
    rintro t ⟨hkt, hnt⟩
    rw [hm] at hnt ⊢
    exact h t ⟨(hk t).mp hkt, hnt⟩
  | acquire hme hu ho hm hk hlog =>
    rintro t ⟨hkt, hnt⟩
    rw [hk] at hkt
    rw [hm] at hnt
    exact absurd ((h t ⟨hkt, hnt⟩).symm.trans ho) (hs.lockWait_ne_invalid hkt)
  | wait ha hp hme ho hm hk hlog =>
    rintro t ⟨hkt, hnt⟩
    rw [hm] at hnt ⊢
    have hreg : register (s.mutex m).waiters s.me = (s.mutex m).waiters ++ [s.me] :=
      hw.register_eq hs hp hme (.mutex m)
    have hnt' : t ∉ (s.mutex m).waiters ++ [s.me] := hreg ▸ hnt
    rw [List.mem_append, List.mem_singleton, not_or] at hnt'
    rw [hk, Function.update_of_ne hnt'.2] at hkt
    exact h t ⟨hkt, hnt'.1⟩
  | handOff ha hu i w hi hwi hm hk hlog =>
    rintro t ⟨hkt, hnt⟩
    rw [hk] at hkt
    rw [hm] at hnt ⊢
    rw [ha] at hg
    have hin : t ∈ (s.mutex m).waiters := Classical.byContradiction fun hn ↦
      hnone hu (hg rfl) t ⟨hkt, hn⟩
    rw [mem_swapRemove_iff hi (hw.nodup (.mutex m)), hwi, not_and, not_not] at hnt
    exact (hnt hin).symm
  | release ha hu hwn hm hk hlog =>
    rintro t ⟨hkt, -⟩
    rw [hk] at hkt
    rw [ha] at hg
    exact absurd ⟨hkt, by simp [hwn]⟩ (hnone hu (hg rfl) t)
  | enter hp hme hl hm hk hlog =>
    rintro t ⟨hkt, hnt⟩
    rw [hm] at hnt ⊢
    by_cases ht : t = s.me
    · rw [hk, ht, Function.update_self] at hkt
      cases hkt
    · rw [hk, Function.update_of_ne ht] at hkt
      exact h t ⟨hkt, hnt⟩

end HandOff

/-! ### Mutual exclusion -/

/-- The calls on a mutex of a correct program: `unlock` by the owner only, and no `lock` by
the owner. -/
def MutexCalls (m : Nat) (s : Sys α) : Act α → Prop
  | .call (.lock m') => m' = m → (s.mutex m).owner ≠ s.me
  | .call (.unlock m') => m' = m → (s.mutex m).owner = s.me
  | _ => True

instance (m : Nat) (s : Sys α) (a : Act α) : Decidable (MutexCalls m s a) := by
  induction a using Act.casesOn with
  | call op =>
    induction op using Op.casesOn <;> first
      | exact .isTrue trivial
      | exact inferInstanceAs (Decidable (_ → _ ≠ _))
      | exact inferInstanceAs (Decidable (_ → _ = _))
  | _ => exact .isTrue trivial

/-- The task inside is the owner, and the owner is inside or has just been chosen. -/
structure MutexInv (m : Nat) (s : Sys α) : Prop where
  handOff : HandOff m s
  inside : ∀ t, Inside m t s.log → (s.mutex m).owner = t ∧ t ≠ invalidTask ∧
    s.kont t ≠ .lockWait m
  owned : (s.mutex m).owner ≠ invalidTask →
    Inside m (s.mutex m).owner s.log ∨ s.Chosen m (s.mutex m).owner
  waiting : (s.mutex m).waiters ≠ [] → (s.mutex m).owner ≠ invalidTask

section MutexInv

variable {s s' : Sys α} {a : Act α} {m : Nat}

/-- A task that finds the mutex free, or finds itself the owner, goes inside. -/
theorem MutexInv.acquired (h : MutexInv m s) (hh : HandOff m s') (hme : s.me ≠ invalidTask)
    (ho : (s.mutex m).owner = invalidTask ∨ (s.mutex m).owner = s.me)
    (ho' : (s'.mutex m).owner = s.me) (hk : s'.kont s.me = .user)
    (hlog : s'.log = .acquired m s.me :: s.log) : MutexInv m s' := by
  have hin : ∀ t, Inside m t s'.log ↔ t = s.me := fun t ↦ by
    rw [hlog]
    constructor
    · rintro (⟨-, ht⟩ | ht)
      · exact ht.symm
      · obtain ⟨h1, h2, -⟩ := h.inside t ht
        rcases ho with ho | ho
        · exact absurd (h1.symm.trans ho) h2
        · exact h1.symm.trans ho
    · rintro rfl
      exact .inl ⟨rfl, rfl⟩
  refine ⟨hh, fun t ht ↦ ?_, fun _ ↦ ?_, fun _ ↦ ?_⟩
  · rw [(hin t).mp ht, ho', hk]
    exact ⟨rfl, hme, by simp⟩
  · rw [ho']
    exact .inl ((hin _).mpr rfl)
  · rw [ho']
    exact hme

/-- After `unlock` by the owner nobody is inside. -/
theorem MutexInv.not_inside_unlocked (h : MutexInv m s) (ho : (s.mutex m).owner = s.me)
    (t : TaskHandle) : ¬ Inside m t (.unlocked m s.me :: s.log) := by
  rintro ⟨hne, ht⟩
  exact hne ⟨rfl, ho.symm.trans (h.inside t ht).1⟩

/-- What is proved of the fields other than `handOff` at each kind of step. -/
private theorem MutexInv.of_step (h : MutexInv m s) (hs : SchedInv s) (hw : WaitInv s)
    (hh : HandOff m s') (hst : MutexStep m s a s') (hg : MutexCalls m s a) : MutexInv m s' := by
  cases hst with
  | frame hm hk hlog =>
    obtain ⟨es, he, hes⟩ := hlog
    have hin : ∀ t, Inside m t s'.log ↔ Inside m t s.log := fun t ↦ by
      rw [he, inside_append hes]
    refine ⟨hh, fun t ht ↦ ?_, fun ho ↦ ?_, ?_⟩
    · obtain ⟨h1, h2, h3⟩ := h.inside t ((hin t).mp ht)
      exact ⟨hm ▸ h1, h2, fun hkt ↦ h3 ((hk t).mp hkt)⟩
    · rw [hm] at ho
      simp only [Sys.Chosen, hm, hin, hk]
      exact h.owned ho
    · rw [hm]
      exact h.waiting
  | acquire hme hu ho hm hk hlog =>
    refine h.acquired hh hme (.inl ho) ?_ ?_ hlog
    · rw [hm]
    · rw [hk, hu]
  | wait ha hp hme ho hm hk hlog =>
    have hin : ∀ t, Inside m t s'.log ↔ Inside m t s.log := fun t ↦ by
      rw [hlog]
      exact Iff.rfl
    rw [ha] at hg
    have howner : (s'.mutex m).owner = (s.mutex m).owner := by rw [hm]
    have hkeep : ∀ t, t ≠ s.me → s'.kont t = s.kont t := fun t ht ↦ by
      rw [hk, Function.update_of_ne ht]
    refine ⟨hh, fun t ht ↦ ?_, fun _ ↦ ?_, fun _ ↦ ?_⟩
    · obtain ⟨h1, h2, h3⟩ := h.inside t ((hin t).mp ht)
      refine ⟨howner.trans h1, h2, ?_⟩
      rw [hkeep t fun htm ↦ hg rfl (h1.trans htm)]
      exact h3
    · rw [howner, hin]
      rcases h.owned ho with hi | ⟨hc, hn⟩
      · exact .inl hi
      · refine .inr ⟨?_, ?_⟩
        · rw [hkeep _ (hg rfl), hc]
        · rw [hm]
          have hreg := hw.register_eq hs hp hme (.mutex m)
          change (s.mutex m).owner ∉ register (s.waitList (.mutex m)) s.me
          rw [hreg, List.mem_append, List.mem_singleton]
          exact fun hor ↦ hor.elim hn (hg rfl)
    · rw [howner]
      exact ho
  | handOff ha hu i w hi hwi hm hk hlog =>
    rw [ha] at hg
    have hmem : w ∈ (s.mutex m).waiters := hwi ▸ List.getElem_mem hi
    have howed : s.Owed (.mutex m) w := hw.owed_of_mem hmem
    have hin : ∀ t, ¬ Inside m t s'.log := fun t ↦ by
      rw [hlog]
      exact h.not_inside_unlocked (hg rfl) t
    have hne : w ≠ invalidTask := hs.ne_invalid (hs.lt_of_waitsOn howed.1)
    refine ⟨hh, fun t ht ↦ absurd ht (hin t), fun _ ↦ .inr ?_, fun _ ↦ ?_⟩
    · rw [hm]
      refine ⟨?_, ?_⟩
      · rw [hk]
        exact Kont.eq_lockWait howed.1
      · rw [hm, mem_swapRemove_iff hi (hw.nodup (.mutex m)), hwi]
        simp
    · rw [hm]
      exact hne
  | release ha hu hwn hm hk hlog =>
    rw [ha] at hg
    have hin : ∀ t, ¬ Inside m t s'.log := fun t ↦ by
      rw [hlog]
      exact h.not_inside_unlocked (hg rfl) t
    refine ⟨hh, fun t ht ↦ absurd ht (hin t), fun ho ↦ ?_, fun hne ↦ ?_⟩
    · rw [hm] at ho
      exact absurd rfl ho
    · rw [hm] at hne
      exact absurd hwn hne
  | enter hp hme hl hm hk hlog =>
    have hch : s.Chosen m s.me :=
      ⟨hl, fun hmem ↦ hw.not_owed_me hs hp hme (.mutex m) (hw.owed_of_mem hmem)⟩
    have ho := h.handOff s.me hch
    refine h.acquired hh hme (.inr ho) ?_ ?_ hlog
    · rw [hm, ho]
    · rw [hk, Function.update_self]

/-- Every step of a correct program keeps the invariant. -/
theorem MutexInv.step (h : MutexInv m s) (hs : SchedInv s) (hw : WaitInv s)
    (hst : MutexStep m s a s') (hg : MutexCalls m s a) : MutexInv m s' := by
  refine h.of_step hs hw (h.handOff.step hs hw hst ?_) hst hg
  cases a with
  | call op => cases op <;> trivial
  | _ => trivial

/-- A task blocked in `lock` is listed, and only those are. -/
theorem RunInv.blocked_in_lock (h : RunInv s) (m : Nat) (t : TaskHandle) :
    s.kont t = .lockWait m ∧ s.state t = .blocked ↔ t ∈ (s.mutex m).waiters := by
  refine Iff.trans ?_ (h.mem_waitList_iff (p := .mutex m) rfl t).symm
  exact and_congr_left' ⟨fun hk ↦ by rw [Sys.waitsOn, hk]; rfl, Kont.eq_lockWait⟩

/-- A chosen task has been woken. -/
theorem RunInv.chosen_woken (h : RunInv s) {t : TaskHandle} (hc : s.Chosen m t) :
    s.state t = .ready ∨ s.state t = .running :=
  h.woken_of_not_mem (p := .mutex m) rfl (by rw [Sys.waitsOn, hc.1]; rfl) hc.2

end MutexInv

/-- The states a mutex goes through in a correct program. -/
theorem mutexInv_of_reach [Inhabited α] {D : Dispatcher} {s : Sys α} {m : Nat}
    (h : Reach IsInit (fun s a ↦ PlainDisciplined s a ∧ MutexCalls m s a) (Step D) s) :
    RunInv s ∧ MutexInv m s := by
  have hrun : ∀ s, Reach IsInit (fun s a ↦ PlainDisciplined s a ∧ MutexCalls m s a) (Step D) s →
      RunInv (α := α) s := fun s h ↦ runInv_of_reach (h.mono (fun _ h0 ↦ h0) fun _ _ hg ↦ hg.1)
  refine ⟨hrun s h, h.invariant_of hrun ?_ ?_⟩
  · rintro s ⟨cfg, rfl⟩
    exact ⟨fun t ht ↦ absurd ht.1 (by simp [Sys.init]), fun t ht ↦ ht.elim,
      fun ho ↦ absurd rfl ho, fun hw ↦ absurd rfl hw⟩
  · intro s a t hs ht hi hg hst
    exact hi.step hs.sched hs.wait (hst.mutexStep hs.sched hg.1.1.1 m) hg.2

/-- Mutual exclusion and no lost hand-off, for any number of tasks, any priorities and every
order of scheduling. -/
theorem mutex_exclusion [Inhabited α] (D : Dispatcher) (m : Nat) (s : Sys α)
    (h : Reach IsInit (fun s a ↦ PlainDisciplined s a ∧ MutexCalls m s a) (Step D) s) :
    (∀ t u, Inside m t s.log → Inside m u s.log → t = u) ∧
    (∀ t, Inside m t s.log → (s.mutex m).owner = t) ∧
    ((s.mutex m).owner ≠ invalidTask → Inside m (s.mutex m).owner s.log ∨
      (s.Chosen m (s.mutex m).owner ∧
        (s.state (s.mutex m).owner = .ready ∨ s.state (s.mutex m).owner = .running) ∧
        ∀ t, ¬ Inside m t s.log)) ∧
    (s.mutex m).waiters.Nodup ∧
    (∀ t, s.kont t = .lockWait m ∧ s.state t = .blocked ↔ t ∈ (s.mutex m).waiters) ∧
    ((s.mutex m).waiters ≠ [] → (s.mutex m).owner ≠ invalidTask) := by
  obtain ⟨hr, hi⟩ := mutexInv_of_reach h
  refine ⟨fun t u ht hu ↦ (hi.inside t ht).1.symm.trans (hi.inside u hu).1,
    fun t ht ↦ (hi.inside t ht).1, fun ho ↦ ?_, hr.wait.nodup (.mutex m),
    hr.blocked_in_lock m, hi.waiting⟩
  rcases hi.owned ho with hin | hc
  · exact .inl hin
  · refine .inr ⟨hc, hr.chosen_woken hc, fun t ht ↦ ?_⟩
    obtain ⟨h1, -, h3⟩ := hi.inside t ht
    exact h3 (h1 ▸ hc.1)

/-- A low-priority task locks, a high-priority one waits, and the `unlock` is preempted by the
task it hands the mutex to. -/
def handOffRun : List (Act Unit) :=
  [.call (.xTaskCreate 5), .call .vTaskStartScheduler, .call (.lock 0), .call (.xTaskCreate 1),
    .call (.vTaskDelay 0), .dispatch, .call (.lock 0), .dispatch, .call (.unlock 0)]

private theorem handOffRun_isSome : (runActs Sys.exec handOffRun (.init {})).isSome = true := by
  decide +kernel

/-- The state in the middle of that `unlock`. -/
def handOffEnd : Sys Unit := (runActs Sys.exec handOffRun (.init {})).get handOffRun_isSome

/-- In the middle of that `unlock` the waiter has been chosen and nobody is inside. -/
theorem mutex_exclusion_handOff :
    (handOffEnd.mutex 0).owner = 1 ∧
    ((handOffEnd.mutex 0).owner ≠ invalidTask →
      Inside 0 (handOffEnd.mutex 0).owner handOffEnd.log ∨
      (handOffEnd.Chosen 0 (handOffEnd.mutex 0).owner ∧
        (handOffEnd.state (handOffEnd.mutex 0).owner = .ready ∨
          handOffEnd.state (handOffEnd.mutex 0).owner = .running) ∧
        ∀ t, ¬ Inside 0 t handOffEnd.log)) :=
  ⟨by decide +kernel,
    (mutex_exclusion .code 0 handOffEnd (Reach.of_guardedRun Step.of_exec handOffRun ⟨{}, rfl⟩
      (by decide +kernel) handOffRun_isSome)).2.2.1⟩

end McuSimulator.Rtos
