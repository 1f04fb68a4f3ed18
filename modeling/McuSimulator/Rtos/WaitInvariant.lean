import McuSimulator.Rtos.SchedInvariant

/-!
# Who waits where

`WaitInv` says that the waiter arrays list exactly the tasks still owed a wake-up, and that
such a task neither runs nor is `READY`. It is preserved by every step that leaves owed
tasks where they are (`Spared`), which is a question of the scheduler calls and of the
deadline scans only.
-/

namespace McuSimulator.Rtos

open McuSimulator.Base

variable {α : Type}

/-! ### The waiter arrays -/

/-- The waiter arrays list the tasks owed a wake-up, each once, and such tasks neither run
nor are `READY`; a task `BLOCKED` at a primitive is owed its wake-up. -/
structure WaitInv (s : Sys α) : Prop where
  nodup : ∀ p, (s.waitList p).Nodup
  mem_iff : ∀ p t, p.isList = true → (t ∈ s.waitList p ↔ s.Owed p t)
  idle : ∀ p t, s.Owed p t → s.state t ≠ .ready ∧ s.state t ≠ .running
  blocked : ∀ p t, s.waitsOn t = some p → s.state t = .blocked → s.Owed p t

/-- An entry of an event group that `check_waiters` is about to act on is not that of a task
`BLOCKED` at another primitive. -/
def OwnGroup (s : Sys α) (a : Act α) : Prop :=
  a = .resume → ∀ e i, s.kont s.me = .checkTest e i → i < (s.events e).waitCount →
    (s.events e).satisfiedAt i = true → s.state ((s.events e).waiters i).task = .blocked →
    ∀ p, s.waitsOn ((s.events e).waiters i).task = some p → p = .events e

/-- Tasks owed a wake-up do not become `READY` without it. -/
def Spared (s s' : Sys α) : Prop :=
  ∀ p t, s.Owed p t → s'.state t ≠ .ready ∧ s'.state t ≠ .running

section Wait

variable {D : Dispatcher} {s s' : Sys α} {k : Kont α}

/-- The executing task is owed nothing. -/
theorem WaitInv.not_owed_me (hw : WaitInv s) (hs : SchedInv s) (hp : s.phase = .code)
    (hm : s.me ≠ invalidTask) (p : Prim) : ¬ s.Owed p s.me := fun h ↦
  (hw.idle p s.me h).2 (hs.running_me hp hm)

/-- A listed task is owed its wake-up. -/
theorem WaitInv.owed_of_mem (hw : WaitInv s) {p : Prim} {t : TaskHandle}
    (h : t ∈ s.waitList p) : s.Owed p t := by
  cases p with
  | events e => simp [Sys.waitList] at h
  | _ => exact (hw.mem_iff _ t rfl).mp h

/-- There is room in a waiter array for the executing task. -/
theorem WaitInv.register_eq (hw : WaitInv s) (hs : SchedInv s) (hp : s.phase = .code)
    (hm : s.me ≠ invalidTask) (p : Prim) :
    register (s.waitList p) s.me = s.waitList p ++ [s.me] := by
  have hlen : (s.waitList p).length < s.sched.taskCount := by
    refine length_lt_of_nodup (hw.nodup p) (fun t ht ↦ ?_) (hs.me_lt hm) ?_
    · exact hs.lt_of_waitsOn (hw.owed_of_mem ht).1
    · exact fun ht ↦ hw.not_owed_me hs hp hm p (hw.owed_of_mem ht)
  have hle := hs.taskCount_le
  unfold register
  rw [if_pos (Nat.lt_of_lt_of_le hlen hle)]

/-- The context of another task is what it was. -/
theorem ByTask.waitsOn_of_ne (h : ByTask s s' k) {t : TaskHandle} (ht : t ≠ s.me) :
    s'.waitsOn t = s.waitsOn t := by
  rw [Sys.waitsOn, h.kont, Function.update_of_ne ht]
  rfl

/-- What the task waits on is said by its new place. -/
theorem ByTask.waitsOn_me (h : ByTask s s' k) : s'.waitsOn s.me = k.waitsOn := by
  rw [Sys.waitsOn, h.kont, Function.update_self]

/-- A quiet step changes nothing that is owed. -/
theorem owed_quiet (hs : SchedInv s) (hw : WaitInv s) (h : ByTask s s' k)
    (hk : k.waitsOn = none) (hlog : QuietExt s.log s'.log) (p : Prim) (t : TaskHandle) :
    s'.Owed p t ↔ s.Owed p t := by
  by_cases ht : t = s.me
  · have hn := hw.not_owed_me hs h.phase h.task p
    rw [ht]
    refine iff_of_false ?_ hn
    rintro ⟨hw', -⟩
    rw [h.waitsOn_me, hk] at hw'
    cases hw'
  · unfold Sys.Owed
    rw [h.waitsOn_of_ne ht, hlog.released]

/-- Blocking adds the executing task to what is owed. -/
theorem owed_block (hs : SchedInv s) (hw : WaitInv s) {p : Prim} (h : ByTask s s' k)
    (hk : k.waitsOn = some p) (hlog : s'.log = .blocked p s.me :: s.log) (p' : Prim)
    (t : TaskHandle) : s'.Owed p' t ↔ s.Owed p' t ∨ (p' = p ∧ t = s.me) := by
  by_cases ht : t = s.me
  · have hn := hw.not_owed_me hs h.phase h.task p'
    have hr : ¬ Released p' s.me s'.log := by
      rw [hlog]
      rintro ⟨hne, -⟩
      exact hne rfl
    rw [ht]
    unfold Sys.Owed at hn ⊢
    rw [h.waitsOn_me, hk]
    constructor
    · rintro ⟨hp', -⟩
      exact .inr ⟨(Option.some.inj hp').symm, rfl⟩
    · rintro (ho | ⟨hp', -⟩)
      · exact absurd ho hn
      · exact ⟨by rw [hp'], hr⟩
  · have hr : Released p' t s'.log ↔ Released p' t s.log := by
      rw [hlog]
      exact and_iff_right (Ne.symm ht)
    unfold Sys.Owed
    rw [h.waitsOn_of_ne ht, hr]
    simp [ht]

/-- Unblocking takes one task from what is owed. -/
theorem owed_wake (hs : SchedInv s) (hw : WaitInv s) {p : Prim} {w : TaskHandle}
    {l : List (Event α)} (h : ByTask s s' k) (hk : k.waitsOn = none) (hl : QuietExt s.log l)
    (hlog : s'.log = .unblock p w :: l) (p' : Prim) (t : TaskHandle) :
    s'.Owed p' t ↔ s.Owed p' t ∧ ¬ (p' = p ∧ t = w) := by
  by_cases ht : t = s.me
  · have hn := hw.not_owed_me hs h.phase h.task p'
    rw [ht]
    refine iff_of_false ?_ fun hc ↦ hn hc.1
    rintro ⟨hw', -⟩
    rw [h.waitsOn_me, hk] at hw'
    cases hw'
  · have hr : Released p' t s'.log ↔ (p' = p ∧ t = w) ∨ Released p' t s.log := by
      rw [hlog, ← hl.released (p := p') (t := t)]
      constructor
      · rintro (⟨hp, hw⟩ | hr)
        · exact .inl ⟨hp.symm, hw.symm⟩
        · exact .inr hr
      · rintro (⟨hp, hw⟩ | hr)
        · exact .inl ⟨hp.symm, hw.symm⟩
        · exact .inr hr
    unfold Sys.Owed
    rw [h.waitsOn_of_ne ht, hr]
    tauto

/-- Moving a context between continuations that wait nowhere. -/
theorem waitsOn_update {t : TaskHandle} (h : (s.kont t).waitsOn = none)
    (hk : k.waitsOn = none) (hs' : s'.kont = Function.update s.kont t k) (u : TaskHandle) :
    s'.waitsOn u = s.waitsOn u := by
  unfold Sys.waitsOn
  rw [hs']
  by_cases hu : u = t
  · rw [hu, Function.update_self, h, hk]
  · rw [Function.update_of_ne hu]

/-- Scheduler calls keep the primitives, the log and every waiting context. -/
theorem api_frame (hs : SchedInv s) {op : Op α} (ho : op.IsSched) (hu : s.kont s.me = .user) :
    (s.call op).log = s.log ∧ (∀ p, (s.call op).waitList p = s.waitList p) ∧
      ∀ t, (s.call op).waitsOn t = s.waitsOn t := by
  have hme : (s.kont s.me).waitsOn = none := by
    rw [hu]
    rfl
  cases op with
  | xTaskCreate p =>
    have hnew : (s.kont s.sched.taskCount).waitsOn = none := by
      rw [hs.fresh _ (Nat.le_refl _)]
      rfl
    simp only [Sys.call, Sys.xTaskCreate]
    split
    · exact ⟨rfl, fun _ ↦ rfl, fun _ ↦ rfl⟩
    · refine ⟨rfl, fun p ↦ ?_, waitsOn_update hnew rfl rfl⟩
      cases p <;> rfl
  | vTaskDelay n =>
    simp only [Sys.call, Sys.vTaskDelay]
    split
    · exact ⟨rfl, fun _ ↦ rfl, fun _ ↦ rfl⟩
    · split
      · refine ⟨rfl, fun p ↦ ?_, fun _ ↦ rfl⟩
        cases p <;> rfl
      · refine ⟨rfl, fun p ↦ ?_, waitsOn_update hme (k := .delayed) rfl rfl⟩
        cases p <;> rfl
  | taskReturn =>
    refine ⟨rfl, fun p ↦ ?_, waitsOn_update hme (k := .exited) rfl rfl⟩
    cases p <;> rfl
  | vTaskStartScheduler =>
    simp only [Sys.call, Sys.vTaskStartScheduler]
    split
    · exact ⟨rfl, fun _ ↦ rfl, fun _ ↦ rfl⟩
    · refine ⟨rfl, fun p ↦ ?_, fun _ ↦ rfl⟩
      cases p <;> rfl
  | vTaskSuspend t =>
    simp only [Sys.call, Sys.vTaskSuspend]
    split
    · exact ⟨rfl, fun _ ↦ rfl, fun _ ↦ rfl⟩
    · refine ⟨rfl, fun p ↦ ?_, fun _ ↦ rfl⟩
      cases p <;> rfl
  | vTaskResume t =>
    simp only [Sys.call, Sys.vTaskResume]
    split
    · exact ⟨rfl, fun _ ↦ rfl, fun _ ↦ rfl⟩
    · split
      · refine ⟨rfl, fun p ↦ ?_, fun _ ↦ rfl⟩
        cases p <;> rfl
      · exact ⟨rfl, fun _ ↦ rfl, fun _ ↦ rfl⟩
  | vTaskDelete t =>
    simp only [Sys.call, Sys.vTaskDelete]
    split
    · exact ⟨rfl, fun _ ↦ rfl, fun _ ↦ rfl⟩
    · refine ⟨rfl, fun p ↦ ?_, fun _ ↦ rfl⟩
      cases p <;> rfl
  | tick ms =>
    refine ⟨rfl, fun p ↦ ?_, fun _ ↦ rfl⟩
    cases p <;> rfl
  | _ => exact ho.elim

/-- What a scheduler call can do to the state of a task that waits at a primitive. -/
inductive ApiState (s : Sys α) (op : Op α) (t : TaskHandle) : TaskState → Prop
  | same : ApiState s op t (s.state t)
  | suspended : ApiState s op t .suspended
  | deleted : ApiState s op t .deleted
  | resumed (ho : op = .vTaskResume t) (h : s.state t = .suspended) : ApiState s op t .ready
  | expired (ms : Nat) (ho : op = .tick ms) (h : Scheduler.Timed (s.sched.tasks t))
      (hle : (s.sched.tasks t).resumeTick ≤ (s.sched.tickCount + ms) % 2 ^ 32) :
      ApiState s op t .ready
  | started (h : s.state t = .ready) : ApiState s op t .running

/-- A deadline scan of `tick`, and the preemption of another task after it. -/
private theorem tick_state (s : Sys α) (ms : Nat) {t : TaskHandle} (ht : t ≠ s.me) :
    ApiState s (.tick ms) t ((s.continueWith (s.sched.tick ms)).state t) := by
  obtain ⟨u, rfl, hu⟩ := s.sched.tick_cases ms
  have hscan : ApiState s (.tick ms) t (({ s.sched with
      tickCount := (s.sched.tickCount + ms) % 2 ^ 32 }.wakeExpired.tasks t).state) := by
    simp only [Scheduler.wakeExpired]
    split
    · next h => exact .expired ms rfl h.2.1 h.2.2
    · exact .same
  rcases hu with he | ⟨-, he⟩
  · rw [he]
    exact hscan
  · rw [he, Sys.state, Sys.continueWith, state_setState,
      if_neg (show ¬ t = Scheduler.current _ from ht)]
    exact hscan

/-- Scheduler calls change the state of a waiting task only as `ApiState` says. -/
theorem api_state (hs : SchedInv s) {op : Op α} (ho : op.IsSched) (hu : s.kont s.me = .user)
    {t : TaskHandle} (ht : s.waitsOn t ≠ none) : ApiState s op t ((s.call op).state t) := by
  have htm : t ≠ s.me := by
    rintro rfl
    rw [Sys.waitsOn, hu] at ht
    exact ht rfl
  cases op with
  | xTaskCreate p =>
    have hne : t ≠ s.sched.taskCount := by
      rintro rfl
      rw [Sys.waitsOn, hs.fresh _ (Nat.le_refl _)] at ht
      exact ht rfl
    simp only [Sys.call, Sys.xTaskCreate]
    split
    · exact .same
    · next hlt =>
      rw [Sys.state, Scheduler.xTaskCreate_of_lt (Nat.lt_of_not_le hlt),
        Scheduler.setTask_tasks_of_ne _ _ hne]
      exact .same
  | vTaskDelay n =>
    simp only [Sys.call, Sys.vTaskDelay]
    split
    · exact .same
    · split
      · rw [Sys.state, Sys.reschedule, state_setState, if_neg htm]
        exact .same
      · rw [Sys.state, Sys.reschedule, Scheduler.setTask_tasks_of_ne _ _ htm]
        exact .same
  | taskReturn =>
    simp only [Sys.call, Sys.taskReturn, Sys.state, state_setState, if_neg htm]
    exact .same
  | vTaskStartScheduler =>
    simp only [Sys.call, Sys.vTaskStartScheduler]
    split
    · exact .same
    · next hn =>
      by_cases hts : t = s.sched.selectNext
      · obtain ⟨-, hr⟩ := s.sched.selectNext_ready hn
        rw [Sys.state, hts, Scheduler.switchTo_tasks_self]
        exact .started hr
      · rw [Sys.state, Scheduler.switchTo_tasks_of_ne _ hts]
        exact .same
  | vTaskSuspend u =>
    simp only [Sys.call, Sys.vTaskSuspend]
    split
    · exact .same
    · rw [Sys.state, Sys.continueWith, state_setState]
      split
      · exact .suspended
      · exact .same
  | vTaskDelete u =>
    simp only [Sys.call, Sys.vTaskDelete]
    split
    · exact .same
    · rw [Sys.state, Sys.continueWith, state_setState]
      split
      · exact .deleted
      · exact .same
  | vTaskResume u =>
    simp only [Sys.call, Sys.vTaskResume]
    split
    · exact .same
    · split
      · next hsus =>
        rw [Sys.state, state_setState]
        split
        · next htu =>
          rw [htu]
          exact .resumed rfl hsus
        · exact .same
      · exact .same
  | tick ms => exact tick_state s ms htm
  | _ => exact ho.elim

/-- A dispatch blocks nobody. -/
theorem dispatch_state {sched : Scheduler} (hd : Scheduler.Dispatches s.sched sched)
    {t : TaskHandle} : (sched.tasks t).state = s.state t ∨ (sched.tasks t).state = .ready ∨
      (sched.tasks t).state = .running := by
  rcases hd.task_cases t with hw | ⟨-, -, b, -, -, he⟩
  · rcases woken_state hw with he | he
    · exact .inl he
    · exact .inr (.inl he)
  · exact .inr (.inr (congrArg Tcb.state he))

/-- What is owed depends on the contexts and the log. -/
theorem owed_congr (hlog : s'.log = s.log) (hk : ∀ t, s'.waitsOn t = s.waitsOn t) (p : Prim)
    (t : TaskHandle) : s'.Owed p t ↔ s.Owed p t := by
  unfold Sys.Owed
  rw [hlog, hk]

/-- A `BLOCKED` task that a primitive is about to unblock waits nowhere else: a listed waiter
is owed its wake-up, and the entries of event groups are those of their own waiters. -/
theorem WaitInv.eq_of_wake (hw : WaitInv s) {a : Act α} {p p' : Prim} {w : TaskHandle} {i : Nat}
    (hi : p.isList → (s.waitList p)[i]? = some w) (hd : s.Delivers a p w) (ha : OwnGroup s a)
    (hb : s.state w = .blocked) (hp : s.waitsOn w = some p') : p' = p := by
  cases p with
  | events e =>
    obtain ⟨i, hres, hk, hlt, hsat, rfl⟩ := hd e rfl
    exact ha hres e i hk hlt hsat hb p' hp
  | _ =>
    have hwp := (hw.owed_of_mem (List.mem_of_getElem? (hi rfl))).1
    exact Option.some.inj (hp.symm.trans hwp)

/-- Waiting stays right where the waiter arrays and what is owed are what they were. -/
theorem WaitInv.congr (hw : WaitInv s) (hl : ∀ p, s'.waitList p = s.waitList p)
    (ho : ∀ p t, s'.Owed p t ↔ s.Owed p t) (hidle : Spared s s')
    (hb : ∀ p t, s'.waitsOn t = some p → s'.state t = .blocked →
      s.waitsOn t = some p ∧ s.state t = .blocked) : WaitInv s' where
  nodup p := by
    rw [hl]
    exact hw.nodup p
  mem_iff p t hp := by
    rw [hl, ho]
    exact hw.mem_iff p t hp
  idle p t h := hidle p t ((ho p t).mp h)
  blocked p t hwt hbt := by
    obtain ⟨hwt, hbt⟩ := hb p t hwt hbt
    exact (ho p t).mpr (hw.blocked p t hwt hbt)

/-- A context other than the executing one waits where it did. -/
theorem ByTask.ne_me (h : ByTask s s' k) (hk : k.waitsOn = none) {p : Prim} {t : TaskHandle}
    (hwt : s'.waitsOn t = some p) : t ≠ s.me ∧ s.waitsOn t = some p := by
  have htm : t ≠ s.me := by
    rintro rfl
    rw [h.waitsOn_me, hk] at hwt
    cases hwt
  rw [h.waitsOn_of_ne htm] at hwt
  exact ⟨htm, hwt⟩

/-- The executing task goes into `block_current` at `p`. -/
theorem WaitInv.block (hw : WaitInv s) (hs : SchedInv s) {p : Prim} (ht : ByTask s s' k)
    (hk : k.waitsOn = some p) (hss : s'.sched = s.sched.setState s.me .blocked)
    (hlog : s'.log = .blocked p s.me :: s.log)
    (hl : ∀ p', s'.waitList p' =
      if p' = p ∧ p.isList then register (s.waitList p) s.me else s.waitList p') :
    WaitInv s' := by
  have ho := owed_block hs hw ht hk hlog
  have hreg := hw.register_eq hs ht.phase ht.task p
  have hst : ∀ t, s'.state t = if t = s.me then .blocked else s.state t := by
    intro t
    rw [Sys.state, hss, state_setState]
    rfl
  have hmem : s.me ∉ s.waitList p := fun h ↦
    hw.not_owed_me hs ht.phase ht.task p (hw.owed_of_mem h)
  constructor
  case nodup =>
    intro p'
    rw [hl]
    split
    · rw [hreg, ← List.concat_eq_append]
      exact (hw.nodup p).concat hmem
    · exact hw.nodup p'
  case mem_iff =>
    intro p' t hp'
    rw [hl, ho]
    by_cases hpp : p' = p
    · rw [if_pos ⟨hpp, hpp ▸ hp'⟩, hreg, List.mem_append, List.mem_singleton, hpp,
        hw.mem_iff p t (hpp ▸ hp')]
      simp
    · rw [if_neg fun h ↦ hpp h.1, hw.mem_iff p' t hp']
      simp [hpp]
  case idle =>
    intro p' t h
    rw [hst]
    rcases (ho p' t).mp h with h | ⟨-, htm⟩
    · split
      · simp
      · exact hw.idle p' t h
    · rw [if_pos htm]
      simp
  case blocked =>
    intro p' t hwt hb
    by_cases htm : t = s.me
    · rw [htm, ht.waitsOn_me, hk] at hwt
      exact (ho p' t).mpr (.inr ⟨(Option.some.inj hwt).symm, htm⟩)
    · rw [hst, if_neg htm] at hb
      rw [ht.waitsOn_of_ne htm] at hwt
      exact (ho p' t).mpr (.inl (hw.blocked p' t hwt hb))

/-- A primitive takes waiter `w` from its array and unblocks it. -/
theorem WaitInv.wake (hw : WaitInv s) (hs : SchedInv s) {a : Act α} {p : Prim}
    {w : TaskHandle} {i : Nat} {l : List (Event α)} (ht : ByTask s s' k)
    (hk : k.waitsOn = none) (hss : s'.sched = (s.sched.unblock w).1)
    (hi : p.isList → (s.waitList p)[i]? = some w) (hwk : s.Delivers a p w)
    (ha : OwnGroup s a) (hlq : QuietExt s.log l) (hlog : s'.log = .unblock p w :: l)
    (hl : ∀ p', s'.waitList p' =
      if p' = p ∧ p.isList then swapRemove (s.waitList p) i else s.waitList p') :
    WaitInv s' := by
  have ho := owed_wake hs hw ht hk hlq hlog
  have hst : ∀ t, s'.state t = ((s.sched.unblock w).1.tasks t).state := fun t ↦ by
    rw [Sys.state, hss]
  constructor
  case nodup =>
    intro p'
    rw [hl]
    split
    · next hc => exact nodup_swapRemove (List.getElem?_eq_some_iff.mp (hi hc.2)).1 (hw.nodup p)
    · exact hw.nodup p'
  case mem_iff =>
    intro p' t hp'
    rw [hl, ho]
    by_cases hpp : p' = p
    · have hil := hi (hpp ▸ hp')
      obtain ⟨hlt, hget⟩ := List.getElem?_eq_some_iff.mp hil
      rw [if_pos ⟨hpp, hpp ▸ hp'⟩, mem_swapRemove_iff hlt (hw.nodup p), hget, hpp,
        hw.mem_iff p t (hpp ▸ hp')]
      simp
    · rw [if_neg fun h ↦ hpp h.1, hw.mem_iff p' t hp']
      simp [hpp]
  case idle =>
    intro p' t h
    obtain ⟨hold, hne⟩ := (ho p' t).mp h
    have htm : t ≠ s.me := by
      rintro rfl
      exact hw.not_owed_me hs ht.phase ht.task p' hold
    rw [hst, state_unblock_other]
    · exact hw.idle p' t hold
    · rintro rfl hb
      exact hne ⟨hw.eq_of_wake hi hwk ha hb hold.1, rfl⟩
    · exact fun hc ↦ absurd hc htm
  case blocked =>
    intro p' t hwt hb
    obtain ⟨htm, hwt⟩ := ht.ne_me hk hwt
    rw [hst] at hb
    have htw : s.state t = .blocked ∧ t ≠ w := by
      by_cases htw : t = w ∧ s.state w = .blocked
      · obtain ⟨rfl, hbw⟩ := htw
        rw [state_unblock_self s.sched (hs.lt_of_waitsOn hwt) hbw] at hb
        cases hb
      · rw [state_unblock_other s.sched (fun h hb ↦ htw ⟨h, hb⟩)
          (fun hc ↦ absurd hc htm)] at hb
        exact ⟨hb, fun h ↦ htw ⟨h, h ▸ hb⟩⟩
    exact (ho p' t).mpr ⟨hw.blocked p' t hwt htw.1, fun h ↦ htw.2 h.2⟩

/-- The waiter arrays stay right across every step that wakes no owed task by other means
than `unblock`. -/
theorem WaitInv.step (hw : WaitInv s) (hs : SchedInv s) {a : Act α} (he : Effect D s a s')
    (ha : OwnGroup s a) (hsp : ∀ op, a = .call op → op.IsSched → Spared s s')
    (hsd : a = .dispatch → Spared s s') : WaitInv s' := by
  cases he with
  | quiet k ht hk hss hp hlog hl =>
    have hst : ∀ t, s'.state t = s.state t := fun t ↦ by rw [Sys.state, hss]; rfl
    refine hw.congr hl (owed_quiet hs hw ht hk hlog) (fun p t h ↦ ?_) (fun p t hwt hb ↦ ?_)
    · rw [hst]
      exact hw.idle p t h
    · rw [hst] at hb
      exact ⟨(ht.ne_me hk hwt).2, hb⟩
  | block p k hobj ht hk hss hp hlog hl => exact hw.block hs ht hk hss hlog hl
  | wake p w i k hobj ht hk hss hp hi hwk hlog hl =>
    obtain ⟨l, hlq, -, hlog⟩ := hlog
    exact hw.wake hs ht hk hss hi hwk ha hlq hlog hl
  | api op hc hop hp hi hu he =>
    obtain ⟨hlog, hl, hk⟩ := api_frame hs hop hu
    rw [← he] at hlog hl hk
    refine hw.congr hl (owed_congr hlog hk) (hsp op hc hop) (fun p t hwt hb ↦ ?_)
    rw [hk] at hwt
    have hst := api_state hs hop hu (t := t) (by rw [hwt]; simp)
    rw [← he] at hst
    generalize s'.state t = st at hb hst
    cases hst with
    | same => exact ⟨hwt, hb⟩
    | _ => cases hb
  | dispatch hc hp sched hd he =>
    have ho : ∀ p t, s'.Owed p t ↔ s.Owed p t := by
      rw [he]
      exact fun _ _ ↦ Iff.rfl
    have hl : ∀ p, s'.waitList p = s.waitList p := by
      rw [he]
      intro p
      cases p <;> rfl
    refine hw.congr hl ho (hsd hc) (fun p t hwt hb ↦ ?_)
    rw [he] at hwt hb
    rcases dispatch_state (t := t) (D.sound _ _ _ hd) with h | h | h
    · exact ⟨hwt, h.symm.trans hb⟩
    · rw [Sys.state, h] at hb
      cases hb
    · rw [Sys.state, h] at hb
      cases hb

end Wait

end McuSimulator.Rtos
