import McuSimulator.Rtos.Clock
import McuSimulator.Rtos.RoundRobin

/-!
# Delays

Programs whose tasks only delay themselves and return, under discrete-event time. Every `BLOCKED`
task then has its deadline ahead of the clock, so that the advance takes the clock to the least
deadline, wakes the tasks with that one, and passes over none.
-/

namespace McuSimulator.Rtos

open McuSimulator.Base

variable {α : Type}

/-- Tasks of priorities below `0xFF`, whose calls are `vTaskDelay` with a deadline that is not
the "no deadline" mark, and the return from the task function. -/
def OnlyDelays (s : Scheduler) : Request → Prop
  | .none | .vTaskStartScheduler | .taskReturn => True
  | .xTaskCreate p => p < 0xFF
  | .vTaskDelay n => s.current ≠ invalidTask → n ≠ 0 → s.tickCount + n < uint32Max
  | _ => False

instance (s : Scheduler) (r : Request) : Decidable (OnlyDelays s r) := by
  induction r using Request.casesOn <;> first
    | exact .isTrue trivial
    | exact .isFalse id
    | exact inferInstanceAs (Decidable (_ < _))
    | exact inferInstanceAs (Decidable (_ → _))

/-- Every `BLOCKED` task waits for a deadline ahead of the clock. -/
structure DelayTable (s : Scheduler) : Prop where
  priority : ∀ t < s.taskCount, (s.tasks t).priority < 0xFF
  ahead : ∀ t < s.taskCount, (s.tasks t).state = .blocked → s.tickCount < (s.tasks t).resumeTick
  deadline : ∀ t < s.taskCount, (s.tasks t).state = .blocked → (s.tasks t).resumeTick < uint32Max

/-- `u` is `s` with the clock at the least deadline of a `BLOCKED` task, and the tasks with that
deadline `READY`. -/
structure AdvancesTo (s u : Scheduler) : Prop where
  attained : ∃ t < s.taskCount, (s.tasks t).state = .blocked ∧
    (s.tasks t).resumeTick = u.tickCount
  least : ∀ t < s.taskCount, (s.tasks t).state = .blocked → u.tickCount ≤ (s.tasks t).resumeTick
  ready : ∀ t < s.taskCount, (u.tasks t).state = .ready ↔
    (s.tasks t).state = .blocked ∧ (s.tasks t).resumeTick = u.tickCount
  others : ∀ t < s.taskCount, (u.tasks t).state ≠ .ready → u.tasks t = s.tasks t

namespace DelayTable

variable {s s' : Scheduler} {r : Request} {ph : Phase}

private theorem timed (h : DelayTable s) {t : TaskHandle} (ht : t < s.taskCount)
    (hb : (s.tasks t).state = .blocked) : Scheduler.Timed (s.tasks t) :=
  ⟨hb, Nat.lt_of_le_of_lt (Nat.zero_le _) (h.ahead t ht hb)⟩

/-- One control block is replaced. -/
theorem setTask (h : DelayTable s) (t : TaskHandle) {b : Tcb} (hp : b.priority < 0xFF)
    (hb : b.state = .blocked → s.tickCount < b.resumeTick ∧ b.resumeTick < uint32Max) :
    DelayTable (s.setTask t b) := by
  refine ⟨fun u hu ↦ ?_, fun u hu hu' ↦ ?_, fun u hu hu' ↦ ?_⟩
  · by_cases he : u = t
    · rw [he, s.setTask_tasks_self]
      exact hp
    · rw [s.setTask_tasks_of_ne _ he]
      exact h.priority u hu
  · by_cases he : u = t
    · rw [he, s.setTask_tasks_self] at hu' ⊢
      exact (hb hu').1
    · rw [s.setTask_tasks_of_ne _ he] at hu' ⊢
      exact h.ahead u hu hu'
  · by_cases he : u = t
    · rw [he, s.setTask_tasks_self] at hu' ⊢
      exact (hb hu').2
    · rw [s.setTask_tasks_of_ne _ he] at hu' ⊢
      exact h.deadline u hu hu'

/-- A task gets the CPU. -/
theorem switchTo (h : DelayTable s) {t : TaskHandle} (ht : t < s.taskCount) :
    DelayTable (s.switchTo t) := by
  have hcur : DelayTable { s with current := t } := ⟨h.priority, h.ahead, h.deadline⟩
  exact hcur.setTask t (h.priority t ht) nofun

/-! ### The advance -/

private theorem earliest_ne (h : DelayTable s) {t : TaskHandle} (ht : t < s.taskCount)
    (hb : (s.tasks t).state = .blocked) : s.earliest ≠ uint32Max :=
  Nat.ne_of_lt (Nat.lt_of_le_of_lt (Scheduler.earliest_le ht (h.timed ht hb)) (h.deadline t ht hb))

/-- What the advance does to a task. -/
theorem advance_tasks (s : Scheduler) (t : TaskHandle) :
    s.advance.tasks t =
      if t < s.taskCount ∧ Scheduler.Timed (s.tasks t) ∧ (s.tasks t).resumeTick ≤ s.earliest then
        { s.tasks t with state := .ready, resumeTick := 0 }
      else s.tasks t := rfl

/-- With no task `READY` one turn of the advance is exact. -/
theorem advancesTo (h : DelayTable s) (hready : ∀ t < s.taskCount, (s.tasks t).state ≠ .ready)
    (hb : ∃ t < s.taskCount, (s.tasks t).state = .blocked) : AdvancesTo s s.advance := by
  obtain ⟨b, hb, hblocked⟩ := hb
  have hleast (t : TaskHandle) (ht : t < s.taskCount) (hb : (s.tasks t).state = .blocked) :
      s.earliest ≤ (s.tasks t).resumeTick := Scheduler.earliest_le ht (h.timed ht hb)
  obtain ⟨i, hi, ht, he⟩ := s.earliest_attained (h.earliest_ne hb hblocked)
  refine ⟨⟨i, hi, ht.1, he⟩, hleast, ?_, ?_⟩
  · intro t ht
    rw [advance_tasks]
    constructor
    · intro hr
      split at hr
      · next hw => exact ⟨hw.2.1.1, Nat.le_antisymm hw.2.2 (hleast t ht hw.2.1.1)⟩
      · exact absurd hr (hready t ht)
    · rintro ⟨hblocked, he⟩
      rw [if_pos ⟨ht, h.timed ht hblocked, Nat.le_of_eq he⟩]
  · intro t ht hr
    rw [advance_tasks] at hr ⊢
    split at hr
    · exact absurd rfl hr
    · next hno => exact if_neg hno

private theorem woken_advance (s : Scheduler) (t : TaskHandle) :
    Scheduler.Woken (s.tasks t) (s.advance.tasks t) :=
  Scheduler.woken_wakeExpired { s with tickCount := s.earliest } t

/-- What stays `BLOCKED` in the advance keeps its deadline ahead. -/
theorem advance (h : DelayTable s) : DelayTable s.advance where
  priority t ht := by
    rw [woken_priority (woken_advance s t)]
    exact h.priority t ht
  ahead t ht hb := by
    have hkeep : s.advance.tasks t = s.tasks t := woken_eq (woken_advance s t) (by rw [hb]; decide)
    have htimed : Scheduler.Timed (s.advance.tasks t) := by
      rw [hkeep] at hb ⊢
      exact h.timed ht hb
    exact Scheduler.timed_wakeExpired (s := { s with tickCount := s.earliest }) ht htimed
  deadline t ht hb := by
    have hkeep : s.advance.tasks t = s.tasks t := woken_eq (woken_advance s t) (by rw [hb]; decide)
    rw [hkeep] at hb ⊢
    exact h.deadline t ht hb

/-! ### Dispatches -/

private theorem selectNext_ne (h : DelayTable s) (hcount : s.taskCount ≤ maxTasks) {t : TaskHandle}
    (ht : t < s.taskCount) (hr : (s.tasks t).state = .ready) : s.selectNext ≠ invalidTask :=
  Scheduler.selectNext_ne hcount ht hr (h.priority t ht)

/-- After a turn of the advance there is a task to select. -/
theorem selectNext_advance (h : DelayTable s) (hcount : s.taskCount ≤ maxTasks)
    (he : s.earliest ≠ uint32Max) : s.advance.selectNext ≠ invalidTask := by
  obtain ⟨i, hi, ht, heq⟩ := s.earliest_attained he
  apply h.advance.selectNext_ne hcount hi
  rw [advance_tasks, if_pos ⟨hi, ht, Nat.le_of_eq heq⟩]

/-- A dispatch advances the clock when no task is `READY` but one is `BLOCKED`, by one turn. -/
theorem dispatch_cases (h : DelayTable s) (hcount : s.taskCount ≤ maxTasks) (hp : ph ≠ .code) :
    ((∃ t < s.taskCount, (s.tasks t).state = .ready) ∧ s.selectNext ≠ invalidTask ∧
      s.dispatch ph = s.switchTo s.selectNext) ∨
    ((∀ t < s.taskCount, (s.tasks t).state ≠ .ready) ∧
      (∃ t < s.taskCount, (s.tasks t).state = .blocked) ∧
      s.advance.selectNext ≠ invalidTask ∧
      s.dispatch ph = s.advance.switchTo s.advance.selectNext) ∨
    ((∀ t < s.taskCount, (s.tasks t).state ≠ .ready) ∧
      (∀ t < s.taskCount, (s.tasks t).state ≠ .blocked) ∧
      s.dispatch ph = { s with current := invalidTask }) := by
  by_cases hn : s.selectNext = invalidTask
  · have hready (t : TaskHandle) (ht : t < s.taskCount) : (s.tasks t).state ≠ .ready :=
      fun hr ↦ h.selectNext_ne hcount ht hr hn
    obtain ⟨u, hadv, hd⟩ := s.dispatch_advanced hp
    generalize s.dispatch ph = v at hd ⊢
    cases hadv with
    | refl =>
      cases hd with
      | switch hn' => exact absurd hn hn'
      | idle _ he =>
        exact .inr (.inr ⟨hready, fun t ht hb ↦ h.earliest_ne ht hb he, rfl⟩)
    | turn _ he hrest =>
      obtain ⟨i, hi, ht, -⟩ := s.earliest_attained he
      have hsel := h.selectNext_advance hcount he
      cases hrest with
      | turn hno => exact absurd hno hsel
      | refl =>
        cases hd with
        | idle hno => exact absurd hno hsel
        | switch => exact .inr (.inl ⟨hready, ⟨i, hi, ht.1⟩, hsel, rfl⟩)
  · obtain ⟨hlt, hr⟩ := Scheduler.selectNext_ready s hn
    exact .inl ⟨⟨_, hlt, hr⟩, hn, Scheduler.dispatch_eq_switchTo hp hn⟩

private theorem dispatch (h : DelayTable s) (hcount : s.taskCount ≤ maxTasks) (hp : ph ≠ .code) :
    DelayTable (s.dispatch ph) := by
  rcases h.dispatch_cases hcount hp with ⟨-, hn, he⟩ | ⟨-, -, hn, he⟩ | ⟨-, -, he⟩
  · rw [he]
    exact h.switchTo (Scheduler.selectNext_ready s hn).1
  · rw [he]
    exact h.advance.switchTo (Scheduler.selectNext_ready s.advance hn).1
  · rw [he]
    exact ⟨h.priority, h.ahead, h.deadline⟩

/-! ### Requests -/

/-- The executing task delays itself or returns. -/
theorem leave (h : DelayTable s) {b : Tcb} (hb : r.Leaves s b) (hg : OnlyDelays s r)
    (hm : s.current ≠ invalidTask) (hlt : s.current < s.taskCount) :
    DelayTable (s.setTask s.current b) := by
  apply h.setTask s.current
  · rw [hb.priority]
    exact h.priority _ hlt
  · intro hblocked
    cases r with
    | vTaskDelay n =>
      obtain ⟨-, rfl⟩ | ⟨hn, rfl⟩ := hb
      · cases hblocked
      · have hfits : s.tickCount + n < uint32Max := hg hm hn
        have hmod : (s.tickCount + n) % 2 ^ 32 = s.tickCount + n :=
          Nat.mod_eq_of_lt (Nat.lt_trans hfits (by decide))
        dsimp only
        rw [hmod]
        exact ⟨by omega, hfits⟩
    | taskReturn =>
      rw [show b = _ from hb] at hblocked
      cases hblocked
    | vTaskSuspend _ | vTaskDelete _ | blockCurrent => exact hg.elim
    | _ => exact hb.elim

/-- A task is added. -/
theorem create (h : DelayTable s) {p : Nat} (hp : p < 0xFF) (hlt : s.taskCount < maxTasks) :
    DelayTable (s.xTaskCreate p) := by
  rw [Scheduler.xTaskCreate_of_lt hlt]
  have hold {t : TaskHandle} (ht : t < s.taskCount + 1) (hne : t ≠ s.taskCount) :
      t < s.taskCount := Nat.lt_of_le_of_ne (Nat.le_of_lt_succ ht) hne
  refine ⟨fun t ht ↦ ?_, fun t ht hb ↦ ?_, fun t ht hb ↦ ?_⟩
  · by_cases he : t = s.taskCount
    · rw [he, Scheduler.setTask_tasks_self]
      exact hp
    · rw [Scheduler.setTask_tasks_of_ne _ _ he]
      exact h.priority t (hold ht he)
  · by_cases he : t = s.taskCount
    · rw [he, Scheduler.setTask_tasks_self] at hb
      cases hb
    · rw [Scheduler.setTask_tasks_of_ne _ _ he] at hb ⊢
      exact h.ahead t (hold ht he) hb
  · by_cases he : t = s.taskCount
    · rw [he, Scheduler.setTask_tasks_self] at hb
      cases hb
    · rw [Scheduler.setTask_tasks_of_ne _ _ he] at hb ⊢
      exact h.deadline t (hold ht he) hb

private theorem served (h : DelayTable s) (hi : TableInv s .code) (hr : Served s r s' ph)
    (hg : OnlyDelays s r) : DelayTable s' := by
  cases hr with
  | stay => exact h
  | create p hlt => exact h.create hg hlt
  | start hm hn => exact h.switchTo (Scheduler.selectNext_ready s hn).1
  | leave _ b _ hm hb hp => exact h.leave hb hg hm (hi.current_lt hm)
  | _ => exact hg.elim

end DelayTable

/-! ### Sleeping tasks -/

/-- The task is `BLOCKED` until this tick, which is still to come. -/
structure Sleeps (s : Scheduler) (t : TaskHandle) (d : Nat) : Prop where
  exists_task : t < s.taskCount
  blocked : (s.tasks t).state = .blocked
  deadline : (s.tasks t).resumeTick = d
  ahead : s.tickCount < d

/-- The task has been made `READY` at this tick, and may have got the CPU. -/
def Wakes (s : Scheduler) (t : TaskHandle) (d : Nat) : Prop := s.Active t ∧ s.tickCount = d

namespace Sleeps

variable {s s' : Scheduler} {r : Request} {ph : Phase} {t : TaskHandle} {d : Nat}

/-- The control block of the task stays, and so does the clock. -/
theorem congr (h : Sleeps s t d) (hcount : s.taskCount ≤ s'.taskCount)
    (htask : s'.tasks t = s.tasks t) (htick : s'.tickCount = s.tickCount) : Sleeps s' t d := by
  refine ⟨Nat.lt_of_lt_of_le h.exists_task hcount, ?_, ?_, ?_⟩
  · rw [htask]
    exact h.blocked
  · rw [htask]
    exact h.deadline
  · rw [htick]
    exact h.ahead

/-- Another task gets the CPU. -/
theorem switchTo (h : Sleeps s t d) {u : TaskHandle} (hr : (s.tasks u).state = .ready) :
    Sleeps (s.switchTo u) t d := by
  have hne : t ≠ u := by
    rintro rfl
    have hb := h.blocked
    rw [hr] at hb
    cases hb
  exact h.congr (Nat.le_refl _) (s.switchTo_tasks_of_ne hne) rfl

private theorem served (h : Sleeps s t d) (hi : TableInv s .code) (hr : Served s r s' ph)
    (hg : OnlyDelays s r) : Sleeps s' t d := by
  cases hr with
  | stay => exact h
  | create p hlt =>
    rw [Scheduler.xTaskCreate_of_lt hlt]
    have hne : t ≠ s.taskCount := Nat.ne_of_lt h.exists_task
    exact h.congr (Nat.le_succ _) (Scheduler.setTask_tasks_of_ne _ _ hne) rfl
  | start hm hn => exact h.switchTo (Scheduler.selectNext_ready s hn).2
  | leave _ b _ hm hb hp =>
    have hne : t ≠ s.current := by
      rintro rfl
      have hrun := hi.running_current hm
      rw [h.blocked] at hrun
      cases hrun
    exact h.congr (Nat.le_refl _) (s.setTask_tasks_of_ne _ hne) rfl
  | _ => exact hg.elim

/-- In a dispatch the task sleeps on, or its deadline is the tick that the clock is taken to. -/
theorem dispatch (h : Sleeps s t d) (hs : DelayTable s) (hcount : s.taskCount ≤ maxTasks)
    (hp : ph ≠ .code) : Sleeps (s.dispatch ph) t d ∨ Wakes (s.dispatch ph) t d := by
  rcases hs.dispatch_cases hcount hp with ⟨-, hn, he⟩ | ⟨hready, hb, hn, he⟩ | ⟨-, hb, -⟩
  · rw [he]
    exact .inl (h.switchTo (Scheduler.selectNext_ready s hn).2)
  · have hadv := hs.advancesTo hready hb
    obtain ⟨-, hsel⟩ := Scheduler.selectNext_ready s.advance hn
    rw [he]
    by_cases hwoken : (s.advance.tasks t).state = .ready
    · right
      have hclock := ((hadv.ready t h.exists_task).mp hwoken).2
      constructor
      · by_cases hme : t = s.advance.selectNext
        · right
          rw [hme, s.advance.switchTo_tasks_self]
        · left
          rw [s.advance.switchTo_tasks_of_ne hme]
          exact hwoken
      · rw [← h.deadline]
        exact hclock.symm
    · left
      apply Sleeps.switchTo _ hsel
      have htask := hadv.others t h.exists_task hwoken
      refine ⟨h.exists_task, ?_, ?_, ?_⟩
      · rw [htask]
        exact h.blocked
      · rw [htask]
        exact h.deadline
      · have hahead := hs.advance.ahead t h.exists_task (by rw [htask]; exact h.blocked)
        rwa [htask, h.deadline] at hahead
  · exact absurd h.blocked (hb t h.exists_task)

end Sleeps

/-! ### Runs -/

private theorem delayTable_of_reach [Inhabited α] {s : Sys α}
    (h : Reach IsInit (Asks OnlyDelays) ApiStep s) : DelayTable s.sched := by
  have hinit : ∀ u : Sys α, IsInit u → DelayTable u.sched := by
    rintro _ ⟨cfg, rfl⟩
    exact ⟨nofun, nofun, nofun⟩
  have hknown : ∀ u : Sys α, Reach IsInit (Asks OnlyDelays) ApiStep u →
      TableInv u.sched u.phase := fun _ hr ↦ tableInv_of_reach hr
  apply h.invariant_of hknown hinit
  intro s a t hi _ hs hg hst
  rcases hst.served hi.taskCount_le with ⟨hp, hr⟩ | ⟨hp, -, he, -⟩
  · rw [hp] at hi
    exact hs.served hi hr hg
  · rw [he]
    exact hs.dispatch hi.taskCount_le hp

/-- A step leaves a task asleep or wakes it in time. -/
theorem Sleeps.step [Inhabited α] {s s' : Sys α} {a : ApiAct α} {t : TaskHandle} {d : Nat}
    (h : Sleeps s.sched t d) (hr : Reach IsInit (Asks OnlyDelays) ApiStep s)
    (hg : Asks OnlyDelays s a) (hs : ApiStep s a s') :
    Sleeps s'.sched t d ∨ Wakes s'.sched t d := by
  have hi := tableInv_of_reach hr
  rcases hs.served hi.taskCount_le with ⟨hp, hserved⟩ | ⟨hp, -, he, -⟩
  · rw [hp] at hi
    exact .inl (h.served hi hserved hg)
  · rw [he]
    exact h.dispatch (delayTable_of_reach hr) hi.taskCount_le hp

/-- `vTaskDelay(n)` puts the executing task to sleep for `n` ticks. -/
theorem sleeps_of_delay [Inhabited α] {s s' : Sys α} {n : Nat}
    (hr : Reach IsInit (Asks OnlyDelays) ApiStep s)
    (hg : Asks OnlyDelays s (.act (.call (.vTaskDelay n))))
    (hs : ApiStep s (.act (.call (.vTaskDelay n))) s') (hn : 0 < n) (hm : s.me ≠ invalidTask) :
    Sleeps s'.sched s.me (s.sched.tickCount + n) := by
  have hs' : s'.sched = s.sched.setTask s.me { s.sched.tasks s.me with
      state := .blocked, resumeTick := (s.sched.tickCount + n) % 2 ^ 32 } := by
    cases hs with
    | act hs =>
      cases hs with
      | call hp hk hi =>
        have hcall : s.call (.vTaskDelay n) = _ := (if_neg hm).trans (if_neg (Nat.ne_of_gt hn))
        rw [hcall]
        rfl
  have hfits : s.sched.tickCount + n < uint32Max := hg hm (Nat.ne_of_gt hn)
  have hmod : (s.sched.tickCount + n) % 2 ^ 32 = s.sched.tickCount + n :=
    Nat.mod_eq_of_lt (Nat.lt_trans hfits (by decide))
  rw [hs', hmod]
  refine ⟨(tableInv_of_reach hr).current_lt hm, ?_, ?_, ?_⟩
  · rw [Scheduler.setTask_tasks_self]
  · rw [Scheduler.setTask_tasks_self]
  · rw [Scheduler.setTask_tickCount]
    omega

/-- How a dispatch treats the clock: it stays when a task is `READY` or none is `BLOCKED`, and
otherwise the advance is one exact turn. -/
def DispatchesExactly (s s' : Scheduler) : Prop :=
  (((∃ t < s.taskCount, (s.tasks t).state = .ready) ∨
      ∀ t < s.taskCount, (s.tasks t).state ≠ .blocked) → s'.tickCount = s.tickCount) ∧
  ((∀ t < s.taskCount, (s.tasks t).state ≠ .ready) →
    (∃ t < s.taskCount, (s.tasks t).state = .blocked) →
      AdvancesTo s s.advance ∧ s' = s.advance.switchTo s.advance.selectNext)

private theorem DelayTable.dispatchesExactly {s : Scheduler} {ph : Phase} (h : DelayTable s)
    (hcount : s.taskCount ≤ maxTasks) (hp : ph ≠ .code) :
    DispatchesExactly s (s.dispatch ph) := by
  rcases h.dispatch_cases hcount hp with ⟨⟨t, ht, hr⟩, -, he⟩ | ⟨hno, hb, -, he⟩ | ⟨hno, hb, he⟩
  · rw [he]
    exact ⟨fun _ ↦ rfl, fun hready ↦ absurd hr (hready t ht)⟩
  · refine ⟨?_, fun _ _ ↦ ⟨h.advancesTo hno hb, he⟩⟩
    obtain ⟨b, hb, hblocked⟩ := hb
    rintro (⟨t, ht, hr⟩ | hnone)
    · exact absurd hr (hno t ht)
    · exact absurd hblocked (hnone b hb)
  · rw [he]
    exact ⟨fun _ ↦ rfl, fun _ ⟨t, ht, hblocked⟩ ↦ absurd hblocked (hb t ht)⟩

/-- In every run of such a program a task that delays itself sleeps until the clock is at its
deadline, and is woken there; and the advance takes the clock to the least deadline, wakes
exactly the tasks with it, and passes over none. -/
theorem delays_exact [Inhabited α] (n : Nat) (states : Nat → Sys α) (labels : Nat → ApiAct α)
    (h : IsRun IsInit (Asks OnlyDelays) ApiStep n states labels) :
    (∀ i j m, i < j → j ≤ n → labels i = .act (.call (.vTaskDelay m)) → 0 < m →
      (states i).me ≠ invalidTask →
        HoldsUntil
          (fun k ↦ Sleeps (states k).sched (states i).me ((states i).sched.tickCount + m))
          (fun k ↦ Wakes (states k).sched (states i).me ((states i).sched.tickCount + m)) i j) ∧
    ∀ i < n, labels i = .act .dispatch →
      DispatchesExactly (states i).sched (states (i + 1)).sched := by
  constructor
  · intro i j m hij hj hlabel hm hme
    have hg := h.guarded i (by omega)
    have hs := h.next i (by omega)
    rw [hlabel] at hg hs
    apply HoldsUntil.of_step
    · exact sleeps_of_delay (h.reach (by omega)) hg hs hm hme
    · intro k hik hkj hsleep
      exact hsleep.step (h.reach (by omega)) (h.guarded k (by omega)) (h.next k (by omega))
  · intro i hi hlabel
    have hreach := h.reach (Nat.le_of_lt hi)
    have hs := h.next i hi
    rw [hlabel] at hs
    obtain ⟨hp, he⟩ := hs.dispatch_eq
    rw [he]
    exact (delayTable_of_reach hreach).dispatchesExactly (tableInv_of_reach hreach).taskCount_le hp

/-- Two tasks that delay themselves by 20 and by 10 ticks and then return. -/
def delaysRun : List (ApiAct Unit) :=
  [.act (.call (.xTaskCreate 1)), .act (.call (.xTaskCreate 1)),
    .act (.call .vTaskStartScheduler), .act (.call (.vTaskDelay 20)), .act .dispatch,
    .act (.call (.vTaskDelay 10)), .act .dispatch, .act .resume, .act (.call .taskReturn),
    .act .dispatch]

private theorem delaysRun_isSome : (runActs Sys.apiExec delaysRun (.init {})).isSome = true := by
  decide +kernel

/-- The states of that run. -/
def delaysState (i : Nat) : Sys Unit := stateAt Sys.apiExec delaysRun (.init {}) i

private theorem delaysRun_isRun :
    IsRun IsInit (Asks OnlyDelays) ApiStep 10 delaysState
      (fun i ↦ delaysRun.getD i (.act .resume)) :=
  IsRun.of_guardedRun ApiStep.of_apiExec delaysRun (.act .resume) ⟨{}, rfl⟩ (by decide +kernel)
    delaysRun_isSome

/-- Of two tasks the one with the later deadline. -/
theorem delays_exact_two :
    HoldsUntil
      (fun k ↦ Sleeps (delaysState k).sched (delaysState 3).me
        ((delaysState 3).sched.tickCount + 20))
      (fun k ↦ Wakes (delaysState k).sched (delaysState 3).me
        ((delaysState 3).sched.tickCount + 20)) 3 10 ∧
    (delaysState 7).sched.tickCount = 10 ∧ (delaysState 10).sched.tickCount = 20 :=
  ⟨(delays_exact 10 delaysState _ delaysRun_isRun).1 3 10 20 (by decide) (by decide) rfl
    (by decide) (by decide +kernel), by decide +kernel, by decide +kernel⟩

end McuSimulator.Rtos
