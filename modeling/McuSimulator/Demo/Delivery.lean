import McuSimulator.Demo.Pipeline
import McuSimulator.Rtos.Horizon

/-!
# The end of the pipeline

What keeps each task away from the CPU when the scheduler goes back to `main`: the reader has
ended, and the others have ended or wait for an item of an empty queue. So all readings have been
received by then, and the ring and the FIFO hold the first of them.
-/

namespace McuSimulator.Demo

open Base
open Peripherals Peripherals.Board
open Rtos

/-! ### Contexts and the clock -/

/-- Where a context may be inside the API: past the end of its function only behind its code, and in
no primitive but the two queues. -/
def Fits : Kont TempReading → Place → Prop
  | .user, _ | .delayed, _ | .recvWait _, _ | .recvTest _, _ => True
  | .exited, p => p = .ended
  | .sendWait q _, _ | .sendTest q _, _ => q = toCan ∨ q = toUart
  | _, _ => False

/-- The delays that the reader has asked for. -/
def Place.delays (n : Nat) : Place → Nat
  | .poll k => k
  | .sample k => k + 1
  | .publish k _ => k + 1
  | _ => n

/-- What holds while the delays stay away from the last tick. -/
structure Timely (n : Nat) (m : Machine TempReading World Place) : Prop where
  reach : Reach (· = .init { queueCap := fun _ ↦ 8 }) IdleCalls (Rtos.Step .code) m.sys
  started : m.sys.me ≠ invalidTask → m.place invalidTask = .main 4
  fits : ∀ t, Fits (m.sys.kont t) (m.place t)
  stopped : StoppedAt (· = .exited) m.sys
  deleted : ∀ t < m.sys.sched.taskCount, m.sys.kont t = .exited → m.sys.state t = .deleted
  clock : m.sys.sched.Within (pollDelayTicks * (m.place 0).delays n)

section Timely

variable {n : Nat} {m : Machine TempReading World Place}

private theorem Fits.goes {k k' : Kont TempReading} {p : Place} (h : Fits k p) (hg : k.Goes k') :
    Fits k' p := by
  cases k with
  | user | delayed =>
    obtain rfl := hg
    trivial
  | exited =>
    obtain rfl := hg
    exact h
  | sendWait =>
    obtain rfl := hg
    exact h
  | sendTest =>
    obtain rfl | rfl := hg
    · trivial
    · exact h
  | recvWait =>
    obtain rfl := hg
    trivial
  | recvTest => obtain rfl | rfl := hg <;> trivial
  | _ => exact h.elim

/-- A call gets a context where it fits. -/
theorem Turned.fits {s : Sys TempReading} {w w' : World} {t : TaskHandle} {p p' : Place}
    {op : Op TempReading} (h : Turned n s w t p op w' p') {k : Kont TempReading}
    (hk : k = .user ∨ op.Enters k) : Fits k p' := by
  rcases hk with rfl | hk
  · trivial
  · cases h with
    | create | start => exact hk.elim
    | sample =>
      obtain rfl := hk
      exact .inl rfl
    | publish =>
      obtain rfl := hk
      exact .inr rfl
    | leave | stop =>
      obtain rfl := hk
      rfl
    | _ =>
      obtain rfl := hk
      trivial

/-- The calls keep within the bound on the clock, and no delay ends at a sentinel. -/
theorem Turned.timely {s : Sys TempReading} {w w' : World} {place : TaskHandle → Place} {p : Place}
    {op : Op TempReading} (ht : Turned n s w s.me (place s.me) op w' p)
    (hn : pollDelayTicks * n < uint32Max)
    (hclock : s.sched.tickCount ≤ pollDelayTicks * (place 0).delays n) :
    (place 0).delays n ≤ (Function.update place s.me p 0).delays n ∧
      EndsWithin (pollDelayTicks * (Function.update place s.me p 0).delays n) s.sched
        (s.callRequest op) ∧
      DelayCalls s.sched (s.callRequest op) := by
  generalize s.me = me at ht ⊢
  generalize hp : place me = p₀ at ht
  cases ht with
  | create _ hle =>
    rw [Function.update_of_ne (by decide)]
    exact ⟨Nat.le_refl _, trivial, Nat.le_trans hle (by decide), trivial⟩
  | start =>
    rw [Function.update_of_ne (by decide)]
    exact ⟨Nat.le_refl _, trivial, trivial, trivial⟩
  | @delay k hk =>
    rw [hp] at hclock
    rw [hp, Function.update_self]
    have hend : s.sched.tickCount + pollDelayTicks ≤ pollDelayTicks * (k + 1) :=
      Nat.add_le_add_right hclock _
    have hlt : s.sched.tickCount + pollDelayTicks < uint32Max :=
      Nat.lt_of_le_of_lt (Nat.le_trans hend (Nat.mul_le_mul_left _ hk)) hn
    refine ⟨Nat.le_succ k, hend, trivial, fun _ _ ↦ ?_⟩
    rw [Nat.mod_eq_of_lt (Nat.lt_trans hlt (by decide))]
    exact ⟨Nat.ne_of_gt (Nat.lt_of_lt_of_le (by decide) (Nat.le_add_left _ _)), Nat.ne_of_lt hlt⟩
  | leave | sample | publish =>
    rw [hp, Function.update_self]
    exact ⟨Nat.le_refl _, trivial, trivial, trivial⟩
  | forwarder | forward | logger | log | stop =>
    rw [Function.update_of_ne (by decide)]
    exact ⟨Nat.le_refl _, trivial, trivial, trivial⟩

/-- A call of the program is one that the result on idling is about. -/
theorem Turned.idleCalls {s : Sys TempReading} {w w' : World} {t : TaskHandle} {p p' : Place}
    {op : Op TempReading} (h : Turned n s w t p op w' p') (hme : s.me = t)
    (hd : DelayCalls s.sched (s.callRequest op)) :
    IdleCalls s (.call op) ∧ StopsAt (· = .exited) s (.call op) := by
  have hdisciplined := (h.disciplined hme).1
  cases h <;> exact ⟨⟨⟨⟨hdisciplined, trivial⟩, trivial⟩, hd⟩, trivial⟩

/-- After the start `main` is at its end. -/
theorem Turned.started {s s' : Sys TempReading} {w w' : World} {place : TaskHandle → Place}
    {p : Place} {op : Op TempReading} (ht : Turned n s w s.me (place s.me) op w' p)
    (h : s.me ≠ invalidTask → place invalidTask = .main 4) (hs : Rtos.Step .code s (.call op) s')
    (hme' : s'.me ≠ invalidTask) : Function.update place s.me p invalidTask = .main 4 := by
  generalize hme : s.me = me at ht h ⊢
  generalize place me = p₀ at ht
  cases ht with
  | @create c q hc hq =>
    cases hs with
    | call =>
      refine absurd ?_ hme'
      have hsame : (s.call (.xTaskCreate q)).me = s.me := by
        show (if _ then _ else _ : Sys TempReading).me = _
        split
        · rfl
        · show (Scheduler.xTaskCreate _ _).current = _
          unfold Scheduler.xTaskCreate
          split <;> rfl
      exact hsame.trans hme
  | start => exact Function.update_self _ _ _
  | _ => exact (Function.update_of_ne (by decide) _ _).trans (h (by decide))

/-- A context moves where it fits. -/
theorem fits_step {s s' : Sys TempReading} {place place' : TaskHandle → Place}
    {a : Act TempReading} (h : ∀ t, Fits (s.kont t) (place t)) (hs : Rtos.Step .code s a s')
    (hinv : SchedInv s) (hplace : ∀ t, t ≠ s.me → place' t = place t)
    (hme : ∀ k, a.Leads s k → Fits k (place' s.me)) : ∀ t, Fits (s'.kont t) (place' t) := by
  obtain ⟨k, hl, hk⟩ := hs.leads hinv.fresh
  intro t
  rw [hk]
  by_cases ht : t = s.me
  · rw [ht, Function.update_self]
    exact hme k hl
  · rw [Function.update_of_ne ht, hplace t ht]
    exact h t

/-- Only its return ends a function. -/
theorem eq_taskReturn_of_leads {s : Sys TempReading} {a : Act TempReading}
    (h : a.Leads s .exited) (hne : s.kont s.me ≠ .exited) : a = .call .taskReturn := by
  cases a with
  | call op =>
    obtain ⟨-, h | h⟩ := h
    · cases h
    · cases op with
      | taskReturn => rfl
      | _ => cases h
  | resume =>
    have hgoes : (s.kont s.me).Goes .exited := h
    generalize s.kont s.me = k at hgoes hne
    cases k with
    | exited => exact absurd rfl hne
    | _ => simp [Kont.Goes] at hgoes
  | dispatch => exact absurd (Eq.symm h) hne

/-- The task of a function that has ended is deleted. -/
theorem deleted_step {s s' : Sys TempReading} {a : Act TempReading}
    (h : ∀ t < s.sched.taskCount, s.kont t = .exited → s.state t = .deleted) (hinv : SchedInv s)
    (hs : Rtos.Step .code s a s') (hreq : ∀ t, s.request (.act a) ≠ .vTaskSuspend t) :
    ∀ t < s'.sched.taskCount, s'.kont t = .exited → s'.state t = .deleted := by
  intro t ht hk
  by_cases hold : s.kont t = .exited
  · have hlt : t < s.sched.taskCount := by
      by_contra hge
      rw [hinv.fresh t (Nat.le_of_not_lt hge)] at hold
      cases hold
    exact (hinv.table.deleted_step (.act hs) (hreq t) ⟨hlt, h t hlt hold⟩).2
  · obtain ⟨k, hl, hkont⟩ := hs.leads hinv.fresh
    rw [hkont] at hk
    by_cases hme : t = s.me
    · rw [hme, Function.update_self] at hk
      obtain rfl := eq_taskReturn_of_leads (hk ▸ hl) (hme ▸ hold)
      rw [hme]
      cases hs with
      | call =>
        show ((s.sched.setState s.me .deleted).tasks s.me).state = _
        rw [Scheduler.setState_tasks_self]
    · rw [Function.update_of_ne hme] at hk
      exact absurd hk hold

/-- Only a task goes on in the kernel. -/
theorem busy_of_kernel {s s' : Sys TempReading} {a : Act TempReading} (hinv : SchedInv s)
    (ha : a = .resume ∨ a = .dispatch) (hs : Rtos.Step .code s a s') : s.me ≠ invalidTask := by
  rcases ha with rfl | rfl
  · cases hs with
    | resume hp hk =>
      intro hme
      rw [hinv.outside hme] at hk
      exact hk
  · cases hs with
    | dispatch hp => exact hinv.busy hp

private theorem Turned.not_suspends {s : Sys TempReading} {w w' : World} {t : TaskHandle}
    {p p' : Place} {op : Op TempReading} (h : Turned n s w t p op w' p') (u : TaskHandle) :
    s.request (.act (.call op)) ≠ .vTaskSuspend u := by
  cases h <;> exact nofun

private theorem Timely.kernel (h : Timely n m) (hp : PipelineInv .code n m) {a : Act TempReading}
    {s : Sys TempReading} (ha : a = .resume ∨ a = .dispatch) (hs : Rtos.Step .code m.sys a s) :
    Timely n { m with sys := s } := by
  have hsched := hp.run.sched
  have hbusy := busy_of_kernel hsched ha hs
  have hcalls : IdleCalls m.sys a ∧ StopsAt (· = .exited) m.sys a ∧
      Asks (EndsWithin (pollDelayTicks * (m.place 0).delays n)) m.sys (.act a) ∧
      ∀ t, m.sys.request (.act a) ≠ .vTaskSuspend t := by
    rcases ha with rfl | rfl
    · have hsafe : m.sys.TableSafeAt (m.sys.kont m.sys.me) := by
        have hfits := h.fits m.sys.me
        generalize m.sys.kont m.sys.me = k at hfits ⊢
        cases k with
        | checkTest | checkCompact => exact hfits.elim
        | _ => trivial
      have huntimed := m.sys.untimed_resume (m.sys.kont m.sys.me)
      exact ⟨⟨⟨⟨⟨trivial, trivial⟩, hsafe⟩, trivial⟩, huntimed.delayCalls⟩, trivial,
        huntimed.endsWithin, fun t ht ↦ huntimed.ne_suspend ht⟩
    · exact ⟨⟨⟨⟨⟨trivial, trivial⟩, trivial⟩, trivial⟩, trivial, trivial⟩, trivial, trivial,
        fun t ↦ nofun⟩
  obtain ⟨hidle, hstop, hasks, hreq⟩ := hcalls
  refine ⟨h.reach.next hidle hs, fun _ ↦ h.started hbusy, ?_, ?_, ?_, ?_⟩
  · refine fits_step h.fits hs hsched (fun _ _ ↦ rfl) fun k hl ↦ ?_
    rcases ha with rfl | rfl
    · exact (h.fits m.sys.me).goes hl
    · obtain rfl := hl
      exact h.fits m.sys.me
  · exact h.stopped.step rfl hsched hidle.1.1.1.1 hstop hs
  · exact deleted_step h.deleted hsched hs hreq
  · exact h.clock.step hsched.taskCount_le hasks (.act hs)

private theorem Timely.call (h : Timely n m) (hp : PipelineInv .code n m)
    (hn : pollDelayTicks * n < uint32Max) {op : Op TempReading} {w : World} {p : Place}
    {s : Sys TempReading} (ht : Turned n m.sys m.world m.sys.me (m.place m.sys.me) op w p)
    (hs : Rtos.Step .code m.sys (.call op) s) :
    Timely n ⟨s, w, Function.update m.place m.sys.me p⟩ := by
  have hsched := hp.run.sched
  obtain ⟨hle, hwithin, hdelay⟩ := ht.timely hn h.clock.clock
  obtain ⟨hidle, hstop⟩ := ht.idleCalls rfl hdelay
  refine ⟨h.reach.next hidle hs, ht.started h.started hs, ?_, ?_, ?_, ?_⟩
  · refine fits_step h.fits hs hsched (fun t hne ↦ Function.update_of_ne hne _ _) fun k hl ↦ ?_
    show Fits k (Function.update m.place m.sys.me p m.sys.me)
    rw [Function.update_self]
    exact ht.fits hl.2
  · exact h.stopped.step rfl hsched hidle.1.1.1.1 hstop hs
  · exact deleted_step h.deleted hsched hs ht.not_suspends
  · have hasks : Asks (EndsWithin _) m.sys (.act (.call op)) := hwithin
    exact (h.clock.mono (Nat.mul_le_mul_left _ hle)).step hsched.taskCount_le hasks (.act hs)

private theorem timely_start : Timely n start where
  reach := .start rfl
  started h := absurd rfl h
  fits _ := trivial
  stopped t ht := absurd ht (Nat.not_lt_zero t)
  deleted t ht := absurd ht (Nat.not_lt_zero t)
  clock := ⟨Nat.zero_le _, fun _ ↦ Nat.zero_le _⟩

/-- The delays stay away from the last tick in every run. -/
theorem timely_of_reaches (hn : pollDelayTicks * n < uint32Max)
    (h : Machine.Reaches .code (code n) start m) : Timely n m := by
  refine h.invariant_of (fun _ ↦ pipelineInv_of_reaches) ?_ ?_
  · rintro u rfl
    exact timely_start
  · intro u a v hp _ hi _ hst
    cases hst with
    | call ht hs => exact hi.call hp hn (hp.turned_of_call ht hs) hs
    | kernel ha hs => exact hi.kernel hp ha hs

end Timely

/-! ### Idle -/

/-- What keeps a task away from the CPU for good. -/
inductive Rests (s : Sys TempReading) (t : TaskHandle) : Place → Prop
  | ended (hk : s.kont t = .exited) : Rests s t .ended
  | sends {p : Place} (q : Nat) (item : TempReading) (hq : q = toCan ∨ q = toUart)
    (hk : s.kont t = .sendWait q item) (hfull : (s.queue q).count = (s.queue q).cap) : Rests s t p
  | receives {p : Place} (q : Nat) (hk : s.kont t = .recvWait q) (hempty : (s.queue q).count = 0) :
    Rests s t p

section Idle

variable {D : Dispatcher} {n : Nat} {m : Machine TempReading World Place}

private theorem Timely.rests (h : Timely n m) {t : TaskHandle} (ht : t < m.sys.sched.taskCount)
    (hidle : m.sys.state t = .suspended ∨ m.sys.state t = .deleted ∨
      m.sys.state t = .blocked ∧ m.sys.Refuses (m.sys.kont t)) : Rests m.sys t (m.place t) := by
  have hfits := h.fits t
  have hended : m.sys.Stopped t → Rests m.sys t (m.place t) := by
    intro hstopped
    have hk := h.stopped t ht hstopped
    rw [hk] at hfits
    rw [show m.place t = .ended from hfits]
    exact .ended hk
  rcases hidle with hstate | hstate | ⟨-, hrefuses⟩
  · exact hended (.inl hstate)
  · exact hended (.inr hstate)
  · generalize hk : m.sys.kont t = k at hrefuses hfits
    cases hrefuses with
    | send q item hfull => exact .sends q item hfits hk hfull
    | receive q hempty => exact .receives q hk hempty
    | _ => exact hfits.elim

/-- All items of an empty queue have been received. -/
theorem PipelineInv.dequeued_of_empty (h : PipelineInv D n m) {q : Nat}
    (hempty : (m.sys.queue q).count = 0) :
    dequeuedItems q m.sys.log = enqueuedItems q m.sys.log := by
  have hnil : (m.sys.queue q).contents = [] := by
    rw [← List.length_eq_zero_iff, Queue.contents, RingBuf.length_contents]
    exact hempty
  rw [(h.queue q).items, hnil, List.append_nil]

/-- Another task than the reader does not wait in `send`. -/
theorem Roles.not_sends {s : Sys TempReading} (h : Roles s) {t : TaskHandle} (ht : t ≠ 0) {q : Nat}
    {item : TempReading} : s.kont t ≠ .sendWait q item := by
  intro hk
  have hnil := h.sends t q ht
  rw [hk, show (Kont.sendWait q item).sending q = [item] from if_pos rfl] at hnil
  cases hnil

private theorem Roles.receives_of_wait {s : Sys TempReading} (h : Roles s) {t : TaskHandle}
    {q : Nat} (hk : s.kont t = .recvWait q) : t = 1 ∧ q = toCan ∨ t = 2 ∧ q = toUart :=
  h.receives t q (hk ▸ decide_eq_true rfl)

/-- The forwarder rests when it has received all items of its queue, and the ring holds their
frames, as many as there is room for. -/
theorem PipelineInv.forwarder_rests (h : PipelineInv D n m) (hr : Rests m.sys 1 (m.place 1)) :
    (m.sys.queue toCan).count = 0 ∧ Forwarded (dequeuedItems toCan m.sys.log) (m.world .can) := by
  have hplace := h.tasks.forwarder
  generalize m.place 1 = p at hplace hr
  cases hr with
  | ended hk =>
    rw [hk] at hplace
    cases hplace
  | sends q item hq hk => exact absurd hk (h.tasks.not_sends (by decide))
  | receives q hk hempty =>
    obtain ⟨-, rfl⟩ | ⟨hne, -⟩ := h.tasks.receives_of_wait hk
    · have hin : (m.sys.kont 1).inReceive toCan = true := by
        rw [hk]
        rfl
      rw [hin] at hplace
      cases hplace with
      | waits hf => exact ⟨hempty, hf⟩
    · cases hne

/-- The logger rests when it has received all items of its queue, or `n` of them, and the FIFO holds
their text, as much as there is room for. -/
theorem PipelineInv.logger_rests (h : PipelineInv D n m) (hr : Rests m.sys 2 (m.place 2)) :
    Logged (logText (dequeuedItems toUart m.sys.log)) (m.world .uart) ∧
      ((m.sys.queue toUart).count = 0 ∨ (dequeuedItems toUart m.sys.log).length = n) := by
  have hplace := h.tasks.logger
  generalize m.place 2 = p at hplace hr
  cases hr with
  | ended hk =>
    rw [hk] at hplace
    cases hplace with
    | ended hl hlen => exact ⟨hl, .inr hlen⟩
  | sends q item hq hk => exact absurd hk (h.tasks.not_sends (by decide))
  | receives q hk hempty =>
    obtain ⟨hne, -⟩ | ⟨-, rfl⟩ := h.tasks.receives_of_wait hk
    · cases hne
    · have hin : (m.sys.kont 2).inReceive toUart = true := by
        rw [hk]
        rfl
      rw [hin] at hplace
      cases hplace with
      | waits hl => exact ⟨hl, .inl hempty⟩

/-- The reader rests at its end, when the others rest. -/
theorem PipelineInv.reader_rests (h : PipelineInv D n m) (hr : Rests m.sys 0 (m.place 0))
    (hcan : (m.sys.queue toCan).count = 0)
    (huart : (m.sys.queue toUart).count = 0 ∨ (dequeuedItems toUart m.sys.log).length = n) :
    (∀ q, m.sys.handed 0 q = enqueuedItems q m.sys.log) ∧ ∃ rs, Made rs ∧ rs.length = n ∧
      enqueuedItems toCan m.sys.log = rs ∧ enqueuedItems toUart m.sys.log = rs := by
  have hplace := h.tasks.reader
  obtain ⟨-, hn, hpub, -⟩ := hplace.handed
  generalize m.place 0 = p at hplace hr
  cases hr with
  | ended hk =>
    have hhanded : ∀ q, m.sys.handed 0 q = enqueuedItems q m.sys.log := by
      intro q
      rw [Sys.handed, hk]
      exact List.append_nil _
    rw [hhanded, hhanded] at hplace
    refine ⟨hhanded, ?_⟩
    generalize enqueuedItems toCan m.sys.log = out₀, enqueuedItems toUart m.sys.log = out₁ at hplace
    cases hplace with
    | ended hmade hlen => exact ⟨_, hmade, hlen, rfl, rfl⟩
  | receives q hk =>
    obtain ⟨hne, -⟩ | ⟨hne, -⟩ := h.tasks.receives_of_wait hk <;> cases hne
  | sends q item hq hk hfull =>
    have hcap : (m.sys.queue q).cap = 8 := (h.queue q).cap_eq
    rcases hq with rfl | rfl
    · omega
    · rcases huart with hempty | hlen
      · omega
      · -- the logger has received `n` items, and the queue holds eight more
        have hle : (m.sys.handed 0 toUart).length ≤ n := Nat.le_trans hpub.length_le hn
        have hcount : (m.sys.queue toUart).contents.length = 8 := by
          rw [Queue.contents, RingBuf.length_contents]
          exact hfull.trans hcap
        rw [Sys.handed, (h.queue toUart).items, List.length_append, List.length_append] at hle
        omega

/-- The scheduler goes back to the end of `main`. -/
theorem Timely.main_of_dispatch {m' : Machine TempReading World Place} (h : Timely n m)
    (hinv : SchedInv m.sys) (hst : Machine.Step .code (code n) m .dispatch m') :
    m'.place invalidTask = .main 4 := by
  cases hst with
  | kernel ha hs => exact h.started (busy_of_kernel hinv ha hs)

/-- The readings have come through: the reader has made `n` of them and handed them to both queues,
the others have received them all, and the ring and the FIFO hold as much as there is room for. -/
structure Delivered (n : Nat) (rs : List TempReading) (m : Machine TempReading World Place) :
    Prop where
  made : Made rs
  length_eq : rs.length = n
  handed : ∀ q, q = toCan ∨ q = toUart → m.sys.handed 0 q = rs
  received : ∀ q, q = toCan ∨ q = toUart → dequeuedItems q m.sys.log = rs
  forwarded : Forwarded rs (m.world .can)
  logged : Logged (logText rs) (m.world .uart)

/-- When the scheduler goes back to `main`, every reading has come through. -/
theorem pipeline_delivers (hn : pollDelayTicks * n < uint32Max)
    {m m' : Machine TempReading World Place} (h : Machine.Reaches .code (code n) start m)
    (hst : Machine.Step .code (code n) m .dispatch m') (hidle : m'.sys.me = invalidTask) :
    ∃ rs, Delivered n rs m' := by
  have hreach' : Machine.Reaches .code (code n) start m' := h.next trivial hst
  have hinv' := pipelineInv_of_reaches hreach'
  have htimely' := timely_of_reaches hn hreach'
  have htimely := timely_of_reaches hn h
  have hrests : ∀ t < 3, Rests m'.sys t (m'.place t) := by
    obtain ⟨c, hc, hplace, hcount⟩ := hinv'.main
    have hmain := htimely.main_of_dispatch (pipelineInv_of_reaches h).run.sched hst
    obtain rfl : 4 = c := Place.main.inj (hmain.symm.trans hplace)
    intro t ht
    have hlt : t < m'.sys.sched.taskCount := Nat.lt_of_lt_of_eq ht hcount.symm
    exact htimely'.rests hlt (idle_only_refused htimely.reach hst.sys hidle t hlt)
  obtain ⟨hcan, hforwarded⟩ := hinv'.forwarder_rests (hrests 1 (by decide))
  obtain ⟨hlogged, huart⟩ := hinv'.logger_rests (hrests 2 (by decide))
  obtain ⟨hhanded, rs, hmade, hlen, hsent, hlog⟩ :=
    hinv'.reader_rests (hrests 0 (by decide)) hcan huart
  have hfirst : dequeuedItems toCan m'.sys.log = rs := by
    rw [hinv'.dequeued_of_empty hcan, hsent]
  have hall : dequeuedItems toUart m'.sys.log = rs := by
    rcases huart with hempty | hgot
    · rw [hinv'.dequeued_of_empty hempty, hlog]
    · have hprefix : dequeuedItems toUart m'.sys.log <+: rs := by
        rw [← hlog, (hinv'.queue toUart).items]
        exact List.prefix_append _ _
      exact hprefix.eq_of_length (hgot.trans hlen.symm)
  refine ⟨rs, hmade, hlen, ?_, ?_, hfirst ▸ hforwarded, hall ▸ hlogged⟩
  · rintro q (rfl | rfl)
    · exact (hhanded toCan).trans hsent
    · exact (hhanded toUart).trans hlog
  · rintro q (rfl | rfl)
    · exact hfirst
    · exact hall

end Idle

end McuSimulator.Demo
