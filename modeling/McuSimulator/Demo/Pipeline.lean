import McuSimulator.Demo.Turns
import McuSimulator.Rtos.Idle

/-!
# The pipeline

What holds while the demo runs, whatever task the scheduler picks: the readings that have been
handed over are those that the reader makes of the sensor, both queues carry them in order, and the
ring of the second controller and the transmit FIFO hold the first of those that have been received.
-/

namespace McuSimulator.Demo

open Base
open Peripherals Peripherals.Board
open Rtos

/-! ### The tasks -/

/-- Each reading is the one that the reader makes. -/
def Made (rs : List TempReading) : Prop := ∀ k r, rs[k]? = some r → r = readingAt k r.tick

/-- The reader at a place: what it has handed to the first queue and to the second one. -/
inductive ReaderAt (n : Nat) (l : Lm75) : Place → List TempReading → List TempReading → Prop
  | poll {rs : List TempReading} {k : Nat} (hmade : Made rs) (hlen : rs.length = k) (hk : k ≤ n)
    (hs : SensorAt k l) : ReaderAt n l (.poll k) rs rs
  | sample {rs : List TempReading} {k : Nat} (hmade : Made rs) (hlen : rs.length = k) (hk : k < n)
    (hs : SensorAt k l) : ReaderAt n l (.sample k) rs rs
  | publish {rs : List TempReading} {k : Nat} {r : TempReading} (hmade : Made (rs ++ [r]))
    (hlen : rs.length = k) (hk : k < n) (hs : SensorAt (k + 1) l) :
    ReaderAt n l (.publish k r) (rs ++ [r]) rs
  | ended {rs : List TempReading} (hmade : Made rs) (hlen : rs.length = n) :
    ReaderAt n l .ended rs rs

/-- The forwarder at a place, inside `receive` or not: what it has received. -/
inductive ForwarderAt (c : CanBus) : Place → Bool → List TempReading → Prop
  | start (h : Forwarded [] c) : ForwarderAt c .forwarder false []
  | waits {rs : List TempReading} (h : Forwarded rs c) : ForwarderAt c .forward true rs
  | holds {rs : List TempReading} (r : TempReading) (h : Forwarded rs c) :
    ForwarderAt c .forward false (rs ++ [r])

/-- What `main` and the logger write. -/
def logText (rs : List TempReading) : List Char := banner ++ rs.flatMap logLine

/-- The logger at a place, inside `receive` or not: what it has received. -/
inductive LoggerAt (n : Nat) (u : Uart) : Place → Bool → List TempReading → Prop
  | start (h : Logged (logText []) u) : LoggerAt n u .logger false []
  | waits {rs : List TempReading} {k : Nat} (h : Logged (logText rs) u) (hlen : rs.length = k) :
    LoggerAt n u (.log k) true rs
  | holds {rs : List TempReading} {k : Nat} (r : TempReading) (h : Logged (logText rs) u)
    (hlen : rs.length = k) : LoggerAt n u (.log k) false (rs ++ [r])
  | ended {rs : List TempReading} (h : Logged (logText rs) u) (hlen : rs.length = n) :
    LoggerAt n u .ended false rs

/-- The first task sends, and each of the others receives from its queue. -/
structure Roles (s : Sys TempReading) : Prop where
  receives : ∀ t q, (s.kont t).inReceive q = true → t = 1 ∧ q = toCan ∨ t = 2 ∧ q = toUart
  sends : ∀ t q, t ≠ 0 → (s.kont t).sending q = []

/-- The three tasks in their places. -/
structure Tasks (n : Nat) (s : Sys TempReading) (w : World) (place : TaskHandle → Place) : Prop
    extends Roles s where
  reader : ReaderAt n (I2c.lm75 (w .i2c)) (place 0) (s.handed 0 toCan) (s.handed 0 toUart)
  forwarder : ForwarderAt (w .can) (place 1) ((s.kont 1).inReceive toCan)
    (dequeuedItems toCan s.log)
  logger : LoggerAt n (w .uart) (place 2) ((s.kont 2).inReceive toUart) (dequeuedItems toUart s.log)

section Tasks

variable {n : Nat} {s s' : Sys TempReading} {w : World} {place : TaskHandle → Place}

private theorem Made.nil : Made [] := nofun

/-- One more reading. -/
theorem Made.concat {rs : List TempReading} {k : Nat} (h : Made rs) (hlen : rs.length = k)
    (tick : Nat) : Made (rs ++ [readingAt k tick]) := by
  intro j r hr
  rcases Nat.lt_trichotomy j rs.length with hj | rfl | hj
  · rw [List.getElem?_append_left hj] at hr
    exact h j r hr
  · rw [List.getElem?_concat_length] at hr
    obtain rfl := Option.some.inj hr
    rw [hlen]
    rfl
  · rw [List.getElem?_eq_none (by rw [List.length_append, List.length_singleton]; omega)] at hr
    cases hr

private theorem logText_concat (rs : List TempReading) (r : TempReading) :
    logText (rs ++ [r]) = logText rs ++ logLine r := by
  rw [logText, List.flatMap_append, ← List.append_assoc]
  simp [logText]

/-! ### Steps of the kernel -/

private theorem Roles.goes (h : Roles s) (hg : Goes s s') : Roles s' where
  receives t q ht := h.receives t q (hg.inReceive ht)
  sends t q ht := hg.sending (h.sends t q ht)

/-- Only the reader is at a test of `send`. -/
theorem Roles.me_of_sendTest (h : Roles s) {q : Nat} {item : TempReading}
    (hk : s.kont s.me = .sendTest q item) : s.me = 0 := by
  by_contra hne
  have hnil := h.sends s.me q hne
  rw [hk, Kont.sending_sendTest] at hnil
  cases hnil

/-- A step that is no call of a queue keeps the tasks in place. -/
theorem Tasks.goes (h : Tasks n s w place) (hg : Goes s s') : Tasks n s' w place where
  toRoles := h.toRoles.goes hg
  reader := by
    rw [hg.handed fun _ _ ↦ h.me_of_sendTest, hg.handed fun _ _ ↦ h.me_of_sendTest]
    exact h.reader
  forwarder := by
    have honly : s.kont s.me = .recvTest toCan → s.me = 1 := by
      intro hk
      have hme := h.receives s.me toCan (hk ▸ Kont.inReceive_recvTest _)
      exact (hme.resolve_right fun hq ↦ absurd hq.2 (by decide)).1
    have hplace := h.forwarder
    generalize place 1 = p at hplace ⊢
    rcases hg.taken honly with ⟨hin, hdeq⟩ | ⟨hold, hnew, item, hdeq⟩
    · rwa [hin, hdeq]
    · rw [hold] at hplace
      rw [hnew, hdeq]
      cases hplace with
      | waits hf => exact .holds item hf
  logger := by
    have honly : s.kont s.me = .recvTest toUart → s.me = 2 := by
      intro hk
      have hme := h.receives s.me toUart (hk ▸ Kont.inReceive_recvTest _)
      exact (hme.resolve_left fun hq ↦ absurd hq.2 (by decide)).1
    have hplace := h.logger
    generalize place 2 = p at hplace ⊢
    rcases hg.taken honly with ⟨hin, hdeq⟩ | ⟨hold, hnew, item, hdeq⟩
    · rwa [hin, hdeq]
    · rw [hold] at hplace
      rw [hnew, hdeq]
      cases hplace with
      | waits hf hlen => exact .holds item hf hlen

/-! ### Calls -/

section Reader

variable {l : Lm75} {k : Nat} {r : TempReading} {out₀ out₁ : List TempReading}

private theorem ReaderAt.delay (h : ReaderAt n l (.poll k) out₀ out₁) (hk : k < n) :
    ReaderAt n l (.sample k) out₀ out₁ := by
  cases h with
  | poll hmade hlen _ hs => exact .sample hmade hlen hk hs

private theorem ReaderAt.leave (h : ReaderAt n l (.poll n) out₀ out₁) :
    ReaderAt n l .ended out₀ out₁ := by
  cases h with
  | poll hmade hlen _ hs => exact .ended hmade hlen

private theorem ReaderAt.sampled {l' : Lm75} (h : ReaderAt n l (.sample k) out₀ out₁)
    (hs : SensorAt (k + 1) l') (tick : Nat) :
    ReaderAt n l' (.publish k (readingAt k tick)) (out₀ ++ [readingAt k tick]) out₁ := by
  cases h with
  | sample hmade hlen hk _ => exact .publish (hmade.concat hlen tick) hlen hk hs

private theorem ReaderAt.published (h : ReaderAt n l (.publish k r) out₀ out₁) :
    ReaderAt n l (.poll (k + 1)) out₀ (out₁ ++ [r]) := by
  cases h with
  | publish hmade hlen hk hs =>
    exact .poll hmade (by rw [List.length_append, hlen, List.length_singleton]) hk hs

end Reader

/-- The reader goes on behind a call of the scheduler. -/
theorem Tasks.moves {p : Place} (h : Tasks n s w place)
    (hreader : ReaderAt n (I2c.lm75 (w .i2c)) p (s.handed 0 toCan) (s.handed 0 toUart)) :
    Tasks n s w (Function.update place 0 p) where
  toRoles := h.toRoles
  reader := hreader
  forwarder := h.forwarder
  logger := h.logger

/-- The reader calls `send`. -/
theorem Tasks.send {w' : World} {p : Place} {q : Nat} {item : TempReading} (h : Tasks n s w place)
    (hme : s.me = 0) (hu : (s.kont s.me).IsUser) (hcan : w' .can = w .can)
    (huart : w' .uart = w .uart)
    (hreader : ReaderAt n (I2c.lm75 (w' .i2c)) p
      (s.handed 0 toCan ++ if q = toCan then [item] else [])
      (s.handed 0 toUart ++ if q = toUart then [item] else [])) :
    Tasks n (s.call (.send q item)) w' (Function.update place s.me p) := by
  have hkont : (s.call (.send q item)).kont = Function.update s.kont 0 (.sendTest q item) :=
    congrArg (Function.update s.kont · _) hme
  have hold : s.kont 0 = .user := hme ▸ hu.eq
  have hhanded : ∀ q', (s.call (.send q item)).handed 0 q' =
      s.handed 0 q' ++ if q = q' then [item] else [] := by
    intro q'
    rw [Sys.handed, Sys.handed, hkont, Function.update_self, hold]
    exact congrArg (· ++ _) (List.append_nil _).symm
  rw [hme]
  refine ⟨⟨fun t q' ht ↦ ?_, fun t q' ht ↦ ?_⟩, ?_, ?_, ?_⟩
  · rw [hkont] at ht
    by_cases hzero : t = 0
    · rw [hzero, Function.update_self] at ht
      cases ht
    · rw [Function.update_of_ne hzero] at ht
      exact h.receives t q' ht
  · rw [hkont, Function.update_of_ne ht]
    exact h.sends t q' ht
  · rw [hhanded, hhanded]
    exact hreader
  · rw [hkont, hcan]
    exact h.forwarder
  · rw [hkont, huart]
    exact h.logger

/-- One of the others calls `receive` on its queue. -/
theorem Roles.receive {t q : Nat} (h : Roles s)
    (hrole : t = 1 ∧ q = toCan ∨ t = 2 ∧ q = toUart) (hme : s.me = t) :
    Roles (s.call (.receive q)) ∧
      (s.call (.receive q)).kont = Function.update s.kont t (.recvTest q) ∧
      ((s.call (.receive q)).kont t).inReceive q = true := by
  have hkont : (s.call (.receive q)).kont = Function.update s.kont t (.recvTest q) :=
    congrArg (Function.update s.kont · _) hme
  refine ⟨⟨fun u q' hu ↦ ?_, fun u q' hu ↦ ?_⟩, hkont, ?_⟩
  · rw [hkont] at hu
    by_cases hut : u = t
    · rw [hut, Function.update_self] at hu
      obtain rfl : q = q' := of_decide_eq_true hu
      exact hut ▸ hrole
    · rw [Function.update_of_ne hut] at hu
      exact h.receives u q' hu
  · rw [hkont]
    by_cases hut : u = t
    · rw [hut, Function.update_self]
      rfl
    · rw [Function.update_of_ne hut]
      exact h.sends u q' hu
  · rw [hkont, Function.update_self]
    exact Kont.inReceive_recvTest q

/-- The forwarder goes back to `receive` when the ring shows what it has received. -/
theorem Tasks.receive_can {c : CanBus} (h : Tasks n s w place) (hme : s.me = 1)
    (hc : Forwarded (dequeuedItems toCan s.log) c) :
    Tasks n (s.call (.receive toCan)) (Function.update w .can c)
      (Function.update place s.me .forward) := by
  obtain ⟨hroles, hkont, hin⟩ := h.toRoles.receive (.inl ⟨rfl, rfl⟩) hme
  rw [hme]
  refine ⟨hroles, ?_, ?_, ?_⟩
  · rw [Sys.handed, Sys.handed, hkont]
    exact h.reader
  · rw [hin]
    exact .waits hc
  · rw [hkont]
    exact h.logger

/-- The logger goes back to `receive` when the FIFO shows what it has received. -/
theorem Tasks.receive_uart {u : Uart} {k : Nat} (h : Tasks n s w place) (hme : s.me = 2)
    (hu : Logged (logText (dequeuedItems toUart s.log)) u)
    (hlen : (dequeuedItems toUart s.log).length = k) :
    Tasks n (s.call (.receive toUart)) (Function.update w .uart u)
      (Function.update place s.me (.log k)) := by
  obtain ⟨hroles, hkont, hin⟩ := h.toRoles.receive (.inr ⟨rfl, rfl⟩) hme
  rw [hme]
  refine ⟨hroles, ?_, ?_, ?_⟩
  · rw [Sys.handed, Sys.handed, hkont]
    exact h.reader
  · rw [hkont]
    exact h.forwarder
  · rw [hin]
    exact .waits hu hlen

/-- The logger returns when the FIFO shows all readings. -/
theorem Tasks.return_uart {u : Uart} (h : Tasks n s w place) (hme : s.me = 2)
    (hg : Goes s s.taskReturn) (hu : Logged (logText (dequeuedItems toUart s.log)) u)
    (hlen : (dequeuedItems toUart s.log).length = n) :
    Tasks n s.taskReturn (Function.update w .uart u) (Function.update place s.me .ended) := by
  have hkont : s.taskReturn.kont 2 = .exited := by
    show Function.update s.kont s.me .exited 2 = _
    rw [hme, Function.update_self]
  obtain ⟨hroles, hreader, hforwarder, -⟩ := h.goes hg
  rw [hme]
  refine ⟨hroles, hreader, hforwarder, ?_⟩
  rw [hkont]
  exact .ended hu hlen

end Tasks

/-! ### Turns -/

/-- The turns of the contexts by their places: the call, and the world and the place behind it. -/
inductive Turned (n : Nat) (s : Sys TempReading) (w : World) :
    TaskHandle → Place → Op TempReading → World → Place → Prop
  | create {c p : Nat} (hc : c < 3) (hp : p ≤ 2) :
    Turned n s w invalidTask (.main c) (.xTaskCreate p) w (.main (c + 1))
  | start : Turned n s w invalidTask (.main 3) .vTaskStartScheduler w (.main 4)
  | delay {k : Nat} (hk : k < n) :
    Turned n s w 0 (.poll k) (.vTaskDelay pollDelayTicks) w (.sample k)
  | leave : Turned n s w 0 (.poll n) .taskReturn w .ended
  | sample {k : Nat} {i : I2c} (hi : SensorAt (k + 1) i.lm75) :
    Turned n s w 0 (.sample k) (.send toCan (readingAt k s.sched.tickCount))
      (Function.update w .i2c i) (.publish k (readingAt k s.sched.tickCount))
  | publish {k : Nat} {r : TempReading} :
    Turned n s w 0 (.publish k r) (.send toUart r) w (.poll (k + 1))
  | forwarder (hf : Forwarded (dequeuedItems toCan s.log) (w .can)) :
    Turned n s w 1 .forwarder (.receive toCan) w .forward
  | forward {c : CanBus} (hf : Forwarded (dequeuedItems toCan s.log) c) :
    Turned n s w 1 .forward (.receive toCan) (Function.update w .can c) .forward
  | logger (hu : Logged (logText (dequeuedItems toUart s.log)) (w .uart))
    (hlen : (dequeuedItems toUart s.log).length = 0) :
    Turned n s w 2 .logger (.receive toUart) w (.log 0)
  | log {k : Nat} {u : Uart} (hu : Logged (logText (dequeuedItems toUart s.log)) u)
    (hlen : (dequeuedItems toUart s.log).length = k + 1) (hk : k + 1 ≠ n) :
    Turned n s w 2 (.log k) (.receive toUart) (Function.update w .uart u) (.log (k + 1))
  | stop {k : Nat} {u : Uart} (hu : Logged (logText (dequeuedItems toUart s.log)) u)
    (hlen : (dequeuedItems toUart s.log).length = k + 1) (hk : k + 1 = n) :
    Turned n s w 2 (.log k) .taskReturn (Function.update w .uart u) .ended

section Turns

variable {n : Nat} {s : Sys TempReading} {w : World} {place : TaskHandle → Place}

private theorem received_concat {q : Nat} {rs : List TempReading} {r : TempReading}
    (h : dequeuedItems q s.log = rs ++ [r]) : received s q = r := by
  rw [received, h, List.getLast?_concat]
  rfl

private theorem turn_ok {β : Type} {c : Board.Code β} {b b' : World} {op : β → Op TempReading}
    {next : β → Place} {v : β} (h : c.run b = .ok v b') :
    turn c b op next = some ⟨b', op v, next v⟩ := by
  rw [turn, h]

/-- The reader takes a turn, unless its function has ended. -/
theorem Tasks.reader_turned (h : Tasks n s w place) (hne : place 0 ≠ .ended) :
    ∃ t, code n s w (place 0) = some t ∧ Turned n s w 0 (place 0) t.op t.world t.place := by
  have hplace := h.reader
  generalize place 0 = p at hplace hne ⊢
  generalize s.handed 0 toCan = out at hplace
  cases hplace with
  | @poll rs k hmade hlen hk hs =>
    rcases Nat.lt_or_eq_of_le hk with hlt | rfl
    · exact ⟨_, if_pos hlt, .delay hlt⟩
    · exact ⟨_, if_neg (Nat.lt_irrefl _), .leave⟩
  | @sample rs k hmade hlen hk hs =>
    obtain ⟨i, hi, hrun⟩ := takeReading_eq k s.sched.tickCount w hs
    exact ⟨_, turn_ok hrun, .sample hi⟩
  | publish => exact ⟨_, rfl, .publish⟩
  | ended => exact absurd rfl hne

/-- The forwarder takes a turn. -/
theorem Tasks.forwarder_turned (h : Tasks n s w place) (hu : (s.kont 1).IsUser) :
    ∃ t, code n s w (place 1) = some t ∧ Turned n s w 1 (place 1) t.op t.world t.place := by
  have hplace := h.forwarder
  rw [hu.eq] at hplace
  generalize place 1 = p at hplace ⊢
  generalize hgot : dequeuedItems toCan s.log = got at hplace
  have hin : (Kont.user : Kont TempReading).inReceive toCan = false := rfl
  rw [hin] at hplace
  cases hplace with
  | start hf => exact ⟨_, rfl, .forwarder (hgot ▸ hf)⟩
  | holds r hf =>
    obtain ⟨c, hc, hrun⟩ := forward_eq r w hf
    rw [← received_concat hgot] at hrun
    have hturn : code n s w .forward =
        some ⟨Function.update w .can c, .receive toCan, .forward⟩ := by
      show turn (forward (received s toCan)) w (fun _ ↦ .receive toCan) (fun _ ↦ .forward) = _
      exact turn_ok hrun
    exact ⟨_, hturn, .forward (hgot ▸ hc)⟩

/-- The logger takes a turn, unless its function has ended. -/
theorem Tasks.logger_turned (h : Tasks n s w place) (hu : (s.kont 2).IsUser)
    (hne : place 2 ≠ .ended) :
    ∃ t, code n s w (place 2) = some t ∧ Turned n s w 2 (place 2) t.op t.world t.place := by
  have hplace := h.logger
  rw [hu.eq] at hplace
  generalize place 2 = p at hplace hne ⊢
  generalize hgot : dequeuedItems toUart s.log = got at hplace
  have hin : (Kont.user : Kont TempReading).inReceive toUart = false := rfl
  rw [hin] at hplace
  cases hplace with
  | start hl => exact ⟨_, rfl, .logger (hgot ▸ hl) (hgot ▸ rfl)⟩
  | @holds rs k r hl hlen =>
    obtain ⟨u, hlog, hrun⟩ := writeText_eq (logLine r) w hl
    rw [← logText_concat, ← hgot] at hlog
    rw [← received_concat hgot] at hrun
    have hturn : code n s w (.log k) = some ⟨Function.update w .uart u,
        if k + 1 = n then .taskReturn else .receive toUart,
        if k + 1 = n then .ended else .log (k + 1)⟩ := turn_ok hrun
    have hnext : (dequeuedItems toUart s.log).length = k + 1 := by
      rw [hgot, List.length_append, hlen, List.length_singleton]
    by_cases hk : k + 1 = n
    · rw [if_pos hk, if_pos hk] at hturn
      exact ⟨_, hturn, .stop hlog hnext hk⟩
    · rw [if_neg hk, if_neg hk] at hturn
      exact ⟨_, hturn, .log hlog hnext hk⟩
  | ended => exact absurd rfl hne

/-- `main` takes its turns up to the start of the scheduler. -/
theorem main_turned {c : Nat} (hc : c < 4) :
    ∃ t, code n s w (.main c) = some t ∧
      Turned n s w invalidTask (.main c) t.op t.world t.place := by
  match c with
  | 0 => exact ⟨_, rfl, .create (by decide) (by decide)⟩
  | 1 => exact ⟨_, rfl, .create (by decide) (by decide)⟩
  | 2 => exact ⟨_, rfl, .create (by decide) (by decide)⟩
  | 3 => exact ⟨_, rfl, .start⟩

end Turns

/-! ### Runs -/

/-- `main` has made so many calls of the scheduler, and the first ones created a task each. -/
def MainAt (c : Nat) (s : Sys TempReading) (place : TaskHandle → Place) : Prop :=
  c ≤ 4 ∧ place invalidTask = .main c ∧ s.sched.taskCount = min c 3

/-- The contexts of the functions that have ended are not entered again. -/
def EndedExits (s : Sys TempReading) (place : TaskHandle → Place) : Prop :=
  ∀ t, place t = .ended → s.kont t = .exited

/-- What holds at every point of a run. -/
structure PipelineInv (D : Dispatcher) (n : Nat) (m : Machine TempReading World Place) : Prop where
  reach : Reach (· = .init { queueCap := fun _ ↦ 8 }) PlainDisciplined (Rtos.Step D) m.sys
  main : ∃ c, MainAt c m.sys m.place
  ended : EndedExits m.sys m.place
  tasks : Tasks n m.sys m.world m.place

section Runs

variable {D : Dispatcher} {n : Nat} {m : Machine TempReading World Place}

/-- The invariants of waiting hold while the demo runs. -/
theorem PipelineInv.run (h : PipelineInv D n m) : RunInv m.sys :=
  runInv_of_init h.reach

/-- At its own code, the executing context takes a turn, unless `main` is behind
`vTaskStartScheduler`. -/
theorem PipelineInv.turned (h : PipelineInv D n m) (hu : (m.sys.kont m.sys.me).IsUser) :
    (m.sys.me = invalidTask ∧ m.place invalidTask = .main 4) ∨
      ∃ t, code n m.sys m.world (m.place m.sys.me) = some t ∧
        Turned n m.sys m.world m.sys.me (m.place m.sys.me) t.op t.world t.place := by
  obtain ⟨c, hc, hplace, hcount⟩ := h.main
  have hne : m.place m.sys.me ≠ .ended := by
    intro hend
    rw [h.ended _ hend] at hu
    exact hu
  by_cases hme : m.sys.me = invalidTask
  · rw [hme, hplace]
    rcases Nat.lt_or_eq_of_le hc with hlt | rfl
    · exact .inr (main_turned hlt)
    · exact .inl ⟨rfl, rfl⟩
  · right
    have hlt : m.sys.me < 3 :=
      Nat.lt_of_lt_of_le (h.run.sched.me_lt hme) (hcount ▸ Nat.min_le_right c 3)
    generalize m.sys.me = me at hu hne hlt ⊢
    match me with
    | 0 => exact h.tasks.reader_turned hne
    | 1 => exact h.tasks.forwarder_turned hu
    | 2 => exact h.tasks.logger_turned hu hne

/-- Every call is the one of a turn. -/
theorem PipelineInv.turned_of_call (h : PipelineInv D n m) {t : Turn TempReading World Place}
    {s : Sys TempReading} (ht : code n m.sys m.world (m.place m.sys.me) = some t)
    (hs : Rtos.Step D m.sys (.call t.op) s) :
    Turned n m.sys m.world m.sys.me (m.place m.sys.me) t.op t.world t.place := by
  have hu : (m.sys.kont m.sys.me).IsUser := by
    cases hs with
    | call _ hu => exact hu
  rcases h.turned hu with ⟨hme, hplace⟩ | ⟨t', ht', hturned⟩
  · rw [hme, hplace] at ht
    cases ht
  · obtain rfl : t' = t := Option.some.inj (ht'.symm.trans ht)
    exact hturned

/-- A step of the kernel. -/
theorem PipelineInv.kernel (h : PipelineInv D n m) {a : Act TempReading} {s : Sys TempReading}
    (ha : a = .resume ∨ a = .dispatch) (hs : Rtos.Step D m.sys a s) :
    PipelineInv D n { m with sys := s } where
  reach := by
    refine h.reach.next ?_ hs
    rcases ha with rfl | rfl <;> exact ⟨⟨trivial, trivial⟩, trivial⟩
  main := by
    obtain ⟨c, hc, hplace, hcount⟩ := h.main
    refine ⟨c, hc, hplace, ?_⟩
    rw [← hcount]
    refine hs.taskCount_eq h.run.sched.taskCount_le ?_
    rcases ha with rfl | rfl <;> exact nofun
  ended t ht := hs.kont_exited h.run.sched (h.ended t ht)
  tasks := h.tasks.goes (hs.goes ha)

/-- The calls of the contexts are disciplined. -/
theorem Turned.disciplined {s : Sys TempReading} {w w' : World} {t : TaskHandle} {p p' : Place}
    {op : Op TempReading} (h : Turned n s w t p op w' p') (hme : s.me = t) :
    PlainDisciplined s (.call op) := by
  subst hme
  generalize hme : s.me = me at h
  cases h with
  | create | start => exact ⟨⟨fun _ ↦ trivial, trivial⟩, fun e ↦ nofun⟩
  | _ =>
    refine ⟨⟨fun hout ↦ ?_, trivial⟩, fun e ↦ nofun⟩
    rw [hme] at hout
    cases hout

private theorem MainAt.call {c : Nat} {s s' : Sys TempReading} {w w' : World}
    {place : TaskHandle → Place} {p : Place} {op : Op TempReading} (h : MainAt c s place)
    (hinv : SchedInv s) (ht : Turned n s w s.me (place s.me) op w' p)
    (hs : Rtos.Step D s (.call op) s') : ∃ c, MainAt c s' (Function.update place s.me p) := by
  obtain ⟨hc, hplace, hcount⟩ := h
  have hle := hinv.taskCount_le
  have hother : ∀ {t : TaskHandle}, t ≠ invalidTask → (∀ p, op ≠ .xTaskCreate p) →
      MainAt c s' (Function.update place t p) := by
    intro t hne hop
    refine ⟨hc, (Function.update_of_ne hne.symm _ _).trans hplace, ?_⟩
    exact (hs.taskCount_eq hle fun q hq ↦ hop q (Act.call.inj hq)).trans hcount
  generalize s.me = me at ht ⊢
  generalize hp : place me = p₀ at ht
  cases ht with
  | @create c' q hlt hq =>
    obtain rfl : c' = c := Place.main.inj (hp.symm.trans hplace)
    refine ⟨c' + 1, by omega, Function.update_self _ _ _, ?_⟩
    have hroom : s.sched.taskCount < maxTasks := by
      rw [hcount]
      exact Nat.lt_of_le_of_lt (Nat.min_le_right _ _) (by decide)
    cases hs with
    | call =>
      rw [show s.call (.xTaskCreate q) = _ from if_neg (Nat.not_le.mpr hroom)]
      show (s.sched.xTaskCreate q).taskCount = _
      rw [Scheduler.xTaskCreate_of_lt hroom]
      show s.sched.taskCount + 1 = _
      omega
  | start =>
    obtain rfl : 3 = c := Place.main.inj (hp.symm.trans hplace)
    exact ⟨4, Nat.le_refl 4, Function.update_self _ _ _, (hs.taskCount_eq hle nofun).trans hcount⟩
  | _ => exact ⟨c, hother (by decide) nofun⟩

/-- A function ends when it returns. -/
theorem Turned.op_of_ended {s : Sys TempReading} {w w' : World} {t : TaskHandle} {p : Place}
    {op : Op TempReading} (h : Turned n s w t p op w' .ended) : op = .taskReturn := by
  cases h <;> rfl

private theorem EndedExits.call {s s' : Sys TempReading} {w w' : World} {place : TaskHandle → Place}
    {p : Place} {op : Op TempReading} (h : EndedExits s place) (hinv : SchedInv s)
    (ht : Turned n s w s.me (place s.me) op w' p) (hs : Rtos.Step D s (.call op) s') :
    EndedExits s' (Function.update place s.me p) := by
  intro t hend
  by_cases hme : t = s.me
  · rw [hme, Function.update_self] at hend
    rw [hend] at ht
    obtain rfl := ht.op_of_ended
    cases hs with
    | call =>
      rw [hme]
      exact Function.update_self _ _ _
  · rw [Function.update_of_ne hme] at hend
    exact hs.kont_exited hinv (h t hend)

/-- The tasks after a call. -/
theorem Tasks.call {s s' : Sys TempReading} {w w' : World} {place : TaskHandle → Place} {p : Place}
    {op : Op TempReading} (h : Tasks n s w place) (hinv : SchedInv s)
    (ht : Turned n s w s.me (place s.me) op w' p) (hs : Rtos.Step D s (.call op) s') :
    Tasks n s' w' (Function.update place s.me p) := by
  generalize hme : s.me = me at ht ⊢
  generalize hplace : place me = p₀ at ht
  cases ht with
  | create | start =>
    obtain ⟨hroles, hreader, hforwarder, hlogger⟩ := h.goes (hs.goes_call hinv rfl)
    exact ⟨hroles, hreader, hforwarder, hlogger⟩
  | delay hk =>
    have h' := h.goes (hs.goes_call hinv rfl)
    exact h'.moves ((hplace ▸ h'.reader).delay hk)
  | leave =>
    have h' := h.goes (hs.goes_call hinv rfl)
    exact h'.moves (hplace ▸ h'.reader).leave
  | sample hi =>
    rw [← hme]
    cases hs with
    | call hp hu =>
      have hreader := (hplace ▸ h.reader).sampled hi s.sched.tickCount
      exact h.send hme hu rfl rfl (by simpa [toCan, toUart] using hreader)
  | publish =>
    rw [← hme]
    cases hs with
    | call hp hu =>
      have hreader := (hplace ▸ h.reader).published
      exact h.send hme hu rfl rfl (by simpa [toCan, toUart] using hreader)
  | forwarder hf =>
    rw [← hme]
    cases hs with
    | call =>
      have h' := h.receive_can hme hf
      rwa [Function.update_eq_self] at h'
  | forward hf =>
    rw [← hme]
    cases hs with
    | call => exact h.receive_can hme hf
  | logger hu hlen =>
    rw [← hme]
    cases hs with
    | call =>
      have h' := h.receive_uart hme hu hlen
      rwa [Function.update_eq_self] at h'
  | log hu hlen hk =>
    rw [← hme]
    cases hs with
    | call => exact h.receive_uart hme hu hlen
  | stop hu hlen hk =>
    rw [← hme]
    have hg := hs.goes_call hinv rfl
    cases hs with
    | call => exact h.return_uart hme hg hu (hlen.trans hk)

/-- A call. -/
theorem PipelineInv.call (h : PipelineInv D n m) {op : Op TempReading} {w : World} {p : Place}
    {s : Sys TempReading} (ht : Turned n m.sys m.world m.sys.me (m.place m.sys.me) op w p)
    (hs : Rtos.Step D m.sys (.call op) s) :
    PipelineInv D n ⟨s, w, Function.update m.place m.sys.me p⟩ where
  reach := h.reach.next (ht.disciplined rfl) hs
  main := by
    obtain ⟨c, hc⟩ := h.main
    exact hc.call h.run.sched ht hs
  ended := h.ended.call h.run.sched ht hs
  tasks := h.tasks.call h.run.sched ht hs

/-- Every step keeps what holds while the demo runs. -/
theorem PipelineInv.step (h : PipelineInv D n m) {a : Act TempReading}
    {m' : Machine TempReading World Place} (hst : Machine.Step D (code n) m a m') :
    PipelineInv D n m' := by
  cases hst with
  | call ht hs => exact h.call (h.turned_of_call ht hs) hs
  | kernel ha hs => exact h.kernel ha hs

private theorem pipelineInv_start : PipelineInv D n start where
  reach := .start rfl
  main := ⟨0, by decide, rfl, rfl⟩
  ended t ht := by
    have hne : start.place t ≠ .ended := by
      show (if _ then Place.main 0 else _) ≠ _
      split_ifs <;> nofun
    exact absurd ht hne
  tasks := by
    obtain ⟨u, hu, hboard⟩ := boardAtStart_eq
    have hworld : start.world = Function.update powerOn .uart u := hboard
    refine ⟨⟨fun t q ht ↦ (nomatch ht), fun t q _ ↦ rfl⟩, ?_, ?_, ?_⟩
    · rw [hworld]
      exact .poll .nil rfl (Nat.zero_le n) sensorAt_start
    · rw [hworld]
      exact .start forwarded_start
    · rw [hworld]
      exact .start (by simpa [logText] using hu)

/-- It holds at every point of every run. -/
theorem pipelineInv_of_reaches (h : Machine.Reaches D (code n) start m) : PipelineInv D n m := by
  refine h.invariant ?_ fun u a v hi _ hst ↦ hi.step hst
  rintro u rfl
  exact pipelineInv_start

/-- Both queues hold what has been handed to them and not been received. -/
theorem PipelineInv.queue (h : PipelineInv D n m) (q : Nat) : QueueInv q 8 m.sys :=
  (queueInvs_of_reach (fun _ _ hg ↦ hg.1.1) (fun _ ↦ runInv_of_init) h.reach q).2.2

/-- What has been received from a queue is the beginning of what has been handed to it, and at most
nine items are missing. -/
theorem PipelineInv.fifo (h : PipelineInv D n m) (t q : Nat) :
    dequeuedItems q m.sys.log <+: m.sys.handed t q ∧
      (m.sys.handed t q).length ≤ (dequeuedItems q m.sys.log).length + 9 := by
  have hq := h.queue q
  have hsending : ((m.sys.kont t).sending q).length ≤ 1 := by
    cases m.sys.kont t with
    | sendWait | sendTest =>
      simp only [Kont.sending]
      split <;> simp
    | _ => exact Nat.zero_le 1
  have hcount : (m.sys.queue q).contents.length ≤ 8 := by
    rw [Queue.contents, RingBuf.length_contents]
    have hcap : (m.sys.queue q).cap = 8 := hq.cap_eq
    exact hcap ▸ hq.wf.count_le
  rw [Sys.handed, hq.items, List.append_assoc]
  refine ⟨List.prefix_append _ _, ?_⟩
  rw [List.length_append, List.length_append]
  omega

/-- What the reader has handed to the second queue is the beginning of what it has handed to the
first one. -/
theorem ReaderAt.handed {l : Lm75} {p : Place} {out₀ out₁ : List TempReading}
    (h : ReaderAt n l p out₀ out₁) :
    Made out₀ ∧ out₀.length ≤ n ∧ out₁ <+: out₀ ∧ out₀.length ≤ out₁.length + 1 := by
  cases h with
  | poll hmade hlen hk => exact ⟨hmade, by omega, List.prefix_refl _, by omega⟩
  | sample hmade hlen hk => exact ⟨hmade, by omega, List.prefix_refl _, by omega⟩
  | publish hmade hlen hk =>
    refine ⟨hmade, ?_, List.prefix_append _ _, ?_⟩ <;>
      rw [List.length_append, List.length_singleton]
    omega
  | ended hmade hlen => exact ⟨hmade, by omega, List.prefix_refl _, by omega⟩

/-- The ring holds what the forwarder has received, but for a last reading and what there is no room
for. -/
theorem ForwarderAt.forwarded {c : CanBus} {p : Place} {b : Bool} {got : List TempReading}
    (h : ForwarderAt c p b got) :
    ∃ fs, fs <+: got ∧ got.length ≤ fs.length + 1 ∧ Forwarded fs c := by
  cases h with
  | start hf => exact ⟨[], List.prefix_refl _, Nat.zero_le 1, hf⟩
  | waits hf => exact ⟨got, List.prefix_refl _, Nat.le_succ _, hf⟩
  | @holds rs r hf => exact ⟨rs, List.prefix_append _ _, by rw [List.length_append]; rfl, hf⟩

/-- The FIFO holds what the logger has received, but for a last reading and what there is no room
for. -/
theorem LoggerAt.logged {u : Uart} {p : Place} {b : Bool} {got : List TempReading}
    (h : LoggerAt n u p b got) :
    ∃ ls, ls <+: got ∧ got.length ≤ ls.length + 1 ∧ Logged (logText ls) u := by
  cases h with
  | start hl => exact ⟨[], List.prefix_refl _, Nat.zero_le 1, hl⟩
  | waits hl hlen => exact ⟨got, List.prefix_refl _, Nat.le_succ _, hl⟩
  | @holds rs k r hl hlen =>
    exact ⟨rs, List.prefix_append _ _, by rw [List.length_append]; rfl, hl⟩
  | ended hl hlen => exact ⟨got, List.prefix_refl _, Nat.le_succ _, hl⟩

/-- What the pipeline has done with the readings: the reader has handed them to both queues, the
forwarder and the logger have received the beginning of them, and the board shows what has been
received, but for a last reading that its task still holds. -/
structure InOrder (n : Nat) (m : Machine TempReading World Place) : Prop where
  made : Made (m.sys.handed 0 toCan)
  made_le : (m.sys.handed 0 toCan).length ≤ n
  published : m.sys.handed 0 toUart <+: m.sys.handed 0 toCan
  published_le : (m.sys.handed 0 toCan).length ≤ (m.sys.handed 0 toUart).length + 1
  received : ∀ q, dequeuedItems q m.sys.log <+: m.sys.handed 0 q
  received_le : ∀ q, (m.sys.handed 0 q).length ≤ (dequeuedItems q m.sys.log).length + 9
  forwarded : ∃ fs, fs <+: dequeuedItems toCan m.sys.log ∧
    (dequeuedItems toCan m.sys.log).length ≤ fs.length + 1 ∧ Forwarded fs (m.world .can)
  logged : ∃ ls, ls <+: dequeuedItems toUart m.sys.log ∧
    (dequeuedItems toUart m.sys.log).length ≤ ls.length + 1 ∧
    Logged (logText ls) (m.world .uart)

/-- Whatever task the scheduler picks: the readings that the reader has handed over are those that
it makes of the sensor, the others receive them in order, at most nine behind, the ring and the FIFO
show what has been received, but for a last reading, and no access to the board throws, so that a
task at its own code goes on. -/
theorem pipeline_safe (D : Dispatcher) (n : Nat) {m : Machine TempReading World Place}
    (h : Machine.Reaches D (code n) start m) :
    InOrder n m ∧
    (m.sys.me ≠ invalidTask → (m.sys.kont m.sys.me).IsUser →
      (code n m.sys m.world (m.place m.sys.me)).isSome) := by
  have hinv := pipelineInv_of_reaches h
  constructor
  · obtain ⟨hmade, hn, hpub, hlen⟩ := hinv.tasks.reader.handed
    exact ⟨hmade, hn, hpub, hlen, fun q ↦ (hinv.fifo 0 q).1, fun q ↦ (hinv.fifo 0 q).2,
      hinv.tasks.forwarder.forwarded, hinv.tasks.logger.logged⟩
  · intro hme hu
    rcases hinv.turned hu with ⟨hout, -⟩ | ⟨t, ht, -⟩
    · exact absurd hout hme
    · rw [ht]
      rfl

end Runs

/-- The program for one reading, when the forwarder has received it. -/
def firstReceived : Machine TempReading World Place := Machine.advanceN (code 1) 18 start

private theorem reaches_firstReceived : Machine.Reaches .code (code 1) start firstReceived :=
  Machine.reaches_advanceN (.start rfl) 18

/-- The first reading has reached the forwarder. -/
theorem pipeline_safe_firstReceived :
    (InOrder 1 firstReceived ∧
      dequeuedItems toCan firstReceived.sys.log = [readingAt 0 500]) ∧
    (code 1 firstReceived.sys firstReceived.world
      (firstReceived.place firstReceived.sys.me)).isSome := by
  obtain ⟨hout, hturn⟩ := pipeline_safe .code 1 reaches_firstReceived
  exact ⟨⟨hout, by decide +kernel⟩, hturn (by decide +kernel) (by decide +kernel)⟩

end McuSimulator.Demo
