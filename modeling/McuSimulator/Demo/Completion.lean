import McuSimulator.Demo.Delivery
import McuSimulator.Rtos.Progress

/-!
# Completion of the demo

Every call of the program is one of finitely many, and the kernel takes few steps for each, so every
run ends. With the scheduler of the source it ends in `main`, and everything has been delivered.
-/

namespace McuSimulator.Demo

open Base
open Peripherals Peripherals.Board
open Rtos

/-! ### The calls that are left -/

/-- The calls that the reader has left, for `n` readings. -/
def Place.readerCalls (n : Nat) : Place → Nat
  | .poll k => 3 * (n - k) + 1
  | .sample k => 3 * (n - k)
  | .publish k _ => 3 * (n - k) - 1
  | _ => 0

/-- The calls that a receiver has left, inside `receive` or not, when it has received so many
items. -/
def Place.receiverCalls (n : Nat) (inside : Bool) (got : Nat) : Place → Nat
  | .ended => 0
  | _ => n - got + if inside then 0 else 1

/-- The calls that `main` has left. -/
def Place.mainCalls : Place → Nat
  | .main c => 4 - c
  | _ => 0

/-- The calls that the receiver of a queue has left. -/
def receiverLeft (n : Nat) (s : Sys TempReading) (place : TaskHandle → Place) (t q : Nat) : Nat :=
  (place t).receiverCalls n ((s.kont t).inReceive q) (dequeuedItems q s.log).length

/-- The calls that the program has left. -/
def callsLeft (n : Nat) (s : Sys TempReading) (place : TaskHandle → Place) : Nat :=
  (place invalidTask).mainCalls + (place 0).readerCalls n + receiverLeft n s place 1 toCan +
    receiverLeft n s place 2 toUart

section Calls

variable {D : Dispatcher} {n : Nat} {s s' : Sys TempReading} {place : TaskHandle → Place}
  {m : Machine TempReading World Place}

/-- No task has received more items than there are readings. -/
theorem PipelineInv.dequeued_le (h : PipelineInv D n m) {q : Nat} (hq : q = toCan ∨ q = toUart) :
    (dequeuedItems q m.sys.log).length ≤ n := by
  obtain ⟨-, hn, hpub, -⟩ := h.tasks.reader.handed
  refine Nat.le_trans (h.fifo 0 q).1.length_le ?_
  rcases hq with rfl | rfl
  · exact hn
  · exact Nat.le_trans hpub.length_le hn

/-- A step that is no call of a queue leaves a receiver its calls. -/
theorem receiverLeft_goes (h : Roles s) (hg : Goes s s') {t q : Nat}
    (hrole : t = 1 ∧ q = toCan ∨ t = 2 ∧ q = toUart)
    (hle : (dequeuedItems q s'.log).length ≤ n) :
    receiverLeft n s' place t q = receiverLeft n s place t q := by
  have honly : s.kont s.me = .recvTest q → s.me = t := by
    intro hk
    have hme := h.receives s.me q (hk ▸ Kont.inReceive_recvTest _)
    rcases hrole with ⟨rfl, rfl⟩ | ⟨rfl, rfl⟩
    · exact (hme.resolve_right fun hq ↦ absurd hq.2 (by decide)).1
    · exact (hme.resolve_left fun hq ↦ absurd hq.2 (by decide)).1
  unfold receiverLeft
  rcases hg.taken honly with ⟨hin, hdeq⟩ | ⟨hold, hnew, item, hdeq⟩
  · rw [hin, hdeq]
  · rw [hdeq, List.length_append, List.length_singleton] at hle ⊢
    rw [hold, hnew]
    generalize place t = p
    cases p with
    | ended => rfl
    | _ =>
      simp only [Place.receiverCalls]
      simp
      omega

private theorem receiverLeft_update {t t' : TaskHandle} (hne : t ≠ t') (p : Place) (q : Nat) :
    receiverLeft n s (Function.update place t' p) t q = receiverLeft n s place t q := by
  rw [receiverLeft, Function.update_of_ne hne, receiverLeft]

/-- A call of a queue by another task. -/
theorem receiverLeft_setKont {t : TaskHandle} (hne : t ≠ s.me) (k : Kont TempReading) (q : Nat) :
    receiverLeft n (s.setKont k) place t q = receiverLeft n s place t q := by
  show (place t).receiverCalls n ((Function.update s.kont s.me k t).inReceive q) _ = _
  rw [Function.update_of_ne hne]
  rfl

private theorem Place.receiverCalls_of_ne {p : Place} (hp : p ≠ .ended) (inside : Bool)
    (got : Nat) :
    p.receiverCalls n inside got = n - got + if inside then 0 else 1 := by
  cases p with
  | ended => exact absurd rfl hp
  | _ => rfl

/-- At its own code a receiver has a call left. -/
theorem receiverLeft_of_user {t q : Nat} (hu : (s.kont t).IsUser) (hp : place t ≠ .ended) :
    receiverLeft n s place t q = n - (dequeuedItems q s.log).length + 1 := by
  rw [receiverLeft, Place.receiverCalls_of_ne hp, hu.eq]
  rfl

/-- A call of `receive` is one of those that are left. -/
theorem receiverLeft_receive {t q : Nat} {p : Place} (hme : s.me = t) (hp : p ≠ .ended) :
    receiverLeft n (s.setKont (.recvTest q)) (Function.update place t p) t q =
      n - (dequeuedItems q s.log).length := by
  have hkont : (s.setKont (.recvTest q)).kont t = .recvTest q := by
    subst hme
    exact Function.update_self _ _ _
  rw [receiverLeft, Function.update_self, Place.receiverCalls_of_ne hp, hkont,
    Kont.inReceive_recvTest]
  rfl

/-- A call of `send` leaves the others their calls. -/
theorem receiverLeft_send {t t' q q' : Nat} {item : TempReading} (hme : s.me = t') (hne : t ≠ t') :
    receiverLeft n (s.call (.send q' item)) place t q = receiverLeft n s place t q :=
  receiverLeft_setKont (hme ▸ hne) _ q

/-- Between its delay and its last call for a reading the reader is not through. -/
theorem ReaderAt.lt_of_sends {l : Lm75} {p : Place} {out₀ out₁ : List TempReading} {k : Nat}
    (h : ReaderAt n l p out₀ out₁) (hp : p = .sample k ∨ ∃ r, p = .publish k r) : k < n := by
  obtain rfl | ⟨r, rfl⟩ := hp
  · cases h with
    | sample _ _ hk _ => exact hk
  · cases h with
    | publish _ _ hk _ => exact hk

/-- Every call is one of those that are left. -/
theorem Turned.callsLeft_lt {w w' : World} {p : Place} {op : Op TempReading}
    (ht : Turned n s w s.me (place s.me) op w' p) (h : Tasks n s w place) (hinv : SchedInv s)
    (hs : Rtos.Step D s (.call op) s')
    (hle : ∀ q, q = toCan ∨ q = toUart → (dequeuedItems q s'.log).length ≤ n) :
    callsLeft n s' (Function.update place s.me p) < callsLeft n s place := by
  have hgoes : Goes s s' → receiverLeft n s' place 1 toCan = receiverLeft n s place 1 toCan ∧
      receiverLeft n s' place 2 toUart = receiverLeft n s place 2 toUart := fun hg ↦
    ⟨receiverLeft_goes h.toRoles hg (.inl ⟨rfl, rfl⟩) (hle _ (.inl rfl)),
      receiverLeft_goes h.toRoles hg (.inr ⟨rfl, rfl⟩) (hle _ (.inr rfl))⟩
  have hreader := h.reader
  unfold callsLeft
  generalize hme : s.me = me at ht ⊢
  generalize hp : place me = p₀ at ht
  cases ht with
  | @create c q hc _ =>
    obtain ⟨h1, h2⟩ := hgoes (hs.goes_call hinv rfl)
    rw [receiverLeft_update (by decide), receiverLeft_update (by decide), h1, h2, hp,
      Function.update_self, Function.update_of_ne (by decide)]
    simp only [Place.mainCalls]
    omega
  | start =>
    obtain ⟨h1, h2⟩ := hgoes (hs.goes_call hinv rfl)
    rw [receiverLeft_update (by decide), receiverLeft_update (by decide), h1, h2, hp,
      Function.update_self, Function.update_of_ne (by decide)]
    simp only [Place.mainCalls]
    omega
  | delay | leave =>
    obtain ⟨h1, h2⟩ := hgoes (hs.goes_call hinv rfl)
    rw [receiverLeft_update (by decide), receiverLeft_update (by decide), h1, h2, hp,
      Function.update_self, Function.update_of_ne (by decide)]
    simp only [Place.readerCalls]
    omega
  | @sample k i hi =>
    have hk : k < n := (hp ▸ hreader).lt_of_sends (.inl rfl)
    cases hs with
    | call =>
      rw [receiverLeft_update (by decide), receiverLeft_update (by decide),
        receiverLeft_send hme (by decide), receiverLeft_send hme (by decide), hp,
        Function.update_self, Function.update_of_ne (by decide)]
      simp only [Place.readerCalls]
      omega
  | @publish k r =>
    have hk : k < n := (hp ▸ hreader).lt_of_sends (.inr ⟨r, rfl⟩)
    cases hs with
    | call =>
      rw [receiverLeft_update (by decide), receiverLeft_update (by decide),
        receiverLeft_send hme (by decide), receiverLeft_send hme (by decide), hp,
        Function.update_self, Function.update_of_ne (by decide)]
      simp only [Place.readerCalls]
      omega
  | forwarder | forward =>
    cases hs with
    | call _ hu =>
      have hown : receiverLeft n s place 1 toCan = _ :=
        receiverLeft_of_user (hme ▸ hu) (hp ▸ nofun)
      have hnext : receiverLeft n (s.call (.receive toCan)) (Function.update place 1 .forward) 1
          toCan = _ := receiverLeft_receive hme nofun
      have hother : receiverLeft n (s.call (.receive toCan)) place 2 toUart = _ :=
        receiverLeft_setKont (hme ▸ by decide) _ _
      rw [hown, hnext, receiverLeft_update (by decide), hother, Function.update_of_ne (by decide),
        Function.update_of_ne (by decide)]
      omega
  | logger | log =>
    cases hs with
    | call _ hu =>
      have hown : receiverLeft n s place 2 toUart = _ :=
        receiverLeft_of_user (hme ▸ hu) (hp ▸ nofun)
      have hnext : ∀ k, receiverLeft n (s.call (.receive toUart))
          (Function.update place 2 (.log k)) 2 toUart = _ := fun k ↦ receiverLeft_receive hme nofun
      have hother : receiverLeft n (s.call (.receive toUart)) place 1 toCan = _ :=
        receiverLeft_setKont (hme ▸ by decide) _ _
      rw [hown, hnext, receiverLeft_update (by decide), hother, Function.update_of_ne (by decide),
        Function.update_of_ne (by decide)]
      omega
  | stop =>
    obtain ⟨h1, -⟩ := hgoes (hs.goes_call hinv rfl)
    cases hs with
    | call _ hu =>
      have hown : receiverLeft n s place 2 toUart = _ :=
        receiverLeft_of_user (hme ▸ hu) (hp ▸ nofun)
      have hended : receiverLeft n (s.call .taskReturn) (Function.update place 2 .ended) 2 toUart =
          0 := by
        rw [receiverLeft, Function.update_self]
        rfl
      rw [hown, hended, receiverLeft_update (by decide), h1, Function.update_of_ne (by decide),
        Function.update_of_ne (by decide)]
      omega

end Calls

/-! ### Termination -/

/-- Every step takes something off it. -/
def stepsLeft (n : Nat) (m : Machine TempReading World Place) : Nat :=
  6 * callsLeft n m.sys m.place + m.sys.potential

section Termination

variable {D : Dispatcher} {n : Nat} {m m' : Machine TempReading World Place}

private theorem PipelineInv.stepsLeft_lt (h : PipelineInv D n m) {a : Act TempReading}
    (hst : Machine.Step D (code n) m a m') : stepsLeft n m' < stepsLeft n m := by
  have houtside : OutsideEvents m.sys :=
    outsideEvents_of_reach (h.reach.mono (fun _ h0 ↦ ⟨_, h0⟩) fun _ _ hg ↦ hg)
  have hle : ∀ q, q = toCan ∨ q = toUart → (dequeuedItems q m'.sys.log).length ≤ n :=
    fun q hq ↦ (h.step hst).dequeued_le hq
  unfold stepsLeft
  cases hst with
  | call ht hs =>
    have hturned := h.turned_of_call ht hs
    have hcalls := hturned.callsLeft_lt h.tasks h.run.sched hs hle
    have hpot := hs.potential_le h.run houtside (hturned.disciplined rfl)
    rw [if_pos (Act.isCall_call _), if_pos (Act.isCall_call _)] at hpot
    dsimp only
    omega
  | @kernel a s ha hs =>
    have hsame : callsLeft n s m.place = callsLeft n m.sys m.place := by
      have hg := hs.goes ha
      rw [callsLeft, callsLeft,
        receiverLeft_goes h.tasks.toRoles hg (.inl ⟨rfl, rfl⟩) (hle _ (.inl rfl)),
        receiverLeft_goes h.tasks.toRoles hg (.inr ⟨rfl, rfl⟩) (hle _ (.inr rfl))]
    have hcall : ¬ a.IsCall := by rcases ha with rfl | rfl <;> exact id
    have hdisciplined : PlainDisciplined m.sys a := by
      rcases ha with rfl | rfl <;> exact ⟨⟨trivial, trivial⟩, trivial⟩
    have hpot := hs.potential_le h.run houtside hdisciplined
    rw [if_neg hcall, if_neg hcall] at hpot
    dsimp only
    omega

private theorem stepsLeft_start (n : Nat) : stepsLeft n start = 30 * n + 42 := by
  have hcalls : callsLeft n start.sys start.place =
      4 + (3 * (n - 0) + 1) + (n - 0 + 1) + (n - 0 + 1) := rfl
  have hpot : start.sys.potential = 0 := potential_init _
  rw [stepsLeft, hcalls, hpot]
  omega

/-- The demo ends, whatever task the scheduler picks: no run has more than `30 * n + 42` steps. -/
theorem pipeline_steps_le (D : Dispatcher) (n k : Nat)
    (states : Nat → Machine TempReading World Place) (labels : Nat → Act TempReading)
    (h : IsRun (· = start) (fun _ _ ↦ True) (Machine.Step D (code n)) k states labels) :
    k ≤ 30 * n + 42 := by
  have hbound : ∀ i ≤ k, i + stepsLeft n (states i) ≤ 30 * n + 42 := by
    intro i hi
    induction i with
    | zero =>
      rw [h.start, stepsLeft_start]
      omega
    | succ i ih =>
      have hle := ih (Nat.le_of_succ_le hi)
      have hlt := (pipelineInv_of_reaches (h.reach (Nat.le_of_succ_le hi))).stepsLeft_lt
        (h.next i hi)
      omega
  exact Nat.le_trans (Nat.le_add_right _ _) (hbound k (Nat.le_refl k))

end Termination

/-- The program for one reading is back in `main` after 29 steps. -/
theorem pipeline_steps_le_first :
    ∃ labels, IsRun (· = start) (fun _ _ ↦ True) (Machine.Step .code (code 1)) 29
        (Machine.advanceN (code 1) · start) labels ∧ 29 ≤ 30 * 1 + 42 := by
  have hmoves : ∀ i < 29, stepsLeft 1 (Machine.advanceN (code 1) (i + 1) start) ≠
      stepsLeft 1 (Machine.advanceN (code 1) i start) := by decide +kernel
  obtain ⟨labels, hrun⟩ :=
    Machine.exists_isRun_advanceN fun i hi ↦ ne_of_apply_ne (stepsLeft 1) (hmoves i hi)
  exact ⟨labels, hrun, pipeline_steps_le .code 1 29 _ labels hrun⟩

/-! ### Progress -/

section Progress

variable {n : Nat} {m m' : Machine TempReading World Place}

/-- A call or a turn in the kernel does not switch contexts. -/
theorem me_of_step {s s' : Sys TempReading} {a : Act TempReading} (hinv : SchedInv s)
    (hs : Rtos.Step .code s a s') (hme : s.me ≠ invalidTask) (ha : a ≠ .dispatch) :
    s'.me = s.me := by
  rcases (ApiStep.act hs).served hinv.taskCount_le with ⟨-, hr⟩ | ⟨-, hd, -⟩
  · exact hr.current_eq hme
  · exact absurd (ApiAct.act.inj hd) ha

private theorem Turned.issues {s : Sys TempReading} {w w' : World} {t : TaskHandle} {p p' : Place}
    {op : Op TempReading} (h : Turned n s w t p op w' p') (hme : s.me = t) : s.Issues op := by
  cases h with
  | start => exact hme
  | leave | stop =>
    intro hout
    rw [hme] at hout
    cases hout
  | _ => trivial

/-- As long as a task executes, a step is possible. -/
theorem Timely.progress (h : Timely n m) (hp : PipelineInv .code n m)
    (hme : m.sys.me ≠ invalidTask) :
    ∃ a, Machine.Step .code (code n) m a (Machine.advance (code n) m) := by
  unfold Machine.advance
  by_cases hcode : m.sys.phase = .code
  · rw [if_neg (not_not.mpr hcode)]
    by_cases hk : (m.sys.kont m.sys.me).Resumable
    · rw [if_pos hk]
      exact ⟨.resume, .kernel (.inl rfl) (.resume hcode hk)⟩
    · rw [if_neg hk]
      have hu : (m.sys.kont m.sys.me).IsUser := by
        cases hkont : m.sys.kont m.sys.me with
        | user => trivial
        | exited =>
          have hdeleted := h.deleted _ (hp.run.sched.me_lt hme) hkont
          rw [hp.run.sched.running_me hcode hme] at hdeleted
          cases hdeleted
        | _ =>
          rw [hkont] at hk
          exact absurd trivial hk
      rcases hp.turned hu with ⟨hout, -⟩ | ⟨t, ht, hturned⟩
      · exact absurd hout hme
      · have hissues := hturned.issues rfl
        rw [ht]
        dsimp only
        rw [if_pos ⟨hu, hissues⟩]
        exact ⟨.call t.op, .call ht (.call hcode hu hissues)⟩
  · rw [if_pos hcode]
    exact ⟨.dispatch, .kernel (.inr rfl) (.dispatch hcode ⟨hcode, rfl⟩)⟩

/-- From a task the scheduler gets back to `main`. -/
theorem exists_advanceN (hn : pollDelayTicks * n < uint32Max) (k : Nat)
    (hk : stepsLeft n m ≤ k) (h : Machine.Reaches .code (code n) start m)
    (hme : m.sys.me ≠ invalidTask) :
    ∃ j ≤ stepsLeft n m, ∃ u, Machine.Reaches .code (code n) start u ∧
      Machine.Step .code (code n) u .dispatch (Machine.advanceN (code n) j m) ∧
      (Machine.advanceN (code n) j m).sys.me = invalidTask := by
  induction k generalizing m with
  | zero =>
    obtain ⟨a, hst⟩ := (timely_of_reaches hn h).progress (pipelineInv_of_reaches h) hme
    have hlt := (pipelineInv_of_reaches h).stepsLeft_lt hst
    omega
  | succ k ih =>
    have hp := pipelineInv_of_reaches h
    obtain ⟨a, hst⟩ := (timely_of_reaches hn h).progress hp hme
    have hlt := hp.stepsLeft_lt hst
    by_cases hnext : (Machine.advance (code n) m).sys.me = invalidTask
    · have ha : a = .dispatch := by
        by_contra hne
        exact hme ((me_of_step hp.run.sched hst.sys hme hne).symm.trans hnext)
      exact ⟨1, by omega, m, h, ha ▸ hst, hnext⟩
    · obtain ⟨j, hj, u, hu, hlast, hidle⟩ := ih (by omega) (h.next trivial hst) hnext
      exact ⟨j + 1, by omega, u, hu, hlast, hidle⟩

/-- Back in `main`, the machine stays where it is. -/
theorem PipelineInv.advance_idle (h : PipelineInv .code n m) (hmain : m.place invalidTask = .main 4)
    (hidle : m.sys.me = invalidTask) : Machine.advance (code n) m = m := by
  have hcode : m.sys.phase = .code := by
    by_contra hne
    exact h.run.sched.busy hne hidle
  have hk : ¬ (m.sys.kont m.sys.me).Resumable := by
    rw [h.run.sched.outside hidle]
    exact id
  unfold Machine.advance
  rw [if_neg (not_not.mpr hcode), if_neg hk, hidle, hmain]
  rfl

/-- The turns of `main` do not depend on the number of readings. -/
theorem advance_main {c : Nat} (h : m.place m.sys.me = .main c) :
    Machine.advance (code n) m = Machine.advance (code 0) m := by
  have hcode : code n m.sys m.world (.main c) = code 0 m.sys m.world (.main c) := by
    match c with
    | 0 | 1 | 2 | 3 | _ + 4 => rfl
  unfold Machine.advance
  rw [h, hcode]

/-- The machine when `main` has created the tasks and started the scheduler. -/
def started : Machine TempReading World Place := Machine.advanceN (code 0) 4 start

private theorem advanceN_started (n : Nat) : Machine.advanceN (code n) 4 start = started := by
  have hplace : ∀ i < 4, (Machine.advanceN (code 0) i start).place
      (Machine.advanceN (code 0) i start).sys.me = .main i := by decide +kernel
  have hturn : ∀ i < 4, Machine.advance (code n) (Machine.advanceN (code 0) i start) =
      Machine.advance (code 0) (Machine.advanceN (code 0) i start) := fun i hi ↦
    advance_main (hplace i hi)
  calc Machine.advanceN (code n) 4 start
      = Machine.advanceN (code n) 3 (Machine.advanceN (code 0) 1 start) :=
        congrArg (Machine.advanceN (code n) 3) (hturn 0 (by decide))
    _ = Machine.advanceN (code n) 2 (Machine.advanceN (code 0) 2 start) :=
        congrArg (Machine.advanceN (code n) 2) (hturn 1 (by decide))
    _ = Machine.advanceN (code n) 1 (Machine.advanceN (code 0) 3 start) :=
        congrArg (Machine.advanceN (code n) 1) (hturn 2 (by decide))
    _ = started := hturn 3 (by decide)

private theorem stepsLeft_started (n : Nat) : stepsLeft n started = 30 * n + 18 := by
  have hplaces : started.place invalidTask = .main 4 ∧ started.place 0 = .poll 0 ∧
      started.place 1 = .forwarder ∧ started.place 2 = .logger := by decide +kernel
  have hkonts : started.sys.kont 1 = .user ∧ started.sys.kont 2 = .user := by decide +kernel
  have hpot : started.sys.potential = 0 := by decide +kernel
  have hlog : started.sys.log = [] := by decide +kernel
  obtain ⟨hmain, hreader, hforwarder, hlogger⟩ := hplaces
  have hcalls : callsLeft n started.sys started.place =
      0 + (3 * (n - 0) + 1) + (n - 0 + 1) + (n - 0 + 1) := by
    rw [callsLeft, receiverLeft, receiverLeft, hmain, hreader, hforwarder, hlogger, hkonts.1,
      hkonts.2, hlog]
    rfl
  rw [stepsLeft, hcalls, hpot]
  omega

end Progress

/-- The demo completes: within `30 * n + 42` steps the scheduler is back in `main` for good, and all
`n` readings have come through. -/
theorem pipeline_completes (n : Nat) (hn : pollDelayTicks * n < uint32Max) :
    ∃ k ≤ 30 * n + 42, ∃ m, Machine.advanceN (code n) k start = m ∧ m.sys.me = invalidTask ∧
      Machine.advance (code n) m = m ∧
      ∃ rs, Delivered n rs m := by
  have hfirst : Machine.Reaches .code (code n) start started :=
    advanceN_started n ▸ Machine.reaches_advanceN (.start rfl) 4
  have hme : started.sys.me ≠ invalidTask := by decide +kernel
  obtain ⟨j, hj, u, hu, hst, hidle⟩ := exists_advanceN hn _ (Nat.le_refl _) hfirst hme
  rw [stepsLeft_started] at hj
  have hmain := (timely_of_reaches hn hu).main_of_dispatch (pipelineInv_of_reaches hu).run.sched hst
  have hlast := pipelineInv_of_reaches (hu.next trivial hst)
  refine ⟨j + 4, by omega, Machine.advanceN (code n) j started, ?_, hidle,
    hlast.advance_idle hmain hidle, pipeline_delivers hn hu hst hidle⟩
  rw [← advanceN_started n]
  rfl

end McuSimulator.Demo
