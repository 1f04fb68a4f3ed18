import McuSimulator.Base.Cyclic
import McuSimulator.Rtos.Preemption

/-!
# Round robin

What `select_next` chooses among all tables, and the order in which tasks of one priority run
when each of them only yields.
-/

namespace McuSimulator.Rtos

open McuSimulator.Base

namespace Scheduler

/-! ### The selected task -/

/-- The task in place `k` from behind `current_`, or from index 0 if there is none. -/
def place (s : Scheduler) (k : Nat) : TaskHandle :=
  if s.current = invalidTask then k else around s.taskCount s.current k

/-- No `READY` task has a smaller priority value than this `READY` one. -/
def Best (s : Scheduler) (t : TaskHandle) : Prop :=
  (s.tasks t).state = .ready ∧
    ∀ j < s.taskCount, (s.tasks j).state = .ready → (s.tasks t).priority ≤ (s.tasks j).priority

/-- `select_next` returns `INVALID_TASK` when there is no `READY` task, and otherwise the first
best one from behind `current_`. -/
def PicksBest (s : Scheduler) : Prop :=
  (s.selectNext = invalidTask ↔ ∀ t < s.taskCount, (s.tasks t).state ≠ .ready) ∧
  (s.selectNext ≠ invalidTask → ∃ k < s.taskCount, s.selectNext = s.place k ∧
    s.Best (s.place k) ∧ ∀ i < k, ¬ s.Best (s.place i))

/-- The scan visits the places in order. -/
theorem scanStart_add (s : Scheduler) {k : Nat} (hk : k < s.taskCount) :
    (s.scanStart + k) % s.taskCount = s.place k := by
  unfold scanStart place
  split
  · rw [Nat.zero_add, Nat.mod_eq_of_lt hk]
  · rw [around, Nat.mod_add_mod]

private theorem place_lt (s : Scheduler) {k : Nat} (hk : k < s.taskCount) :
    s.place k < s.taskCount := by
  rw [← s.scanStart_add hk]
  exact Nat.mod_lt _ (by omega)

/-- A best task has the value that `select_next` looks for. -/
theorem Best.priority_eq {s : Scheduler} {t : TaskHandle} (h : s.Best t) (ht : t < s.taskCount)
    (hbest : s.bestPrio ≠ 0xFF) : (s.tasks t).priority = s.bestPrio := by
  rw [bestPrio_eq] at hbest ⊢
  obtain ⟨j, hj, hr, he⟩ := (least_mem _ _ _ _).resolve_left hbest
  apply Nat.le_antisymm
  · rw [← he]
    exact h.2 j (List.mem_range.mp hj) hr
  · exact least_le _ _ (List.mem_range.mpr ht) h.1 _

/-- Whatever is selected has a priority value below the mark for "none". -/
theorem bestPrio_lt {s : Scheduler} (h : s.selectNext ≠ invalidTask) : s.bestPrio < 0xFF := by
  have hle : s.bestPrio ≤ 0xFF := by
    rw [bestPrio_eq]
    exact least_le_start _ _ _ _
  have hne : s.bestPrio ≠ 0xFF := by
    intro he
    exact h (if_pos he)
  omega

/-- The selected task is the first best one of the scan. -/
theorem selectNext_first {s : Scheduler} (h : s.selectNext ≠ invalidTask) :
    ∃ k < s.taskCount, s.selectNext = s.place k ∧ s.Best (s.place k) ∧
      ∀ i < k, ¬ s.Best (s.place i) := by
  have hbest : s.Best s.selectNext :=
    ⟨(selectNext_ready s h).2, fun j hj hr ↦ selectNext_best h hj hr⟩
  generalize he : s.selectNext = t at h hbest ⊢
  unfold selectNext at he
  split at he
  · exact absurd he.symm h
  · next hprio =>
    split at he
    · next k hf =>
      obtain ⟨-, hk, hfirst⟩ := List.find?_range_eq_some.mp hf
      have hk := List.mem_range.mp hk
      rw [s.scanStart_add hk] at he
      refine ⟨k, hk, he.symm, he ▸ hbest, ?_⟩
      intro i hi hb
      have hno := hfirst i hi
      rw [s.scanStart_add (by omega)] at hno
      have hp := hb.priority_eq (s.place_lt (by omega)) hprio
      simp [hb.1, hp] at hno
    · exact absurd he.symm h

/-- A task of priority `0xFF` that is `READY` is not selected: the value is the mark for "none"
as well. -/
theorem not_picksBest_lowest : ¬ (init.xTaskCreate 0xFF).PicksBest := by
  intro h
  have hnone : (init.xTaskCreate 0xFF).selectNext = invalidTask := by decide
  exact h.1.mp hnone 0 (by decide) (by decide)

/-- `select_next` picks the best task exactly when no task is `READY` or one with a priority
value below `0xFF` is. -/
theorem picksBest_iff (s : Scheduler) (h : s.taskCount ≤ maxTasks) :
    s.PicksBest ↔ (∀ t < s.taskCount, (s.tasks t).state ≠ .ready) ∨
      ∃ t < s.taskCount, (s.tasks t).state = .ready ∧ (s.tasks t).priority < 0xFF := by
  constructor
  · intro hpick
    by_cases hn : s.selectNext = invalidTask
    · exact .inl (hpick.1.mp hn)
    · obtain ⟨hlt, hr⟩ := selectNext_ready s hn
      have hbest : s.Best s.selectNext := ⟨hr, fun j hj hj' ↦ selectNext_best hn hj hj'⟩
      refine .inr ⟨s.selectNext, hlt, hr, ?_⟩
      have hprio := bestPrio_lt hn
      rwa [hbest.priority_eq hlt (Nat.ne_of_lt hprio)]
  · rintro (hnone | ⟨t, ht, hr, hp⟩)
    · have hinv : s.selectNext = invalidTask := by
        by_contra hn
        obtain ⟨hlt, hr⟩ := selectNext_ready s hn
        exact hnone _ hlt hr
      exact ⟨iff_of_true hinv hnone, selectNext_first⟩
    · have hn := selectNext_ne h ht hr hp
      exact ⟨iff_of_false hn fun hnone ↦ hnone t ht hr, selectNext_first⟩

/-- Two tasks of different priorities. -/
theorem picksBest_iff_two :
    ((init.xTaskCreate 2).xTaskCreate 0).PicksBest ↔
      (∀ t < 2, (((init.xTaskCreate 2).xTaskCreate 0).tasks t).state ≠ .ready) ∨
      ∃ t < 2, (((init.xTaskCreate 2).xTaskCreate 0).tasks t).state = .ready ∧
        (((init.xTaskCreate 2).xTaskCreate 0).tasks t).priority < 0xFF :=
  picksBest_iff ((init.xTaskCreate 2).xTaskCreate 0) (by decide)

/-! ### A dispatch that has a candidate -/

/-- With a selectable task there is no advance: the dispatch switches to it. -/
theorem dispatch_eq_switchTo {s : Scheduler} {ph : Phase} (hp : ph ≠ .code)
    (hn : s.selectNext ≠ invalidTask) : s.dispatch ph = s.switchTo s.selectNext := by
  obtain ⟨u, hadv, hd⟩ := s.dispatch_advanced hp
  generalize s.dispatch ph = v at hd
  cases hadv with
  | turn hnone => exact absurd hnone hn
  | refl =>
    cases hd with
    | switch => rfl
    | idle hnone => exact absurd hnone hn

/-! ### Tasks of one priority -/

/-- The task can run: it is `READY` or `RUNNING`. -/
def Active (s : Scheduler) (t : TaskHandle) : Prop :=
  (s.tasks t).state = .ready ∨ (s.tasks t).state = .running

/-- The task can run, at this priority. -/
def Peer (s : Scheduler) (p : Nat) (t : TaskHandle) : Prop :=
  s.Active t ∧ (s.tasks t).priority = p

instance (s : Scheduler) (t : TaskHandle) : Decidable (s.Active t) :=
  inferInstanceAs (Decidable (_ ∨ _))

instance (s : Scheduler) (p : Nat) : DecidablePred (s.Peer p) := fun _ ↦
  inferInstanceAs (Decidable (_ ∧ _))

/-- The tasks that can run at this priority, in ascending order. -/
def peers (s : Scheduler) (p : Nat) : List TaskHandle := indices (s.Peer p) s.taskCount

/-- When the executing task has yielded, the next one of its priority is selected. -/
theorem isNext_selectNext {s : Scheduler} {p : Nat} (hcount : s.taskCount ≤ maxTasks)
    (hcur : s.current < s.taskCount) (hpeer : s.Peer p s.current) (hp : p < 0xFF)
    (hidle : ∀ t, (s.tasks t).state ≠ .running)
    (hmin : ∀ t < s.taskCount, s.Active t → p ≤ (s.tasks t).priority) :
    s.selectNext ≠ invalidTask ∧ IsNext (s.Peer p) s.taskCount s.current s.selectNext := by
  have hready {t : TaskHandle} (ht : s.Active t) : (s.tasks t).state = .ready :=
    ht.resolve_right (hidle t)
  have hbest {t : TaskHandle} (ht : t < s.taskCount) : s.Best t ↔ s.Peer p t := by
    constructor
    · intro hb
      have hle : (s.tasks t).priority ≤ (s.tasks s.current).priority :=
        hb.2 s.current hcur (hready hpeer.1)
      rw [hpeer.2] at hle
      exact ⟨.inl hb.1, Nat.le_antisymm hle (hmin t ht (.inl hb.1))⟩
    · intro ht
      refine ⟨hready ht.1, ?_⟩
      intro j hj hr
      rw [ht.2]
      exact hmin j hj (.inl hr)
  have hprio : (s.tasks s.current).priority < 0xFF := by rw [hpeer.2]; exact hp
  have hn := selectNext_ne hcount hcur (hready hpeer.1) hprio
  have hne : s.current ≠ invalidTask :=
    Nat.ne_of_lt (Nat.lt_of_lt_of_le hcur (Nat.le_trans hcount (by decide)))
  obtain ⟨k, hk, he, hb, hfirst⟩ := selectNext_first hn
  have hplace (i : Nat) : s.place i = around s.taskCount s.current i := if_neg hne
  refine ⟨hn, k, hk, ?_, ?_, ?_⟩
  · rw [he, hplace]
  · rw [he]
    exact (hbest (s.place_lt hk)).mp hb
  · intro i hi hpi
    rw [← hplace] at hpi
    exact hfirst i hi ((hbest (s.place_lt (by omega))).mpr hpi)

end Scheduler

/-! ### Runs in which the tasks yield -/

variable {α : Type}

/-- A run in which every task that runs calls `vTaskDelay(0)` and nothing else changes the state
of a task, with the tasks that the scheduler decided for. -/
inductive YieldRun (s : Sys α) : List TaskHandle → Sys α → Prop
  | start : YieldRun s [] s
  | yield {ts : List TaskHandle} {t u : Sys α} (h : YieldRun s ts t)
      (hs : ApiStep t (.act (.call (.vTaskDelay 0))) u) : YieldRun s ts u
  | decide {ts : List TaskHandle} {t u : Sys α} (h : YieldRun s ts t)
      (hs : ApiStep t (.act .dispatch) u) : YieldRun s (ts ++ [u.me]) u
  | quiet {ts : List TaskHandle} {t u : Sys α} {a : ApiAct α} (h : YieldRun s ts t)
      (hs : ApiStep t a u) (ha : a ≠ .act .dispatch)
      (hcount : u.sched.taskCount = t.sched.taskCount)
      (hstate : ∀ v, (u.sched.tasks v).state = (t.sched.tasks v).state) : YieldRun s ts u

/-- The tasks that can run are those that could at the start of the run, with the priorities
they had, and one of the peers executes or has yielded. -/
structure Rotating (s t : Sys α) (p : Nat) : Prop where
  table : TableInv t.sched t.phase
  taskCount : t.sched.taskCount = s.sched.taskCount
  active : ∀ v < s.sched.taskCount, t.sched.Active v ↔ s.sched.Active v
  priority : ∀ v < s.sched.taskCount, (t.sched.tasks v).priority = (s.sched.tasks v).priority
  current : t.me < s.sched.taskCount
  peer : t.sched.Peer p t.me

namespace Rotating

variable {s t u : Sys α} {p : Nat}

private theorem ne_invalid (h : Rotating s t p) : t.me ≠ invalidTask :=
  h.table.ne_invalid (h.taskCount ▸ h.current)

/-- Being a peer is the same as at the start of the run. -/
theorem peer_iff (h : Rotating s t p) {v : TaskHandle} (hv : v < s.sched.taskCount) :
    t.sched.Peer p v ↔ s.sched.Peer p v := by
  unfold Scheduler.Peer
  rw [h.active v hv, h.priority v hv]

/-- The table changes, but neither who can run nor a priority. -/
theorem of_active (h : Rotating s t p) (htable : TableInv u.sched u.phase)
    (hcount : u.sched.taskCount = t.sched.taskCount)
    (hactive : ∀ v, u.sched.Active v ↔ t.sched.Active v)
    (hpriority : ∀ v < t.sched.taskCount, (u.sched.tasks v).priority = (t.sched.tasks v).priority)
    (hcur : u.me < t.sched.taskCount) (hpeer : t.sched.Peer p u.me) : Rotating s u p where
  table := htable
  taskCount := hcount.trans h.taskCount
  active v hv := (hactive v).trans (h.active v hv)
  priority v hv := by
    rw [hpriority v (h.taskCount ▸ hv)]
    exact h.priority v hv
  current := h.taskCount ▸ hcur
  peer := ⟨(hactive u.me).mpr hpeer.1, (hpriority u.me hcur).trans hpeer.2⟩

private theorem yield (h : Rotating s t p) (hs : ApiStep t (.act (.call (.vTaskDelay 0))) u) :
    Rotating s u p ∧ u.me = t.me := by
  have htable := h.table.step hs
  have hu : u = t.reschedule (t.sched.setState t.me .ready) := by
    cases hs with
    | act hs =>
      cases hs with
      | call hp hk hi => exact (if_neg h.ne_invalid).trans (if_pos rfl)
  have hstate (v : TaskHandle) :
      (u.sched.tasks v).state = if v = t.me then .ready else (t.sched.tasks v).state := by
    rw [hu]
    exact t.sched.stateOf_setState t.me v .ready
  have hactive (v : TaskHandle) : u.sched.Active v ↔ t.sched.Active v := by
    unfold Scheduler.Active
    rw [hstate]
    split
    · next hv =>
      rw [hv]
      exact iff_of_true (.inl rfl) h.peer.1
    · exact Iff.rfl
  have hme : u.me = t.me := by rw [hu]; rfl
  refine ⟨h.of_active htable ?_ hactive ?_ ?_ ?_, hme⟩
  · rw [hu]
    rfl
  · intro v hv
    rw [hu]
    exact t.sched.priority_setState _ _ _
  · rw [hme]
    exact h.taskCount.symm ▸ h.current
  · rw [hme]
    exact h.peer

private theorem quiet (h : Rotating s t p) {a : ApiAct α} (hs : ApiStep t a u)
    (ha : a ≠ .act .dispatch) (hcount : u.sched.taskCount = t.sched.taskCount)
    (hstate : ∀ v, (u.sched.tasks v).state = (t.sched.tasks v).state) :
    Rotating s u p ∧ u.me = t.me := by
  have htable := h.table.step hs
  obtain ⟨hp, hserved⟩ := (hs.served h.table.taskCount_le).resolve_right fun hd ↦ ha hd.2.1
  have hrun : (t.sched.tasks t.me).state = .running :=
    (h.table.running t.me).mpr ⟨hp, rfl, h.ne_invalid⟩
  have hme : u.me = t.me := by
    rw [← hstate] at hrun
    exact ((htable.running t.me).mp hrun).2.1.symm
  refine ⟨h.of_active htable hcount ?_ ?_ ?_ ?_, hme⟩
  · intro v
    unfold Scheduler.Active
    rw [hstate]
  · intro v hv
    exact hserved.priority_eq hv
  · rw [hme]
    exact h.taskCount.symm ▸ h.current
  · rw [hme]
    exact h.peer

/-- A decision is for the next peer. -/
theorem decide (h : Rotating s t p) (hs : ApiStep t (.act .dispatch) u) (hp : p < 0xFF)
    (hmin : ∀ v < s.sched.taskCount, s.sched.Active v → p ≤ (s.sched.tasks v).priority) :
    Rotating s u p ∧ IsNext (s.sched.Peer p) s.sched.taskCount t.me u.me := by
  have htable := h.table.step hs
  have hcur : t.sched.current < t.sched.taskCount := h.taskCount ▸ h.current
  obtain ⟨hph, hu⟩ := hs.dispatch_eq
  have hidle (v : TaskHandle) : (t.sched.tasks v).state ≠ .running := by
    intro hr
    exact hph ((h.table.running v).mp hr).1
  obtain ⟨hn, hnext⟩ := Scheduler.isNext_selectNext h.table.taskCount_le hcur h.peer hp hidle
    fun v hv hact ↦ by
      rw [h.taskCount] at hv
      rw [h.priority v hv]
      exact hmin v hv ((h.active v hv).mp hact)
  rw [Scheduler.dispatch_eq_switchTo hph hn] at hu
  have hme : u.me = t.sched.selectNext := congrArg Scheduler.current hu
  obtain ⟨hlt, hpeer⟩ := hnext.found
  rw [← hme] at hlt hpeer hnext
  have hactive (v : TaskHandle) : u.sched.Active v ↔ t.sched.Active v := by
    by_cases hv : v = u.me
    · rw [hv]
      refine iff_of_true (.inr ?_) hpeer.1
      rw [hme, hu, Scheduler.switchTo_tasks_self]
    · unfold Scheduler.Active
      rw [hu, t.sched.switchTo_tasks_of_ne (hme ▸ hv)]
  constructor
  · apply h.of_active htable _ hactive _ hlt hpeer
    · rw [hu]
      rfl
    · intro v hv
      rw [hu]
      exact Scheduler.priority_setState _ _ _ _
  · rw [h.taskCount] at hnext
    exact hnext.congr fun v hv ↦ h.peer_iff hv

end Rotating

/-- Along the run the decisions go through the peers in turn. -/
theorem YieldRun.decisions {s t : Sys α} {ts : List TaskHandle} {p j : Nat} (h : YieldRun s ts t)
    (hs : Rotating s s p) (hp : p < 0xFF)
    (hmin : ∀ v < s.sched.taskCount, s.sched.Active v → p ≤ (s.sched.tasks v).priority)
    (hj : (s.sched.peers p)[j]? = some s.me) :
    Rotating s t p ∧
      (s.sched.peers p)[(j + ts.length) % (s.sched.peers p).length]? = some t.me ∧
      ∀ i < ts.length, ts[i]? = (s.sched.peers p)[(j + 1 + i) % (s.sched.peers p).length]? := by
  induction h with
  | start =>
    obtain ⟨hlt, -⟩ := List.getElem?_eq_some_iff.mp hj
    refine ⟨hs, ?_, by simp⟩
    rw [List.length_nil, Nat.add_zero, Nat.mod_eq_of_lt hlt]
    exact hj
  | yield h hst ih =>
    obtain ⟨hrot, hme, hts⟩ := ih
    obtain ⟨hrot', he⟩ := hrot.yield hst
    rw [he]
    exact ⟨hrot', hme, hts⟩
  | quiet h hst ha hcount hstate ih =>
    obtain ⟨hrot, hme, hts⟩ := ih
    obtain ⟨hrot', he⟩ := hrot.quiet hst ha hcount hstate
    rw [he]
    exact ⟨hrot', hme, hts⟩
  | @decide ts t u h hst ih =>
    obtain ⟨hrot, hme, hts⟩ := ih
    obtain ⟨hrot', hnext⟩ := hrot.decide hst hp hmin
    have hplace : (s.sched.peers p)[((j + ts.length) % (s.sched.peers p).length + 1) %
        (s.sched.peers p).length]? = some u.me := hnext.getElem? hme
    rw [Nat.mod_add_mod, Nat.add_assoc] at hplace
    refine ⟨hrot', ?_, ?_⟩
    · rw [List.length_append]
      exact hplace
    · intro i hi
      rw [List.length_append, List.length_singleton] at hi
      by_cases hlast : i < ts.length
      · rw [List.getElem?_append_left hlast]
        exact hts i hlast
      · obtain rfl : i = ts.length := by omega
        rw [List.getElem?_concat_length, Nat.add_right_comm]
        exact hplace.symm

/-- The executing task and its peers, of the least priority value among the tasks that can run,
take turns: each window of as many decisions as there are peers runs them in cyclic index order,
and nothing else runs. -/
theorem round_robin [Inhabited α] (s t : Sys α) (ts : List TaskHandle) (p : Nat)
    (hreach : Reach IsInit (Asks AnyCalls) ApiStep s) (hcode : s.phase = .code)
    (hme : s.me ≠ invalidTask) (hprio : (s.sched.tasks s.me).priority = p) (hp : p < 0xFF)
    (hmin : ∀ v < s.sched.taskCount, s.sched.Active v → p ≤ (s.sched.tasks v).priority)
    (hrun : YieldRun s ts t) :
    s.me ∈ s.sched.peers p ∧ (∀ v ∈ ts, v ∈ s.sched.peers p) ∧
      ∀ i, i + (s.sched.peers p).length ≤ ts.length →
        (ts.drop i).take (s.sched.peers p).length =
          (s.sched.peers p).rotate ((s.sched.peers p).idxOf s.me + 1 + i) := by
  have htable := tableInv_of_reach hreach
  have hlt : s.me < s.sched.taskCount := htable.current_lt hme
  have hactive : s.sched.Active s.me := .inr ((htable.running s.me).mpr ⟨hcode, rfl, hme⟩)
  have hpeer : s.sched.Peer p s.me := ⟨hactive, hprio⟩
  have hmem : s.me ∈ s.sched.peers p := (mem_indices _ _).mpr ⟨hlt, hpeer⟩
  have hstart : Rotating s s p :=
    ⟨htable, rfl, fun _ _ ↦ Iff.rfl, fun _ _ ↦ rfl, hlt, hpeer⟩
  obtain ⟨-, -, hts⟩ := hrun.decisions hstart hp hmin (List.getElem?_idxOf hmem)
  refine ⟨hmem, ?_, fun i hi ↦ window_eq_rotate hts hi⟩
  intro v hv
  obtain ⟨i, hi, rfl⟩ := List.getElem_of_mem hv
  have hget := hts i hi
  rw [List.getElem?_eq_getElem hi] at hget
  exact List.mem_of_getElem? hget.symm

/-- The executing task yields, and the scheduler decides. -/
def Sys.yieldTurn (s : Sys α) : Sys α :=
  { s.call (.vTaskDelay 0) with
    sched := (s.call (.vTaskDelay 0)).sched.dispatch (s.call (.vTaskDelay 0)).phase
    phase := .code }

private theorem YieldRun.turn {s t : Sys α} {ts : List TaskHandle} (h : YieldRun s ts t)
    (hp : t.phase = .code) (hk : (t.kont t.me).IsUser) (hm : t.me ≠ invalidTask) :
    YieldRun s (ts ++ [t.yieldTurn.me]) t.yieldTurn := by
  have hph : (t.call (.vTaskDelay 0)).phase ≠ .code := by
    rw [show t.call (.vTaskDelay 0) = t.reschedule (t.sched.setState t.me .ready) from
      (if_neg hm).trans (if_pos rfl)]
    exact nofun
  exact (h.yield (.act (.call hp hk trivial))).decide (.act (.dispatch hph ⟨hph, rfl⟩))

/-- Two tasks of priority 1 and one of priority 2. -/
def peersRun : List (ApiAct Unit) :=
  [.act (.call (.xTaskCreate 1)), .act (.call (.xTaskCreate 2)), .act (.call (.xTaskCreate 1)),
    .act (.call .vTaskStartScheduler)]

private theorem peersRun_isSome : (runActs Sys.apiExec peersRun (.init {})).isSome = true := by
  decide +kernel

def peersStart : Sys Unit := (runActs Sys.apiExec peersRun (.init {})).get peersRun_isSome

private theorem peersStart_yieldRun :
    YieldRun peersStart [2, 0] peersStart.yieldTurn.yieldTurn :=
  (YieldRun.start.turn (by decide +kernel) (by decide +kernel) (by decide +kernel)).turn
    (by decide +kernel) (by decide +kernel) (by decide +kernel)

/-- The next two of three peers. -/
theorem round_robin_peers :
    ([2, 0] : List TaskHandle).take 2 = (peersStart.sched.peers 1).rotate 1 :=
  (round_robin peersStart peersStart.yieldTurn.yieldTurn [2, 0] 1
    (Reach.of_guardedRun ApiStep.of_apiExec peersRun ⟨{}, rfl⟩ (by decide +kernel)
      peersRun_isSome)
    (by decide +kernel) (by decide +kernel) (by decide +kernel) (by decide) (by decide +kernel)
    peersStart_yieldRun).2.2 0 (by decide +kernel)

end McuSimulator.Rtos
