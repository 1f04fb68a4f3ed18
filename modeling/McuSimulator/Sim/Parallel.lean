import McuSimulator.Sim.RunOne

/-!
# Parallel simulations

`TraceCollector` and `SimulationRunner::run` of `src/parallel_sim.h`: one thread for each task,
all of them pushing to one trace and counting in one counter. `push` and `fetch_add` are
atomic; the order in which the threads reach them is arbitrary. The vector of results is built
in the caller's object, so the threads write where the caller reads.
-/

namespace McuSimulator.Sim

open McuSimulator.Base

/-- `TraceCollector`; src/parallel_sim.h:56–77. -/
structure TraceCollector where
  log : List SimRecord

namespace TraceCollector

/-- `push`; src/parallel_sim.h:58–61. -/
def push (t : TraceCollector) (r : SimRecord) : TraceCollector := ⟨t.log ++ [r]⟩

/-- `drain`; src/parallel_sim.h:64–67. -/
def drain (t : TraceCollector) : List SimRecord × TraceCollector := (t.log, ⟨[]⟩)

end TraceCollector

/-- `SimulationRunner`; src/parallel_sim.h:145–146. -/
structure SimulationRunner where
  trace : TraceCollector
  totalRun : BitVec 64

namespace SimulationRunner

/-- The effect of one access to what the threads share. -/
def act (s : SimulationRunner) : Effect → SimulationRunner
  | .push r => { s with trace := s.trace.push r }
  | .countRun => { s with totalRun := s.totalRun + 1 }

/-- The threads of `run`, one for each task; src/parallel_sim.h:122–130. -/
def threads (tasks : List SimTask) : List (Process Effect SimResult) :=
  tasks.map fun task ↦ task.runOne task.fresh

/-- `run` can return these results and leave this state: some interleaving of the threads, until
all of them are joined, ends so; src/parallel_sim.h:116–133. -/
def Runs (s : SimulationRunner) (tasks : List SimTask) (results : List SimResult)
    (s' : SimulationRunner) : Prop :=
  ∃ xs q, Pool.Run act ⟨threads tasks, s⟩ xs q ∧ q.Finished ∧
    results = q.procs.map Process.value ∧ s' = q.shared

end SimulationRunner

/-- What an effect pushes. -/
def Effect.pushed : Effect → Option SimRecord
  | .push r => some r
  | .countRun => none

namespace SimTask

/-- The records of the task run alone. -/
def sequentialLog (task : SimTask) : List SimRecord :=
  (task.runOne task.fresh).trace.filterMap Effect.pushed

/-- The records of one task: START, CHECKPOINT any number of times, and then EXCEPTION if there
is a message and DONE otherwise. -/
structure WellLogged (task : SimTask) (log : List SimRecord) : Prop where
  shape : ∃ start checkpoints last, log = start :: (checkpoints ++ [last]) ∧
    start.event = "START" ∧ (∀ r ∈ checkpoints, r.event = "CHECKPOINT") ∧
    last.event = if task.result.exceptionMsg = "" then "DONE" else "EXCEPTION"
  owner : ∀ r ∈ log, r.simId = task.id ∧ r.label = task.label

variable {task : SimTask}

/-- A checkpoint of the task is pushed. -/
def IsCheckpoint (task : SimTask) (e : Effect) : Prop :=
  ∃ cycles pc, e = .push ⟨task.id, task.label, "CHECKPOINT", cycles, pc⟩

private theorem checkpointLoop_trace (n : Nat) (s : Cpu.CortexM0) :
    ∀ e ∈ (task.checkpointLoop n s).trace, task.IsCheckpoint e := by
  induction n using Nat.strongRecOn generalizing s with
  | ind n ih =>
    rw [checkpointLoop]
    split
    case isFalse hn => simp
    case isTrue hn =>
      dsimp only
      split
      case h_1 => simp
      case h_2 done t _ =>
        split
        case isTrue => simp
        case isFalse hge =>
          intro e he
          rw [Process.trace_emit, List.mem_cons] at he
          rcases he with rfl | he
          · exact ⟨_, _, rfl⟩
          · exact ih (n - done) (by omega) t e he

private theorem simulate_trace (s : Cpu.CortexM0) :
    ∀ e ∈ (task.simulate s).trace, task.IsCheckpoint e := by
  rw [simulate]
  split
  · split <;> simp
  · exact checkpointLoop_trace _ _

/-- What a task emits alone: its records, and the count at the end. -/
theorem runOne_trace : ∃ checkpoints : List Effect, (∀ e ∈ checkpoints, task.IsCheckpoint e) ∧
    (task.runOne task.fresh).trace = .push ⟨task.id, task.label, "START", 0, 0⟩ ::
      (checkpoints ++ [.push ⟨task.id, task.label,
        if task.result.exceptionMsg = "" then "DONE" else "EXCEPTION",
        task.result.cycles, task.result.finalRegs .pc⟩, .countRun]) := by
  rw [result_eq, runOne, tryBlock, Process.trace_emit]
  cases loadInstructions task.instructions 0 (Cpu.CortexM0.new .clear) with
  | error f s =>
    refine ⟨[], by simp, ?_⟩
    simp [collect]
  | ok u s =>
    refine ⟨(task.simulate s).trace, simulate_trace s, ?_⟩
    dsimp only
    rw [Process.trace_bind, simulate_value]
    simp [collect]

private theorem filterMap_pushed_checkpoints {es : List Effect}
    (h : ∀ e ∈ es, task.IsCheckpoint e) :
    ∀ r ∈ es.filterMap Effect.pushed,
      r.event = "CHECKPOINT" ∧ r.simId = task.id ∧ r.label = task.label := by
  intro r hr
  obtain ⟨e, he, hpushed⟩ := List.mem_filterMap.mp hr
  obtain ⟨cycles, pc, rfl⟩ := h e he
  cases hpushed
  exact ⟨rfl, rfl, rfl⟩

private theorem sequentialLog_wellLogged (task : SimTask) : task.WellLogged task.sequentialLog := by
  obtain ⟨checkpoints, hcp, htrace⟩ := @runOne_trace task
  have hrec := filterMap_pushed_checkpoints hcp
  have hlog : task.sequentialLog = ⟨task.id, task.label, "START", 0, 0⟩ ::
      (checkpoints.filterMap Effect.pushed ++ [⟨task.id, task.label,
        if task.result.exceptionMsg = "" then "DONE" else "EXCEPTION",
        task.result.cycles, task.result.finalRegs .pc⟩]) := by
    rw [sequentialLog, htrace]
    simp [Effect.pushed]
  constructor
  · exact ⟨_, _, _, hlog, rfl, fun r hr ↦ (hrec r hr).1, rfl⟩
  · intro r hr
    rw [hlog, List.mem_cons, List.mem_append, List.mem_singleton] at hr
    rcases hr with rfl | hr | rfl
    · exact ⟨rfl, rfl⟩
    · exact (hrec r hr).2
    · exact ⟨rfl, rfl⟩

/-- A task is counted once. -/
theorem countP_runOne :
    (task.runOne task.fresh).trace.countP (· = .countRun) = 1 := by
  obtain ⟨checkpoints, hcp, htrace⟩ := @runOne_trace task
  have hzero : checkpoints.countP (· = .countRun) = 0 := by
    rw [List.countP_eq_zero]
    intro e he
    obtain ⟨cycles, pc, rfl⟩ := hcp e he
    simp
  rw [htrace]
  simp [hzero]

end SimTask

namespace SimulationRunner

/-- The log grows by what is pushed, the counter by the number of counts. -/
theorem foldl_act (es : List Effect) (s : SimulationRunner) :
    (es.foldl act s).trace.log = s.trace.log ++ es.filterMap Effect.pushed ∧
    (es.foldl act s).totalRun =
      s.totalRun + BitVec.ofNat 64 (es.countP (· = .countRun)) := by
  induction es generalizing s with
  | nil => simp
  | cons e es ih =>
    obtain ⟨hlog, htotal⟩ := ih (s.act e)
    rw [List.foldl_cons, hlog, htotal]
    cases e with
    | push r => simp [act, TraceCollector.push, Effect.pushed]
    | countRun =>
      constructor
      · have hnone : Effect.pushed .countRun = none := rfl
        rw [List.filterMap_cons_none hnone]
        rfl
      · rw [List.countP_cons_of_pos (by simp), act, BitVec.add_assoc,
          show (1 : BitVec 64) = BitVec.ofNat 64 1 from rfl, BitVec.ofNat_add_ofNat,
          Nat.add_comm 1]

private theorem countP_threads (tasks : List SimTask) :
    ((threads tasks).flatMap Process.trace).countP (· = .countRun) = tasks.length := by
  induction tasks with
  | nil => rfl
  | cons task tasks ih =>
    have hone := @SimTask.countP_runOne task
    rw [threads, List.map_cons, List.flatMap_cons, List.countP_append, hone]
    rw [threads] at ih
    rw [ih, List.length_cons, Nat.add_comm]

private theorem exists_runs (s : SimulationRunner) (tasks : List SimTask) :
    ∃ results s', s.Runs tasks results s' := by
  obtain ⟨xs, q, hr, hq⟩ := Pool.exists_run_finished act ⟨threads tasks, s⟩
  exact ⟨_, _, xs, q, hr, hq, rfl, rfl⟩

/-- Parallel runs equal sequential runs: whatever the interleaving, the results are those of
the tasks run alone, in task order; every task is counted once; and the trace drained
afterwards is a shuffle of the tasks' own logs, each from START to DONE or EXCEPTION. -/
theorem parallel_eq_sequential (s s' : SimulationRunner) (tasks : List SimTask)
    (results : List SimResult) (hempty : s.trace.log = []) (h : s.Runs tasks results s') :
    results = tasks.map SimTask.result ∧
    s'.totalRun = s.totalRun + BitVec.ofNat 64 tasks.length ∧
    IsShuffle (tasks.map SimTask.sequentialLog) s'.trace.drain.1 ∧
    (∀ task ∈ tasks, task.WellLogged task.sequentialLog) ∧
    s'.trace.drain.2.drain.1 = [] := by
  obtain ⟨xs, q, hr, hq, rfl, rfl⟩ := h
  obtain ⟨hlog, htotal⟩ := foldl_act (xs.map Prod.snd) s
  have hshared := hr.shared
  have hdone : q.procs.flatMap Process.trace = [] := by
    rw [List.flatMap_eq_nil_iff]
    intro proc hproc
    obtain ⟨a, rfl⟩ := hq proc hproc
    rfl
  have hperm := hr.perm
  rw [hdone, List.append_nil] at hperm
  dsimp only at hperm hshared
  refine ⟨?_, ?_, ?_, fun task _ ↦ task.sequentialLog_wellLogged, rfl⟩
  · rw [hr.values, threads, List.map_map]
    rfl
  · rw [hshared, htotal, hperm.countP_eq, countP_threads]
  · have hshuffle := (hr.isShuffle hq).filterMap Effect.pushed
    rw [threads, List.map_map, List.map_map] at hshuffle
    rw [hshared, TraceCollector.drain, hlog, hempty, List.nil_append]
    exact hshuffle

/-- A halting program and an endless loop with checkpoints, side by side. -/
theorem parallel_eq_sequential_pair :
    let tasks : List SimTask := [⟨1, "halt", [0x4770], 100, 0x8000, false⟩,
      ⟨2, "loop", [0xE7FE], 20000, 0x8000, true⟩]
    ∃ results s', Runs ⟨⟨[]⟩, 0⟩ tasks results s' ∧ results = tasks.map SimTask.result ∧
      s'.totalRun = 2 ∧ IsShuffle (tasks.map SimTask.sequentialLog) s'.trace.drain.1 := by
  intro tasks
  obtain ⟨results, s', h⟩ := exists_runs ⟨⟨[]⟩, 0⟩ tasks
  obtain ⟨hres, htotal, hlog, -, -⟩ := parallel_eq_sequential _ _ tasks results rfl h
  exact ⟨results, s', h, hres, htotal, hlog⟩

end SimulationRunner

end McuSimulator.Sim
