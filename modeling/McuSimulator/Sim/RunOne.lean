import McuSimulator.Base.Interleaving
import McuSimulator.Cpu.Run

/-!
# One simulation

`SimulationRunner::run_one` of `src/parallel_sim.h`. Its CPU and memory are its own; what it
shares are the trace, through `push`, and the counter of simulations. So it is a process that
emits these effects and ends with its result. The wall time is left out.
-/

namespace McuSimulator.Sim

open McuSimulator.Base McuSimulator.Memory McuSimulator.Cpu

/-- `SimRecord`; src/parallel_sim.h:42–48. -/
structure SimRecord where
  simId : BitVec 32
  label : String
  event : String
  cycles : BitVec 64
  pc : BitVec 32
  deriving DecidableEq, Repr

/-- `SimTask`; src/parallel_sim.h:82–89. -/
structure SimTask where
  id : BitVec 32
  label : String
  instructions : List (BitVec 16)
  maxSteps : BitVec 64
  initialSp : BitVec 32
  checkpointEvery10k : Bool

/-- `SimResult`; src/parallel_sim.h:94–102. -/
@[ext]
structure SimResult where
  simId : BitVec 32
  label : String
  cycles : BitVec 64
  completed : Bool
  exceptionMsg : String
  finalRegs : RegIndex → BitVec 32

/-- An access to what the simulations share. -/
inductive Effect where
  /-- `m_trace->push`. -/
  | push (r : SimRecord)
  /-- `m_total_run.fetch_add(1)`. -/
  | countRun
  deriving DecidableEq, Repr

/-- A default result with the task's id and label, as `run` makes it before it starts the
thread; src/parallel_sim.h:118, 123–124. -/
def SimTask.fresh (task : SimTask) : SimResult :=
  ⟨task.id, task.label, 0, false, "", fun _ ↦ 0⟩

/-- The loop that stores the instructions; src/parallel_sim.h:159–163. An opcode that does not fit
in the memory ends it. -/
def loadInstructions : List (BitVec 16) → BitVec 32 → CortexM0 → Outcome Unit
  | [], _, s => .ok () s
  | instr :: rest, addr, s =>
    s.bus (s.mem.write16 addr instr) fun m ↦
      loadInstructions rest (addr + 2) { s with mem := m }

namespace SimTask

variable (task : SimTask)

/-- The reset sequence; src/parallel_sim.h:166–169. -/
def resetSequence (s : CortexM0) : CortexM0 :=
  ((s.reset.setReg .pc 0).setReg .lr 0).setReg .sp task.initialSp

/-- The loop with checkpoints: whether the CPU halted; src/parallel_sim.h:175–188. -/
def checkpointLoop (remaining : Nat) (s : CortexM0) : Process Effect (Outcome Bool) :=
  if 0 < remaining then
    let batch := min 10000 remaining
    match s.run batch with
    | .error f s => .done (.error f s)
    | .ok done s =>
      if done < batch then .done (.ok true s)
      else
        .emit (.push ⟨task.id, task.label, "CHECKPOINT", s.cycles, s.regs .pc⟩)
          (checkpointLoop (remaining - done) s)
  else .done (.ok false s)
termination_by remaining

/-- The body of the `try` after the instructions are stored: whether the task completed;
src/parallel_sim.h:166–189. -/
def simulate (s : CortexM0) : Process Effect (Outcome Bool) :=
  let s := task.resetSequence s
  if !task.checkpointEvery10k then
    match s.run task.maxSteps.toNat with
    | .error f s => .done (.error f s)
    | .ok stepsDone s => .done (.ok (decide (stepsDone < task.maxSteps.toNat)) s)
  else task.checkpointLoop task.maxSteps.toNat s

/-- What the `try` block leaves in `out`; src/parallel_sim.h:172, 189, 191–193. -/
def record (out : SimResult) : Outcome Bool → SimResult
  | .ok completed _ => { out with completed := completed }
  | .error f _ => { out with exceptionMsg := f.what }

/-- The end of `run_one`, in the state that the `try` block leaves; src/parallel_sim.h:196–207. -/
def collect (out : SimResult) (r : Outcome Bool) : Process Effect SimResult :=
  let s := endState r
  let out := { record out r with cycles := s.cycles, finalRegs := s.regs }
  let event := if out.exceptionMsg.isEmpty then "DONE" else "EXCEPTION"
  .emit (.push ⟨task.id, task.label, event, out.cycles, out.finalRegs .pc⟩)
    (.emit .countRun (.done out))

/-- `run_one`; src/parallel_sim.h:148–208. -/
def runOne (out : SimResult) : Process Effect SimResult :=
  .emit (.push ⟨task.id, task.label, "START", 0, 0⟩) <|
    match loadInstructions task.instructions 0 (CortexM0.new .clear) with
    | .error f s => task.collect out (.error f s)
    | .ok () s => (task.simulate s).bind (task.collect out)

/-- The task run alone. -/
def result : SimResult := (task.runOne task.fresh).value

/-! ### Results -/

/-- The state in which the simulation starts, if the instructions fit in the memory. -/
def startState : Option CortexM0 :=
  match loadInstructions task.instructions 0 (CortexM0.new .clear) with
  | .ok _ s => some (task.resetSequence s)
  | .error _ _ => none

/-- The CPU halts within the task's limit, and no step until then throws. -/
def HaltsInTime : Prop :=
  ∃ s t : CortexM0, ∃ n ≤ task.maxSteps.toNat,
    task.startState = some s ∧ CortexM0.steps n s = some t ∧ t.halted = true

variable {task}

/-- Every fault has a message. -/
theorem what_ne_empty (f : Fault) : f.what ≠ "" := by
  intro h
  cases f with
  | busFault f => exact absurd (String.append_eq_empty_iff.mp h).1 (by decide)
  | undefinedInstruction opcode => exact absurd (String.append_eq_empty_iff.mp h).1 (by decide)

private theorem resetSequence_halted (s : CortexM0) : (task.resetSequence s).halted = false := rfl

private theorem resetSequence_cycles (s : CortexM0) : (task.resetSequence s).cycles = 0 := rfl

/-- The batches end as one run does: the CPU halted if the run was cut short. -/
theorem checkpointLoop_value (n : Nat) {s : CortexM0} (hs : s.halted = false) :
    (task.checkpointLoop n s).value = match s.run n with
      | .error f t => .error f t
      | .ok k t => .ok (decide (k < n)) t := by
  induction n using Nat.strongRecOn generalizing s with
  | ind n ih =>
    rw [checkpointLoop]
    split
    case isFalse hn =>
      have hz : n = 0 := by omega
      subst hz
      rfl
    case isTrue hn =>
      have hsplit : n = min 10000 n + (n - min 10000 n) := by omega
      have hrun := s.run_append (min 10000 n) (n - min 10000 n)
      rw [← hsplit] at hrun
      rw [hrun]
      dsimp only
      cases hb : s.run (min 10000 n) with
      | error f t => rfl
      | ok done t =>
        obtain ⟨hle, hhalt⟩ := CortexM0.run_count hs hb
        dsimp only
        split
        case isTrue hlt =>
          -- the batch was cut short: the CPU has halted, and the rest of the run is empty
          have hdone : done < n := by omega
          rw [CortexM0.run_of_halted (hhalt.mp hlt)]
          simp [hdone]
        case isFalse hge =>
          have hdone : done = min 10000 n := by omega
          have ht : t.halted = false := by
            rw [← Bool.not_eq_true, ← hhalt]
            exact hge
          have hrest : n - done < n := by omega
          rw [Process.value_emit, ih (n - done) hrest ht, ← hdone]
          cases t.run (n - done) with
          | error f u => rfl
          | ok k u =>
            have hiff : k < n - done ↔ done + k < n := by omega
            simp [hiff]

/-- With checkpoints and without, the `try` block ends in the same way. -/
theorem simulate_value (s : CortexM0) :
    (task.simulate s).value = match (task.resetSequence s).run task.maxSteps.toNat with
      | .error f t => .error f t
      | .ok k t => .ok (decide (k < task.maxSteps.toNat)) t := by
  rw [simulate]
  split
  · cases (task.resetSequence s).run task.maxSteps.toNat with
    | error f t => rfl
    | ok k t => rfl
  · exact checkpointLoop_value _ (resetSequence_halted s)

/-- How the `try` block ends: nothing in it depends on the checkpoints. -/
def tryBlock (task : SimTask) : Outcome Bool :=
  match loadInstructions task.instructions 0 (CortexM0.new .clear) with
  | .error f s => .error f s
  | .ok () s =>
    match (task.resetSequence s).run task.maxSteps.toNat with
    | .error f t => .error f t
    | .ok k t => .ok (decide (k < task.maxSteps.toNat)) t

/-- The result is made from the end of the `try` block. -/
theorem result_eq : task.result = (task.collect task.fresh task.tryBlock).value := by
  rw [result, runOne, tryBlock, Process.value_emit]
  cases loadInstructions task.instructions 0 (CortexM0.new .clear) with
  | error f s => rfl
  | ok u s =>
    dsimp only
    rw [Process.value_bind, simulate_value]

private theorem result_completed :
    task.result.completed = true ↔ ∃ t, task.tryBlock = .ok true t := by
  rw [result_eq]
  cases task.tryBlock with
  | error f t => simp [collect, record, fresh]
  | ok b t => simp [collect, record]

private theorem result_exceptionMsg :
    task.result.exceptionMsg = "" ↔ ∃ b t, task.tryBlock = .ok b t := by
  rw [result_eq]
  cases task.tryBlock with
  | error f t =>
    have hne := what_ne_empty f
    simp [collect, record, hne]
  | ok b t => simp [collect, record, fresh]

private theorem result_cycles : task.result.cycles = (endState task.tryBlock).cycles := by
  rw [result_eq]
  rfl

/-- The task completes when the CPU halts in time. -/
theorem tryBlock_eq_true : (∃ t, task.tryBlock = .ok true t) ↔ task.HaltsInTime := by
  unfold tryBlock HaltsInTime startState
  cases loadInstructions task.instructions 0 (CortexM0.new .clear) with
  | error f s => simp
  | ok u s =>
    have hs : (task.resetSequence s).halted = false := resetSequence_halted s
    dsimp only
    constructor
    · rintro ⟨t, ht⟩
      cases hr : (task.resetSequence s).run task.maxSteps.toNat with
      | error f v =>
        rw [hr] at ht
        cases ht
      | ok k v =>
        rw [hr] at ht
        injection ht with hb
        have hlt : k < task.maxSteps.toNat := of_decide_eq_true hb
        have hhalt := (CortexM0.run_count hs hr).2.mp hlt
        exact ⟨_, v, _, le_rfl, rfl, (CortexM0.run_eq_ok _ _ _).mpr ⟨k, hr⟩, hhalt⟩
    · rintro ⟨s', t, n, hn, hs', hsteps, hhalt⟩
      cases hs'
      obtain ⟨k, hk⟩ := (CortexM0.run_eq_ok _ _ _).mp hsteps
      -- past the halt the run goes no further
      have hlt : k < n := (CortexM0.run_count hs hk).2.mpr hhalt
      have hrun := (task.resetSequence s).run_append n (task.maxSteps.toNat - n)
      rw [Nat.add_sub_cancel' hn, hk] at hrun
      dsimp only at hrun
      rw [CortexM0.run_of_halted hhalt] at hrun
      rw [hrun]
      refine ⟨t, ?_⟩
      have hlt' : k < task.maxSteps.toNat := by omega
      simp [hlt']

/-- A run to the limit counts one cycle for each step. -/
theorem tryBlock_cycles {t : CortexM0} (h : task.tryBlock = .ok false t) :
    t.cycles = task.maxSteps := by
  unfold tryBlock at h
  cases hl : loadInstructions task.instructions 0 (CortexM0.new .clear) with
  | error f s =>
    rw [hl] at h
    cases h
  | ok u s =>
    rw [hl] at h
    dsimp only at h
    cases hr : (task.resetSequence s).run task.maxSteps.toNat with
    | error f v =>
      rw [hr] at h
      cases h
    | ok k v =>
      rw [hr] at h
      have hge : ¬ k < task.maxSteps.toNat := by
        intro hlt
        simp [hlt] at h
      have hv : v = t := by simpa [hge] using h
      have hs : (task.resetSequence s).halted = false := resetSequence_halted s
      have hrun : v.halted = false := by
        rw [← Bool.not_eq_true, ← (CortexM0.run_count hs hr).2]
        exact hge
      rw [← hv, CortexM0.run_cycles hs hr hrun, resetSequence_cycles]
      simp

end SimTask

/-- Checkpoints do not change a simulation: the result is the same with them and without. In
both modes the task completes when the CPU halts within the limit and no step throws, and a
task that neither completes nor raises an exception has made all its steps. Underneath, a run
can be cut anywhere: the states agree and the counts add up. -/
theorem checkpoints_keep_result :
    (∀ task : SimTask, { task with checkpointEvery10k := true }.result =
      { task with checkpointEvery10k := false }.result) ∧
    (∀ task : SimTask, task.result.completed = true ↔ task.HaltsInTime) ∧
    (∀ task : SimTask, task.result.completed = false → task.result.exceptionMsg = "" →
      task.result.cycles = task.maxSteps) ∧
    ∀ (s : CortexM0) (a b : Nat), s.run (a + b) = match s.run a with
      | .error f t => .error f t
      | .ok k t => match t.run b with
        | .error f u => .error f u
        | .ok l u => .ok (k + l) u := by
  refine ⟨?_, ?_, ?_, CortexM0.run_append⟩
  · intro task
    rw [SimTask.result_eq, SimTask.result_eq]
    rfl
  · intro task
    rw [SimTask.result_completed, SimTask.tryBlock_eq_true]
  · intro task hc he
    obtain ⟨b, t, ht⟩ := SimTask.result_exceptionMsg.mp he
    cases b with
    | true => simp [SimTask.result_completed.mpr ⟨t, ht⟩] at hc
    | false =>
      rw [SimTask.result_cycles, ht]
      exact SimTask.tryBlock_cycles ht

end McuSimulator.Sim
