import McuSimulator.Cpu.Run

/-!
# Running with a trace callback

`set_trace` of `src/cpu.h`, and `step` and `run` of `src/cpu.cpp` as they are with a callback: it
is told the address and the opcode after the fetch, before the instruction is executed. What it
writes to is threaded through the run.
-/

namespace McuSimulator.Cpu

open McuSimulator.Memory

universe u

/-- `TraceCallback`, by what it does to the world it writes to. The third argument of the source is
always the empty text, and no callback uses it; src/cpu.h:107, src/cpu.cpp:58. -/
abbrev TraceCallback (ω : Type u) := BitVec 32 → BitVec 16 → ω → ω

namespace CortexM0

/-- The address and the opcode that a step fetches, if it fetches one. -/
def fetched (s : CortexM0) : Option (BitVec 32 × BitVec 16) :=
  if s.halted then none
  else
    match s.mem.read16 s.pc with
    | .ok instr => some (s.pc, instr)
    | .error _ => none

/-- What the steps of a run fetch, in order. -/
def fetches : Nat → CortexM0 → List (BitVec 32 × BitVec 16)
  | 0, _ => []
  | n + 1, s => s.fetched.toList ++
      match s.step with
      | .ok true t => fetches n t
      | _ => []

section Callback

variable {ω : Type u} (cb : Option (TraceCallback ω))

/-- `step`, with `trace_cb_`; src/cpu.cpp:52–63. -/
def stepTraced (s : CortexM0) (w : ω) : Outcome Bool × ω :=
  if s.halted then (.ok false s, w)
  else
    match s.fetch with
    | .error f t => (.error f t, w)
    | .ok instr t =>
      let w :=
        match cb with
        | some trace => trace s.pc instr w
        | none => w
      match t.execute instr with
      | .error f t => (.error f t, w)
      | .ok () t => (.ok (!t.halted) { t with cycles := t.cycles + 1 }, w)

/-- The loop of `run`, with `trace_cb_`; src/cpu.cpp:67. -/
def runLoopTraced : Nat → Nat → CortexM0 → ω → Outcome Nat × ω
  | 0, steps, s, w => (.ok steps s, w)
  | left + 1, steps, s, w =>
    match s.stepTraced cb w with
    | (.error f s, w) => (.error f s, w)
    | (.ok true s, w) => runLoopTraced left (steps + 1) s w
    | (.ok false s, w) => (.ok steps s, w)

/-- `run`, with `trace_cb_`; src/cpu.cpp:65–69. -/
def runTraced (s : CortexM0) (maxSteps : Nat) (w : ω) : Outcome Nat × ω :=
  runLoopTraced cb maxSteps 0 s w

/-- What the callback makes of some fetches. -/
def told (w : ω) (xs : List (BitVec 32 × BitVec 16)) : ω :=
  match cb with
  | some trace => xs.foldl (fun w x ↦ trace x.1 x.2 w) w
  | none => w

private theorem told_nil (w : ω) : told cb w [] = w := by
  cases cb <;> rfl

private theorem told_append (w : ω) (xs ys : List (BitVec 32 × BitVec 16)) :
    told cb w (xs ++ ys) = told cb (told cb w xs) ys := by
  cases cb with
  | none => rfl
  | some trace => exact List.foldl_append

/-- A traced step is a step, and the callback is told of what it fetches. -/
theorem stepTraced_eq (s : CortexM0) (w : ω) :
    s.stepTraced cb w = (s.step, told cb w s.fetched.toList) := by
  unfold stepTraced fetched
  cases hs : s.halted with
  | true =>
    rw [if_pos rfl, if_pos rfl, step_of_halted hs, Option.toList_none, told_nil]
  | false =>
    rw [if_neg Bool.false_ne_true, if_neg Bool.false_ne_true]
    cases hread : s.mem.read16 s.pc with
    | error f =>
      have hf : s.fetch = .error (.busFault f) s := by rw [fetch, hread, bus_error]
      simp [hf, step, hs, told_nil]
    | ok instr =>
      have hf : s.fetch = .ok instr s.advancePc := fetch_eq_ok.mpr ⟨hread, rfl⟩
      rw [hf, step_of_fetch hs hread]
      dsimp only
      cases s.advancePc.execute instr with
      | error f t => cases cb <;> rfl
      | ok v t => cases cb <;> rfl

/-- A traced run is a run, and the callback is told of what its steps fetch. -/
theorem runLoopTraced_eq (n k : Nat) (s : CortexM0) (w : ω) :
    runLoopTraced cb n k s w = (runLoop n k s, told cb w (fetches n s)) := by
  induction n generalizing k s w with
  | zero => rw [runLoopTraced, runLoop, fetches, told_nil]
  | succ n ih =>
    rw [runLoopTraced, runLoop, fetches, stepTraced_eq, told_append]
    cases s.step with
    | error f t => rw [told_nil]
    | ok go t =>
      cases go with
      | false => rw [told_nil]
      | true => exact ih (k + 1) t _

/-- A traced run is the run, with what its callback is told of the instructions it fetches. -/
theorem runTraced_eq (s : CortexM0) (n : Nat) (w : ω) :
    s.runTraced cb n w = (s.run n, told cb w (fetches n s)) :=
  runLoopTraced_eq cb n 0 s w

end Callback

/-! ### What a run fetches -/

private theorem fetched_of_halted {s : CortexM0} (h : s.halted = true) :
    s.fetched = none := if_pos h

/-- The fetches of a run are those of the states that the steps lead through. -/
theorem fetches_getElem? (n i : Nat) (s : CortexM0) :
    (fetches n s)[i]? = if i < n then (steps i s).bind fetched else none := by
  induction n generalizing i s with
  | zero => rfl
  | succ n ih =>
    rw [fetches]
    cases hs : s.halted with
    | true =>
      rw [fetched_of_halted hs, step_of_halted hs, steps_of_halted hs, Option.bind_some,
        fetched_of_halted hs, ite_self]
      rfl
    | false =>
      cases hread : s.mem.read16 s.pc with
      | error f =>
        have hnone : s.fetched = none := by simp [fetched, hs, hread]
        have hf : s.fetch = .error (.busFault f) s := by rw [fetch, hread, bus_error]
        have hstep : s.step = .error (.busFault f) s := by simp [step, hs, hf]
        rw [hnone, hstep]
        cases i with
        | zero => simp [steps, hnone]
        | succ i => simp [steps, hstep]
      | ok instr =>
        have hsome : s.fetched = some (s.pc, instr) := by simp [fetched, hs, hread]
        rw [hsome]
        cases i with
        | zero => simp [steps, hsome]
        | succ i =>
          rw [Option.toList_some, List.singleton_append, List.getElem?_cons_succ, steps]
          cases hstep : s.step with
          | error f t => simp
          | ok go t =>
            cases go with
            | true => simp [ih]
            | false =>
              have ht : t.halted = true := by simpa using step_ok_flag hstep
              simp [steps_of_halted ht, fetched_of_halted ht]

/-- A run that returns counts as many cycles as it fetches instructions. -/
theorem cycles_eq_length_fetches {s t : CortexM0} {n k : Nat} (h : s.run n = .ok k t) :
    t.cycles = s.cycles + BitVec.ofNat 64 (fetches n s).length := by
  induction n generalizing s k with
  | zero =>
    rw [run_zero] at h
    cases h
    simp [fetches]
  | succ n ih =>
    cases hs : s.halted with
    | true =>
      rw [run_of_halted hs] at h
      cases h
      simp [fetches, fetched_of_halted hs, step_of_halted hs]
    | false =>
      have hone {u : CortexM0} {go : Bool} (hu : s.step = .ok go u) :
          s.fetched.toList.length = 1 ∧ u.cycles = s.cycles + 1 := by
        obtain ⟨instr, v, hread, -, -, -⟩ := (step_eq_ok hs).mp hu
        exact ⟨by simp [fetched, hs, hread], step_cycles hs hu⟩
      rcases run_succ_cases h with ⟨hstep, -, -⟩ | ⟨u, l, hstep, -, hrest, -⟩
      · obtain ⟨hlen, hcycles⟩ := hone hstep
        rw [fetches, hstep, List.append_nil, hlen, hcycles]
        rfl
      · obtain ⟨hlen, hcycles⟩ := hone hstep
        rw [fetches, hstep, List.length_append, hlen, ih hrest, hcycles, cycles_succ,
          Nat.add_comm 1]

end CortexM0

end McuSimulator.Cpu
