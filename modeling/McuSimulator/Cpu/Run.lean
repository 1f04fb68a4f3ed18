import McuSimulator.Cpu.Frame

/-!
# Running

`run` is compared with calling `step` again and again: what it returns, where it stops, and
that a run can be cut in two.
-/

namespace McuSimulator.Cpu

namespace CortexM0

/-- `n` calls of `step`, if none of them throws. -/
def steps : Nat → CortexM0 → Option CortexM0
  | 0, s => some s
  | n + 1, s =>
    match s.step with
    | .ok _ t => steps n t
    | .error _ _ => none

/-! ### One step -/

/-- A core that is halted does not step. -/
theorem step_of_halted {s : CortexM0} (h : s.halted = true) : s.step = .ok false s :=
  if_pos h

/-- A fetch returns the halfword at the PC and advances it. -/
theorem fetch_eq_ok {s t : CortexM0} {instr : BitVec 16} :
    s.fetch = .ok instr t ↔ s.mem.read16 s.pc = .ok instr ∧ t = s.advancePc := by
  unfold fetch
  cases s.mem.read16 s.pc with
  | ok v =>
    rw [bus_ok]
    constructor
    · intro h
      cases h
      exact ⟨rfl, rfl⟩
    · rintro ⟨h, rfl⟩
      cases h
      rfl
  | error f => simp

/-- A step of a running CPU, once its opcode is fetched. -/
theorem step_of_fetch {s : CortexM0} {instr : BitVec 16} (hs : s.halted = false)
    (hread : s.mem.read16 s.pc = .ok instr) :
    s.step = match s.advancePc.execute instr with
      | .error f t => .error f t
      | .ok () t => .ok (!t.halted) { t with cycles := t.cycles + 1 } := by
  have hf : s.fetch = .ok instr s.advancePc := fetch_eq_ok.mpr ⟨hread, rfl⟩
  cases he : s.advancePc.execute instr with
  | error f t => simp [step, hs, hf, he]
  | ok v t => simp [step, hs, hf, he]

/-- What a running CPU does in a step that returns. -/
theorem step_eq_ok {s t : CortexM0} {b : Bool} (hs : s.halted = false) :
    s.step = .ok b t ↔ ∃ instr u, s.mem.read16 s.pc = .ok instr ∧
      s.advancePc.execute instr = .ok () u ∧ t = { u with cycles := u.cycles + 1 } ∧
      b = !u.halted := by
  constructor
  · intro h
    unfold step at h
    rw [if_neg (by simp [hs])] at h
    split at h
    case h_1 => cases h
    case h_2 instr u hf =>
      obtain ⟨hread, rfl⟩ := fetch_eq_ok.mp hf
      split at h
      case h_1 => cases h
      case h_2 v he =>
        cases h
        exact ⟨instr, v, hread, he, rfl, rfl⟩
  · rintro ⟨instr, u, hread, he, rfl, rfl⟩
    rw [step_of_fetch hs hread, he]

/-- `step` returns whether the CPU can go on. -/
theorem step_ok_flag {s t : CortexM0} {b : Bool} (h : s.step = .ok b t) : b = !t.halted := by
  cases hs : s.halted with
  | true =>
    rw [step_of_halted hs] at h
    cases h
    rw [hs]
    rfl
  | false =>
    obtain ⟨instr, u, -, -, rfl, rfl⟩ := (step_eq_ok hs).mp h
    rfl

/-- A step of a running CPU that returns counts one cycle. -/
theorem step_cycles {s t : CortexM0} {b : Bool} (hs : s.halted = false) (h : s.step = .ok b t) :
    t.cycles = s.cycles + 1 := by
  obtain ⟨instr, u, -, he, rfl, -⟩ := (step_eq_ok hs).mp h
  have hu := execute_cycles s.advancePc instr
  rw [he] at hu
  exact congrArg (· + 1) hu

/-- A core that is halted stays as it is. -/
theorem steps_of_halted {s : CortexM0} (h : s.halted = true) (n : Nat) :
    steps n s = some s := by
  induction n with
  | zero => rfl
  | succ n ih =>
    rw [steps, step_of_halted h]
    exact ih

/-! ### Runs -/

/-- Where a run ends does not depend on the count it starts with. -/
theorem runLoop_add (n k : Nat) (s : CortexM0) :
    runLoop n k s = match runLoop n 0 s with
      | .error f t => .error f t
      | .ok l t => .ok (k + l) t := by
  induction n generalizing k s with
  | zero => rfl
  | succ n ih =>
    rw [runLoop, runLoop]
    cases hs : s.step with
    | error f t => rfl
    | ok b t =>
      cases b with
      | false => rfl
      | true =>
        dsimp only
        rw [ih (k + 1), ih (0 + 1)]
        cases runLoop n 0 t with
        | error f u => rfl
        | ok l u =>
          dsimp only
          rw [show k + 1 + l = k + (0 + 1 + l) by omega]

/-- No steps. -/
theorem run_zero (s : CortexM0) : s.run 0 = .ok 0 s := rfl

/-- A core that is halted executes nothing. -/
theorem run_of_halted {s : CortexM0} (h : s.halted = true) (n : Nat) : s.run n = .ok 0 s := by
  cases n with
  | zero => rfl
  | succ n => rw [run, runLoop, step_of_halted h]

/-- A run begins with a step, and goes on if the step says so. -/
theorem run_succ (s : CortexM0) (n : Nat) :
    s.run (n + 1) = match s.step with
      | .error f t => .error f t
      | .ok false t => .ok 0 t
      | .ok true t => match t.run n with
        | .error f u => .error f u
        | .ok l u => .ok (1 + l) u := by
  rw [run, runLoop]
  cases hs : s.step with
  | error f t => rfl
  | ok b t =>
    cases b with
    | false => rfl
    | true => exact runLoop_add n 1 t

/-- A run that returns begins with the step that halts the CPU, or with one after which it is still
running. -/
theorem run_succ_cases {s t : CortexM0} {n k : Nat} (h : s.run (n + 1) = .ok k t) :
    (s.step = .ok false t ∧ t.halted = true ∧ k = 0) ∨
    ∃ u l, s.step = .ok true u ∧ u.halted = false ∧ u.run n = .ok l t ∧ k = l + 1 := by
  rw [run_succ] at h
  cases hu : s.step with
  | error f u =>
    rw [hu] at h
    cases h
  | ok go u =>
    have hgo := step_ok_flag hu
    rw [hu] at h
    cases go with
    | false =>
      cases h
      exact .inl ⟨rfl, by simpa using hgo, rfl⟩
    | true =>
      dsimp only at h
      cases hr : u.run n with
      | error f v =>
        rw [hr] at h
        cases h
      | ok l v =>
        rw [hr] at h
        cases h
        exact .inr ⟨u, l, rfl, by simpa using hgo, hr, Nat.add_comm 1 l⟩

/-- A run of `a + b` steps is a run of `a` steps and then one of `b`. If the first one halts
the second does nothing. -/
theorem run_append (s : CortexM0) (a b : Nat) :
    s.run (a + b) = match s.run a with
      | .error f t => .error f t
      | .ok k t => match t.run b with
        | .error f u => .error f u
        | .ok l u => .ok (k + l) u := by
  induction a generalizing s with
  | zero =>
    rw [Nat.zero_add, run_zero]
    dsimp only
    cases s.run b with
    | error f u => rfl
    | ok l u =>
      dsimp only
      rw [Nat.zero_add]
  | succ a ih =>
    rw [Nat.succ_add, run_succ, run_succ]
    cases hs : s.step with
    | error f t => rfl
    | ok go t =>
      cases go with
      | false =>
        have ht : t.halted = true := by simpa using step_ok_flag hs
        dsimp only
        rw [run_of_halted ht]
      | true =>
        dsimp only
        rw [ih t]
        cases t.run a with
        | error f u => rfl
        | ok k u =>
          dsimp only
          cases u.run b with
          | error f v => rfl
          | ok l v =>
            dsimp only
            rw [Nat.add_assoc]

/-- `run` ends where the steps lead, and throws when one of them does. -/
theorem run_eq_ok (s t : CortexM0) (n : Nat) : steps n s = some t ↔ ∃ k, s.run n = .ok k t := by
  induction n generalizing s with
  | zero =>
    rw [steps, run_zero]
    constructor
    · intro h
      cases h
      exact ⟨0, rfl⟩
    · rintro ⟨k, h⟩
      cases h
      rfl
  | succ n ih =>
    rw [steps, run_succ]
    cases hs : s.step with
    | error f u => simp
    | ok go u =>
      dsimp only
      cases go with
      | false =>
        have hu : u.halted = true := by simpa using step_ok_flag hs
        rw [steps_of_halted hu]
        simp
      | true =>
        dsimp only
        rw [ih u]
        cases u.run n with
        | error f v => simp
        | ok l v => simp

/-- A run counts at most its limit; it counts less when, and only when, the CPU halts. -/
theorem run_count {s t : CortexM0} {n k : Nat} (hs : s.halted = false) (h : s.run n = .ok k t) :
    k ≤ n ∧ (k < n ↔ t.halted = true) := by
  induction n generalizing s k with
  | zero =>
    rw [run_zero] at h
    cases h
    simp [hs]
  | succ n ih =>
    rcases run_succ_cases h with ⟨-, ht, rfl⟩ | ⟨u, l, -, hrun, hrest, rfl⟩
    · simp [ht]
    · obtain ⟨hle, hiff⟩ := ih hrun hrest
      constructor
      · omega
      · rw [← hiff]
        omega

/-- One step and then `k` more, in cycles. -/
theorem cycles_succ (c : BitVec 64) (k : Nat) :
    c + 1 + BitVec.ofNat 64 k = c + BitVec.ofNat 64 (k + 1) := by
  rw [BitVec.add_assoc, show (1 : BitVec 64) = BitVec.ofNat 64 1 from rfl, BitVec.ofNat_add_ofNat,
    Nat.add_comm]

/-- A run that does not halt counts one cycle for each step. -/
theorem run_cycles {s t : CortexM0} {n k : Nat} (hs : s.halted = false) (h : s.run n = .ok k t)
    (ht : t.halted = false) : t.cycles = s.cycles + BitVec.ofNat 64 n := by
  induction n generalizing s k with
  | zero =>
    rw [run_zero] at h
    cases h
    simp
  | succ n ih =>
    rcases run_succ_cases h with ⟨-, hhalt, -⟩ | ⟨u, l, hstep, hrun, hrest, -⟩
    · rw [ht] at hhalt
      cases hhalt
    · rw [ih hrun hrest, step_cycles hs hstep, cycles_succ]

end CortexM0

end McuSimulator.Cpu
