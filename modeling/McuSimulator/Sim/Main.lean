import McuSimulator.Loader.Image
import McuSimulator.Sim.RunOne
import McuSimulator.Sim.Tracer

/-!
# The command-line program

`run_simulation` and `dump_registers` of `src/main.cpp`, from a parsed configuration to the two
standard streams and the exit status. A stream is the list of its characters, a file the list of its
bytes. What the program reports does not depend on how the firmware is packed, and it is what
`run_one` collects for the same instructions.
-/

namespace McuSimulator.Sim

open McuSimulator.Base McuSimulator.Memory McuSimulator.Cpu McuSimulator.Loader

/-! ### The program -/

/-- `Config`; src/main.cpp:13–19. -/
structure Config where
  binaryPath : String := ""
  ihexPath : String := ""
  trace : Bool := false
  steps : BitVec 64 := 100000
  loadAddr : BitVec 32 := 0

/-- What the program leaves: standard output, standard error and whether it returns
`EXIT_SUCCESS`. -/
structure Report where
  out : List Char
  err : List Char
  success : Bool

/-- The files that can be opened, by path. -/
abbrev Files := String → Option (List Byte)

/-- The characters of a file. -/
def textOf (bytes : List Byte) : List Char := bytes.map fun b ↦ Char.ofNat b.toNat

/-- One register of the dump; src/main.cpp:38–39. -/
def dumpRegister (regs : RegIndex → BitVec 32) (i : Nat) : String :=
  "  " ++ String.ofList ((fmtReg i).toList.rightpad 4 ' ') ++ " = 0x" ++
    Memory.toHex (regs (BitVec.ofNat 4 i))

/-- A flag, as `%d` prints it. -/
def flagDigit (b : Bool) : String := if b then "1" else "0"

/-- `dump_registers`, of what it reads from the CPU; src/main.cpp:30–46. -/
def dumpRegisters (regs : RegIndex → BitVec 32) (f : Apsr) (cycles : BitVec 64) : List Char :=
  ("\n── Registers ────────────────────────────────\n" ++
    String.join ((List.range 4).map fun i ↦
      String.join ((List.range 4).map fun j ↦ dumpRegister regs (4 * i + j)) ++ "\n") ++
    "  APSR: N=" ++ flagDigit f.n ++ " Z=" ++ flagDigit f.z ++ " C=" ++ flagDigit f.c ++ " V=" ++
    flagDigit f.v ++ "\n" ++ "  Cycles: " ++ toString cycles.toNat ++ "\n").toList

/-- `dump_registers`. -/
def dump (s : CortexM0) : List Char := dumpRegisters s.regs s.apsr s.cycles

/-- The line that counts the steps; src/main.cpp:75–76. -/
def doneLine (executed : Nat) : List Char :=
  ("\nDone: " ++ toString executed ++ " steps executed.\n").toList

/-- The handlers of what the simulator throws; src/main.cpp:78–85. -/
def caught (out : List Char) (s : CortexM0) : Fault → Report
  | .busFault f => ⟨out ++ dump s, ("\n[FAULT] " ++ f.what ++ "\n").toList, false⟩
  | .undefinedInstruction opcode =>
    ⟨out ++ dump s,
      ("\n[SIM ERROR] " ++ (Fault.undefinedInstruction opcode).what ++ "\n").toList, false⟩

namespace Config

variable (past : Past) (files : Files) (cfg : Config)

/-- The call of the loader; src/main.cpp:55–63. -/
def load : Except LoadError (BitVec 32) × FlatMemoryBus :=
  if cfg.binaryPath.isEmpty then
    loadIhex past .clear cfg.ihexPath ((files cfg.ihexPath).map textOf)
  else loadBinary .clear cfg.binaryPath (files cfg.binaryPath) cfg.loadAddr

/-- What is printed after it; src/main.cpp:57–58, 61–62. -/
def loadedLine (entry : BitVec 32) : List Char :=
  (if cfg.binaryPath.isEmpty then
    "Loaded HEX '" ++ cfg.ihexPath ++ "', entry=0x" ++ Memory.toHex entry ++ "\n"
  else
    "Loaded binary '" ++ cfg.binaryPath ++ "' at 0x" ++
      String.ofList ((hexPadded 4 cfg.loadAddr.toNat).map Char.toUpper) ++ "\n").toList

/-- What is printed before a trace; src/main.cpp:68. -/
def traceHeader : List Char :=
  if cfg.trace then "\n── Trace ─────────────────────────────────────\n".toList else []

/-- The rest of the `try` block and the handlers; src/main.cpp:66–85. -/
def simulate (out : List Char) (s : CortexM0) : Report :=
  let tracers : Tracers := ⟨none, fun _ ↦ []⟩
  let (r, tracers) :=
    if cfg.trace then s.runTraced (some Tracers.traceCb) cfg.steps.toNat (tracers.attach 0)
    else s.runTraced none cfg.steps.toNat tracers
  let out := out ++ cfg.traceHeader ++ tracers.out 0
  match r with
  | .ok executed s => ⟨out ++ doneLine executed ++ dump s, [], true⟩
  | .error f s => caught out s f

/-- A message as `e.what()` is printed: a NUL ends it. -/
def whatText (message : String) : String :=
  String.ofList (message.toList.takeWhile fun c ↦ c ≠ Char.ofNat 0)

/-- `run_simulation`; a load whose behaviour is undefined has no report; src/main.cpp:49–91. -/
def runSimulation : Option Report :=
  match cfg.load past files with
  | (.ok entry, mem) =>
    some (cfg.simulate (cfg.loadedLine entry) ((CortexM0.new mem).setReg .pc (entry &&& ~~~1)))
  | (.error (.busFault f), mem) => some (caught [] (CortexM0.new mem) (.busFault f))
  | (.error (.loaderError message), _) =>
    some ⟨[], ("\n[ERROR] " ++ whatText message ++ "\n").toList, false⟩
  | (.error (.outOfRange _), _) => none

variable {cfg}

/-- The lines of the trace, if there is one. -/
def tracedLines (cfg : Config) (s : CortexM0) : List Char :=
  if cfg.trace then traceText (CortexM0.fetches cfg.steps.toNat s) else []

/-- What is reported is what a run comes to. -/
theorem simulate_eq (cfg : Config) (out : List Char) (s : CortexM0) :
    cfg.simulate out s = match s.run cfg.steps.toNat with
      | .ok executed t =>
        ⟨out ++ cfg.traceHeader ++ cfg.tracedLines s ++ doneLine executed ++ dump t, [], true⟩
      | .error f t => caught (out ++ cfg.traceHeader ++ cfg.tracedLines s) t f := by
  unfold simulate tracedLines
  cases cfg.trace with
  | false =>
    simp only [Bool.false_eq_true, if_false, CortexM0.runTraced_eq]
    cases s.run cfg.steps.toNat <;> rfl
  | true =>
    simp only [if_true, CortexM0.runTraced_eq, CortexM0.told, foldl_traceCb, Function.update_self,
      List.nil_append]

/-- What was printed before stays in front. -/
theorem simulate_out (cfg : Config) (out : List Char) (s : CortexM0) :
    cfg.simulate out s =
      { cfg.simulate [] s with out := out ++ (cfg.simulate [] s).out } := by
  rw [simulate_eq, simulate_eq]
  cases s.run cfg.steps.toNat with
  | ok executed t => simp
  | error f t => cases f <;> simp [caught]

end Config

/-! ### However the firmware is packed -/

/-- A HEX file of an image, however it is cut into records and in whatever order they are, is
simulated as the image is as a binary file: the program prints the same but for the line that names
the file, on both streams and with the same exit status, traced or not and for every number of
steps. -/
theorem runSimulation_hex_eq_binary (past : Past) (files : Files) (cfg : Config)
    (binary hex : String) (addr : BitVec 32) (image text : List Byte) (rs : List Record)
    (hname : binary ≠ "") (hbinary : files binary = some image) (hhex : files hex = some text)
    (hne : image ≠ []) (hw : FlatMemoryBus.InWindow addr image.length)
    (himage : Describes (textOf text) rs addr image)
    (hentry : lastStart 0 rs &&& ~~~1 = addr &&& ~~~1) :
    let fromBinary := { cfg with binaryPath := binary, loadAddr := addr }
    let fromHex := { cfg with binaryPath := "", ihexPath := hex }
    ∃ out err success,
      fromBinary.runSimulation past files =
        some ⟨fromBinary.loadedLine addr ++ out, err, success⟩ ∧
      fromHex.runSimulation past files =
        some ⟨fromHex.loadedLine (lastStart 0 rs) ++ out, err, success⟩ := by
  intro fromBinary fromHex
  let mem := FlatMemoryBus.pokes .clear addr image
  have hb : fromBinary.load past files = (.ok addr, mem) := by
    have hempty : ¬ binary.isEmpty := by simpa using hname
    rw [Config.load, if_neg hempty, hbinary, loadBinary_eq hne hw]
  have hh : fromHex.load past files = (.ok (lastStart 0 rs), mem) := by
    have hempty : "".isEmpty := by decide +kernel
    rw [Config.load, if_pos hempty, hhex]
    exact himage.loadIhex_eq hw past .clear hex
  let s := (CortexM0.new mem).setReg .pc (addr &&& ~~~1)
  have hsame : fromHex.simulate [] s = fromBinary.simulate [] s := by
    rw [Config.simulate_eq, Config.simulate_eq]
    rfl
  refine ⟨(fromBinary.simulate [] s).out, (fromBinary.simulate [] s).err,
    (fromBinary.simulate [] s).success, ?_, ?_⟩
  · rw [Config.runSimulation, hb]
    exact congrArg some (Config.simulate_out fromBinary _ s)
  · rw [Config.runSimulation, hh]
    dsimp only
    rw [hentry, Config.simulate_out, hsame]

/-- `MOV r0, #1` and `BX lr`. -/
def returnOne : List Byte := [0x01, 0x20, 0x70, 0x47]

private theorem known_data : (0 : Byte) = 0 ∨ (0 : Byte) = 1 ∨ (0 : Byte) = 2 ∨ (0 : Byte) = 4 ∨
    (0 : Byte) = 5 := .inl rfl

private theorem base_count_pair : (0 : Byte) = 2 ∨ (0 : Byte) = 4 → (2 : Byte) = 2 := fun _ ↦ rfl

private theorem start_count_pair : (0 : Byte) = 5 → (2 : Byte) = 4 := by decide

/-- A data record of two bytes. -/
def pairRecord (addr a b checksum : Byte)
    (h : ((2 : Byte) :: 0 :: addr :: 0 :: ([a, b] ++ [checksum])).sum = 0) : Record where
  count := 2
  addrHi := 0
  addrLo := addr
  recType := 0
  data := [a, b]
  checksum := checksum
  length_data := rfl
  sum_eq_zero := h
  known := known_data
  base_count := base_count_pair
  start_count := start_count_pair

/-- The second instruction first. -/
def returnOneRecords : List Record :=
  [pairRecord 0x02 0x70 0x47 0x45 (by decide), pairRecord 0x00 0x01 0x20 0xDD (by decide)]

def returnOneHex : List Byte :=
  ":02000200704745\n:020000000120DD\n:00000001FF\n".toList.map fun c ↦ BitVec.ofNat 8 c.toNat

private theorem returnOneHex_describes :
    Describes (textOf returnOneHex) returnOneRecords 0 returnOne where
  spelled := ⟨[":02000200704745".toList, ":020000000120DD".toList], ":00000001FF".toList, [],
    eofRecord, by decide +kernel,
    .record ⟨"02000200704745".toList, by decide +kernel, by decide +kernel⟩
      (.record ⟨"020000000120DD".toList, by decide +kernel, by decide +kernel⟩ .nil),
    ⟨"00000001FF".toList, by decide +kernel, by decide +kernel⟩, rfl⟩
  no_eof := by decide
  pieces := by
    have hcuts : Cuts 0 ([0x01, 0x20] ++ ([0x70, 0x47] ++ []))
        [(0, [0x01, 0x20]), (byteAddr 0 2, [0x70, 0x47])] :=
      .cons (List.cons_ne_nil _ _) (.cons (List.cons_ne_nil _ _) (.nil _))
    exact ⟨_, .swap _ _ _, hcuts⟩

/-- The two files of a short program. -/
theorem runSimulation_hex_eq_binary_returnOne :
    let files : Files := fun path ↦ if path = "a.bin" then some returnOne else some returnOneHex
    let fromBinary : Config := { binaryPath := "a.bin", trace := true, steps := 10 }
    let fromHex : Config := { ihexPath := "a.hex", trace := true, steps := 10 }
    ∃ out err success,
      fromBinary.runSimulation (fun _ _ ↦ none) files =
        some ⟨fromBinary.loadedLine 0 ++ out, err, success⟩ ∧
      fromHex.runSimulation (fun _ _ ↦ none) files =
        some ⟨fromHex.loadedLine (lastStart 0 returnOneRecords) ++ out, err, success⟩ :=
  runSimulation_hex_eq_binary (fun _ _ ↦ none)
    (fun path ↦ if path = "a.bin" then some returnOne else some returnOneHex)
    { trace := true, steps := 10 } "a.bin" "a.hex" 0 returnOne returnOneHex returnOneRecords
    (by decide +kernel) (by decide +kernel) (by decide +kernel) (by decide +kernel)
    (by decide +kernel) returnOneHex_describes (by decide +kernel)

/-! ### The program and the runner -/

/-- Instructions as the bytes of a file. -/
def imageOf (instructions : List (BitVec 16)) : List Byte :=
  instructions.flatMap (toLittleEndian 2)

private theorem length_imageOf (instructions : List (BitVec 16)) :
    (imageOf instructions).length = 2 * instructions.length := by
  induction instructions with
  | nil => rfl
  | cons instr rest ih =>
    rw [imageOf, List.flatMap_cons, List.length_append, length_toLittleEndian, ← imageOf, ih,
      List.length_cons]
    omega

/-- Instructions that fit are stored as their image is. -/
theorem loadInstructions_eq (instructions : List (BitVec 16)) {addr : BitVec 32} (s : CortexM0)
    (h : addr.toNat + 2 * instructions.length ≤ size) :
    loadInstructions instructions addr s =
      .ok () { s with mem := s.mem.pokes addr (imageOf instructions) } := by
  induction instructions generalizing addr s with
  | nil => rfl
  | cons instr rest ih =>
    rw [List.length_cons] at h
    have hlen : (toLittleEndian 2 instr).length = 2 := length_toLittleEndian ..
    have hw : FlatMemoryBus.InWindow addr (toLittleEndian 2 instr).length := by
      rw [hlen]
      exact .inl ⟨by omega, by omega⟩
    have hnext : (addr + 2).toNat = addr.toNat + 2 := by
      rw [BitVec.toNat_add, show (2 : BitVec 32).toNat = 2 from rfl]
      unfold size at h
      omega
    have himage : imageOf (instr :: rest) = toLittleEndian 2 instr ++ imageOf rest :=
      List.flatMap_cons ..
    rw [loadInstructions, FlatMemoryBus.write16, FlatMemoryBus.load_eq_pokes _ hw,
      CortexM0.bus_ok, ih _ (by omega), himage, pokes_append, hlen]
    rfl

/-- The reset sequence of a task with the usual stack pointer is a new CPU at address 0. -/
theorem resetSequence_eq {task : SimTask} (hsp : task.initialSp = CortexM0.resetSp)
    (mem : FlatMemoryBus) :
    task.resetSequence { CortexM0.new .clear with mem := mem } =
      (CortexM0.new mem).setReg .pc (0 &&& ~~~1) := by
  ext1
  · funext r
    simp only [SimTask.resetSequence, hsp, CortexM0.setReg_regs, CortexM0.reset, CortexM0.new,
      Function.update_apply]
    split_ifs <;> simp_all [RegIndex.sp, RegIndex.lr, RegIndex.pc]
  all_goals rfl

/-- The `try` block of a task that fits runs a new CPU on its image. -/
theorem tryBlock_eq_run {task : SimTask} (hsp : task.initialSp = CortexM0.resetSp)
    (hfit : 2 * task.instructions.length ≤ size) :
    task.tryBlock =
      match ((CortexM0.new (FlatMemoryBus.pokes .clear 0 (imageOf task.instructions))).setReg .pc
          (0 &&& ~~~1)).run task.maxSteps.toNat with
      | .error f t => .error f t
      | .ok k t => .ok (decide (k < task.maxSteps.toNat)) t := by
  rw [SimTask.tryBlock, loadInstructions_eq _ _ (by simpa using hfit), ← resetSequence_eq hsp]
  rfl

/-- The report shows a result: the same registers and cycle count and, if nothing was thrown,
whether the CPU halted in time, and otherwise the same message. -/
def Report.Shows (rep : Report) (r : SimResult) (steps : Nat) : Prop :=
  ∃ before flags,
    rep.out = before ++ dumpRegisters r.finalRegs flags r.cycles ∧
    (r.exceptionMsg = "" ∧ rep.success = true ∧ rep.err = [] ∧
        (∃ start executed, before = start ++ doneLine executed ∧
          (r.completed = true ↔ executed < steps)) ∨
      r.exceptionMsg ≠ "" ∧ rep.success = false ∧ ∃ tag ∈ ["\n[FAULT] ", "\n[SIM ERROR] "],
        rep.err = (tag ++ r.exceptionMsg ++ "\n").toList)

/-- The command-line program and the parallel runner agree: for the same instructions, as a file
and as a task, with the same number of steps, the program reports what `run_one` collects. -/
theorem runSimulation_shows_result (past : Past) (files : Files) (cfg : Config) (task : SimTask)
    (hname : cfg.binaryPath ≠ "")
    (hfile : files cfg.binaryPath = some (imageOf task.instructions)) (haddr : cfg.loadAddr = 0)
    (hsteps : cfg.steps = task.maxSteps) (hsp : task.initialSp = CortexM0.resetSp)
    (hne : task.instructions ≠ []) (hfit : 2 * task.instructions.length ≤ size) :
    ∃ rep, cfg.runSimulation past files = some rep ∧ rep.Shows task.result cfg.steps.toNat := by
  let mem := FlatMemoryBus.pokes .clear 0 (imageOf task.instructions)
  let s := (CortexM0.new mem).setReg .pc (0 &&& ~~~1)
  have hlen := length_imageOf task.instructions
  have hpos : 0 < task.instructions.length := List.length_pos_iff.mpr hne
  have hload : cfg.load past files = (.ok 0, mem) := by
    have hempty : ¬ cfg.binaryPath.isEmpty := by simpa using hname
    have himage : imageOf task.instructions ≠ [] := by
      rw [← List.length_pos_iff]
      omega
    have hw : FlatMemoryBus.InWindow 0 (imageOf task.instructions).length :=
      .inl ⟨by decide, by rw [hlen]; simpa using hfit⟩
    rw [Config.load, if_neg hempty, hfile, haddr, loadBinary_eq himage hw]
  have hrun : cfg.runSimulation past files =
      some (cfg.simulate (cfg.loadedLine 0) s) := by
    rw [Config.runSimulation, hload]
  refine ⟨_, hrun, ?_⟩
  rw [SimTask.result_eq, tryBlock_eq_run hsp hfit, Config.simulate_eq, hsteps]
  cases s.run task.maxSteps.toNat with
  | ok k t =>
    exact ⟨_, t.apsr, rfl, .inl ⟨rfl, rfl, rfl, _, k, rfl, decide_eq_true_iff⟩⟩
  | error f t =>
    have hmessage := SimTask.what_ne_empty f
    cases f with
    | busFault f =>
      exact ⟨_, t.apsr, rfl, .inr ⟨hmessage, rfl, _, List.mem_cons_self, rfl⟩⟩
    | undefinedInstruction opcode =>
      exact ⟨_, t.apsr, rfl,
        .inr ⟨hmessage, rfl, _, List.mem_cons_of_mem _ List.mem_cons_self, rfl⟩⟩

/-- The short program as a file and as a task. -/
theorem runSimulation_shows_result_returnOne :
    let files : Files := fun _ ↦ some (imageOf [0x2001, 0x4770])
    let cfg : Config := { binaryPath := "a.bin", steps := 10 }
    let task : SimTask := ⟨0, "", [0x2001, 0x4770], 10, 0x2000, true⟩
    ∃ rep, cfg.runSimulation (fun _ _ ↦ none) files = some rep ∧
      rep.Shows task.result cfg.steps.toNat :=
  runSimulation_shows_result (fun _ _ ↦ none) (fun _ ↦ some (imageOf [0x2001, 0x4770]))
    { binaryPath := "a.bin", steps := 10 } ⟨0, "", [0x2001, 0x4770], 10, 0x2000, true⟩
    (by decide +kernel) rfl rfl rfl rfl (by decide) (by decide)

end McuSimulator.Sim
