import McuSimulator.Cpu.Disassembler
import McuSimulator.Cpu.Trace
import McuSimulator.Loader.Corruption

/-!
# The tracer

`Tracer` of `src/trace.h`: a callback that prints a line for each instruction that is fetched, to
the tracer that was attached last. A stream is the list of its characters. The lines of a run read
back to the addresses and opcodes that its steps fetch.
-/

namespace McuSimulator.Sim

open McuSimulator.Base McuSimulator.Cpu McuSimulator.Loader

/-! ### Printing -/

/-- The tracers by number: what each has printed, and `active_`; src/trace.h:22–37, 169. -/
structure Tracers where
  active : Option Nat
  out : Nat → List Char

/-- What `print` prints, up to the newline; src/trace.h:179–181. -/
def traceLine (pc : BitVec 32) (opcode : BitVec 16) (disasm : String) : List Char :=
  [' ', ' ', '0', 'x'] ++ hexPadded 4 pc.toNat ++ [' ', ' '] ++ hexPadded 4 opcode.toNat ++
    [' ', ' '] ++ disasm.toList

namespace Tracers

/-- `attach`; src/trace.h:173–176. -/
def attach (w : Tracers) (tracer : Nat) : Tracers := { w with active := some tracer }

/-- `print`; src/trace.h:178–182. -/
def print (w : Tracers) (tracer : Nat) (pc : BitVec 32) (opcode : BitVec 16) (disasm : String) :
    Tracers :=
  { w with
    out := Function.update w.out tracer (w.out tracer ++ (traceLine pc opcode disasm ++ ['\n'])) }

/-- `trace_cb`; src/trace.h:184–189. -/
def traceCb : TraceCallback Tracers := fun pc opcode w ↦
  match w.active with
  | some tracer => w.print tracer pc opcode (disassemble pc opcode)
  | none => w

end Tracers

/-- The lines for some fetches. -/
def traceText (xs : List (BitVec 32 × BitVec 16)) : List Char :=
  xs.flatMap fun x ↦ traceLine x.1 x.2 (disassemble x.1 x.2) ++ ['\n']

private theorem traceText_cons (x : BitVec 32 × BitVec 16) (xs : List (BitVec 32 × BitVec 16)) :
    traceText (x :: xs) = traceLine x.1 x.2 (disassemble x.1 x.2) ++ '\n' :: traceText xs := by
  rw [traceText, List.flatMap_cons, List.append_assoc, List.singleton_append, ← traceText]

/-- The callback prints the lines of what it is told to the tracer that is attached. -/
theorem foldl_traceCb (w : Tracers) (tracer : Nat) (xs : List (BitVec 32 × BitVec 16)) :
    xs.foldl (fun w x ↦ Tracers.traceCb x.1 x.2 w) (w.attach tracer) =
      ⟨some tracer, Function.update w.out tracer (w.out tracer ++ traceText xs)⟩ := by
  induction xs generalizing w with
  | nil =>
    rw [traceText, List.flatMap_nil, List.append_nil, Function.update_eq_self]
    rfl
  | cons x xs ih =>
    have hprint : Tracers.traceCb x.1 x.2 (w.attach tracer) =
        (w.print tracer x.1 x.2 (disassemble x.1 x.2)).attach tracer := rfl
    rw [List.foldl_cons, hprint, ih, traceText_cons]
    simp [Tracers.print]

/-! ### Reading back -/

/-- The address and the opcode of a line. -/
def readLine (line : List Char) : BitVec 32 × BitVec 16 :=
  let pc := (line.drop 4).takeWhile (· ≠ ' ')
  let opcode := ((line.drop 4).drop (pc.length + 2)).takeWhile (· ≠ ' ')
  (BitVec.ofNat 32 (hexNat pc), BitVec.ofNat 16 (hexNat opcode))

/-- The addresses and opcodes of a text. -/
def readTrace (text : List Char) : List (BitVec 32 × BitVec 16) := (lines text).map readLine

/-- A padded number ends where a blank follows it. -/
theorem takeWhile_hexPadded (width n : Nat) (rest : List Char) :
    (hexPadded width n ++ ' ' :: rest).takeWhile (· ≠ ' ') = hexPadded width n := by
  have hdigits : ∀ c ∈ hexPadded width n, decide (c ≠ ' ') = true := by
    intro c hc
    rw [decide_eq_true_iff]
    rintro rfl
    exact absurd (isSome_hexValue_of_mem_hexPadded hc) (by decide)
  rw [List.takeWhile_append_of_pos hdigits, List.takeWhile_cons_of_neg (by decide),
    List.append_nil]

private theorem readLine_traceLine (pc : BitVec 32) (opcode : BitVec 16) (disasm : String) :
    readLine (traceLine pc opcode disasm) = (pc, opcode) := by
  have hdrop : (traceLine pc opcode disasm).drop 4 = hexPadded 4 pc.toNat ++
      ' ' :: ' ' :: (hexPadded 4 opcode.toNat ++ ' ' :: ' ' :: disasm.toList) := by
    simp [traceLine]
  have hopcode (rest : List Char) :
      (hexPadded 4 pc.toNat ++ ' ' :: ' ' :: rest).drop ((hexPadded 4 pc.toNat).length + 2) =
        rest := by
    rw [← List.drop_drop, List.drop_left]
    rfl
  rw [readLine, hdrop, takeWhile_hexPadded, hopcode, takeWhile_hexPadded, hexNat_hexPadded,
    hexNat_hexPadded, BitVec.ofNat_toNat, BitVec.ofNat_toNat, BitVec.setWidth_eq,
    BitVec.setWidth_eq]

/-! ### The disassembly is on one line -/

section OneLine

private theorem newline_mem_ite {p : Prop} [Decidable p] {s t : String} :
    '\n' ∈ (if p then s else t).toList ↔ p ∧ '\n' ∈ s.toList ∨ ¬ p ∧ '\n' ∈ t.toList := by
  split <;> simp [*]

/-- A name from a table of names without newlines has none. -/
theorem newline_not_mem_getD {names : List String} {default : String}
    (h : ∀ s ∈ default :: names, '\n' ∉ s.toList) (i : Nat) :
    '\n' ∉ (names.getD i default).toList := by
  rw [List.getD_eq_getElem?_getD]
  cases hi : names[i]? with
  | none => exact h default List.mem_cons_self
  | some s => exact h s (List.mem_cons_of_mem _ (List.mem_of_getElem? hi))

private theorem newline_not_mem_fmtReg (r : Nat) : '\n' ∉ (fmtReg r).toList :=
  newline_not_mem_getD (by decide +kernel) r

private theorem newline_not_mem_condName (c : Nat) : '\n' ∉ (condName c).toList :=
  newline_not_mem_getD (by decide +kernel) c

private theorem newline_not_mem_foldl (rlist : BitVec 8) (is : List Nat) (s : String) (first : Bool)
    (h : '\n' ∉ s.toList) :
    '\n' ∉ (is.foldl (fun (s, first) i ↦
      if rlist.getLsbD i then ((if !first then s ++ "," else s) ++ fmtReg i, false)
      else (s, first)) (s, first)).1.toList := by
  induction is generalizing s first with
  | nil => exact h
  | cons i is ih =>
    rw [List.foldl_cons]
    dsimp only
    split
    · apply ih
      simp [newline_mem_ite, newline_not_mem_fmtReg, h]
    · exact ih _ _ h

private theorem newline_not_mem_fmtReglist (rlist : BitVec 8) :
    '\n' ∉ (fmtReglist rlist).toList := by
  have hloop := newline_not_mem_foldl rlist (List.range 8) "\x7b" true (by decide +kernel)
  rw [fmtReglist, String.toList_append, List.mem_append]
  exact not_or.mpr ⟨hloop, by decide +kernel⟩

private theorem newline_not_mem_hexUpper (n : Nat) : '\n' ∉ (hexUpper n).toList := fun h ↦
  absurd (isSome_hexValue_of_mem_hexUpper h) (by decide)

private theorem newline_not_mem_toHex (v : BitVec 16) : '\n' ∉ (toHex v).toList := by
  intro h
  rw [toHex, String.toList_ofList] at h
  obtain ⟨i, -, hi⟩ := List.mem_map.mp h
  have hall : ∀ d : Fin 16, Memory.upperDigit d.val ≠ '\n' := by decide
  exact hall ⟨_, Nat.mod_lt _ (by decide)⟩ hi

/-- The text of an instruction is on one line. -/
theorem newline_not_mem_disassemble (pc : BitVec 32) (instr : BitVec 16) :
    '\n' ∉ (disassemble pc instr).toList := by
  have hshift := newline_not_mem_getD (show ∀ s ∈ ["lsl", "lsl", "lsr", "asr"], '\n' ∉ s.toList by
    decide +kernel)
  have himm := newline_not_mem_getD (show ∀ s ∈ ["", "mov", "cmp", "add", "sub"],
    '\n' ∉ s.toList by decide +kernel)
  have halu := newline_not_mem_getD (show ∀ s ∈ "" :: aluNames, '\n' ∉ s.toList by decide +kernel)
  have hhi := newline_not_mem_getD (show ∀ s ∈ ["", "add", "cmp", "mov", "bx"], '\n' ∉ s.toList by
    decide +kernel)
  unfold disassemble
  cases printFormat instr <;>
    simp [-List.getD_eq_getElem?_getD, PrintFormat.print, fmtExtra, newline_mem_ite,
      newline_not_mem_fmtReg, newline_not_mem_hexUpper, newline_not_mem_condName,
      newline_not_mem_fmtReglist, newline_not_mem_toHex, hshift, himm, halu, hhi]

end OneLine

private theorem newline_not_mem_hexPadded (width n : Nat) : '\n' ∉ hexPadded width n := fun h ↦
  absurd (isSome_hexValue_of_mem_hexPadded h) (by decide)

private theorem newline_not_mem_traceLine (pc : BitVec 32) (opcode : BitVec 16) :
    '\n' ∉ traceLine pc opcode (disassemble pc opcode) := by
  simp [traceLine, newline_not_mem_hexPadded, newline_not_mem_disassemble]

/-- The lines for some fetches read back to them. -/
theorem readTrace_traceText (xs : List (BitVec 32 × BitVec 16)) :
    readTrace (traceText xs) = xs := by
  induction xs with
  | nil => rfl
  | cons x xs ih =>
    rw [readTrace, traceText_cons, lines_append_newline (newline_not_mem_traceLine x.1 x.2),
      List.map_cons, readLine_traceLine]
    exact congrArg _ ih

/-! ### Traced runs -/

/-- A trace changes nothing but the stream of the tracer that was attached last, and says all that
the run did: the run ends as it does without, and the lines printed read back, in order, to the
address and the opcode of every step that fetches one, the step that halts or throws included. A run
that returns has counted one cycle for each line. -/
theorem trace_reads_back (w : Tracers) (tracer : Nat) (s : CortexM0) (n : Nat) :
    ∃ text : List Char,
      s.runTraced (some Tracers.traceCb) n (w.attach tracer) =
        (s.run n, ⟨some tracer, Function.update w.out tracer (w.out tracer ++ text)⟩) ∧
      (∀ i, (readTrace text)[i]? =
        if i < n then (CortexM0.steps i s).bind CortexM0.fetched else none) ∧
      traceText (readTrace text) = text ∧
      ∀ k t, s.run n = .ok k t →
        t.cycles = s.cycles + BitVec.ofNat 64 (readTrace text).length := by
  refine ⟨traceText (CortexM0.fetches n s), ?_, ?_, ?_, ?_⟩
  · rw [CortexM0.runTraced_eq, CortexM0.told, foldl_traceCb]
  · rw [readTrace_traceText]
    exact fun i ↦ CortexM0.fetches_getElem? n i s
  · rw [readTrace_traceText]
  · rw [readTrace_traceText]
    exact fun k t h ↦ CortexM0.cycles_eq_length_fetches h

end McuSimulator.Sim
