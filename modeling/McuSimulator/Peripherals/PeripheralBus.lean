import McuSimulator.Memory.FlatMemoryBus

/-!
# The peripheral bus

`PeripheralBus` of `src/peripherals/peripheral.h`: a table of address windows, searched from its
start for the window of an address. The end of a window is computed in 32 bits, so a window that
reaches the top of the address space has its end at or below its base, and is never found.
-/

namespace McuSimulator.Peripherals

universe u v

/-- `PeripheralError` and `AddressError`; src/peripherals/peripheral.h:14–24. -/
inductive PeripheralError where
  | error (msg : String)
  | addressError (address : BitVec 32)
  deriving DecidableEq, Repr

namespace PeripheralError

/-- `AddressError::to_hex`; src/peripherals/peripheral.h:25–29. -/
def toHex (v : BitVec 32) : String := Memory.toHex v

/-- `what()` of the exception. -/
def what : PeripheralError → String
  | error msg => "Peripheral error: " ++ msg
  | addressError address => "Peripheral error: unmapped address 0x" ++ toHex address

end PeripheralError

/-- `IPeripheral`, for all the peripherals behind the pointers `P`; `σ` is what they have for a
state together. A read may change it; src/peripherals/peripheral.h:47–54. -/
structure IPeripheral (P : Type u) (σ : Type v) where
  readReg : P → BitVec 32 → σ → σ × BitVec 32
  writeReg : P → BitVec 32 → BitVec 32 → σ → σ

namespace PeripheralBus

/-- `MAX_PERIPHERALS`; src/peripherals/peripheral.h:62. -/
def maxPeripherals : Nat := 8

/-- `Entry`; src/peripherals/peripheral.h:65–69. -/
structure Entry (P : Type u) where
  base : BitVec 32
  size : BitVec 32
  periph : P
  deriving DecidableEq, Repr

end PeripheralBus

/-- `PeripheralBus`: the entries in use; src/peripherals/peripheral.h:96–97. -/
structure PeripheralBus (P : Type u) where
  entries : List (PeripheralBus.Entry P) := []
  length_le : entries.length ≤ PeripheralBus.maxPeripherals := by exact Nat.zero_le _

namespace PeripheralBus

variable {P : Type u} {σ : Type v}

/-! ### The bus -/

/-- `attach`; src/peripherals/peripheral.h:72–77. -/
def attach (b : PeripheralBus P) (base : BitVec 32) (p : P) (size : BitVec 32) :
    Except PeripheralError Unit × PeripheralBus P :=
  if h : maxPeripherals ≤ b.entries.length then (.error (.error "too many peripherals"), b)
  else (.ok (), { entries := b.entries ++ [⟨base, size, p⟩], length_le := by simp; omega })

/-- The test of `find`; src/peripherals/peripheral.h:102. -/
def Entry.Matches (e : Entry P) (addr : BitVec 32) : Prop :=
  e.base ≤ addr ∧ addr < e.base + e.size

instance (e : Entry P) (addr : BitVec 32) : Decidable (e.Matches addr) :=
  inferInstanceAs (Decidable (_ ∧ _))

/-- `find`; src/peripherals/peripheral.h:99–106. -/
def find (b : PeripheralBus P) (addr : BitVec 32) : Option (Entry P) :=
  b.entries.find? (·.Matches addr)

/-- `read`; src/peripherals/peripheral.h:80–84. -/
def read (b : PeripheralBus P) (dev : IPeripheral P σ) (addr : BitVec 32) (w : σ) :
    Except PeripheralError (BitVec 32) × σ :=
  match b.find addr with
  | none => (.error (.addressError addr), w)
  | some e =>
    let (w, v) := dev.readReg e.periph (addr - e.base) w
    (.ok v, w)

/-- `write`; src/peripherals/peripheral.h:87–91. -/
def write (b : PeripheralBus P) (dev : IPeripheral P σ) (addr val : BitVec 32) (w : σ) :
    Except PeripheralError Unit × σ :=
  match b.find addr with
  | none => (.error (.addressError addr), w)
  | some e => (.ok (), dev.writeReg e.periph (addr - e.base) val w)

/-- `is_mapped`; src/peripherals/peripheral.h:93–95. -/
def isMapped (b : PeripheralBus P) (addr : BitVec 32) : Bool := (b.find addr).isSome

/-- A new bus after these calls of `attach`; those that throw leave it as it is. -/
def attachAll (calls : List (Entry P)) : PeripheralBus P :=
  calls.foldl (fun b e ↦ (b.attach e.base e.periph e.size).2) {}

/-! ### Attaching -/

private theorem attach_of_full {b : PeripheralBus P} (h : maxPeripherals ≤ b.entries.length)
    (base : BitVec 32) (p : P) (size : BitVec 32) :
    b.attach base p size = (.error (.error "too many peripherals"), b) :=
  dif_pos h

private theorem attach_entries (b : PeripheralBus P) (e : Entry P) :
    (b.attach e.base e.periph e.size).2.entries = (b.entries ++ [e]).take maxPeripherals := by
  have hle := b.length_le
  unfold attach
  split
  case isTrue h =>
    have hlen : b.entries.length = maxPeripherals := Nat.le_antisymm hle h
    exact (List.take_left' hlen).symm
  case isFalse h =>
    refine (List.take_of_length_le ?_).symm
    rw [List.length_append, List.length_singleton]
    omega

/-- The first calls fill the table. -/
theorem attachAll_entries (calls : List (Entry P)) :
    (attachAll calls).entries = calls.take maxPeripherals := by
  have hfold : ∀ (calls : List (Entry P)) (b : PeripheralBus P),
      (calls.foldl (fun b e ↦ (b.attach e.base e.periph e.size).2) b).entries =
        (b.entries ++ calls).take maxPeripherals := by
    intro calls
    induction calls with
    | nil =>
      intro b
      rw [List.foldl_nil, List.append_nil, List.take_of_length_le b.length_le]
    | cons e calls ih =>
      intro b
      rw [List.foldl_cons, ih, attach_entries, List.append_cons b.entries e calls]
      generalize b.entries ++ [e] = l
      rw [List.take_append, List.take_append, List.take_take, Nat.min_self, List.length_take]
      congr 2
      omega
  exact hfold calls {}

/-! ### Windows -/

/-- The address lies in the window, taken as an interval of numbers. -/
def Entry.Contains (e : Entry P) (addr : BitVec 32) : Prop :=
  e.base.toNat ≤ addr.toNat ∧ addr.toNat < e.base.toNat + e.size.toNat

instance (e : Entry P) (addr : BitVec 32) : Decidable (e.Contains addr) :=
  inferInstanceAs (Decidable (_ ∧ _))

/-- The window ends at the top of the address space or behind it. -/
def Entry.ReachesTop (e : Entry P) : Prop := 2 ^ 32 ≤ e.base.toNat + e.size.toNat

instance (e : Entry P) : Decidable e.ReachesTop := inferInstanceAs (Decidable (_ ≤ _))

/-- The distance of an address from the base. -/
def Entry.offset (e : Entry P) (addr : BitVec 32) : BitVec 32 :=
  BitVec.ofNat 32 (addr.toNat - e.base.toNat)

/-- The test of `find` sees the windows that end below the top, and no others. -/
theorem Entry.matches_iff (e : Entry P) (addr : BitVec 32) :
    e.Matches addr ↔ e.Contains addr ∧ ¬ e.ReachesTop := by
  have haddr := addr.isLt
  have hbase := e.base.isLt
  have hsize := e.size.isLt
  unfold Matches Contains ReachesTop
  rw [BitVec.le_def, BitVec.lt_def, BitVec.toNat_add]
  omega

private theorem Entry.sub_eq_offset {e : Entry P} {addr : BitVec 32} (h : e.Contains addr) :
    addr - e.base = e.offset addr := by
  have haddr := addr.isLt
  apply BitVec.eq_of_toNat_eq
  rw [Entry.offset, BitVec.toNat_sub, BitVec.toNat_ofNat]
  have hle := h.1
  omega

/-- Searching for less finds the same where what is found first is among the less. -/
theorem find?_eq_find?_iff {α : Type u} (p q : α → Bool) (l : List α) :
    l.find? (fun x ↦ p x && q x) = l.find? p ↔ ∀ x, l.find? p = some x → q x = true := by
  induction l with
  | nil => simp
  | cons a l ih =>
    rw [List.find?_cons, List.find?_cons]
    cases hp : p a with
    | false => exact ih
    | true =>
      cases hq : q a with
      | false =>
        simp only [Bool.and_false, Option.some.injEq, forall_eq', hq, Bool.false_eq_true, iff_false]
        intro hfind
        have hsome := List.find?_some hfind
        rw [hq, Bool.and_false] at hsome
        cases hsome
      | true => simp [hq]

/-! ### Dispatch -/

/-- The first attached entry whose window contains the address. -/
def firstContaining (b : PeripheralBus P) (addr : BitVec 32) : Option (Entry P) :=
  b.entries.find? (·.Contains addr)

/-- A read through an entry; without one it is an address error and touches nothing. -/
def readThrough (dev : IPeripheral P σ) (addr : BitVec 32) (w : σ) :
    Option (Entry P) → Except PeripheralError (BitVec 32) × σ
  | none => (.error (.addressError addr), w)
  | some e =>
    (.ok (dev.readReg e.periph (e.offset addr) w).2, (dev.readReg e.periph (e.offset addr) w).1)

/-- A write through an entry. -/
def writeThrough (dev : IPeripheral P σ) (addr val : BitVec 32) (w : σ) :
    Option (Entry P) → Except PeripheralError Unit × σ
  | none => (.error (.addressError addr), w)
  | some e => (.ok (), dev.writeReg e.periph (e.offset addr) val w)

/-- The accesses to the address reach the entry, at the distance from its base. -/
structure Reaches (b : PeripheralBus P) (dev : IPeripheral P σ) (addr : BitVec 32)
    (entry : Option (Entry P)) : Prop where
  find : b.find addr = entry
  read : ∀ w, b.read dev addr w = readThrough dev addr w entry
  write : ∀ val w, b.write dev addr val w = writeThrough dev addr val w entry
  isMapped : b.isMapped addr = entry.isSome

private theorem reaches_find (b : PeripheralBus P) (dev : IPeripheral P σ) (addr : BitVec 32) :
    b.Reaches dev addr (b.find addr) := by
  have hoffset : ∀ e, b.find addr = some e → addr - e.base = e.offset addr := by
    intro e he
    have hmatch : e.Matches addr := by simpa using List.find?_some he
    exact Entry.sub_eq_offset ((e.matches_iff addr).mp hmatch).1
  refine ⟨rfl, fun w ↦ ?_, fun val w ↦ ?_, rfl⟩
  · unfold PeripheralBus.read
    cases he : b.find addr with
    | none => rfl
    | some e =>
      dsimp only
      rw [hoffset e he, readThrough]
  · unfold PeripheralBus.write
    cases he : b.find addr with
    | none => rfl
    | some e =>
      dsimp only
      rw [hoffset e he, writeThrough]

private theorem find_eq_firstContaining_iff (b : PeripheralBus P) (addr : BitVec 32) :
    b.find addr = b.firstContaining addr ↔
      ∀ e, b.firstContaining addr = some e → ¬ e.ReachesTop := by
  have htest : ∀ e : Entry P, decide (e.Matches addr) =
      (decide (e.Contains addr) && decide (¬ e.ReachesTop)) := by
    intro e
    rw [← Bool.decide_and]
    exact decide_eq_decide.mpr (e.matches_iff addr)
  unfold find firstContaining
  simp only [htest, find?_eq_find?_iff, decide_eq_true_eq]

/-- After any calls of `attach`: the table has the first of them, a call beyond throws and changes
nothing, and an access reaches the first entry whose window contains the address exactly where
that window, if there is one, ends below the top of the address space. -/
theorem peripheralBus_decodes_iff (calls : List (Entry P)) (dev : IPeripheral P σ)
    (addr : BitVec 32) :
    (attachAll calls).entries = calls.take maxPeripherals ∧
    (maxPeripherals ≤ calls.length → ∀ base p size, (attachAll calls).attach base p size =
      (.error (.error "too many peripherals"), attachAll calls)) ∧
    ((attachAll calls).Reaches dev addr ((attachAll calls).firstContaining addr) ↔
      ∀ e, (attachAll calls).firstContaining addr = some e → ¬ e.ReachesTop) := by
  refine ⟨attachAll_entries calls, fun hfull base p size ↦ ?_, ?_⟩
  · apply attach_of_full
    rw [attachAll_entries, List.length_take]
    omega
  · rw [← find_eq_firstContaining_iff]
    constructor
    · exact Reaches.find
    · intro hfind
      rw [← hfind]
      exact reaches_find _ dev addr

/-- A window of the default size at the top of the address space. -/
def topWindow : Entry Unit := ⟨0xFFFFF000, 0x1000, ()⟩

/-- A peripheral that ignores what is written and reads as 0. -/
def nullDevice : IPeripheral Unit Unit := ⟨fun _ _ w ↦ (w, 0), fun _ _ _ w ↦ w⟩

/-- Its first address is unmapped. -/
theorem top_unmapped :
    (attachAll [topWindow]).read nullDevice 0xFFFFF000 () =
        (.error (.addressError 0xFFFFF000), ()) ∧
      (attachAll [topWindow]).firstContaining 0xFFFFF000 = some topWindow ∧
      ¬ (attachAll [topWindow]).Reaches nullDevice 0xFFFFF000
        ((attachAll [topWindow]).firstContaining 0xFFFFF000) := by
  have hentries : (attachAll [topWindow]).entries = [topWindow] := attachAll_entries [topWindow]
  have hfind : (attachAll [topWindow]).find 0xFFFFF000 = none := by
    rw [PeripheralBus.find, hentries]
    decide
  have hfirst : (attachAll [topWindow]).firstContaining 0xFFFFF000 = some topWindow := by
    rw [firstContaining, hentries]
    decide
  refine ⟨?_, hfirst, fun h ↦ ?_⟩
  · rw [PeripheralBus.read, hfind]
  · have hreach := h.find
    rw [hfind, hfirst] at hreach
    cases hreach

end PeripheralBus

end McuSimulator.Peripherals
