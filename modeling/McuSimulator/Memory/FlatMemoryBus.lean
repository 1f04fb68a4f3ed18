import Mathlib.Algebra.Group.Int.Defs
import Mathlib.Algebra.Group.Nat.Defs
import Mathlib.Data.List.OfFn
import Mathlib.Logic.Function.Basic

/-!
# The flat memory bus

`FlatMemoryBus` of `src/memory.h` and `src/memory.cpp`: 64 KiB of cells, a flash window at
address 0 that covers all of them and an SRAM window at `0x2000_0000` onto 16 KiB of them.
An access that faults leaves the memory alone, so writes return the new memory or the fault.
-/

namespace McuSimulator.Memory

/-- `uint8_t`. -/
abbrev Byte := BitVec 8

/-! ### The memory map -/

/-- `MemMap::TOTAL_SIZE`, `FlatMemoryBus::SIZE`; src/memory.h:32, 68. -/
def size : Nat := 0x10000

/-- `MemMap::FLASH_SIZE`; src/memory.h:23. -/
def flashSize : Nat := 0x8000

/-- `MemMap::SRAM_BASE`; src/memory.h:24. -/
def sramBase : Nat := 0x20000000

/-- `MemMap::SRAM_SIZE`; src/memory.h:25. -/
def sramSize : Nat := 0x4000

/-- One hexadecimal digit, in upper case. -/
def upperDigit (n : Nat) : Char :=
  if n < 10 then Char.ofNat (48 + n) else Char.ofNat (55 + n)

/-- `BusFaultException::toHex`: eight digits; src/memory.cpp:8–12. -/
def toHex (v : BitVec 32) : String :=
  String.ofList ((List.range 8).map fun i ↦ upperDigit (v.toNat / 16 ^ (7 - i) % 16))

/-- `BusFaultException`; src/memory.h:11–16. -/
structure BusFault where
  address : BitVec 32
  deriving DecidableEq, Repr

/-- `BusFaultException::what()`. -/
def BusFault.what (f : BusFault) : String := "Bus fault at 0x" ++ toHex f.address

/-- The cells `data_`; src/memory.h:90. -/
@[ext]
structure FlatMemoryBus where
  data : Fin size → Byte

/-! ### Bytes of a word -/

/-- The low `n` bytes of a word, least significant first. -/
def toLittleEndian {w : Nat} (n : Nat) (v : BitVec w) : List Byte :=
  (List.range n).map fun i ↦ (v >>> (8 * i)).setWidth 8

/-- The word with these bytes, least significant first. -/
def ofLittleEndian (w : Nat) (bs : List Byte) : BitVec w :=
  BitVec.ofNat w (bs.foldr (fun b v ↦ b.toNat + 256 * v) 0)

namespace FlatMemoryBus

/-- A new memory, and `clear()`; src/memory.cpp:16–22. -/
def clear : FlatMemoryBus := ⟨fun _ ↦ 0⟩

/-- `translate`; src/memory.cpp:26–32. -/
def translate (addr : BitVec 32) : Except BusFault (Fin size) :=
  if h : addr.toNat < size then .ok ⟨addr.toNat, h⟩
  else if h : sramBase ≤ addr.toNat ∧ addr.toNat < sramBase + sramSize then
    .ok ⟨flashSize + (addr.toNat - sramBase), by unfold flashSize size sramSize at *; omega⟩
  else .error ⟨addr⟩

/-- `memcpy` of a source buffer into the cells from `flat` on. -/
def memcpy (m : FlatMemoryBus) (flat : Nat) (src : List Byte) : FlatMemoryBus :=
  ⟨fun i ↦ if flat ≤ i then (src[i.val - flat]?).getD (m.data i) else m.data i⟩

/-- Read `n` cells through one range check, the common body of `read16` and `read32`. -/
def readBytes (m : FlatMemoryBus) (addr : BitVec 32) (n : Nat) : Except BusFault (List Byte) :=
  match translate addr with
  | .error e => .error e
  | .ok flat =>
    if h : flat.val + n ≤ size then
      .ok (List.ofFn fun i : Fin n ↦ m.data ⟨flat.val + i.val, by omega⟩)
    else .error ⟨addr⟩

/-- `load`, and the common body of `write16` and `write32`; src/memory.cpp:76–80. -/
def load (m : FlatMemoryBus) (addr : BitVec 32) (src : List Byte) :
    Except BusFault FlatMemoryBus :=
  match translate addr with
  | .error e => .error e
  | .ok flat => if flat.val + src.length ≤ size then .ok (m.memcpy flat src) else .error ⟨addr⟩

/-- `read8`; src/memory.cpp:40–42. -/
def read8 (m : FlatMemoryBus) (addr : BitVec 32) : Except BusFault Byte :=
  (translate addr).map m.data

/-- `read16`; src/memory.cpp:44–50. -/
def read16 (m : FlatMemoryBus) (addr : BitVec 32) : Except BusFault (BitVec 16) :=
  (m.readBytes addr 2).map (ofLittleEndian 16)

/-- `read32`; src/memory.cpp:52–58. -/
def read32 (m : FlatMemoryBus) (addr : BitVec 32) : Except BusFault (BitVec 32) :=
  (m.readBytes addr 4).map (ofLittleEndian 32)

/-- `write8`; src/memory.cpp:60–62. -/
def write8 (m : FlatMemoryBus) (addr : BitVec 32) (val : Byte) : Except BusFault FlatMemoryBus :=
  (translate addr).map fun flat ↦ m.memcpy flat [val]

/-- `write16`; src/memory.cpp:64–68. -/
def write16 (m : FlatMemoryBus) (addr : BitVec 32) (val : BitVec 16) :
    Except BusFault FlatMemoryBus :=
  m.load addr (toLittleEndian 2 val)

/-- `write32`; src/memory.cpp:70–74. -/
def write32 (m : FlatMemoryBus) (addr : BitVec 32) (val : BitVec 32) :
    Except BusFault FlatMemoryBus :=
  m.load addr (toLittleEndian 4 val)

/-- `flash_region`; src/memory.cpp:82–84. -/
def flashRegion (m : FlatMemoryBus) : List Byte :=
  List.ofFn fun i : Fin flashSize ↦ m.data ⟨i, by have := i.isLt; unfold flashSize size at *; omega⟩

/-- `sram_region`; src/memory.cpp:86–89. -/
def sramRegion (m : FlatMemoryBus) : List Byte :=
  List.ofFn fun i : Fin sramSize ↦
    m.data ⟨flashSize + i, by have := i.isLt; unfold flashSize sramSize size at *; omega⟩

/-! ### Cells -/

/-- The cells at the addresses from zero on. -/
theorem translate_flash {addr : BitVec 32} (h : addr.toNat < size) :
    translate addr = .ok ⟨addr.toNat, h⟩ := by
  rw [translate, dif_pos h]

/-- The cells behind the SRAM window. -/
theorem translate_sram {addr : BitVec 32} (h : sramBase ≤ addr.toNat)
    (h' : addr.toNat < sramBase + sramSize) :
    ∃ flat : Fin size, translate addr = .ok flat ∧
      flat.val = flashSize + (addr.toNat - sramBase) := by
  have hn : ¬ addr.toNat < size := by
    unfold sramBase at h
    unfold size
    omega
  rw [translate, dif_neg hn, dif_pos ⟨h, h'⟩]
  exact ⟨_, rfl, rfl⟩

/-- Copying a buffer is copying its first byte and then the rest. -/
theorem memcpy_cons (m : FlatMemoryBus) (flat : Nat) (b : Byte) (bs : List Byte) :
    m.memcpy flat (b :: bs) = (m.memcpy flat [b]).memcpy (flat + 1) bs := by
  ext1
  funext i
  unfold memcpy
  dsimp only
  rcases Nat.lt_trichotomy i.val flat with hlt | heq | hgt
  · rw [if_neg (by omega), if_neg (by omega), if_neg (by omega)]
  · rw [if_pos (by omega), if_neg (by omega), if_pos (by omega), heq, Nat.sub_self]
    rfl
  · have hsub : i.val - flat = (i.val - (flat + 1)) + 1 := by omega
    rw [if_pos (by omega), if_pos (by omega), if_pos (by omega), hsub,
      List.getElem?_cons_succ, List.getElem?_cons_succ, List.getElem?_nil, Option.getD_none]

private theorem memcpy_nil (m : FlatMemoryBus) (flat : Nat) : m.memcpy flat [] = m := by
  ext1
  funext i
  simp [memcpy]

/-! ### Bytes at addresses -/

/-- Store one byte at an address, if it is mapped. -/
def poke (m : FlatMemoryBus) (addr : BitVec 32) (b : Byte) : FlatMemoryBus :=
  match m.write8 addr b with
  | .ok m' => m'
  | .error _ => m

/-- Store bytes at consecutive addresses, one by one. -/
def pokes (m : FlatMemoryBus) (addr : BitVec 32) : List Byte → FlatMemoryBus
  | [] => m
  | b :: bs => (m.poke addr b).pokes (addr + 1) bs

/-- The range starts at a mapped address and lies inside one window. -/
def InWindow (addr : BitVec 32) (n : Nat) : Prop :=
  (addr.toNat < size ∧ addr.toNat + n ≤ size) ∨
  (sramBase ≤ addr.toNat ∧ addr.toNat < sramBase + sramSize ∧
    addr.toNat + n ≤ sramBase + sramSize)

instance (addr : BitVec 32) (n : Nat) : Decidable (InWindow addr n) :=
  inferInstanceAs (Decidable (_ ∨ _))

/-- A range inside one window is a range of cells. -/
theorem InWindow.translate {addr : BitVec 32} {n : Nat} (h : InWindow addr n) :
    ∃ flat : Fin size, FlatMemoryBus.translate addr = .ok flat ∧ flat.val + n ≤ size := by
  rcases h with ⟨hlt, hle⟩ | ⟨hb, hlt, hle⟩
  · exact ⟨_, translate_flash hlt, hle⟩
  · obtain ⟨flat, ht, hv⟩ := translate_sram hb hlt
    refine ⟨flat, ht, ?_⟩
    unfold flashSize at hv
    unfold sramSize at hle
    unfold size
    omega

/-- The next address of a window is its next cell. -/
theorem InWindow.translate_succ {addr : BitVec 32} {n : Nat} {flat : Fin size}
    (h : InWindow addr (n + 2)) (ht : FlatMemoryBus.translate addr = .ok flat) :
    InWindow (addr + 1) (n + 1) ∧
      ∃ flat' : Fin size, FlatMemoryBus.translate (addr + 1) = .ok flat' ∧
        flat'.val = flat.val + 1 := by
  have hsucc : (addr + 1).toNat = addr.toNat + 1 := by
    rw [BitVec.toNat_add, show (1 : BitVec 32).toNat = 1 from rfl]
    apply Nat.mod_eq_of_lt
    unfold InWindow size sramBase sramSize at h
    omega
  rcases h with ⟨hlt, hle⟩ | ⟨hb, hlt, hle⟩
  · rw [translate_flash hlt] at ht
    cases ht
    have hlt' : (addr + 1).toNat < size := by omega
    exact ⟨.inl ⟨hlt', by omega⟩, _, translate_flash hlt', hsucc⟩
  · obtain ⟨f, hf, hv⟩ := translate_sram hb hlt
    rw [ht] at hf
    cases hf
    have hb' : sramBase ≤ (addr + 1).toNat := by omega
    have hlt' : (addr + 1).toNat < sramBase + sramSize := by omega
    obtain ⟨f', hf', hv'⟩ := translate_sram hb' hlt'
    exact ⟨.inr ⟨hb', hlt', by omega⟩, f', hf', by omega⟩

/-- Inside one window, consecutive addresses are consecutive cells. -/
theorem pokes_eq_memcpy (bs : List Byte) (m : FlatMemoryBus) {addr : BitVec 32} {flat : Fin size}
    (h : InWindow addr bs.length) (ht : translate addr = .ok flat) :
    m.pokes addr bs = m.memcpy flat bs := by
  induction bs generalizing m addr flat with
  | nil => rw [pokes, memcpy_nil]
  | cons b bs ih =>
    have hpoke : m.poke addr b = m.memcpy flat [b] := by
      simp [poke, write8, ht, Except.map]
    rw [pokes, hpoke, memcpy_cons m flat b bs]
    cases bs with
    | nil => rw [pokes, memcpy_nil]
    | cons c bs =>
      obtain ⟨h', flat', ht', hv⟩ := h.translate_succ ht
      rw [ih _ h' ht', hv]

/-- A load inside one window stores its bytes at consecutive addresses. -/
theorem load_eq_pokes (m : FlatMemoryBus) {addr : BitVec 32} {bs : List Byte}
    (h : InWindow addr bs.length) : m.load addr bs = .ok (m.pokes addr bs) := by
  obtain ⟨flat, ht, hle⟩ := h.translate
  rw [load, ht, pokes_eq_memcpy bs m h ht]
  exact if_pos hle

end FlatMemoryBus

end McuSimulator.Memory
