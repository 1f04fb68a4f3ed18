import McuSimulator.Memory.Words

/-!
# Reads over writes

What a read returns after a write, byte by byte, for all widths and through both windows, so
also when the two accesses overlap in part. The writes are also given as calls on the memory
object, which throw or change it in the order of the source.
-/

namespace McuSimulator.Memory

/-! ### Bytes of a word -/

/-- The value of a list of bytes has them as its digits. -/
theorem foldr_bytes_digit (bs : List Byte) (i : Nat) :
    bs.foldr (fun b v ↦ b.toNat + 256 * v) 0 / 256 ^ i % 256 = ((bs[i]?).getD 0).toNat := by
  induction bs generalizing i with
  | nil => simp
  | cons b bs ih =>
    have hb : b.toNat < 256 := b.isLt
    rw [List.foldr_cons]
    cases i with
    | zero =>
      rw [Nat.pow_zero, Nat.div_one, List.getElem?_cons_zero, Option.getD_some]
      omega
    | succ i =>
      rw [Nat.pow_succ', ← Nat.div_div_eq_div_mul, List.getElem?_cons_succ, ← ih i]
      congr 2
      omega

private theorem foldr_bytes_lt (bs : List Byte) :
    bs.foldr (fun b v ↦ b.toNat + 256 * v) 0 < 256 ^ bs.length := by
  induction bs with
  | nil => simp
  | cons b bs ih =>
    have hb : b.toNat < 256 := b.isLt
    rw [List.foldr_cons, List.length_cons, Nat.pow_succ']
    omega

/-- The bytes of a word are those that it is made of. -/
theorem byteOf_ofLittleEndian {w : Nat} {bs : List Byte} (hw : w = 8 * bs.length) (i : Nat) :
    byteOf (ofLittleEndian w bs) i = (bs[i]?).getD 0 := by
  have hpow : 2 ^ w = 256 ^ bs.length := by rw [hw, Nat.pow_mul]
  have hlt := foldr_bytes_lt bs
  rw [← hpow] at hlt
  apply BitVec.eq_of_toNat_eq
  rw [toNat_byteOf, ofLittleEndian, BitVec.toNat_ofNat, Nat.mod_eq_of_lt hlt, foldr_bytes_digit]

private theorem ofLittleEndian_singleton (b : Byte) : ofLittleEndian 8 [b] = b := by
  have hlength : 8 = 8 * [b].length := rfl
  have hbyte := byteOf_ofLittleEndian hlength 0
  rwa [byteOf, BitVec.extractLsb'_eq_self] at hbyte

namespace FlatMemoryBus

private theorem read8_eq_readBytes (m : FlatMemoryBus) (addr : BitVec 32) :
    m.read8 addr = (m.readBytes addr 1).map (ofLittleEndian 8) := by
  unfold read8
  cases ht : translate addr with
  | error e =>
    rw [readBytes, ht]
    rfl
  | ok flat =>
    rw [readBytes_eq_ok ht (Nat.succ_le_of_lt flat.isLt)]
    exact congrArg Except.ok (ofLittleEndian_singleton (m.data flat)).symm

private theorem write8_eq_load (m : FlatMemoryBus) (addr : BitVec 32) (val : Byte) :
    m.write8 addr val = m.load addr (toLittleEndian 1 val) := by
  have hbytes : toLittleEndian 1 val = [val] := by
    rw [toLittleEndian_succ, BitVec.setWidth_eq]
    rfl
  rw [hbytes, write8, load]
  cases translate addr with
  | error e => rfl
  | ok flat =>
    dsimp only
    rw [List.length_singleton, if_pos (Nat.succ_le_of_lt flat.isLt)]
    rfl

end FlatMemoryBus

/-! ### Widths -/

/-- The widths of the accesses. -/
inductive Width where
  | byte
  | half
  | word
  deriving DecidableEq, Repr

namespace Width

/-- The number of bytes. -/
@[reducible] def bytes : Width → Nat
  | byte => 1
  | half => 2
  | word => 4

/-- `read8`, `read16`, `read32`. -/
def read (m : FlatMemoryBus) (addr : BitVec 32) :
    (w : Width) → Except BusFault (BitVec (8 * w.bytes))
  | byte => m.read8 addr
  | half => m.read16 addr
  | word => m.read32 addr

/-- `write8`, `write16`, `write32`. -/
def write (m : FlatMemoryBus) (addr : BitVec 32) :
    (w : Width) → BitVec (8 * w.bytes) → Except BusFault FlatMemoryBus
  | byte, v => m.write8 addr v
  | half, v => m.write16 addr v
  | word, v => m.write32 addr v

variable (m : FlatMemoryBus) (addr : BitVec 32)

/-- All reads are reads of bytes. -/
theorem read_eq_readBytes (w : Width) :
    w.read m addr = (m.readBytes addr w.bytes).map (ofLittleEndian (8 * w.bytes)) := by
  cases w with
  | byte => exact m.read8_eq_readBytes addr
  | half => rfl
  | word => rfl

/-- All writes are loads of bytes. -/
theorem write_eq_load (w : Width) (v : BitVec (8 * w.bytes)) :
    w.write m addr v = m.load addr (toLittleEndian w.bytes v) := by
  cases w with
  | byte => exact m.write8_eq_load addr v
  | half => rfl
  | word => rfl

section

variable {m m' : FlatMemoryBus} {addr : BitVec 32} {w : Width} {v : BitVec (8 * w.bytes)}

/-- A write of accessible bytes returns. -/
theorem exists_write (m : FlatMemoryBus) (h : Accessible addr w.bytes)
    (v : BitVec (8 * w.bytes)) : ∃ m', w.write m addr v = .ok m' := by
  obtain ⟨flat, ht, hle⟩ := h
  rw [write_eq_load]
  exact ⟨_, FlatMemoryBus.load_eq_ok.mpr ⟨flat, ht, by rwa [length_toLittleEndian], rfl⟩⟩

/-- What was written is read. -/
theorem read_of_write (h : w.write m addr v = .ok m') : w.read m' addr = .ok v := by
  rw [write_eq_load] at h
  have hread := FlatMemoryBus.readBytes_load h
  rw [length_toLittleEndian] at hread
  rw [read_eq_readBytes, hread]
  exact congrArg Except.ok (ofLittleEndian_toLittleEndian rfl v)

/-- A write leaves the other cells alone. -/
theorem data_of_not_covers (h : w.write m addr v = .ok m') {cell : Fin size}
    (hc : ¬ Covers addr w.bytes cell) : m'.data cell = m.data cell := by
  rw [write_eq_load] at h
  exact FlatMemoryBus.data_load h (by rwa [length_toLittleEndian])

/-- A read depends on the cells that it covers. -/
theorem read_congr (w : Width) (h : ∀ cell, Covers addr w.bytes cell → m'.data cell = m.data cell) :
    w.read m' addr = w.read m addr := by
  rw [read_eq_readBytes, read_eq_readBytes, FlatMemoryBus.readBytes_congr h]

end

end Width

/-! ### Cells -/

/-- The cell of an address: addresses below `0x10000` are their own cell, and `0x2000_0000 + k`
is the cell `0x8000 + k`. -/
def IsCell (addr : BitVec 32) (cell : Nat) : Prop :=
  (addr.toNat < 0x10000 ∧ cell = addr.toNat) ∨
  ∃ k < 0x4000, addr.toNat = 0x20000000 + k ∧ cell = 0x8000 + k

private theorem translate_eq_ok_iff_isCell {addr : BitVec 32} {flat : Fin size} :
    FlatMemoryBus.translate addr = .ok flat ↔ IsCell addr flat := by
  rw [FlatMemoryBus.translate_eq_ok, IsCell]
  unfold size sramBase sramSize flashSize
  constructor
  · rintro (h | ⟨hb, hlt, hv⟩)
    · exact .inl h
    · exact .inr ⟨addr.toNat - 0x20000000, by omega, by omega, hv⟩
  · rintro (h | ⟨k, hk, haddr, hv⟩)
    · exact .inl h
    · exact .inr ⟨by omega, by omega, by omega⟩

/-- What a write that returns does to every cell. -/
theorem data_of_write {m m' : FlatMemoryBus} {a : BitVec 32} {w : Width}
    {v : BitVec (8 * w.bytes)} (h : w.write m a v = .ok m') :
    ∃ flat : Fin size, IsCell a flat ∧ ∀ cell : Fin size, m'.data cell =
      if flat.val ≤ cell.val ∧ cell.val < flat.val + w.bytes then byteOf v (cell.val - flat.val)
      else m.data cell := by
  rw [Width.write_eq_load] at h
  obtain ⟨flat, ht, hle, rfl⟩ := FlatMemoryBus.load_eq_ok.mp h
  refine ⟨flat, translate_eq_ok_iff_isCell.mp ht, fun cell ↦ ?_⟩
  unfold FlatMemoryBus.memcpy
  dsimp only
  by_cases hfrom : flat.val ≤ cell.val
  · rw [if_pos hfrom]
    by_cases hto : cell.val < flat.val + w.bytes
    · rw [if_pos ⟨hfrom, hto⟩, getElem?_toLittleEndian v (by omega), Option.getD_some]
    · have hout : (toLittleEndian w.bytes v)[cell.val - flat.val]? = none := by
        rw [List.getElem?_eq_none]
        rw [length_toLittleEndian]
        omega
      rw [if_neg (fun hc ↦ hto hc.2), hout, Option.getD_none]
  · rw [if_neg hfrom, if_neg (fun hc ↦ hfrom hc.1)]

/-- The bytes of a read that returns are those of its cells. -/
theorem byteOf_of_read {m : FlatMemoryBus} {b : BitVec 32} {w : Width} {x : BitVec (8 * w.bytes)}
    (h : w.read m b = .ok x) :
    ∃ flat : Fin size, IsCell b flat ∧ ∀ i < w.bytes, ∃ cell : Fin size,
      cell.val = flat.val + i ∧ byteOf x i = m.data cell := by
  rw [Width.read_eq_readBytes] at h
  cases ht : FlatMemoryBus.translate b with
  | error e =>
    rw [FlatMemoryBus.readBytes, ht] at h
    cases h
  | ok flat =>
    have hle : flat.val + w.bytes ≤ size := by
      by_contra hout
      rw [FlatMemoryBus.readBytes, ht] at h
      dsimp only at h
      rw [dif_neg hout] at h
      cases h
    rw [FlatMemoryBus.readBytes_eq_ok ht hle] at h
    cases h
    refine ⟨flat, translate_eq_ok_iff_isCell.mp ht, fun i hi ↦ ⟨⟨flat.val + i, by omega⟩, rfl, ?_⟩⟩
    rw [byteOf_ofLittleEndian (by rw [List.length_ofFn])]
    simp [hi]

/-- A word determines the cells behind it. -/
theorem data_eq_of_read32 {m m' : FlatMemoryBus} {addr v : BitVec 32}
    (h : m.read32 addr = .ok v) (h' : m'.read32 addr = .ok v) {cell : Fin size}
    (hc : Covers addr 4 cell) : m.data cell = m'.data cell := by
  obtain ⟨flat, ht, hle, hlt⟩ := hc
  have hbyte {n : FlatMemoryBus} (hn : n.read32 addr = .ok v) :
      n.data cell = byteOf v (cell.val - flat.val) := by
    obtain ⟨f, hf, hbytes⟩ := byteOf_of_read (w := .word) hn
    have hflat : f = flat := by
      have hboth := (translate_eq_ok_iff_isCell.mpr hf).symm.trans ht
      injection hboth
    have hlt' : cell.val - flat.val < 4 := by omega
    obtain ⟨c, hc, hv⟩ := hbytes (cell.val - flat.val) hlt'
    have hcell : c = cell := Fin.ext (by rw [hc, hflat]; omega)
    rw [← hcell, ← hv, hcell]
  rw [hbyte h, hbyte h']

/-! ### Calls on the memory object -/

namespace FlatMemoryBus

/-- The check and copy of `write16`, `write32` and `load`; src/memory.cpp:65–67, 71–73. -/
def storeCall (addr : BitVec 32) (src : List Byte) : EStateM BusFault FlatMemoryBus Unit := do
  let flat ← ofExcept (translate addr)
  if size < flat.val + src.length then throw ⟨addr⟩
  else modify fun m ↦ m.memcpy flat src

/-- `write8`; src/memory.cpp:60–62. -/
def write8Call (addr : BitVec 32) (val : Byte) : EStateM BusFault FlatMemoryBus Unit := do
  let flat ← ofExcept (translate addr)
  modify fun m ↦ m.memcpy flat [val]

/-- A write by its width. -/
def writeCall (addr : BitVec 32) : (w : Width) → BitVec (8 * w.bytes) →
    EStateM BusFault FlatMemoryBus Unit
  | .byte, v => write8Call addr v
  | .half, v => storeCall addr (toLittleEndian 2 v)
  | .word, v => storeCall addr (toLittleEndian 4 v)

/-- A call ends as the pure load says, and one that throws leaves the memory as it was. -/
theorem storeCall_run (m : FlatMemoryBus) (addr : BitVec 32) (src : List Byte) :
    (storeCall addr src).run m =
      match m.load addr src with
      | .ok m' => .ok () m'
      | .error e => .error e m := by
  unfold storeCall load
  cases translate addr with
  | error e => rfl
  | ok flat =>
    dsimp only
    show EStateM.run (if size < flat.val + src.length then throw (BusFault.mk addr)
      else modify fun m ↦ m.memcpy flat src) m = _
    by_cases hle : flat.val + src.length ≤ size
    · rw [if_pos hle, if_neg (not_lt_of_ge hle)]
      rfl
    · rw [if_neg hle, if_pos (lt_of_not_ge hle)]
      rfl

private theorem writeCall_run (m : FlatMemoryBus) (addr : BitVec 32) (w : Width)
    (v : BitVec (8 * w.bytes)) :
    (writeCall addr w v).run m =
      match w.write m addr v with
      | .ok m' => .ok () m'
      | .error e => .error e m := by
  cases w with
  | byte =>
    show (write8Call addr v).run m = match m.write8 addr v with
      | .ok m' => .ok () m'
      | .error e => .error e m
    unfold write8Call write8
    cases translate addr <;> rfl
  | half => exact storeCall_run m addr _
  | word => exact storeCall_run m addr _

/-! ### Regions -/

/-- A cell of the flash region, and one of the SRAM region. -/
theorem regions_show (m : FlatMemoryBus) (cell : Fin size) :
    (cell.val < 0x8000 → m.flashRegion[cell.val]? = some (m.data cell)) ∧
    (0x8000 ≤ cell.val → cell.val < 0xC000 →
      m.sramRegion[cell.val - 0x8000]? = some (m.data cell)) := by
  constructor
  · intro h
    have hlt : cell.val < flashSize := h
    rw [flashRegion, List.getElem?_ofFn, dif_pos hlt]
  · intro h h'
    have hlt : cell.val - 0x8000 < sramSize := by
      unfold sramSize
      omega
    have hcell : flashSize + (cell.val - 0x8000) = cell.val := by
      unfold flashSize
      omega
    rw [sramRegion, List.getElem?_ofFn, dif_pos hlt]
    exact congrArg (some <| m.data ·) (Fin.ext hcell)

end FlatMemoryBus

/-! ### The law -/

/-- After a write that returns, a read that returns has in each byte the byte of the written
word if the cell was written, and the old byte otherwise. The regions show the cells, and a write
that throws changes nothing. -/
theorem read_over_write (m : FlatMemoryBus) :
    (∀ (a b : BitVec 32) (wa wb : Width) (v : BitVec (8 * wa.bytes)) (x : BitVec (8 * wb.bytes))
      (m' : FlatMemoryBus), (FlatMemoryBus.writeCall a wa v).run m = .ok () m' →
        wb.read m' b = .ok x →
        ∃ ca cb, IsCell a ca ∧ IsCell b cb ∧ ∀ i < wb.bytes, ∃ cell : Fin size,
          cell.val = cb + i ∧ byteOf x i =
            if ca ≤ cb + i ∧ cb + i < ca + wa.bytes then byteOf v (cb + i - ca)
            else m.data cell) ∧
    (m.flashRegion.length = 0x8000 ∧ m.sramRegion.length = 0x4000 ∧ ∀ cell : Fin size,
      (cell.val < 0x8000 → m.flashRegion[cell.val]? = some (m.data cell)) ∧
      (0x8000 ≤ cell.val → cell.val < 0xC000 →
        m.sramRegion[cell.val - 0x8000]? = some (m.data cell))) ∧
    ∀ (a : BitVec 32) (w : Width) (v : BitVec (8 * w.bytes)) (e : BusFault) (m' : FlatMemoryBus),
      (FlatMemoryBus.writeCall a w v).run m = .error e m' → m' = m := by
  refine ⟨?_, ⟨List.length_ofFn, List.length_ofFn, m.regions_show⟩, ?_⟩
  · intro a b wa wb v x m' hwrite hread
    rw [FlatMemoryBus.writeCall_run] at hwrite
    split at hwrite
    case h_2 => cases hwrite
    case h_1 m' hw =>
      cases hwrite
      obtain ⟨ca, hca, hdata⟩ := data_of_write hw
      obtain ⟨cb, hcb, hbytes⟩ := byteOf_of_read hread
      refine ⟨ca, cb, hca, hcb, fun i hi ↦ ?_⟩
      obtain ⟨cell, hcell, hbyte⟩ := hbytes i hi
      refine ⟨cell, hcell, ?_⟩
      rw [hbyte, hdata, hcell]
  · intro a w v e m' hwrite
    rw [FlatMemoryBus.writeCall_run] at hwrite
    split at hwrite
    case h_1 => cases hwrite
    case h_2 =>
      cases hwrite
      rfl

/-- A halfword stored through the SRAM window, and a word over it read through the flat one. -/
theorem read_over_write_overlap :
    ∃ ca cb, IsCell 0x20000000 ca ∧ IsCell 0x7FFF cb ∧ ∀ i < Width.word.bytes, ∃ cell : Fin size,
      cell.val = cb + i ∧ byteOf (0x00BEEF00 : BitVec 32) i =
        if ca ≤ cb + i ∧ cb + i < ca + Width.half.bytes then
          byteOf (0xBEEF : BitVec 16) (cb + i - ca)
        else FlatMemoryBus.clear.data cell := by
  have hload : FlatMemoryBus.clear.load 0x20000000 [0xEF, 0xBE] =
      .ok (FlatMemoryBus.clear.memcpy 0x8000 [0xEF, 0xBE]) :=
    FlatMemoryBus.load_eq_ok.mpr ⟨⟨0x8000, by decide⟩, by rfl, by decide, rfl⟩
  have hwrite : Width.write FlatMemoryBus.clear 0x20000000 .half (0xBEEF : BitVec 16) =
      .ok (FlatMemoryBus.clear.memcpy 0x8000 [0xEF, 0xBE]) := hload
  exact (read_over_write FlatMemoryBus.clear).1 0x20000000 0x7FFF .half .word (0xBEEF : BitVec 16)
    (0x00BEEF00 : BitVec 32) _ (by rw [FlatMemoryBus.writeCall_run, hwrite]) (by rfl)

end McuSimulator.Memory
