import McuSimulator.Memory.FlatMemoryBus
import Mathlib.Data.List.GetD

/-!
# The SPI flash

`W25Q32Flash` of `src/peripherals/spi.h` and `src/peripherals/spi.cpp`: a NOR flash that is
driven by chip select and one byte at a time. Command, address, buffer and latch stay in the
object between transactions.
-/

namespace McuSimulator.Peripherals

open Memory (Byte)

namespace W25Q32Flash

/-- `CAPACITY`; src/peripherals/spi.h:31. -/
def capacity : Nat := 0x10000

/-- `SECTOR_SIZE`; src/peripherals/spi.h:32. -/
def sectorSize : Nat := 4096

/-- `PAGE_SIZE`; src/peripherals/spi.h:33. -/
def pageSize : Nat := 256

/-- `CMD_READ_ID`; src/peripherals/spi.h:34. -/
def cmdReadId : Byte := 0x9F

/-- `CMD_READ_DATA`; src/peripherals/spi.h:35. -/
def cmdReadData : Byte := 0x03

/-- `CMD_PAGE_PROGRAM`; src/peripherals/spi.h:36. -/
def cmdPageProgram : Byte := 0x02

/-- `CMD_SECTOR_ERASE`; src/peripherals/spi.h:37. -/
def cmdSectorErase : Byte := 0x20

/-- `CMD_READ_STATUS`; src/peripherals/spi.h:38. -/
def cmdReadStatus : Byte := 0x05

/-- `CMD_WRITE_ENABLE`; src/peripherals/spi.h:39. -/
def cmdWriteEnable : Byte := 0x06

/-- `State`; src/peripherals/spi.h:59. -/
inductive State
  | idle
  | cmd
  | addr
  | data
  deriving DecidableEq, Repr

end W25Q32Flash

/-- `W25Q32Flash` with the defaults of a new one; src/peripherals/spi.h:41, 59–67. The array is
read and written through `load`, `mask` and `fill` alone, which note every index they use in
`touched`; no function reads that list. -/
structure W25Q32Flash where
  state : W25Q32Flash.State := .idle
  cmd : Byte := 0
  addr : BitVec 32 := 0
  addrBytes : Byte := 0
  buf : List Byte := []
  wel : Bool := false
  data : Nat → Byte := fun _ ↦ 0xFF
  touched : List Nat := []

namespace W25Q32Flash

/-! ### The array -/

/-- `data_[i]`. -/
def load (f : W25Q32Flash) (i : Nat) : W25Q32Flash × Byte :=
  ({ f with touched := f.touched ++ [i] }, f.data i)

/-- `data_[i] &= v`. -/
def mask (f : W25Q32Flash) (i : Nat) (v : Byte) : W25Q32Flash :=
  { f with data := Function.update f.data i (f.data i &&& v), touched := f.touched ++ [i] }

/-- `std::fill` of `n` cells from `base` on. -/
def fill (f : W25Q32Flash) (base n : Nat) (v : Byte) : W25Q32Flash :=
  { f with
    data := fun i ↦ if base ≤ i ∧ i < base + n then v else f.data i
    touched := f.touched ++ List.range' base n }

/-! ### Transactions -/

/-- `cs_assert`; src/peripherals/spi.h:44. -/
def csAssert (f : W25Q32Flash) : W25Q32Flash := { f with state := .cmd, buf := [] }

/-- `id_seq`; src/peripherals/spi.cpp:56. -/
def idSeq : List Byte := [0xEF, 0x40, 0x16]

/-- `handle_data`; src/peripherals/spi.cpp:52–79. -/
def handleData (f : W25Q32Flash) (tx : Byte) : W25Q32Flash × Byte :=
  if f.cmd = cmdReadId then
    ({ f with buf := f.buf ++ [tx] }, idSeq.getD f.buf.length 0xFF)
  else if f.cmd = cmdReadStatus then
    (f, if f.wel then 0x02 else 0x00)
  else if f.cmd = cmdReadData then
    let (f', val) := f.load f.addr.toNat
    ({ f' with addr := (f.addr + 1) &&& BitVec.ofNat 32 (capacity - 1) }, val)
  else if f.cmd = cmdPageProgram then
    ({ f with buf := f.buf ++ [tx] }, 0xFF)
  else
    (f, 0xFF)

/-- `exchange`; src/peripherals/spi.cpp:12–50. -/
def exchange (f : W25Q32Flash) (tx : Byte) : W25Q32Flash × Byte :=
  match f.state with
  | .idle => (f, 0xFF)
  | .cmd =>
    let f := { f with cmd := tx, addr := 0, addrBytes := 0, buf := [] }
    if tx = cmdWriteEnable then
      ({ f with wel := true, state := .idle }, 0xFF)
    else if tx = cmdReadId ∨ tx = cmdReadStatus then
      ({ f with state := .data }, 0xFF)
    else
      ({ f with state := .addr }, 0xFF)
  | .addr =>
    let addr := f.addr <<< 8 ||| tx.setWidth 32
    let addrBytes := f.addrBytes + 1
    if addrBytes = 3 then
      ({ f with
        addr := addr &&& BitVec.ofNat 32 (capacity - 1), addrBytes := addrBytes,
        state := .data }, 0xFF)
    else
      ({ f with addr := addr, addrBytes := addrBytes }, 0xFF)
  | .data => f.handleData tx

/-- The loop of `commit`, from byte `i` of the buffer on; src/peripherals/spi.cpp:84–88. -/
def program (base : BitVec 32) : Nat → List Byte → W25Q32Flash → W25Q32Flash
  | _, [], f => f
  | i, b :: bs, f =>
    let a := (base + BitVec.ofNat 32 i).toNat
    program base (i + 1) bs (if a < capacity then f.mask a b else f)

/-- `erase_sector`; src/peripherals/spi.cpp:106–111. -/
def eraseSector (f : W25Q32Flash) (addr : BitVec 32) : W25Q32Flash :=
  let base := addr.toNat / sectorSize * sectorSize
  if capacity ≤ base then f else f.fill base sectorSize 0xFF

/-- `commit`; src/peripherals/spi.cpp:81–94. -/
def commit (f : W25Q32Flash) : W25Q32Flash :=
  if f.cmd = cmdPageProgram ∧ f.wel ∧ f.buf ≠ [] then
    let pageBase := f.addr &&& ~~~BitVec.ofNat 32 (pageSize - 1)
    { program pageBase 0 (f.buf.take pageSize) f with wel := false }
  else if f.cmd = cmdSectorErase ∧ f.wel then
    { f.eraseSector f.addr with wel := false }
  else
    f

/-- `cs_deassert`; src/peripherals/spi.h:47. -/
def csDeassert (f : W25Q32Flash) : W25Q32Flash := { f.commit with state := .idle, buf := [] }

/-! ### Addresses -/

/-- The mask takes an address to the start of its page. -/
theorem toNat_pageBase (addr : BitVec 32) :
    (addr &&& ~~~BitVec.ofNat 32 (pageSize - 1)).toNat = addr.toNat / pageSize * pageSize := by
  have h : addr &&& ~~~BitVec.ofNat 32 (pageSize - 1) = addr >>> 8 <<< 8 := by
    rw [BitVec.shiftLeft_ushiftRight]
    rfl
  have hlt := addr.isLt
  rw [h, BitVec.toNat_shiftLeft, BitVec.toNat_ushiftRight, Nat.shiftRight_eq_div_pow,
    Nat.shiftLeft_eq, Nat.mod_eq_of_lt (by omega)]
  rfl

/-- The mask takes an address into the array. -/
theorem toNat_and_capacity (addr : BitVec 32) :
    (addr &&& BitVec.ofNat 32 (capacity - 1)).toNat = addr.toNat % capacity := by
  rw [BitVec.toNat_and]
  exact Nat.and_two_pow_sub_one_eq_mod addr.toNat 16

/-- A byte that is shifted in becomes the last digit. -/
theorem toNat_shiftIn {addr : BitVec 32} (tx : Byte) (h : addr.toNat < 2 ^ 24) :
    (addr <<< 8 ||| tx.setWidth 32).toNat = addr.toNat * 256 + tx.toNat := by
  have htx := tx.isLt
  rw [BitVec.toNat_or, BitVec.toNat_shiftLeft, BitVec.toNat_setWidth, Nat.shiftLeft_eq,
    Nat.mod_eq_of_lt (by omega), Nat.mod_eq_of_lt (by omega), Nat.mul_comm]
  exact (Nat.two_pow_add_eq_or_of_lt htx addr.toNat).symm

/-- The address fits the array, and in three bytes while it is read. -/
structure InRange (f : W25Q32Flash) : Prop where
  addr_lt : f.addr.toNat < capacity
  addrBytes : f.state = .addr → f.addrBytes.toNat ≤ 2 ∧ f.addr.toNat < 256 ^ f.addrBytes.toNat
  touched : ∀ i ∈ f.touched, i < capacity

/-- The counters of a new flash are in range. -/
theorem inRange_new : InRange {} where
  addr_lt := by decide
  addrBytes h := by cases h
  touched i hi := by cases hi

/-! ### Committing -/

/-- Bits are cleared, in one aligned page. -/
def ClearsPage (old new : Nat → Byte) : Prop :=
  ∃ page < capacity / pageSize, ∀ i,
    (∃ b, new i = old i &&& b) ∧ (new i ≠ old i → i / pageSize = page)

/-- One aligned sector is filled with `0xFF`. -/
def ErasesSector (old new : Nat → Byte) : Prop :=
  ∃ sector < capacity / sectorSize, ∀ i,
    new i = if i / sectorSize = sector then 0xFF else old i

section Program

variable {base : BitVec 32} {f : W25Q32Flash}

private theorem data_mask (i : Nat) (v : Byte) :
    (f.mask i v).data = Function.update f.data i (f.data i &&& v) := rfl

private theorem program_frame (i : Nat) (bs : List Byte) :
    (program base i bs f).cmd = f.cmd ∧ (program base i bs f).addr = f.addr := by
  induction bs generalizing i f with
  | nil => exact ⟨rfl, rfl⟩
  | cons b bs ih =>
    rw [program]
    split
    · exact ih (i + 1)
    · exact ih (i + 1)

private theorem touched_program {i : Nat} {bs : List Byte} (h : ∀ j ∈ f.touched, j < capacity) :
    ∀ j ∈ (program base i bs f).touched, j < capacity := by
  induction bs generalizing i f with
  | nil => exact h
  | cons b bs ih =>
    rw [program]
    apply ih
    split
    case isTrue ha =>
      intro j hj
      rcases List.mem_append.mp hj with hj | hj
      · exact h j hj
      · rw [List.mem_singleton.mp hj]
        exact ha
    case isFalse => exact h

/-- Each byte of the buffer masks its cell. -/
theorem data_program {i : Nat} {bs : List Byte} (h : base.toNat + i + bs.length ≤ capacity)
    (c : Nat) : (program base i bs f).data c =
      if base.toNat + i ≤ c then f.data c &&& bs.getD (c - (base.toNat + i)) 0xFF
      else f.data c := by
  induction bs generalizing i f with
  | nil =>
    have hones : f.data c &&& 0xFF = f.data c := BitVec.and_allOnes
    rw [program, List.getD_nil, hones, ite_self]
  | cons b bs ih =>
    rw [List.length_cons] at h
    have ha : (base + BitVec.ofNat 32 i).toNat = base.toNat + i := by
      unfold capacity at h
      rw [BitVec.toNat_add, BitVec.toNat_ofNat]
      omega
    have hcap : base.toNat + i < capacity := by omega
    rw [program, ih (by omega), ha, if_pos hcap, data_mask]
    rcases Nat.lt_trichotomy c (base.toNat + i) with hlt | rfl | hgt
    · rw [if_neg (by omega), if_neg (by omega), Function.update_of_ne (by omega)]
    · rw [if_neg (by omega), if_pos (Nat.le_refl _), Function.update_self, Nat.sub_self]
      rfl
    · have hsub : c - (base.toNat + i) = c - (base.toNat + (i + 1)) + 1 := by omega
      rw [if_pos (by omega), if_pos (by omega), Function.update_of_ne (by omega), hsub,
        List.getD_cons_succ]

/-- The bytes of one page clear bits of it. -/
theorem clearsPage_program {addr : BitVec 32} {bs : List Byte} (ha : addr.toNat < capacity)
    (hbs : bs.length ≤ pageSize)
    (hb : base.toNat = addr.toNat / pageSize * pageSize) :
    ClearsPage f.data (program base 0 bs f).data := by
  unfold capacity at ha
  unfold pageSize at hb hbs
  have hfit : base.toNat + 0 + bs.length ≤ capacity := by
    unfold capacity
    omega
  refine ⟨addr.toNat / pageSize, ?_, fun i ↦ ⟨?_, fun hne ↦ ?_⟩⟩
  · unfold capacity pageSize
    omega
  · rw [data_program hfit]
    split
    case isTrue => exact ⟨_, rfl⟩
    case isFalse => exact ⟨0xFF, BitVec.and_allOnes.symm⟩
  · rw [data_program hfit, Nat.add_zero] at hne
    split at hne
    case isTrue hle =>
      -- behind the buffer the mask is `0xFF`
      have hlt : i - base.toNat < bs.length := by
        by_contra hge
        rw [List.getD_eq_default _ _ (by omega)] at hne
        exact hne BitVec.and_allOnes
      unfold pageSize
      omega
    case isFalse => exact absurd rfl hne

end Program

private theorem eraseSector_eq (f : W25Q32Flash) {addr : BitVec 32} (h : addr.toNat < capacity) :
    f.eraseSector addr = f.fill (addr.toNat / sectorSize * sectorSize) sectorSize 0xFF := by
  unfold capacity at h
  rw [eraseSector, if_neg]
  unfold capacity sectorSize
  omega

private theorem erasesSector_eraseSector (f : W25Q32Flash) {addr : BitVec 32}
    (h : addr.toNat < capacity) : ErasesSector f.data (f.eraseSector addr).data := by
  rw [eraseSector_eq f h]
  unfold capacity at h
  refine ⟨addr.toNat / sectorSize, ?_, fun i ↦ ?_⟩
  · unfold capacity sectorSize
    omega
  · have hiff : (addr.toNat / sectorSize * sectorSize ≤ i ∧
        i < addr.toNat / sectorSize * sectorSize + sectorSize) ↔
        i / sectorSize = addr.toNat / sectorSize := by
      unfold sectorSize
      omega
    rw [fill]
    simp only [hiff]

/-- What the end of a transaction does to the array. -/
theorem commit_cases (f : W25Q32Flash) (h : f.addr.toNat < capacity) :
    f.commit = f ∨ f.wel = true ∧ f.commit.wel = false ∧
      (f.cmd = cmdPageProgram ∧ f.buf ≠ [] ∧ ClearsPage f.data f.commit.data ∨
        f.cmd = cmdSectorErase ∧ ErasesSector f.data f.commit.data) := by
  unfold commit
  split
  case isTrue hp =>
    right
    refine ⟨hp.2.1, rfl, .inl ⟨hp.1, hp.2.2, ?_⟩⟩
    exact clearsPage_program h (List.length_take_le _ _) (toNat_pageBase f.addr)
  case isFalse =>
    split
    case isTrue he => exact .inr ⟨he.2, rfl, .inr ⟨he.1, erasesSector_eraseSector f h⟩⟩
    case isFalse => exact .inl rfl

/-! ### One byte -/

/-- What a byte can do to the flash: an inversion of `exchange`. -/
inductive Exchanged (f : W25Q32Flash) (tx : Byte) : W25Q32Flash → Prop
  | ignored (h : f.state = .idle) : Exchanged f tx f
  | writeEnable (h : f.state = .cmd) (htx : tx = cmdWriteEnable) :
      Exchanged f tx
        { f with cmd := tx, addr := 0, addrBytes := 0, buf := [], wel := true, state := .idle }
  | command (h : f.state = .cmd) (htx : tx ≠ cmdWriteEnable) {st : State}
      (hst : st = .addr ∨ st = .data) :
      Exchanged f tx { f with cmd := tx, addr := 0, addrBytes := 0, buf := [], state := st }
  | address (h : f.state = .addr) (hn : f.addrBytes + 1 ≠ 3) :
      Exchanged f tx
        { f with addr := f.addr <<< 8 ||| tx.setWidth 32, addrBytes := f.addrBytes + 1 }
  | lastAddress (h : f.state = .addr) (hn : f.addrBytes + 1 = 3) :
      Exchanged f tx
        { f with
          addr := (f.addr <<< 8 ||| tx.setWidth 32) &&& BitVec.ofNat 32 (capacity - 1)
          addrBytes := f.addrBytes + 1
          state := .data }
  | buffer (h : f.state = .data) (bs : List Byte) : Exchanged f tx { f with buf := f.buf ++ bs }
  | read (h : f.state = .data) :
      Exchanged f tx
        { f with
          addr := (f.addr + 1) &&& BitVec.ofNat 32 (capacity - 1)
          touched := f.touched ++ [f.addr.toNat] }

private theorem exchanged_handleData {f : W25Q32Flash} (tx : Byte) (h : f.state = .data) :
    Exchanged f tx (f.handleData tx).1 := by
  have hsame : Exchanged f tx f := by
    have hbuf : Exchanged f tx { f with buf := f.buf ++ [] } := .buffer h []
    rwa [List.append_nil] at hbuf
  unfold handleData
  split
  · exact .buffer h [tx]
  split
  · exact hsame
  split
  · exact .read h
  split
  · exact .buffer h [tx]
  · exact hsame

/-- What an exchange does. -/
theorem exchanged_exchange (f : W25Q32Flash) (tx : Byte) : Exchanged f tx (f.exchange tx).1 := by
  unfold exchange
  split
  case h_1 h => exact .ignored h
  case h_2 h =>
    dsimp only
    split
    case isTrue htx => exact .writeEnable h htx
    case isFalse htx =>
      split
      · exact .command h htx (.inr rfl)
      · exact .command h htx (.inl rfl)
  case h_3 h =>
    dsimp only
    split
    case isTrue hn => exact .lastAddress h hn
    case isFalse hn => exact .address h hn
  case h_4 h => exact exchanged_handleData tx h

section Exchanged

variable {f f' : W25Q32Flash} {tx : Byte}

/-- An exchange leaves the array. -/
theorem Exchanged.data (h : Exchanged f tx f') : f'.data = f.data := by
  cases h <;> rfl

/-- Only a write-enable command sets the latch. -/
theorem Exchanged.wel (h : Exchanged f tx f') (hwel : f'.wel = true) :
    f.wel = true ∨ f.state = .cmd ∧ tx = cmdWriteEnable := by
  cases h with
  | writeEnable hs htx => exact .inr ⟨hs, htx⟩
  | _ => exact .inl hwel

/-- An exchange keeps the counters in range. -/
theorem Exchanged.inRange (h : Exchanged f tx f') (hf : f.InRange) : f'.InRange := by
  obtain ⟨hlt, hbytes, htouched⟩ := hf
  cases h with
  | ignored h => exact ⟨hlt, hbytes, htouched⟩
  | writeEnable h htx => exact ⟨(by decide : 0 < capacity), fun hs ↦ (nomatch hs), htouched⟩
  | command h htx hst =>
    exact ⟨(by decide : 0 < capacity), fun _ ↦ (by decide : 0 ≤ 2 ∧ 0 < 256 ^ 0), htouched⟩
  | address h hn =>
    obtain ⟨hle, hpow⟩ := hbytes h
    have hn' : f.addrBytes.toNat ≠ 2 := fun h2 ↦ hn (by
      rw [show f.addrBytes = 2 from BitVec.eq_of_toNat_eq h2]
      rfl)
    have hsucc : (f.addrBytes + 1).toNat = f.addrBytes.toNat + 1 := by
      rw [BitVec.toNat_add, show (1 : Byte).toNat = 1 from rfl]
      omega
    have htx := tx.isLt
    have haddr := toNat_shiftIn tx (show f.addr.toNat < 2 ^ 24 by unfold capacity at hlt; omega)
    have hpow' : f.addr.toNat * 256 + tx.toNat < 256 ^ (f.addrBytes.toNat + 1) := by
      rw [Nat.pow_succ]
      omega
    have hcap : 256 ^ (f.addrBytes.toNat + 1) ≤ 256 ^ 2 :=
      Nat.pow_le_pow_right (by decide) (by omega)
    refine ⟨?_, fun _ ↦ ⟨?_, ?_⟩, htouched⟩
    · rw [haddr]
      unfold capacity
      omega
    · rw [hsucc]
      omega
    · rw [haddr, hsucc]
      exact hpow'
  | lastAddress h hn =>
    refine ⟨?_, fun hs ↦ (nomatch hs), htouched⟩
    rw [toNat_and_capacity]
    exact Nat.mod_lt _ (by decide)
  | buffer h bs => exact ⟨hlt, hbytes, htouched⟩
  | read h =>
    refine ⟨?_, fun hs ↦ absurd (h.symm.trans hs) (by decide), fun i hi ↦ ?_⟩
    · rw [toNat_and_capacity]
      exact Nat.mod_lt _ (by decide)
    · rcases List.mem_append.mp hi with hi | hi
      · exact htouched i hi
      · rw [List.mem_singleton.mp hi]
        exact hlt

end Exchanged

/-- The assert of chip select keeps the counters in range. -/
theorem InRange.csAssert {f : W25Q32Flash} (h : f.InRange) : f.csAssert.InRange :=
  ⟨h.addr_lt, fun hs ↦ (nomatch hs), h.touched⟩

/-- The end of a transaction keeps the command and the address. -/
theorem commit_frame (f : W25Q32Flash) :
    f.commit.cmd = f.cmd ∧ f.commit.addr = f.addr := by
  unfold commit
  split
  case isTrue => exact program_frame 0 _
  case isFalse =>
    split
    case isTrue =>
      unfold eraseSector
      dsimp only
      split <;> exact ⟨rfl, rfl⟩
    case isFalse => exact ⟨rfl, rfl⟩

/-- The deassert of chip select keeps the counters in range. -/
theorem InRange.csDeassert {f : W25Q32Flash} (h : f.InRange) : f.csDeassert.InRange := by
  have haddr : f.csDeassert.addr = f.addr := (commit_frame f).2
  refine ⟨?_, fun hs ↦ (nomatch hs), ?_⟩
  · rw [haddr]
    exact h.addr_lt
  · show ∀ i ∈ f.commit.touched, i < capacity
    unfold commit
    split
    case isTrue => exact touched_program h.touched
    case isFalse =>
      split
      case isTrue =>
        rw [eraseSector_eq f h.addr_lt]
        intro i hi
        rcases List.mem_append.mp hi with hi | hi
        · exact h.touched i hi
        · have hlt := h.addr_lt
          rw [List.mem_range'_1] at hi
          unfold capacity sectorSize at *
          omega
      case isFalse => exact h.touched

end W25Q32Flash

end McuSimulator.Peripherals
