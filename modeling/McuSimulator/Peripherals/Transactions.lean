import McuSimulator.Base.Mealy
import McuSimulator.Peripherals.Flash

/-!
# Transactions of the flash

A transaction is the bytes between the assert and the deassert of chip select. A page program is
read back where its address is a multiple of the page size; an erase whose address is cut off
erases all the same.
-/

namespace McuSimulator.Peripherals

open Memory (Byte)
open Base (respond respond_nil respond_cons respond_cons_of_eq respond_append
  respond_invariant)

namespace W25Q32Flash

/-- The flash after the transaction, and its answers to the bytes. -/
def transaction (f : W25Q32Flash) (tx : List Byte) : W25Q32Flash × List Byte :=
  ((respond exchange f.csAssert tx).1.csDeassert, (respond exchange f.csAssert tx).2)

/-- The bytes of an address, most significant first. -/
def addressBytes (a : BitVec 24) : List Byte :=
  [(a >>> 16).setWidth 8, (a >>> 8).setWidth 8, a.setWidth 8]

/-- The cell that an address names. -/
def cell (a : BitVec 24) : Nat := a.toNat % capacity

/-! ### Command and address -/

/-- The flash behind a command and `n` bytes of its address. -/
def addressing (f : W25Q32Flash) (cmd : Byte) (addr : BitVec 32) (n : Byte) : W25Q32Flash :=
  { f with state := .addr, cmd := cmd, addr := addr, addrBytes := n, buf := [] }

/-- The flash behind a command with its address. -/
def addressed (f : W25Q32Flash) (cmd : Byte) (addr : BitVec 32) : W25Q32Flash :=
  { f with state := .data, cmd := cmd, addr := addr, addrBytes := 3, buf := [] }

section Addressing

variable (f : W25Q32Flash) {cmd : Byte} (addr : BitVec 32)

private theorem exchange_cmd (hen : cmd ≠ cmdWriteEnable) (hid : cmd ≠ cmdReadId)
    (hst : cmd ≠ cmdReadStatus) : f.csAssert.exchange cmd = (f.addressing cmd 0 0, 0xFF) := by
  simp [exchange, csAssert, addressing, hen, hid, hst]

private theorem exchange_addressing {n : Byte} (hn : n + 1 ≠ 3) (tx : Byte) :
    (f.addressing cmd addr n).exchange tx =
      (f.addressing cmd (addr <<< 8 ||| tx.setWidth 32) (n + 1), 0xFF) := by
  rw [exchange, addressing]
  exact if_neg hn

private theorem exchange_addressing_last {n : Byte} (hn : n + 1 = 3) (tx : Byte) :
    (f.addressing cmd addr n).exchange tx =
      (f.addressed cmd ((addr <<< 8 ||| tx.setWidth 32) &&& BitVec.ofNat 32 (capacity - 1)),
        0xFF) := by
  rw [exchange, addressing, addressed, ← hn]
  exact if_pos rfl

end Addressing

/-- The bytes of an address make up the address. -/
theorem shiftIn_addressBytes (a : BitVec 24) :
    ((((0 : BitVec 32) <<< 8 ||| ((a >>> 16).setWidth 8).setWidth 32) <<< 8 |||
      ((a >>> 8).setWidth 8).setWidth 32) <<< 8 ||| (a.setWidth 8).setWidth 32) &&&
        BitVec.ofNat 32 (capacity - 1) = BitVec.ofNat 32 (cell a) := by
  have ha := a.isLt
  have h₀ := @toNat_shiftIn 0 ((a >>> 16).setWidth 8) (by decide)
  have hb₀ : ((a >>> 16).setWidth 8).toNat = a.toNat / 65536 := by
    rw [BitVec.toNat_setWidth, BitVec.toNat_ushiftRight, Nat.shiftRight_eq_div_pow]
    omega
  have hb₁ : ((a >>> 8).setWidth 8).toNat = a.toNat / 256 % 256 := by
    rw [BitVec.toNat_setWidth, BitVec.toNat_ushiftRight, Nat.shiftRight_eq_div_pow]
  have hb₂ : (a.setWidth 8).toNat = a.toNat % 256 := BitVec.toNat_setWidth _ _
  rw [hb₀, show (0 : BitVec 32).toNat = 0 from rfl, Nat.zero_mul, Nat.zero_add] at h₀
  have h₁ := @toNat_shiftIn ((0 : BitVec 32) <<< 8 ||| ((a >>> 16).setWidth 8).setWidth 32)
    ((a >>> 8).setWidth 8) (by omega)
  have h₂ := @toNat_shiftIn
    (((0 : BitVec 32) <<< 8 ||| ((a >>> 16).setWidth 8).setWidth 32) <<< 8 |||
      ((a >>> 8).setWidth 8).setWidth 32) (a.setWidth 8) (by omega)
  apply BitVec.eq_of_toNat_eq
  rw [toNat_and_capacity, h₂, h₁, h₀, hb₁, hb₂, BitVec.toNat_ofNat]
  unfold cell capacity
  omega

private theorem respond_addressBytes (f : W25Q32Flash) {cmd : Byte} (hen : cmd ≠ cmdWriteEnable)
    (hid : cmd ≠ cmdReadId) (hst : cmd ≠ cmdReadStatus) (a : BitVec 24) :
    respond exchange f.csAssert (cmd :: addressBytes a) =
      (f.addressed cmd (BitVec.ofNat 32 (cell a)), List.replicate 4 0xFF) := by
  rw [respond_cons_of_eq _ (exchange_cmd f hen hid hst), addressBytes,
    respond_cons_of_eq _ (exchange_addressing f _ (by decide) _),
    respond_cons_of_eq _ (exchange_addressing f _ (by decide) _),
    respond_cons_of_eq _ (exchange_addressing_last f _ (by decide) _), respond_nil,
    shiftIn_addressBytes]
  rfl

/-! ### Reading -/

private theorem exchange_readData (f : W25Q32Flash) (n : Nat) (tx : Byte) :
    (f.addressed cmdReadData (BitVec.ofNat 32 (n % capacity))).exchange tx =
      (({ f with touched := f.touched ++ [n % capacity] } : W25Q32Flash).addressed cmdReadData
        (BitVec.ofNat 32 ((n + 1) % capacity)), f.data (n % capacity)) := by
  have hn : (BitVec.ofNat 32 (n % capacity)).toNat = n % capacity := by
    rw [BitVec.toNat_ofNat]
    unfold capacity
    omega
  have haddr : (BitVec.ofNat 32 (n % capacity) + 1) &&& BitVec.ofNat 32 (capacity - 1) =
      BitVec.ofNat 32 ((n + 1) % capacity) := by
    apply BitVec.eq_of_toNat_eq
    rw [toNat_and_capacity, BitVec.toNat_add, hn, BitVec.toNat_ofNat,
      show (1 : BitVec 32).toNat = 1 from rfl]
    unfold capacity
    omega
  show ({ (f.addressed cmdReadData (BitVec.ofNat 32 (n % capacity))).load
      (BitVec.ofNat 32 (n % capacity)).toNat |>.1 with
        addr := (BitVec.ofNat 32 (n % capacity) + 1) &&& BitVec.ofNat 32 (capacity - 1) },
      f.data (BitVec.ofNat 32 (n % capacity)).toNat) = _
  rw [hn, haddr]
  rfl

/-- Behind the address come the cells from there on, around the end of the array. -/
theorem respond_readData (f : W25Q32Flash) (n : Nat) (dummy : List Byte) :
    ∃ touched, respond exchange (f.addressed cmdReadData (BitVec.ofNat 32 (n % capacity))) dummy =
      (({ f with touched := touched } : W25Q32Flash).addressed cmdReadData
          (BitVec.ofNat 32 ((n + dummy.length) % capacity)),
        (List.range dummy.length).map fun i ↦ f.data ((n + i) % capacity)) := by
  induction dummy generalizing f n with
  | nil => exact ⟨f.touched, rfl⟩
  | cons tx dummy ih =>
    obtain ⟨touched, hrest⟩ := ih { f with touched := f.touched ++ [n % capacity] } (n + 1)
    refine ⟨touched, ?_⟩
    have hcells : (List.range (dummy.length + 1)).map (fun i ↦ f.data ((n + i) % capacity)) =
        f.data (n % capacity) ::
          (List.range dummy.length).map fun i ↦ f.data ((n + 1 + i) % capacity) := by
      rw [List.range_succ_eq_map, List.map_cons, List.map_map, Nat.add_zero]
      congr 2
      funext i
      rw [Function.comp_apply, Nat.succ_eq_add_one, Nat.add_comm i 1, Nat.add_assoc]
    rw [respond_cons_of_eq _ (exchange_readData f n tx), hrest, List.length_cons, hcells,
      Nat.add_right_comm, Nat.add_assoc n]

/-- A read answers with the cells from its address on and leaves the array as it was. -/
theorem transaction_readData (f : W25Q32Flash) (a : BitVec 24) (dummy : List Byte) :
    (f.transaction (cmdReadData :: addressBytes a ++ dummy)).1.data = f.data ∧
    (f.transaction (cmdReadData :: addressBytes a ++ dummy)).2 = List.replicate 4 0xFF ++
      (List.range dummy.length).map fun i ↦ f.data ((a.toNat + i) % capacity) := by
  obtain ⟨touched, hread⟩ := respond_readData f a.toNat dummy
  have hrun : respond exchange f.csAssert (cmdReadData :: addressBytes a ++ dummy) = _ :=
    respond_append _ _ _ _
  rw [respond_addressBytes f (by decide) (by decide) (by decide), cell, hread] at hrun
  rw [transaction, hrun]
  exact ⟨rfl, rfl⟩

/-! ### Programming -/

/-- The flash behind a page program command, its address and some data. -/
def buffered (f : W25Q32Flash) (addr : BitVec 32) (data : List Byte) : W25Q32Flash :=
  { f with
    state := .data, cmd := cmdPageProgram, addr := addr, addrBytes := 3, buf := data }

private theorem respond_buffered (f : W25Q32Flash) (addr : BitVec 32) (bs data : List Byte) :
    respond exchange (f.buffered addr bs) data =
      (f.buffered addr (bs ++ data), List.replicate data.length 0xFF) := by
  induction data generalizing bs with
  | nil =>
    rw [List.append_nil]
    rfl
  | cons b data ih =>
    have hb : (f.buffered addr bs).exchange b = (f.buffered addr (bs ++ [b]), 0xFF) := rfl
    rw [respond_cons_of_eq _ hb, ih, List.append_assoc]
    rfl

/-- The data, laid out from a cell on, as a mask for the array. -/
def laidOut (start : Nat) (data : List Byte) (c : Nat) : Byte :=
  if start ≤ c then data.getD (c - start) 0xFF else 0xFF

private theorem and_laidOut (old : Byte) (start : Nat) (data : List Byte) (c : Nat) :
    old &&& laidOut start data c =
      if start ≤ c then old &&& data.getD (c - start) 0xFF else old := by
  unfold laidOut
  split
  · rfl
  · exact BitVec.and_allOnes

/-- The first cell of the page that an address lies in. -/
def pageStart (a : BitVec 24) : Nat := cell a / pageSize * pageSize

private theorem data_commit_buffered {f : W25Q32Flash} (hwel : f.wel = true) {n : Nat}
    (hn : n < capacity) {data : List Byte} (hne : data ≠ []) (hlen : data.length ≤ pageSize)
    (c : Nat) : (f.buffered (BitVec.ofNat 32 n) data).commit.data c =
      f.data c &&& laidOut (n / pageSize * pageSize) data c := by
  have hbase := toNat_pageBase (BitVec.ofNat 32 n)
  rw [BitVec.toNat_ofNat, Nat.mod_eq_of_lt (by unfold capacity at hn; omega)] at hbase
  have hfit : (BitVec.ofNat 32 n &&& ~~~BitVec.ofNat 32 (pageSize - 1)).toNat + 0 +
      data.length ≤ capacity := by
    rw [hbase]
    unfold capacity pageSize at *
    omega
  have hprogram := data_program (f := f.buffered (BitVec.ofNat 32 n) data) hfit c
  rw [hbase, Nat.add_zero] at hprogram
  rw [commit, if_pos ⟨rfl, hwel, hne⟩, and_laidOut]
  show (program _ 0 (data.take pageSize) _).data c = _
  rw [List.take_of_length_le hlen]
  exact hprogram

/-- With the latch set, a page program masks the page, from its start on, with the data. -/
theorem data_transaction_pageProgram {f : W25Q32Flash} (hwel : f.wel = true) (a : BitVec 24)
    {data : List Byte} (hne : data ≠ []) (hlen : data.length ≤ pageSize) (c : Nat) :
    (f.transaction (cmdPageProgram :: addressBytes a ++ data)).1.data c =
      f.data c &&& laidOut (pageStart a) data c := by
  have hrun : respond exchange f.csAssert (cmdPageProgram :: addressBytes a ++ data) = _ :=
    respond_append _ _ _ _
  rw [respond_addressBytes f (by decide) (by decide) (by decide)] at hrun
  rw [transaction, hrun]
  show ((respond exchange (f.buffered _ []) data).1.commit).data c = _
  rw [respond_buffered, List.nil_append]
  exact data_commit_buffered hwel (Nat.mod_lt _ (by decide)) hne hlen c

/-- The flash after a write enable and a page program. -/
def programmed (f : W25Q32Flash) (a : BitVec 24) (data : List Byte) : W25Q32Flash :=
  ((f.transaction [cmdWriteEnable]).1.transaction (cmdPageProgram :: addressBytes a ++ data)).1

private theorem data_programmed (f : W25Q32Flash) (a : BitVec 24) {data : List Byte}
    (hne : data ≠ []) (hlen : data.length ≤ pageSize) (c : Nat) :
    (f.programmed a data).data c = f.data c &&& laidOut (pageStart a) data c :=
  data_transaction_pageProgram rfl a hne hlen c

/-- The data programmed at an address is read back from there, masked with what was there, and
the other cells keep their values. -/
structure ReadsBack (f : W25Q32Flash) (a : BitVec 24) (data : List Byte) : Prop where
  answers : ∀ dummy : List Byte, dummy.length = data.length →
    ((f.programmed a data).transaction (cmdReadData :: addressBytes a ++ dummy)).2 =
      List.replicate 4 0xFF ++ data.mapIdx fun i b ↦ f.data (cell a + i) &&& b
  kept : ∀ dummy : List Byte, dummy.length = data.length → ∀ c,
    ¬ (cell a ≤ c ∧ c < cell a + data.length) →
      ((f.programmed a data).transaction (cmdReadData :: addressBytes a ++ dummy)).1.data c =
        f.data c

/-- The places of a list, mapped, are the list mapped with its places. -/
theorem map_range_eq_mapIdx_iff {α β : Type} (g : Nat → β) (h : Nat → α → β) (l : List α) :
    (List.range l.length).map g = l.mapIdx h ↔ ∀ i (hi : i < l.length), g i = h i l[i] := by
  simp [List.ext_getElem_iff]

section Fits

variable {f : W25Q32Flash} {a : BitVec 24} {data : List Byte}

/-- Data that fits its page does not run over the end of the array. -/
theorem cell_add_lt (hfit : data.length ≤ pageSize - a.toNat % pageSize) {i : Nat}
    (hi : i < data.length) : (a.toNat + i) % capacity = cell a + i := by
  unfold cell capacity
  unfold pageSize at hfit
  omega

private theorem readsBack_iff_data (hfit : data.length ≤ pageSize - a.toNat % pageSize) :
    f.ReadsBack a data ↔
      ∀ c, (f.programmed a data).data c = f.data c &&& laidOut (cell a) data c := by
  have hanswers : ∀ dummy : List Byte, dummy.length = data.length →
      (((f.programmed a data).transaction (cmdReadData :: addressBytes a ++ dummy)).2 =
          List.replicate 4 0xFF ++ data.mapIdx (fun i b ↦ f.data (cell a + i) &&& b) ↔
        ∀ i (hi : i < data.length),
          (f.programmed a data).data (cell a + i) = f.data (cell a + i) &&& data[i]) := by
    intro dummy hdummy
    rw [(transaction_readData _ a dummy).2, List.append_cancel_left_eq, hdummy,
      map_range_eq_mapIdx_iff]
    refine forall₂_congr fun i hi ↦ ?_
    rw [cell_add_lt hfit hi]
  constructor
  · intro ⟨hread, hkept⟩ c
    have hcells := (hanswers data rfl).mp (hread data rfl)
    have houtside := hkept data rfl c
    rw [(transaction_readData _ a data).1] at houtside
    rw [and_laidOut]
    split
    case isTrue hle =>
      by_cases hlt : c - cell a < data.length
      · have hc := hcells (c - cell a) hlt
        rw [Nat.add_sub_cancel' hle] at hc
        rw [hc, List.getD_eq_getElem _ _ hlt]
      · rw [List.getD_eq_default _ _ (by omega), houtside (by omega)]
        exact BitVec.and_allOnes.symm
    case isFalse hle => exact houtside (by omega)
  · intro hdata
    refine ⟨fun dummy hdummy ↦ (hanswers dummy hdummy).mpr fun i hi ↦ ?_, ?_⟩
    · rw [hdata, and_laidOut, if_pos (Nat.le_add_right _ _), Nat.add_sub_cancel_left,
        List.getD_eq_getElem _ _ hi]
    · intro dummy hdummy c hc
      rw [(transaction_readData _ a dummy).1, hdata, and_laidOut]
      split
      case isTrue hle =>
        rw [List.getD_eq_default _ _ (by omega)]
        exact BitVec.and_allOnes
      case isFalse => rfl

/-- Two masks leave the same of a byte where they differ in cleared bits only. -/
theorem and_eq_and_iff (x y z : Byte) : x &&& y = x &&& z ↔ x &&& (y ^^^ z) = 0 := by
  have hdistrib : x &&& (y ^^^ z) = (x &&& y) ^^^ (x &&& z) := by
    ext i
    simp [Bool.and_xor_distrib_left]
  rw [hdistrib]
  exact BitVec.xor_eq_zero_iff.symm

/-- The bits in which the data differs, laid out from the page start and laid out from its
address, are clear already. -/
def Harmless (f : W25Q32Flash) (a : BitVec 24) (data : List Byte) : Prop :=
  ∀ c, f.data c &&& (laidOut (pageStart a) data c ^^^ laidOut (cell a) data c) = 0

private theorem readsBack_iff_harmless (hne : data ≠ [])
    (hfit : data.length ≤ pageSize - a.toNat % pageSize) :
    f.ReadsBack a data ↔ f.Harmless a data := by
  rw [readsBack_iff_data hfit]
  refine forall_congr' fun c ↦ ?_
  rw [data_programmed f a hne (by omega), and_eq_and_iff]

private theorem harmless_of_aligned (h : a.toNat % pageSize = 0) : f.Harmless a data := by
  intro c
  have hstart : pageStart a = cell a := by
    unfold pageStart cell capacity
    unfold pageSize at *
    omega
  rw [hstart, BitVec.xor_self]
  exact BitVec.and_zero

/-- Data of ones alone changes nothing, wherever it is laid out. -/
theorem harmless_of_ones (h : ∀ b ∈ data, b = 0xFF) : f.Harmless a data := by
  have hones : ∀ start c, laidOut start data c = 0xFF := by
    intro start c
    unfold laidOut
    split
    · rcases Nat.lt_or_ge (c - start) data.length with hlt | hge
      · rw [List.getD_eq_getElem _ _ hlt]
        exact h _ (List.getElem_mem hlt)
      · rw [List.getD_eq_default _ _ hge]
    · rfl
  intro c
  rw [hones, hones, BitVec.xor_self]
  exact BitVec.and_zero

/-- On an erased array nothing else is harmless. -/
theorem ones_of_harmless (hoff : a.toNat % pageSize ≠ 0) (h : Harmless {} a data) :
    ∀ b ∈ data, b = 0xFF := by
  have heq : ∀ c, laidOut (pageStart a) data c = laidOut (cell a) data c := by
    intro c
    have hc := (and_eq_and_iff _ _ _).mpr (h c)
    rwa [show ({} : W25Q32Flash).data c = BitVec.allOnes 8 from rfl, BitVec.allOnes_and,
      BitVec.allOnes_and] at hc
  have hpage : pageStart a + a.toNat % pageSize = cell a := by
    unfold pageStart cell capacity pageSize
    omega
  have hones : ∀ j, data.getD j 0xFF = 0xFF := by
    intro j
    -- the byte that the shifted layout has in its place is an earlier one, or none
    induction j using Nat.strongRecOn with
    | ind j ih =>
      have hj := heq (pageStart a + j)
      unfold laidOut at hj
      rw [if_pos (Nat.le_add_right _ _), Nat.add_sub_cancel_left] at hj
      split at hj
      case isTrue hle =>
        rw [hj]
        exact ih _ (by omega)
      case isFalse => exact hj
  intro b hb
  obtain ⟨j, hj, rfl⟩ := List.mem_iff_getElem.mp hb
  rw [← List.getD_eq_getElem data 0xFF hj]
  exact hones j

end Fits

/-- Data programmed at an address is read back from there exactly where laying it out from the
start of the page does no harm: whatever the array holds, that is at the start of a page, or with
data of ones. A read of any length answers with the cells from its address on. -/
theorem pageProgram_readsBack_iff (a : BitVec 24) (data : List Byte) (hne : data ≠ [])
    (hfit : data.length ≤ pageSize - a.toNat % pageSize) :
    (∀ f : W25Q32Flash, f.ReadsBack a data ↔ a.toNat % pageSize = 0 ∨ f.Harmless a data) ∧
    ((∀ f : W25Q32Flash, f.ReadsBack a data) ↔
      a.toNat % pageSize = 0 ∨ ∀ b ∈ data, b = 0xFF) ∧
    ∀ (f : W25Q32Flash) (b : BitVec 24) (dummy : List Byte),
      (f.transaction (cmdReadData :: addressBytes b ++ dummy)).2 = List.replicate 4 0xFF ++
        (List.range dummy.length).map fun i ↦ f.data ((b.toNat + i) % capacity) := by
  refine ⟨fun f ↦ ?_, ?_, fun f b dummy ↦ (transaction_readData f b dummy).2⟩
  · rw [readsBack_iff_harmless hne hfit]
    exact ⟨.inr, fun h ↦ h.elim harmless_of_aligned id⟩
  · constructor
    · intro hall
      by_cases hoff : a.toNat % pageSize = 0
      · exact .inl hoff
      · exact .inr (ones_of_harmless hoff ((readsBack_iff_harmless hne hfit).mp (hall {})))
    · intro hcond f
      rw [readsBack_iff_harmless hne hfit]
      exact hcond.elim harmless_of_aligned harmless_of_ones

/-- Three bytes at the start of the second page, whose first cell has been programmed before. -/
theorem page_readsBack_at_0x100 :
    (({} : W25Q32Flash).programmed 0x100 [0x3C]).ReadsBack 0x100 [0x0F, 0xA5, 0x00] :=
  ((pageProgram_readsBack_iff 0x100 [0x0F, 0xA5, 0x00] (List.cons_ne_nil _ _) (by decide)).1
    _).mpr (.inl (by decide))

/-- A zero programmed at address 1 of an erased array lands in cell 0. -/
theorem pageProgram_lands_in_cell_0 :
    ((({} : W25Q32Flash).programmed 1 [0x00]).transaction
        (cmdReadData :: addressBytes 1 ++ [0x00])).2 = List.replicate 5 0xFF ∧
      (({} : W25Q32Flash).programmed 1 [0x00]).data 0 = 0x00 ∧
      ¬ ({} : W25Q32Flash).ReadsBack 1 [0x00] := by
  refine ⟨by decide, by decide, fun h ↦ ?_⟩
  have hread := h.answers [0x00] rfl
  revert hread
  decide

/-! ### Truncated transactions -/

/-- The command in force when the transaction ends: its first byte, or the one left over. -/
def cmdInForce (f : W25Q32Flash) (tx : List Byte) : Byte := tx.headD f.cmd

/-- The address in force when the transaction ends inside its address: the bytes shifted in so
far, or the address left over. -/
def addrInForce (f : W25Q32Flash) : List Byte → BitVec 32
  | [] => f.addr
  | _ :: bytes => bytes.foldl (fun addr b ↦ addr <<< 8 ||| b.setWidth 32) 0

/-- The cells of the sector that an address lies in are erased. -/
def ErasedAt (f : W25Q32Flash) (addr : BitVec 32) : Prop :=
  ∀ i < capacity, i / sectorSize = addr.toNat / sectorSize → f.data i = 0xFF

private theorem data_eraseSector_eq_iff (f : W25Q32Flash) (addr : BitVec 32) :
    (f.eraseSector addr).data = f.data ↔ f.ErasedAt addr := by
  unfold eraseSector
  dsimp only
  split
  case isTrue hge =>
    -- there is no such sector
    refine ⟨fun _ i hi hsector ↦ ?_, fun _ ↦ rfl⟩
    unfold capacity sectorSize at *
    omega
  case isFalse hlt =>
    constructor
    · intro hsame i hi hsector
      rw [← congrFun hsame i]
      exact if_pos (by unfold sectorSize at *; omega)
    · intro herased
      funext i
      rw [fill]
      dsimp only
      split
      case isTrue hin =>
        refine (herased i ?_ ?_).symm <;> unfold capacity sectorSize at * <;> omega
      case isFalse => rfl

/-- The command has come in, and the array is as it was. -/
def Started (cmd : Byte) (data : Nat → Byte) (f : W25Q32Flash) : Prop :=
  f.state ≠ .cmd ∧ f.cmd = cmd ∧ f.data = data

private theorem Started.exchange {cmd : Byte} {data : Nat → Byte} {f : W25Q32Flash}
    (h : Started cmd data f) (b : Byte) : Started cmd data (f.exchange b).1 := by
  obtain ⟨hstate, hcmd, hdata⟩ := h
  have hex := exchanged_exchange f b
  generalize (f.exchange b).1 = g at hex
  cases hex with
  | ignored h => exact ⟨hstate, hcmd, hdata⟩
  | writeEnable h htx => exact absurd h hstate
  | command h htx hst => exact absurd h hstate
  | address h hn => exact ⟨hstate, hcmd, hdata⟩
  | lastAddress h hn => exact ⟨State.noConfusion, hcmd, hdata⟩
  | buffer h bs => exact ⟨hstate, hcmd, hdata⟩
  | read h => exact ⟨hstate, hcmd, hdata⟩

/-- Other commands commit nothing. -/
theorem commit_of_ne {f : W25Q32Flash} (hp : f.cmd ≠ cmdPageProgram)
    (he : f.cmd ≠ cmdSectorErase) : f.commit = f := by
  rw [commit, if_neg fun h ↦ hp h.1, if_neg fun h ↦ he h.1]

/-- Without data in the buffer only an erase can change the array. -/
theorem data_commit_eq_iff {f : W25Q32Flash} (hbuf : f.buf = []) :
    f.commit.data = f.data ↔
      ¬ (f.cmd = cmdSectorErase ∧ f.wel = true ∧ ¬ f.ErasedAt f.addr) := by
  rw [commit, if_neg fun h ↦ h.2.2 hbuf]
  split
  case isTrue he =>
    show (f.eraseSector f.addr).data = f.data ↔ _
    rw [data_eraseSector_eq_iff]
    exact ⟨fun herased hcond ↦ hcond.2.2 herased,
      fun hcond ↦ by_contra fun herased ↦ hcond ⟨he.1, he.2, herased⟩⟩
  case isFalse he => exact ⟨fun _ hcond ↦ he ⟨hcond.1, hcond.2.1⟩, fun _ ↦ rfl⟩

/-- Fewer than three bytes behind the command are shifted into the address. -/
theorem respond_addressing {f : W25Q32Flash} {cmd : Byte} {addr : BitVec 32} {n : Nat}
    {bytes : List Byte} (h : n + bytes.length < 3) :
    (respond exchange (f.addressing cmd addr (BitVec.ofNat 8 n)) bytes).1 =
      f.addressing cmd (bytes.foldl (fun addr b ↦ addr <<< 8 ||| b.setWidth 32) addr)
        (BitVec.ofNat 8 (n + bytes.length)) := by
  induction bytes generalizing addr n with
  | nil => rfl
  | cons b bytes ih =>
    rw [List.length_cons] at h
    have hn : BitVec.ofNat 8 n + 1 ≠ 3 := by
      have hcases : n = 0 ∨ n = 1 := by omega
      rcases hcases with rfl | rfl <;> decide
    have hsucc : BitVec.ofNat 8 n + 1 = BitVec.ofNat 8 (n + 1) := (BitVec.ofNat_add n 1).symm
    rw [respond_cons_of_eq _ (exchange_addressing f addr hn b), hsucc]
    dsimp only
    rw [ih (by omega), List.foldl_cons, List.length_cons, Nat.add_right_comm, Nat.add_assoc]

/-- A transaction of fewer than four bytes leaves the array unchanged exactly where it does not
come down to an erase: with the latch set, of a sector that holds something. -/
theorem truncated_unchanged_iff (f : W25Q32Flash) (tx : List Byte) (h : tx.length < 4) :
    (f.transaction tx).1.data = f.data ↔
      ¬ (f.cmdInForce tx = cmdSectorErase ∧ f.wel = true ∧ ¬ f.ErasedAt (f.addrInForce tx)) := by
  show ((respond exchange f.csAssert tx).1.commit).data = f.data ↔ _
  cases tx with
  | nil => exact data_commit_eq_iff (f := f.csAssert) rfl
  | cons c bytes =>
    rw [List.length_cons] at h
    by_cases hspecial : c = cmdWriteEnable ∨ c = cmdReadId ∨ c = cmdReadStatus
    · -- these take no address, and commit nothing
      have hstarted : Started c f.data (f.csAssert.exchange c).1 := by
        rcases hspecial with rfl | rfl | rfl <;> exact ⟨State.noConfusion, rfl, rfl⟩
      have hne : c ≠ cmdPageProgram ∧ c ≠ cmdSectorErase := by
        rcases hspecial with rfl | rfl | rfl <;> decide
      obtain ⟨-, hcmd, hdata⟩ :=
        respond_invariant (Started c f.data) (fun _ b hg ↦ hg.exchange b) hstarted bytes
      rw [respond_cons]
      dsimp only
      rw [commit_of_ne (by rw [hcmd]; exact hne.1) (by rw [hcmd]; exact hne.2)]
      exact ⟨fun _ hcond ↦ hne.2 hcond.1, fun _ ↦ hdata⟩
    · rw [not_or, not_or] at hspecial
      obtain ⟨hen, hid, hst⟩ := hspecial
      have haddr : (respond exchange (f.addressing c 0 (BitVec.ofNat 8 0)) bytes).1 = _ :=
        respond_addressing (by omega)
      rw [respond_cons_of_eq _ (exchange_cmd f hen hid hst)]
      dsimp only
      rw [show (0 : Byte) = BitVec.ofNat 8 0 from rfl, haddr]
      exact data_commit_eq_iff (f := f.addressing c _ _) rfl

/-- A page program cut off behind two bytes of its address. -/
theorem truncated_pageProgram_unchanged :
    (({ wel := true } : W25Q32Flash).transaction [cmdPageProgram, 0x12, 0x34]).1.data =
      ({ wel := true } : W25Q32Flash).data :=
  (truncated_unchanged_iff { wel := true } [cmdPageProgram, 0x12, 0x34] (by decide)).mpr
    fun h ↦ absurd h.1 (by decide)

/-- A flash that holds a zero in cell 0, behind another write enable. -/
def worn : W25Q32Flash := ((({} : W25Q32Flash).programmed 0 [0x00]).transaction [cmdWriteEnable]).1

/-- An erase command without any address erases the first sector. -/
theorem erase_without_address :
    worn.data 0 = 0x00 ∧ (worn.transaction [cmdSectorErase]).1.data 0 = 0xFF ∧
      (worn.transaction [cmdSectorErase]).1.data ≠ worn.data := by
  have hbefore : worn.data 0 = 0x00 := by decide
  have hafter : (worn.transaction [cmdSectorErase]).1.data 0 = 0xFF := by decide
  refine ⟨hbefore, hafter, fun hsame ↦ ?_⟩
  rw [hsame, hbefore] at hafter
  exact absurd hafter (by decide)

end W25Q32Flash

end McuSimulator.Peripherals
