import McuSimulator.Base.Flags
import McuSimulator.Peripherals.Spi
import McuSimulator.Peripherals.Transactions

/-!
# Bursts of the SPI peripheral

A burst does with one word after another what the control and the data register do byte by byte:
both are one transaction of the flash.
-/

namespace McuSimulator.Peripherals

open Memory (Byte)
open Base (respond respond_nil respond_cons and_not_and_self)

namespace Spi

/-- The bytes of a word, most significant first. -/
def wordBytes (val : BitVec 32) : List Byte :=
  [(val >>> 24).setWidth 8, (val >>> 16).setWidth 8, (val >>> 8).setWidth 8, val.setWidth 8]

/-- Write the words to the burst buffer, from word `k` on. -/
def burstWrites (k : Nat) (ws : List (BitVec 32)) : List Op :=
  ws.mapIdx fun i w ↦ .write (BitVec.ofNat 32 (regBurstTx + 4 * (k + i))) w

/-- Set the length of the burst and write its words. -/
def burstOps (ws : List (BitVec 32)) : List Op :=
  .write regBurstLen (BitVec.ofNat 32 ws.length) :: burstWrites 0 ws

/-- Write bytes to the data register. -/
def byteWrites (bytes : List Byte) : List Op :=
  bytes.map fun b ↦ .write regDr (b.setWidth 32)

/-- Assert chip select, write the bytes of the words one by one, and deassert it. -/
def byteOps (low high : BitVec 32) (ws : List (BitVec 32)) : List Op :=
  .write regCr low :: byteWrites (ws.flatMap wordBytes) ++ [.write regCr high]

/-- The bytes of the first `n` words of the receive buffer. -/
def readBurst (s : Spi) (n : Nat) : List Byte :=
  (List.range n).flatMap fun i ↦
    wordBytes (s.readReg (BitVec.ofNat 32 (regBurstRx + 4 * i))).2

/-! ### Byte by byte -/

private theorem transferByte_of_csActive {s : Spi} (h : s.csActive = true) (tx : Byte) :
    s.transferByte tx =
      ({ s with flash := (s.flash.exchange tx).1, calls := s.calls ++ [.exchange tx] },
        (s.flash.exchange tx).2) :=
  if_pos h

/-- What the bytes written to the data register make of the flash and the queue. -/
theorem foldl_byteWrites {s : Spi} (h : s.csActive = true) (bytes : List Byte) :
    ((byteWrites bytes).foldl exec s).flash = (respond W25Q32Flash.exchange s.flash bytes).1 ∧
    ((byteWrites bytes).foldl exec s).rxQueue =
      s.rxQueue ++ (respond W25Q32Flash.exchange s.flash bytes).2 ∧
    ((byteWrites bytes).foldl exec s).csActive = true := by
  induction bytes generalizing s with
  | nil => exact ⟨rfl, (List.append_nil _).symm, h⟩
  | cons b bytes ih =>
    have hb : (b.setWidth 32).setWidth 8 = b := by simp
    have hexec : s.exec (.write regDr (b.setWidth 32)) =
        { s with
          flash := (s.flash.exchange b).1, calls := s.calls ++ [.exchange b]
          rxQueue := s.rxQueue ++ [(s.flash.exchange b).2] } := by
      rw [exec, writeReg, if_neg (by decide), if_pos rfl, hb, transferByte_of_csActive h]
    rw [byteWrites, List.map_cons, List.foldl_cons, hexec, respond_cons]
    obtain ⟨hflash, hqueue, hactive⟩ := ih (s := { s with
      flash := (s.flash.exchange b).1, calls := s.calls ++ [.exchange b]
      rxQueue := s.rxQueue ++ [(s.flash.exchange b).2] }) h
    refine ⟨hflash, hqueue.trans ?_, hactive⟩
    rw [List.append_assoc]
    rfl

private theorem setNss_assert {s : Spi} (h : s.csActive = false) :
    s.setNss true = { s.assertCs with cr := s.cr ||| crNssLow } := by
  simp [setNss, h, assertCs]

private theorem setNss_deassert {s : Spi} (h : s.csActive = true) :
    s.setNss false = { s.deassertCs with cr := s.cr &&& ~~~crNssLow } := by
  simp [setNss, h, deassertCs]

private theorem exec_write_cr (s : Spi) (val : BitVec 32) : s.exec (.write regCr val) =
    ({ s with cr := val &&& 0x0F } : Spi).setNss (val &&& crNssLow ≠ 0) := by
  rw [exec, writeReg, if_pos rfl]

private theorem exec_assert {s : Spi} (h : s.csActive = false) {low : BitVec 32}
    (hlow : low &&& crNssLow ≠ 0) :
    (s.exec (.write regCr low)).flash = s.flash.csAssert ∧
    (s.exec (.write regCr low)).rxQueue = s.rxQueue ∧
    (s.exec (.write regCr low)).csActive = true := by
  rw [exec_write_cr, decide_eq_true hlow,
    setNss_assert (s := { s with cr := low &&& 0x0F }) h]
  exact ⟨rfl, rfl, rfl⟩

private theorem exec_deassert {s : Spi} (h : s.csActive = true) {high : BitVec 32}
    (hhigh : high &&& crNssLow = 0) :
    (s.exec (.write regCr high)).flash = s.flash.csDeassert ∧
    (s.exec (.write regCr high)).rxQueue = s.rxQueue ∧
    (s.exec (.write regCr high)).csActive = false ∧
    (s.exec (.write regCr high)).cr &&& crNssLow = 0 := by
  rw [exec_write_cr, decide_eq_false (not_not_intro hhigh),
    setNss_deassert (s := { s with cr := high &&& 0x0F }) h]
  exact ⟨rfl, rfl, rfl, and_not_and_self _ _⟩

/-- The words sent byte by byte are a transaction of the flash, and its answers are queued. -/
theorem foldl_byteOps {s : Spi} (h : s.csActive = false) {low high : BitVec 32}
    (hlow : low &&& crNssLow ≠ 0) (hhigh : high &&& crNssLow = 0) (ws : List (BitVec 32)) :
    ((byteOps low high ws).foldl exec s).flash =
      (s.flash.transaction (ws.flatMap wordBytes)).1 ∧
    ((byteOps low high ws).foldl exec s).rxQueue =
      s.rxQueue ++ (s.flash.transaction (ws.flatMap wordBytes)).2 ∧
    ((byteOps low high ws).foldl exec s).csActive = false ∧
    ((byteOps low high ws).foldl exec s).cr &&& crNssLow = 0 := by
  obtain ⟨hflash, hqueue, hactive⟩ := exec_assert h hlow
  obtain ⟨hflash', hqueue', hactive'⟩ := foldl_byteWrites hactive (ws.flatMap wordBytes)
  obtain ⟨hflash'', hqueue'', hactive'', hcr⟩ := exec_deassert hactive' hhigh
  rw [byteOps, List.cons_append, List.foldl_cons, List.foldl_append, List.foldl_cons,
    List.foldl_nil]
  refine ⟨?_, ?_, hactive'', hcr⟩
  · rw [hflash'', hflash', hflash]
    rfl
  · rw [hqueue'', hqueue', hqueue, hflash]
    rfl

/-! ### The buffers -/

section Word

variable (a b c d : Byte)

/-- The word of four bytes, most significant first. -/
def wordOf : BitVec 32 :=
  a.setWidth 32 <<< 24 ||| b.setWidth 32 <<< 16 ||| c.setWidth 32 <<< 8 ||| d.setWidth 32

private theorem wordOf_byte3 : (wordOf a b c d >>> 24).setWidth 8 = a := by
  unfold wordOf
  ext i hi
  have hb : b.getLsbD (24 + i - 16) = false := BitVec.getLsbD_of_ge b _ (by omega)
  have hc : c.getLsbD (24 + i - 8) = false := BitVec.getLsbD_of_ge c _ (by omega)
  have hd : d.getLsbD (24 + i) = false := BitVec.getLsbD_of_ge d _ (by omega)
  simp [hb, hc, hd]
  grind

private theorem wordOf_byte2 : (wordOf a b c d >>> 16).setWidth 8 = b := by
  unfold wordOf
  ext i hi
  have hc : c.getLsbD (16 + i - 8) = false := BitVec.getLsbD_of_ge c _ (by omega)
  have hd : d.getLsbD (16 + i) = false := BitVec.getLsbD_of_ge d _ (by omega)
  simp [hc, hd]
  grind

private theorem wordOf_byte1 : (wordOf a b c d >>> 8).setWidth 8 = c := by
  unfold wordOf
  ext i hi
  simp
  grind

private theorem wordOf_byte0 : (wordOf a b c d).setWidth 8 = d := by
  unfold wordOf
  ext i hi
  simp

private theorem wordBytes_wordOf : wordBytes (wordOf a b c d) = [a, b, c, d] := by
  rw [wordBytes, wordOf_byte3, wordOf_byte2, wordOf_byte1, wordOf_byte0]

end Word

/-- The bytes of a word of a buffer. -/
theorem wordBytes_burstWord (bytes : Nat → Byte) (idx : Nat) :
    wordBytes (burstWord bytes idx) = (List.range' (idx * 4) 4).map bytes :=
  wordBytes_wordOf _ _ _ _

/-- The bytes stored for a word. -/
theorem map_setBurstWord (bytes : Nat → Byte) (idx : Nat) (val : BitVec 32) :
    (List.range' (idx * 4) 4).map (setBurstWord bytes idx val) = wordBytes val := by
  simp [List.range'_succ, setBurstWord, wordBytes]

/-- Words stored in a buffer, from word `k` on. -/
def fillWords (bytes : Nat → Byte) : Nat → List (BitVec 32) → Nat → Byte
  | _, [] => bytes
  | k, w :: ws => fillWords (setBurstWord bytes k w) (k + 1) ws

private theorem fillWords_of_lt (bytes : Nat → Byte) {k : Nat} (ws : List (BitVec 32)) {c : Nat}
    (h : c < k * 4) : fillWords bytes k ws c = bytes c := by
  induction ws generalizing bytes k with
  | nil => rfl
  | cons w ws ih =>
    rw [fillWords, ih _ (by omega), setBurstWord, Function.update_of_ne (by omega),
      Function.update_of_ne (by omega), Function.update_of_ne (by omega),
      Function.update_of_ne (by omega)]

/-- The buffer holds the bytes of the words in their order. -/
theorem map_fillWords (bytes : Nat → Byte) (k : Nat) (ws : List (BitVec 32)) :
    (List.range' (k * 4) (ws.length * 4)).map (fillWords bytes k ws) = ws.flatMap wordBytes := by
  induction ws generalizing bytes k with
  | nil => rfl
  | cons w ws ih =>
    have hfirst : (List.range' (k * 4) 4).map (fillWords bytes k (w :: ws)) = wordBytes w := by
      rw [← map_setBurstWord bytes k w]
      apply List.map_congr_left
      intro c hc
      rw [List.mem_range'_1] at hc
      exact fillWords_of_lt _ ws (by omega)
    have hsplit : List.range' (k * 4) ((ws.length + 1) * 4) =
        List.range' (k * 4) 4 ++ List.range' ((k + 1) * 4) (ws.length * 4) := by
      rw [Nat.add_mul k, List.range'_append_1]
      congr 1
      omega
    rw [List.length_cons, hsplit, List.map_append, List.flatMap_cons, hfirst]
    exact congrArg _ (ih _ (k + 1))

/-! ### The burst -/

/-- The loop of the burst exchanges the bytes of the transmit buffer and keeps the answers. -/
theorem burstLoop_eq_respond {s : Spi} (h : s.csActive = true) (n i : Nat) :
    (burstLoop n i s).flash =
      (respond W25Q32Flash.exchange s.flash ((List.range' i n).map s.burstTx)).1 ∧
    (List.range' i n).map (burstLoop n i s).burstRx =
      (respond W25Q32Flash.exchange s.flash ((List.range' i n).map s.burstTx)).2 ∧
    (∀ c < i, (burstLoop n i s).burstRx c = s.burstRx c) := by
  induction n generalizing i s with
  | zero => exact ⟨rfl, rfl, fun _ _ ↦ rfl⟩
  | succ n ih =>
    rw [burstLoop, transferByte_of_csActive h, List.range'_succ, List.map_cons, List.map_cons,
      respond_cons]
    dsimp only
    obtain ⟨hflash, hanswers, hbelow⟩ := ih (i := i + 1) (s := { s with
      flash := (s.flash.exchange (s.burstTx i)).1
      calls := s.calls ++ [.exchange (s.burstTx i)]
      burstRx := Function.update s.burstRx i (s.flash.exchange (s.burstTx i)).2 }) h
    refine ⟨hflash, ?_, fun c hc ↦ ?_⟩
    · rw [hbelow i (Nat.lt_succ_self i), hanswers]
      dsimp only
      rw [Function.update_self]
    · rw [hbelow c (by omega)]
      exact Function.update_of_ne (by omega) _ _

/-- A burst is a transaction of the flash with the bytes of the transmit buffer. -/
theorem doBurst_eq_transaction {s : Spi} (h : s.csActive = false) (hlen : s.burstLen.toNat ≤ 16) :
    s.doBurst.flash =
      (s.flash.transaction ((List.range' 0 (s.burstLen.toNat * 4)).map s.burstTx)).1 ∧
    (List.range' 0 (s.burstLen.toNat * 4)).map s.doBurst.burstRx =
      (s.flash.transaction ((List.range' 0 (s.burstLen.toNat * 4)).map s.burstTx)).2 ∧
    s.doBurst.csActive = false ∧ s.doBurst.cr &&& crNssLow = 0 := by
  have hbytes : min (s.burstLen * 4).toNat burstRegs = s.burstLen.toNat * 4 := by
    rw [BitVec.toNat_mul, show (4 : BitVec 32).toNat = 4 from rfl]
    unfold burstRegs
    omega
  obtain ⟨hflash, hanswers, -⟩ :=
    burstLoop_eq_respond (s := s.assertCs) rfl (s.burstLen.toNat * 4) 0
  have hdo : s.doBurst =
      { (burstLoop (s.burstLen.toNat * 4) 0 s.assertCs).deassertCs with
        cr := (burstLoop (s.burstLen.toNat * 4) 0 s.assertCs).cr &&& ~~~crNssLow } := by
    rw [doBurst, if_neg (by rw [h]; exact Bool.false_ne_true)]
    dsimp only
    rw [show s.assertCs.burstLen = s.burstLen from rfl, hbytes]
    rfl
  rw [hdo]
  refine ⟨?_, hanswers, rfl, and_not_and_self _ _⟩
  show (burstLoop _ 0 s.assertCs).flash.csDeassert = _
  rw [hflash]
  rfl

/-! ### Writing the words -/

section Offset

variable {reg i : Nat} (hreg : regBurstTx ≤ reg ∧ reg ≤ regBurstRx) (hi : i < 16)

include hreg hi

/-- The offset of word `i` of a burst buffer. -/
theorem toNat_wordOffset : (BitVec.ofNat 32 (reg + 4 * i)).toNat = reg + 4 * i := by
  obtain ⟨-, hle⟩ := hreg
  unfold regBurstRx at hle
  rw [BitVec.toNat_ofNat]
  omega

/-- The other registers lie below the buffers. -/
theorem wordOffset_ne {r : BitVec 32} (hr : r.toNat < regBurstTx) :
    BitVec.ofNat 32 (reg + 4 * i) ≠ r := by
  intro heq
  have hoffset := toNat_wordOffset hreg hi
  rw [heq] at hoffset
  omega

private theorem inBurst_wordOffset : InBurst reg (BitVec.ofNat 32 (reg + 4 * i)) := by
  unfold InBurst
  rw [toNat_wordOffset hreg hi]
  unfold burstRegs
  omega

private theorem wordOffset_div : ((BitVec.ofNat 32 (reg + 4 * i)).toNat - reg) / 4 = i := by
  rw [toNat_wordOffset hreg hi]
  omega

end Offset

private theorem burstTx_reg : regBurstTx ≤ regBurstTx ∧ regBurstTx ≤ regBurstRx := by decide

private theorem burstRx_reg : regBurstTx ≤ regBurstRx ∧ regBurstRx ≤ regBurstRx := by decide

/-- A word written to the transmit buffer is stored, and starts the burst if it is the last. -/
theorem exec_burstTx (s : Spi) {k : Nat} (hk : k < 16) (w : BitVec 32) :
    s.exec (.write (BitVec.ofNat 32 (regBurstTx + 4 * k)) w) =
      if s.burstLen.toNat ≤ k + 1 then
        ({ s with burstTx := setBurstWord s.burstTx k w } : Spi).doBurst
      else { s with burstTx := setBurstWord s.burstTx k w } := by
  rw [exec, writeReg, if_neg (wordOffset_ne burstTx_reg hk (by decide)),
    if_neg (wordOffset_ne burstTx_reg hk (by decide)),
    if_neg (wordOffset_ne burstTx_reg hk (by decide)),
    if_pos (inBurst_wordOffset burstTx_reg hk), wordOffset_div burstTx_reg hk]

/-- A read of the receive buffer gives its word. -/
theorem readReg_burstRx (s : Spi) {k : Nat} (hk : k < 16) :
    (s.readReg (BitVec.ofNat 32 (regBurstRx + 4 * k))).2 = burstWord s.burstRx k := by
  have htx : ¬ InBurst regBurstTx (BitVec.ofNat 32 (regBurstRx + 4 * k)) := by
    intro h
    unfold InBurst at h
    rw [toNat_wordOffset burstRx_reg hk] at h
    unfold regBurstRx regBurstTx burstRegs at h
    omega
  rw [readReg, if_neg (wordOffset_ne burstRx_reg hk (by decide)),
    if_neg (wordOffset_ne burstRx_reg hk (by decide)),
    if_neg (wordOffset_ne burstRx_reg hk (by decide)),
    if_neg (wordOffset_ne burstRx_reg hk (by decide)), if_neg htx,
    if_pos (inBurst_wordOffset burstRx_reg hk), wordOffset_div burstRx_reg hk]

/-- The words of a burst, written in ascending order, fill the buffer; the last starts it. -/
theorem foldl_burstWrites {s : Spi} {k : Nat} {ws : List (BitVec 32)} (hne : ws ≠ [])
    (hk : k + ws.length ≤ 16) (hlen : s.burstLen.toNat = k + ws.length) :
    (burstWrites k ws).foldl exec s =
      ({ s with burstTx := fillWords s.burstTx k ws } : Spi).doBurst := by
  induction ws generalizing s k with
  | nil => exact absurd rfl hne
  | cons w ws ih =>
    rw [List.length_cons] at hk hlen
    have hshift : ws.mapIdx (fun i w ↦
        Op.write (BitVec.ofNat 32 (regBurstTx + 4 * (k + (i + 1)))) w) =
          burstWrites (k + 1) ws := by
      unfold burstWrites
      congr 1
      funext i w
      rw [Nat.add_right_comm k, Nat.add_assoc]
    rw [burstWrites, List.mapIdx_cons, List.foldl_cons, Nat.add_zero, hshift,
      exec_burstTx s (by omega) w]
    cases ws with
    | nil =>
      rw [if_pos (by rw [hlen]; exact Nat.le_refl _)]
      rfl
    | cons w' ws =>
      rw [if_neg (by rw [hlen, List.length_cons]; omega)]
      exact ih (s := { s with burstTx := setBurstWord s.burstTx k w }) (List.cons_ne_nil _ _)
        (by omega) (by rw [hlen]; omega)

/-- Reads of the receive buffer give its bytes. -/
theorem readBurst_eq (s : Spi) {n : Nat} (hn : n ≤ 16) :
    s.readBurst n = (List.range' 0 (n * 4)).map s.burstRx := by
  induction n with
  | zero => rfl
  | succ n ih =>
    unfold readBurst at *
    rw [List.range_succ, List.flatMap_append, ih (by omega), List.flatMap_singleton,
      readReg_burstRx s hn, wordBytes_burstWord, ← List.map_append, Nat.add_mul,
      ← List.range'_append_1, Nat.zero_add]

/-- A burst is a transaction of the flash with the bytes of its words, and its answers are read
back from the receive buffer. -/
theorem foldl_burstOps {s : Spi} (h : s.csActive = false) {ws : List (BitVec 32)} (hne : ws ≠ [])
    (hlen : ws.length ≤ 16) :
    ((burstOps ws).foldl exec s).flash = (s.flash.transaction (ws.flatMap wordBytes)).1 ∧
    ((burstOps ws).foldl exec s).readBurst ws.length =
      (s.flash.transaction (ws.flatMap wordBytes)).2 ∧
    ((burstOps ws).foldl exec s).csActive = false ∧
    ((burstOps ws).foldl exec s).cr &&& crNssLow = 0 := by
  have hn : (BitVec.ofNat 32 ws.length).toNat = ws.length := by
    rw [BitVec.toNat_ofNat]
    omega
  have hexec : s.exec (.write regBurstLen (BitVec.ofNat 32 ws.length)) =
      { s with burstLen := BitVec.ofNat 32 ws.length } := by
    have hmin : ¬ (16 : BitVec 32) < BitVec.ofNat 32 ws.length := by
      rw [BitVec.lt_def, hn, show (16 : BitVec 32).toNat = 16 from rfl]
      omega
    rw [exec, writeReg, if_neg (by decide), if_neg (by decide), if_pos rfl, if_neg hmin]
  have hbytes := map_fillWords s.burstTx 0 ws
  rw [Nat.zero_mul] at hbytes
  rw [burstOps, List.foldl_cons, hexec,
    foldl_burstWrites hne (by omega) (by rw [hn, Nat.zero_add])]
  obtain ⟨hflash, hanswers, hactive, hcr⟩ := doBurst_eq_transaction
    (s := { s with
      burstLen := BitVec.ofNat 32 ws.length, burstTx := fillWords s.burstTx 0 ws }) h
    ((Nat.le_of_eq hn).trans hlen)
  dsimp only at hflash hanswers
  rw [hn, hbytes] at hflash hanswers
  exact ⟨hflash, (readBurst_eq _ hlen).trans hanswers, hactive, hcr⟩

/-- A burst does to the flash what the bytes of its words do, sent one by one between the assert
and the deassert of chip select, and its receive buffer holds what these queue. -/
theorem burst_eq_bytewise (s : Spi) (h : s.csActive = false) (ws : List (BitVec 32))
    (hpos : 1 ≤ ws.length) (hlen : ws.length ≤ 16) (low high : BitVec 32)
    (hlow : low &&& crNssLow ≠ 0) (hhigh : high &&& crNssLow = 0) :
    ((burstOps ws).foldl exec s).flash = ((byteOps low high ws).foldl exec s).flash ∧
    ((byteOps low high ws).foldl exec s).rxQueue =
      s.rxQueue ++ ((burstOps ws).foldl exec s).readBurst ws.length ∧
    (((burstOps ws).foldl exec s).csActive = false ∧
      ((burstOps ws).foldl exec s).cr &&& crNssLow = 0) ∧
    (((byteOps low high ws).foldl exec s).csActive = false ∧
      ((byteOps low high ws).foldl exec s).cr &&& crNssLow = 0) := by
  have hne : ws ≠ [] := List.ne_nil_of_length_pos hpos
  obtain ⟨hflash, hanswers, hactive, hcr⟩ := foldl_burstOps h hne hlen
  obtain ⟨hflash', hqueue, hactive', hcr'⟩ := foldl_byteOps h hlow hhigh ws
  exact ⟨hflash.trans hflash'.symm, by rw [hqueue, hanswers], ⟨hactive, hcr⟩, ⟨hactive', hcr'⟩⟩

/-- A peripheral whose flash has been programmed in two bursts. -/
def programmedSpi : Spi :=
  (burstOps [0x06000000] ++ burstOps [0x02000000, 0xA5C30FF0]).foldl exec {}

/-- A read of three words, the last two of which carry the answer. -/
theorem burst_readBack :
    ((burstOps [0x03000000, 0, 0]).foldl exec programmedSpi).flash =
      ((byteOps crNssLow 0 [0x03000000, 0, 0]).foldl exec programmedSpi).flash ∧
    ((byteOps crNssLow 0 [0x03000000, 0, 0]).foldl exec programmedSpi).rxQueue =
      programmedSpi.rxQueue ++
        ((burstOps [0x03000000, 0, 0]).foldl exec programmedSpi).readBurst 3 := by
  obtain ⟨hflash, hqueue, -⟩ := burst_eq_bytewise programmedSpi (by decide) [0x03000000, 0, 0]
    (by decide) (by decide) crNssLow 0 (by decide) (by decide)
  exact ⟨hflash, hqueue⟩

/-- Its answers are the bytes that have been programmed. -/
example : ((burstOps [0x03000000, 0, 0]).foldl exec programmedSpi).readBurst 3 =
    [0xFF, 0xFF, 0xFF, 0xFF, 0xA5, 0xC3, 0x0F, 0xF0, 0xFF, 0xFF, 0xFF, 0xFF] := by
  decide +kernel

end Spi

end McuSimulator.Peripherals
