import McuSimulator.Base.Flags
import McuSimulator.Peripherals.Can

/-!
# Delivery of CAN frames

What each node has received, said from the accesses made so far: which frame a node has staged,
which filter it has set, whether it still is in the table, and from these which frames are pending
and whether one was dropped. The controllers agree with this after any accesses.
-/

namespace McuSimulator.Peripherals

open Base (RingBuf or_and_of_disjoint and_not_and_of_disjoint or_and_ne_zero and_not_and_self)
open Memory (Byte toLittleEndian byteOf getElem?_toLittleEndian)

namespace CanBus

/-- What is done to the nodes of a bus. -/
inductive Op
  | write (n : NodeId) (offset val : BitVec 32)
  | detach (n : NodeId)
  deriving DecidableEq, Repr

/-- The bus after an operation. -/
def exec (b : CanBus) : Op → CanBus
  | .write n offset val => b.writeReg n offset val
  | .detach n => b.detach n

/-- The bus after a history, which lists the last operation first. -/
def after (nodes : List NodeId) : List Op → CanBus
  | [] => start nodes
  | op :: past => (after nodes past).exec op

/-! ### What a history says -/

/-- The frame that node `n` has staged: eleven bits of identifier, a length of at most eight and
two words of data. -/
def staged (n : NodeId) : List Op → CanFrame
  | [] => {}
  | .detach _ :: past => staged n past
  | .write m offset val :: past =>
    let f := staged n past
    if m ≠ n then f
    else if offset = Can.regTxId then { f with id := BitVec.ofNat 16 (val.toNat % 2048) }
    else if offset = Can.regTxDlc then { f with dlc := BitVec.ofNat 8 (min (val.toNat % 16) 8) }
    else if offset = Can.regTxD0 then
      { f with data := fun j ↦ if j.val < 4 then byteOf val j else f.data j }
    else if offset = Can.regTxD1 then
      { f with data := fun j ↦ if 4 ≤ j.val then byteOf val (j - 4) else f.data j }
    else f

/-- Identifier and mask of the filter of node `n`. -/
def filter (n : NodeId) : List Op → BitVec 16 × BitVec 16
  | [] => (0, 0)
  | .detach _ :: past => filter n past
  | .write m offset val :: past =>
    let (id, mask) := filter n past
    if m ≠ n then (id, mask)
    else if offset = Can.regFilterId then (BitVec.ofNat 16 (val.toNat % 2048), mask)
    else if offset = Can.regFilterMask then (id, BitVec.ofNat 16 (val.toNat % 2048))
    else (id, mask)

/-- Node `m` is in the table: it found a place, and was not detached. -/
def InTable (nodes : List NodeId) (m : NodeId) (past : List Op) : Prop :=
  m ∈ nodes.take maxNodes ∧ .detach m ∉ past

instance (nodes : List NodeId) (m : NodeId) (past : List Op) : Decidable (InTable nodes m past) :=
  inferInstanceAs (Decidable (_ ∧ _))

/-- A frame that node `n` sends now reaches node `m` and passes its filter. -/
def Passes (nodes : List NodeId) (n m : NodeId) (past : List Op) : Prop :=
  InTable nodes m past ∧ m ≠ n ∧
    (staged n past).id &&& (filter m past).2 = (filter m past).1 &&& (filter m past).2

instance (nodes : List NodeId) (n m : NodeId) (past : List Op) :
    Decidable (Passes nodes n m past) :=
  inferInstanceAs (Decidable (_ ∧ _ ∧ _))

/-- The frames pending at node `m`, oldest first, each with its sender. -/
def pending (nodes : List NodeId) (m : NodeId) : List Op → List (NodeId × CanFrame)
  | [] => []
  | .detach _ :: past => pending nodes m past
  | .write n offset _ :: past =>
    let frames := pending nodes m past
    if offset = Can.regTxSend then
      if Passes nodes n m past ∧ frames.length < Can.rxCapacity then frames ++ [(n, staged n past)]
      else frames
    else if offset = Can.regRxPop ∧ n = m then frames.tail
    else frames

/-- A frame that passed the filter of node `m` found no place there. -/
def Dropped (nodes : List NodeId) (m : NodeId) : List Op → Prop
  | [] => False
  | .detach _ :: past => Dropped nodes m past
  | .write n offset _ :: past =>
    Dropped nodes m past ∨ offset = Can.regTxSend ∧ Passes nodes n m past ∧
      (pending nodes m past).length = Can.rxCapacity

instance decidableDropped (nodes : List NodeId) (m : NodeId) :
    (past : List Op) → Decidable (Dropped nodes m past)
  | [] => .isFalse id
  | .detach _ :: past => decidableDropped nodes m past
  | .write _ _ _ :: past =>
    have := decidableDropped nodes m past
    inferInstanceAs (Decidable (_ ∨ _))

/-! ### Registers -/

private theorem setWidth_and_id (val : BitVec 32) :
    (val &&& 0x7FF).setWidth 16 = BitVec.ofNat 16 (val.toNat % 2048) := by
  apply BitVec.eq_of_toNat_eq
  rw [BitVec.toNat_setWidth, BitVec.toNat_and, BitVec.toNat_ofNat]
  exact congrArg (· % 2 ^ 16) (Nat.and_two_pow_sub_one_eq_mod val.toNat 11)

private theorem min_setWidth_and_dlc (val : BitVec 32) :
    (if 8 < (val &&& 0xF).setWidth 8 then (8 : Byte) else (val &&& 0xF).setWidth 8) =
      BitVec.ofNat 8 (min (val.toNat % 16) 8) := by
  have hv : ((val &&& 0xF).setWidth 8).toNat = val.toNat % 16 := by
    have hand := Nat.and_two_pow_sub_one_eq_mod val.toNat 4
    rw [BitVec.toNat_setWidth, BitVec.toNat_and]
    exact (congrArg (· % 2 ^ 8) hand).trans (Nat.mod_eq_of_lt (by omega))
  apply BitVec.eq_of_toNat_eq
  rw [BitVec.toNat_ofNat]
  split
  case isTrue h =>
    have h8 : 8 < ((val &&& 0xF).setWidth 8).toNat := BitVec.lt_def.mp h
    rw [show (8 : Byte).toNat = 8 from rfl]
    omega
  case isFalse h =>
    have h8 : ¬ 8 < ((val &&& 0xF).setWidth 8).toNat := fun h' ↦ h (BitVec.lt_def.mpr h')
    omega

private theorem getElem?_toLittleEndian_of_le (val : BitVec 32) {i : Nat} (h : 4 ≤ i) :
    (toLittleEndian 4 val)[i]? = none := by
  rw [List.getElem?_eq_none]
  simpa using h

private theorem setWord_zero (f : CanFrame) (val : BitVec 32) : f.setWord 0 val =
    { f with data := fun j ↦ if j.val < 4 then byteOf val j else f.data j } := by
  rw [CanFrame.setWord]
  congr 1
  funext j
  rw [if_pos (Nat.zero_le _), Nat.sub_zero]
  split
  case isTrue h => rw [getElem?_toLittleEndian val h, Option.getD_some]
  case isFalse h => rw [getElem?_toLittleEndian_of_le val (by omega), Option.getD_none]

private theorem setWord_four (f : CanFrame) (val : BitVec 32) : f.setWord 4 val =
    { f with data := fun j ↦ if 4 ≤ j.val then byteOf val (j - 4) else f.data j } := by
  rw [CanFrame.setWord]
  congr 1
  funext j
  split
  case isTrue h => rw [getElem?_toLittleEndian val (by omega), Option.getD_some]
  case isFalse => rfl

/-! ### One node -/

/-- The receiving side of a controller: its ring holds these frames, and the status register says
whether there are any and whether one was dropped. -/
structure Receives (frames : List CanFrame) (dropped : Prop) (c : Can) : Prop where
  wf : c.rx.WF Can.rxCapacity
  contents : c.rx.contents Can.rxCapacity = frames
  ready : c.sr &&& Can.srRxReady ≠ 0 ↔ frames ≠ []
  overflow : c.sr &&& Can.srRxOverflow ≠ 0 ↔ dropped

section Receives

variable {frames : List CanFrame} {dropped : Prop} {c : Can}

private theorem receives_new : Receives [] False {} where
  wf := ⟨by decide, by decide, rfl⟩
  contents := rfl
  ready := by decide
  overflow := by decide

/-- The counter of the ring is the number of pending frames. -/
theorem Receives.count (h : Receives frames dropped c) : c.rx.count = frames.length := by
  rw [← h.contents, RingBuf.length_contents]

private theorem Receives.of_eq {c' : Can} (h : Receives frames dropped c) (hrx : c'.rx = c.rx)
    (hsr : c'.sr = c.sr) : Receives frames dropped c' := by
  obtain ⟨hwf, hcontents, hready, hoverflow⟩ := h
  constructor
  · rwa [hrx]
  · rwa [hrx]
  · rwa [hsr]
  · rwa [hsr]

private theorem Receives.txOk (h : Receives frames dropped c) : Receives frames dropped
    { c with sr := c.sr &&& ~~~Can.srTxOk ||| Can.srTxOk } where
  wf := h.wf
  contents := h.contents
  ready := by
    rw [or_and_of_disjoint (by decide), and_not_and_of_disjoint (by decide)]
    exact h.ready
  overflow := by
    rw [or_and_of_disjoint (by decide), and_not_and_of_disjoint (by decide)]
    exact h.overflow

/-- A frame that passes the filter and finds a place is the last one pending. -/
theorem Receives.inject (h : Receives frames dropped c) {f : CanFrame} (hf : c.PassesFilter f.id)
    (hlt : frames.length < Can.rxCapacity) :
    Receives (frames ++ [f]) dropped (c.inject f).1 := by
  have hcount : c.rx.count < Can.rxCapacity := h.count ▸ hlt
  have heq : (c.inject f).1 =
      { c with rx := c.rx.push Can.rxCapacity f, sr := c.sr ||| Can.srRxReady } := by
    rw [Can.inject, if_neg (not_not.mpr hf), Can.rxPush, if_neg (by omega)]
    rfl
  rw [heq]
  constructor
  · exact RingBuf.wf_push f h.wf hcount
  · rw [← h.contents]
    exact RingBuf.contents_push f h.wf hcount
  · exact iff_of_true (or_and_ne_zero (by decide)) (by simp)
  · rw [or_and_of_disjoint (by decide)]
    exact h.overflow

/-- A frame that passes the filter and finds no place is dropped. -/
theorem Receives.inject_full (h : Receives frames dropped c) {f : CanFrame}
    (hf : c.PassesFilter f.id) (hfull : frames.length = Can.rxCapacity) :
    Receives frames True (c.inject f).1 := by
  have heq : (c.inject f).1 = { c with sr := c.sr ||| Can.srRxOverflow } := by
    rw [Can.inject, if_neg (not_not.mpr hf), Can.rxPush, if_pos (h.count.trans hfull)]
    rfl
  rw [heq]
  constructor
  · exact h.wf
  · exact h.contents
  · rw [or_and_of_disjoint (by decide)]
    exact h.ready
  · exact iff_of_true (or_and_ne_zero (by decide)) trivial

private theorem inject_of_not_passesFilter {f : CanFrame} (hf : ¬ c.PassesFilter f.id) :
    (c.inject f).1 = c := by
  rw [Can.inject, if_pos hf]

/-- A pop takes the oldest frame. -/
theorem Receives.rxPop (h : Receives frames dropped c) : Receives frames.tail dropped c.rxPop := by
  cases frames with
  | nil =>
    rw [Can.rxPop, if_neg (by rw [h.count]; exact Nat.lt_irrefl 0)]
    exact h
  | cons f rest =>
    have hcount : c.rx.count = rest.length + 1 := h.count
    have hwf := RingBuf.wf_pop h.wf (by omega)
    have hpop := RingBuf.contents_pop h.wf (by omega)
    have hrest : (c.rx.pop Can.rxCapacity).contents Can.rxCapacity = rest :=
      (List.cons.inj (hpop.symm.trans h.contents)).2
    have hlen : (c.rx.pop Can.rxCapacity).count = rest.length := by
      rw [← hrest, RingBuf.length_contents]
    rw [Can.rxPop, if_pos (by omega)]
    dsimp only
    split
    case isTrue hzero =>
      refine ⟨hwf, hrest, ?_, ?_⟩
      · rw [and_not_and_self]
        have hnil : rest = [] := List.length_eq_zero_iff.mp (hlen ▸ hzero)
        simp [hnil]
      · rw [and_not_and_of_disjoint (by decide)]
        exact h.overflow
    case isFalse hpos =>
      refine ⟨hwf, hrest, ?_, h.overflow⟩
      have hne : rest ≠ [] := fun hnil ↦ hpos (by rw [hlen, hnil]; rfl)
      exact iff_of_true (h.ready.mpr (List.cons_ne_nil f rest)) hne

end Receives

/-! ### Accesses -/

section Writes

variable {b : CanBus} {n m : NodeId} {past : List Op}

private theorem inject_frame (c : Can) (f : CanFrame) : (c.inject f).1.txFrame = c.txFrame ∧
    (c.inject f).1.filterId = c.filterId ∧ (c.inject f).1.filterMask = c.filterMask := by
  have hpush : (c.rxPush f).1.txFrame = c.txFrame ∧
      (c.rxPush f).1.filterId = c.filterId ∧ (c.rxPush f).1.filterMask = c.filterMask := by
    unfold Can.rxPush
    split <;> exact ⟨rfl, rfl, rfl⟩
  unfold Can.inject
  split
  · exact ⟨rfl, rfl, rfl⟩
  · generalize c.rxPush f = r at hpush
    dsimp only
    split <;> exact hpush

private theorem rxPop_frame (c : Can) : c.rxPop.txFrame = c.txFrame ∧
    c.rxPop.filterId = c.filterId ∧ c.rxPop.filterMask = c.filterMask := by
  unfold Can.rxPop
  dsimp only
  repeat' split
  all_goals exact ⟨rfl, rfl, rfl⟩

private theorem writeReg_nodes (offset val : BitVec 32) :
    (b.writeReg n offset val).nodes = b.nodes := by
  unfold writeReg
  dsimp only
  repeat' split
  all_goals first | exact txSend_nodes | rfl

/-- Only a transmission reaches another node. -/
theorem writeReg_can_of_ne {offset : BitVec 32} (val : BitVec 32) (h : offset ≠ Can.regTxSend)
    (hm : m ≠ n) : (b.writeReg n offset val).can m = b.can m := by
  unfold writeReg
  dsimp only
  rw [if_neg h]
  repeat' split
  all_goals first | exact set_can_of_ne _ hm | rfl

/-- What another node has staged and its filter stay. -/
theorem writeReg_frame_of_ne (hb : b.nodes.Nodup) (offset val : BitVec 32) (hm : m ≠ n) :
    ((b.writeReg n offset val).can m).txFrame = (b.can m).txFrame ∧
      ((b.writeReg n offset val).can m).filterId = (b.can m).filterId ∧
      ((b.writeReg n offset val).can m).filterMask = (b.can m).filterMask := by
  by_cases hsend : offset = Can.regTxSend
  · subst hsend
    rw [show b.writeReg n Can.regTxSend val = b.txSend n from rfl, txSend_can_of_ne hb hm]
    split
    · exact inject_frame _ _
    · exact ⟨rfl, rfl, rfl⟩
  · rw [writeReg_can_of_ne val hsend hm]
    exact ⟨rfl, rfl, rfl⟩

/-- Ring and status change by a transmission or a pop only. -/
theorem writeReg_rx {offset : BitVec 32} (val : BitVec 32) (h : offset ≠ Can.regTxSend)
    (h' : offset ≠ Can.regRxPop) :
    ((b.writeReg n offset val).can n).rx = (b.can n).rx ∧
      ((b.writeReg n offset val).can n).sr = (b.can n).sr := by
  unfold writeReg
  dsimp only
  rw [if_neg h, if_neg h']
  repeat' split
  all_goals simp

private theorem staged_write_self (hb : b.nodes.Nodup) (h : (b.can n).txFrame = staged n past)
    (offset val : BitVec 32) : ((b.writeReg n offset val).can n).txFrame =
      staged n (.write n offset val :: past) := by
  rw [staged, ← h, if_neg (not_not.mpr rfl)]
  unfold writeReg
  dsimp only
  split
  · rw [set_can_self, setWidth_and_id]
  split
  · rw [set_can_self, min_setWidth_and_dlc]
  split
  · rw [set_can_self, setWord_zero]
  split
  · rw [set_can_self, setWord_four]
  split
  · rw [txSend_can_self hb]
  split
  · rw [set_can_self]
    exact (rxPop_frame _).1
  split
  · rw [set_can_self]
  split
  · rw [set_can_self]
  · rfl

private theorem filter_write_self (hb : b.nodes.Nodup)
    (h : ((b.can n).filterId, (b.can n).filterMask) = filter n past) (offset val : BitVec 32) :
    (((b.writeReg n offset val).can n).filterId, ((b.writeReg n offset val).can n).filterMask) =
      filter n (.write n offset val :: past) := by
  rw [filter, ← h]
  dsimp only
  rw [if_neg (not_not.mpr rfl)]
  by_cases hid : offset = Can.regFilterId
  · subst hid
    have hw : (b.writeReg n Can.regFilterId val).can n =
        { b.can n with filterId := (val &&& 0x7FF).setWidth 16 } := set_can_self _
    rw [hw, if_pos rfl, setWidth_and_id]
  by_cases hmask : offset = Can.regFilterMask
  · subst hmask
    have hw : (b.writeReg n Can.regFilterMask val).can n =
        { b.can n with filterMask := (val &&& 0x7FF).setWidth 16 } := set_can_self _
    rw [hw, if_neg hid, if_pos rfl, setWidth_and_id]
  rw [if_neg hid, if_neg hmask]
  unfold writeReg
  dsimp only
  rw [if_neg hid, if_neg hmask]
  repeat' split
  all_goals first
    | rw [set_can_self]
    | rw [txSend_can_self hb]
    | rfl
  rw [(rxPop_frame _).2.1, (rxPop_frame _).2.2]

end Writes

/-! ### Every history -/

/-- The bus is what the history says. -/
structure Agrees (nodes : List NodeId) (past : List Op) (b : CanBus) : Prop where
  nodup : b.nodes.Nodup
  table : ∀ m, m ∈ b.nodes ↔ InTable nodes m past
  staged : ∀ m, (b.can m).txFrame = staged m past
  filter : ∀ m, ((b.can m).filterId, (b.can m).filterMask) = filter m past
  receives : ∀ m, Receives ((pending nodes m past).map Prod.snd) (Dropped nodes m past) (b.can m)

section Agrees

variable {nodes : List NodeId} {past : List Op} {b : CanBus}

/-- A new bus agrees with the empty history. -/
theorem agrees_start (hn : nodes.Nodup) : Agrees nodes [] (start nodes) := by
  rw [start_eq]
  constructor
  · exact hn.sublist (List.take_sublist _ _)
  · exact fun m ↦ ⟨fun h ↦ ⟨h, List.not_mem_nil⟩, And.left⟩
  · exact fun _ ↦ rfl
  · exact fun _ ↦ rfl
  · exact fun _ ↦ receives_new

private theorem Agrees.detach (h : Agrees nodes past b) (n : NodeId) :
    Agrees nodes (.detach n :: past) (b.detach n) where
  nodup := nodup_detach h.nodup n
  table m := by
    rw [mem_detach h.nodup, h.table, InTable, InTable, List.mem_cons, Op.detach.injEq]
    tauto
  staged m := by
    rw [detach_can]
    exact h.staged m
  filter m := by
    rw [detach_can]
    exact h.filter m
  receives m := by
    rw [detach_can]
    exact h.receives m

private theorem Agrees.passes_iff (h : Agrees nodes past b) {n m : NodeId} (hm : m ≠ n) :
    Passes nodes n m past ↔ m ∈ b.nodes ∧ (b.can m).PassesFilter (b.can n).txFrame.id := by
  have hfilter := Prod.mk.inj ((h.filter m).trans Prod.mk.eta.symm)
  rw [Passes, Can.PassesFilter, h.table m, h.staged n, hfilter.1, hfilter.2]
  tauto

/-- What a transmission does to the receiving side of a node. -/
theorem Agrees.receives_txSend (h : Agrees nodes past b) (n m : NodeId) (val : BitVec 32) :
    Receives ((pending nodes m (.write n Can.regTxSend val :: past)).map Prod.snd)
      (Dropped nodes m (.write n Can.regTxSend val :: past)) ((b.txSend n).can m) := by
  have hr := h.receives m
  have hlen : ((pending nodes m past).map Prod.snd).length = (pending nodes m past).length :=
    List.length_map _
  rw [pending, if_pos rfl, Dropped]
  by_cases hm : m = n
  · -- the sender
    subst hm
    have hnot : ¬ Passes nodes m m past := fun hp ↦ hp.2.1 rfl
    rw [txSend_can_self h.nodup, if_neg (fun hp ↦ hnot hp.1)]
    simp only [hnot, false_and, and_false, or_false]
    exact hr.txOk
  have hiff := h.passes_iff hm
  rw [txSend_can_of_ne h.nodup hm]
  by_cases hmem : m ∈ b.nodes
  · rw [if_pos hmem]
    by_cases hf : (b.can m).PassesFilter (b.can n).txFrame.id
    · have hp : Passes nodes n m past := hiff.mpr ⟨hmem, hf⟩
      by_cases hlt : (pending nodes m past).length < Can.rxCapacity
      · have hne : (pending nodes m past).length ≠ Can.rxCapacity := by omega
        rw [if_pos ⟨hp, hlt⟩, List.map_append, List.map_singleton, ← h.staged n]
        simp only [hne, and_false, or_false]
        exact hr.inject hf (hlen ▸ hlt)
      · have hfull : (pending nodes m past).length = Can.rxCapacity := by
          have hle := hr.wf.count_le
          rw [hr.count, hlen] at hle
          omega
        rw [if_neg (fun h' ↦ hlt h'.2)]
        simp only [hp, hfull, and_self, or_true]
        exact hr.inject_full hf (hlen.trans hfull)
    · have hp : ¬ Passes nodes n m past := fun hp ↦ hf (hiff.mp hp).2
      rw [if_neg (fun h' ↦ hp h'.1), inject_of_not_passesFilter hf]
      simp only [hp, and_false, false_and, or_false]
      exact hr
  · have hp : ¬ Passes nodes n m past := fun hp ↦ hmem (hiff.mp hp).1
    rw [if_neg hmem, if_neg (fun h' ↦ hp h'.1)]
    simp only [hp, false_and, and_false, or_false]
    exact hr

/-- What another register access does to the receiving side of a node. -/
theorem Agrees.receives_write (h : Agrees nodes past b) (n m : NodeId) {offset : BitVec 32}
    (val : BitVec 32) (hsend : offset ≠ Can.regTxSend) :
    Receives ((pending nodes m (.write n offset val :: past)).map Prod.snd)
      (Dropped nodes m (.write n offset val :: past)) ((b.writeReg n offset val).can m) := by
  have hdropped : Dropped nodes m (.write n offset val :: past) = Dropped nodes m past := by
    rw [Dropped]
    simp only [hsend, false_and, or_false]
  rw [hdropped, pending, if_neg hsend]
  by_cases hpop : offset = Can.regRxPop ∧ n = m
  · obtain ⟨rfl, rfl⟩ := hpop
    have hw : (b.writeReg n Can.regRxPop val).can n = (b.can n).rxPop := set_can_self _
    rw [if_pos ⟨rfl, rfl⟩, hw, List.map_tail]
    exact (h.receives n).rxPop
  · rw [if_neg hpop]
    by_cases hm : m = n
    · subst hm
      obtain ⟨hrx, hsr⟩ := writeReg_rx (b := b) (n := m) val hsend (fun hp ↦ hpop ⟨hp, rfl⟩)
      exact (h.receives m).of_eq hrx hsr
    · rw [writeReg_can_of_ne val hsend hm]
      exact h.receives m

/-- A register write keeps the agreement. -/
theorem Agrees.write (h : Agrees nodes past b) (n : NodeId) (offset val : BitVec 32) :
    Agrees nodes (.write n offset val :: past) (b.writeReg n offset val) := by
  have hnodes : (b.writeReg n offset val).nodes = b.nodes := writeReg_nodes offset val
  constructor
  · rw [hnodes]
    exact h.nodup
  · intro m
    rw [hnodes, h.table, InTable, InTable, List.mem_cons]
    simp
  · intro m
    by_cases hm : m = n
    · subst hm
      exact staged_write_self h.nodup (h.staged m) offset val
    · rw [(writeReg_frame_of_ne h.nodup offset val hm).1, h.staged m, CanBus.staged,
        if_pos (Ne.symm hm)]
  · intro m
    by_cases hm : m = n
    · subst hm
      exact filter_write_self h.nodup (h.filter m) offset val
    · obtain ⟨-, hid, hmask⟩ := writeReg_frame_of_ne h.nodup offset val hm
      rw [hid, hmask, h.filter m, CanBus.filter]
      dsimp only
      rw [if_pos (Ne.symm hm)]
  · intro m
    by_cases hsend : offset = Can.regTxSend
    · subst hsend
      exact h.receives_txSend n m val
    · exact h.receives_write n m val hsend

/-- The bus agrees with its history. -/
theorem agrees_after (hn : nodes.Nodup) (history : List Op) :
    Agrees nodes history (after nodes history) := by
  induction history with
  | nil => exact agrees_start hn
  | cons op past ih =>
    cases op with
    | write n offset val => exact ih.write n offset val
    | detach n => exact ih.detach n

end Agrees

/-! ### Delivery -/

/-- A staged frame has eleven bits of identifier and at most eight bytes. -/
theorem staged_le (n : NodeId) (past : List Op) :
    (staged n past).id.toNat ≤ 0x7FF ∧ (staged n past).dlc.toNat ≤ 8 := by
  induction past with
  | nil => exact ⟨Nat.zero_le _, Nat.zero_le _⟩
  | cons op past ih =>
    cases op with
    | detach _ => exact ih
    | write m offset val =>
      rw [staged]
      split
      · exact ih
      split
      · refine ⟨?_, ih.2⟩
        rw [BitVec.toNat_ofNat]
        omega
      split
      · refine ⟨ih.1, ?_⟩
        rw [BitVec.toNat_ofNat]
        omega
      split
      · exact ih
      split
      · exact ih
      · exact ih

/-- A pending frame was staged by another node when that node sent it, and it passed the filter
then. -/
theorem mem_pending {nodes : List NodeId} {m : NodeId} {past : List Op} {p : NodeId × CanFrame}
    (h : p ∈ pending nodes m past) : ∃ later val earlier,
      past = later ++ .write p.1 Can.regTxSend val :: earlier ∧ Passes nodes p.1 m earlier ∧
        p.2 = staged p.1 earlier := by
  induction past with
  | nil => cases h
  | cons op past ih =>
    -- a frame from before the last operation
    have hbefore : p ∈ pending nodes m past → ∃ later val earlier,
        op :: past = later ++ .write p.1 Can.regTxSend val :: earlier ∧
          Passes nodes p.1 m earlier ∧ p.2 = staged p.1 earlier := by
      intro hp
      obtain ⟨later, val, earlier, hpast, hrest⟩ := ih hp
      exact ⟨op :: later, val, earlier, by rw [hpast, List.cons_append], hrest⟩
    cases op with
    | detach _ => exact hbefore h
    | write n offset val =>
      rw [pending] at h
      split at h
      case isTrue hsend =>
        split at h
        case isTrue hp =>
          rcases List.mem_append.mp h with h | h
          · exact hbefore h
          · obtain rfl := List.mem_singleton.mp h
            exact ⟨[], val, past, by rw [hsend, List.nil_append], hp.1, rfl⟩
        case isFalse => exact hbefore h
      case isFalse =>
        split at h
        case isTrue => exact hbefore (List.mem_of_mem_tail h)
        case isFalse => exact hbefore h

private theorem Receives.rxPeek {frames : List CanFrame} {dropped : Prop} {c : Can}
    (h : Receives frames dropped c) : c.rxPeek = frames.head?.getD {} := by
  cases frames with
  | nil =>
    have hcount : c.rx.count = 0 := h.count
    rw [Can.rxPeek, if_pos hcount]
    rfl
  | cons f rest =>
    have hcount : c.rx.count = rest.length + 1 := h.count
    have hpop := RingBuf.contents_pop h.wf (by omega)
    rw [Can.rxPeek, if_neg (by omega)]
    exact (List.cons.inj (hpop.symm.trans h.contents)).1

/-- After any accesses to the nodes of a bus, the ring of a node holds the frames pending there,
and its status says whether there are any and whether one was dropped. -/
theorem can_delivery {nodes : List NodeId} (hn : nodes.Nodup) (history : List Op) (m : NodeId) :
    let c := (after nodes history).can m
    let frames := c.rx.contents Can.rxCapacity
    frames = (pending nodes m history).map Prod.snd ∧ c.rxPeek = frames.head?.getD {} ∧
      (∀ p ∈ pending nodes m history, p.1 ≠ m ∧ ∃ later val earlier,
        history = later ++ .write p.1 Can.regTxSend val :: earlier ∧
          Passes nodes p.1 m earlier ∧ p.2 = staged p.1 earlier) ∧
      (∀ f ∈ frames, f.id.toNat ≤ 0x7FF ∧ f.dlc.toNat ≤ 8) ∧
      (c.sr &&& Can.srRxReady ≠ 0 ↔ frames ≠ []) ∧
      (c.sr &&& Can.srRxOverflow ≠ 0 ↔ Dropped nodes m history) := by
  intro c frames
  have hr := (agrees_after hn history).receives m
  have hframes : frames = (pending nodes m history).map Prod.snd := hr.contents
  refine ⟨hframes, hframes ▸ hr.rxPeek, fun p hp ↦ ?_, fun f hf ↦ ?_, hframes ▸ hr.ready,
    hr.overflow⟩
  · obtain ⟨later, val, earlier, hpast, hpasses, hstaged⟩ := mem_pending hp
    exact ⟨Ne.symm hpasses.2.1, later, val, earlier, hpast, hpasses, hstaged⟩
  · rw [hframes] at hf
    obtain ⟨p, hp, rfl⟩ := List.mem_map.mp hf
    obtain ⟨later, val, earlier, -, -, hstaged⟩ := mem_pending hp
    rw [hstaged]
    exact staged_le p.1 earlier

/-- Node 0 stages an identifier and sends; the frame is pending at node 1. -/
theorem can_delivery_two :
    let history : List Op := [.write 0 Can.regTxSend 1, .write 0 Can.regTxId 0x123]
    ((after [0, 1] history).can 1).rx.contents Can.rxCapacity =
        (pending [0, 1] 1 history).map Prod.snd ∧
      (pending [0, 1] 1 history).map (fun p ↦ (p.1, p.2.id)) = [(0, 0x123)] :=
  ⟨(can_delivery (by decide) _ 1).1, by decide⟩

end CanBus

end McuSimulator.Peripherals
