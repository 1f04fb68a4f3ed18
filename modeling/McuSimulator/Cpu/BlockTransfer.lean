import McuSimulator.Cpu.Frame
import McuSimulator.Memory.Words

/-!
# LDM and STM

The two block transfers against what they are for: each listed register has its own word, in
ascending order from the base, and the base register moves past the words. The loop changes
the register file that it runs over, so its invariant is stated for the registers from the
loop index on.
-/

namespace McuSimulator.Cpu

open McuSimulator.Memory

/-- The number of listed registers below `i`. -/
def listedBelow (rlist : BitVec 8) (i : Nat) : Nat := (List.range i).countP (rlist.getLsbD ·)

/-- The word at an accessible address. -/
def wordAt (m : FlatMemoryBus) (addr : BitVec 32) : BitVec 32 :=
  match m.read32 addr with
  | .ok v => v
  | .error _ => 0

/-- LDMIA or STMIA of this base and list; the load bit tells which. -/
structure IsBlockTransfer (instr : BitVec 16) (load : Bool) (rb : RegIndex) (rlist : BitVec 8) :
    Prop where
  format : decode instr = .ldmStm
  load : instr.getLsbD 11 = load
  base : reg3 instr 8 = rb
  list : instr.extractLsb' 0 8 = rlist

/-! ### What the transfers are for -/

namespace CortexM0

/-- After LDMIA: every listed register has its word, and the base register, unless it is listed,
points past the words. -/
def ldmPost (s : CortexM0) (rb : RegIndex) (rlist : BitVec 8) : CortexM0 :=
  { s with regs := fun r ↦
      if rlist.getLsbD r.toNat then
        wordAt s.mem (wordAddr (s.regs rb) (listedBelow rlist r.toNat))
      else if r = rb then wordAddr (s.regs rb) (listedBelow rlist 8)
      else s.regs r }

/-- After STMIA: every listed register is stored in its word, the base register points past the
words, and nothing else has changed. -/
structure StmPost (s : CortexM0) (rb : RegIndex) (rlist : BitVec 8) (t : CortexM0) : Prop where
  stored : ∀ i < 8, rlist.getLsbD i = true →
    t.mem.read32 (wordAddr (s.regs rb) (listedBelow rlist i)) = .ok (s.regs (listed i))
  cells : ∀ cell, (∀ k < listedBelow rlist 8, ¬ Covers (wordAddr (s.regs rb) k) 4 cell) →
    t.mem.data cell = s.mem.data cell
  rest : t = { s.setReg rb (wordAddr (s.regs rb) (listedBelow rlist 8)) with mem := t.mem }

/-- STMIA and later LDMIA of the same list from the same base give the listed registers back. -/
def RoundTrip (s : CortexM0) (stm ldm : BitVec 16) (rb : RegIndex) (rlist : BitVec 8) : Prop :=
  ∃ t, s.execute stm = .ok () t ∧ ∀ u : CortexM0, u.mem = t.mem → u.regs rb = s.regs rb →
    ∃ v, u.execute ldm = .ok () v ∧
      ∀ i < 8, rlist.getLsbD i = true → v.regs (listed i) = s.regs (listed i)

end CortexM0

/-! ### Counting listed registers -/

private theorem listedBelow_succ (rlist : BitVec 8) (i : Nat) :
    listedBelow rlist (i + 1) = listedBelow rlist i + if rlist.getLsbD i then 1 else 0 := by
  rw [listedBelow, List.range_succ, List.countP_append, List.countP_singleton]
  rfl

/-- A listed register counts for those above it. -/
theorem listedBelow_succ_pos {rlist : BitVec 8} {i : Nat} (h : rlist.getLsbD i = true) :
    listedBelow rlist (i + 1) = listedBelow rlist i + 1 := by
  rw [listedBelow_succ, if_pos h]

/-- A register that is not listed does not count. -/
theorem listedBelow_succ_neg {rlist : BitVec 8} {i : Nat} (h : rlist.getLsbD i = false) :
    listedBelow rlist (i + 1) = listedBelow rlist i := by
  rw [listedBelow_succ, h]
  rfl

/-- More are listed below a higher register. -/
theorem listedBelow_mono (rlist : BitVec 8) {i j : Nat} (h : i ≤ j) :
    listedBelow rlist i ≤ listedBelow rlist j := by
  induction j, h using Nat.le_induction with
  | base => exact le_rfl
  | succ j _ ih =>
    rw [listedBelow_succ]
    omega

/-- Above a listed register one more is listed. -/
theorem listedBelow_lt (rlist : BitVec 8) {i j : Nat} (h : i < j) (hi : rlist.getLsbD i = true) :
    listedBelow rlist i < listedBelow rlist j := by
  have hmono : listedBelow rlist (i + 1) ≤ listedBelow rlist j := listedBelow_mono rlist h
  rw [listedBelow_succ_pos hi] at hmono
  exact hmono

/-- There are only so many registers below. -/
theorem listedBelow_le (rlist : BitVec 8) (i : Nat) : listedBelow rlist i ≤ i :=
  (List.countP_le_length ..).trans (List.length_range ..).le

/-- The number of a register of the list. -/
theorem toNat_listed {i : Nat} (hi : i < 8) : (listed i).toNat = i := by
  rw [listed, BitVec.toNat_ofNat]
  omega

/-- The register of this number is the register itself. -/
theorem listed_toNat (r : RegIndex) : listed r.toNat = r := by
  rw [listed, BitVec.ofNat_toNat, BitVec.setWidth_eq]

/-- A read of an accessible word returns the word there. -/
theorem read32_eq_wordAt {m : FlatMemoryBus} {addr : BitVec 32} (h : Accessible addr 4) :
    m.read32 addr = .ok (wordAt m addr) := by
  obtain ⟨v, hv⟩ := m.exists_read32 h
  rw [wordAt, hv]

/-- Past at least one of eight words is not where they start. -/
theorem wordAddr_ne_base (base : BitVec 32) {k : Nat} (h : 0 < k) (h' : k ≤ 8) :
    wordAddr base k ≠ base := by
  intro he
  have hv := congrArg BitVec.toNat he
  rw [wordAddr, BitVec.toNat_add, BitVec.toNat_ofNat] at hv
  have hlt := base.isLt
  omega

namespace CortexM0

/-! ### The loops -/

section

variable {rlist : BitVec 8} {base : BitVec 32}

/-- The loop of LDM from index `a` on loads the listed registers from there on. -/
theorem ldmLoop_eq (k a : Nat) (s : CortexM0) (hak : a + k ≤ 8)
    (hacc : ∀ q < listedBelow rlist (a + k), Accessible (wordAddr base q) 4) :
    ldmStmLoop true rlist (List.range' a k) (wordAddr base (listedBelow rlist a)) s =
      .ok (wordAddr base (listedBelow rlist (a + k)))
        { s with regs := fun r ↦
            if rlist.getLsbD r.toNat = true ∧ a ≤ r.toNat ∧ r.toNat < a + k then
              wordAt s.mem (wordAddr base (listedBelow rlist r.toNat))
            else s.regs r } := by
  induction k generalizing a s with
  | zero =>
    have hnone (r : RegIndex) :
        ¬ (rlist.getLsbD r.toNat = true ∧ a ≤ r.toNat ∧ r.toNat < a + 0) := by
      omega
    rw [List.range'_zero, ldmStmLoop]
    simp only [hnone, if_false]
    rfl
  | succ k ih =>
    have hnext : a + 1 + k = a + (k + 1) := by omega
    rw [List.range'_succ, ldmStmLoop]
    cases ha : rlist.getLsbD a with
    | true =>
      have hlt := listedBelow_lt rlist (show a < a + (k + 1) by omega) ha
      have hsucc := listedBelow_succ_pos ha
      rw [if_pos rfl, if_pos rfl, read32_eq_wordAt (hacc _ hlt), bus_ok, ← wordAddr_succ, ← hsucc,
        ih (a + 1) _ (by omega) (by rwa [hnext]), hnext]
      congr 2
      funext r
      by_cases hr : r.toNat = a
      · have hra : r = listed a := by rw [← hr, listed_toNat]
        have hlow : ¬ a + 1 ≤ r.toNat := by omega
        have hin : rlist.getLsbD r.toNat = true ∧ a ≤ r.toNat ∧ r.toNat < a + (k + 1) :=
          ⟨by rw [hr]; exact ha, by omega⟩
        rw [if_neg (fun h ↦ hlow h.2.1), if_pos hin, setReg_regs, hra, Function.update_self,
          toNat_listed (by omega)]
      · have hra : r ≠ listed a := by
          intro h
          apply hr
          rw [h, toNat_listed (by omega)]
        have hiff : (a + 1 ≤ r.toNat ∧ r.toNat < a + (k + 1)) ↔
            (a ≤ r.toNat ∧ r.toNat < a + (k + 1)) := by
          omega
        simp only [hiff, setReg_regs, Function.update_of_ne hra]
        rfl
    | false =>
      have hsucc := listedBelow_succ_neg ha
      rw [if_neg (by simp), ← hsucc, ih (a + 1) s (by omega) (by rwa [hnext]), hnext]
      congr 2
      funext r
      by_cases hr : r.toNat = a
      · rw [if_neg (by omega), if_neg (by rw [hr, ha]; simp)]
      · have hiff : (a + 1 ≤ r.toNat ∧ r.toNat < a + (k + 1)) ↔
            (a ≤ r.toNat ∧ r.toNat < a + (k + 1)) := by
          omega
        simp only [hiff]

/-- The loop of STM from index `a` on stores the listed registers from there on. -/
theorem stmLoop_eq (k a : Nat) (s : CortexM0)
    (hacc : ∀ q < listedBelow rlist (a + k), Accessible (wordAddr base q) 4) :
    ∃ m, ldmStmLoop false rlist (List.range' a k) (wordAddr base (listedBelow rlist a)) s =
        .ok (wordAddr base (listedBelow rlist (a + k))) { s with mem := m } ∧
      (∀ i, a ≤ i → i < a + k → rlist.getLsbD i = true →
        m.read32 (wordAddr base (listedBelow rlist i)) = .ok (s.regs (listed i))) ∧
      ∀ cell, (∀ q, listedBelow rlist a ≤ q → q < listedBelow rlist (a + k) →
        ¬ Covers (wordAddr base q) 4 cell) → m.data cell = s.mem.data cell := by
  induction k generalizing a s with
  | zero => exact ⟨s.mem, rfl, fun i hi hi' ↦ by omega, fun _ _ ↦ rfl⟩
  | succ k ih =>
    have hnext : a + 1 + k = a + (k + 1) := by omega
    rw [List.range'_succ]
    cases ha : rlist.getLsbD a with
    | true =>
      have hlt := listedBelow_lt rlist (show a < a + (k + 1) by omega) ha
      have hsucc := listedBelow_succ_pos ha
      obtain ⟨m, hm⟩ := s.mem.exists_write32 (hacc _ hlt) (s.regs (listed a))
      obtain ⟨m', hloop, hstored, hcells⟩ := ih (a + 1) { s with mem := m } (by rwa [hnext])
      rw [hnext] at hloop hstored hcells
      refine ⟨m', ?_, ?_, ?_⟩
      · rw [ldmStmLoop, if_pos ha, if_neg (by simp), hm, bus_ok, ← wordAddr_succ, ← hsucc]
        exact hloop
      · intro i hi hi' hlist
        rcases Nat.eq_or_lt_of_le hi with rfl | hgt
        · -- the later stores leave this word alone
          rw [← FlatMemoryBus.read32_write32 hm]
          apply FlatMemoryBus.read32_congr
          intro cell hcell
          apply hcells
          intro q hq hq'
          exact not_covers_wordAddr hacc hlt hq' (by omega) hcell
        · exact hstored i hgt hi' hlist
      · intro cell hcell
        rw [hcells cell fun q hq hq' ↦ hcell q (by omega) hq']
        exact FlatMemoryBus.data_write32 hm (hcell _ le_rfl hlt)
    | false =>
      have hsucc := listedBelow_succ_neg ha
      obtain ⟨m', hloop, hstored, hcells⟩ := ih (a + 1) s (by rwa [hnext])
      rw [hnext] at hloop hstored hcells
      rw [hsucc] at hloop hcells
      refine ⟨m', ?_, ?_, hcells⟩
      · rw [ldmStmLoop, if_neg (by simp [ha])]
        exact hloop
      · intro i hi hi' hlist
        rcases Nat.eq_or_lt_of_le hi with rfl | hgt
        · rw [ha] at hlist
          cases hlist
        · exact hstored i hgt hi' hlist

end

/-! ### The instructions -/

section

variable {s : CortexM0} {rb : RegIndex} {rlist : BitVec 8}

/-- A base register that is listed is not where the transfer ends. -/
theorem wordAddr_ne_of_listed (h : rlist.getLsbD rb.toNat = true) :
    wordAddr (s.regs rb) (listedBelow rlist 8) ≠ s.regs rb := by
  have hlt : rb.toNat < 8 := BitVec.lt_of_getLsbD h
  have hpos := listedBelow_lt rlist hlt h
  exact wordAddr_ne_base _ (by omega) (listedBelow_le rlist 8)

/-- LDM loads its list and then moves the base register, listed or not. -/
theorem execute_ldm {ldm : BitVec 16} (hi : IsBlockTransfer ldm true rb rlist)
    (hacc : ∀ k < listedBelow rlist 8, Accessible (wordAddr (s.regs rb) k) 4) :
    s.execute ldm =
      .ok () ((s.ldmPost rb rlist).setReg rb (wordAddr (s.regs rb) (listedBelow rlist 8))) := by
  have hloop := ldmLoop_eq 8 0 s le_rfl hacc
  rw [show listedBelow rlist 0 = 0 from rfl, wordAddr_zero, ← List.range_eq_range'] at hloop
  have hexec : s.execute ldm = s.execLdmStm ldm := by rw [execute, hi.format]
  rw [hexec, execLdmStm]
  rw [hi.load, hi.base, hi.list, hloop, Bool.or_true]
  dsimp only
  rw [if_pos rfl]
  congr 1
  unfold setReg ldmPost
  congr 1
  funext r
  by_cases hr : r = rb
  · rw [hr, Function.update_self, Function.update_self]
  · rw [Function.update_of_ne hr, Function.update_of_ne hr]
    dsimp only
    rw [if_neg hr]
    by_cases hl : rlist.getLsbD r.toNat = true
    · rw [if_pos ⟨hl, Nat.zero_le _, BitVec.lt_of_getLsbD hl⟩, if_pos hl]
    · rw [if_neg (fun h ↦ hl h.1), if_neg hl]

/-- STM stores its list, and moves the base register when it is not listed. -/
theorem execute_stm {stm : BitVec 16} (hi : IsBlockTransfer stm false rb rlist)
    (hacc : ∀ k < listedBelow rlist 8, Accessible (wordAddr (s.regs rb) k) 4) :
    ∃ m, s.execute stm = .ok () (if rlist.getLsbD rb.toNat = true then { s with mem := m } else
        { s.setReg rb (wordAddr (s.regs rb) (listedBelow rlist 8)) with mem := m }) ∧
      (∀ i < 8, rlist.getLsbD i = true →
        m.read32 (wordAddr (s.regs rb) (listedBelow rlist i)) = .ok (s.regs (listed i))) ∧
      ∀ cell, (∀ k < listedBelow rlist 8, ¬ Covers (wordAddr (s.regs rb) k) 4 cell) →
        m.data cell = s.mem.data cell := by
  obtain ⟨m, hloop, hstored, hcells⟩ :=
    stmLoop_eq 8 0 s hacc
  rw [show listedBelow rlist 0 = 0 from rfl, wordAddr_zero, ← List.range_eq_range'] at hloop
  refine ⟨m, ?_, fun i hi' ↦ hstored i (Nat.zero_le i) (by omega), fun cell hc ↦
    hcells cell fun q _ hq ↦ hc q hq⟩
  have hexec : s.execute stm = s.execLdmStm stm := by rw [execute, hi.format]
  rw [hexec, execLdmStm]
  dsimp only
  rw [hi.load, hi.base, hi.list, hloop, Bool.or_false]
  dsimp only
  cases rlist.getLsbD rb.toNat <;> rfl

/-- LDMIA is right when the base register is not listed, or is to get the end address. -/
theorem execute_ldm_iff {instr : BitVec 16} (h : IsBlockTransfer instr true rb rlist)
    (hacc : ∀ k < listedBelow rlist 8, Accessible (wordAddr (s.regs rb) k) 4) :
    s.execute instr = .ok () (s.ldmPost rb rlist) ↔ rlist.getLsbD rb.toNat = true →
      wordAt s.mem (wordAddr (s.regs rb) (listedBelow rlist rb.toNat)) =
        wordAddr (s.regs rb) (listedBelow rlist 8) := by
  rw [execute_ldm h hacc]
  constructor
  · intro h hl
    injection h with _ h
    have hrb := congrArg (·.regs rb) h
    simp only [setReg_regs, Function.update_self, ldmPost, if_pos hl] at hrb
    exact hrb.symm
  · intro h
    congr 1
    unfold setReg
    rw [Function.update_eq_self_iff.mpr]
    rw [ldmPost]
    dsimp only
    by_cases hl : rlist.getLsbD rb.toNat = true
    · rw [if_pos hl, h hl]
    · rw [if_neg hl, if_pos rfl]

/-- STMIA is right when the base register is not listed. -/
theorem execute_stm_iff {instr : BitVec 16} (h : IsBlockTransfer instr false rb rlist)
    (hacc : ∀ k < listedBelow rlist 8, Accessible (wordAddr (s.regs rb) k) 4) :
    (∃ t, s.execute instr = .ok () t ∧ s.StmPost rb rlist t) ↔
      rlist.getLsbD rb.toNat = false := by
  obtain ⟨m, hexec, hstored, hcells⟩ := execute_stm h hacc
  constructor
  · rintro ⟨t, ht, hpost⟩
    by_contra hl
    rw [Bool.not_eq_false] at hl
    rw [hexec, if_pos hl] at ht
    cases ht
    have hrb := congrArg (·.regs rb) hpost.rest
    simp only [setReg_regs, Function.update_self] at hrb
    exact wordAddr_ne_of_listed hl hrb.symm
  · intro hl
    rw [if_neg (by simp [hl])] at hexec
    exact ⟨_, hexec, hstored, hcells, rfl⟩

/-- STMIA and then LDMIA give every listed register back when the base register is not one. -/
theorem roundTrip_iff {ldm stm : BitVec 16} (hldm : IsBlockTransfer ldm true rb rlist)
    (hstm : IsBlockTransfer stm false rb rlist)
    (hacc : ∀ k < listedBelow rlist 8, Accessible (wordAddr (s.regs rb) k) 4) :
    s.RoundTrip stm ldm rb rlist ↔ rlist.getLsbD rb.toNat = false := by
  obtain ⟨m, hexec, hstored, hcells⟩ := execute_stm hstm hacc
  constructor
  · rintro ⟨t, ht, hback⟩
    by_contra hl
    rw [Bool.not_eq_false] at hl
    rw [hexec, if_pos hl] at ht
    cases ht
    -- the base register has not moved, so the list can be loaded at once
    obtain ⟨v, hv, hregs⟩ := hback { s with mem := m } rfl rfl
    rw [execute_ldm (s := { s with mem := m }) hldm hacc] at hv
    cases hv
    have hrb := hregs rb.toNat (BitVec.lt_of_getLsbD hl) hl
    rw [listed_toNat, setReg_regs, Function.update_self] at hrb
    exact wordAddr_ne_of_listed hl hrb
  · intro hl
    rw [if_neg (by simp [hl])] at hexec
    refine ⟨_, hexec, ?_⟩
    intro u hmem hbase
    have hacc' : ∀ k < listedBelow rlist 8, Accessible (wordAddr (u.regs rb) k) 4 := by
      rwa [hbase]
    refine ⟨_, execute_ldm hldm hacc', ?_⟩
    intro i hi hlist
    have hne : listed i ≠ rb := by
      intro h
      rw [← h, toNat_listed hi, hlist] at hl
      cases hl
    have hread := hstored i hi hlist
    rw [setReg_regs, Function.update_of_ne hne, ldmPost]
    dsimp only
    rw [toNat_listed hi, if_pos hlist, hmem, hbase, wordAt, hread]

/-- The block transfers do what they are for exactly when the condition for moving the base
register is right: for LDM it is not listed, or what it loads is where the transfer ends; for
STM, and for the round trip, it is not listed. -/
theorem block_transfer_iff (s : CortexM0) {ldm stm : BitVec 16} {rb : RegIndex} {rlist : BitVec 8}
    (hldm : IsBlockTransfer ldm true rb rlist) (hstm : IsBlockTransfer stm false rb rlist)
    (hacc : ∀ k < listedBelow rlist 8, Accessible (wordAddr (s.regs rb) k) 4) :
    (s.execute ldm = .ok () (s.ldmPost rb rlist) ↔ rlist.getLsbD rb.toNat = true →
      wordAt s.mem (wordAddr (s.regs rb) (listedBelow rlist rb.toNat)) =
        wordAddr (s.regs rb) (listedBelow rlist 8)) ∧
    ((∃ t, s.execute stm = .ok () t ∧ s.StmPost rb rlist t) ↔ rlist.getLsbD rb.toNat = false) ∧
    (s.RoundTrip stm ldm rb rlist ↔ rlist.getLsbD rb.toNat = false) :=
  ⟨execute_ldm_iff hldm hacc, execute_stm_iff hstm hacc, roundTrip_iff hldm hstm hacc⟩

/-- With a base register that is not listed. -/
theorem block_transfer_iff_unlisted :
    (new .clear).execute 0xC806 = .ok () ((new .clear).ldmPost 0 6) ∧
    (∃ t, (new .clear).execute 0xC006 = .ok () t ∧ (new .clear).StmPost 0 6 t) ∧
    (new .clear).RoundTrip 0xC006 0xC806 0 6 := by
  have hacc : ∀ k < listedBelow 6 8, Accessible (wordAddr ((new .clear).regs 0) k) 4 := by
    decide +kernel
  have hldm : IsBlockTransfer 0xC806 true 0 6 := ⟨by decide, by decide, by decide, by decide⟩
  have hstm : IsBlockTransfer 0xC006 false 0 6 := ⟨by decide, by decide, by decide, by decide⟩
  obtain ⟨hload, hstore, hround⟩ := block_transfer_iff (new .clear) hldm hstm hacc
  exact ⟨hload.mpr (by decide), hstore.mpr (by decide), hround.mpr (by decide)⟩

/-- `LDMIA R0!, {R0}` leaves the end address in R0 and not the word, and `STMIA R0!, {R0}` does
not move R0. -/
theorem block_transfer_listed_base :
    (new .clear).execute 0xC801 ≠ .ok () ((new .clear).ldmPost 0 1) ∧
    ¬ (∃ t, (new .clear).execute 0xC001 = .ok () t ∧ (new .clear).StmPost 0 1 t) := by
  constructor
  · intro h
    have hcode : (endState ((new .clear).execute 0xC801)).regs 0 = 4 := by decide +kernel
    have hclaim : ((new .clear).ldmPost 0 1).regs 0 = 0 := by decide +kernel
    rw [h, endState_ok, hclaim] at hcode
    exact absurd hcode (by decide)
  · rintro ⟨t, ht, hpost⟩
    have hcode : (endState ((new .clear).execute 0xC001)).regs 0 = 0 := by decide +kernel
    have hclaim : ((new .clear).setReg 0 (wordAddr ((new .clear).regs 0)
        (listedBelow 1 8))).regs 0 = 4 := by decide +kernel
    have hregs := congrArg (·.regs 0) hpost.rest
    rw [ht, endState_ok] at hcode
    dsimp only at hregs
    rw [hcode, hclaim] at hregs
    exact absurd hregs (by decide)

end

end CortexM0

end McuSimulator.Cpu
