import McuSimulator.Peripherals.Spi
import Mathlib.Data.List.Induction

/-!
# Write protection of the flash

The array changes only when a transaction ends that programs a page or erases a sector while the
latch is set, and the latch is cleared with the change. Command, address and latch outlive a
transaction, so the invariant ties them to the calls made since chip select was asserted.
-/

namespace McuSimulator.Peripherals

open Memory (Byte)

namespace W25Q32Flash

/-! ### Calls -/

/-- Chip select is asserted and deasserted in turn, and bytes come in between; the flag says
whether it is asserted at the end. -/
inductive Framed : Bool → List Call → Prop
  | nil : Framed false []
  | csAssert {calls : List Call} (h : Framed false calls) : Framed true (calls ++ [.csAssert])
  | exchange {calls : List Call} (h : Framed true calls) (tx : Byte) :
      Framed true (calls ++ [.exchange tx])
  | csDeassert {calls : List Call} (h : Framed true calls) :
      Framed false (calls ++ [.csDeassert])

private theorem Framed.init {active : Bool} {pre : List Call} {c : Call}
    (h : Framed active (pre ++ [c])) : ∃ b, Framed b pre := by
  generalize hcalls : pre ++ [c] = calls at h
  cases h with
  | nil => exact absurd hcalls (List.append_ne_nil_of_right_ne_nil _ (List.cons_ne_nil _ _))
  | csAssert h => exact ⟨_, (List.append_inj_left' hcalls rfl) ▸ h⟩
  | exchange h tx => exact ⟨_, (List.append_inj_left' hcalls rfl) ▸ h⟩
  | csDeassert h => exact ⟨_, (List.append_inj_left' hcalls rfl) ▸ h⟩

private theorem Framed.of_append {active : Bool} {pre post : List Call}
    (h : Framed active (pre ++ post)) : ∃ b, Framed b pre := by
  induction post generalizing pre with
  | nil => exact ⟨active, List.append_nil pre ▸ h⟩
  | cons c post ih =>
    rw [List.append_cons] at h
    obtain ⟨b, hb⟩ := ih h
    exact hb.init

/-- The calls end in a transaction, still open, that started with this command. -/
def InTransaction (cmd : Byte) (calls : List Call) : Prop :=
  ∃ before bytes, calls = before ++ .csAssert :: (cmd :: bytes).map Call.exchange

private theorem InTransaction.exchange {cmd : Byte} {calls : List Call}
    (h : InTransaction cmd calls) (tx : Byte) : InTransaction cmd (calls ++ [.exchange tx]) := by
  obtain ⟨before, bytes, rfl⟩ := h
  exact ⟨before, bytes ++ [tx], by simp⟩

/-! ### The invariant -/

/-- What command, buffer and latch of the flash say about the calls made. -/
structure Tracks (active : Bool) (calls : List Call) (f : W25Q32Flash) : Prop where
  inRange : f.InRange
  idle : active = false → f.state = .idle
  quiet : f.state = .idle ∨ f.state = .cmd →
    f.buf = [] ∧ ¬ (f.cmd = cmdSectorErase ∧ f.wel = true)
  started : f.state = .cmd → ∃ before, calls = before ++ [.csAssert]
  command : f.state = .addr ∨ f.state = .data → InTransaction f.cmd calls

private theorem tracks_new : Tracks false [] {} where
  inRange := inRange_new
  idle _ := rfl
  quiet _ := ⟨rfl, by decide⟩
  started h := nomatch h
  command h := by rcases h with h | h <;> cases h

section Tracks

variable {active : Bool} {calls : List Call} {f : W25Q32Flash}

private theorem Tracks.csAssert (h : Tracks false calls f) :
    Tracks true (calls ++ [.csAssert]) f.csAssert where
  inRange := h.inRange.csAssert
  idle ha := nomatch ha
  quiet _ := ⟨rfl, (h.quiet (.inl (h.idle rfl))).2⟩
  started _ := ⟨calls, rfl⟩
  command hs := by rcases hs with hs | hs <;> cases hs

private theorem Tracks.exchange (h : Tracks true calls f) (tx : Byte) :
    Tracks true (calls ++ [.exchange tx]) (f.exchange tx).1 := by
  have hex := exchanged_exchange f tx
  refine ⟨hex.inRange h.inRange, nofun, ?_, ?_, ?_⟩ <;>
    generalize (f.exchange tx).1 = f' at hex <;> intro hs
  case refine_1 =>
    cases hex with
    | ignored hidle => exact h.quiet (.inl hidle)
    | writeEnable hcmd htx => exact ⟨rfl, fun he ↦ absurd (htx.symm.trans he.1) (by decide)⟩
    | command hcmd htx hst => rcases hst with rfl | rfl <;> rcases hs with hs | hs <;> cases hs
    | address hst hn => rcases hs with hs | hs <;> cases hst.symm.trans hs
    | lastAddress hst hn => rcases hs with hs | hs <;> cases hs
    | buffer hst bs => rcases hs with hs | hs <;> cases hst.symm.trans hs
    | read hst => rcases hs with hs | hs <;> cases hst.symm.trans hs
  case refine_2 =>
    cases hex with
    | ignored hidle => cases hidle.symm.trans hs
    | writeEnable hcmd htx => cases hs
    | command hcmd htx hst => rcases hst with rfl | rfl <;> cases hs
    | address hst hn => cases hst.symm.trans hs
    | lastAddress hst hn => cases hs
    | buffer hst bs => cases hst.symm.trans hs
    | read hst => cases hst.symm.trans hs
  case refine_3 =>
    cases hex with
    | ignored hidle => rcases hs with hs | hs <;> cases hidle.symm.trans hs
    | writeEnable hcmd htx => rcases hs with hs | hs <;> cases hs
    | command hcmd htx hst =>
      -- the first byte behind chip select
      obtain ⟨before, rfl⟩ := h.started hcmd
      exact ⟨before, [], by simp⟩
    | address hst hn => exact (h.command (.inl hst)).exchange tx
    | lastAddress hst hn => exact (h.command (.inl hst)).exchange tx
    | buffer hst bs => exact (h.command (.inr hst)).exchange tx
    | read hst => exact (h.command (.inr hst)).exchange tx

private theorem commit_quiet (f : W25Q32Flash) :
    ¬ (f.commit.cmd = cmdSectorErase ∧ f.commit.wel = true) := by
  unfold commit
  split
  case isTrue => exact fun h ↦ Bool.false_ne_true h.2
  case isFalse =>
    split
    case isTrue => exact fun h ↦ Bool.false_ne_true h.2
    case isFalse he => exact he

private theorem Tracks.csDeassert (h : Tracks true calls f) :
    Tracks false (calls ++ [.csDeassert]) f.csDeassert where
  inRange := h.inRange.csDeassert
  idle _ := rfl
  quiet _ := ⟨rfl, commit_quiet f⟩
  started hs := nomatch hs
  command hs := by rcases hs with hs | hs <;> cases hs

private theorem tracks_replay (h : Framed active calls) : Tracks active calls (replay calls) := by
  induction h with
  | nil => exact tracks_new
  | csAssert _ ih =>
    rw [replay_concat]
    exact ih.csAssert
  | exchange _ tx ih =>
    rw [replay_concat]
    exact ih.exchange tx
  | csDeassert _ ih =>
    rw [replay_concat]
    exact ih.csDeassert

end Tracks

/-! ### Changes of the array -/

/-- The call changes the array. -/
def Changes (pre : List Call) (c : Call) : Prop := (replay (pre ++ [c])).data ≠ (replay pre).data

/-- The array over a history of calls: where it changes, what a change does, that the latch is
set anew between two changes, and that every index fits. -/
structure WriteProtected (calls : List Call) : Prop where
  change : ∀ pre c post, calls = pre ++ c :: post → Changes pre c →
    c = .csDeassert ∧ (replay pre).wel = true ∧
      (InTransaction cmdPageProgram pre ∧
          ClearsPage (replay pre).data (replay (pre ++ [c])).data ∨
        InTransaction cmdSectorErase pre ∧
          ErasesSector (replay pre).data (replay (pre ++ [c])).data)
  enabled : ∀ pre c mid d post, calls = pre ++ c :: (mid ++ d :: post) → Changes pre c →
    Changes (pre ++ c :: mid) d →
    ∃ mid₁ mid₂, mid = mid₁ ++ .csAssert :: .exchange cmdWriteEnable :: mid₂
  touched : ∀ i ∈ (replay calls).touched, i < capacity

section Changes

variable {active : Bool} {pre : List Call} {c : Call}

private theorem commit_of_changes (hc : Changes pre c) : c = .csDeassert ∧
    (replay pre).commit.data ≠ (replay pre).data := by
  unfold Changes at hc
  rw [replay_concat] at hc
  cases c with
  | csAssert => exact absurd rfl hc
  | exchange tx => exact absurd (exchanged_exchange _ tx).data hc
  | csDeassert => exact ⟨rfl, hc⟩

private theorem changes_cases (h : Framed active pre) (hc : Changes pre c) :
    c = .csDeassert ∧ (replay pre).wel = true ∧ (replay (pre ++ [c])).wel = false ∧
      (InTransaction cmdPageProgram pre ∧
          ClearsPage (replay pre).data (replay (pre ++ [c])).data ∨
        InTransaction cmdSectorErase pre ∧
          ErasesSector (replay pre).data (replay (pre ++ [c])).data) := by
  obtain ⟨rfl, hne⟩ := commit_of_changes hc
  have ht := tracks_replay h
  rw [replay_concat]
  rcases commit_cases (replay pre) ht.inRange.addr_lt with hsame | ⟨hwel, hclear, hcmd⟩
  · exact absurd (congrArg W25Q32Flash.data hsame) hne
  -- a transaction without a command has nothing to commit
  have hopen : (replay pre).state = .addr ∨ (replay pre).state = .data := by
    cases hs : (replay pre).state with
    | idle =>
      obtain ⟨hbuf, herase⟩ := ht.quiet (.inl hs)
      rcases hcmd with ⟨-, hne', -⟩ | ⟨hcmd, -⟩
      · exact absurd hbuf hne'
      · exact absurd ⟨hcmd, hwel⟩ herase
    | cmd =>
      obtain ⟨hbuf, herase⟩ := ht.quiet (.inr hs)
      rcases hcmd with ⟨-, hne', -⟩ | ⟨hcmd, -⟩
      · exact absurd hbuf hne'
      · exact absurd ⟨hcmd, hwel⟩ herase
    | addr => exact .inl rfl
    | data => exact .inr rfl
  have hin := ht.command hopen
  refine ⟨rfl, hwel, hclear, ?_⟩
  rcases hcmd with ⟨hcmd, -, hpage⟩ | ⟨hcmd, hsector⟩
  · rw [hcmd] at hin
    exact .inl ⟨hin, hpage⟩
  · rw [hcmd] at hin
    exact .inr ⟨hin, hsector⟩

/-- The latch is set only by a write-enable command right behind chip select. -/
theorem enabled_of_wel {mid : List Call} (h : Framed active (pre ++ mid))
    (hoff : (replay pre).wel = false) (hpre : ∀ before, pre ≠ before ++ [.csAssert])
    (hon : (replay (pre ++ mid)).wel = true) :
    ∃ mid₁ mid₂, mid = mid₁ ++ .csAssert :: .exchange cmdWriteEnable :: mid₂ := by
  induction mid using List.reverseRecOn generalizing active with
  | nil =>
    rw [List.append_nil, hoff] at hon
    cases hon
  | append_singleton mid c ih =>
    rw [← List.append_assoc] at h hon
    obtain ⟨b, hb⟩ := h.init
    -- the latch is set by the last call, or was set before
    have hcall : (replay (pre ++ mid)).wel = true ∨
        (replay (pre ++ mid)).state = .cmd ∧ c = .exchange cmdWriteEnable := by
      rw [replay_concat] at hon
      cases c with
      | csAssert => exact .inl hon
      | exchange tx =>
        rcases (exchanged_exchange _ tx).wel hon with hon | ⟨hs, rfl⟩
        · exact .inl hon
        · exact .inr ⟨hs, rfl⟩
      | csDeassert =>
        rcases commit_cases _ (tracks_replay hb).inRange.addr_lt with hsame | ⟨hwel, -, -⟩
        · exact .inl ((congrArg W25Q32Flash.wel hsame).symm.trans hon)
        · exact .inl hwel
    rcases hcall with hon' | ⟨hs, rfl⟩
    · obtain ⟨mid₁, mid₂, rfl⟩ := ih hb hon'
      exact ⟨mid₁, mid₂ ++ [c], by simp⟩
    · obtain ⟨before, hbefore⟩ := (tracks_replay hb).started hs
      rcases List.eq_nil_or_concat mid with rfl | ⟨mid₁, d, rfl⟩
      · rw [List.append_nil] at hbefore
        exact absurd hbefore (hpre before)
      · rw [List.concat_eq_append, ← List.append_assoc] at hbefore
        obtain rfl : d = .csAssert := List.singleton_inj.mp (List.append_inj_right' hbefore rfl)
        exact ⟨mid₁, [], by simp⟩

/-- Framed calls are write protected. -/
theorem Framed.writeProtected {calls : List Call} (h : Framed active calls) :
    WriteProtected calls where
  change pre c post hcalls hc := by
    obtain ⟨b, hb⟩ := Framed.of_append (hcalls ▸ h)
    obtain ⟨hdeassert, hwel, -, hcmd⟩ := changes_cases hb hc
    exact ⟨hdeassert, hwel, hcmd⟩
  enabled pre c mid d post hcalls hc hd := by
    rw [hcalls] at h
    obtain ⟨b, hb⟩ := h.of_append
    rw [List.append_cons, ← List.append_assoc] at h
    obtain ⟨b', hb'⟩ := h.of_append
    rw [List.append_cons] at hd
    obtain ⟨rfl, -, hoff, -⟩ := changes_cases hb hc
    obtain ⟨-, hon, -, -⟩ := changes_cases hb' hd
    refine enabled_of_wel hb' hoff ?_ hon
    intro before heq
    exact absurd (List.singleton_inj.mp (List.append_inj_right' heq rfl)) (by decide)
  touched := (tracks_replay h).inRange.touched

end Changes

end W25Q32Flash

/-! ### The peripheral -/

namespace Spi

open W25Q32Flash (Call Framed WriteProtected replay replay_concat)

/-- The flash is what its calls made of it, and chip select is asserted when the flag says so. -/
structure Drives (s : Spi) : Prop where
  framed : Framed s.csActive s.calls
  flash : s.flash = replay s.calls

/-- What an access keeps: the calls made stay made, and drive the flash. -/
structure Extends (s t : Spi) : Prop where
  calls : s.calls <+: t.calls
  drives : s.Drives → t.Drives

private theorem Extends.refl (s : Spi) : s.Extends s := ⟨List.prefix_rfl, id⟩

private theorem Extends.trans {s t u : Spi} (h : s.Extends t) (h' : t.Extends u) : s.Extends u :=
  ⟨h.calls.trans h'.calls, fun hs ↦ h'.drives (h.drives hs)⟩

/-- The other fields do not matter. -/
theorem Extends.of_eq {s t : Spi} (ha : t.csActive = s.csActive) (hc : t.calls = s.calls)
    (hf : t.flash = s.flash) : s.Extends t where
  calls := hc ▸ List.prefix_rfl
  drives h := ⟨by rw [ha, hc]; exact h.framed, by rw [hf, hc]; exact h.flash⟩

private theorem extends_assertCs {s : Spi} (h : s.csActive = false) : s.Extends s.assertCs where
  calls := List.prefix_append _ _
  drives hd := by
    refine ⟨.csAssert (h ▸ hd.framed), ?_⟩
    rw [assertCs, replay_concat, ← hd.flash]
    rfl

private theorem extends_deassertCs {s : Spi} (h : s.csActive = true) : s.Extends s.deassertCs where
  calls := List.prefix_append _ _
  drives hd := by
    refine ⟨.csDeassert (h ▸ hd.framed), ?_⟩
    rw [deassertCs, replay_concat, ← hd.flash]
    rfl

private theorem extends_setNss (s : Spi) (low : Bool) : s.Extends (s.setNss low) := by
  have hcs : s.Extends (if low = true ∧ ¬ s.csActive = true then s.assertCs
      else if ¬ low = true ∧ s.csActive = true then s.deassertCs else s) := by
    split
    case isTrue h => exact extends_assertCs (by simpa using h.2)
    case isFalse =>
      split
      case isTrue h => exact extends_deassertCs h.2
      case isFalse => exact .refl s
  exact hcs.trans (.of_eq rfl rfl rfl)

private theorem extends_transferByte (s : Spi) (tx : Byte) : s.Extends (s.transferByte tx).1 := by
  unfold transferByte
  split
  case isTrue h =>
    refine ⟨List.prefix_append _ _, fun hd ↦ ⟨?_, ?_⟩⟩
    · exact h.symm ▸ (h ▸ hd.framed).exchange tx
    · show (s.flash.exchange tx).1 = replay (s.calls ++ [.exchange tx])
      rw [replay_concat, ← hd.flash]
      rfl
  case isFalse => exact .refl s

private theorem csActive_transferByte (s : Spi) (tx : Byte) :
    (s.transferByte tx).1.csActive = s.csActive := by
  unfold transferByte
  split <;> rfl

private theorem extends_burstLoop (n i : Nat) (s : Spi) :
    s.Extends (burstLoop n i s) ∧ (burstLoop n i s).csActive = s.csActive := by
  induction n generalizing i s with
  | zero => exact ⟨.refl s, rfl⟩
  | succ n ih =>
    have hbyte := extends_transferByte s (s.burstTx i)
    have hbyteActive := csActive_transferByte s (s.burstTx i)
    rw [burstLoop]
    generalize s.transferByte (s.burstTx i) = r at hbyte hbyteActive
    obtain ⟨s', rx⟩ := r
    obtain ⟨hext, hactive⟩ := ih (i + 1) { s' with burstRx := Function.update s'.burstRx i rx }
    refine ⟨Extends.trans ?_ hext, hactive.trans hbyteActive⟩
    exact hbyte.trans (.of_eq rfl rfl rfl)

private theorem extends_doBurst (s : Spi) : s.Extends s.doBurst := by
  have hassert : s.Extends (if s.csActive then s else s.assertCs) ∧
      (if s.csActive then s else s.assertCs).csActive = true := by
    split
    case isTrue h => exact ⟨.refl s, h⟩
    case isFalse h => exact ⟨extends_assertCs (by simpa using h), rfl⟩
  rw [doBurst]
  generalize (if s.csActive then s else s.assertCs) = t at hassert
  obtain ⟨hext, hactive⟩ := hassert
  obtain ⟨hloop, hloopActive⟩ := extends_burstLoop (min (t.burstLen * 4).toNat burstRegs) 0 t
  have hdeassert := extends_deassertCs (hloopActive.trans hactive)
  exact ((hext.trans hloop).trans hdeassert).trans (.of_eq rfl rfl rfl)

private theorem extends_writeReg (s : Spi) (offset val : BitVec 32) :
    s.Extends (s.writeReg offset val) := by
  unfold writeReg
  split
  · exact Extends.trans (t := { s with cr := val &&& 0x0F }) (.of_eq rfl rfl rfl)
      (extends_setNss _ _)
  split
  · exact (extends_transferByte s _).trans (.of_eq rfl rfl rfl)
  split
  · exact .of_eq rfl rfl rfl
  split
  · dsimp only
    split
    · refine Extends.trans ?_ (extends_doBurst _)
      exact .of_eq rfl rfl rfl
    · exact .of_eq rfl rfl rfl
  · exact .refl s

private theorem extends_readReg (s : Spi) (offset : BitVec 32) :
    s.Extends (s.readReg offset).1 := by
  unfold readReg
  repeat' split
  all_goals exact .of_eq rfl rfl rfl

/-- Every sequence of operations extends the recorded calls. -/
theorem extends_foldl (ops : List Op) (s : Spi) : s.Extends (ops.foldl exec s) := by
  induction ops generalizing s with
  | nil => exact .refl s
  | cons op ops ih =>
    rw [List.foldl_cons]
    refine Extends.trans ?_ (ih _)
    cases op with
    | write offset val => exact extends_writeReg s offset val
    | read offset => exact extends_readReg s offset

/-- Whatever a program writes to the registers and reads from them, the flash is what the calls
made on it say, and over these calls it is write-protected. -/
theorem flash_write_protected (ops more : List Op) :
    (run ops).flash = replay (run ops).calls ∧ (run ops).calls <+: (run (ops ++ more)).calls ∧
      WriteProtected (run ops).calls := by
  have hdrives : (run ops).Drives := (extends_foldl ops {}).drives ⟨.nil, rfl⟩
  refine ⟨hdrives.flash, ?_, hdrives.framed.writeProtected⟩
  unfold run
  rw [List.foldl_append]
  exact (extends_foldl more _).calls

end Spi

end McuSimulator.Peripherals
