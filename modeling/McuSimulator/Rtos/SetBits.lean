import McuSimulator.Rtos.EventTable

/-!
# Waking the satisfied waiters of an event group

`set_bits` sets the bits and then scans the table of waiters, testing each entry against the bits
as they are when the scan reaches it; a woken task may run before that, and tests the bits once
more itself. A task whose condition holds when the bits are set is woken by a scan, and returns
from `wait_bits` the next time it runs, unless bits that it waits for are cleared before.
-/

namespace McuSimulator.Rtos

open McuSimulator.Base

variable {α : Type}

/-! ### Conditions and bits -/

/-- Setting bits keeps every condition. -/
theorem EventGroup.satisfied_or {g h : EventGroup} {b m : BitVec 32} {all : Bool}
    (hb : h.bits = g.bits ||| b) (hg : g.satisfied m all = true) : h.satisfied m all = true := by
  unfold EventGroup.satisfied at hg ⊢
  rw [hb, BitVec.and_or_distrib_right]
  cases all with
  | true =>
    simp only [if_true, beq_iff_eq] at hg ⊢
    rw [hg]
    ext i hi
    simp only [BitVec.getElem_or, BitVec.getElem_and]
    cases m[i] <;> simp
  | false =>
    simp only [Bool.false_eq_true, if_false, bne_iff_ne, ne_eq] at hg ⊢
    intro h0
    exact hg (BitVec.or_eq_zero_iff.mp h0).1

/-- Clearing no bits. -/
theorem and_not_zero (x : BitVec 32) : x &&& ~~~0 = x := by
  rw [show ~~~(0 : BitVec 32) = BitVec.allOnes 32 from rfl, BitVec.and_allOnes]

/-- The bits of a group that a step from this point of the code clears. -/
def Sys.clearedAt (s : Sys α) (e : Nat) : Kont α → BitVec 32
  | .bitsTest e' bits all true =>
    if e' = e ∧ (s.events e').satisfied bits all = true then bits else 0
  | _ => 0

/-- The bits of a group that a step clears: those of `clear_bits`, and those that `wait_bits`
clears on exit. -/
def Sys.cleared (s : Sys α) (e : Nat) : Act α → BitVec 32
  | .call (.clearBits e' bits) => if e' = e then bits else 0
  | .resume => s.clearedAt e (s.kont s.me)
  | _ => 0

/-- A new waiter leaves the bits. -/
@[simp] theorem EventGroup.register_bits (g : EventGroup) (w : Waiter) :
    (g.register w).bits = g.bits := by
  unfold EventGroup.register
  split <;> rfl

/-- Blocking leaves the event groups. -/
@[simp] theorem Sys.events_blockCurrent (u : Sys α) (p : Prim) (k : Kont α) :
    (u.blockCurrent p k).events = u.events := by
  unfold Sys.blockCurrent
  dsimp only
  split <;> rfl

section Bits

variable {D : Dispatcher} {s s' : Sys α} {a : Act α} {e : Nat}

/-- A step on another object clears no bits of the group. -/
theorem cleared_of_ne (h : a.obj s ≠ some (.events e)) : s.cleared e a = 0 := by
  cases a with
  | call op =>
    cases op with
    | clearBits e' bits =>
      refine if_neg ?_
      rintro rfl
      exact h rfl
    | _ => rfl
  | resume =>
    simp only [Act.obj] at h
    simp only [Sys.cleared]
    cases hk : s.kont s.me with
    | bitsTest e' bits all clr =>
      cases clr with
      | true =>
        refine if_neg ?_
        rintro ⟨rfl, -⟩
        exact h (congrArg Kont.obj hk)
      | false => rfl
    | _ => rfl
  | dispatch => rfl

private theorem bits_of_eq (hc : s.cleared e a = 0) (h : (s'.events e).bits = (s.events e).bits) :
    ∃ b, (s'.events e).bits = ((s.events e).bits &&& ~~~ s.cleared e a) ||| b := by
  refine ⟨0#32, ?_⟩
  rw [hc, h, and_not_zero, BitVec.or_zero]

private theorem bits_bitsTest {bits : BitVec 32} {all clr : Bool}
    (hk : s.kont s.me = .bitsTest e bits all clr) :
    ∃ b, ((s.bitsTest e bits all clr).events e).bits =
      ((s.events e).bits &&& ~~~ s.cleared e .resume) ||| b := by
  have hc : s.cleared e .resume = s.clearedAt e (.bitsTest e bits all clr) := by
    rw [Sys.cleared, hk]
  unfold Sys.bitsTest
  split
  · next hsat =>
    cases clr with
    | true =>
      refine ⟨0, ?_⟩
      simp [hc, Sys.clearedAt, hsat, Sys.clearBits, Sys.setEvents, Sys.emit, Sys.setKont]
    | false => exact bits_of_eq hc rfl
  · next hsat =>
    refine bits_of_eq ?_ ?_
    · rw [hc]
      cases clr with
      | true => exact if_neg fun h ↦ hsat h.2
      | false => rfl
    · rw [Sys.events_blockCurrent]
      simp [Sys.setEvents]

/-- The bits of a group over a step: some are cleared, then some are set. -/
theorem Step.bits (h : Step D s a s') (e : Nat) :
    ∃ b, (s'.events e).bits = ((s.events e).bits &&& ~~~ s.cleared e a) ||| b := by
  by_cases ho : a.obj s = some (.events e)
  · cases h with
    | @call op hp hk hi =>
      cases op with
      | setBits e' bits =>
        obtain rfl := Obj.events.inj (Option.some.inj ho)
        refine ⟨bits, ?_⟩
        rw [show s.cleared e' (.call (.setBits e' bits)) = 0 from rfl, and_not_zero]
        simp [Sys.call, Sys.setBits, Sys.setEvents, Sys.setKont]
      | clearBits e' bits =>
        obtain rfl := Obj.events.inj (Option.some.inj ho)
        refine ⟨0#32, ?_⟩
        simp [Sys.call, Sys.clearBits, Sys.setEvents, Sys.cleared]
      | waitBits e' bits all clr => exact bits_of_eq rfl rfl
      | checkBits e' bits all => exact bits_of_eq rfl rfl
      | _ => cases ho
    | resume hp hk =>
      simp only [Act.obj] at ho
      cases hc : s.kont s.me with
      | bitsWait e' bits all clr => exact bits_of_eq (by rw [Sys.cleared, hc]; rfl) rfl
      | bitsTest e' bits all clr =>
        rw [hc] at ho
        obtain rfl := Obj.events.inj (Option.some.inj ho)
        exact bits_bitsTest hc
      | checkTest e' i =>
        refine bits_of_eq (by rw [Sys.cleared, hc]; rfl) ?_
        simp only [Sys.resume]
        unfold Sys.checkTest
        split
        · split
          · rfl
          · rfl
        · rfl
      | checkCompact e' i =>
        rw [hc] at ho
        obtain rfl := Obj.events.inj (Option.some.inj ho)
        refine bits_of_eq (by rw [Sys.cleared, hc]; rfl) ?_
        simp [Sys.resume, Sys.checkCompact, Sys.setEvents, Sys.setKont, EventGroup.compact]
      | _ =>
        rw [hc] at ho
        cases ho
    | dispatch => cases ho
  · exact bits_of_eq (cleared_of_ne ho) (congrArg EventGroup.bits (h.sameBut.events e ho))

end Bits

/-! ### Calls of `wait_bits` -/

/-- A call of `wait_bits` by a task. -/
structure WaitCall where
  group : Nat
  task : TaskHandle
  bits : BitVec 32
  all : Bool
  clearOnExit : Bool

/-- Some `set_bits` on the group is in progress, and its scan has not passed index `j`. -/
def Sys.ScanAhead (s : Sys α) (e j : Nat) : Prop :=
  ∃ u i, i ≤ j ∧ (s.kont u = .checkTest e i ∨ s.kont u = .checkCompact e i)

namespace WaitCall

/-- The task is `BLOCKED` in the call. -/
def Blocked (c : WaitCall) (s : Sys α) : Prop :=
  s.kont c.task = .bitsWait c.group c.bits c.all c.clearOnExit ∧ s.state c.task = .blocked

/-- The condition that the call waits for, on the bits of a group. -/
def HoldsOn (c : WaitCall) (g : EventGroup) : Prop := g.satisfied c.bits c.all = true

/-- The entry of the task lies ahead of a scan of the table. -/
def Scanned (c : WaitCall) (s : Sys α) : Prop :=
  ∃ j < (s.events c.group).waitCount, ¬ s.Delivering c.group j ∧
    ((s.events c.group).waiters j).task = c.task ∧ s.ScanAhead c.group j

/-- The task has been woken in the call and has not come to its test, or executes it. -/
def Awake (c : WaitCall) (s : Sys α) : Prop :=
  (s.kont c.task = .bitsWait c.group c.bits c.all c.clearOnExit ∧
    (s.state c.task = .ready ∨ s.state c.task = .running)) ∨
  (s.kont c.task = .bitsTest c.group c.bits c.all c.clearOnExit ∧ s.me = c.task ∧ s.phase = .code)

/-- The call has just returned, with bits that satisfy the condition. -/
def Returned (c : WaitCall) (s : Sys α) : Prop :=
  s.kont c.task = .user ∧ ∃ snapshot l, s.log = .bitsReturned c.group c.task snapshot :: l ∧
    c.HoldsOn { bits := snapshot }

/-- The step is one of the task itself, or clears no bits by which the condition holds. -/
def Keeps (c : WaitCall) (s : Sys α) (a : Act α) : Prop :=
  s.me ≠ c.task → c.HoldsOn (s.events c.group) →
    c.HoldsOn { bits := (s.events c.group).bits &&& ~~~ s.cleared c.group a }

instance [DecidableEq α] (c : WaitCall) (s : Sys α) : Decidable (c.Blocked s) :=
  inferInstanceAs (Decidable (_ ∧ _))

instance (c : WaitCall) (g : EventGroup) : Decidable (c.HoldsOn g) :=
  inferInstanceAs (Decidable (_ = true))

instance (c : WaitCall) (s : Sys α) (a : Act α) : Decidable (c.Keeps s a) :=
  inferInstanceAs (Decidable (_ → _ → _))

/-- The condition holds, and the wake-up is under way or has come. -/
structure Due (c : WaitCall) (s : Sys α) : Prop where
  holds : c.HoldsOn (s.events c.group)
  stage : (c.Blocked s ∧ c.Scanned s) ∨ c.Awake s

/-- The task either is `BLOCKED` as it has been since place `i` of a run, and some scan of the
table has not passed its entry, or it has been woken and is about to test the bits. So it has not
blocked a second time. -/
def Waits (c : WaitCall) (states : Nat → Sys α) (i k : Nat) : Prop :=
  ((∀ l, i ≤ l → l ≤ k → c.Blocked (states l)) ∧ c.Scanned (states k)) ∨ c.Awake (states k)

/-- Behind place `i` and up to place `j` of a run, the call waits like this until it returns. -/
def ReturnsAfter (c : WaitCall) (states : Nat → Sys α) (i j : Nat) : Prop :=
  HoldsUntil (c.Waits states i) (fun k ↦ c.Returned (states k)) i j

/-- A woken task is not `BLOCKED` in the call. -/
theorem Awake.not_blocked {c : WaitCall} {s : Sys α} (h : c.Awake s) : ¬ c.Blocked s := by
  rintro ⟨hk, hb⟩
  rcases h with ⟨-, hr | hr⟩ | ⟨hk', -⟩
  · rw [hb] at hr
    cases hr
  · rw [hb] at hr
    cases hr
  · rw [hk] at hk'
    cases hk'

/-- A task that stays `BLOCKED` goes on waiting. -/
theorem Waits.next {c : WaitCall} {states : Nat → Sys α} {i k : Nat} (h : c.Waits states i k)
    (hb : c.Blocked (states k)) (hb' : c.Blocked (states (k + 1)))
    (hs : c.Scanned (states (k + 1))) : c.Waits states i (k + 1) := by
  rcases h with ⟨hall, -⟩ | hawake
  · refine .inl ⟨fun l hil hl ↦ ?_, hs⟩
    rcases Nat.lt_or_eq_of_le hl with hlt | rfl
    · exact hall l hil (Nat.le_of_lt_succ hlt)
    · exact hb'
  · exact absurd hb hawake.not_blocked

end WaitCall

/-! ### A step of a run -/

section Steps

variable {D : Dispatcher} {s s' : Sys α} {a : Act α} {e : Nat}

/-- A step moves no context but the executing one. -/
theorem Step.kont_of_ne (h : Step D s a s') (hs : SchedInv s) {t : TaskHandle} (ht : t ≠ s.me) :
    s'.kont t = s.kont t := by
  obtain ⟨k, -, hk⟩ := h.leads hs.fresh
  rw [hk, Function.update_of_ne ht]

/-- Nothing becomes owed but to the executing task. -/
theorem EventStep.owed_of (h : EventStep e s a s') {t : TaskHandle}
    (ho : s'.Owed (.events e) t) : s.Owed (.events e) t ∨ (s.phase = .code ∧ t = s.me) := by
  cases h with
  | frame hw hc hk hkeep howed => exact .inl ((howed t).mp ho)
  | wait bits all clr hp hm hk he hk' howed =>
    rcases (howed t).mp ho with ho | rfl
    · exact .inl ho
    · exact .inr ⟨hp, rfl⟩
  | deliver i ha hp hm hk hi hsat he hk' howed => exact .inl ((howed t).mp ho).1
  | compact i ha hp hm hk he hk' howed => exact .inl ((howed t).mp ho)

/-- A loop test of `check_waiters` below a satisfied entry that delivers nothing goes on to the
next index. -/
theorem kont_checkTest {i j : Nat} (hij : i ≤ j) (hj : j < (s.events e).waitCount)
    (hsat : (s.events e).satisfiedAt j = true)
    (hn : (s.checkTest e i).kont s.me ≠ .checkCompact e i) :
    i + 1 ≤ j ∧ (s.checkTest e i).kont s.me = .checkTest e (i + 1) := by
  unfold Sys.checkTest at hn ⊢
  rw [if_pos (show i < (s.events e).waitCount by omega)] at hn ⊢
  split at hn
  · exact absurd (Function.update_self _ _ _) hn
  · next hi =>
    rw [if_neg hi]
    refine ⟨?_, Function.update_self _ _ _⟩
    have hne : i ≠ j := by
      rintro rfl
      exact hi hsat
    omega

/-- A scan ahead of a satisfied entry stays ahead of it until it delivers one. -/
private theorem Sys.ScanAhead.frame {j : Nat} (h : s.ScanAhead e j) (hst : Step D s a s')
    (hs : SchedInv s) (hk : ∀ u i, s'.kont u = .checkCompact e i ↔ s.kont u = .checkCompact e i)
    (hj : j < (s.events e).waitCount) (hsat : (s.events e).satisfiedAt j = true) :
    s'.ScanAhead e j := by
  obtain ⟨u, i, hij, hu | hu⟩ := h
  · by_cases hum : u = s.me
    · subst hum
      cases hst with
      | call hp huser hi =>
        rw [hu] at huser
        exact huser.elim
      | resume hp hres =>
        rw [hu] at hk ⊢
        have hn : (s.checkTest e i).kont s.me ≠ .checkCompact e i := by
          intro hc
          rw [(hk s.me i).mp hc] at hu
          cases hu
        obtain ⟨hle, hnext⟩ := kont_checkTest hij hj hsat hn
        exact ⟨s.me, i + 1, hle, .inl hnext⟩
      | dispatch hp hd => exact ⟨s.me, i, hij, .inl hu⟩
    · exact ⟨u, i, hij, .inl ((hst.kont_of_ne hs hum).trans hu)⟩
  · exact ⟨u, i, hij, .inr ((hk u i).mpr hu)⟩

/-- A scan stays ahead while the executing context scans on or does something else. -/
private theorem Sys.ScanAhead.update {j : Nat} (h : s.ScanAhead e j) {k : Kont α}
    (hk' : s'.kont = Function.update s.kont s.me k)
    (hme : ∀ i, s.kont s.me = .checkTest e i ∨ s.kont s.me = .checkCompact e i →
      k = .checkTest e i ∨ k = .checkCompact e i) : s'.ScanAhead e j := by
  obtain ⟨u, i, hij, hu⟩ := h
  refine ⟨u, i, hij, ?_⟩
  rw [hk']
  by_cases hum : u = s.me
  · rw [hum, Function.update_self]
    rw [hum] at hu
    exact hme i hu
  · rw [Function.update_of_ne hum]
    exact hu

/-- The compaction leaves an entry that is not being delivered where it is, or moves it to the
index that its own scan tests next. -/
private theorem WaitCall.Scanned.compact {c : WaitCall} (h : c.Scanned s) (hr : RunInv s)
    (hi : EventInv c.group s) {i : Nat} (hk : s.kont s.me = .checkCompact c.group i)
    (he : s'.events c.group = (s.events c.group).compact i)
    (hk' : s'.kont = Function.update s.kont s.me (.checkTest c.group i)) : c.Scanned s' := by
  obtain ⟨j, hj, hnd, htask, hahead⟩ := h
  have hlt := hi.pend_lt _ _ hk
  have hpos : 0 < (s.events c.group).waitCount := Nat.zero_lt_of_lt hlt
  have hle := hi.waitCount_le hr.sched
  have hji : j ≠ i := by
    rintro rfl
    exact hnd ⟨s.me, hk⟩
  have hcount : (s'.events c.group).waitCount = (s.events c.group).waitCount - 1 := by
    rw [he, EventGroup.compact_waitCount hpos hle]
  have hdel : ∀ l, s'.Delivering c.group l → s.Delivering c.group l ∧ l ≠ i := by
    rintro l ⟨u, hu⟩
    rcases kont_of_update hk' hu with ⟨-, hc⟩ | ⟨hum, hu⟩
    · cases hc
    · exact ⟨⟨u, hu⟩, fun hli ↦ hum (hi.pend_inj u s.me i (hli ▸ hu) hk)⟩
  by_cases hlast : j = (s.events c.group).waitCount - 1
  · refine ⟨i, by omega, fun hd ↦ (hdel i hd).2 rfl, ?_, s.me, i, Nat.le_refl i, .inl ?_⟩
    · rw [he, EventGroup.compact_waiters hpos hle, if_pos rfl, ← hlast, htask]
    · rw [hk', Function.update_self]
  · refine ⟨j, by omega, fun hd ↦ hnd (hdel j hd).1, ?_, hahead.update hk' fun l hl ↦ ?_⟩
    · rw [he, EventGroup.compact_waiters hpos hle, if_neg hji, htask]
    · rcases hl with hl | hl
      · rw [hk] at hl
        cases hl
      · rw [hk] at hl
        cases hl
        exact .inl rfl

/-- The entry of a waiting task stays ahead of a scan of the table until it is delivered. -/
theorem WaitCall.Scanned.step {c : WaitCall} (h : c.Scanned s) (hst : Step D s a s')
    (hes : EventStep c.group s a s') (hr : RunInv s) (hi : EventInv c.group s)
    (hsat : c.HoldsOn (s.events c.group))
    (hkont : s.kont c.task = .bitsWait c.group c.bits c.all c.clearOnExit)
    (ho : s'.Owed (.events c.group) c.task) : c.Scanned s' := by
  obtain ⟨j, hj, hnd, htask, hahead⟩ := id h
  -- the entry holds what the call was made with
  have hsatj : (s.events c.group).satisfiedAt j = true := by
    obtain ⟨-, clr, hk⟩ := hi.entry j hj hnd
    rw [htask, hkont] at hk
    injection hk with _ hbits hall _
    rw [EventGroup.satisfiedAt, ← hbits, ← hall]
    exact hsat
  cases hes with
  | frame hw hc hk hkeep howed =>
    refine ⟨j, by rw [hc]; exact hj, ?_, by rw [hw]; exact htask,
      hahead.frame hst hr.sched hk hj hsatj⟩
    rintro ⟨u, hu⟩
    exact hnd ⟨u, (hk u j).mp hu⟩
  | wait bits all clr hp hm hk he hk' howed =>
    have hold : ∀ i, s.kont s.me ≠ .checkCompact c.group i := by simp [hk]
    have hroom := hi.waitCount_lt hr.sched hr.wait hp hm hold
    rw [EventGroup.register, if_pos hroom] at he
    refine ⟨j, by rw [he]; exact Nat.lt_succ_of_lt hj, fun hd ↦ ?_, ?_,
      hahead.update hk' fun i hc ↦ ?_⟩
    · rcases (delivering_of_update hk' hold j).mp hd with hd | hd
      · exact hnd hd
      · cases hd
    · rw [he]
      exact (congrArg Waiter.task (Function.update_of_ne (Nat.ne_of_lt hj) _ _)).trans htask
    · rw [hk] at hc
      rcases hc with hc | hc
      · cases hc
      · cases hc
  | deliver i ha hp hm hk hlt hsati he hk' howed =>
    have hold : ∀ i, s.kont s.me ≠ .checkCompact c.group i := by simp [hk]
    refine ⟨j, by rw [he]; exact hj, fun hd ↦ ?_, by rw [he, htask],
      hahead.update hk' fun l hl ↦ ?_⟩
    · rcases (delivering_of_update hk' hold j).mp hd with hd | hd
      · exact hnd hd
      · cases hd
        exact ((howed _).mp ho).2 htask.symm
    · rw [hk] at hl
      rcases hl with hl | hl
      · cases hl
        exact .inr rfl
      · cases hl
  | compact i ha hp hm hk he hk' howed => exact h.compact hr hi hk he hk'

/-- While no task is inside `set_bits`, no entry lies ahead of a scan. -/
theorem WaitCall.not_scanned {c : WaitCall} (hs : SchedInv s)
    (h : ∀ t < s.sched.taskCount, (s.kont t).IsUser ∨ (s.kont t).Waiting) : ¬ c.Scanned s := by
  rintro ⟨j, -, -, -, u, i, -, hu⟩
  have hscans : ¬ (s.kont u).IsUser ∧ ¬ (s.kont u).Waiting := by
    rcases hu with hu | hu
    · rw [hu]
      exact ⟨id, id⟩
    · rw [hu]
      exact ⟨id, id⟩
  have hlt : u < s.sched.taskCount := by
    refine hs.lt_of_kont fun hk ↦ hscans.1 ?_
    rw [hk]
    trivial
  rcases h u hlt with huser | hwaits
  · exact hscans.1 huser
  · exact hscans.2 hwaits

/-- The condition outlives a step that clears no bits it needs. -/
theorem WaitCall.HoldsOn.step {c : WaitCall} (h : c.HoldsOn (s.events c.group))
    (hst : Step D s a s') (hk : c.Keeps s a) (hme : s.me ≠ c.task) :
    c.HoldsOn (s'.events c.group) := by
  obtain ⟨b, hb⟩ := hst.bits c.group
  exact EventGroup.satisfied_or hb (hk hme h)

/-- When `set_bits` makes the condition hold, its scan is ahead of the entry of the waiter. -/
theorem WaitCall.Due.start {c : WaitCall} {b : BitVec 32} (hb : c.Blocked s) (hr : RunInv s)
    (hi : EventInv c.group s) (hst : Step D s (.call (.setBits c.group b)) s')
    (hc : c.HoldsOn { bits := (s.events c.group).bits ||| b }) : c.Due s' := by
  obtain ⟨hkont, hstate⟩ := hb
  have howed : s.Owed (.events c.group) c.task :=
    hr.wait.blocked _ _ (by rw [Sys.waitsOn, hkont]; rfl) hstate
  obtain ⟨j, hj, hnd, htask⟩ := hi.listed c.task howed
  cases hst with
  | call hp hu his =>
    have hne : c.task ≠ s.me := by
      intro hme
      rw [← hme, hkont] at hu
      exact hu
    have hk' : (s.call (.setBits c.group b)).kont =
      Function.update s.kont s.me (.checkTest c.group 0) := rfl
    have he : (s.call (.setBits c.group b)).events c.group =
      { s.events c.group with bits := (s.events c.group).bits ||| b } := Function.update_self _ _ _
    refine ⟨?_, .inl ⟨⟨?_, hstate⟩, j, ?_, fun hd ↦ ?_, ?_, s.me, 0, Nat.zero_le j, .inl ?_⟩⟩
    · rw [he]
      exact hc
    · rw [hk', Function.update_of_ne hne, hkont]
    · rw [he]
      exact hj
    · have hold : ∀ i, s.kont s.me ≠ .checkCompact c.group i := by simp [hu.eq]
      rcases (delivering_of_update hk' hold j).mp hd with hd | hd
      · exact hnd hd
      · cases hd
    · rw [he]
      exact htask
    · rw [hk', Function.update_self]

/-- A test of the bits that succeeds returns from the call. -/
theorem WaitCall.returned_bitsTest {c : WaitCall} (hme : s.me = c.task)
    (h : c.HoldsOn (s.events c.group)) :
    c.Returned (s.bitsTest c.group c.bits c.all c.clearOnExit) := by
  have hsnap : c.HoldsOn { bits := (s.events c.group).bits } := h
  unfold Sys.bitsTest
  rw [if_pos (show (s.events c.group).satisfied c.bits c.all = true from h)]
  have hkont : (Function.update s.kont s.me .user) c.task = .user := by
    rw [hme, Function.update_self]
  have hlog : (Event.bitsReturned c.group s.me (s.events c.group).bits :: s.log) =
    .bitsReturned c.group c.task (s.events c.group).bits :: s.log := by rw [hme]
  dsimp only
  split
  · exact ⟨hkont, _, _, hlog, hsnap⟩
  · exact ⟨hkont, _, _, hlog, hsnap⟩

/-- A step of the task itself, when its condition holds: on to its test, and from there out of
the call. -/
theorem WaitCall.Due.own {c : WaitCall} (h : c.Due s) (hr : RunInv s) (hst : Step D s a s')
    (hp : s.phase = .code) (hme : s.me = c.task) : (c.Due s' ∧ c.Awake s') ∨ c.Returned s' := by
  obtain ⟨hholds, ⟨⟨hk, hb⟩, -⟩ | ⟨hk, -⟩ | ⟨hk, -⟩⟩ := h
  · have hm : s.me ≠ invalidTask := by
      rw [hme]
      exact hr.sched.ne_invalid (hr.sched.lt_of_kont (by simp [hk]))
    have hrun := hr.sched.running_me hp hm
    rw [hme, hb] at hrun
    cases hrun
  · left
    rw [← hme] at hk
    cases hst with
    | call hp hu hi =>
      rw [hk] at hu
      exact hu.elim
    | resume hp hres =>
      rw [hk]
      have hawake : c.Awake (s.resume (.bitsWait c.group c.bits c.all c.clearOnExit)) := by
        refine .inr ⟨?_, hme, hp⟩
        rw [← hme]
        exact Function.update_self _ _ _
      exact ⟨⟨hholds, .inr hawake⟩, hawake⟩
    | dispatch hcode hd => exact absurd hp hcode
  · right
    rw [← hme] at hk
    cases hst with
    | call hp hu hi =>
      rw [hk] at hu
      exact hu.elim
    | resume hp hres =>
      rw [hk]
      exact returned_bitsTest hme hholds
    | dispatch hcode hd => exact absurd hp hcode

/-- The step taken while another task executes, or by the dispatcher: the wake-up stays under
way, or comes. -/
theorem WaitCall.Due.other {c : WaitCall} (h : c.Due s) (hr : RunInv s) (hr' : RunInv s')
    (hi : EventInv c.group s) (hst : Step D s a s') (hg : TasksOnly s a) (hkeep : c.Keeps s a)
    (hme : ¬ (s.phase = .code ∧ s.me = c.task)) :
    c.Due s' ∧ (c.Blocked s ∧ c.Blocked s' ∧ c.Scanned s' ∨ c.Awake s') := by
  have hkont : s.kont c.task = .bitsWait c.group c.bits c.all c.clearOnExit := by
    obtain ⟨-, ⟨⟨hk, -⟩, -⟩ | ⟨hk, -⟩ | ⟨-, hm, hp⟩⟩ := h
    · exact hk
    · exact hk
    · exact absurd ⟨hp, hm⟩ hme
  obtain ⟨hkont', hholds⟩ : s'.kont c.task = s.kont c.task ∧ c.HoldsOn (s'.events c.group) := by
    by_cases hm : s.me = c.task
    · cases hst with
      | call hp hu his => exact absurd ⟨hp, hm⟩ hme
      | resume hp hres => exact absurd ⟨hp, hm⟩ hme
      | dispatch hp hd => exact ⟨rfl, h.holds⟩
    · exact ⟨hst.kont_of_ne hr.sched (Ne.symm hm), h.holds.step hst hkeep hm⟩
  rw [hkont] at hkont'
  have hes := hst.eventStep hr.sched hr.wait hg c.group
  have hlive := hr'.undisturbed.live c.task (by rw [hkont']; trivial)
  have hstage : c.Blocked s ∧ c.Blocked s' ∧ c.Scanned s' ∨ c.Awake s' := by
    cases hstate : s'.state c.task with
    | blocked =>
      left
      have howed' : s'.Owed (.events c.group) c.task :=
        hr'.wait.blocked _ _ (by rw [Sys.waitsOn, hkont']; rfl) hstate
      have howed : s.Owed (.events c.group) c.task := by
        rcases hes.owed_of howed' with ho | ⟨hp, hm⟩
        · exact ho
        · exact absurd ⟨hp, hm.symm⟩ hme
      have hb : c.Blocked s := ⟨hkont, hr.blocked_of_owed howed⟩
      rcases h.stage with ⟨-, hscan⟩ | hawake
      · exact ⟨hb, ⟨hkont', hstate⟩, hscan.step hst hes hr hi h.holds hkont howed'⟩
      · exact absurd hb hawake.not_blocked
    | ready => exact .inr (.inl ⟨hkont', .inl hstate⟩)
    | running => exact .inr (.inl ⟨hkont', .inr hstate⟩)
    | suspended => exact absurd hstate hlive.1
    | deleted => exact absurd hstate hlive.2
  refine ⟨⟨hholds, ?_⟩, hstage⟩
  rcases hstage with ⟨-, hb, hscan⟩ | hawake
  · exact .inl ⟨hb, hscan⟩
  · exact .inr hawake

end Steps

/-! ### Runs -/

/-- A task that is blocked in `wait_bits` when `set_bits` makes its condition hold is woken by a
scan of the table and returns at its next test of the bits: in every run that uses the tables
safely and until then clears no bits by which its condition holds. -/
theorem set_bits_wakes [Inhabited α] (D : Dispatcher) (n : Nat) (states : Nat → Sys α)
    (labels : Nat → Act α) (h : IsRun IsInit TableDisciplined (Step D) n states labels)
    (c : WaitCall) (b : BitVec 32) (i j : Nat) (hij : i < j) (hj : j ≤ n)
    (hset : labels i = .call (.setBits c.group b)) (hb : c.Blocked (states i))
    (hc : c.HoldsOn { bits := ((states i).events c.group).bits ||| b })
    (hkeep : ∀ k, i < k → k < j → c.Keeps (states k) (labels k)) :
    c.ReturnsAfter states i j := by
  have hinv : ∀ k ≤ n, RunInv (states k) ∧ EventInv c.group (states k) := by
    intro k hk
    obtain ⟨hr, hi⟩ := eventInv_of_reach (h.reach hk)
    exact ⟨hr, hi c.group⟩
  have hwaits : HoldsUntil (fun k ↦ c.Due (states k) ∧ c.Waits states i k)
      (fun k ↦ c.Returned (states k)) i j := by
    apply HoldsUntil.of_step
    · obtain ⟨hr, hi⟩ := hinv i (by omega)
      have hst := h.next i (by omega)
      rw [hset] at hst
      have hdue : c.Due (states (i + 1)) := .start hb hr hi hst hc
      refine ⟨hdue, ?_⟩
      rcases hdue.stage with ⟨hb', hscan⟩ | hawake
      · refine .inl ⟨fun l hil hl ↦ ?_, hscan⟩
        rcases Nat.eq_or_lt_of_le hil with rfl | hlt
        · exact hb
        · obtain rfl : l = i + 1 := by omega
          exact hb'
      · exact .inr hawake
    · rintro k hik hkj ⟨hdue, hw⟩
      obtain ⟨hr, hi⟩ := hinv k (by omega)
      have hst := h.next k (by omega)
      by_cases hown : (states k).phase = .code ∧ (states k).me = c.task
      · rcases hdue.own hr hst hown.1 hown.2 with ⟨hdue', hawake⟩ | hret
        · exact .inl ⟨hdue', .inr hawake⟩
        · exact .inr hret
      · left
        have hg := h.guarded k (by omega)
        obtain ⟨hdue', ⟨hbk, hbk', hscan⟩ | hawake⟩ :=
          hdue.other hr (hinv (k + 1) (by omega)).1 hi hst hg.1.1 (hkeep k hik hkj) hown
        · exact ⟨hdue', hw.next hbk hbk' hscan⟩
        · exact ⟨hdue', .inr hawake⟩
  exact hwaits.imp fun k hk ↦ hk.2

/-- Tasks 1 and 2 wait for bit 0, the latter for bit 1 as well as an alternative, and task 0 sets
both. Task 1 preempts it and clears bit 0 on exit; task 2 is woken by what is left. -/
def keptBitsRun : List (Act Unit) :=
  [.call (.xTaskCreate 5), .call (.xTaskCreate 1), .call (.xTaskCreate 2),
    .call .vTaskStartScheduler, .call (.waitBits 0 1 true true), .resume, .dispatch,
    .call (.waitBits 0 3 false true), .resume, .dispatch, .call (.setBits 0 3), .resume, .dispatch,
    .resume, .resume, .call (.vTaskDelay 10), .dispatch, .resume, .resume, .dispatch, .resume,
    .resume]

/-- The states of that run. -/
def keptBitsAt : Nat → Sys Unit := stateAt Sys.exec keptBitsRun (.init {})

private theorem keptBitsRun_isSome : (runActs Sys.exec keptBitsRun (.init {})).isSome = true := by
  decide +kernel

private theorem isRun_keptBits : IsRun IsInit TableDisciplined (Step .code) 22 keptBitsAt
    (fun i ↦ keptBitsRun.getD i .dispatch) :=
  IsRun.of_guardedRun Step.of_exec keptBitsRun .dispatch ⟨{}, rfl⟩ (by decide +kernel)
    keptBitsRun_isSome

private theorem keeps_keptBits : ∀ k < 22, 10 < k →
    WaitCall.Keeps ⟨0, 2, 3, false, true⟩ (keptBitsAt k) (keptBitsRun.getD k .dispatch) := by
  have hkeeps : GuardedRun (WaitCall.Keeps ⟨0, 2, 3, false, true⟩) Sys.exec (keptBitsRun.drop 11)
      (keptBitsAt 11) := by
    decide +kernel
  intro k hk hlt
  have hat := guard_stateAt .dispatch keptBitsRun_isSome hkeeps hk hlt
  exact hat

/-- Both have returned in the end. -/
theorem set_bits_wakes_kept :
    ((keptBitsAt 22).kont 1 = .delayed ∧ (keptBitsAt 22).kont 2 = .user) ∧
      WaitCall.ReturnsAfter ⟨0, 2, 3, false, true⟩ keptBitsAt 10 22 :=
  ⟨by decide +kernel,
    set_bits_wakes .code 22 keptBitsAt _ isRun_keptBits ⟨0, 2, 3, false, true⟩ 3 10 22 (by decide)
      (by decide) rfl (by decide +kernel) (by decide +kernel)
      fun k hk hlt ↦ keeps_keptBits k hlt hk⟩

/-- Tasks 1 and 2 wait for the same bit and task 0 sets it. Task 1 preempts it and clears the bit
on exit, before the scan comes to the entry of task 2. -/
def clearedBitRun : List (Act Unit) :=
  [.call (.xTaskCreate 5), .call (.xTaskCreate 1), .call (.xTaskCreate 2),
    .call .vTaskStartScheduler, .call (.waitBits 0 1 true true), .resume, .dispatch,
    .call (.waitBits 0 1 true true), .resume, .dispatch, .call (.setBits 0 1), .resume, .dispatch,
    .resume, .resume, .call (.vTaskDelay 10), .dispatch, .resume, .resume, .resume]

/-- The states of that run. -/
def clearedBitAt : Nat → Sys Unit := stateAt Sys.exec clearedBitRun (.init {})

private theorem clearedBitRun_isSome :
    (runActs Sys.exec clearedBitRun (.init {})).isSome = true := by
  decide +kernel

private theorem isRun_clearedBit : IsRun IsInit TableDisciplined (Step .code) 20 clearedBitAt
    (fun i ↦ clearedBitRun.getD i .dispatch) :=
  IsRun.of_guardedRun Step.of_exec clearedBitRun .dispatch ⟨{}, rfl⟩ (by decide +kernel)
    clearedBitRun_isSome

/-- The call of task 2. -/
def clearedCall : WaitCall := ⟨0, 2, 1, true, true⟩

private theorem blocked_clearedBit : ∀ k < 21, 10 ≤ k → clearedCall.Blocked (clearedBitAt k) := by
  have hblocked : GuardedRun (fun (s : Sys Unit) (_ : Act Unit) ↦ clearedCall.Blocked s) Sys.exec
      (clearedBitRun.drop 10) (clearedBitAt 10) := by
    decide +kernel
  have hend : clearedCall.Blocked (clearedBitAt 20) := by
    decide +kernel
  intro k hk hle
  rcases Nat.lt_or_eq_of_le (Nat.le_of_lt_succ hk) with hlt | rfl
  · exact guard_stateAt .dispatch clearedBitRun_isSome hblocked hlt hle
  · exact hend

/-- In the end no `set_bits` is in progress. -/
theorem not_scanned_clearedBit : ¬ clearedCall.Scanned (clearedBitAt 20) := by
  have hs := (eventInv_of_reach (isRun_clearedBit.reach (Nat.le_refl 20))).1.sched
  exact WaitCall.not_scanned hs (by decide +kernel)

/-- Task 2 stays blocked. -/
theorem not_set_bits_wakes :
    ((clearedBitAt 20).kont 0 = .user ∧ clearedCall.Blocked (clearedBitAt 20)) ∧
    ¬ ∀ (n : Nat) (states : Nat → Sys Unit) (labels : Nat → Act Unit),
      IsRun IsInit TableDisciplined (Step .code) n states labels →
      ∀ (c : WaitCall) (b : BitVec 32) (i j : Nat), i < j → j ≤ n →
        labels i = .call (.setBits c.group b) → c.Blocked (states i) →
        c.HoldsOn { bits := ((states i).events c.group).bits ||| b } →
        c.ReturnsAfter states i j := by
  have hblocked := blocked_clearedBit 20 (by decide) (by decide)
  refine ⟨⟨by decide +kernel, hblocked⟩, fun h ↦ ?_⟩
  rcases h 20 clearedBitAt _ isRun_clearedBit clearedCall 1 10 20 (by decide) (by decide) rfl
    (blocked_clearedBit 10 (by decide) (by decide)) (by decide +kernel)
    with hall | ⟨k, hik, hkj, -, hret⟩
  · rcases hall 20 (by decide) (by decide) with ⟨-, hscan⟩ | hawake
    · exact not_scanned_clearedBit hscan
    · exact hawake.not_blocked hblocked
  · have hk := (blocked_clearedBit (k + 1) (by omega) (by omega)).1
    rw [hret.1] at hk
    cases hk

end McuSimulator.Rtos
