import McuSimulator.Rtos.Discipline

/-!
# The waiter table of an event group

An entry is being delivered while some context has called `unblock` for it and has not
compacted it yet; that context can be preempted in between, and other contexts may then use
the same table. `EventInv` is what holds of the table at every such point as long as no
context acts on an entry that another one is delivering (`TableSafe`): the entries under
delivery are distinct live ones, and the other live ones are those of the tasks owed a
wake-up, one each.
-/

namespace McuSimulator.Rtos

open McuSimulator.Base

variable {α : Type}

/-- Some context has called `unblock` for the entry and has not compacted it yet. -/
def Sys.Delivering (s : Sys α) (e j : Nat) : Prop := ∃ u, s.kont u = .checkCompact e j

/-- The table of an event group, at any point of any deliveries in progress. -/
structure EventInv (e : Nat) (s : Sys α) : Prop where
  pend_lt : ∀ u i, s.kont u = .checkCompact e i → i < (s.events e).waitCount
  pend_inj : ∀ u v i, s.kont u = .checkCompact e i → s.kont v = .checkCompact e i → u = v
  entry : ∀ j < (s.events e).waitCount, ¬ s.Delivering e j →
    s.Owed (.events e) ((s.events e).waiters j).task ∧
    ∃ clr, s.kont ((s.events e).waiters j).task =
      .bitsWait e ((s.events e).waiters j).waitBits ((s.events e).waiters j).all clr
  uniq : ∀ j k, j < (s.events e).waitCount → k < (s.events e).waitCount →
    ¬ s.Delivering e j → ¬ s.Delivering e k →
    ((s.events e).waiters j).task = ((s.events e).waiters k).task → j = k
  listed : ∀ t, s.Owed (.events e) t →
    ∃ j < (s.events e).waitCount, ¬ s.Delivering e j ∧ ((s.events e).waiters j).task = t

/-- At this point of the code, `check_waiters` neither reaches a satisfied entry that another
task is delivering, nor compacts the table while its last entry is one that another task is
delivering. -/
def Sys.TableSafeAt (s : Sys α) : Kont α → Prop
  | .checkTest e i => i < (s.events e).waitCount → (s.events e).satisfiedAt i = true →
      ∀ u < s.sched.taskCount, s.kont u ≠ .checkCompact e i
  | .checkCompact e _ => ∀ u < s.sched.taskCount, u ≠ s.me →
      s.kont u ≠ .checkCompact e ((s.events e).waitCount - 1)
  | _ => True

/-- The step does not act on an entry that another task is delivering. -/
def TableSafe (s : Sys α) : Act α → Prop
  | .resume => s.TableSafeAt (s.kont s.me)
  | _ => True

instance [DecidableEq α] (s : Sys α) (k : Kont α) : Decidable (s.TableSafeAt k) :=
  match k with
  | .checkTest e i => inferInstanceAs (Decidable
      (i < (s.events e).waitCount → (s.events e).satisfiedAt i = true →
        ∀ u < s.sched.taskCount, s.kont u ≠ .checkCompact e i))
  | .checkCompact e _ => inferInstanceAs (Decidable
      (∀ u < s.sched.taskCount, u ≠ s.me →
        s.kont u ≠ .checkCompact e ((s.events e).waitCount - 1)))
  | .user | .exited | .delayed | .lockWait _ | .takeWait _ | .sendWait _ _ | .sendTest _ _
  | .recvWait _ | .recvTest _ | .bitsWait _ _ _ _ | .bitsTest _ _ _ _ => .isTrue trivial

instance [DecidableEq α] (s : Sys α) (a : Act α) : Decidable (TableSafe s a) :=
  match a with
  | .resume => inferInstanceAs (Decidable (s.TableSafeAt _))
  | .call _ | .dispatch => .isTrue trivial

private theorem TableSafe.not_delivering {s : Sys α} (h : TableSafe s .resume) (hs : SchedInv s)
    {e i : Nat} (hk : s.kont s.me = .checkTest e i) (hi : i < (s.events e).waitCount)
    (hsat : (s.events e).satisfiedAt i = true) : ¬ s.Delivering e i := by
  rintro ⟨u, hu⟩
  simp only [TableSafe, Sys.TableSafeAt, hk] at h
  exact h hi hsat u (hs.lt_of_kont (by simp [hu])) hu

private theorem TableSafe.last {s : Sys α} (h : TableSafe s .resume) (hs : SchedInv s) {e i : Nat}
    (hk : s.kont s.me = .checkCompact e i) (u : TaskHandle) (hne : u ≠ s.me) :
    s.kont u ≠ .checkCompact e ((s.events e).waitCount - 1) := by
  intro hu
  simp only [TableSafe, Sys.TableSafeAt, hk] at h
  exact h u (hs.lt_of_kont (by simp [hu])) hne hu

/-- A disciplined program that uses the tables safely. -/
def TableDisciplined (s : Sys α) (a : Act α) : Prop := Disciplined s a ∧ TableSafe s a

instance [DecidableEq α] (s : Sys α) (a : Act α) : Decidable (TableDisciplined s a) :=
  inferInstanceAs (Decidable (_ ∧ _))

/-! ### Steps on an event group -/

/-- What one step can do to the table of an event group. -/
inductive EventStep (e : Nat) (s : Sys α) (a : Act α) (s' : Sys α) : Prop
  | frame (hw : (s'.events e).waiters = (s.events e).waiters)
      (hc : (s'.events e).waitCount = (s.events e).waitCount)
      (hk : ∀ u i, s'.kont u = .checkCompact e i ↔ s.kont u = .checkCompact e i)
      (hkeep : ∀ t, s.Owed (.events e) t → s'.kont t = s.kont t)
      (howed : ∀ t, s'.Owed (.events e) t ↔ s.Owed (.events e) t)
  | wait (bits : BitVec 32) (all clr : Bool) (hp : s.phase = .code) (hm : s.me ≠ invalidTask)
      (hk : s.kont s.me = .bitsTest e bits all clr)
      (he : s'.events e = (s.events e).register { task := s.me, waitBits := bits, all := all })
      (hk' : s'.kont = Function.update s.kont s.me (.bitsWait e bits all clr))
      (howed : ∀ t, s'.Owed (.events e) t ↔ s.Owed (.events e) t ∨ t = s.me)
  | deliver (i : Nat) (ha : a = .resume) (hp : s.phase = .code) (hm : s.me ≠ invalidTask)
      (hk : s.kont s.me = .checkTest e i) (hi : i < (s.events e).waitCount)
      (hsat : (s.events e).satisfiedAt i = true) (he : s'.events e = s.events e)
      (hk' : s'.kont = Function.update s.kont s.me (.checkCompact e i))
      (howed : ∀ t, s'.Owed (.events e) t ↔
        s.Owed (.events e) t ∧ t ≠ ((s.events e).waiters i).task)
  | compact (i : Nat) (ha : a = .resume) (hp : s.phase = .code) (hm : s.me ≠ invalidTask)
      (hk : s.kont s.me = .checkCompact e i) (he : s'.events e = (s.events e).compact i)
      (hk' : s'.kont = Function.update s.kont s.me (.checkTest e i))
      (howed : ∀ t, s'.Owed (.events e) t ↔ s.Owed (.events e) t)

section Steps

variable {D : Dispatcher} {s s' : Sys α} {a : Act α} {e : Nat} {k : Kont α}

/-- A step on another object leaves what a primitive owes alone. -/
theorem owed_other (hs : SchedInv s) (hw : WaitInv s) (he : Effect D s a s') {p : Prim}
    (ho : a.obj s ≠ some p.obj) (t : TaskHandle) : s'.Owed p t ↔ s.Owed p t := by
  cases he with
  | quiet k ht hk hss hp hlog hl => exact owed_quiet hs hw ht hk hlog p t
  | block p' k hobj ht hk hss hp hlog hl =>
    have hne : p ≠ p' := fun h ↦ ho (by rw [hobj, h])
    rw [owed_block hs hw ht hk hlog p t]
    simp [hne]
  | wake p' w i k hobj ht hk hss hp hi hwk hlog hl =>
    have hne : p ≠ p' := fun h ↦ ho (by rw [hobj, h])
    obtain ⟨l, hlq, -, hlog⟩ := hlog
    rw [owed_wake hs hw ht hk hlq hlog p t]
    simp [hne]
  | api op ha hop hp hi hu he =>
    obtain ⟨hlog, -, hk⟩ := api_frame hs hop hu
    rw [he]
    exact owed_congr hlog hk p t
  | dispatch ha hp sched hd he =>
    rw [he]
    exact Iff.rfl

/-- A calm change that does not begin or end a compaction. -/
theorem Calm.eventStep (h : Calm s s' k) (hs : SchedInv s) (hw : WaitInv s)
    (hp : s.phase = .code) (hm : s.me ≠ invalidTask) (hk : k.waitsOn = none)
    (hold : ∀ i, s.kont s.me ≠ .checkCompact e i) (hnew : ∀ i, k ≠ .checkCompact e i)
    (hev : (s'.events e).waiters = (s.events e).waiters)
    (hc : (s'.events e).waitCount = (s.events e).waitCount) : EventStep e s a s' := by
  refine .frame hev hc (fun u i ↦ ?_) (fun t ho ↦ ?_)
    (owed_quiet hs hw ⟨hp, hm, h.kont⟩ hk h.log _)
  · rw [h.kont]
    by_cases hu : u = s.me
    · rw [hu, Function.update_self]
      exact iff_of_false (hnew i) (hold i)
    · rw [Function.update_of_ne hu]
  · have ht : t ≠ s.me := by
      rintro rfl
      exact hw.not_owed_me hs hp hm _ ho
    rw [h.kont, Function.update_of_ne ht]

private theorem bitsTest_eventStep (hs : SchedInv s) (hw : WaitInv s) (hp : s.phase = .code)
    (hm : s.me ≠ invalidTask) {bits : BitVec 32} {all clr : Bool}
    (hk : s.kont s.me = .bitsTest e bits all clr) :
    EventStep e s a (s.bitsTest e bits all clr) := by
  unfold Sys.bitsTest
  split
  · have hc := fun b ↦ ((Calm.refl (s := s) rfl).setKont .user).emit
      (e := .bitsReturned e s.me b) trivial
    dsimp only
    split
    · refine Calm.eventStep ((hc _).setEvents e _) hs hw hp hm rfl (by simp [hk]) (by simp) ?_ ?_
      · simp [Sys.clearBits, Sys.setEvents, Sys.emit, Sys.setKont]
      · simp [Sys.clearBits, Sys.setEvents, Sys.emit, Sys.setKont]
    · exact (hc _).eventStep hs hw hp hm rfl (by simp [hk]) (by simp) rfl rfl
  · have hb := blockCurrent_eq (u := s.setEvents e ((s.events e).register
      { task := s.me, waitBits := bits, all := all })) hm (.events e) (.bitsWait e bits all clr)
    rw [hb]
    refine .wait bits all clr hp hm hk (Function.update_self _ _ _) rfl fun t ↦ ?_
    rw [owed_block (p := .events e) (k := .bitsWait e bits all clr) hs hw ⟨hp, hm, rfl⟩ rfl rfl]
    simp

private theorem checkTest_eventStep (hs : SchedInv s) (hw : WaitInv s) (hp : s.phase = .code)
    (hm : s.me ≠ invalidTask) {i : Nat} (hk : s.kont s.me = .checkTest e i) :
    EventStep e s .resume (s.checkTest e i) := by
  unfold Sys.checkTest
  split
  · next hi =>
    split
    · next hsat =>
      refine .deliver i rfl hp hm hk hi hsat rfl rfl fun t ↦ ?_
      rw [owed_wake (p := .events e) (w := ((s.events e).waiters i).task) (l := s.log)
        (k := .checkCompact e i) hs hw ⟨hp, hm, rfl⟩ rfl (.refl _) rfl]
      simp
    · exact ((Calm.refl rfl).setKont _).eventStep hs hw hp hm rfl (by simp [hk]) (by simp) rfl rfl
  · exact ((Calm.refl rfl).setKont _).eventStep hs hw hp hm rfl (by simp [hk]) (by simp) rfl rfl

/-- Every step does one of these to the table of an event group. -/
theorem Step.eventStep (h : Step D s a s') (hs : SchedInv s) (hw : WaitInv s)
    (hg : TasksOnly s a) (e : Nat) : EventStep e s a s' := by
  have he := h.effect hs.outside hg
  by_cases ho : a.obj s = some (.events e)
  · cases h with
    | @call op hp hk hi =>
      have hu := hk.eq
      have hold : ∀ i, s.kont s.me ≠ .checkCompact e i := by simp [hu]
      cases op with
      | setBits e' bits =>
        rw [Obj.events.inj (Option.some.inj ho)]
        refine Calm.eventStep (((Calm.refl hu).setEvents e _).setKont (.checkTest e 0)) hs hw hp
          (fun hm ↦ hg hm) rfl hold (by simp) ?_ ?_
        · simp [Sys.call, Sys.setBits, Sys.setEvents, Sys.setKont]
        · simp [Sys.call, Sys.setBits, Sys.setEvents, Sys.setKont]
      | clearBits e' bits =>
        rw [Obj.events.inj (Option.some.inj ho)]
        refine Calm.eventStep ((Calm.refl hu).setEvents e _) hs hw hp (fun hm ↦ hg hm) rfl hold
          (by simp) ?_ ?_
        · simp [Sys.call, Sys.clearBits, Sys.setEvents]
        · simp [Sys.call, Sys.clearBits, Sys.setEvents]
      | waitBits e' bits all clr =>
        exact ((Calm.refl rfl).setKont _).eventStep hs hw hp (fun hm ↦ hg hm) rfl hold (by simp)
          rfl rfl
      | checkBits e' bits all =>
        exact (Calm.refl hu).eventStep hs hw hp (fun hm ↦ hg hm) rfl hold (by simp) rfl rfl
      | _ => cases ho
    | resume hp hk =>
      have hm : s.me ≠ invalidTask := fun hm ↦ by
        rw [hs.outside hm] at hk
        exact hk
      simp only [Act.obj] at ho
      cases hc : s.kont s.me with
      | bitsWait e' bits all clr =>
        exact ((Calm.refl rfl).setKont _).eventStep hs hw hp hm rfl (by simp [hc]) (by simp)
          rfl rfl
      | bitsTest e' bits all clr =>
        rw [hc] at ho
        rw [Obj.events.inj (Option.some.inj ho)] at hc ⊢
        exact bitsTest_eventStep hs hw hp hm hc
      | checkTest e' i =>
        rw [hc] at ho
        rw [Obj.events.inj (Option.some.inj ho)] at hc ⊢
        exact checkTest_eventStep hs hw hp hm hc
      | checkCompact e' i =>
        rw [hc] at ho
        rw [Obj.events.inj (Option.some.inj ho)] at hc ⊢
        have hby : ByTask s (s.checkCompact e i) (.checkTest e i) := ⟨hp, hm, rfl⟩
        exact .compact i rfl hp hm hc (Function.update_self _ _ _) rfl
          (owed_quiet hs hw hby rfl (.refl _) _)
      | _ =>
        rw [hc] at ho
        cases ho
    | dispatch => cases ho
  · have hf := h.sameBut
    have hev := hf.events e ho
    refine .frame (by rw [hev]) (by rw [hev]) (fun u i ↦ h.kont_iff hs.fresh ho rfl u)
      (fun t hot ↦ ?_) (owed_other hs hw he ho)
    exact (h.kont_iff hs.fresh ho (Kont.obj_of_waitsOn hot.1) t).mpr rfl

end Steps

/-! ### The size of the table -/

/-- The context that accounts for a live entry: the one delivering it, or its waiter. -/
def Sys.OwnsEntry (s : Sys α) (e j : Nat) (t : TaskHandle) : Prop :=
  s.kont t = .checkCompact e j ∨ (¬ s.Delivering e j ∧ ((s.events e).waiters j).task = t)

section Size

variable {s : Sys α} {e : Nat}

private theorem EventInv.exists_owner (h : EventInv e s) {j : Nat}
    (hj : j < (s.events e).waitCount) :
    ∃ t, s.OwnsEntry e j t ∧ s.kont t ≠ .user ∧
      (s.kont t = .checkCompact e j ∨ s.Owed (.events e) t) := by
  by_cases hd : s.Delivering e j
  · obtain ⟨u, hu⟩ := hd
    exact ⟨u, .inl hu, by simp [hu], .inl hu⟩
  · obtain ⟨ho, clr, hk⟩ := h.entry j hj hd
    exact ⟨_, .inr ⟨hd, rfl⟩, by simp [hk], .inr ho⟩

private theorem EventInv.owner_inj (h : EventInv e s) {j k : Nat} {t : TaskHandle}
    (hj : j < (s.events e).waitCount) (hk : k < (s.events e).waitCount)
    (hjt : s.OwnsEntry e j t) (hkt : s.OwnsEntry e k t) : j = k := by
  rcases hjt with hjt | ⟨hjd, hjt⟩
  · rcases hkt with hkt | ⟨hkd, hkt⟩
    · rw [hjt] at hkt
      exact (Kont.checkCompact.inj hkt).2
    · obtain ⟨-, clr, hw⟩ := h.entry k hk hkd
      rw [hkt, hjt] at hw
      cases hw
  · rcases hkt with hkt | ⟨hkd, hkt⟩
    · obtain ⟨-, clr, hw⟩ := h.entry j hj hjd
      rw [hjt, hkt] at hw
      cases hw
    · exact h.uniq j k hj hk hjd hkd (hjt.trans hkt.symm)

/-- The count stays within the array. -/
theorem EventInv.waitCount_le (h : EventInv e s) (hs : SchedInv s) :
    (s.events e).waitCount ≤ maxTasks := by
  have hlt : (s.events e).waitCount < s.sched.taskCount + 1 := by
    refine lt_of_owners (R := s.OwnsEntry e) (x := s.sched.taskCount) (fun j hj ↦ ?_)
      (Nat.lt_succ_self _) fun j k t hj hk ↦ h.owner_inj hj hk
    obtain ⟨t, ht, hu, -⟩ := h.exists_owner hj
    have htc := hs.lt_of_kont hu
    exact ⟨t, ht, Nat.lt_succ_of_lt htc, Nat.ne_of_lt htc⟩
  exact Nat.le_trans (Nat.le_of_lt_succ hlt) hs.taskCount_le

/-- There is room for a task that is about to wait. -/
theorem EventInv.waitCount_lt (h : EventInv e s) (hs : SchedInv s) (hw : WaitInv s)
    (hp : s.phase = .code) (hm : s.me ≠ invalidTask)
    (hk : ∀ j, s.kont s.me ≠ .checkCompact e j) : (s.events e).waitCount < maxTasks := by
  refine Nat.lt_of_lt_of_le ?_ hs.taskCount_le
  refine lt_of_owners (R := s.OwnsEntry e) (x := s.me) (fun j hj ↦ ?_) (hs.me_lt hm)
    fun j k t hj hk ↦ h.owner_inj hj hk
  obtain ⟨t, ht, hu, hor⟩ := h.exists_owner hj
  refine ⟨t, ht, hs.lt_of_kont hu, ?_⟩
  rintro rfl
  rcases hor with hc | ho
  · exact hk j hc
  · exact hw.not_owed_me hs hp hm _ ho

end Size

/-! ### The table over a step -/

/-- The compaction takes one entry away, unless the count is out of range. -/
theorem EventGroup.compact_waitCount {g : EventGroup} {i : Nat} (hpos : 0 < g.waitCount)
    (hle : g.waitCount ≤ maxTasks) : (g.compact i).waitCount = g.waitCount - 1 := by
  unfold maxTasks at hle
  simp only [EventGroup.compact]
  omega

/-- Where the entry at `j` comes from: the hole is filled with the last one. -/
theorem EventGroup.compact_waiters {g : EventGroup} {i : Nat} (hpos : 0 < g.waitCount)
    (hle : g.waitCount ≤ maxTasks) (j : Nat) :
    (g.compact i).waiters j = g.waiters (if j = i then g.waitCount - 1 else j) := by
  have hn : (g.waitCount + 255) % 256 = g.waitCount - 1 := compact_waitCount (i := i) hpos hle
  simp only [EventGroup.compact, hn]
  by_cases hj : j = i
  · rw [if_pos hj, hj, Function.update_self]
  · rw [if_neg hj, Function.update_of_ne hj]

section Preserve

variable {s s' : Sys α} {a : Act α} {e : Nat}

/-- A context after the executing one moved is the one that moved or stayed. -/
theorem kont_of_update {k c : Kont α} (hk' : s'.kont = Function.update s.kont s.me k)
    {u : TaskHandle} (hu : s'.kont u = c) :
    (u = s.me ∧ k = c) ∨ (u ≠ s.me ∧ s.kont u = c) := by
  rw [hk'] at hu
  by_cases hum : u = s.me
  · rw [hum, Function.update_self] at hu
    exact .inl ⟨hum, hu⟩
  · rw [Function.update_of_ne hum] at hu
    exact .inr ⟨hum, hu⟩

/-- Deliveries in progress after the executing context moved. -/
theorem delivering_of_update {k : Kont α}
    (hk' : s'.kont = Function.update s.kont s.me k) (hold : ∀ i, s.kont s.me ≠ .checkCompact e i)
    (j : Nat) : s'.Delivering e j ↔ s.Delivering e j ∨ k = .checkCompact e j := by
  constructor
  · rintro ⟨u, hu⟩
    rcases kont_of_update hk' hu with ⟨-, hk⟩ | ⟨-, hu⟩
    · exact .inr hk
    · exact .inl ⟨u, hu⟩
  · rintro (⟨u, hu⟩ | hk)
    · have hm : u ≠ s.me := fun hm ↦ hold j (hm ▸ hu)
      exact ⟨u, by rw [hk', Function.update_of_ne hm, hu]⟩
    · exact ⟨s.me, by rw [hk', Function.update_self, hk]⟩

/-- A new waiter is appended. -/
private theorem EventInv.wait (h : EventInv e s) (hs : SchedInv s) (hw : WaitInv s)
    (hp : s.phase = .code) (hm : s.me ≠ invalidTask) {bits : BitVec 32} {all clr : Bool}
    (hk : s.kont s.me = .bitsTest e bits all clr)
    (he : s'.events e = (s.events e).register { task := s.me, waitBits := bits, all := all })
    (hk' : s'.kont = Function.update s.kont s.me (.bitsWait e bits all clr))
    (howed : ∀ t, s'.Owed (.events e) t ↔ s.Owed (.events e) t ∨ t = s.me) :
    EventInv e s' := by
  have hold : ∀ i, s.kont s.me ≠ .checkCompact e i := by simp [hk]
  have hlt := h.waitCount_lt hs hw hp hm hold
  have hno := hw.not_owed_me hs hp hm (.events e)
  rw [EventGroup.register, if_pos hlt] at he
  have hcount : (s'.events e).waitCount = (s.events e).waitCount + 1 := by rw [he]
  have hnew : (s'.events e).waiters (s.events e).waitCount =
      { task := s.me, waitBits := bits, all := all } := by
    rw [he]
    exact Function.update_self _ _ _
  have hrest : ∀ j, j < (s.events e).waitCount →
      (s'.events e).waiters j = (s.events e).waiters j := by
    intro j hj
    rw [he]
    exact Function.update_of_ne (Nat.ne_of_lt hj) _ _
  have hd : ∀ j, s'.Delivering e j ↔ s.Delivering e j := fun j ↦ by
    rw [delivering_of_update hk' hold]
    simp
  have hkeep : ∀ u, u ≠ s.me → s'.kont u = s.kont u := fun u hu ↦ by
    rw [hk', Function.update_of_ne hu]
  have hpend : ∀ u i, s'.kont u = .checkCompact e i → s.kont u = .checkCompact e i := by
    intro u i hu
    rcases kont_of_update hk' hu with ⟨-, hc⟩ | ⟨-, hu⟩
    · cases hc
    · exact hu
  have hcase : ∀ j, j < (s'.events e).waitCount →
      j < (s.events e).waitCount ∨ j = (s.events e).waitCount := by omega
  refine ⟨fun u i hu ↦ ?_, fun u v i hu hv ↦ ?_, fun j hj hn ↦ ?_, fun j l hj hl hnj hnl ht ↦ ?_,
    fun t ho ↦ ?_⟩
  · have := h.pend_lt u i (hpend u i hu)
    omega
  · exact h.pend_inj u v i (hpend u i hu) (hpend v i hv)
  · rw [hd] at hn
    rcases hcase j hj with hj | rfl
    · obtain ⟨ho, clr', hc⟩ := h.entry j hj hn
      have hne : ((s.events e).waiters j).task ≠ s.me := fun hm ↦ hno (hm ▸ ho)
      rw [hrest j hj]
      exact ⟨(howed _).mpr (.inl ho), clr', (hkeep _ hne).trans hc⟩
    · rw [hnew]
      exact ⟨(howed _).mpr (.inr rfl), clr, by rw [hk', Function.update_self]⟩
  · rw [hd] at hnj hnl
    rcases hcase j hj with hj | rfl
    · rcases hcase l hl with hl | rfl
      · rw [hrest j hj, hrest l hl] at ht
        exact h.uniq j l hj hl hnj hnl ht
      · rw [hrest j hj, hnew] at ht
        have ho := (h.entry j hj hnj).1
        rw [ht] at ho
        exact absurd ho hno
    · rcases hcase l hl with hl | rfl
      · rw [hrest l hl, hnew] at ht
        have ho := (h.entry l hl hnl).1
        rw [← ht] at ho
        exact absurd ho hno
      · rfl
  · rcases (howed t).mp ho with ho | rfl
    · obtain ⟨j, hj, hn, ht⟩ := h.listed t ho
      exact ⟨j, by omega, fun hc ↦ hn ((hd j).mp hc), by rw [hrest j hj, ht]⟩
    · refine ⟨(s.events e).waitCount, by omega, fun hc ↦ ?_, by rw [hnew]⟩
      obtain ⟨u, hu⟩ := (hd _).mp hc
      exact Nat.lt_irrefl _ (h.pend_lt u _ hu)

/-- The wake-up of a waiter begins to be delivered; its entry stays until the compaction. -/
private theorem EventInv.deliver (h : EventInv e s) (hw : WaitInv s) (hs : SchedInv s)
    (hp : s.phase = .code) (hm : s.me ≠ invalidTask) {i : Nat}
    (hk : s.kont s.me = .checkTest e i) (hi : i < (s.events e).waitCount)
    (hnd : ¬ s.Delivering e i) (he : s'.events e = s.events e)
    (hk' : s'.kont = Function.update s.kont s.me (.checkCompact e i))
    (howed : ∀ t, s'.Owed (.events e) t ↔
      s.Owed (.events e) t ∧ t ≠ ((s.events e).waiters i).task) : EventInv e s' := by
  have hold : ∀ j, s.kont s.me ≠ .checkCompact e j := by simp [hk]
  have hd : ∀ j, s'.Delivering e j ↔ s.Delivering e j ∨ j = i := fun j ↦ by
    rw [delivering_of_update hk' hold]
    simp [eq_comm]
  have hno := hw.not_owed_me hs hp hm (.events e)
  have hpend : ∀ u j, s'.kont u = .checkCompact e j →
      (u = s.me ∧ j = i) ∨ (u ≠ s.me ∧ s.kont u = .checkCompact e j) := by
    intro u j hu
    rcases kont_of_update hk' hu with ⟨hum, hc⟩ | hu
    · exact .inl ⟨hum, (Kont.checkCompact.inj hc).2.symm⟩
    · exact .inr hu
  refine ⟨fun u j hu ↦ ?_, fun u v j hu hv ↦ ?_, fun j hj hn ↦ ?_, fun j l hj hl hnj hnl ht ↦ ?_,
    fun t ho ↦ ?_⟩
  · rw [he]
    rcases hpend u j hu with ⟨-, rfl⟩ | ⟨-, hu⟩
    · exact hi
    · exact h.pend_lt u j hu
  · rcases hpend u j hu with ⟨rfl, rfl⟩ | ⟨-, hu⟩
    · rcases hpend v j hv with ⟨rfl, -⟩ | ⟨-, hv⟩
      · rfl
      · exact absurd ⟨v, hv⟩ hnd
    · rcases hpend v j hv with ⟨-, rfl⟩ | ⟨-, hv⟩
      · exact absurd ⟨u, hu⟩ hnd
      · exact h.pend_inj u v j hu hv
  · rw [he] at hj ⊢
    rw [hd, not_or] at hn
    obtain ⟨ho, clr, hc⟩ := h.entry j hj hn.1
    have hne : ((s.events e).waiters j).task ≠ s.me := fun hm ↦ hno (hm ▸ ho)
    refine ⟨(howed _).mpr ⟨ho, fun ht ↦ hn.2 (h.uniq j i hj hi hn.1 hnd ht)⟩, clr, ?_⟩
    rw [hk', Function.update_of_ne hne, hc]
  · rw [he] at hj hl ht
    rw [hd, not_or] at hnj hnl
    exact h.uniq j l hj hl hnj.1 hnl.1 ht
  · obtain ⟨ho, hne⟩ := (howed t).mp ho
    obtain ⟨j, hj, hn, ht⟩ := h.listed t ho
    rw [he]
    refine ⟨j, hj, fun hc ↦ ?_, ht⟩
    rcases (hd j).mp hc with hc | rfl
    · exact hn hc
    · exact hne ht.symm

/-- The delivered entry is overwritten by the last one, which nobody else is delivering. -/
private theorem EventInv.compact (h : EventInv e s) (hw : WaitInv s) (hs : SchedInv s)
    (hp : s.phase = .code) (hm : s.me ≠ invalidTask) {i : Nat}
    (hk : s.kont s.me = .checkCompact e i)
    (hlast : ∀ u, u ≠ s.me → s.kont u ≠ .checkCompact e ((s.events e).waitCount - 1))
    (he : s'.events e = (s.events e).compact i)
    (hk' : s'.kont = Function.update s.kont s.me (.checkTest e i))
    (howed : ∀ t, s'.Owed (.events e) t ↔ s.Owed (.events e) t) : EventInv e s' := by
  have hi := h.pend_lt _ _ hk
  have hle := h.waitCount_le hs
  have hcount : (s'.events e).waitCount = (s.events e).waitCount - 1 := by
    rw [he, EventGroup.compact_waitCount (Nat.zero_lt_of_lt hi) hle]
  have hfrom : ∀ j, (s'.events e).waiters j =
      (s.events e).waiters (if j = i then (s.events e).waitCount - 1 else j) := by
    intro j
    rw [he, EventGroup.compact_waiters (Nat.zero_lt_of_lt hi) hle]
  have hno := hw.not_owed_me hs hp hm (.events e)
  have hpend : ∀ u j, s'.kont u = .checkCompact e j →
      u ≠ s.me ∧ s.kont u = .checkCompact e j := by
    intro u j hu
    rcases kont_of_update hk' hu with ⟨-, hc⟩ | hu
    · cases hc
    · exact hu
  have hd : ∀ j, s'.Delivering e j ↔ s.Delivering e j ∧ j ≠ i := by
    intro j
    constructor
    · rintro ⟨u, hu⟩
      obtain ⟨hum, hu⟩ := hpend u j hu
      exact ⟨⟨u, hu⟩, fun hji ↦ hum (h.pend_inj u s.me i (hji ▸ hu) hk)⟩
    · rintro ⟨⟨u, hu⟩, hji⟩
      have hum : u ≠ s.me := by
        rintro rfl
        rw [hk] at hu
        exact hji (Kont.checkCompact.inj hu).2.symm
      exact ⟨u, by rw [hk', Function.update_of_ne hum, hu]⟩
  have hndlast : i ≠ (s.events e).waitCount - 1 →
      ¬ s.Delivering e ((s.events e).waitCount - 1) := by
    rintro hne ⟨u, hu⟩
    by_cases hum : u = s.me
    · rw [hum, hk] at hu
      exact hne (Kont.checkCompact.inj hu).2
    · exact hlast u hum hu
  -- a live entry that is not delivered now was one before, at the place it comes from
  have hsrc : ∀ j, j < (s.events e).waitCount - 1 → ¬ s'.Delivering e j →
      (if j = i then (s.events e).waitCount - 1 else j) < (s.events e).waitCount ∧
      ¬ s.Delivering e (if j = i then (s.events e).waitCount - 1 else j) := by
    intro j hj hnj
    by_cases hji : j = i
    · rw [if_pos hji]
      exact ⟨by omega, hndlast (by omega)⟩
    · rw [if_neg hji]
      exact ⟨by omega, fun hc ↦ hnj ((hd j).mpr ⟨hc, hji⟩)⟩
  refine ⟨fun u j hu ↦ ?_, fun u v j hu hv ↦ ?_, fun j hj hnj ↦ ?_, fun j l hj hl hnj hnl ht ↦ ?_,
    fun t ho ↦ ?_⟩
  · rw [hcount]
    obtain ⟨hum, hu⟩ := hpend u j hu
    have hlt := h.pend_lt u j hu
    have hne : j ≠ (s.events e).waitCount - 1 := by
      rintro rfl
      exact hlast u hum hu
    omega
  · exact h.pend_inj u v j (hpend u j hu).2 (hpend v j hv).2
  · rw [hcount] at hj
    obtain ⟨hlt, hnd⟩ := hsrc j hj hnj
    obtain ⟨ho, clr, hc⟩ := h.entry _ hlt hnd
    rw [hfrom]
    have hne : ((s.events e).waiters
        (if j = i then (s.events e).waitCount - 1 else j)).task ≠ s.me :=
      fun hm ↦ hno (hm ▸ ho)
    refine ⟨(howed _).mpr ho, clr, ?_⟩
    rw [hk', Function.update_of_ne hne, hc]
  · rw [hcount] at hj hl
    obtain ⟨hltj, hndj⟩ := hsrc j hj hnj
    obtain ⟨hltl, hndl⟩ := hsrc l hl hnl
    rw [hfrom, hfrom] at ht
    have heq := h.uniq _ _ hltj hltl hndj hndl ht
    by_cases hji : j = i <;> by_cases hli : l = i
    · rw [hji, hli]
    · rw [if_pos hji, if_neg hli] at heq
      omega
    · rw [if_neg hji, if_pos hli] at heq
      omega
    · rwa [if_neg hji, if_neg hli] at heq
  · obtain ⟨j, hj, hnj, ht⟩ := h.listed t ((howed t).mp ho)
    have hji : j ≠ i := by
      rintro rfl
      exact hnj ⟨s.me, hk⟩
    rw [hcount]
    by_cases hjl : j = (s.events e).waitCount - 1
    · refine ⟨i, by omega, fun hc ↦ ((hd i).mp hc).2 rfl, ?_⟩
      rw [hfrom, if_pos rfl, ← hjl, ht]
    · refine ⟨j, by omega, fun hc ↦ hnj ((hd j).mp hc).1, ?_⟩
      rw [hfrom, if_neg hji, ht]

/-- The table is right after every step that is safe for it. -/
theorem EventInv.step (h : EventInv e s) (hs : SchedInv s) (hw : WaitInv s)
    (hst : EventStep e s a s') (hg : TableSafe s a) : EventInv e s' := by
  cases hst with
  | frame hwt hc hk hkeep howed =>
    have hd : ∀ j, s'.Delivering e j ↔ s.Delivering e j := fun j ↦ exists_congr fun u ↦ hk u j
    refine ⟨fun u i hu ↦ ?_, fun u v i hu hv ↦ ?_, fun j hj hn ↦ ?_, fun j l hj hl hnj hnl ht ↦ ?_,
      fun t ho ↦ ?_⟩
    · rw [hc]
      exact h.pend_lt u i ((hk u i).mp hu)
    · exact h.pend_inj u v i ((hk u i).mp hu) ((hk v i).mp hv)
    · rw [hc] at hj
      rw [hd] at hn
      rw [hwt]
      obtain ⟨ho, clr, hkw⟩ := h.entry j hj hn
      exact ⟨(howed _).mpr ho, clr, (hkeep _ ho).trans hkw⟩
    · rw [hc] at hj hl
      rw [hd] at hnj hnl
      rw [hwt] at ht
      exact h.uniq j l hj hl hnj hnl ht
    · obtain ⟨j, hj, hn, ht⟩ := h.listed t ((howed t).mp ho)
      exact ⟨j, hc ▸ hj, fun hdj ↦ hn ((hd j).mp hdj), hwt ▸ ht⟩
  | wait bits all clr hp hm hk he hk' howed => exact h.wait hs hw hp hm hk he hk' howed
  | deliver i ha hp hm hk hi hsat he hk' howed =>
    rw [ha] at hg
    exact h.deliver hw hs hp hm hk hi (hg.not_delivering hs hk hi hsat) he hk' howed
  | compact i ha hp hm hk he hk' howed =>
    rw [ha] at hg
    exact h.compact hw hs hp hm hk (hg.last hs hk) he hk' howed

/-- Where the tables are right and used safely, entries are acted on for their own waiters. -/
theorem addressed_of_tableSafe (h : ∀ e, EventInv e s) (hs : SchedInv s) (hg : TableSafe s a) :
    Addressed s a := by
  rintro rfl e i hk hi hsat -
  exact ((h e).entry i hi (hg.not_delivering hs hk hi hsat)).1.1

end Preserve

/-! ### Runs -/

/-- The table is empty at the start. -/
theorem EventInv.init [Inhabited α] (cfg : Config) {e : Nat} :
    EventInv e (.init cfg : Sys α) := by
  refine ⟨?_, ?_, ?_, ?_, ?_⟩
  · intro u i hu
    cases hu
  · intro u v i hu
    cases hu
  · intro j hj
    exact absurd hj (Nat.not_lt_zero j)
  · intro j k hj
    exact absurd hj (Nat.not_lt_zero j)
  · rintro t ⟨hk, -⟩
    cases hk

/-- The tables and the invariants of waiting hold in every disciplined run that uses the
tables safely. -/
theorem eventInv_of_reach [Inhabited α] {D : Dispatcher} {s : Sys α}
    (h : Reach IsInit TableDisciplined (Step D) s) :
    RunInv s ∧ ∀ e, EventInv e s := by
  have hstart : ∀ s : Sys α, IsInit s → RunInv s ∧ ∀ e, EventInv e s := by
    rintro s ⟨cfg, rfl⟩
    exact ⟨.init cfg, fun e ↦ .init cfg⟩
  have hstep : ∀ (s : Sys α) a t, (RunInv s ∧ ∀ e, EventInv e s) →
      TableDisciplined s a → Step D s a t → RunInv t ∧ ∀ e, EventInv e t := by
    rintro s a t ⟨hr, hi⟩ ⟨hd, hg⟩ hst
    have ha := addressed_of_tableSafe hi hr.sched hg
    refine ⟨hr.step hd ha hst, fun e ↦ (hi e).step hr.sched hr.wait ?_ hg⟩
    exact hst.eventStep hr.sched hr.wait hd.1 e
  exact h.invariant hstart hstep

/-- What a caller sees of the waiter table of an event group: the count is within the array,
no compaction is about to underflow it or to use an index beyond it, and a task blocked in
`wait_bits` has exactly one entry besides those under delivery. -/
structure TableIntegrity (e : Nat) (s : Sys α) : Prop where
  count_le : (s.events e).waitCount ≤ maxTasks
  index_lt : ∀ u i, s.kont u = .checkCompact e i → i < (s.events e).waitCount
  entry : ∀ t bits all clr, s.kont t = .bitsWait e bits all clr → s.state t = .blocked →
    ∃! j, j < (s.events e).waitCount ∧ ¬ s.Delivering e j ∧
      ((s.events e).waiters j).task = t

private theorem EventInv.integrity {e : Nat} {s : Sys α} (h : EventInv e s) (hr : RunInv s) :
    TableIntegrity e s where
  count_le := h.waitCount_le hr.sched
  index_lt := h.pend_lt
  entry t bits all clr hk hb := by
    have ho : s.Owed (.events e) t := hr.wait.blocked _ t (by rw [Sys.waitsOn, hk]; rfl) hb
    obtain ⟨j, hj, hn, ht⟩ := h.listed t ho
    refine ⟨j, ⟨hj, hn, ht⟩, fun k hk ↦ ?_⟩
    exact h.uniq k j hk.1 hj hk.2.1 hn (hk.2.2.trans ht.symm)

/-- The table keeps its integrity in every run that uses it safely, in every order of
scheduling. -/
theorem eventGroup_integrity [Inhabited α] (D : Dispatcher) (e : Nat) (s : Sys α)
    (h : Reach IsInit TableDisciplined (Step D) s) :
    TableIntegrity e s :=
  ((eventInv_of_reach h).2 e).integrity (eventInv_of_reach h).1

/-- A task waits for bit 0 and is woken by a task of lower priority; before that one has
compacted the table, the woken task waits again, for bit 1. -/
def rewaitRun : List (Act Unit) :=
  [.call (.xTaskCreate 5), .call (.xTaskCreate 1), .call .vTaskStartScheduler,
    .call (.waitBits 0 1 true true), .resume, .dispatch,
    .call (.setBits 0 1), .resume, .dispatch, .resume, .resume,
    .call (.waitBits 0 2 true true), .resume, .dispatch, .resume]

private theorem rewaitRun_isSome : (runActs Sys.exec rewaitRun (.init {})).isSome = true := by
  decide +kernel

/-- The state after the compaction. -/
def rewaitEnd : Sys Unit := (runActs Sys.exec rewaitRun (.init {})).get rewaitRun_isSome

/-- The new entry has moved to the front of the table. -/
theorem eventGroup_integrity_rewait :
    ((rewaitEnd.events 0).waitCount = 1 ∧ rewaitEnd.state 1 = .blocked ∧
      ((rewaitEnd.events 0).waiters 0).task = 1) ∧ TableIntegrity 0 rewaitEnd :=
  ⟨by decide +kernel,
    eventGroup_integrity .code 0 rewaitEnd
      (Reach.of_guardedRun Step.of_exec rewaitRun ⟨{}, rfl⟩ (by decide +kernel)
        rewaitRun_isSome)⟩

/-- The woken task sets a bit itself before the task that woke it has compacted the table:
the entry is delivered, and compacted, twice. -/
def nestedSetRun : List (Act Unit) :=
  [.call (.xTaskCreate 5), .call (.xTaskCreate 1), .call .vTaskStartScheduler,
    .call (.waitBits 0 1 true false), .resume, .dispatch,
    .call (.setBits 0 1), .resume, .dispatch, .resume, .resume,
    .call (.setBits 0 2), .resume, .resume, .resume, .call (.vTaskDelay 1), .dispatch, .resume]

private theorem nestedSetRun_isSome : (runActs Sys.exec nestedSetRun (.init {})).isSome = true := by
  decide +kernel

/-- The state after the second compaction. -/
def nestedSetEnd : Sys Unit :=
  (runActs Sys.exec nestedSetRun (.init {})).get nestedSetRun_isSome

private theorem nestedSetEnd_reach : Reach IsInit Disciplined (Step .code) nestedSetEnd :=
  Reach.of_guardedRun Step.of_exec nestedSetRun ⟨{}, rfl⟩ (by decide +kernel) nestedSetRun_isSome

/-- The count has wrapped around. -/
theorem eventGroup_nested_set_underflows :
    (nestedSetEnd.events 0).waitCount = 255 ∧
      ¬ ∀ s : Sys Unit, Reach IsInit Disciplined (Step .code) s → TableIntegrity 0 s := by
  have hc : (nestedSetEnd.events 0).waitCount = 255 := by decide +kernel
  refine ⟨hc, fun h ↦ ?_⟩
  have hle := (h nestedSetEnd nestedSetEnd_reach).count_le
  rw [hc] at hle
  exact absurd hle (by decide)

end McuSimulator.Rtos
