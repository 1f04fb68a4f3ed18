import McuSimulator.Base.Counting
import McuSimulator.Rtos.Queue

/-!
# The queue loses no wake-up

A woken receiver may find its item gone and wait again, so no single operation shows that
wake-ups are not lost. The invariant counts: as long as a receiver is listed, there are at
least as many receivers on their way to the loop test, woken or not yet listed, as there are
items; and the same for senders and free slots.
-/

namespace McuSimulator.Rtos

open McuSimulator.Base

variable {α : Type}

/-! ### Contexts on their way to a loop test -/

/-- Inside `receive` on the queue. -/
def Kont.inReceive (q : Nat) : Kont α → Bool
  | .recvWait q' | .recvTest q' => q' = q
  | _ => false

/-- Inside `send` on the queue. -/
def Kont.inSend (q : Nat) : Kont α → Bool
  | .sendWait q' _ | .sendTest q' _ => q' = q
  | _ => false

/-- At the loop test of `send` or `receive`. -/
def Kont.AtTest : Kont α → Prop
  | .sendTest _ _ | .recvTest _ => True
  | _ => False

namespace Sys

/-- Inside `receive` and not listed: woken, or about to test the loop condition. -/
def coming (s : Sys α) (q : Nat) (t : TaskHandle) : Bool :=
  (s.kont t).inReceive q && decide (t ∉ (s.queue q).recvWaiters)

/-- Inside `send` and not listed. -/
def going (s : Sys α) (q : Nat) (t : TaskHandle) : Bool :=
  (s.kont t).inSend q && decide (t ∉ (s.queue q).sendWaiters)

/-- How many receivers are on their way to the loop test. -/
def receivers (s : Sys α) (q : Nat) : Nat := (List.range maxTasks).countP (s.coming q)

/-- How many senders are. -/
def senders (s : Sys α) (q : Nat) : Nat := (List.range maxTasks).countP (s.going q)

end Sys

/-- As long as a task is listed, the items, and the free slots, have takers on their way. -/
structure WakeInv (q : Nat) (s : Sys α) : Prop where
  items : (s.queue q).recvWaiters ≠ [] → (s.queue q).count ≤ s.receivers q
  slots : (s.queue q).sendWaiters ≠ [] → (s.queue q).cap - (s.queue q).count ≤ s.senders q

/-! ### Steps -/

/-- What one step does to a queue, its waiter arrays and the contexts inside its functions. -/
inductive UseStep (q : Nat) (s s' : Sys α) : Prop
  | enter (hq : s'.queue q = s.queue q)
      (hr : ∀ t, (s.kont t).inReceive q = true → (s'.kont t).inReceive q = true)
      (hs : ∀ t, (s.kont t).inSend q = true → (s'.kont t).inSend q = true)
  | waitRecv (h0 : (s.queue q).count = 0) (ws : List TaskHandle)
      (hq : s'.queue q = { s.queue q with recvWaiters := ws })
      (hs : ∀ t, (s.kont t).inSend q = true → (s'.kont t).inSend q = true)
  | waitSend (hf : (s.queue q).count = (s.queue q).cap) (ws : List TaskHandle)
      (hq : s'.queue q = { s.queue q with sendWaiters := ws })
      (hr : ∀ t, (s.kont t).inReceive q = true → (s'.kont t).inReceive q = true)
  | put (item : α) (b : Nat) (hb : 0 < (s.queue q).recvWaiters.length →
        b < (s.queue q).recvWaiters.length)
      (hq : s'.queue q = { (s.queue q).put item with
        recvWaiters := swapRemove (s.queue q).recvWaiters b })
      (hr : ∀ t, (s.kont t).inReceive q = true → (s'.kont t).inReceive q = true)
      (hs : ∀ t, t ≠ s.me → (s.kont t).inSend q = true → (s'.kont t).inSend q = true)
  | drop (b : Nat) (h0 : (s.queue q).count ≠ 0) (hb : 0 < (s.queue q).sendWaiters.length →
        b < (s.queue q).sendWaiters.length)
      (hq : s'.queue q = { (s.queue q).drop with
        sendWaiters := swapRemove (s.queue q).sendWaiters b })
      (hr : ∀ t, t ≠ s.me → (s.kont t).inReceive q = true → (s'.kont t).inReceive q = true)
      (hs : ∀ t, (s.kont t).inSend q = true → (s'.kont t).inSend q = true)

section Steps

variable {D : Dispatcher} {s u s' : Sys α} {a : Act α} {q : Nat}

private theorem swapRemove_nil (b : Nat) : swapRemove ([] : List TaskHandle) b = [] :=
  List.eq_nil_of_length_eq_zero (length_swapRemove _ _)

/-- `wake_receiver` takes the best waiter out of the array, if there is one. -/
theorem queue_wakeReceiver (u : Sys α) (q : Nat) :
    ∃ b, (0 < (u.queue q).recvWaiters.length → b < (u.queue q).recvWaiters.length) ∧
      (u.wakeReceiver q).queue q =
        { u.queue q with recvWaiters := swapRemove (u.queue q).recvWaiters b } := by
  refine ⟨bestIdx u.sched.getPriority (u.queue q).recvWaiters, bestIdx_lt _ _, ?_⟩
  unfold Sys.wakeReceiver
  dsimp only
  split
  · next h =>
    have hnil : (u.queue q).recvWaiters = [] := List.eq_nil_of_length_eq_zero h
    rw [hnil, swapRemove_nil, ← hnil]
  · simp [Sys.unblockFor, Sys.continueWith, Sys.emit, Sys.setQueue]

/-- `wake_sender` takes the best waiter out of the array, if there is one. -/
theorem queue_wakeSender (u : Sys α) (q : Nat) :
    ∃ b, (0 < (u.queue q).sendWaiters.length → b < (u.queue q).sendWaiters.length) ∧
      (u.wakeSender q).queue q =
        { u.queue q with sendWaiters := swapRemove (u.queue q).sendWaiters b } := by
  refine ⟨bestIdx u.sched.getPriority (u.queue q).sendWaiters, bestIdx_lt _ _, ?_⟩
  unfold Sys.wakeSender
  dsimp only
  split
  · next h =>
    have hnil : (u.queue q).sendWaiters = [] := List.eq_nil_of_length_eq_zero h
    rw [hnil, swapRemove_nil, ← hnil]
  · simp [Sys.unblockFor, Sys.continueWith, Sys.emit, Sys.setQueue]

private theorem queue_enqueue (u : Sys α) (q : Nat) (item : α) :
    ∃ b, (0 < (u.queue q).recvWaiters.length → b < (u.queue q).recvWaiters.length) ∧
      (u.enqueue q item).queue q = { (u.queue q).put item with
        recvWaiters := swapRemove (u.queue q).recvWaiters b } := by
  obtain ⟨b, hb, hq⟩ := queue_wakeReceiver
    ((u.setQueue q ((u.queue q).put item)).emit (.enqueued q item)) q
  have hself : ((u.setQueue q ((u.queue q).put item)).emit (.enqueued q item)).queue q =
      (u.queue q).put item := Function.update_self _ _ _
  rw [hself] at hb hq
  exact ⟨b, hb, hq⟩

private theorem queue_dequeue (u : Sys α) (q : Nat) :
    ∃ b, (0 < (u.queue q).sendWaiters.length → b < (u.queue q).sendWaiters.length) ∧
      (u.dequeue q).queue q = { (u.queue q).drop with
        sendWaiters := swapRemove (u.queue q).sendWaiters b } := by
  obtain ⟨b, hb, hq⟩ := queue_wakeSender
    ((u.setQueue q (u.queue q).drop).emit (.dequeued q (u.queue q).front)) q
  have hself : ((u.setQueue q (u.queue q).drop).emit (.dequeued q (u.queue q).front)).queue q =
      (u.queue q).drop := Function.update_self _ _ _
  rw [hself] at hb hq
  exact ⟨b, hb, hq⟩

/-- A context that moves to a continuation inside the same functions. -/
private theorem in_update {f : Kont α → Bool} {k : Kont α}
    (hk : s'.kont = Function.update s.kont s.me k) (h : f (s.kont s.me) = true → f k = true)
    (t : TaskHandle) (ht : f (s.kont t) = true) : f (s'.kont t) = true := by
  rw [hk]
  by_cases htm : t = s.me
  · rw [htm, Function.update_self]
    exact h (htm ▸ ht)
  · rwa [Function.update_of_ne htm]

private theorem in_update_of_ne {f : Kont α → Bool} {k : Kont α}
    (hk : s'.kont = Function.update s.kont s.me k) (t : TaskHandle) (htm : t ≠ s.me)
    (ht : f (s.kont t) = true) : f (s'.kont t) = true := by
  rwa [hk, Function.update_of_ne htm]

private theorem sendTest_useStep (item : α) (hk : s.kont s.me = .sendTest q item)
    (hm : s.me ≠ invalidTask) : UseStep q s (s.sendTest q item) := by
  unfold Sys.sendTest
  split
  · next hf =>
    have hb := blockCurrent_eq (u := s.setQueue q { s.queue q with
      sendWaiters := register (s.queue q).sendWaiters s.me }) hm (.sendTo q) (.sendWait q item)
    rw [hb]
    refine .waitSend hf _ (Function.update_self _ _ _) (in_update rfl ?_)
    rw [hk]
    exact fun h ↦ h
  · obtain ⟨b, hb, hq⟩ := queue_enqueue (s.setKont .user) q item
    have hkont : ((s.setKont .user).enqueue q item).kont = Function.update s.kont s.me .user :=
      Sys.kont_enqueue _ _ _
    refine .put item b hb hq (in_update hkont ?_) (in_update_of_ne hkont)
    rw [hk]
    exact fun h ↦ h

private theorem recvTest_useStep (hk : s.kont s.me = .recvTest q)
    (hm : s.me ≠ invalidTask) : UseStep q s (s.recvTest q) := by
  unfold Sys.recvTest
  split
  · next hf =>
    have hb := blockCurrent_eq (u := s.setQueue q { s.queue q with
      recvWaiters := register (s.queue q).recvWaiters s.me }) hm (.recvFrom q) (.recvWait q)
    rw [hb]
    refine .waitRecv hf _ (Function.update_self _ _ _) (in_update rfl ?_)
    rw [hk]
    exact fun h ↦ h
  · next hn =>
    obtain ⟨b, hb, hq⟩ := queue_dequeue (s.setKont .user) q
    have hkont : ((s.setKont .user).dequeue q).kont = Function.update s.kont s.me .user :=
      Sys.kont_dequeue _ _
    refine .drop b hn hb hq (in_update_of_ne hkont) (in_update hkont ?_)
    rw [hk]
    exact fun h ↦ h

private theorem trySend_useStep (item : α) : UseStep q s (s.trySend q item) := by
  unfold Sys.trySend
  split
  · exact .enter rfl (fun _ h ↦ h) (fun _ h ↦ h)
  · obtain ⟨b, hb, hq⟩ := queue_enqueue s q item
    have hkont := Sys.kont_enqueue s q item
    exact .put item b hb hq (fun _ h ↦ hkont ▸ h) (fun _ _ h ↦ hkont ▸ h)

private theorem tryReceive_useStep : UseStep q s (s.tryReceive q) := by
  unfold Sys.tryReceive
  split
  · exact .enter rfl (fun _ h ↦ h) (fun _ h ↦ h)
  · next hn =>
    obtain ⟨b, hb, hq⟩ := queue_dequeue s q
    have hkont := Sys.kont_dequeue s q
    exact .drop b hn hb hq (fun _ _ h ↦ hkont ▸ h) (fun _ h ↦ hkont ▸ h)

private theorem Kont.obj_of_inReceive {k : Kont α} (h : k.inReceive q = true) :
    k.obj = some (.queue q) := by
  cases k <;> simp_all [Kont.inReceive, Kont.obj]

private theorem Kont.obj_of_inSend {k : Kont α} (h : k.inSend q = true) :
    k.obj = some (.queue q) := by
  cases k <;> simp_all [Kont.inSend, Kont.obj]

/-- Every step does one of these to a queue. -/
theorem Step.useStep (h : Step D s a s') (hs : SchedInv s) (hg : TasksOnly s a) (q : Nat) :
    UseStep q s s' := by
  by_cases ho : a.obj s = some (.queue q)
  · cases h with
    | @call op hp hk hi =>
      have hu := hk.eq
      cases op with
      | send q' item =>
        refine .enter rfl (in_update rfl ?_) (in_update rfl ?_)
        · rw [hu]
          exact fun h ↦ by cases h
        · rw [hu]
          exact fun h ↦ by cases h
      | receive q' =>
        refine .enter rfl (in_update rfl ?_) (in_update rfl ?_)
        · rw [hu]
          exact fun h ↦ by cases h
        · rw [hu]
          exact fun h ↦ by cases h
      | trySend q' item =>
        rw [Obj.queue.inj (Option.some.inj ho)]
        exact trySend_useStep item
      | tryReceive q' =>
        rw [Obj.queue.inj (Option.some.inj ho)]
        exact tryReceive_useStep
      | _ => cases ho
    | resume hp hk =>
      have hm : s.me ≠ invalidTask := fun hm ↦ by
        rw [hs.outside hm] at hk
        exact hk
      simp only [Act.obj] at ho
      cases hc : s.kont s.me with
      | sendWait q' item =>
        refine .enter rfl (in_update rfl ?_) (in_update rfl ?_)
        · rw [hc]
          exact fun h ↦ h
        · rw [hc]
          exact fun h ↦ h
      | recvWait q' =>
        refine .enter rfl (in_update rfl ?_) (in_update rfl ?_)
        · rw [hc]
          exact fun h ↦ h
        · rw [hc]
          exact fun h ↦ h
      | sendTest q' item =>
        rw [hc] at ho
        rw [Obj.queue.inj (Option.some.inj ho)] at hc ⊢
        exact sendTest_useStep item hc hm
      | recvTest q' =>
        rw [hc] at ho
        rw [Obj.queue.inj (Option.some.inj ho)] at hc ⊢
        exact recvTest_useStep hc hm
      | _ =>
        rw [hc] at ho
        cases ho
    | dispatch => cases ho
  · refine .enter (h.sameBut.queue q ho) (fun t ht ↦ ?_) fun t ht ↦ ?_
    · have hkeep := (h.kont_iff hs.fresh ho (Kont.obj_of_inReceive ht) t).mpr rfl
      rwa [hkeep]
    · have hkeep := (h.kont_iff hs.fresh ho (Kont.obj_of_inSend ht) t).mpr rfl
      rwa [hkeep]

end Steps

/-! ### The counting invariant -/

section Counting

variable {s s' : Sys α} {q : Nat}

/-- Receivers stay on their way while the array does not grow. -/
private theorem coming_mono {t : TaskHandle}
    (hr : (s.kont t).inReceive q = true → (s'.kont t).inReceive q = true)
    (hws : t ∈ (s'.queue q).recvWaiters → t ∈ (s.queue q).recvWaiters)
    (h : s.coming q t = true) : s'.coming q t = true := by
  simp only [Sys.coming, Bool.and_eq_true, decide_eq_true_eq] at h ⊢
  exact ⟨hr h.1, fun hm ↦ h.2 (hws hm)⟩

private theorem going_mono {t : TaskHandle}
    (hs : (s.kont t).inSend q = true → (s'.kont t).inSend q = true)
    (hws : t ∈ (s'.queue q).sendWaiters → t ∈ (s.queue q).sendWaiters)
    (h : s.going q t = true) : s'.going q t = true := by
  simp only [Sys.going, Bool.and_eq_true, decide_eq_true_eq] at h ⊢
  exact ⟨hs h.1, fun hm ↦ h.2 (hws hm)⟩

/-- Waiting at a queue is waiting inside its `receive` or `send`. -/
theorem Kont.inReceive_of_waitsOn {k : Kont α} (h : k.waitsOn = some (.recvFrom q)) :
    k.inReceive q = true := by
  cases k <;> cases h
  exact decide_eq_true rfl

private theorem Kont.inSend_of_waitsOn {k : Kont α} (h : k.waitsOn = some (.sendTo q)) :
    k.inSend q = true := by
  cases k <;> cases h
  exact decide_eq_true rfl

/-- Unlisting a receiver puts one more on its way. -/
private theorem receivers_lt (h : RunInv s) {b : Nat} (hb : b < (s.queue q).recvWaiters.length)
    (hq : (s'.queue q).recvWaiters = swapRemove (s.queue q).recvWaiters b)
    (hr : ∀ t, (s.kont t).inReceive q = true → (s'.kont t).inReceive q = true) :
    s.receivers q < s'.receivers q := by
  have hnd : (s.queue q).recvWaiters.Nodup := h.wait.nodup (.recvFrom q)
  have hmem := List.getElem_mem hb
  have howed := h.wait.owed_of_mem (p := .recvFrom q) hmem
  have hlt := Nat.lt_of_lt_of_le (h.sched.lt_of_waitsOn howed.1) h.sched.taskCount_le
  refine countP_lt_of_imp (fun t ht ↦ coming_mono (hr t) (fun hm ↦ ?_) ht)
    (List.mem_range.mpr hlt) ?_ ?_
  · rw [hq, mem_swapRemove_iff hb hnd] at hm
    exact hm.1
  · simp [Sys.coming, hmem]
  · simp only [Sys.coming, Bool.and_eq_true, decide_eq_true_eq]
    refine ⟨hr _ (Kont.inReceive_of_waitsOn howed.1), ?_⟩
    rw [hq, mem_swapRemove_iff hb hnd]
    exact fun hc ↦ hc.2 rfl

/-- Unlisting a sender puts one more on its way. -/
private theorem senders_lt (h : RunInv s) {b : Nat} (hb : b < (s.queue q).sendWaiters.length)
    (hq : (s'.queue q).sendWaiters = swapRemove (s.queue q).sendWaiters b)
    (hs : ∀ t, (s.kont t).inSend q = true → (s'.kont t).inSend q = true) :
    s.senders q < s'.senders q := by
  have hnd : (s.queue q).sendWaiters.Nodup := h.wait.nodup (.sendTo q)
  have hmem := List.getElem_mem hb
  have howed := h.wait.owed_of_mem (p := .sendTo q) hmem
  have hlt := Nat.lt_of_lt_of_le (h.sched.lt_of_waitsOn howed.1) h.sched.taskCount_le
  refine countP_lt_of_imp (fun t ht ↦ going_mono (hs t) (fun hm ↦ ?_) ht)
    (List.mem_range.mpr hlt) ?_ ?_
  · rw [hq, mem_swapRemove_iff hb hnd] at hm
    exact hm.1
  · simp [Sys.going, hmem]
  · simp only [Sys.going, Bool.and_eq_true, decide_eq_true_eq]
    refine ⟨hs _ (Kont.inSend_of_waitsOn howed.1), ?_⟩
    rw [hq, mem_swapRemove_iff hb hnd]
    exact fun hc ↦ hc.2 rfl

private theorem swapRemove_ne_nil {ws : List TaskHandle} {b : Nat} (h : swapRemove ws b ≠ []) :
    ws ≠ [] := by
  rintro rfl
  exact h (swapRemove_nil b)

/-- No step loses a wake-up. -/
theorem WakeInv.step (h : WakeInv q s) (hi : RunInv s) (hst : UseStep q s s') : WakeInv q s' := by
  cases hst with
  | enter hq hr hs =>
    have hle : s.receivers q ≤ s'.receivers q :=
      List.countP_mono_left fun t _ ↦ coming_mono (hr t) (fun hm ↦ hq ▸ hm)
    have hle' : s.senders q ≤ s'.senders q :=
      List.countP_mono_left fun t _ ↦ going_mono (hs t) (fun hm ↦ hq ▸ hm)
    refine ⟨fun hne ↦ ?_, fun hne ↦ ?_⟩
    · rw [hq] at hne ⊢
      exact Nat.le_trans (h.items hne) hle
    · rw [hq] at hne ⊢
      exact Nat.le_trans (h.slots hne) hle'
  | waitRecv h0 ws hq hs =>
    have hsend : (s'.queue q).sendWaiters = (s.queue q).sendWaiters := by rw [hq]
    have hle' : s.senders q ≤ s'.senders q :=
      List.countP_mono_left fun t _ ↦ going_mono (hs t) (fun hm ↦ hsend ▸ hm)
    refine ⟨fun _ ↦ ?_, fun hne ↦ ?_⟩
    · rw [hq]
      exact h0 ▸ Nat.zero_le _
    · rw [hsend] at hne
      rw [hq]
      exact Nat.le_trans (h.slots hne) hle'
  | waitSend hf ws hq hr =>
    have hrecv : (s'.queue q).recvWaiters = (s.queue q).recvWaiters := by rw [hq]
    have hle : s.receivers q ≤ s'.receivers q :=
      List.countP_mono_left fun t _ ↦ coming_mono (hr t) (fun hm ↦ hrecv ▸ hm)
    refine ⟨fun hne ↦ ?_, fun _ ↦ ?_⟩
    · rw [hrecv] at hne
      rw [hq]
      exact Nat.le_trans (h.items hne) hle
    · have hzero : (s'.queue q).cap - (s'.queue q).count = 0 := by
        rw [hq]
        exact Nat.sub_eq_zero_of_le (Nat.le_of_eq hf.symm)
      omega
  | put item b hb hq hr hs =>
    have hrecv : (s'.queue q).recvWaiters = swapRemove (s.queue q).recvWaiters b := by rw [hq]
    have hsend : (s'.queue q).sendWaiters = (s.queue q).sendWaiters := by rw [hq]; rfl
    have hcount : (s'.queue q).count = (s.queue q).count + 1 := by rw [hq]; rfl
    have hcap : (s'.queue q).cap = (s.queue q).cap := by rw [hq]; rfl
    refine ⟨fun hne ↦ ?_, fun hne ↦ ?_⟩
    · rw [hrecv] at hne
      have hws := swapRemove_ne_nil hne
      have hlt := receivers_lt hi (hb (List.length_pos_iff.mpr hws)) hrecv hr
      have hle := h.items hws
      omega
    · rw [hsend] at hne
      have hone : s.senders q ≤ s'.senders q + 1 :=
        countP_le_succ_of_imp List.nodup_range fun t ht ↦
          going_mono (hs t ht) (fun hm ↦ hsend ▸ hm)
      have hle := h.slots hne
      omega
  | drop b h0 hb hq hr hs =>
    have hrecv : (s'.queue q).recvWaiters = (s.queue q).recvWaiters := by rw [hq]; rfl
    have hsend : (s'.queue q).sendWaiters = swapRemove (s.queue q).sendWaiters b := by rw [hq]
    have hcount : (s'.queue q).count = (s.queue q).count - 1 := by rw [hq]; rfl
    have hcap : (s'.queue q).cap = (s.queue q).cap := by rw [hq]; rfl
    refine ⟨fun hne ↦ ?_, fun hne ↦ ?_⟩
    · rw [hrecv] at hne
      have hone : s.receivers q ≤ s'.receivers q + 1 :=
        countP_le_succ_of_imp List.nodup_range fun t ht ↦
          coming_mono (hr t ht) (fun hm ↦ hrecv ▸ hm)
      have hle := h.items hne
      omega
    · rw [hsend] at hne
      have hws := swapRemove_ne_nil hne
      have hlt := senders_lt hi (hb (List.length_pos_iff.mpr hws)) hsend hs
      have hle := h.slots hws
      omega

end Counting

/-! ### Quiescence -/

/-- A context at a loop test is the one executing. -/
def TestInv (s : Sys α) : Prop := ∀ t, (s.kont t).AtTest → t = s.me ∧ s.phase = .code

private theorem TestInv.step {D : Dispatcher} {s s' : Sys α} {a : Act α} (h : TestInv s)
    (hs : SchedInv s) (hst : Step D s a s') : TestInv s' := by
  obtain ⟨k, hl, hk⟩ := hst.leads hs.fresh
  intro t ht
  rw [hk] at ht
  by_cases htm : t = s.me
  · rw [htm, Function.update_self] at ht
    cases hst with
    | @call op hp hu hi =>
      rcases hl.2 with rfl | he
      · exact ht.elim
      · cases op with
        | send q item => exact ⟨htm, hp⟩
        | receive q => exact ⟨htm, hp⟩
        | _ => first | exact he.elim | (cases he; exact ht.elim)
    | resume hp hr =>
      change (s.kont s.me).Goes k at hl
      cases hc : s.kont s.me with
      | sendWait q item => exact ⟨htm, hp⟩
      | recvWait q => exact ⟨htm, hp⟩
      | _ =>
        rw [hc] at hl
        first
          | (cases hl; exact ht.elim)
          | (rcases hl with rfl | rfl <;> exact ht.elim)
          | (rcases hl with rfl | rfl | rfl <;> exact ht.elim)
    | dispatch hp hd =>
      rw [show k = s.kont s.me from hl] at ht
      exact absurd (h s.me ht).2 hp
  · rw [Function.update_of_ne htm] at ht
    exact absurd (h t ht).1 htm

/-- With no task `READY` or `RUNNING`, nobody is on the way to a loop test. -/
private theorem quiet_functions {s : Sys α} (hr : RunInv s) (ht : TestInv s)
    (hidle : ∀ t < s.sched.taskCount, s.state t ≠ .ready ∧ s.state t ≠ .running) (q : Nat) :
    s.receivers q = 0 ∧ s.senders q = 0 := by
  have htest : ∀ t, ¬ (s.kont t).AtTest := by
    intro t hat
    obtain ⟨htm, hp⟩ := ht t hat
    have hm : s.me ≠ invalidTask := by
      intro hm
      rw [htm, hr.sched.outside hm] at hat
      exact hat
    exact (hidle s.me (hr.sched.me_lt hm)).2 (hr.sched.running_me hp hm)
  have hwait : ∀ p t, p.isList = true → s.waitsOn t = some p → t ∈ s.waitList p := by
    intro p t hp hw
    refine Classical.byContradiction fun hn ↦ ?_
    have hlt := hr.sched.lt_of_waitsOn hw
    rcases hr.woken_of_not_mem hp hw hn with h | h
    · exact (hidle t hlt).1 h
    · exact (hidle t hlt).2 h
  refine ⟨List.countP_eq_zero.mpr fun t _ hc ↦ ?_, List.countP_eq_zero.mpr fun t _ hc ↦ ?_⟩
  · simp only [Sys.coming, Bool.and_eq_true, decide_eq_true_eq] at hc
    cases hk : s.kont t with
    | recvWait q' =>
      have hq : q' = q := by simpa [hk, Kont.inReceive] using hc.1
      exact hc.2 (hwait (.recvFrom q) t rfl (by rw [Sys.waitsOn, hk, hq]; rfl))
    | recvTest q' => exact htest t (by rw [hk]; trivial)
    | _ => simp [hk, Kont.inReceive] at hc
  · simp only [Sys.going, Bool.and_eq_true, decide_eq_true_eq] at hc
    cases hk : s.kont t with
    | sendWait q' item =>
      have hq : q' = q := by simpa [hk, Kont.inSend] using hc.1
      exact hc.2 (hwait (.sendTo q) t rfl (by rw [Sys.waitsOn, hk, hq]; rfl))
    | sendTest q' item => exact htest t (by rw [hk]; trivial)
    | _ => simp [hk, Kont.inSend] at hc

/-- The invariants of a queue hold where those of waiting do. -/
theorem queueInvs_of_reach [Inhabited α] {D : Dispatcher} {cfg : Config}
    {guard : Sys α → Act α → Prop} (hg : ∀ s a, guard s a → TasksOnly s a)
    (hrun : ∀ s, Reach (· = .init cfg) guard (Step D) s → RunInv s) {s : Sys α}
    (h : Reach (· = .init cfg) guard (Step D) s) (q : Nat) :
    TestInv s ∧ WakeInv q s ∧ QueueInv q (cfg.queueCap q) s := by
  have hinit : ∀ u : Sys α, u = .init cfg → TestInv u ∧ WakeInv q u ∧
      QueueInv q (cfg.queueCap q) u := by
    rintro u rfl
    refine ⟨fun t hat ↦ hat.elim, ⟨fun hne ↦ ?_, fun hne ↦ ?_⟩, .init cfg q⟩
    · exact absurd rfl hne
    · exact absurd rfl hne
  refine h.invariant_of hrun hinit ?_
  rintro u a v hs - ⟨ht, hw, hq⟩ hguard hst
  exact ⟨ht.step hs.sched hst, hw.step hs (hst.useStep hs.sched (hg u a hguard) q),
    hq.step (hst.queueStep q)⟩

/-- With no task `READY` or `RUNNING`, a task is inside `receive` on an empty queue only, and inside
`send` on a full one. -/
theorem RunInv.count_of_quiet {s : Sys α} {q cap : Nat} (hr : RunInv s) (ht : TestInv s)
    (hw : WakeInv q s) (hq : QueueInv q cap s)
    (hidle : ∀ t < s.sched.taskCount, s.state t ≠ .ready ∧ s.state t ≠ .running) :
    (∀ t, s.waitsOn t = some (.recvFrom q) → (s.queue q).count = 0) ∧
      ∀ t, s.waitsOn t = some (.sendTo q) → (s.queue q).count = (s.queue q).cap := by
  obtain ⟨hnr, hns⟩ := quiet_functions hr ht hidle q
  have hmem : ∀ p t, p.isList = true → s.waitsOn t = some p → t ∈ s.waitList p := by
    intro p t hp hwait
    by_contra hn
    have hlt := hr.sched.lt_of_waitsOn hwait
    rcases hr.woken_of_not_mem hp hwait hn with h | h
    · exact (hidle t hlt).1 h
    · exact (hidle t hlt).2 h
  refine ⟨fun t hwait ↦ ?_, fun t hwait ↦ ?_⟩
  · have hle := hw.items (List.ne_nil_of_mem (hmem (.recvFrom q) t rfl hwait))
    omega
  · have hle := hw.slots (List.ne_nil_of_mem (hmem (.sendTo q) t rfl hwait))
    have hcount := hq.wf.count_le
    omega

/-- No lost wake-up: when nothing can run, no task is blocked in `receive` on a queue with
items or in `send` on a queue with room. -/
theorem queue_wakeUp [Inhabited α] (D : Dispatcher) (cfg : Config) (q : Nat) (s : Sys α)
    (h : Reach (· = .init cfg) PlainDisciplined (Step D) s)
    (hidle : ∀ t < s.sched.taskCount, s.state t ≠ .ready ∧ s.state t ≠ .running) :
    (∀ t, s.kont t = .recvWait q → s.state t = .blocked → (s.queue q).count = 0) ∧
    (∀ t item, s.kont t = .sendWait q item → s.state t = .blocked →
      (s.queue q).count = cfg.queueCap q) := by
  obtain ⟨ht, hw, hq⟩ := queueInvs_of_reach (fun _ _ hg ↦ hg.1.1) (fun _ ↦ runInv_of_init) h q
  obtain ⟨hempty, hfull⟩ := (runInv_of_init h).count_of_quiet ht hw hq hidle
  refine ⟨fun t hk _ ↦ hempty t ?_, fun t item hk _ ↦ hq.cap_eq ▸ hfull t ?_⟩ <;>
    rw [Sys.waitsOn, hk] <;> rfl

/-- A sender fills a queue of capacity one and waits; a receiver of lower priority takes both
items and then waits for a third. -/
def drainRun : List (Act Nat) :=
  [.call (.xTaskCreate 1), .call (.xTaskCreate 5), .call .vTaskStartScheduler,
    .call (.send 0 7), .resume, .call (.send 0 8), .resume, .dispatch,
    .call (.receive 0), .resume, .dispatch, .resume, .resume, .call .taskReturn, .dispatch,
    .call (.receive 0), .resume, .call (.receive 0), .resume, .dispatch]

private theorem drainRun_isSome : (runActs Sys.exec drainRun (.init {})).isSome = true := by
  decide +kernel

/-- The state after that run: the receiver is blocked and nothing can run. -/
def drainEnd : Sys Nat := (runActs Sys.exec drainRun (.init {})).get drainRun_isSome

/-- The receiver is blocked, and on an empty queue. -/
theorem queue_wakeUp_drain : drainEnd.state 1 = .blocked ∧ (drainEnd.queue 0).count = 0 := by
  have hb : drainEnd.state 1 = .blocked := by decide +kernel
  have hk : drainEnd.kont 1 = .recvWait 0 := by decide +kernel
  exact ⟨hb, (queue_wakeUp .code {} 0 drainEnd (Reach.of_guardedRun Step.of_exec drainRun
    (by rfl) (by decide +kernel) drainRun_isSome) (by decide +kernel)).1 1 hk hb⟩

end McuSimulator.Rtos
