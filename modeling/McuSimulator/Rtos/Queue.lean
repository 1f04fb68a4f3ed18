import McuSimulator.Rtos.Discipline

/-!
# The queue is a lossless FIFO

The log holds the items in the order in which they entered and left a queue. What one step
can do to a queue is `QueueStep`: nothing, one `put` below capacity, or one `drop` above
zero. The ring refines the list of the items that have entered and not left, whatever the
other contexts do: no promise about the program is needed here, and spurious wake-ups only
make a context test its loop condition again.
-/

namespace McuSimulator.Rtos

open McuSimulator.Base

variable {α : Type}

/-! ### Items over the log -/

/-- The item an event stores in the queue. -/
def Event.enqueuedItem (q : Nat) : Event α → Option α
  | .enqueued q' item => if q' = q then some item else none
  | _ => none

/-- The item an event takes out of the queue. -/
def Event.dequeuedItem (q : Nat) : Event α → Option α
  | .dequeued q' item => if q' = q then some item else none
  | _ => none

/-- The items stored so far, oldest first. -/
def enqueuedItems (q : Nat) (log : List (Event α)) : List α :=
  (log.filterMap (Event.enqueuedItem q)).reverse

/-- The items taken out so far, oldest first. -/
def dequeuedItems (q : Nat) (log : List (Event α)) : List α :=
  (log.filterMap (Event.dequeuedItem q)).reverse

/-- Events that neither store in the queue nor take out of it. -/
def Silent (q : Nat) (es : List (Event α)) : Prop :=
  ∀ x ∈ es, x.enqueuedItem q = none ∧ x.dequeuedItem q = none

section Items

variable {q : Nat} {es l : List (Event α)}

private theorem Silent.nil : Silent q ([] : List (Event α)) := by
  intro x hx
  cases hx

/-- Silent events store nothing. -/
theorem enqueuedItems_append (h : Silent q es) :
    enqueuedItems q (es ++ l) = enqueuedItems q l := by
  have hes : es.filterMap (Event.enqueuedItem q) = [] :=
    List.filterMap_eq_nil_iff.mpr fun x hx ↦ (h x hx).1
  rw [enqueuedItems, List.filterMap_append, hes]
  rfl

/-- Silent events take nothing out. -/
theorem dequeuedItems_append (h : Silent q es) :
    dequeuedItems q (es ++ l) = dequeuedItems q l := by
  have hes : es.filterMap (Event.dequeuedItem q) = [] :=
    List.filterMap_eq_nil_iff.mpr fun x hx ↦ (h x hx).2
  rw [dequeuedItems, List.filterMap_append, hes]
  rfl

/-- One more item stored. -/
theorem enqueuedItems_enqueued (item : α) :
    enqueuedItems q (.enqueued q item :: l) = enqueuedItems q l ++ [item] := by
  simp [enqueuedItems, Event.enqueuedItem]

private theorem dequeuedItems_enqueued (item : α) :
    dequeuedItems q (.enqueued q item :: l) = dequeuedItems q l :=
  congrArg List.reverse (List.filterMap_cons_none rfl)

private theorem enqueuedItems_dequeued (item : α) :
    enqueuedItems q (.dequeued q item :: l) = enqueuedItems q l :=
  congrArg List.reverse (List.filterMap_cons_none rfl)

/-- One more item taken out. -/
theorem dequeuedItems_dequeued (item : α) :
    dequeuedItems q (.dequeued q item :: l) = dequeuedItems q l ++ [item] := by
  simp [dequeuedItems, Event.dequeuedItem]

/-- Events about other objects are silent. -/
theorem Silent.of_obj (h : ∀ x ∈ es, x.obj ≠ .queue q) : Silent q es := by
  intro x hx
  have hne := h x hx
  cases x with
  | enqueued q' item =>
    have hq : q' ≠ q := fun he ↦ hne (by rw [he]; rfl)
    exact ⟨if_neg hq, rfl⟩
  | dequeued q' item =>
    have hq : q' ≠ q := fun he ↦ hne (by rw [he]; rfl)
    exact ⟨rfl, if_neg hq⟩
  | _ => exact ⟨rfl, rfl⟩

end Items

/-! ### Steps on a queue -/

/-- The ring of the queue is as in `Q`, and the log grew by silent events over `l`. -/
structure QueueAt (q : Nat) (Q : Queue α) (l : List (Event α)) (s' : Sys α) : Prop where
  ring : (s'.queue q).toRingBuf = Q.toRingBuf
  cap : (s'.queue q).cap = Q.cap
  log : ∃ es, s'.log = es ++ l ∧ Silent q es

/-- What one step can do to a queue. -/
inductive QueueStep (q : Nat) (s s' : Sys α) : Prop
  | frame (h : QueueAt q (s.queue q) s.log s')
  | put (item : α) (hn : (s.queue q).count ≠ (s.queue q).cap)
      (h : QueueAt q ((s.queue q).put item) (.enqueued q item :: s.log) s')
  | drop (hn : (s.queue q).count ≠ 0)
      (h : QueueAt q (s.queue q).drop (.dequeued q (s.queue q).front :: s.log) s')

section Steps

variable {D : Dispatcher} {s u s' : Sys α} {a : Act α} {q : Nat} {Q : Queue α}
  {l : List (Event α)}

private theorem QueueAt.wakeReceiver (h : QueueAt q Q l u) : QueueAt q Q l (u.wakeReceiver q) := by
  unfold Sys.wakeReceiver
  dsimp only
  split
  · exact h
  · obtain ⟨es, he, hes⟩ := h.log
    refine ⟨?_, ?_, _ :: es, congrArg (_ :: ·) he, ?_⟩
    · rw [← h.ring]
      simp [Sys.unblockFor, Sys.continueWith, Sys.emit, Sys.setQueue]
    · rw [← h.cap]
      simp [Sys.unblockFor, Sys.continueWith, Sys.emit, Sys.setQueue]
    · intro x hx
      rcases List.mem_cons.mp hx with rfl | hx
      · exact ⟨rfl, rfl⟩
      · exact hes x hx

private theorem QueueAt.wakeSender (h : QueueAt q Q l u) : QueueAt q Q l (u.wakeSender q) := by
  unfold Sys.wakeSender
  dsimp only
  split
  · exact h
  · obtain ⟨es, he, hes⟩ := h.log
    refine ⟨?_, ?_, _ :: es, congrArg (_ :: ·) he, ?_⟩
    · rw [← h.ring]
      simp [Sys.unblockFor, Sys.continueWith, Sys.emit, Sys.setQueue]
    · rw [← h.cap]
      simp [Sys.unblockFor, Sys.continueWith, Sys.emit, Sys.setQueue]
    · intro x hx
      rcases List.mem_cons.mp hx with rfl | hx
      · exact ⟨rfl, rfl⟩
      · exact hes x hx

/-- `send` and `try_send` store one item. -/
theorem enqueue_queueAt (u : Sys α) (q : Nat) (item : α) :
    QueueAt q ((u.queue q).put item) (.enqueued q item :: u.log) (u.enqueue q item) := by
  refine QueueAt.wakeReceiver ⟨?_, ?_, [], rfl, .nil⟩
  · simp [Sys.emit, Sys.setQueue]
  · simp [Sys.emit, Sys.setQueue]

/-- `receive` and `try_receive` take one item out. -/
theorem dequeue_queueAt (u : Sys α) (q : Nat) :
    QueueAt q (u.queue q).drop (.dequeued q (u.queue q).front :: u.log) (u.dequeue q) := by
  refine QueueAt.wakeSender ⟨?_, ?_, [], rfl, .nil⟩
  · simp [Sys.emit, Sys.setQueue]
  · simp [Sys.emit, Sys.setQueue]

/-- Registering a waiter and blocking leaves the ring alone. -/
theorem blockCurrent_queueAt (hr : (u.queue q).toRingBuf = Q.toRingBuf)
    (hc : (u.queue q).cap = Q.cap) (hl : u.log = l) (p : Prim) (k : Kont α) :
    QueueAt q Q l (u.blockCurrent p k) := by
  unfold Sys.blockCurrent
  dsimp only
  split
  · exact ⟨hr, hc, [], hl, .nil⟩
  · refine ⟨hr, hc, [_], congrArg (_ :: ·) hl, fun x hx ↦ ?_⟩
    rw [List.mem_singleton.mp hx]
    exact ⟨rfl, rfl⟩

private theorem sendTest_queueStep (q : Nat) (item : α) : QueueStep q s (s.sendTest q item) := by
  unfold Sys.sendTest
  split
  · refine .frame (blockCurrent_queueAt ?_ ?_ (by rfl) _ _)
    · simp [Sys.setQueue]
    · simp [Sys.setQueue]
  · next hn => exact .put item hn (enqueue_queueAt (s.setKont .user) q item)

private theorem recvTest_queueStep (q : Nat) : QueueStep q s (s.recvTest q) := by
  unfold Sys.recvTest
  split
  · refine .frame (blockCurrent_queueAt ?_ ?_ (by rfl) _ _)
    · simp [Sys.setQueue]
    · simp [Sys.setQueue]
  · next hn => exact .drop hn (dequeue_queueAt (s.setKont .user) q)

private theorem trySend_queueStep (q : Nat) (item : α) : QueueStep q s (s.trySend q item) := by
  unfold Sys.trySend
  split
  · refine .frame ⟨rfl, rfl, [.sendRefused q], rfl, fun x hx ↦ ?_⟩
    rw [List.mem_singleton.mp hx]
    exact ⟨rfl, rfl⟩
  · next hn => exact .put item hn (enqueue_queueAt s q item)

private theorem tryReceive_queueStep (q : Nat) : QueueStep q s (s.tryReceive q) := by
  unfold Sys.tryReceive
  split
  · refine .frame ⟨rfl, rfl, [.receiveRefused q], rfl, fun x hx ↦ ?_⟩
    rw [List.mem_singleton.mp hx]
    exact ⟨rfl, rfl⟩
  · next hn => exact .drop hn (dequeue_queueAt s q)

/-- Every step does one of these to a queue. -/
theorem Step.queueStep (h : Step D s a s') (q : Nat) : QueueStep q s s' := by
  have hf := h.sameBut
  by_cases ho : a.obj s = some (.queue q)
  · cases h with
    | @call op hp hk hi =>
      cases op with
      | send q' item => exact .frame ⟨rfl, rfl, [], rfl, .nil⟩
      | receive q' => exact .frame ⟨rfl, rfl, [], rfl, .nil⟩
      | trySend q' item =>
        rw [Obj.queue.inj (Option.some.inj ho)]
        exact trySend_queueStep q item
      | tryReceive q' =>
        rw [Obj.queue.inj (Option.some.inj ho)]
        exact tryReceive_queueStep q
      | _ => cases ho
    | resume hp hk =>
      simp only [Act.obj] at ho
      cases hc : s.kont s.me with
      | sendWait q' item => exact .frame ⟨rfl, rfl, [], rfl, .nil⟩
      | recvWait q' => exact .frame ⟨rfl, rfl, [], rfl, .nil⟩
      | sendTest q' item =>
        rw [hc] at ho
        rw [Obj.queue.inj (Option.some.inj ho)]
        exact sendTest_queueStep q item
      | recvTest q' =>
        rw [hc] at ho
        rw [Obj.queue.inj (Option.some.inj ho)]
        exact recvTest_queueStep q
      | _ =>
        rw [hc] at ho
        cases ho
    | dispatch => cases ho
  · have hq := hf.queue q ho
    obtain ⟨es, he, hes⟩ := hf.log
    refine .frame ⟨by rw [hq], by rw [hq], es, he, .of_obj fun x hx hxq ↦ ?_⟩
    exact ho ((hes x hx).trans (by rw [hxq]))

end Steps

/-! ### Refinement -/

/-- The ring holds the items that entered and have not left. -/
structure QueueInv (q : Nat) (cap : Nat) (s : Sys α) : Prop where
  cap_eq : (s.queue q).cap = cap
  wf : (s.queue q).WF
  items : enqueuedItems q s.log = dequeuedItems q s.log ++ (s.queue q).contents

/-- Every step keeps the ring a refinement of the list. -/
theorem QueueInv.step {q cap : Nat} {s s' : Sys α} (h : QueueInv q cap s)
    (hst : QueueStep q s s') : QueueInv q cap s' := by
  have hitems := h.items
  cases hst with
  | frame ha =>
    obtain ⟨es, he, hes⟩ := ha.log
    refine ⟨ha.cap.trans h.cap_eq, ?_, ?_⟩
    · rw [Queue.WF, ha.ring, ha.cap]
      exact h.wf
    · rw [he, enqueuedItems_append hes, dequeuedItems_append hes, Queue.contents, ha.ring, ha.cap]
      exact hitems
  | put item hn ha =>
    obtain ⟨es, he, hes⟩ := ha.log
    have hlt : (s.queue q).count < (s.queue q).cap := Nat.lt_of_le_of_ne h.wf.count_le hn
    refine ⟨ha.cap.trans h.cap_eq, ?_, ?_⟩
    · rw [Queue.WF, ha.ring, ha.cap]
      exact RingBuf.wf_push item h.wf hlt
    · rw [he, enqueuedItems_append hes, dequeuedItems_append hes, enqueuedItems_enqueued,
        dequeuedItems_enqueued, Queue.contents, ha.ring, ha.cap, hitems, List.append_assoc]
      exact congrArg (_ ++ ·) (RingBuf.contents_push item h.wf hlt).symm
  | drop hn ha =>
    obtain ⟨es, he, hes⟩ := ha.log
    have hpos : 0 < (s.queue q).count := Nat.pos_of_ne_zero hn
    refine ⟨ha.cap.trans h.cap_eq, ?_, ?_⟩
    · rw [Queue.WF, ha.ring, ha.cap]
      exact RingBuf.wf_pop h.wf hpos
    · rw [he, enqueuedItems_append hes, dequeuedItems_append hes, enqueuedItems_dequeued,
        dequeuedItems_dequeued, Queue.contents, ha.ring, ha.cap, hitems, List.append_assoc]
      exact congrArg (_ ++ ·) (RingBuf.contents_pop h.wf hpos)

/-- The ring is empty at the start. -/
theorem QueueInv.init [Inhabited α] (cfg : Config) (q : Nat) :
    QueueInv q (cfg.queueCap q) (.init cfg : Sys α) := by
  refine ⟨rfl, ⟨cfg.queueCap_pos q, Nat.zero_le _, ?_⟩, rfl⟩
  exact (Nat.zero_mod _).symm

/-- One event was logged, and it is not one that other events and a different one make. -/
private theorem log_ne {x y : Event α} {es l : List (Event α)} (h : x ≠ y) :
    es ++ x :: l ≠ y :: l := by
  intro he
  have happ : (es ++ [x]) ++ l = [y] ++ l := by
    rw [List.append_assoc]
    exact he
  have hcancel : es ++ [x] = [y] := List.append_cancel_right happ
  cases es with
  | nil => exact h (List.cons.inj hcancel).1
  | cons z zs => simp at hcancel

/-- A `try_send` is refused exactly when the queue is full, and then changes nothing. -/
theorem trySend_refused (s : Sys α) (q : Nat) (item : α) :
    ((s.trySend q item).log = .sendRefused q :: s.log ↔ (s.queue q).count = (s.queue q).cap) ∧
    ((s.queue q).count = (s.queue q).cap → (s.trySend q item).queue = s.queue) := by
  unfold Sys.trySend
  by_cases hc : (s.queue q).count = (s.queue q).cap
  · rw [if_pos hc]
    exact ⟨iff_of_true rfl hc, fun _ ↦ rfl⟩
  · rw [if_neg hc]
    obtain ⟨es, he, -⟩ := (enqueue_queueAt s q item).log
    refine ⟨iff_of_false (fun hl ↦ ?_) hc, fun h ↦ absurd h hc⟩
    rw [he] at hl
    exact log_ne (by simp) hl

/-- A `try_receive` is refused exactly when the queue is empty, and then changes nothing. -/
theorem tryReceive_refused (s : Sys α) (q : Nat) :
    ((s.tryReceive q).log = .receiveRefused q :: s.log ↔ (s.queue q).count = 0) ∧
    ((s.queue q).count = 0 → (s.tryReceive q).queue = s.queue) := by
  unfold Sys.tryReceive
  by_cases hc : (s.queue q).count = 0
  · rw [if_pos hc]
    exact ⟨iff_of_true rfl hc, fun _ ↦ rfl⟩
  · rw [if_neg hc]
    obtain ⟨es, he, -⟩ := (dequeue_queueAt s q).log
    refine ⟨iff_of_false (fun hl ↦ ?_) hc, fun h ↦ absurd h hc⟩
    rw [he] at hl
    exact log_ne (by simp) hl

/-- The queue is a lossless FIFO in every run of every program, in every order of
scheduling. -/
theorem queue_fifo [Inhabited α] (D : Dispatcher) (cfg : Config) (q : Nat) (s : Sys α)
    (h : Reach (· = .init cfg) (fun _ _ ↦ True) (Step D) s) :
    dequeuedItems q s.log <+: enqueuedItems q s.log ∧
    enqueuedItems q s.log = dequeuedItems q s.log ++
      (List.range (s.queue q).count).map
        (fun i ↦ (s.queue q).buf (((s.queue q).head + i) % cfg.queueCap q)) ∧
    (s.queue q).count = (enqueuedItems q s.log).length - (dequeuedItems q s.log).length ∧
    (dequeuedItems q s.log).length ≤ (enqueuedItems q s.log).length ∧
    (s.queue q).count ≤ cfg.queueCap q ∧
    (s.queue q).tail = ((s.queue q).head + (s.queue q).count) % cfg.queueCap q ∧
    (∀ item, ((s.trySend q item).log = .sendRefused q :: s.log ↔
        (s.queue q).count = cfg.queueCap q) ∧
      ((s.queue q).count = cfg.queueCap q → (s.trySend q item).queue = s.queue)) ∧
    ((s.tryReceive q).log = .receiveRefused q :: s.log ↔ (s.queue q).count = 0) ∧
    ((s.queue q).count = 0 → (s.tryReceive q).queue = s.queue) := by
  have hi : QueueInv q (cfg.queueCap q) s := by
    refine h.invariant ?_ fun s a t hi _ hst ↦ hi.step (hst.queueStep q)
    rintro s rfl
    exact .init cfg q
  have hlen : (enqueuedItems q s.log).length =
      (dequeuedItems q s.log).length + (s.queue q).count := by
    rw [hi.items, List.length_append, Queue.contents, RingBuf.length_contents]
  have hwf := hi.wf
  have hitems := hi.items
  have hsend := fun item ↦ trySend_refused s q item
  rw [Queue.WF, hi.cap_eq] at hwf
  rw [Queue.contents, hi.cap_eq] at hitems
  rw [hi.cap_eq] at hsend
  exact ⟨⟨_, hitems.symm⟩, hitems, by omega, by omega, hwf.count_le, hwf.tail_eq, hsend,
    tryReceive_refused s q⟩

/-- A queue of capacity one: the sender waits with its second item until the receiver has taken the
first one, the receiver waits for the second one, and a third one is refused. -/
def refusedRun : List (Act Nat) :=
  [.call (.xTaskCreate 1), .call (.xTaskCreate 1), .call .vTaskStartScheduler, .call (.send 0 7),
    .resume, .call (.send 0 8), .resume, .dispatch, .call (.receive 0), .resume,
    .call (.receive 0), .resume, .dispatch, .resume, .resume, .call (.trySend 0 9)]

private theorem refusedRun_isSome : (runActs Sys.exec refusedRun (.init {})).isSome = true := by
  decide +kernel

/-- The state after that run. -/
def refusedEnd : Sys Nat := (runActs Sys.exec refusedRun (.init {})).get refusedRun_isSome

/-- One item has left, the other one is the content of the queue. -/
theorem queue_fifo_refused :
    dequeuedItems 0 refusedEnd.log = [7] ∧ enqueuedItems 0 refusedEnd.log = [7, 8] ∧
    dequeuedItems 0 refusedEnd.log <+: enqueuedItems 0 refusedEnd.log :=
  ⟨by decide +kernel, by decide +kernel,
    (queue_fifo .code {} 0 refusedEnd (Reach.of_guardedRun Step.of_exec refusedRun (by rfl)
      (by decide +kernel) refusedRun_isSome)).1⟩

end McuSimulator.Rtos
