import McuSimulator.Rtos.QueueWakeUp

/-!
# Programs on the kernel

The code of the contexts as a function: what a context does from one API call to the next, from its
own place in the code and a world that it shares with the other contexts. Between two calls no other
context runs. A run of a program is a run of the kernel, and its steps move items in and out of the
queues as the calls of its contexts say.
-/

namespace McuSimulator.Rtos

open McuSimulator.Base

variable {α ω σ : Type}

/-! ### Programs -/

/-- What a context does up to its next API call: what it makes of the world, the call, and the place
behind it. -/
structure Turn (α ω σ : Type) where
  world : ω
  op : Op α
  place : σ

/-- The code of all contexts, from the place where the executing one is; it makes no call from where
its function has ended. -/
abbrev Code (α ω σ : Type) := Sys α → ω → σ → Option (Turn α ω σ)

/-- The kernel, the world and the places of the contexts. -/
structure Machine (α ω σ : Type) where
  sys : Sys α
  world : ω
  place : TaskHandle → σ

namespace Machine

/-- The transitions: the executing context takes its turn up to a call and issues it, or the kernel
goes on. -/
inductive Step (D : Dispatcher) (code : Code α ω σ) :
    Machine α ω σ → Act α → Machine α ω σ → Prop
  | call {m : Machine α ω σ} {t : Turn α ω σ} {s : Sys α}
      (ht : code m.sys m.world (m.place m.sys.me) = some t)
      (hs : Rtos.Step D m.sys (.call t.op) s) :
      Step D code m (.call t.op) ⟨s, t.world, Function.update m.place m.sys.me t.place⟩
  | kernel {m : Machine α ω σ} {a : Act α} {s : Sys α} (ha : a = .resume ∨ a = .dispatch)
      (hs : Rtos.Step D m.sys a s) : Step D code m a { m with sys := s }

/-- Any run of a program. -/
def Reaches (D : Dispatcher) (code : Code α ω σ) : Machine α ω σ → Machine α ω σ → Prop :=
  fun m₀ ↦ Reach (· = m₀) (fun _ _ ↦ True) (Step D code)

/-- The machine with the scheduler of the source; it stays where no step is possible. -/
def advance (code : Code α ω σ) (m : Machine α ω σ) : Machine α ω σ :=
  if m.sys.phase ≠ .code then
    { m with sys := { m.sys with sched := m.sys.sched.dispatch m.sys.phase, phase := .code } }
  else if (m.sys.kont m.sys.me).Resumable then
    { m with sys := m.sys.resume (m.sys.kont m.sys.me) }
  else
    match code m.sys m.world (m.place m.sys.me) with
    | none => m
    | some t =>
      if (m.sys.kont m.sys.me).IsUser ∧ m.sys.Issues t.op then
        ⟨m.sys.call t.op, t.world, Function.update m.place m.sys.me t.place⟩
      else m

/-- The machine after so many steps. -/
def advanceN (code : Code α ω σ) : Nat → Machine α ω σ → Machine α ω σ
  | 0, m => m
  | n + 1, m => advanceN code n (advance code m)

section

variable {D : Dispatcher} {code : Code α ω σ} {m m₀ : Machine α ω σ}

private theorem advance_step (code : Code α ω σ) (m : Machine α ω σ) :
    advance code m = m ∨ ∃ a, Step .code code m a (advance code m) := by
  unfold advance
  split
  case isTrue hp => exact .inr ⟨.dispatch, .kernel (.inr rfl) (.dispatch hp ⟨hp, rfl⟩)⟩
  case isFalse hp =>
    have hp := not_not.mp hp
    split
    case isTrue hk => exact .inr ⟨.resume, .kernel (.inl rfl) (.resume hp hk)⟩
    case isFalse =>
      split
      case h_1 => exact .inl rfl
      case h_2 t ht =>
        split
        case isTrue hc => exact .inr ⟨.call t.op, .call ht (.call hp hc.1 hc.2)⟩
        case isFalse => exact .inl rfl

/-- The machine only gets to states that can be reached. -/
theorem reaches_advanceN (h : Reaches .code code m₀ m) (n : Nat) :
    Reaches .code code m₀ (advanceN code n m) := by
  induction n generalizing m with
  | zero => exact h
  | succ n ih =>
    refine ih ?_
    rcases advance_step code m with hstay | ⟨a, hstep⟩
    · rwa [hstay]
    · exact h.next trivial hstep

private theorem advanceN_succ (code : Code α ω σ) (n : Nat) (m : Machine α ω σ) :
    advanceN code (n + 1) m = advance code (advanceN code n m) := by
  induction n generalizing m with
  | zero => rfl
  | succ n ih => exact ih (advance code m)

/-- As long as it does not stay where it is, the machine makes a run. -/
theorem exists_isRun_advanceN {n : Nat}
    (h : ∀ i < n, advanceN code (i + 1) m ≠ advanceN code i m) :
    ∃ labels, IsRun (· = m) (fun _ _ ↦ True) (Step .code code) n (advanceN code · m) labels := by
  have hstep : ∀ i, ∃ a, i < n →
      Step .code code (advanceN code i m) a (advanceN code (i + 1) m) := by
    intro i
    by_cases hi : i < n
    · have hne := h i hi
      rw [advanceN_succ] at hne ⊢
      obtain ⟨a, ha⟩ := (advance_step code _).resolve_left hne
      exact ⟨a, fun _ ↦ ha⟩
    · exact ⟨.dispatch, fun hlt ↦ absurd hlt hi⟩
  choose labels hlabels using hstep
  exact ⟨labels, rfl, fun _ _ ↦ trivial, hlabels⟩

/-- A step is one of the kernel. -/
theorem Step.sys {a : Act α} {m' : Machine α ω σ} (h : Step D code m a m') :
    Rtos.Step D m.sys a m'.sys := by
  cases h with
  | call ht hs => exact hs
  | kernel ha hs => exact hs

end

end Machine

/-! ### Items -/

/-- The item that a `send` on the queue has not stored yet. -/
def Kont.sending (q : Nat) : Kont α → List α
  | .sendWait q' item | .sendTest q' item => if q' = q then [item] else []
  | _ => []

/-- A context at the test of `receive` is inside it. -/
@[simp] theorem Kont.inReceive_recvTest (q : Nat) :
    (.recvTest q : Kont α).inReceive q = true := decide_eq_true rfl

/-- A context at the test of `send` has not stored its item. -/
@[simp] theorem Kont.sending_sendTest (q : Nat) (item : α) :
    (.sendTest q item : Kont α).sending q = [item] := if_pos rfl

/-- No item moves. -/
def SameItems (s s' : Sys α) : Prop :=
  ∀ q, enqueuedItems q s'.log = enqueuedItems q s.log ∧
    dequeuedItems q s'.log = dequeuedItems q s.log

/-- What a step that is no call does to the executing context and the items: it returns from `send`
or `receive`, or moves no item. -/
inductive Goes (s s' : Sys α) : Prop
  | stays (k : Kont α) (hk : s'.kont = Function.update s.kont s.me k)
      (hsend : ∀ q, k.sending q = (s.kont s.me).sending q)
      (hrecv : ∀ q, k.inReceive q = (s.kont s.me).inReceive q) (hitems : SameItems s s')
  | sent (q : Nat) (item : α) (h : s.kont s.me = .sendTest q item)
      (hk : s'.kont = Function.update s.kont s.me .user)
      (henq : ∀ q', enqueuedItems q' s'.log =
        enqueuedItems q' s.log ++ if q' = q then [item] else [])
      (hdeq : ∀ q', dequeuedItems q' s'.log = dequeuedItems q' s.log)
  | received (q : Nat) (item : α) (h : s.kont s.me = .recvTest q)
      (hk : s'.kont = Function.update s.kont s.me .user)
      (henq : ∀ q', enqueuedItems q' s'.log = enqueuedItems q' s.log)
      (hdeq : ∀ q', dequeuedItems q' s'.log =
        dequeuedItems q' s.log ++ if q' = q then [item] else [])

section Items

variable {s u : Sys α}

private theorem SameItems.of_log {s' : Sys α} (h : s'.log = s.log) : SameItems s s' :=
  fun q ↦ by rw [h]; exact ⟨rfl, rfl⟩

private theorem SameItems.trans {s' : Sys α} (h : SameItems s u) (h' : SameItems u s') :
    SameItems s s' :=
  fun q ↦ ⟨(h' q).1.trans (h q).1, (h' q).2.trans (h q).2⟩

private theorem sameItems_blockCurrent (u : Sys α) (p : Prim) (k : Kont α) :
    SameItems u (u.blockCurrent p k) := by
  unfold Sys.blockCurrent
  dsimp only
  split
  · exact .of_log rfl
  · exact fun _ ↦ ⟨rfl, rfl⟩

private theorem sameItems_wakeReceiver (u : Sys α) (q : Nat) : SameItems u (u.wakeReceiver q) := by
  unfold Sys.wakeReceiver
  dsimp only
  split
  · exact .of_log rfl
  · exact fun _ ↦ ⟨rfl, rfl⟩

private theorem sameItems_wakeSender (u : Sys α) (q : Nat) : SameItems u (u.wakeSender q) := by
  unfold Sys.wakeSender
  dsimp only
  split
  · exact .of_log rfl
  · exact fun _ ↦ ⟨rfl, rfl⟩

private theorem items_enqueue (u : Sys α) (q : Nat) (item : α) (q' : Nat) :
    enqueuedItems q' (u.enqueue q item).log =
        enqueuedItems q' u.log ++ (if q' = q then [item] else []) ∧
      dequeuedItems q' (u.enqueue q item).log = dequeuedItems q' u.log := by
  obtain ⟨henq, hdeq⟩ := sameItems_wakeReceiver
    ((u.setQueue q ((u.queue q).put item)).emit (.enqueued q item)) q q'
  rw [Sys.enqueue, henq, hdeq]
  refine ⟨?_, congrArg List.reverse (List.filterMap_cons_none rfl)⟩
  by_cases hq : q' = q
  · rw [hq, if_pos rfl]
    exact enqueuedItems_enqueued item
  · rw [if_neg hq, List.append_nil]
    exact congrArg List.reverse (List.filterMap_cons_none (if_neg (Ne.symm hq)))

private theorem items_dequeue (u : Sys α) (q q' : Nat) :
    enqueuedItems q' (u.dequeue q).log = enqueuedItems q' u.log ∧
      dequeuedItems q' (u.dequeue q).log =
        dequeuedItems q' u.log ++ (if q' = q then [(u.queue q).front] else []) := by
  obtain ⟨henq, hdeq⟩ := sameItems_wakeSender
    ((u.setQueue q (u.queue q).drop).emit (.dequeued q (u.queue q).front)) q q'
  rw [Sys.dequeue, henq, hdeq]
  refine ⟨congrArg List.reverse (List.filterMap_cons_none rfl), ?_⟩
  by_cases hq : q' = q
  · rw [hq, if_pos rfl]
    exact dequeuedItems_dequeued _
  · rw [if_neg hq, List.append_nil]
    exact congrArg List.reverse (List.filterMap_cons_none (if_neg (Ne.symm hq)))

private theorem goes_sendTest (q : Nat) (item : α) (h : s.kont s.me = .sendTest q item) :
    Goes s (s.sendTest q item) := by
  unfold Sys.sendTest
  split
  case isTrue =>
    refine .stays (.sendWait q item) (Sys.kont_blockCurrent _ _ _) (fun _ ↦ ?_) (fun _ ↦ ?_) ?_
    · rw [h]
      rfl
    · rw [h]
      rfl
    · exact SameItems.trans (.of_log rfl) (sameItems_blockCurrent _ _ _)
  case isFalse =>
    refine .sent q item h (Sys.kont_enqueue _ q item) (fun q' ↦ ?_) (fun q' ↦ ?_)
    · exact (items_enqueue (s.setKont .user) q item q').1
    · exact (items_enqueue (s.setKont .user) q item q').2

private theorem goes_recvTest (q : Nat) (h : s.kont s.me = .recvTest q) :
    Goes s (s.recvTest q) := by
  unfold Sys.recvTest
  split
  case isTrue =>
    refine .stays (.recvWait q) (Sys.kont_blockCurrent _ _ _) (fun _ ↦ ?_) (fun _ ↦ ?_) ?_
    · rw [h]
      rfl
    · rw [h]
      rfl
    · exact SameItems.trans (.of_log rfl) (sameItems_blockCurrent _ _ _)
  case isFalse =>
    refine .received q (s.queue q).front h (Sys.kont_dequeue _ q) (fun q' ↦ ?_) (fun q' ↦ ?_)
    · exact (items_dequeue (s.setKont .user) q q').1
    · exact (items_dequeue (s.setKont .user) q q').2

/-- Only the functions of a queue send to it and receive from it. -/
theorem Kont.sending_of_obj {k : Kont α} {q : Nat} (h : k.obj ≠ some (.queue q)) :
    k.sending q = [] ∧ k.inReceive q = false := by
  cases k with
  | sendWait q' item | sendTest q' item =>
    exact ⟨if_neg fun hq ↦ h (congrArg _ (congrArg _ hq)), rfl⟩
  | recvWait q' | recvTest q' =>
    exact ⟨rfl, decide_eq_false fun hq ↦ h (congrArg _ (congrArg _ hq))⟩
  | _ => exact ⟨rfl, rfl⟩

/-- A step on something else than a queue moves no item. -/
theorem Step.sameItems {D : Dispatcher} {s s' : Sys α} {a : Act α} (h : Step D s a s')
    (hobj : ∀ q, a.obj s ≠ some (.queue q)) : SameItems s s' := by
  obtain ⟨es, hlog, hes⟩ := h.sameBut.log
  intro q
  have hsilent : Silent q es := .of_obj fun x hx hxq ↦ hobj q ((hes x hx).trans (by rw [hxq]))
  rw [hlog]
  exact ⟨enqueuedItems_append hsilent, dequeuedItems_append hsilent⟩

/-- Every step that is no call does one of these. -/
theorem Step.goes {D : Dispatcher} {s s' : Sys α} {a : Act α} (h : Step D s a s')
    (ha : a = .resume ∨ a = .dispatch) : Goes s s' := by
  cases h with
  | call => rcases ha with ha | ha <;> cases ha
  | dispatch hp hd =>
    exact .stays (s.kont s.me) (Function.update_eq_self _ _).symm (fun _ ↦ rfl) (fun _ ↦ rfl)
      (.of_log rfl)
  | resume hp hk =>
    have hsame := (Step.resume (D := D) hp hk).sameItems
    obtain ⟨k, hgoes, hkont⟩ := s.kont_resume
    have hother : (∀ q, (s.kont s.me).obj ≠ some (.queue q)) →
        Goes s (s.resume (s.kont s.me)) := by
      intro hobj
      have hk' : ∀ q, k.obj ≠ some (.queue q) := by
        intro q hkq
        rcases Kont.Goes.obj_eq hgoes with hnone | hsome
        · cases hnone.symm.trans hkq
        · exact hobj q (hsome.symm.trans hkq)
      refine .stays k hkont (fun q ↦ ?_) (fun q ↦ ?_) (hsame hobj)
      · rw [(Kont.sending_of_obj (hk' q)).1, (Kont.sending_of_obj (hobj q)).1]
      · rw [(Kont.sending_of_obj (hk' q)).2, (Kont.sending_of_obj (hobj q)).2]
    cases hc : s.kont s.me with
    | sendTest q item => exact goes_sendTest q item hc
    | recvTest q => exact goes_recvTest q hc
    | sendWait q item =>
      exact .stays (.sendTest q item) rfl (fun _ ↦ by rw [hc]; rfl) (fun _ ↦ by rw [hc]; rfl)
        (.of_log rfl)
    | recvWait q =>
      exact .stays (.recvTest q) rfl (fun _ ↦ by rw [hc]; rfl) (fun _ ↦ by rw [hc]; rfl)
        (.of_log rfl)
    | _ =>
      rw [hc] at hother
      exact hother nofun

/-- A call on no object does the first. -/
theorem Step.goes_call {D : Dispatcher} {s s' : Sys α} {op : Op α} (h : Step D s (.call op) s')
    (hs : SchedInv s) (ho : op.obj = none) : Goes s s' := by
  obtain ⟨k, ⟨hu, hk⟩, hkont⟩ := h.leads hs.fresh
  have hobj : k.obj = none := by
    rcases hk with rfl | hk
    · rfl
    · rw [hk.obj_eq, ho]
  have hnone : ∀ {k' : Kont α}, k'.obj = none → ∀ q, k'.sending q = [] ∧ k'.inReceive q = false :=
    fun hk' q ↦ Kont.sending_of_obj (by rw [hk']; nofun)
  refine .stays k hkont (fun q ↦ ?_) (fun q ↦ ?_) (h.sameItems fun q ↦ ?_)
  · rw [(hnone hobj q).1, (hnone (congrArg Kont.obj hu) q).1]
  · rw [(hnone hobj q).2, (hnone (congrArg Kont.obj hu) q).2]
  · rw [Act.obj, ho]
    nofun

end Items

/-! ### Producers and consumers -/

/-- The items that have entered a queue, and the one that the context is sending to it. -/
def Sys.handed (s : Sys α) (t : TaskHandle) (q : Nat) : List α :=
  enqueuedItems q s.log ++ (s.kont t).sending q

section Handed

variable {s s' : Sys α}

/-- No context gets into `receive` by going on. -/
theorem Goes.inReceive (h : Goes s s') {t : TaskHandle} {q : Nat}
    (ht : (s'.kont t).inReceive q = true) : (s.kont t).inReceive q = true := by
  have hother : ∀ {k : Kont α}, s'.kont = Function.update s.kont s.me k →
      (k.inReceive q = true → (s.kont s.me).inReceive q = true) →
        (s.kont t).inReceive q = true := by
    intro k hk hme
    rw [hk] at ht
    by_cases htm : t = s.me
    · rw [htm, Function.update_self] at ht
      rw [htm]
      exact hme ht
    · rwa [Function.update_of_ne htm] at ht
  cases h with
  | stays k hk hsend hrecv hitems => exact hother hk fun hk' ↦ hrecv q ▸ hk'
  | sent q' item h hk henq hdeq => exact hother hk nofun
  | received q' item h hk henq hdeq => exact hother hk nofun

/-- No context gets an item to send by going on. -/
theorem Goes.sending (h : Goes s s') {t : TaskHandle} {q : Nat} (ht : (s.kont t).sending q = []) :
    (s'.kont t).sending q = [] := by
  have hother : ∀ {k : Kont α}, s'.kont = Function.update s.kont s.me k →
      ((s.kont s.me).sending q = [] → k.sending q = []) → (s'.kont t).sending q = [] := by
    intro k hk hme
    rw [hk]
    by_cases htm : t = s.me
    · rw [htm, Function.update_self]
      exact hme (htm ▸ ht)
    · rwa [Function.update_of_ne htm]
  cases h with
  | stays k hk hsend hrecv hitems => exact hother hk (hsend q).trans
  | sent q' item h hk henq hdeq => exact hother hk fun _ ↦ rfl
  | received q' item h hk henq hdeq => exact hother hk fun _ ↦ rfl

/-- What the only producer has handed over stays when it goes on. -/
theorem Goes.handed (h : Goes s s') {t : TaskHandle}
    (honly : ∀ q item, s.kont s.me = .sendTest q item → s.me = t) (q : Nat) :
    s'.handed t q = s.handed t q := by
  unfold Sys.handed
  cases h with
  | stays k hk hsend hrecv hitems =>
    rw [(hitems q).1, hk]
    by_cases htm : t = s.me
    · rw [htm, Function.update_self, hsend]
    · rw [Function.update_of_ne htm]
  | sent q' item h hk henq hdeq =>
    obtain rfl := honly q' item h
    rw [henq, hk, Function.update_self, h]
    simp [Kont.sending, eq_comm]
  | received q' item h hk henq hdeq =>
    rw [henq, hk]
    by_cases htm : t = s.me
    · rw [htm, Function.update_self, h]
      rfl
    · rw [Function.update_of_ne htm]

/-- The only consumer goes on waiting, or takes one item. -/
theorem Goes.taken (h : Goes s s') {t : TaskHandle} {q : Nat}
    (honly : s.kont s.me = .recvTest q → s.me = t) :
    ((s'.kont t).inReceive q = (s.kont t).inReceive q ∧
      dequeuedItems q s'.log = dequeuedItems q s.log) ∨
    ((s.kont t).inReceive q = true ∧ (s'.kont t).inReceive q = false ∧
      ∃ item, dequeuedItems q s'.log = dequeuedItems q s.log ++ [item]) := by
  cases h with
  | stays k hk hsend hrecv hitems =>
    refine .inl ⟨?_, (hitems q).2⟩
    rw [hk]
    by_cases htm : t = s.me
    · rw [htm, Function.update_self, hrecv]
    · rw [Function.update_of_ne htm]
  | sent q' item h hk henq hdeq =>
    refine .inl ⟨?_, hdeq q⟩
    rw [hk]
    by_cases htm : t = s.me
    · rw [htm, Function.update_self, h]
      rfl
    · rw [Function.update_of_ne htm]
  | received q' item h hk henq hdeq =>
    rw [hdeq, hk]
    by_cases hq : q = q'
    · subst hq
      obtain rfl := honly h
      rw [if_pos rfl, Function.update_self, h]
      exact .inr ⟨Kont.inReceive_recvTest q, rfl, item, rfl⟩
    · rw [if_neg hq, List.append_nil]
      refine .inl ⟨?_, rfl⟩
      by_cases htm : t = s.me
      · rw [htm, Function.update_self, h]
        exact (decide_eq_false (Ne.symm hq)).symm
      · rw [Function.update_of_ne htm]

end Handed

/-- A context that has returned stays where it is. -/
theorem Step.kont_exited {D : Dispatcher} {s s' : Sys α} {a : Act α} (h : Step D s a s')
    (hs : SchedInv s) {t : TaskHandle} (ht : s.kont t = .exited) : s'.kont t = .exited := by
  obtain ⟨k, -, hk⟩ := h.leads hs.fresh
  by_cases hme : t = s.me
  · rw [hme] at ht
    cases h with
    | call hp hu hi => exact (ht ▸ hu : (Kont.exited : Kont α).IsUser).elim
    | resume hp hr => exact (ht ▸ hr : (Kont.exited : Kont α).Resumable).elim
    | dispatch => rw [hme, ht]
  · rw [hk, Function.update_of_ne hme, ht]

/-- Only `xTaskCreate` makes a task. -/
theorem Step.taskCount_eq {D : Dispatcher} {s s' : Sys α} {a : Act α} (h : Step D s a s')
    (hcount : s.sched.taskCount ≤ maxTasks) (ha : ∀ p, a ≠ .call (.xTaskCreate p)) :
    s'.sched.taskCount = s.sched.taskCount := by
  have hserved : ∀ {r : Request} {v : Scheduler} {ph : Phase}, Served s.sched r v ph →
      (∀ p, r ≠ .xTaskCreate p) → v.taskCount = s.sched.taskCount := by
    intro r v ph hr hne
    cases hr with
    | create p => exact absurd rfl (hne p)
    | _ => rfl
  cases h with
  | @call op hp hk hi =>
    refine hserved (Sys.served_call hp hcount op hi) fun p hreq ↦ ?_
    cases op with
    | xTaskCreate p' => exact ha p' rfl
    | lock | unlock | take | give | trySend | tryReceive =>
      simp only [Sys.callRequest, Sys.wakeBest] at hreq
      split_ifs at hreq
    | _ => cases hreq
  | resume hp hk =>
    refine hserved (Sys.served_resume hp _) fun p hreq ↦ ?_
    cases hk' : s.kont s.me with
    | sendTest | recvTest | bitsTest | checkTest =>
      rw [hk'] at hreq
      simp only [Sys.resumeRequest, Sys.wakeBest] at hreq
      split_ifs at hreq
    | _ =>
      rw [hk'] at hreq
      cases hreq
  | dispatch hp hd => exact (D.sound _ _ _ hd).taskCount

end McuSimulator.Rtos
