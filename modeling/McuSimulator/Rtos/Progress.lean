import McuSimulator.Rtos.Discipline
import Mathlib.Algebra.BigOperators.Group.Finset.Piecewise
import Mathlib.Algebra.Order.BigOperators.Group.Finset

/-!
# The kernel makes progress

Between the calls of the contexts the kernel takes steps of its own: it dispatches, and contexts go
on inside API functions, where `send` and `receive` may find that another task was faster and block
again. A potential bounds these steps: each of them lowers it, and a call raises it by at most five.
So the kernel takes at most five steps for each call, whatever the order of scheduling.
-/

namespace McuSimulator.Rtos

open McuSimulator.Base

variable {α : Type}

/-! ### The potential -/

/-- What a context can still cost. A wake-up raises it by three, which the context that wakes pays
on its way out. -/
def Kont.cost (awake : Bool) : Kont α → Nat
  | .user | .exited | .checkTest _ _ | .checkCompact _ _ => 0
  | .delayed => 1
  | .sendTest _ _ | .recvTest _ | .bitsTest _ _ _ _ => 5
  | .lockWait _ | .takeWait _ | .sendWait _ _ | .recvWait _ | .bitsWait _ _ _ _ =>
    if awake then 6 else 3

/-- A dispatch is one step. -/
def Phase.cost : Phase → Nat
  | .code => 0
  | .scheduleFrom | .afterDelete => 1

/-- The task runs or will run. -/
def Sys.awake (s : Sys α) (t : TaskHandle) : Bool :=
  decide (s.state t = .ready ∨ s.state t = .running)

/-- The cost of a context. -/
def Sys.costAt (s : Sys α) (t : TaskHandle) : Nat := (s.kont t).cost (s.awake t)

/-- What all contexts can still cost. -/
def Sys.potential (s : Sys α) : Nat :=
  ∑ t ∈ Finset.range (invalidTask + 1), s.costAt t + s.phase.cost

section Costs

variable {s s' : Sys α}

/-- A sum over a range, when one term changes and a second one grows. -/
theorem sum_le_of_point {f g : Nat → Nat} {n a w x y z : Nat} (ha : a < n)
    (hat : g a + x ≤ f a + y) (hothers : ∀ t, t ≠ a → g t ≤ f t + if t = w then z else 0) :
    ∑ t ∈ Finset.range n, g t + x ≤ ∑ t ∈ Finset.range n, f t + y + z := by
  have hmem := Finset.mem_range.mpr ha
  have hle : ∑ t ∈ (Finset.range n).erase a, g t ≤
      ∑ t ∈ (Finset.range n).erase a, (f t + if t = w then z else 0) :=
    Finset.sum_le_sum fun t ht ↦ hothers t (Finset.ne_of_mem_erase ht)
  have hone : ∑ t ∈ (Finset.range n).erase a, (if t = w then z else 0) ≤ z := by
    rw [Finset.sum_ite_eq']
    split
    · exact Nat.le_refl z
    · exact Nat.zero_le z
  rw [Finset.sum_add_distrib] at hle
  have hg := Finset.add_sum_erase _ g hmem
  have hf := Finset.add_sum_erase _ f hmem
  omega

private theorem Kont.cost_le (k : Kont α) (b b' : Bool) : k.cost b' ≤ k.cost b + 3 := by
  cases k <;> cases b <;> cases b' <;> simp [Kont.cost]

/-- Only a waiting context costs more when its task wakes up. -/
theorem Sys.costAt_le {t : TaskHandle} (hk : s'.kont t = s.kont t)
    (h : ∀ p, s.waitsOn t = some p → s'.awake t = true → s.awake t = true) :
    s'.costAt t ≤ s.costAt t := by
  unfold Sys.costAt
  rw [hk]
  cases hc : s.kont t with
  | lockWait | takeWait | sendWait | recvWait | bitsWait =>
    have hawake := h _ (congrArg Kont.waitsOn hc)
    cases hb : s'.awake t with
    | true => rw [hawake hb]
    | false => cases s.awake t <;> simp [Kont.cost]
  | _ => exact Nat.le_refl _

/-- The executing context gets to another point, and at most one other task wakes up. -/
theorem Sys.potential_le {k : Kont α} {w x y z : Nat} (hs : SchedInv s) (hp : s.phase = .code)
    (hkont : s'.kont = Function.update s.kont s.me k)
    (hme : k.cost (s'.awake s.me) + s'.phase.cost + x ≤ s.costAt s.me + y)
    (hothers : ∀ t, t ≠ s.me → s'.costAt t ≤ s.costAt t + if t = w then z else 0) :
    s'.potential + x ≤ s.potential + y + z := by
  have hlt : s.me < invalidTask + 1 := by
    by_cases hm : s.me = invalidTask
    · rw [hm]
      exact Nat.lt_succ_self _
    · exact Nat.lt_of_lt_of_le (hs.me_lt hm) (Nat.le_trans hs.taskCount_le (by decide))
  have hat : s'.costAt s.me + (s'.phase.cost + x) ≤ s.costAt s.me + y := by
    rw [Sys.costAt, hkont, Function.update_self]
    omega
  have hsum := sum_le_of_point hlt hat hothers
  unfold Sys.potential
  rw [hp]
  show _ ≤ _ + 0 + y + z
  omega

end Costs

/-! ### Steps -/

section Steps

variable {D : Dispatcher} {s s' : Sys α} {a : Act α}

/-- A task that waits and has not been woken is owed its wake-up. -/
theorem RunInv.awake_of_spared (hr : RunInv s) (hsp : Spared s s') {t : TaskHandle} (p : Prim)
    (hw : s.waitsOn t = some p) (ht : s'.awake t = true) : s.awake t = true := by
  by_contra hn
  have hstate : s.state t = .blocked := by
    have hlive := hr.undisturbed.live t (Kont.waiting_of_waitsOn hw)
    have hnot : ¬ (s.state t = .ready ∨ s.state t = .running) := fun h ↦ hn (decide_eq_true h)
    cases hst : s.state t with
    | blocked => rfl
    | ready => exact absurd (.inl hst) hnot
    | running => exact absurd (.inr hst) hnot
    | suspended => exact absurd hst hlive.1
    | deleted => exact absurd hst hlive.2
  have hidle := hsp p t (hr.wait.blocked p t hw hstate)
  rcases of_decide_eq_true ht with h | h
  · exact hidle.1 h
  · exact hidle.2 h

private theorem Sys.awake_congr {t : TaskHandle} (h : s'.state t = s.state t) :
    s'.awake t = s.awake t := by
  rw [Sys.awake, Sys.awake, h]

/-- The executing context just gets to another point. -/
theorem Sys.potential_setKont (hs : SchedInv s) (hp : s.phase = .code) (k : Kont α) :
    (s.setKont k).potential + s.costAt s.me ≤ s.potential + k.cost (s.awake s.me) := by
  have hothers : ∀ t, t ≠ s.me →
      (s.setKont k).costAt t ≤ s.costAt t + if t = s.me then 0 else 0 := by
    intro t ht
    rw [ite_self]
    exact Sys.costAt_le (Function.update_of_ne ht _ _) fun _ _ hb ↦ hb
  have hme : k.cost ((s.setKont k).awake s.me) + (s.setKont k).phase.cost + s.costAt s.me ≤
      s.costAt s.me + k.cost (s.awake s.me) := by
    have hphase : (s.setKont k).phase.cost = 0 := congrArg Phase.cost hp
    rw [hphase, Nat.add_zero, Nat.add_comm]
    exact Nat.le_refl _
  have hkont : (s.setKont k).kont = Function.update s.kont s.me k := rfl
  have hle := Sys.potential_le hs hp hkont hme hothers
  rwa [Nat.add_zero] at hle

/-- A call or a test of a loop: it blocks the task, or leaves it at a point where it does not wait
and wakes up at most one other task. -/
theorem Effect.potential_le (he : Effect D s a s') (hr : RunInv s) (had : Addressed s a)
    (hp : s.phase = .code) {k : Kont α} (hkont : s'.kont = Function.update s.kont s.me k)
    (hleads : a.Leads s k) :
    (k.waitsOn = none ∧ s'.potential + s.costAt s.me ≤ s.potential + k.cost true + 4) ∨
      s'.potential + s.costAt s.me ≤ s.potential + 4 := by
  have hk : ∀ {k' : Kont α}, s'.kont = Function.update s.kont s.me k' → k' = k := by
    intro k' hk'
    have hat := congrFun (hk'.symm.trans hkont) s.me
    rwa [Function.update_self, Function.update_self] at hat
  have hstays : ∀ t, t ≠ s.me → s'.kont t = s.kont t := by
    intro t ht
    rw [hkont, Function.update_of_ne ht]
  -- nobody else wakes up
  have hcalm : (∀ t, t ≠ s.me → ∀ p, s.waitsOn t = some p → s'.awake t = true →
      s.awake t = true) → ∀ y, k.cost (s'.awake s.me) + s'.phase.cost ≤ y →
        s'.potential + s.costAt s.me ≤ s.potential + y := by
    intro hawake y hy
    have hothers : ∀ t, t ≠ s.me → s'.costAt t ≤ s.costAt t + if t = s.me then 0 else 0 := by
      intro t ht
      rw [ite_self]
      exact Sys.costAt_le (hstays t ht) (hawake t ht)
    have hme : k.cost (s'.awake s.me) + s'.phase.cost + s.costAt s.me ≤ s.costAt s.me + y := by
      omega
    have hle := Sys.potential_le hr.sched hp hkont hme hothers
    rwa [Nat.add_zero] at hle
  have hcost : ∀ b, k.waitsOn = none → k.cost b = k.cost true := by
    intro b hnone
    cases k <;> first | rfl | cases hnone
  have hphase : s'.phase.cost ≤ 1 := by
    cases s'.phase <;> decide
  cases he with
  | quiet k' h hnone hsched hp' =>
    obtain rfl := hk h.kont
    refine .inl ⟨hnone, ?_⟩
    rw [Nat.add_assoc]
    refine hcalm (fun t _ p _ hb ↦ ?_) (k'.cost true + 4) ?_
    · rwa [Sys.awake_congr (congrArg (fun v : Scheduler ↦ (v.tasks t).state) hsched)] at hb
    · rw [hcost _ hnone]
      omega
  | block p k' ho h hwait hsched hp' =>
    obtain rfl := hk h.kont
    have hself : s'.awake s.me = false := by
      rw [Sys.awake, Sys.state, hsched, state_setState, if_pos rfl]
      rfl
    refine .inr (hcalm (fun t ht q _ hb ↦ ?_) 4 ?_)
    · have hsame : s'.state t = s.state t := by
        rw [Sys.state, hsched, state_setState, if_neg ht]
        rfl
      rwa [Sys.awake_congr hsame] at hb
    · rw [hself]
      cases k' <;> first | exact Nat.add_le_add_left hphase 3 | cases hwait
  | wake p w i k' ho h hnone hsched hp' hi hw =>
    obtain rfl := hk h.kont
    refine .inl ⟨hnone, ?_⟩
    have hothers : ∀ t, t ≠ s.me → s'.costAt t ≤ s.costAt t + if t = w then 3 else 0 := by
      intro t ht
      split
      · unfold Sys.costAt
        rw [hstays t ht]
        exact Kont.cost_le _ _ _
      · next htw =>
        refine Sys.costAt_le (hstays t ht) fun q _ hb ↦ ?_
        have hsame : s'.state t = s.state t := by
          rw [Sys.state, hsched]
          exact state_unblock_other s.sched (fun h ↦ absurd h htw) fun h ↦ absurd h ht
        rwa [Sys.awake_congr hsame] at hb
    have hme : k'.cost (s'.awake s.me) + s'.phase.cost + s.costAt s.me ≤
        s.costAt s.me + (k'.cost true + 1) := by
      rw [hcost _ hnone]
      omega
    have hle := Sys.potential_le hr.sched hp hkont hme hothers
    omega
  | api op ha ho hp' hi hu heq =>
    have hnone : k.waitsOn = none ∧ k.cost true ≤ 1 := by
      subst ha
      rcases hleads.2 with rfl | he
      · exact ⟨rfl, Nat.zero_le 1⟩
      · cases op with
        | vTaskDelay n =>
          rw [show k = .delayed from he]
          exact ⟨rfl, Nat.le_refl 1⟩
        | taskReturn =>
          rw [show k = .exited from he]
          exact ⟨rfl, Nat.zero_le 1⟩
        | _ => first | exact he.elim | exact ho.elim
    refine .inl ⟨hnone.1, ?_⟩
    rw [Nat.add_assoc]
    refine hcalm (fun t _ p hw hb ↦ ?_) (k.cost true + 4) ?_
    · exact hr.awake_of_spared (hr.undisturbed.spared_api hr.sched hr.wait ho hu) p hw (heq ▸ hb)
    · rw [hcost _ hnone.1]
      omega
  | dispatch ha hp' => exact absurd hp hp'

/-- A dispatch is paid by itself. -/
theorem Step.potential_dispatch (h : Step D s .dispatch s') (hr : RunInv s) :
    s'.potential + 1 ≤ s.potential := by
  cases h with
  | @dispatch sched hp hd =>
    have hsp := hr.undisturbed.spared_dispatch hr.wait (D.sound _ _ _ hd)
    have hsum : ∑ t ∈ Finset.range (invalidTask + 1),
        ({ s with sched := sched, phase := .code } : Sys α).costAt t ≤
          ∑ t ∈ Finset.range (invalidTask + 1), s.costAt t :=
      Finset.sum_le_sum fun t _ ↦ Sys.costAt_le rfl fun p hw hb ↦ hr.awake_of_spared hsp p hw hb
    have hphase : s.phase.cost = 1 := by
      cases hc : s.phase with
      | code => exact absurd hc hp
      | scheduleFrom | afterDelete => rfl
    have hcode : ({ s with sched := sched, phase := .code } : Sys α).phase.cost = 0 := rfl
    unfold Sys.potential
    rw [hphase, hcode]
    omega

/-- A context that goes on pays for it. -/
theorem Step.potential_resume (h : Step D s .resume s') (hr : RunInv s) (ho : OutsideEvents s) :
    s'.potential + 1 ≤ s.potential := by
  have he := h.effect hr.sched.outside trivial
  obtain ⟨k, hleads, hkont⟩ := h.leads hr.sched.fresh
  cases h with
  | resume hp hres =>
    have hm : s.me ≠ invalidTask := fun hm ↦ by
      rw [hr.sched.outside hm] at hres
      exact hres
    have hawake : s.awake s.me = true := decide_eq_true (.inr (hr.sched.running_me hp hm))
    have hset : ∀ k₀ k' : Kont α, s.kont s.me = k₀ → k'.cost true + 1 ≤ k₀.cost true →
        (s.setKont k').potential + 1 ≤ s.potential := by
      intro k₀ k' hk hcost
      have hle := s.potential_setKont hr.sched hp k'
      rw [Sys.costAt, hawake, hk] at hle
      omega
    have htest := he.potential_le hr (ho.addressed _) hp hkont hleads
    rw [Sys.costAt, hawake] at htest
    simp only [Act.Leads] at hleads
    cases hc : s.kont s.me with
    | user | exited =>
      rw [hc] at hres
      exact hres.elim
    | delayed => exact hset _ .user hc (Nat.le_refl 1)
    | lockWait m => exact hset _ .user hc (by simp [Kont.cost])
    | takeWait i => exact hset _ .user hc (by simp [Kont.cost])
    | sendWait q item => exact hset _ (.sendTest q item) hc (by simp [Kont.cost])
    | recvWait q => exact hset _ (.recvTest q) hc (by simp [Kont.cost])
    | sendTest q item | recvTest q =>
      rw [hc] at hleads htest
      rcases htest with ⟨hnone, hle⟩ | hle
      · rcases hleads with rfl | rfl
        · simp only [Kont.cost] at hle
          omega
        · cases hnone
      · simp only [Kont.cost] at hle
        omega
    | bitsWait e | bitsTest e | checkTest e | checkCompact e =>
      exact absurd (congrArg Kont.obj hc) (ho s.me e)

/-- A call pays for at most five steps. -/
theorem Step.potential_call {op : Op α} (h : Step D s (.call op) s') (hr : RunInv s)
    (ho : OutsideEvents s) (hg : PlainDisciplined s (.call op)) :
    s'.potential ≤ s.potential + 5 := by
  have he := h.effect hr.sched.outside hg.1.1
  obtain ⟨k, hleads, hkont⟩ := h.leads hr.sched.fresh
  cases h with
  | call hp hu hi =>
    have htest := he.potential_le hr (ho.addressed _) hp hkont hleads
    rcases htest with ⟨hnone, hle⟩ | hle
    · rcases hleads.2 with rfl | henters
      · simp only [Kont.cost] at hle
        omega
      · have hset : ∀ k' : Kont α, k'.cost (s.awake s.me) = 5 →
            (s.setKont k').potential ≤ s.potential + 5 := by
          intro k' hk'
          have hle := s.potential_setKont hr.sched hp k'
          omega
        cases op with
        | send q item => exact hset (.sendTest q item) rfl
        | receive q => exact hset (.recvTest q) rfl
        | vTaskDelay n =>
          rw [show k = .delayed from henters] at hle
          simp only [Kont.cost] at hle
          omega
        | taskReturn =>
          rw [show k = .exited from henters] at hle
          simp only [Kont.cost] at hle
          omega
        | lock m =>
          rw [show k = .lockWait m from henters] at hnone
          cases hnone
        | take i =>
          rw [show k = .takeWait i from henters] at hnone
          cases hnone
        | setBits e | waitBits e => exact absurd rfl (hg.2 e)
        | _ => exact henters.elim
    · omega

end Steps

/-! ### Runs -/

/-- A step of a context at its own code. -/
def Act.IsCall : Act α → Prop
  | .call _ => True
  | .resume | .dispatch => False

instance : DecidablePred (Act.IsCall : Act α → Prop) := fun a ↦
  match a with
  | .call _ => .isTrue trivial
  | .resume | .dispatch => .isFalse id

/-- A call is a call. -/
theorem Act.isCall_call (op : Op α) : (Act.call op).IsCall := trivial

private theorem Act.not_isCall_resume : ¬ (Act.resume : Act α).IsCall := id

private theorem Act.not_isCall_dispatch : ¬ (Act.dispatch : Act α).IsCall := id

/-- What a step does to the potential. -/
theorem Step.potential_le {D : Dispatcher} {s s' : Sys α} {a : Act α} (h : Step D s a s')
    (hr : RunInv s) (ho : OutsideEvents s) (hg : PlainDisciplined s a) :
    s'.potential + (if a.IsCall then 0 else 1) ≤ s.potential + if a.IsCall then 5 else 0 := by
  cases a with
  | call op =>
    rw [if_pos (Act.isCall_call op), if_pos (Act.isCall_call op)]
    have hle := h.potential_call hr ho hg
    omega
  | resume =>
    rw [if_neg Act.not_isCall_resume, if_neg Act.not_isCall_resume]
    have hle := h.potential_resume hr ho
    omega
  | dispatch =>
    rw [if_neg Act.not_isCall_dispatch, if_neg Act.not_isCall_dispatch]
    have hle := h.potential_dispatch hr
    omega

/-- No context is inside an event group in such a run. -/
theorem outsideEvents_of_reach [Inhabited α] {D : Dispatcher} {s : Sys α}
    (h : Reach IsInit PlainDisciplined (Step D) s) : OutsideEvents s := by
  refine h.invariant_of (fun _ ↦ runInv_of_reach) ?_ ?_
  · rintro s ⟨cfg, rfl⟩
    exact fun _ _ ↦ nofun
  · exact fun s a t hr _ ho hg hst ↦ ho.step hr.sched hg.2 hst

/-- Nothing is left to do at the start. -/
theorem potential_init [Inhabited α] (cfg : Config) : (Sys.init cfg : Sys α).potential = 0 := by
  have hsum : ∑ t ∈ Finset.range (invalidTask + 1), (Sys.init cfg : Sys α).costAt t = 0 :=
    Finset.sum_eq_zero fun _ _ ↦ rfl
  rw [Sys.potential, hsum]
  rfl

/-- In every run of a program without event groups the kernel takes at most five steps of its own
for each call, in every order of scheduling: no two tasks can keep each other waking up and
blocking again. -/
theorem kernel_steps_le [Inhabited α] (D : Dispatcher) (n : Nat) (states : Nat → Sys α)
    (labels : Nat → Act α) (h : IsRun IsInit PlainDisciplined (Step D) n states labels) :
    (List.range n).countP (fun i ↦ ¬ (labels i).IsCall) ≤
      5 * (List.range n).countP fun i ↦ (labels i).IsCall := by
  have hbound : ∀ m ≤ n, (List.range m).countP (fun i ↦ ¬ (labels i).IsCall) +
      (states m).potential ≤ 5 * (List.range m).countP fun i ↦ (labels i).IsCall := by
    intro m hm
    induction m with
    | zero =>
      obtain ⟨cfg, hinit⟩ := h.start
      rw [hinit, potential_init]
      exact Nat.le_refl 0
    | succ m ih =>
      have hle := ih (Nat.le_of_succ_le hm)
      have hreach := h.reach (Nat.le_of_succ_le hm)
      have hstep := (h.next m hm).potential_le (runInv_of_reach hreach)
        (outsideEvents_of_reach hreach) (h.guarded m hm)
      simp only [List.range_succ, List.countP_append, List.countP_singleton, decide_eq_true_eq]
      split_ifs at hstep ⊢ <;> omega
  exact Nat.le_trans (Nat.le_add_right _ _) (hbound n (Nat.le_refl n))

/-- A task sends twice to a queue with one slot. Another one takes the first item, which wakes up
the sender and lets it preempt. -/
def crowdedRun : List (Act Unit) :=
  [.call (.xTaskCreate 1), .call (.xTaskCreate 2), .call .vTaskStartScheduler, .call (.send 0 ()),
    .resume, .call (.send 0 ()), .resume, .dispatch, .call (.receive 0), .resume, .dispatch,
    .resume, .resume]

private theorem crowdedRun_isSome : (runActs Sys.exec crowdedRun (.init {})).isSome = true := by
  decide +kernel

private theorem isRun_crowded : IsRun IsInit PlainDisciplined (Step .code) 13
    (stateAt Sys.exec crowdedRun (.init {})) fun i ↦ crowdedRun.getD i .dispatch :=
  IsRun.of_guardedRun Step.of_exec crowdedRun .dispatch ⟨{}, rfl⟩ (by decide +kernel)
    crowdedRun_isSome

/-- Six calls, and seven steps of the kernel. -/
theorem kernel_steps_le_crowded :
    (List.range 13).countP (fun i ↦ (crowdedRun.getD i .dispatch).IsCall) = 6 ∧
      (List.range 13).countP (fun i ↦ ¬ (crowdedRun.getD i .dispatch).IsCall) ≤
        5 * (List.range 13).countP fun i ↦ (crowdedRun.getD i .dispatch).IsCall :=
  ⟨by decide +kernel, kernel_steps_le .code 13 _ _ isRun_crowded⟩

end McuSimulator.Rtos
