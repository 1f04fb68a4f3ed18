import McuSimulator.Rtos.Discipline

/-!
# Conservation of units

Units of a semaphore are counted over the log: the gives, the gives that found the count
saturated and no waiter, the units taken from the count, and the units handed to a waiter.
What one step can do to a semaphore is `SemStep`; each of its cases keeps the balance.
-/

namespace McuSimulator.Rtos

open McuSimulator.Base

variable {α : Type}

/-! ### Counting over the log -/

/-- A `give` on the semaphore. -/
def Event.isGave (i : Nat) : Event α → Bool
  | .gave i' _ _ => i' = i
  | _ => false

/-- A `give` that found no waiter and the count at its maximum. -/
def Event.isSaturated (i : Nat) (maxCount : Int) : Event α → Bool
  | .gave i' waiters count => i' = i ∧ waiters = 0 ∧ count = maxCount
  | _ => false

/-- A unit taken: from the count, or handed to a waiter. -/
def Event.isTaken (i : Nat) : Event α → Bool
  | .took i' _ | .handedOff i' _ => i' = i
  | _ => false

def gives (i : Nat) (log : List (Event α)) : Nat := log.countP (Event.isGave i)

def saturations (i : Nat) (maxCount : Int) (log : List (Event α)) : Nat :=
  log.countP (Event.isSaturated i maxCount)

def taken (i : Nat) (log : List (Event α)) : Nat := log.countP (Event.isTaken i)

section Count

private theorem gives_cons (i : Nat) (x : Event α) (l : List (Event α)) :
    gives i (x :: l) = gives i l + if x.isGave i then 1 else 0 :=
  List.countP_cons

private theorem saturations_cons (i : Nat) (n : Int) (x : Event α) (l : List (Event α)) :
    saturations i n (x :: l) = saturations i n l + if x.isSaturated i n then 1 else 0 :=
  List.countP_cons

private theorem taken_cons (i : Nat) (x : Event α) (l : List (Event α)) :
    taken i (x :: l) = taken i l + if x.isTaken i then 1 else 0 :=
  List.countP_cons

variable {i : Nat} {es l : List (Event α)} {f : Event α → Bool}

/-- Events about other objects are not counted. -/
private theorem countP_append_of_obj (hf : ∀ x : Event α, x.obj ≠ .sem i → f x = false)
    (h : ∀ x ∈ es, x.obj ≠ .sem i) : (es ++ l).countP f = l.countP f := by
  rw [List.countP_append, List.countP_eq_zero.mpr, Nat.zero_add]
  intro x hx
  rw [hf x (h x hx)]
  simp

private theorem isGave_of_obj (x : Event α) (h : x.obj ≠ .sem i) : x.isGave i = false := by
  cases x with
  | gave i' w c =>
    have hne : i' ≠ i := fun he ↦ h (by rw [he]; rfl)
    simp [Event.isGave, hne]
  | _ => rfl

private theorem isSaturated_of_obj (n : Int) (x : Event α) (h : x.obj ≠ .sem i) :
    x.isSaturated i n = false := by
  cases x with
  | gave i' w c =>
    have hne : i' ≠ i := fun he ↦ h (by rw [he]; rfl)
    simp [Event.isSaturated, hne]
  | _ => rfl

private theorem isTaken_of_obj (x : Event α) (h : x.obj ≠ .sem i) : x.isTaken i = false := by
  cases x with
  | took i' t =>
    have hne : i' ≠ i := fun he ↦ h (by rw [he]; rfl)
    simp [Event.isTaken, hne]
  | handedOff i' t =>
    have hne : i' ≠ i := fun he ↦ h (by rw [he]; rfl)
    simp [Event.isTaken, hne]
  | _ => rfl

end Count

/-! ### Steps on a semaphore -/

/-- What one step can do to a semaphore. -/
inductive SemStep (i : Nat) (s s' : Sys α) : Prop
  | frame (hm : s'.sem i = s.sem i)
      (hlog : ∃ es, s'.log = es ++ s.log ∧ ∀ x ∈ es, x.obj ≠ .sem i)
  | take (hc : 0 < (s.sem i).count)
      (hm : s'.sem i = { s.sem i with count := (s.sem i).count - 1 })
      (hlog : s'.log = .took i s.me :: s.log)
  | wait (hc : (s.sem i).count ≤ 0)
      (hm : s'.sem i = { s.sem i with waiters := register (s.sem i).waiters s.me })
      (hlog : s'.log = .blocked (.sem i) s.me :: s.log)
  | handOff (hw : (s.sem i).waiters ≠ []) (b : Nat) (w : TaskHandle)
      (hm : s'.sem i = { s.sem i with waiters := swapRemove (s.sem i).waiters b })
      (hlog : s'.log = .unblock (.sem i) w :: .handedOff i w ::
        .gave i (s.sem i).waiters.length (s.sem i).count :: s.log)
  | add (hw : (s.sem i).waiters = []) (hc : (s.sem i).count < (s.sem i).maxCount)
      (hm : s'.sem i = { s.sem i with count := (s.sem i).count + 1 })
      (hlog : s'.log = .gave i 0 (s.sem i).count :: s.log)
  | saturate (hw : (s.sem i).waiters = []) (hc : (s.sem i).maxCount ≤ (s.sem i).count)
      (hm : s'.sem i = s.sem i) (hlog : s'.log = .gave i 0 (s.sem i).count :: s.log)

section Steps

variable {D : Dispatcher} {s s' : Sys α} {a : Act α}

private theorem take_semStep (i : Nat) (hm : s.me ≠ invalidTask) : SemStep i s (s.take i) := by
  unfold Sys.take
  split
  · next hc => exact .take hc (by simp [Sys.setSem, Sys.emit]) rfl
  · next hc =>
    have hb := blockCurrent_eq (u := s.setSem i { s.sem i with
      waiters := register (s.sem i).waiters s.me }) hm (.sem i) (.takeWait i)
    rw [hb]
    exact .wait (Int.not_lt.mp hc) (by simp [Sys.setSem]) rfl

private theorem tryTake_semStep (i : Nat) : SemStep i s (s.tryTake i) := by
  unfold Sys.tryTake
  split
  · exact .frame rfl ⟨[], rfl, by simp⟩
  · next hc => exact .take (Int.not_le.mp hc) (by simp [Sys.setSem, Sys.emit]) rfl

private theorem give_semStep (i : Nat) : SemStep i s (s.give i) := by
  unfold Sys.give
  dsimp only
  split
  · next hl =>
    have hne : (s.sem i).waiters ≠ [] := List.ne_nil_of_length_pos hl
    exact .handOff hne _ _
      (by simp [Sys.unblockFor, Sys.continueWith, Sys.setSem, Sys.emit]; rfl) rfl
  · next hl =>
    have hw : (s.sem i).waiters = [] :=
      List.eq_nil_of_length_eq_zero (Nat.eq_zero_of_not_pos hl)
    split
    · next hc =>
      exact .add hw hc (by simp [Sys.setSem, Sys.emit]) (by simp [Sys.setSem, Sys.emit, hw])
    · next hc => exact .saturate hw (Int.not_lt.mp hc) rfl (by simp [Sys.emit, hw])

/-- Every step does one of these to a semaphore. -/
theorem Step.semStep (h : Step D s a s') (hg : TasksOnly s a) (i : Nat) : SemStep i s s' := by
  have hf := h.sameBut
  by_cases ho : a.obj s = some (.sem i)
  · cases h with
    | @call op hp hk hi =>
      cases op with
      | take i' =>
        rw [Obj.sem.inj (Option.some.inj ho)]
        exact take_semStep i fun hm ↦ hg hm
      | give i' =>
        rw [Obj.sem.inj (Option.some.inj ho)]
        exact give_semStep i
      | tryTake i' =>
        rw [Obj.sem.inj (Option.some.inj ho)]
        exact tryTake_semStep i
      | _ => cases ho
    | resume hp hk =>
      simp only [Act.obj] at ho
      cases hc : s.kont s.me with
      | takeWait i' => exact .frame rfl ⟨[], rfl, by simp⟩
      | _ =>
        rw [hc] at ho
        cases ho
    | dispatch => cases ho
  · refine .frame (hf.sem i ho) ?_
    obtain ⟨es, he, hes⟩ := hf.log
    exact ⟨es, he, fun x hx hxm ↦ ho ((hes x hx).trans (by rw [hxm]))⟩

end Steps

/-! ### Conservation -/

/-- The balance of a semaphore constructed with the given counts. -/
structure SemInv (i : Nat) (initialCount maxCount : Int) (s : Sys α) : Prop where
  max_eq : (s.sem i).maxCount = maxCount
  nonneg : 0 ≤ (s.sem i).count
  le_max : (s.sem i).count ≤ maxCount
  waiting : (s.sem i).waiters ≠ [] → (s.sem i).count = 0
  balance : (s.sem i).count + taken i s.log =
    initialCount + gives i s.log - saturations i maxCount s.log

private theorem SemInv.step {i : Nat} {n m : Int} {s s' : Sys α} (h : SemInv i n m s)
    (hst : SemStep i s s') : SemInv i n m s' := by
  have hb := h.balance
  cases hst with
  | frame hm hlog =>
    obtain ⟨es, he, hes⟩ := hlog
    refine ⟨hm ▸ h.max_eq, hm ▸ h.nonneg, hm ▸ h.le_max, hm ▸ h.waiting, ?_⟩
    simp only [taken, gives, saturations, he, hm]
    rw [countP_append_of_obj isTaken_of_obj hes, countP_append_of_obj isGave_of_obj hes,
      countP_append_of_obj (isSaturated_of_obj m) hes]
    exact hb
  | take hc hm hlog =>
    have hmax := h.le_max
    refine ⟨hm ▸ h.max_eq, ?_, ?_, fun hw ↦ ?_, ?_⟩
    · rw [hm]
      show (0 : Int) ≤ (s.sem i).count - 1
      omega
    · rw [hm]
      show (s.sem i).count - 1 ≤ m
      omega
    · rw [hm] at hw
      have := h.waiting hw
      omega
    · rw [hm, hlog, taken_cons, gives_cons, saturations_cons]
      simp only [Event.isTaken, Event.isGave, Event.isSaturated, decide_true, if_true,
        Bool.false_eq_true, if_false]
      omega
  | wait hc hm hlog =>
    have h0 : (s.sem i).count = 0 := Int.le_antisymm hc h.nonneg
    refine ⟨hm ▸ h.max_eq, hm ▸ h.nonneg, hm ▸ h.le_max, fun _ ↦ hm ▸ h0, ?_⟩
    rw [hm, hlog, taken_cons, gives_cons, saturations_cons]
    exact hb
  | handOff hw b w hm hlog =>
    have hlen : (s.sem i).waiters.length ≠ 0 := fun h0 ↦ hw (List.eq_nil_of_length_eq_zero h0)
    refine ⟨hm ▸ h.max_eq, hm ▸ h.nonneg, hm ▸ h.le_max, fun _ ↦ hm ▸ h.waiting hw, ?_⟩
    simp only [hm, hlog, taken_cons, gives_cons, saturations_cons]
    simp only [Event.isTaken, Event.isGave, Event.isSaturated, decide_true, if_true,
      Bool.false_eq_true, if_false, hlen, false_and, and_false, decide_false]
    omega
  | add hw hc hm hlog =>
    have hmax := h.max_eq
    have hn := h.nonneg
    have hne : (s.sem i).count ≠ m := by omega
    refine ⟨hm ▸ h.max_eq, ?_, ?_, fun hne ↦ ?_, ?_⟩
    · rw [hm]
      show (0 : Int) ≤ (s.sem i).count + 1
      omega
    · rw [hm]
      show (s.sem i).count + 1 ≤ m
      omega
    · rw [hm] at hne
      exact absurd hw hne
    · rw [hm, hlog, taken_cons, gives_cons, saturations_cons]
      simp only [Event.isTaken, Event.isGave, Event.isSaturated, decide_true, if_true,
        Bool.false_eq_true, if_false, hne, and_false, decide_false]
      omega
  | saturate hw hc hm hlog =>
    have heq : (s.sem i).count = m := by
      have hmax := h.max_eq
      have hle := h.le_max
      omega
    refine ⟨hm ▸ h.max_eq, hm ▸ h.nonneg, hm ▸ h.le_max, hm ▸ h.waiting, ?_⟩
    rw [hm, hlog, taken_cons, gives_cons, saturations_cons]
    simp only [Event.isTaken, Event.isGave, Event.isSaturated, decide_true, if_true,
      Bool.false_eq_true, if_false, heq, and_self]
    omega

/-- Waiting at a semaphore is waiting inside its `take`. -/
theorem Kont.eq_takeWait {i : Nat} {k : Kont α} (h : k.waitsOn = some (.sem i)) :
    k = .takeWait i := by
  cases k <;> cases h
  rfl

/-- A task blocked in `take` is listed, and only those are. -/
theorem RunInv.blocked_in_take {s : Sys α} (h : RunInv s) (i : Nat) (t : TaskHandle) :
    s.kont t = .takeWait i ∧ s.state t = .blocked ↔ t ∈ (s.sem i).waiters := by
  refine Iff.trans ?_ (h.mem_waitList_iff (p := .sem i) rfl t).symm
  exact and_congr_left' ⟨fun hk ↦ by rw [Sys.waitsOn, hk]; rfl, Kont.eq_takeWait⟩

/-- Conservation of units, in every order of scheduling. -/
theorem semaphore_conservation [Inhabited α] (D : Dispatcher) (cfg : Config) (i : Nat)
    (h0 : 0 ≤ cfg.semInitial i) (hmax : cfg.semInitial i ≤ cfg.semMax i) (s : Sys α)
    (h : Reach (· = .init cfg) PlainDisciplined (Step D) s) :
    (s.sem i).count + taken i s.log =
      cfg.semInitial i + gives i s.log - saturations i (cfg.semMax i) s.log ∧
    0 ≤ (s.sem i).count ∧ (s.sem i).count ≤ (s.sem i).maxCount ∧
    (s.sem i).maxCount = cfg.semMax i ∧
    (∀ t, s.kont t = .takeWait i → s.state t = .blocked → (s.sem i).count = 0) ∧
    (s.sem i).waiters.Nodup ∧
    (∀ t, s.kont t = .takeWait i ∧ s.state t = .blocked ↔ t ∈ (s.sem i).waiters) := by
  have hr : RunInv s := runInv_of_init h
  have hi : SemInv i (cfg.semInitial i) (cfg.semMax i) s := by
    refine h.invariant ?_ ?_
    · rintro s rfl
      refine ⟨rfl, h0, hmax, fun hw ↦ absurd rfl hw, ?_⟩
      simp [taken, gives, saturations, Sys.init]
    · intro s a t hi hg hst
      exact hi.step (hst.semStep hg.1.1 i)
  refine ⟨hi.balance, hi.nonneg, hi.max_eq ▸ hi.le_max, hi.max_eq, fun t hk hb ↦ ?_,
    hr.wait.nodup (.sem i), hr.blocked_in_take i⟩
  exact hi.waiting (List.ne_nil_of_mem ((hr.blocked_in_take i t).mp ⟨hk, hb⟩))

/-- A semaphore of maximum 1: a `give` that saturates, a `take` from the count, a `take` that
waits, and a `give` that is handed to the waiter and preempted by it. -/
def saturateRun : List (Act Unit) :=
  [.call (.xTaskCreate 1), .call .vTaskStartScheduler, .call (.give 0), .call (.give 0),
    .call (.take 0), .call (.xTaskCreate 5), .call (.take 0), .dispatch, .call (.give 0)]

/-- One unit at most, none at the start. -/
def binarySemaphores : Config := { semMax := fun _ ↦ 1 }

private theorem saturateRun_isSome :
    (runActs Sys.exec saturateRun (.init binarySemaphores)).isSome = true := by
  decide +kernel

/-- The state in the middle of the last `give`. -/
def saturateEnd : Sys Unit :=
  (runActs Sys.exec saturateRun (.init binarySemaphores)).get saturateRun_isSome

/-- Three gives, of which one saturates, one is taken from the count and one is handed on. -/
theorem semaphore_conservation_saturate :
    gives 0 saturateEnd.log = 3 ∧ saturations 0 1 saturateEnd.log = 1 ∧
    (saturateEnd.sem 0).count + taken 0 saturateEnd.log =
      binarySemaphores.semInitial 0 + gives 0 saturateEnd.log -
        saturations 0 (binarySemaphores.semMax 0) saturateEnd.log :=
  ⟨by decide +kernel, by decide +kernel,
    (semaphore_conservation .code binarySemaphores 0 (by decide) (by decide) saturateEnd
      (Reach.of_guardedRun Step.of_exec saturateRun (by rfl) (by decide +kernel)
        saturateRun_isSome)).1⟩

end McuSimulator.Rtos
