import Mathlib.Logic.Function.Basic

/-!
# Guarded transition systems

Reachability of a labelled transition relation whose labels are restricted, in each
state, by a guard: the guard is what the callers of a component promise. An invariant is
proved once for a step and carried to every reachable state by `Reach.invariant`.
-/

namespace McuSimulator.Base

universe u v

variable {σ : Type u} {α : Type v}

/-- States reached from an initial one by steps whose labels satisfy the guard where they
are taken. -/
inductive Reach (init : σ → Prop) (guard : σ → α → Prop) (step : σ → α → σ → Prop) : σ → Prop
  | start {s : σ} (h : init s) : Reach init guard step s
  | next {s t : σ} {a : α} (hs : Reach init guard step s) (hg : guard s a) (ht : step s a t) :
      Reach init guard step t

variable {init init' : σ → Prop} {guard guard' : σ → α → Prop} {step : σ → α → σ → Prop}

namespace Reach

/-- An initial and preserved property holds of every reachable state. -/
theorem invariant {inv : σ → Prop} (h0 : ∀ s, init s → inv s)
    (hs : ∀ s a t, inv s → guard s a → step s a t → inv t) {s : σ}
    (h : Reach init guard step s) : inv s := by
  induction h with
  | start h => exact h0 _ h
  | next _ hg ht ih => exact hs _ _ _ ih hg ht

/-- A preserved property may rely on another one already known of the reachable states. -/
theorem invariant_of {known inv : σ → Prop} (hk : ∀ s, Reach init guard step s → known s)
    (h0 : ∀ s, init s → inv s)
    (hs : ∀ s a t, known s → known t → inv s → guard s a → step s a t → inv t) {s : σ}
    (h : Reach init guard step s) : inv s := by
  induction h with
  | start h => exact h0 _ h
  | next hr hg ht ih => exact hs _ _ _ (hk _ hr) (hk _ (hr.next hg ht)) ih hg ht

/-- More initial states and a weaker guard reach more. -/
theorem mono (h0 : ∀ s, init s → init' s) (hg : ∀ s a, guard s a → guard' s a) {s : σ}
    (h : Reach init guard step s) : Reach init' guard' step s := by
  induction h with
  | start h => exact .start (h0 _ h)
  | next _ ha ht ih => exact ih.next (hg _ _ ha) ht

end Reach

/-- Run a list of labels through a partial deterministic step. -/
def runActs (exec : σ → α → Option σ) : List α → σ → Option σ
  | [], s => some s
  | a :: as, s => (exec s a).bind (runActs exec as)

/-- The guard holds at each label of a deterministic run. -/
def GuardedRun (guard : σ → α → Prop) (exec : σ → α → Option σ) : List α → σ → Prop
  | [], _ => True
  | a :: as, s => guard s a ∧ ∀ t, exec s a = some t → GuardedRun guard exec as t

instance decidableGuardedRun [∀ s a, Decidable (guard s a)] (exec : σ → α → Option σ)
    (as : List α) (s : σ) : Decidable (GuardedRun guard exec as s) :=
  match as with
  | [] => .isTrue trivial
  | a :: as =>
    match h : exec s a with
    | none => decidable_of_iff (guard s a)
        ⟨fun hg ↦ ⟨hg, fun t ht ↦ by rw [h] at ht; cases ht⟩, fun hg ↦ hg.1⟩
    | some t =>
      have := decidableGuardedRun exec as t
      decidable_of_iff (guard s a ∧ GuardedRun guard exec as t)
        ⟨fun hg ↦ ⟨hg.1, fun u hu ↦ by rw [h] at hu; cases hu; exact hg.2⟩,
          fun hg ↦ ⟨hg.1, hg.2 t h⟩⟩

/-- A successful guarded deterministic run ends in a reachable state. -/
theorem Reach.of_runActs {exec : σ → α → Option σ} (he : ∀ s a t, exec s a = some t → step s a t)
    (as : List α) {s t : σ} (hs : Reach init guard step s) (hg : GuardedRun guard exec as s)
    (hr : runActs exec as s = some t) : Reach init guard step t := by
  induction as generalizing s with
  | nil =>
    have heq : s = t := Option.some.inj hr
    rwa [← heq]
  | cons a as ih =>
    obtain ⟨u, hu, hrest⟩ := Option.bind_eq_some_iff.mp hr
    exact ih (hs.next hg.1 (he s a u hu)) (hg.2 u hu) hrest

/-- The end of a guarded deterministic run that succeeds is reachable. -/
theorem Reach.of_guardedRun {exec : σ → α → Option σ}
    (he : ∀ s a t, exec s a = some t → step s a t) (as : List α) {s : σ} (hs : init s)
    (hg : GuardedRun guard exec as s) (hr : (runActs exec as s).isSome = true) :
    Reach init guard step ((runActs exec as s).get hr) :=
  Reach.of_runActs he as (.start hs) hg (Option.some_get hr).symm

/-! ### Runs -/

/-- A run of `n` steps: its states, from an initial one on, and the labels between them, which
satisfy the guard where they are taken. -/
structure IsRun (init : σ → Prop) (guard : σ → α → Prop) (step : σ → α → σ → Prop) (n : Nat)
    (states : Nat → σ) (labels : Nat → α) : Prop where
  start : init (states 0)
  guarded : ∀ i < n, guard (states i) (labels i)
  next : ∀ i < n, step (states i) (labels i) (states (i + 1))

/-- The states of a run are reachable. -/
theorem IsRun.reach {n : Nat} {states : Nat → σ} {labels : Nat → α}
    (h : IsRun init guard step n states labels) {i : Nat} (hi : i ≤ n) :
    Reach init guard step (states i) := by
  induction i with
  | zero => exact .start h.start
  | succ i ih => exact (ih (by omega)).next (h.guarded i hi) (h.next i hi)

/-- The state after the first `i` labels of a deterministic run. -/
def stateAt (exec : σ → α → Option σ) : List α → σ → Nat → σ
  | _, s, 0 => s
  | [], s, _ => s
  | a :: as, s, i + 1 => stateAt exec as ((exec s a).getD s) i

/-- The first label of a run that succeeds leads to a state, and the rest succeeds from there. -/
theorem exists_of_runActs_cons {exec : σ → α → Option σ} {a : α} {as : List α} {s : σ}
    (h : (runActs exec (a :: as) s).isSome = true) :
    ∃ t, exec s a = some t ∧ (runActs exec as t).isSome = true := by
  rw [runActs] at h
  cases ha : exec s a with
  | none =>
    rw [ha] at h
    cases h
  | some t =>
    rw [ha] at h
    exact ⟨t, rfl, h⟩

/-- A deterministic run that succeeds, with its guard, takes a guarded step at each label. -/
theorem stateAt_step {exec : σ → α → Option σ} (he : ∀ s a t, exec s a = some t → step s a t)
    (as : List α) (b : α) {s : σ} (hg : GuardedRun guard exec as s)
    (hr : (runActs exec as s).isSome = true) {i : Nat} (hi : i < as.length) :
    guard (stateAt exec as s i) (as.getD i b) ∧
      step (stateAt exec as s i) (as.getD i b) (stateAt exec as s (i + 1)) := by
  induction as generalizing s i with
  | nil => exact absurd hi (Nat.not_lt_zero i)
  | cons a as ih =>
    obtain ⟨t, ha, ht⟩ := exists_of_runActs_cons hr
    cases i with
    | zero =>
      refine ⟨hg.1, he s a _ ?_⟩
      rw [stateAt, stateAt, ha]
      rfl
    | succ i =>
      have hrest := ih (hg.2 t ha) ht (Nat.lt_of_succ_lt_succ hi)
      rw [stateAt, stateAt, ha]
      exact hrest

/-- Where the guard holds at each label from place `m` on, it holds at each such place. -/
theorem guard_stateAt {exec : σ → α → Option σ} (b : α) {m : Nat} :
    ∀ {as : List α} {s : σ}, (runActs exec as s).isSome = true →
      GuardedRun guard exec (as.drop m) (stateAt exec as s m) →
      ∀ {i : Nat}, i < as.length → m ≤ i → guard (stateAt exec as s i) (as.getD i b) := by
  induction m with
  | zero =>
    intro as s hr hg i hi hm
    rw [stateAt] at hg
    exact (stateAt_step (fun s a t (h : exec s a = some t) ↦ h) as b hg hr hi).1
  | succ m ih =>
    intro as s hr hg i hi hm
    cases as with
    | nil => exact absurd hi (Nat.not_lt_zero i)
    | cons a as =>
      obtain ⟨i, rfl⟩ : ∃ k, i = k + 1 := ⟨i - 1, by omega⟩
      obtain ⟨t, ha, ht⟩ := exists_of_runActs_cons hr
      rw [stateAt, ha] at hg
      rw [stateAt, ha]
      exact ih ht hg (Nat.lt_of_succ_lt_succ hi) (Nat.le_of_succ_le_succ hm)

/-- Such a run is a run of the transition relation. -/
theorem IsRun.of_guardedRun {exec : σ → α → Option σ}
    (he : ∀ s a t, exec s a = some t → step s a t) (as : List α) (b : α) {s : σ} (hs : init s)
    (hg : GuardedRun guard exec as s) (hr : (runActs exec as s).isSome = true) :
    IsRun init guard step as.length (stateAt exec as s) (fun i ↦ as.getD i b) where
  start := by
    rw [stateAt]
    exact hs
  guarded i hi := (stateAt_step he as b hg hr hi).1
  next i hi := (stateAt_step he as b hg hr hi).2

/-- Behind place `i` and up to place `j`, `P` holds until `Q` does, if `Q` does. -/
def HoldsUntil (P Q : Nat → Prop) (i j : Nat) : Prop :=
  (∀ k, i < k → k ≤ j → P k) ∨
    ∃ k, i < k ∧ k < j ∧ (∀ l, i < l → l ≤ k → P l) ∧ Q (k + 1)

/-- It is enough to look at one step. -/
theorem HoldsUntil.of_step {P Q : Nat → Prop} {i j : Nat} (h0 : P (i + 1))
    (hs : ∀ k, i < k → k < j → P k → P (k + 1) ∨ Q (k + 1)) : HoldsUntil P Q i j := by
  induction j with
  | zero => exact .inl fun k hk hkj ↦ absurd hkj (by omega)
  | succ j ih =>
    rcases ih fun k hk hkj ↦ hs k hk (by omega) with hall | ⟨k, hk, hkj, hbefore, hq⟩
    · by_cases hj : i < j
      · rcases hs j hj (Nat.lt_succ_self j) (hall j hj (Nat.le_refl j)) with hp | hq
        · left
          intro k hk hkj
          rcases Nat.lt_or_eq_of_le hkj with hlt | rfl
          · exact hall k hk (by omega)
          · exact hp
        · exact .inr ⟨j, hj, Nat.lt_succ_self j, hall, hq⟩
      · left
        intro k hk hkj
        obtain rfl : k = i + 1 := by omega
        exact h0
    · exact .inr ⟨k, hk, by omega, hbefore, hq⟩

/-- Less may be asked of the places. -/
theorem HoldsUntil.imp {P P' Q : Nat → Prop} {i j : Nat} (h : HoldsUntil P Q i j)
    (hp : ∀ k, P k → P' k) : HoldsUntil P' Q i j := by
  rcases h with hall | ⟨k, hk, hkj, hbefore, hq⟩
  · exact .inl fun k hk hkj ↦ hp k (hall k hk hkj)
  · exact .inr ⟨k, hk, hkj, fun l hl hlk ↦ hp l (hbefore l hl hlk), hq⟩

end McuSimulator.Base
