import Mathlib.Data.List.Basic
import Mathlib.Data.List.Perm.Basic

/-!
# Interleavings of processes

A process computes on its own and emits effects. Processes run side by side over a shared
state: each step lets one of them emit its next effect, which acts on the state at once.
Whatever the order of the steps, every process emits what it would emit alone, and ends with
the value it would end with alone.
-/

namespace McuSimulator.Base

universe u v w

/-- A process: a value, or an effect and then a process. -/
inductive Process (ε : Type u) (α : Type v) where
  | done (a : α)
  | emit (e : ε) (k : Process ε α)

namespace Process

variable {ε : Type u} {α β : Type v}

/-- Go on with the value. -/
def bind : Process ε α → (α → Process ε β) → Process ε β
  | .done a, f => f a
  | .emit e k, f => .emit e (k.bind f)

/-- The effects that a process emits, in order. -/
def trace : Process ε α → List ε
  | .done _ => []
  | .emit e k => e :: k.trace

/-- The value that a process ends with. -/
def value : Process ε α → α
  | .done a => a
  | .emit _ k => k.value

/-- A process that is done has no effects. -/
@[simp] theorem trace_done (a : α) : (.done a : Process ε α).trace = [] := rfl

/-- An effect comes first in the trace. -/
@[simp] theorem trace_emit (e : ε) (k : Process ε α) : (Process.emit e k).trace = e :: k.trace :=
  rfl

/-- A process that is done has its value. -/
@[simp] theorem value_done (a : α) : (.done a : Process ε α).value = a := rfl

/-- An effect does not change the value. -/
@[simp] theorem value_emit (e : ε) (k : Process ε α) : (Process.emit e k).value = k.value := rfl

/-- The trace of a sequence: the first part's effects, then the second one's. -/
theorem trace_bind (p : Process ε α) (f : α → Process ε β) :
    (p.bind f).trace = p.trace ++ (f p.value).trace := by
  induction p with
  | done a => rfl
  | emit e k ih => simp only [bind, trace, value, ih, List.cons_append]

/-- The value of a sequence is the second part's, from the first part's value. -/
theorem value_bind (p : Process ε α) (f : α → Process ε β) :
    (p.bind f).value = (f p.value).value := by
  induction p with
  | done a => rfl
  | emit e k ih => simp only [bind, value, ih]

end Process

/-! ### Pools -/

/-- Processes and the state they share. -/
structure Pool (σ : Type w) (ε : Type u) (α : Type v) where
  procs : List (Process ε α)
  shared : σ

namespace Pool

variable {σ : Type w} {ε : Type u} {α : Type v} (act : σ → ε → σ)

/-- Process `i` emits its next effect. -/
inductive Step : Pool σ ε α → Nat × ε → Pool σ ε α → Prop
  | emit {p : Pool σ ε α} {i : Nat} {e : ε} {k : Process ε α}
      (h : p.procs[i]? = some (.emit e k)) : Step p (i, e) ⟨p.procs.set i k, act p.shared e⟩

/-- Steps in some order, with the effects and who emitted them. -/
inductive Run : Pool σ ε α → List (Nat × ε) → Pool σ ε α → Prop
  | nil (p : Pool σ ε α) : Run p [] p
  | cons {p q r : Pool σ ε α} {x : Nat × ε} {xs : List (Nat × ε)} (h : Step act p x q)
      (hr : Run q xs r) : Run p (x :: xs) r

/-- Every process has ended. -/
def Finished (p : Pool σ ε α) : Prop := ∀ proc ∈ p.procs, ∃ a, proc = .done a

/-- What process `i` emitted. -/
def emittedBy (i : Nat) (xs : List (Nat × ε)) : List ε :=
  (xs.filter fun x ↦ x.1 = i).map Prod.snd

variable {act} {p q : Pool σ ε α}

/-- The shared state is that of the effects in the order of the steps. -/
theorem Run.shared {xs : List (Nat × ε)} (h : Run act p xs q) :
    q.shared = (xs.map Prod.snd).foldl act p.shared := by
  induction h with
  | nil p => rfl
  | cons hs _ ih =>
    cases hs with
    | emit h => exact ih

/-- The values of the processes do not depend on the order of the steps. -/
theorem Run.values {xs : List (Nat × ε)} (h : Run act p xs q) :
    q.procs.map Process.value = p.procs.map Process.value := by
  induction h with
  | nil p => rfl
  | @cons p _ _ _ _ hs _ ih =>
    cases hs with
    | @emit i e k h =>
      rw [ih, List.map_set]
      apply List.ext_getElem?
      intro j
      by_cases hj : i = j
      · subst hj
        have hlt : i < p.procs.length := (List.getElem?_eq_some_iff.mp h).1
        rw [List.getElem?_set_self (by rwa [List.length_map]), List.getElem?_map, h]
        rfl
      · rw [List.getElem?_set_ne hj]

/-- Only processes of the pool emit. -/
theorem Run.index_lt {xs : List (Nat × ε)} (h : Run act p xs q) :
    ∀ x ∈ xs, x.1 < p.procs.length := by
  induction h with
  | nil p => simp
  | cons hs _ ih =>
    cases hs with
    | emit h =>
      rw [List.length_set] at ih
      intro x hx
      rcases List.mem_cons.mp hx with rfl | hx
      · exact (List.getElem?_eq_some_iff.mp h).1
      · exact ih x hx

/-- What a process has emitted and what it has still to emit is its own trace. -/
theorem Run.emitted {xs : List (Nat × ε)} (h : Run act p xs q) (i : Nat)
    {proc : Process ε α} (hp : p.procs[i]? = some proc) :
    ∃ rest, q.procs[i]? = some rest ∧ emittedBy i xs ++ rest.trace = proc.trace := by
  induction h generalizing proc with
  | nil p => exact ⟨proc, hp, rfl⟩
  | @cons p _ _ _ _ hs _ ih =>
    cases hs with
    | @emit j e k h =>
      by_cases hj : j = i
      · subst hj
        have hlt : j < p.procs.length := (List.getElem?_eq_some_iff.mp h).1
        obtain ⟨rest, hrest, htr⟩ := ih (List.getElem?_set_self hlt)
        rw [hp] at h
        cases h
        refine ⟨rest, hrest, ?_⟩
        rw [emittedBy, List.filter_cons_of_pos (by simp), List.map_cons, List.cons_append,
          Process.trace_emit, ← htr]
        rfl
      · obtain ⟨rest, hrest, htr⟩ := ih ((List.getElem?_set_ne hj).trans hp)
        refine ⟨rest, hrest, ?_⟩
        rw [emittedBy, List.filter_cons_of_neg (by simpa using hj)]
        exact htr

/-- Once every process has ended, each has emitted its trace. -/
theorem Run.emittedBy_eq {xs : List (Nat × ε)} (h : Run act p xs q) (hq : q.Finished) (i : Nat)
    {proc : Process ε α} (hp : p.procs[i]? = some proc) : emittedBy i xs = proc.trace := by
  obtain ⟨rest, hrest, htr⟩ := h.emitted i hp
  obtain ⟨a, rfl⟩ := hq rest (List.mem_of_getElem? hrest)
  rw [Process.trace_done, List.append_nil] at htr
  exact htr

/-- Nothing is lost and nothing is emitted twice. -/
theorem Run.perm {xs : List (Nat × ε)} (h : Run act p xs q) :
    (xs.map Prod.snd ++ q.procs.flatMap Process.trace).Perm (p.procs.flatMap Process.trace) := by
  induction h with
  | nil p => exact .refl _
  | @cons p _ _ _ _ hs _ ih =>
    cases hs with
    | @emit i e k h =>
      obtain ⟨hlt, hget⟩ := List.getElem?_eq_some_iff.mp h
      have hsplit : p.procs = p.procs.take i ++ .emit e k :: p.procs.drop (i + 1) := by
        rw [← hget, ← List.drop_eq_getElem_cons hlt, List.take_append_drop]
      rw [List.map_cons, List.cons_append]
      refine (List.Perm.cons e ih).trans ?_
      dsimp only
      rw [List.set_eq_take_append_cons_drop, if_pos hlt]
      conv_rhs => rw [hsplit]
      simp only [List.flatMap_append, List.flatMap_cons, Process.trace_emit, List.cons_append]
      exact List.perm_middle.symm

/-- Every pool can run until all its processes have ended. -/
theorem exists_run_finished (act : σ → ε → σ) (p : Pool σ ε α) :
    ∃ xs q, Run act p xs q ∧ q.Finished := by
  generalize hn : (p.procs.flatMap Process.trace).length = n
  induction n using Nat.strongRecOn generalizing p with
  | ind n ih =>
    by_cases hp : p.Finished
    · exact ⟨[], p, .nil p, hp⟩
    · unfold Finished at hp
      push Not at hp
      obtain ⟨proc, hmem, hne⟩ := hp
      obtain ⟨i, hi⟩ := List.getElem?_of_mem hmem
      cases proc with
      | done a => exact absurd rfl (hne a)
      | emit e k =>
        have hstep : Step act p (i, e) ⟨p.procs.set i k, act p.shared e⟩ := .emit hi
        have hperm := (Run.cons hstep (.nil _)).perm.length_eq
        simp only [List.map_cons, List.map_nil, List.length_append, List.length_cons,
          List.length_nil] at hperm
        have hlt : ((p.procs.set i k).flatMap Process.trace).length < n := by omega
        obtain ⟨xs, q, hr, hq⟩ := ih _ hlt ⟨p.procs.set i k, act p.shared e⟩ rfl
        exact ⟨(i, e) :: xs, q, .cons hstep hr, hq⟩

end Pool

/-! ### Shuffles -/

/-- `l` is made of the lists `ls`, each in its own order. -/
def IsShuffle {β : Type u} (ls : List (List β)) (l : List β) : Prop :=
  ∃ tagged : List (Nat × β), tagged.map Prod.snd = l ∧ (∀ x ∈ tagged, x.1 < ls.length) ∧
    ∀ i (h : i < ls.length), Pool.emittedBy i tagged = ls[i]

/-- A finished run shuffles the traces of its processes. -/
theorem Pool.Run.isShuffle {σ : Type w} {ε : Type u} {α : Type v} {act : σ → ε → σ}
    {p q : Pool σ ε α} {xs : List (Nat × ε)} (h : Pool.Run act p xs q) (hq : q.Finished) :
    IsShuffle (p.procs.map Process.trace) (xs.map Prod.snd) := by
  refine ⟨xs, rfl, ?_, ?_⟩
  · rw [List.length_map]
    exact h.index_lt
  · intro i hi
    rw [List.getElem_map]
    exact h.emittedBy_eq hq i (List.getElem?_eq_getElem _)

/-- Keeping some of the elements of a shuffle shuffles what is kept of the lists. -/
theorem IsShuffle.filterMap {β : Type u} {γ : Type v} (f : β → Option γ) {ls : List (List β)}
    {l : List β} (h : IsShuffle ls l) : IsShuffle (ls.map (·.filterMap f)) (l.filterMap f) := by
  obtain ⟨tagged, rfl, hlt, heq⟩ := h
  refine ⟨tagged.filterMap fun x ↦ (f x.2).map (x.1, ·), ?_, ?_, ?_⟩
  · rw [List.map_filterMap, List.filterMap_map]
    apply List.filterMap_congr
    intro x _
    simp [Function.comp_def]
  · intro y hy
    obtain ⟨x, hx, hfx⟩ := List.mem_filterMap.mp hy
    obtain ⟨c, -, rfl⟩ := Option.map_eq_some_iff.mp hfx
    rw [List.length_map]
    exact hlt x hx
  · intro i hi
    rw [List.getElem_map, ← heq i (by rwa [List.length_map] at hi)]
    unfold Pool.emittedBy
    clear heq hlt
    induction tagged with
    | nil => rfl
    | cons x xs ih =>
      by_cases hx : x.1 = i
      · cases hf : f x.2 <;> simp [hf, hx, ih]
      · cases hf : f x.2 <;> simp [hf, hx, ih]

end McuSimulator.Base
