import Mathlib.Logic.Function.Basic

/-!
# Machines that answer their inputs

A machine takes one input at a time, answers it, and keeps its state between inputs. `respond`
runs a list of inputs. Two machines that answer alike and stay related do so over whole runs.
-/

namespace McuSimulator.Base

universe u v w x y

variable {σ : Type u} {τ : Type v} {ι : Type w} {ο : Type x}

/-- The state after the inputs, and the answers to them. -/
def respond (step : σ → ι → σ × ο) : σ → List ι → σ × List ο
  | s, [] => (s, [])
  | s, a :: as =>
    ((respond step (step s a).1 as).1, (step s a).2 :: (respond step (step s a).1 as).2)

section

variable (step : σ → ι → σ × ο)

/-- No inputs leave the state. -/
@[simp] theorem respond_nil (s : σ) : respond step s [] = (s, []) := rfl

/-- The first input, then the others from the next state. -/
@[simp] theorem respond_cons (s : σ) (a : ι) (as : List ι) :
    respond step s (a :: as) =
      ((respond step (step s a).1 as).1, (step s a).2 :: (respond step (step s a).1 as).2) := rfl

/-- The first input by what its step is. -/
theorem respond_cons_of_eq {s t : σ} {a : ι} {o : ο} (h : step s a = (t, o)) (as : List ι) :
    respond step s (a :: as) = ((respond step t as).1, o :: (respond step t as).2) := by
  rw [respond_cons, h]

/-- Two sequences of inputs, one after the other. -/
theorem respond_append (s : σ) (as bs : List ι) :
    respond step s (as ++ bs) =
      ((respond step (respond step s as).1 bs).1,
        (respond step s as).2 ++ (respond step (respond step s as).1 bs).2) := by
  induction as generalizing s with
  | nil => rfl
  | cons a as ih =>
    rw [List.cons_append, respond_cons, ih]
    rfl

end

/-- A property that each input preserves holds after a run. -/
theorem respond_invariant {step : σ → ι → σ × ο} (inv : σ → Prop)
    (hstep : ∀ s a, inv s → inv (step s a).1) {s : σ} (hs : inv s) (as : List ι) :
    inv (respond step s as).1 := by
  induction as generalizing s with
  | nil => exact hs
  | cons a as ih => exact ih (hstep s a hs)

/-- Machines that stay related and answer each input alike answer a run alike. -/
theorem respond_simulates {f : σ → ι → σ × ο} {g : τ → ι → τ × ο} {R : σ → τ → Prop}
    (hstep : ∀ s t a, R s t → R (f s a).1 (g t a).1 ∧ (f s a).2 = (g t a).2) {s : σ} {t : τ}
    (hs : R s t) (as : List ι) :
    R (respond f s as).1 (respond g t as).1 ∧ (respond f s as).2 = (respond g t as).2 := by
  induction as generalizing s t with
  | nil => exact ⟨hs, rfl⟩
  | cons a as ih =>
    obtain ⟨hnext, hanswer⟩ := hstep s t a hs
    obtain ⟨hrun, hanswers⟩ := ih hnext
    refine ⟨hrun, ?_⟩
    rw [respond_cons, respond_cons, hanswer, hanswers]

/-- A view of the state that each input updates on its own is updated by a run in order. -/
theorem respond_view {step : σ → ι → σ × ο} (view : σ → τ) {update : τ → ι → τ}
    (hstep : ∀ s a, view (step s a).1 = update (view s) a) (s : σ) (as : List ι) :
    view (respond step s as).1 = as.foldl update (view s) := by
  induction as generalizing s with
  | nil => rfl
  | cons a as ih => rw [respond_cons, ih, hstep, List.foldl_cons]

/-- The state alone. -/
theorem fst_respond (step : σ → ι → σ × ο) (s : σ) (as : List ι) :
    (respond step s as).1 = as.foldl (fun s a ↦ (step s a).1) s :=
  respond_view id (fun _ _ ↦ rfl) s as

/-- Each answer is that of one input to the state behind those before it. -/
theorem getElem?_snd_respond (step : σ → ι → σ × ο) (s : σ) (as : List ι) (i : Nat) :
    (respond step s as).2[i]? = as[i]?.map fun a ↦ (step (respond step s (as.take i)).1 a).2 := by
  induction as generalizing s i with
  | nil => rfl
  | cons a as ih =>
    rw [respond_cons]
    cases i with
    | zero => rfl
    | succ i => exact ih (step s a).1 i

/-- A machine that is another one behind a translation of inputs and answers runs as that one
does. -/
theorem respond_map {κ : Type x} {ρ : Type y} {f : σ → ι → σ × ο} {g : σ → κ → σ × ρ}
    (input : ι → κ) (answer : ρ → ο)
    (h : ∀ s a, f s a = ((g s (input a)).1, answer (g s (input a)).2)) (s : σ) (as : List ι) :
    respond f s as =
      ((respond g s (as.map input)).1, (respond g s (as.map input)).2.map answer) := by
  induction as generalizing s with
  | nil => rfl
  | cons a as ih =>
    rw [respond_cons, h s a, ih]
    rfl

/-- What each input of a run contributes, in the order of the run. -/
def collect {α : Type x} (step : σ → ι → σ × ο) (part : σ → ι → List α) : σ → List ι → List α
  | _, [] => []
  | s, a :: as => part s a ++ collect step part (step s a).1 as

/-- What is held before a step and what comes in is what goes out and what is held after it: so
it is over a run. -/
theorem respond_conserves {α : Type x} {step : σ → ι → σ × ο} {held : σ → List α}
    {coming going : σ → ι → List α} {ok : ι → Prop}
    (hstep : ∀ s a, ok a → held s ++ coming s a = going s a ++ held (step s a).1) (s : σ)
    (as : List ι) (has : ∀ a ∈ as, ok a) :
    held s ++ collect step coming s as =
      collect step going s as ++ held (respond step s as).1 := by
  induction as generalizing s with
  | nil => exact List.append_nil _
  | cons a as ih =>
    have ha := hstep s a (has a List.mem_cons_self)
    have hrest := ih (step s a).1 fun b hb ↦ has b (List.mem_cons_of_mem a hb)
    calc held s ++ collect step coming s (a :: as)
        = held s ++ coming s a ++ collect step coming (step s a).1 as :=
          (List.append_assoc _ _ _).symm
      _ = going s a ++ (held (step s a).1 ++ collect step coming (step s a).1 as) := by
          rw [ha, List.append_assoc]
      _ = collect step going s (a :: as) ++ held (respond step s (a :: as)).1 := by
          rw [hrest, ← List.append_assoc]
          rfl

end McuSimulator.Base
