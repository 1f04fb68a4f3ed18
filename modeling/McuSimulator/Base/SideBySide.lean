import Mathlib.Logic.Function.Basic
import McuSimulator.Base.Mealy

/-!
# Machines side by side

A family of machines over one sequence of inputs. A route sends each input to one of them, in its
own form, or to none, and then it is rejected. Each machine ends as it does alone on the inputs sent
to it, and answers them as it does alone.
-/

namespace McuSimulator.Base

universe u v w x y

variable {κ : Type u} [DecidableEq κ] {ι : Type v} {ι' : Type w} {ο : Type x} {σ : κ → Type y}

/-- One machine takes the input. -/
def sideBySide (route : ι → Option (κ × ι')) (step : ∀ k, σ k → ι' → σ k × ο) (reject : ι → ο)
    (s : ∀ k, σ k) (a : ι) : (∀ k, σ k) × ο :=
  match route a with
  | none => (s, reject a)
  | some (k, b) => (Function.update s k (step k (s k) b).1, (step k (s k) b).2)

/-- The input as machine `k` gets it, if it is sent there. -/
def sentTo (route : ι → Option (κ × ι')) (k : κ) (a : ι) : Option ι' :=
  match route a with
  | none => none
  | some (l, b) => if l = k then some b else none

/-- The answers to the inputs that are sent to machine `k`. -/
def answersOf (route : ι → Option (κ × ι')) (k : κ) (as : List ι) (os : List ο) : List ο :=
  ((as.zip os).filter fun x ↦ (sentTo route k x.1).isSome).map Prod.snd

variable {route : ι → Option (κ × ι')} {step : ∀ k, σ k → ι' → σ k × ο} {reject : ι → ο}

private theorem sentTo_of_none {a : ι} (h : route a = none) (k : κ) : sentTo route k a = none := by
  rw [sentTo, h]

private theorem sentTo_self {a : ι} {k : κ} {b : ι'} (h : route a = some (k, b)) :
    sentTo route k a = some b := by
  rw [sentTo, h]
  exact if_pos rfl

private theorem sentTo_of_ne {a : ι} {k l : κ} {b : ι'} (h : route a = some (l, b)) (hne : l ≠ k) :
    sentTo route k a = none := by
  rw [sentTo, h]
  exact if_neg hne

/-- What one input does to machine `k`, and whether its answer is one of that machine. -/
theorem sideBySide_component (s : ∀ k, σ k) (a : ι) (k : κ) :
    match sentTo route k a with
    | none => (sideBySide route step reject s a).1 k = s k
    | some b => (sideBySide route step reject s a).1 k = (step k (s k) b).1 ∧
        (sideBySide route step reject s a).2 = (step k (s k) b).2 := by
  cases hr : route a with
  | none =>
    rw [sentTo_of_none hr]
    simp [sideBySide, hr]
  | some x =>
    obtain ⟨l, b⟩ := x
    by_cases hl : l = k
    · subst hl
      rw [sentTo_self hr]
      simp [sideBySide, hr]
    · rw [sentTo_of_ne hr hl]
      simp [sideBySide, hr, Function.update_of_ne (Ne.symm hl)]

/-- Each machine runs as it does alone. -/
theorem respond_sideBySide (s : ∀ k, σ k) (as : List ι) (k : κ) :
    (respond (sideBySide route step reject) s as).1 k =
        (respond (step k) (s k) (as.filterMap (sentTo route k))).1 ∧
      answersOf route k as (respond (sideBySide route step reject) s as).2 =
        (respond (step k) (s k) (as.filterMap (sentTo route k))).2 := by
  induction as generalizing s with
  | nil => exact ⟨rfl, rfl⟩
  | cons a as ih =>
    obtain ⟨hstate, hanswers⟩ := ih (sideBySide route step reject s a).1
    have hone := @sideBySide_component _ _ _ _ _ _ route step reject s a k
    rw [respond_cons, answersOf, List.zip_cons_cons]
    cases hb : sentTo route k a with
    | none =>
      rw [hb] at hone
      rw [List.filterMap_cons_none hb, ← hone, ← hstate, ← hanswers,
        List.filter_cons_of_neg (by simp [hb])]
      exact ⟨rfl, rfl⟩
    | some b =>
      rw [hb] at hone
      rw [List.filterMap_cons_some hb, respond_cons, ← hone.1, ← hone.2, ← hstate, ← hanswers,
        List.filter_cons_of_pos (by simp [hb])]
      exact ⟨rfl, rfl⟩

end McuSimulator.Base
