/-!
# Loops that end from within

A `while (true)` loop as what one turn of it does: leave the loop, or go on. `Leaves` are its runs
that end; the number is that of the turns that went on. A measure that these decrease ends every
run, and two loops run alike where their turns are the same.
-/

namespace McuSimulator.Base

universe u

/-- What one turn of a loop does, and the state behind it. -/
inductive Turn (σ : Type u) where
  | leave (s : σ)
  | again (s : σ)
  deriving DecidableEq, Repr

variable {σ : Type u} {turn : σ → Turn σ}

/-- The loop goes on for `n` turns, and leaves at the next one. -/
inductive Leaves (turn : σ → Turn σ) : Nat → σ → σ → Prop
  | leave {s t : σ} (h : turn s = .leave t) : Leaves turn 0 s t
  | again {n : Nat} {s u t : σ} (h : turn s = .again u) (hu : Leaves turn n u t) :
      Leaves turn (n + 1) s t

/-- A loop has one run. -/
theorem Leaves.unique {n m : Nat} {s t u : σ} (h : Leaves turn n s t) (h' : Leaves turn m s u) :
    n = m ∧ t = u := by
  induction h generalizing m with
  | leave hs =>
    cases h' with
    | leave hs' => exact ⟨rfl, Turn.leave.inj (hs.symm.trans hs')⟩
    | again hs' _ => cases hs.symm.trans hs'
  | again hs _ ih =>
    cases h' with
    | leave hs' => cases hs.symm.trans hs'
    | again hs' hu' =>
      cases hs.symm.trans hs'
      obtain ⟨rfl, rfl⟩ := ih hu'
      exact ⟨rfl, rfl⟩

/-- A loop is left after one number of turns, in one state. -/
theorem Leaves.iff {n m : Nat} {s t u : σ} (h : Leaves turn n s t) :
    Leaves turn m s u ↔ m = n ∧ u = t := by
  constructor
  · intro h'
    exact h'.unique h
  · rintro ⟨rfl, rfl⟩
    exact h

/-- A loop whose turns decrease a measure ends, after as many turns as that at most. -/
theorem exists_leaves (measure : σ → Nat)
    (hturn : ∀ s u, turn s = .again u → measure u < measure s) (s : σ) :
    ∃ n ≤ measure s, ∃ t, Leaves turn n s t := by
  induction hm : measure s using Nat.strongRecOn generalizing s with
  | ind m ih =>
    cases hs : turn s with
    | leave t => exact ⟨0, Nat.zero_le m, t, .leave hs⟩
    | again u =>
      have hlt := hturn s u hs
      rw [hm] at hlt
      obtain ⟨n, hn, t, hu⟩ := ih (measure u) hlt u rfl
      exact ⟨n + 1, Nat.lt_of_le_of_lt hn hlt, t, .again hs hu⟩

/-- Two loops run alike from where their turns are the same for good. -/
theorem Leaves.congr {turn' : σ → Turn σ} (inv : σ → Prop)
    (hsame : ∀ s, inv s → turn s = turn' s) (hkeep : ∀ s u, inv s → turn s = .again u → inv u)
    {n : Nat} {s t : σ} (h : Leaves turn n s t) (hs : inv s) : Leaves turn' n s t := by
  induction h with
  | leave ht => exact .leave ((hsame _ hs).symm.trans ht)
  | again ht _ ih => exact .again ((hsame _ hs).symm.trans ht) (ih (hkeep _ _ hs ht))

end McuSimulator.Base
