/-!
# Running minimum

The least value of a function over the elements of a list that satisfy a predicate, computed
in one pass from a start value.
-/

namespace McuSimulator.Base

universe u

variable {ι : Type u} (p : ι → Prop) [DecidablePred p] (f : ι → Nat)

/-- The least of `e` and the values at the elements that satisfy the predicate. -/
def least (is : List ι) (e : Nat) : Nat :=
  is.foldl (fun e i ↦ if p i then min e (f i) else e) e

private theorem least_cons (i : ι) (is : List ι) (e : Nat) :
    least p f (i :: is) e = least p f is (if p i then min e (f i) else e) := rfl

/-- The least value is at most the start value. -/
theorem least_le_start (is : List ι) (e : Nat) : least p f is e ≤ e := by
  induction is generalizing e with
  | nil => exact Nat.le_refl e
  | cons i is ih =>
    rw [least_cons]
    have hle := ih (if p i then min e (f i) else e)
    split at hle
    · rw [if_pos ‹_›]
      exact Nat.le_trans hle (Nat.min_le_left _ _)
    · rwa [if_neg ‹_›]

/-- No element that satisfies the predicate has a smaller value. -/
theorem least_le {is : List ι} {i : ι} (hi : i ∈ is) (hp : p i) (e : Nat) :
    least p f is e ≤ f i := by
  induction is generalizing e with
  | nil => cases hi
  | cons j is ih =>
    rw [least_cons]
    rcases List.mem_cons.mp hi with rfl | hi
    · rw [if_pos hp]
      exact Nat.le_trans (least_le_start p f is _) (Nat.min_le_right _ _)
    · exact ih hi _

/-- The minimum is the start value or one of the values. -/
theorem least_mem (is : List ι) (e : Nat) :
    least p f is e = e ∨ ∃ i ∈ is, p i ∧ f i = least p f is e := by
  induction is generalizing e with
  | nil => exact .inl rfl
  | cons i is ih =>
    rw [least_cons]
    rcases ih (if p i then min e (f i) else e) with h | ⟨j, hj, ht, he⟩
    · rw [h]
      split
      · next ht =>
        rcases Nat.le_total e (f i) with hle | hle
        · exact .inl (Nat.min_eq_left hle)
        · exact .inr ⟨i, List.mem_cons_self, ht, (Nat.min_eq_right hle).symm⟩
      · exact .inl rfl
    · exact .inr ⟨j, List.mem_cons_of_mem _ hj, ht, he⟩

end McuSimulator.Base
