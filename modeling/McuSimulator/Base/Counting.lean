import Mathlib.Data.List.Nodup
import Mathlib.Data.List.Perm.Basic

/-!
# Counting over a list

How a count moves when the predicate gains or loses an element, and bounds on the number of
distinct naturals.
-/

namespace McuSimulator.Base

universe u

variable {α : Type u} {p q : α → Bool} {l : List α} {a : α}

/-- A predicate that holds wherever another does, and at one more element, counts more. -/
theorem countP_lt_of_imp (h : ∀ x, p x = true → q x = true) (ha : a ∈ l) (hp : p a = false)
    (hq : q a = true) : l.countP p < l.countP q := by
  induction l with
  | nil => cases ha
  | cons x l ih =>
    have hle : l.countP p ≤ l.countP q := List.countP_mono_left fun y _ ↦ h y
    rcases List.mem_cons.mp ha with rfl | ha
    · rw [List.countP_cons_of_neg (by simp [hp]), List.countP_cons_of_pos hq]
      omega
    · have hlt := ih ha
      rw [List.countP_cons, List.countP_cons]
      have hx := h x
      cases hpx : p x
      · simp only [Bool.false_eq_true, if_false]
        omega
      · rw [if_pos rfl, if_pos (hx hpx)]
        omega

/-- A predicate that is given up at one element at most counts at most one less. -/
theorem countP_le_succ_of_imp (hn : l.Nodup) (h : ∀ x, x ≠ a → p x = true → q x = true) :
    l.countP p ≤ l.countP q + 1 := by
  induction l with
  | nil => exact Nat.zero_le _
  | cons x l ih =>
    obtain ⟨hx, hnl⟩ := List.nodup_cons.mp hn
    rw [List.countP_cons, List.countP_cons]
    by_cases hxa : x = a
    · have hle : l.countP p ≤ l.countP q := by
        refine List.countP_mono_left fun y hy ↦ h y ?_
        rintro rfl
        exact hx (hxa ▸ hy)
      split <;> omega
    · have hle := ih hnl
      have hpq := h x hxa
      cases hpx : p x
      · simp only [Bool.false_eq_true, if_false]
        omega
      · rw [if_pos rfl, if_pos (hpq hpx)]
        omega

/-- A duplicate-free list of naturals below `n` that misses one of them is shorter than `n`. -/
theorem length_lt_of_nodup {l : List Nat} {n k : Nat} (hn : l.Nodup) (hl : ∀ a ∈ l, a < n)
    (hk : k < n) (hm : k ∉ l) : l.length < n := by
  have hs : (k :: l).Subperm (List.range n) := by
    refine List.subperm_of_subset (List.nodup_cons.mpr ⟨hm, hn⟩) ?_
    intro a ha
    rcases List.mem_cons.mp ha with rfl | ha
    · exact List.mem_range.mpr hk
    · exact List.mem_range.mpr (hl a ha)
  have := hs.length_le
  simp only [List.length_cons, List.length_range] at this
  omega

/-- If each of `n` indices has an owner below `m` other than `x`, and no two share one, then
`n` is below `m`. -/
theorem lt_of_owners {R : Nat → Nat → Prop} {n m x : Nat}
    (hex : ∀ j < n, ∃ t, R j t ∧ t < m ∧ t ≠ x) (hx : x < m)
    (hinj : ∀ j k t, j < n → k < n → R j t → R k t → j = k) : n < m := by
  have hl : ∀ i ≤ n, ∃ l : List Nat, l.length = i ∧ l.Nodup ∧
      ∀ t ∈ l, t < m ∧ t ≠ x ∧ ∃ j < i, R j t := by
    intro i hi
    induction i with
    | zero => exact ⟨[], rfl, List.nodup_nil, by simp⟩
    | succ i ih =>
      obtain ⟨l, hlen, hnd, hl⟩ := ih (by omega)
      obtain ⟨t, hR, htm, htx⟩ := hex i (by omega)
      refine ⟨t :: l, by simp [hlen], List.nodup_cons.mpr ⟨fun hmem ↦ ?_, hnd⟩, ?_⟩
      · obtain ⟨-, -, j, hj, hRj⟩ := hl t hmem
        have := hinj j i t (by omega) (by omega) hRj hR
        omega
      · intro u hu
        rcases List.mem_cons.mp hu with rfl | hu
        · exact ⟨htm, htx, i, Nat.lt_succ_self i, hR⟩
        · obtain ⟨h1, h2, j, hj, hRj⟩ := hl u hu
          exact ⟨h1, h2, j, Nat.lt_succ_of_lt hj, hRj⟩
  obtain ⟨l, hlen, hnd, hl⟩ := hl n (Nat.le_refl n)
  rw [← hlen]
  exact length_lt_of_nodup hnd (fun t ht ↦ (hl t ht).1) hx fun hmem ↦ (hl x hmem).2.1 rfl

end McuSimulator.Base
