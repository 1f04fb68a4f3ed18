import Mathlib.Data.List.Rotate

/-!
# Cyclic order

The first index that satisfies a predicate, searched for around a table from behind a given
index. Searching again and again visits the indices that satisfy it in turn.
-/

namespace McuSimulator.Base

/-- The index in place `k` around a table of `n`, from behind `c`. -/
def around (n c k : Nat) : Nat := (c + 1 + k) % n

/-- `t` is the first index with the property from behind `c`. -/
def IsNext (p : Nat → Prop) (n c t : Nat) : Prop :=
  ∃ k < n, t = around n c k ∧ p t ∧ ∀ i < k, ¬ p (around n c i)

private theorem IsNext.unique {p : Nat → Prop} {n c t u : Nat} (ht : IsNext p n c t)
    (hu : IsNext p n c u) : t = u := by
  obtain ⟨k, -, rfl, hp, hfirst⟩ := ht
  obtain ⟨l, -, rfl, hq, hfirst'⟩ := hu
  rcases Nat.lt_trichotomy k l with hlt | rfl | hgt
  · exact absurd hp (hfirst' k hlt)
  · rfl
  · exact absurd hq (hfirst l hgt)

/-- The next one is below the bound and has the property. -/
theorem IsNext.found {p : Nat → Prop} {n c t : Nat} (h : IsNext p n c t) : t < n ∧ p t := by
  obtain ⟨k, hk, rfl, hp, -⟩ := h
  exact ⟨Nat.mod_lt _ (by omega), hp⟩

/-- The search looks at the indices of the table only. -/
theorem IsNext.congr {p q : Nat → Prop} {n c t : Nat} (h : IsNext p n c t)
    (hpq : ∀ i < n, p i ↔ q i) : IsNext q n c t := by
  obtain ⟨k, hk, rfl, hp, hfirst⟩ := h
  have hlt (i : Nat) : around n c i < n := Nat.mod_lt _ (by omega)
  refine ⟨k, hk, rfl, (hpq _ (hlt k)).mp hp, ?_⟩
  intro i hi hq
  exact hfirst i hi ((hpq _ (hlt i)).mpr hq)

section

variable (p : Nat → Prop) [DecidablePred p] (n : Nat)

/-- The indices with the property, in ascending order. -/
def indices : List Nat := (List.range n).filter fun i ↦ decide (p i)

/-- The indices are those below the bound that have the property. -/
theorem mem_indices {i : Nat} : i ∈ indices p n ↔ i < n ∧ p i := by
  simp [indices]

private theorem indices_pairwise : (indices p n).Pairwise (· < ·) :=
  List.Pairwise.filter _ List.pairwise_lt_range

variable {p n}

private theorem indices_lt {i j : Nat} (hj : j < (indices p n).length) (h : i < j) :
    (indices p n)[i] < (indices p n)[j] :=
  List.pairwise_iff_getElem.mp (indices_pairwise p n) i j (Nat.lt_trans h hj) hj h

/-- Between one index of the list and the next one the property fails. -/
theorem not_between {j x : Nat} (hj : j < (indices p n).length) (hx : x < n)
    (hlow : (indices p n)[j] < x)
    (hhigh : ∀ h : j + 1 < (indices p n).length, x < (indices p n)[j + 1]) : ¬ p x := by
  intro hp
  obtain ⟨i, hi, rfl⟩ := List.getElem_of_mem ((mem_indices p n).mpr ⟨hx, hp⟩)
  have hji : j + 1 ≤ i := by
    by_contra hle
    rcases Nat.lt_or_eq_of_le (Nat.le_of_not_lt hle) with hlt | rfl
    · have := indices_lt hj hlt
      omega
    · omega
  have hnext : j + 1 < (indices p n).length := by omega
  have hlt := hhigh hnext
  rcases Nat.lt_or_eq_of_le hji with hij | rfl
  · have := indices_lt hi hij
    omega
  · omega

/-- Before the first index of the list the property fails. -/
theorem not_before {x : Nat} (h0 : 0 < (indices p n).length) (hx : x < (indices p n)[0]) :
    ¬ p x := by
  intro hp
  have hlt : (indices p n)[0] < n := ((mem_indices p n).mp (List.getElem_mem h0)).1
  have hmem : x ∈ indices p n := (mem_indices p n).mpr ⟨by omega, hp⟩
  obtain ⟨i, hi, rfl⟩ := List.getElem_of_mem hmem
  cases i with
  | zero => omega
  | succ i =>
    have := indices_lt hi (Nat.succ_pos i)
    omega

/-- The search from behind one index of the list finds the next one. -/
theorem isNext_succ {j : Nat} (hj : j + 1 < (indices p n).length) :
    IsNext p n (indices p n)[j] (indices p n)[j + 1] := by
  obtain ⟨ht, hp⟩ := (mem_indices p n).mp (List.getElem_mem hj)
  have hlt := indices_lt hj (Nat.lt_succ_self j)
  refine ⟨(indices p n)[j + 1] - (indices p n)[j] - 1, by omega, ?_, hp, ?_⟩
  · rw [around, Nat.mod_eq_of_lt (by omega)]
    omega
  · intro i hi
    rw [around, Nat.mod_eq_of_lt (by omega)]
    apply not_between (Nat.lt_of_succ_lt hj) (by omega) (by omega)
    intro h
    omega

/-- The search from behind the last index of the list goes around the end to the first one. -/
theorem isNext_last {j : Nat} (hj : j < (indices p n).length)
    (hlast : j + 1 = (indices p n).length) : IsNext p n (indices p n)[j] (indices p n)[0] := by
  obtain ⟨hc, -⟩ := (mem_indices p n).mp (List.getElem_mem hj)
  have h0 : 0 < (indices p n).length := by omega
  obtain ⟨ht, hp⟩ := (mem_indices p n).mp (List.getElem_mem h0)
  have hle : (indices p n)[0] ≤ (indices p n)[j] := by
    rcases Nat.eq_zero_or_pos j with rfl | hpos
    · exact Nat.le_refl _
    · exact Nat.le_of_lt (indices_lt hj hpos)
  refine ⟨n - (indices p n)[j] - 1 + (indices p n)[0], by omega, ?_, hp, ?_⟩
  · have hturn : (indices p n)[j] + 1 + (n - (indices p n)[j] - 1 + (indices p n)[0]) =
        (indices p n)[0] + n := by omega
    rw [around, hturn, Nat.add_mod_right, Nat.mod_eq_of_lt ht]
  · intro i hi
    by_cases hend : (indices p n)[j] + 1 + i < n
    · rw [around, Nat.mod_eq_of_lt hend]
      apply not_between hj hend (by omega)
      intro h
      omega
    · have hx : around n (indices p n)[j] i = (indices p n)[j] + 1 + i - n := by
        rw [around, Nat.mod_eq_sub_mod (by omega), Nat.mod_eq_of_lt (by omega)]
      rw [hx]
      exact not_before h0 (by omega)

/-- Searching from behind place `j` of the list finds what is in the place behind it. -/
theorem IsNext.getElem? {c t j : Nat} (hj : (indices p n)[j]? = some c) (h : IsNext p n c t) :
    (indices p n)[(j + 1) % (indices p n).length]? = some t := by
  obtain ⟨hlt, rfl⟩ := List.getElem?_eq_some_iff.mp hj
  by_cases hlast : j + 1 < (indices p n).length
  · rw [Nat.mod_eq_of_lt hlast, List.getElem?_eq_getElem hlast, h.unique (isNext_succ hlast)]
  · have heq : j + 1 = (indices p n).length := by omega
    rw [heq, Nat.mod_self, List.getElem?_eq_getElem (by omega), h.unique (isNext_last hlt heq)]

end

/-- What goes through a list in turn shows a rotation of it in every window of its length. -/
theorem window_eq_rotate {α : Type} {l ts : List α} {j : Nat}
    (h : ∀ i < ts.length, ts[i]? = l[(j + i) % l.length]?) {i : Nat}
    (hi : i + l.length ≤ ts.length) : (ts.drop i).take l.length = l.rotate (j + i) := by
  apply List.ext_getElem?
  intro k
  by_cases hk : k < l.length
  · rw [List.getElem?_take_of_lt hk, List.getElem?_drop, h (i + k) (by omega),
      List.getElem?_rotate hk, show j + (i + k) = k + (j + i) by omega]
  · rw [List.getElem?_eq_none (by simp; omega), List.getElem?_eq_none (by simp; omega)]

end McuSimulator.Base
