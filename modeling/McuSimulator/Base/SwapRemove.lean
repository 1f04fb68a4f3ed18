import Mathlib.Data.List.Perm.Basic
import Mathlib.Data.List.Nodup

/-!
# Removal by moving the last element

`swapRemove l i` overwrites position `i` with the last element and drops the last position:
the compaction `a[i] = a[--n]` of an unordered array. Up to order it erases position `i`.
-/

namespace McuSimulator.Base

universe u

variable {α : Type u}

/-- `a[i] = a[--n]` on a list of length `n`. -/
def swapRemove (l : List α) (i : Nat) : List α :=
  match l.getLast? with
  | none => []
  | some a => (l.set i a).dropLast

/-- One element less. -/
theorem length_swapRemove (l : List α) (i : Nat) : (swapRemove l i).length = l.length - 1 := by
  unfold swapRemove
  split
  · next h => simp [List.getLast?_eq_none_iff.mp h]
  · simp

/-- The removed element and the rest are the original list, up to order. -/
theorem cons_swapRemove_perm (l : List α) (i : Nat) (h : i < l.length) :
    (l[i] :: swapRemove l i).Perm l := by
  have hne : l ≠ [] := by
    intro hl
    simp [hl] at h
  obtain ⟨ini, a, rfl⟩ : ∃ ini a, l = ini ++ [a] :=
    ⟨l.dropLast, l.getLast hne, (List.dropLast_append_getLast hne).symm⟩
  have hs : swapRemove (ini ++ [a]) i = ((ini ++ [a]).set i a).dropLast := by
    simp [swapRemove]
  rw [hs]
  by_cases hi : i < ini.length
  · rw [List.getElem_append_left hi, List.set_append_left _ _ hi, List.dropLast_concat]
    have h1 : (ini[i] :: ini.set i a).Perm (ini[i] :: a :: ini.eraseIdx i) :=
      (List.set_perm_cons_eraseIdx hi a).cons _
    have h2 : (ini[i] :: a :: ini.eraseIdx i).Perm (a :: ini[i] :: ini.eraseIdx i) :=
      List.Perm.swap _ _ _
    have h3 : (a :: ini[i] :: ini.eraseIdx i).Perm (a :: ini) :=
      (List.getElem_cons_eraseIdx_perm hi).cons _
    exact ((h1.trans h2).trans h3).trans (List.perm_append_singleton a ini).symm
  · have he : i = ini.length := by
      simp only [List.length_append, List.length_singleton] at h
      omega
    subst he
    have hd : ((ini ++ [a]).set ini.length a).dropLast = ini := by
      rw [List.set_append_right _ _ (Nat.le_refl _), Nat.sub_self, List.set_cons_zero,
        List.dropLast_concat]
    rw [hd, List.getElem_append_right (Nat.le_refl _)]
    simpa using (List.perm_append_singleton a ini).symm

/-- Swap removal keeps exactly the other elements of a duplicate-free list. -/
theorem mem_swapRemove_iff {l : List α} {i : Nat} (h : i < l.length) (hn : l.Nodup) (a : α) :
    a ∈ swapRemove l i ↔ a ∈ l ∧ a ≠ l[i] := by
  have hp := cons_swapRemove_perm l i h
  have hc : (l[i] :: swapRemove l i).Nodup := hp.nodup_iff.mpr hn
  rw [← hp.mem_iff, List.mem_cons]
  constructor
  · intro ha
    exact ⟨.inr ha, fun he ↦ (List.nodup_cons.mp hc).1 (he ▸ ha)⟩
  · rintro ⟨ha | ha, hne⟩
    · exact absurd ha hne
    · exact ha

/-- Swap removal keeps a list duplicate-free. -/
theorem nodup_swapRemove {l : List α} {i : Nat} (h : i < l.length) (hn : l.Nodup) :
    (swapRemove l i).Nodup :=
  (List.nodup_cons.mp ((cons_swapRemove_perm l i h).nodup_iff.mpr hn)).2

/-! ### Places -/

/-- The last element takes the place of the removed one. -/
theorem getElem_swapRemove {l : List α} {i j : Nat} (hj : j < (swapRemove l i).length)
    (hlast : l.length - 1 < l.length) (hj' : j < l.length) :
    (swapRemove l i)[j] = if j = i then l[l.length - 1] else l[j] := by
  have hne : l ≠ [] := List.ne_nil_of_length_pos (by omega)
  have heq : swapRemove l i = (l.set i (l.getLast hne)).dropLast := by
    rw [swapRemove, List.getLast?_eq_some_getLast hne]
  simp only [heq, List.getElem_dropLast, List.getElem_set, List.getLast_eq_getElem, eq_comm]

/-- The removal on an array with a count, read off as a list. -/
theorem swapRemove_map_range (a : Nat → α) {n i : Nat} (hi : i < n) :
    swapRemove ((List.range n).map a) i =
      (List.range (n - 1)).map (Function.update a i (a (n - 1))) := by
  apply List.ext_getElem
  · simp [length_swapRemove]
  · intro j hj hj'
    rw [List.length_map, List.length_range] at hj'
    rw [getElem_swapRemove hj (by simp; omega) (by simp; omega)]
    simp [Function.update_apply]

/-- Removing an element and erasing it leave the same elements. -/
theorem swapRemove_perm_eraseIdx {l : List α} {i : Nat} (h : i < l.length) :
    (swapRemove l i).Perm (l.eraseIdx i) := by
  have hswap := cons_swapRemove_perm l i h
  have herase := List.getElem_cons_eraseIdx_perm h
  exact (hswap.trans herase.symm).cons_inv

section Places

variable [DecidableEq α] {l : List α} {i : Nat} {x y : α}

/-- The place of another element after a removal. -/
theorem idxOf_swapRemove (hn : l.Nodup) (hi : i < l.length) (hx : x ∈ l) (hne : x ≠ l[i]) :
    (swapRemove l i).idxOf x = if l.idxOf x = l.length - 1 then i else l.idxOf x := by
  have hlt : l.idxOf x < l.length := List.idxOf_lt_length_iff.mpr hx
  have hxi : l.idxOf x ≠ i := fun he ↦ hne (by simp only [← he, List.getElem_idxOf])
  have hlen := length_swapRemove l i
  have hnew := nodup_swapRemove hi hn
  split
  case isTrue hlast =>
    have hi' : i < (swapRemove l i).length := by omega
    have hget : (swapRemove l i)[i] = x := by
      rw [getElem_swapRemove hi' (by omega) hi, if_pos rfl]
      simp only [← hlast, List.getElem_idxOf]
    have hidx := hnew.idxOf_getElem i hi'
    rwa [hget] at hidx
  case isFalse hlast =>
    have hx' : l.idxOf x < (swapRemove l i).length := by omega
    have hget : (swapRemove l i)[l.idxOf x] = x := by
      rw [getElem_swapRemove hx' (by omega) hlt, if_neg hxi, List.getElem_idxOf]
    have hidx := hnew.idxOf_getElem _ hx'
    rwa [hget] at hidx

/-- A removal moves nobody back. -/
theorem idxOf_swapRemove_le (hn : l.Nodup) (hi : i < l.length) (hx : x ∈ l) (hne : x ≠ l[i]) :
    (swapRemove l i).idxOf x ≤ l.idxOf x := by
  rw [idxOf_swapRemove hn hi hx hne]
  split
  · omega
  · exact Nat.le_refl _

/-- Who stands before `x` after a removal did so already, unless it stood last, behind `x`, and the
removal made room for it before `x`. -/
theorem idxOf_lt_of_swapRemove (hn : l.Nodup) (hi : i < l.length) (hx : x ∈ l) (hne : x ≠ l[i])
    (hleap : ¬ (i < l.idxOf x ∧ l.idxOf x < l.idxOf y ∧ l.idxOf y + 1 = l.length))
    (hy : (swapRemove l i).idxOf y < (swapRemove l i).idxOf x) :
    y ≠ l[i] ∧ l.idxOf y < l.idxOf x := by
  have hx' : x ∈ swapRemove l i := (mem_swapRemove_iff hi hn x).mpr ⟨hx, hne⟩
  have hy' : y ∈ swapRemove l i :=
    List.idxOf_lt_length_iff.mp (Nat.lt_trans hy (List.idxOf_lt_length_iff.mpr hx'))
  obtain ⟨hyl, hyne⟩ := (mem_swapRemove_iff hi hn y).mp hy'
  have hxlt : l.idxOf x < l.length := List.idxOf_lt_length_iff.mpr hx
  have hylt : l.idxOf y < l.length := List.idxOf_lt_length_iff.mpr hyl
  rw [idxOf_swapRemove hn hi hx hne, idxOf_swapRemove hn hi hyl hyne] at hy
  have hxi : l.idxOf x ≠ i := fun he ↦ hne (by simp only [← he, List.getElem_idxOf])
  refine ⟨hyne, ?_⟩
  split at hy <;> split at hy <;> omega

end Places

end McuSimulator.Base
