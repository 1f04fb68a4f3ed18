import Mathlib.Logic.Function.Basic

/-!
# Ring buffers refine bounded queues

A ring of capacity `n` with a head, a tail and a count. Its contents are the `count` cells
from the head on, modulo `n`. Under the well-formedness predicate `RingBuf.WF`, `push` appends
to the contents and `pop` removes their first element.
-/

namespace McuSimulator.Base

universe u

/-- Raw ring-buffer fields; cells outside the live window are unrestricted. -/
structure RingBuf (α : Type u) where
  buf : Nat → α
  head : Nat
  tail : Nat
  count : Nat

namespace RingBuf

variable {α : Type u} {n : Nat}

/-- Store at the tail and advance it. -/
def push (n : Nat) (r : RingBuf α) (x : α) : RingBuf α :=
  { r with
    buf := Function.update r.buf r.tail x
    tail := (r.tail + 1) % n
    count := r.count + 1 }

/-- Advance the head. -/
def pop (n : Nat) (r : RingBuf α) : RingBuf α :=
  { r with head := (r.head + 1) % n, count := r.count - 1 }

/-- The live cells, oldest first. -/
def contents (n : Nat) (r : RingBuf α) : List α :=
  (List.range r.count).map fun i ↦ r.buf ((r.head + i) % n)

/-- Indices are in range and the tail is where the live window ends. -/
structure WF (n : Nat) (r : RingBuf α) : Prop where
  head_lt : r.head < n
  count_le : r.count ≤ n
  tail_eq : r.tail = (r.head + r.count) % n

/-- As many items as the counter says. -/
theorem length_contents (n : Nat) (r : RingBuf α) : (r.contents n).length = r.count := by
  simp [contents]

/-- Live positions of a window no longer than the ring are distinct cells. -/
theorem index_ne {h i j : Nat} (hij : i < j) (hj : j < n) : (h + i) % n ≠ (h + j) % n := by
  intro he
  have hz : (h + j - (h + i)) % n = 0 := Nat.sub_mod_eq_zero_of_mod_eq he.symm
  have hs : h + j - (h + i) = j - i := by omega
  rw [hs, Nat.mod_eq_of_lt (by omega)] at hz
  omega

/-- Pushing below capacity keeps the ring well formed. -/
theorem wf_push {r : RingBuf α} (x : α) (h : r.WF n) (hc : r.count < n) : (r.push n x).WF n where
  head_lt := h.head_lt
  count_le := hc
  tail_eq := by
    change (r.tail + 1) % n = (r.head + (r.count + 1)) % n
    rw [h.tail_eq, Nat.mod_add_mod, Nat.add_assoc]

/-- Popping a nonempty ring keeps it well formed. -/
theorem wf_pop {r : RingBuf α} (h : r.WF n) (hc : 0 < r.count) : (r.pop n).WF n where
  head_lt := Nat.mod_lt _ (by have := h.head_lt; omega)
  count_le := by
    have := h.count_le
    simp only [pop]
    omega
  tail_eq := by
    change r.tail = ((r.head + 1) % n + (r.count - 1)) % n
    rw [h.tail_eq, Nat.mod_add_mod]
    congr 1
    omega

/-- A push appends to the contents. -/
theorem contents_push {r : RingBuf α} (x : α) (h : r.WF n) (hc : r.count < n) :
    (r.push n x).contents n = r.contents n ++ [x] := by
  have hlast : Function.update r.buf r.tail x ((r.head + r.count) % n) = x := by
    rw [← h.tail_eq, Function.update_self]
  have hold : ∀ i ∈ List.range r.count,
      Function.update r.buf r.tail x ((r.head + i) % n) = r.buf ((r.head + i) % n) := by
    intro i hi
    have hlt : i < r.count := List.mem_range.mp hi
    rw [h.tail_eq, Function.update_of_ne (index_ne hlt hc)]
  simp only [contents, push, List.range_succ, List.map_append, List.map_cons, List.map_nil,
    hlast]
  rw [List.map_congr_left hold]

/-- A nonempty ring's contents are the head cell and what a pop leaves. -/
theorem contents_pop {r : RingBuf α} (h : r.WF n) (hc : 0 < r.count) :
    r.contents n = r.buf r.head :: (r.pop n).contents n := by
  obtain ⟨k, hk⟩ : ∃ k, r.count = k + 1 := ⟨r.count - 1, by omega⟩
  have hhead : (r.head + 0) % n = r.head := Nat.mod_eq_of_lt h.head_lt
  have hidx : ∀ i, ((r.head + 1) % n + i) % n = (r.head + (i + 1)) % n := by
    intro i
    rw [Nat.mod_add_mod]
    congr 1
    omega
  simp only [contents, pop, hk, List.range_succ_eq_map, List.map_cons, List.map_map,
    Nat.add_sub_cancel, hhead]
  congr 1
  apply List.map_congr_left
  intro i _
  exact congrArg r.buf (hidx i).symm

end RingBuf

end McuSimulator.Base
