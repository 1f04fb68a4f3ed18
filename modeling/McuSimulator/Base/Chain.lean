import Mathlib.Logic.Relation

/-!
# Chains that climb

A relation whose consecutive edges climb in a rank has no cycle, and where the rank is bounded every
chain comes to an end. This is the argument behind orders on locks: an edge is a wait, its rank that
of the lock waited for.
-/

namespace McuSimulator.Base

open Relation

universe u

variable {β : Type u} {edge : β → β → Prop} {rank : β → Nat}

/-- The rank of the start lies below that of every later node with an edge. -/
theorem rank_lt_of_chain (hclimb : ∀ a b c, edge a b → edge b c → rank a < rank b) {a b c : β}
    (hab : TransGen edge a b) (hbc : edge b c) : rank a < rank b := by
  induction hab generalizing c with
  | single h => exact hclimb _ _ _ h hbc
  | tail _ h ih => exact Nat.lt_trans (ih h) (hclimb _ _ _ h hbc)

/-- No chain returns to its start. -/
theorem not_transGen_self (hclimb : ∀ a b c, edge a b → edge b c → rank a < rank b) (a : β) :
    ¬ TransGen edge a a := by
  intro h
  obtain ⟨b, hab, -⟩ := TransGen.head'_iff.mp h
  exact Nat.lt_irrefl _ (rank_lt_of_chain hclimb h hab)

/-- From every edge a chain leads to a node without one. -/
theorem exists_chain_end (hclimb : ∀ a b c, edge a b → edge b c → rank a < rank b) {bound : Nat}
    (hbound : ∀ a b, edge a b → rank a ≤ bound) {a b : β} (hab : edge a b) :
    ∃ c, TransGen edge a c ∧ ∀ d, ¬ edge c d := by
  induction hroom : bound - rank a using Nat.strongRecOn generalizing a b with
  | ind room ih =>
    by_cases hb : ∃ c, edge b c
    · obtain ⟨c, hbc⟩ := hb
      have hlt := hclimb a b c hab hbc
      have hle := hbound b c hbc
      obtain ⟨d, hbd, hend⟩ := ih (bound - rank b) (by omega) hbc rfl
      exact ⟨d, .head hab hbd, hend⟩
    · exact ⟨b, .single hab, fun c hbc ↦ hb ⟨c, hbc⟩⟩

end McuSimulator.Base
