import Mathlib.Data.BitVec
import Mathlib.Data.List.Basic

/-!
# Bytes as hexadecimal text

Digits of either case and bytes spelled by exactly two of them, most significant first.
-/

namespace McuSimulator.Base

/-- The value of a hexadecimal digit, of either case. -/
def hexValue (c : Char) : Option Nat :=
  if '0' ≤ c ∧ c ≤ '9' then some (c.toNat - 48)
  else if 'A' ≤ c ∧ c ≤ 'F' then some (c.toNat - 55)
  else if 'a' ≤ c ∧ c ≤ 'f' then some (c.toNat - 87)
  else none

/-- The byte that two digits spell. -/
def hexPair (a b : Char) : Option (BitVec 8) :=
  match hexValue a, hexValue b with
  | some x, some y => some (BitVec.ofNat 8 (16 * x + y))
  | _, _ => none

/-- The bytes that a text spells: nothing but digits, in pairs. -/
def hexBytes : List Char → Option (List (BitVec 8))
  | [] => some []
  | [_] => none
  | a :: b :: cs =>
    match hexPair a b, hexBytes cs with
    | some x, some bs => some (x :: bs)
    | _, _ => none

section HexBytes

variable {a b : Char} {cs : List Char} {x : BitVec 8} {bs : List (BitVec 8)}

private theorem hexBytes_cons_cons :
    hexBytes (a :: b :: cs) = some (x :: bs) ↔ hexPair a b = some x ∧ hexBytes cs = some bs := by
  rw [hexBytes]
  cases hexPair a b with
  | none => simp
  | some y =>
    cases hexBytes cs with
    | none => simp
    | some ys => simp

/-- A text that spells a byte and more starts with the two digits of that byte. -/
theorem exists_pair_of_hexBytes (h : hexBytes cs = some (x :: bs)) :
    ∃ a b rest, cs = a :: b :: rest ∧ hexPair a b = some x ∧ hexBytes rest = some bs := by
  match cs with
  | [] => cases h
  | [_] => cases h
  | a :: b :: rest => exact ⟨a, b, rest, rfl, hexBytes_cons_cons.mp h⟩

/-- Two digits a byte. -/
theorem length_of_hexBytes (h : hexBytes cs = some bs) : cs.length = 2 * bs.length := by
  induction bs generalizing cs with
  | nil =>
    match cs with
    | [] => rfl
    | [_] => cases h
    | a :: b :: rest =>
      rw [hexBytes] at h
      split at h <;> cases h
  | cons x bs ih =>
    obtain ⟨a, b, rest, rfl, -, hrest⟩ := exists_pair_of_hexBytes h
    have := ih hrest
    simp only [List.length_cons]
    omega

/-- The digits of each byte stand at twice its index. -/
theorem hexPair_of_hexBytes (h : hexBytes cs = some bs) {i : Nat} (hi : i < bs.length) :
    ∃ a b, cs[2 * i]? = some a ∧ cs[2 * i + 1]? = some b ∧ hexPair a b = some bs[i] := by
  induction bs generalizing cs i with
  | nil => exact absurd hi (Nat.not_lt_zero i)
  | cons x bs ih =>
    obtain ⟨a, b, rest, rfl, hx, hrest⟩ := exists_pair_of_hexBytes h
    cases i with
    | zero => exact ⟨a, b, rfl, rfl, hx⟩
    | succ i =>
      obtain ⟨c, d, hc, hd, hp⟩ := ih hrest (Nat.lt_of_succ_lt_succ hi)
      refine ⟨c, d, ?_, ?_, hp⟩
      · rw [show 2 * (i + 1) = 2 * i + 2 by omega]
        exact hc
      · rw [show 2 * (i + 1) + 1 = 2 * i + 1 + 2 by omega]
        exact hd

end HexBytes

/-! ### Changed digits -/

private theorem hexValue_lt {c : Char} {v : Nat} (h : hexValue c = some v) : v < 16 := by
  have hle : ∀ d : Char, c ≤ d → c.toNat ≤ d.toNat := fun d hd ↦ hd
  unfold hexValue at h
  split at h
  case isTrue hc =>
    have := hle '9' hc.2
    simp only [Option.some.injEq] at h
    rw [show '9'.toNat = 57 from rfl] at this
    omega
  case isFalse =>
    split at h
    case isTrue hc =>
      have := hle 'F' hc.2
      simp only [Option.some.injEq] at h
      rw [show 'F'.toNat = 70 from rfl] at this
      omega
    case isFalse =>
      split at h
      case isTrue hc =>
        have := hle 'f' hc.2
        simp only [Option.some.injEq] at h
        rw [show 'f'.toNat = 102 from rfl] at this
        omega
      case isFalse => cases h

/-- The digits of a byte. -/
theorem hexPair_eq_some {a b : Char} {v : BitVec 8} :
    hexPair a b = some v ↔
      ∃ x y, hexValue a = some x ∧ hexValue b = some y ∧ v = BitVec.ofNat 8 (16 * x + y) := by
  unfold hexPair
  cases hexValue a with
  | none => simp
  | some x =>
    cases hexValue b with
    | none => simp
    | some y => simp [eq_comm]

/-- Bytes with different digits are different. -/
theorem ofNat_digits_inj {x y x' y' : Nat} (hx : x < 16) (hy : y < 16) (hx' : x' < 16)
    (hy' : y' < 16) (h : BitVec.ofNat 8 (16 * x + y) = BitVec.ofNat 8 (16 * x' + y')) :
    x = x' ∧ y = y' := by
  have hnat := congrArg BitVec.toNat h
  rw [BitVec.toNat_ofNat, BitVec.toNat_ofNat] at hnat
  omega

/-- Replacing one digit by one of a different value changes one byte, and so the sum. -/
theorem hexBytes_set {cs : List Char} {bs : List (BitVec 8)} {i : Nat} {a b : Char}
    (h : hexBytes cs = some bs) (ha : cs[i]? = some a) (hb : (hexValue b).isSome)
    (hne : hexValue b ≠ hexValue a) :
    ∃ bs', hexBytes (cs.set i b) = some bs' ∧ bs'.length = bs.length ∧ bs'.sum ≠ bs.sum := by
  obtain ⟨z, hz⟩ := Option.isSome_iff_exists.mp hb
  induction bs generalizing cs i with
  | nil =>
    rw [List.eq_nil_of_length_eq_zero (length_of_hexBytes h)] at ha
    cases ha
  | cons v bs ih =>
    obtain ⟨c, d, rest, rfl, hpair, hrest⟩ := exists_pair_of_hexBytes h
    obtain ⟨x, y, hx, hy, rfl⟩ := hexPair_eq_some.mp hpair
    match i, ha with
    | 0, ha =>
      obtain rfl : c = a := Option.some.inj ha
      have hnew : hexPair b d = some (BitVec.ofNat 8 (16 * z + y)) :=
        hexPair_eq_some.mpr ⟨z, y, hz, hy, rfl⟩
      refine ⟨_, hexBytes_cons_cons.mpr ⟨hnew, hrest⟩, rfl, fun hsum ↦ hne ?_⟩
      rw [List.sum_cons, List.sum_cons, BitVec.add_left_inj] at hsum
      have hdigits := ofNat_digits_inj (hexValue_lt hz) (hexValue_lt hy) (hexValue_lt hx)
        (hexValue_lt hy) hsum
      rw [hz, hx, hdigits.1]
    | 1, ha =>
      obtain rfl : d = a := Option.some.inj ha
      have hnew : hexPair c b = some (BitVec.ofNat 8 (16 * x + z)) :=
        hexPair_eq_some.mpr ⟨x, z, hx, hz, rfl⟩
      refine ⟨_, hexBytes_cons_cons.mpr ⟨hnew, hrest⟩, rfl, fun hsum ↦ hne ?_⟩
      rw [List.sum_cons, List.sum_cons, BitVec.add_left_inj] at hsum
      have hdigits := ofNat_digits_inj (hexValue_lt hx) (hexValue_lt hz) (hexValue_lt hx)
        (hexValue_lt hy) hsum
      rw [hz, hy, hdigits.2]
    | i + 2, ha =>
      obtain ⟨bs', hnew, hlen, hsum⟩ := ih hrest ha
      refine ⟨_ :: bs', hexBytes_cons_cons.mpr ⟨hpair, hnew⟩, congrArg Nat.succ hlen, ?_⟩
      rw [List.sum_cons, List.sum_cons]
      exact fun heq ↦ hsum ((BitVec.add_right_inj _).mp heq)

/-! ### Numbers -/

/-- A number without leading zeros, in upper case. -/
def hexUpper (n : Nat) : String := String.ofList ((Nat.toDigits 16 n).map Char.toUpper)

/-- The number that digits spell. -/
def hexNat (cs : List Char) : Nat := cs.foldl (fun v c ↦ 16 * v + (hexValue c).getD 0) 0

private theorem hexValue_digitChar {d : Nat} (h : d < 16) :
    hexValue d.digitChar.toUpper = some d := by
  have hall : ∀ d : Fin 16, hexValue d.val.digitChar.toUpper = some d.val := by decide
  exact hall ⟨d, h⟩

/-- The digits of a number spell it. -/
theorem hexNat_toDigits (n : Nat) : hexNat ((Nat.toDigits 16 n).map Char.toUpper) = n := by
  induction n using Nat.strongRecOn with
  | ind n ih =>
    rw [Nat.toDigits_eq_if (by decide)]
    split
    case isTrue h =>
      rw [List.map_singleton, hexNat, List.foldl_cons, List.foldl_nil, hexValue_digitChar h]
      simp
    case isFalse h =>
      have hprefix := ih (n / 16) (by omega)
      rw [hexNat] at hprefix
      rw [List.map_append, List.map_singleton, hexNat, List.foldl_append, hprefix, List.foldl_cons,
        List.foldl_nil, hexValue_digitChar (Nat.mod_lt n (by decide)), Option.getD_some]
      omega

/-- Different numbers are spelled differently. -/
theorem hexUpper_inj {n k : Nat} : hexUpper n = hexUpper k ↔ n = k := by
  constructor
  · intro h
    have hlist := congrArg (fun s : String ↦ hexNat s.toList) h
    simp only [hexUpper, String.toList_ofList, hexNat_toDigits] at hlist
    exact hlist
  · intro h
    rw [h]

/-! ### Padded numbers -/

/-- A number in lower case, with zeros in front of it up to a width. -/
def hexPadded (width n : Nat) : List Char := (Nat.toDigits 16 n).leftpad width '0'

private theorem hexValue_digitChar_lower {d : Nat} (h : d < 16) :
    hexValue d.digitChar = some d := by
  have hall : ∀ d : Fin 16, hexValue d.val.digitChar = some d.val := by decide
  exact hall ⟨d, h⟩

private theorem exists_digitChar_of_mem_toDigits {n : Nat} {c : Char} (h : c ∈ Nat.toDigits 16 n) :
    ∃ d < 16, c = d.digitChar := by
  induction n using Nat.strongRecOn with
  | ind n ih =>
    rw [Nat.toDigits_eq_if (by decide)] at h
    split at h
    case isTrue hn => exact ⟨n, hn, List.mem_singleton.mp h⟩
    case isFalse hn =>
      rcases List.mem_append.mp h with h | h
      · exact ih (n / 16) (by omega) h
      · exact ⟨n % 16, Nat.mod_lt n (by decide), List.mem_singleton.mp h⟩

/-- A padded number consists of digits. -/
theorem isSome_hexValue_of_mem_hexPadded {width n : Nat} {c : Char} (h : c ∈ hexPadded width n) :
    (hexValue c).isSome := by
  rcases List.mem_append.mp h with h | h
  · rw [(List.mem_replicate.mp h).2]
    rfl
  · obtain ⟨d, hd, rfl⟩ := exists_digitChar_of_mem_toDigits h
    rw [hexValue_digitChar_lower hd]
    rfl

/-- A number consists of digits. -/
theorem isSome_hexValue_of_mem_hexUpper {n : Nat} {c : Char} (h : c ∈ (hexUpper n).toList) :
    (hexValue c).isSome := by
  rw [hexUpper, String.toList_ofList] at h
  obtain ⟨c', hc', rfl⟩ := List.mem_map.mp h
  obtain ⟨d, hd, rfl⟩ := exists_digitChar_of_mem_toDigits hc'
  rw [hexValue_digitChar hd]
  rfl

private theorem hexNat_append (cs ds : List Char) :
    hexNat (cs ++ ds) = ds.foldl (fun v c ↦ 16 * v + (hexValue c).getD 0) (hexNat cs) :=
  List.foldl_append

private theorem hexNat_replicate_zero (k : Nat) : hexNat (List.replicate k '0') = 0 := by
  induction k with
  | zero => rfl
  | succ k ih =>
    rw [List.replicate_succ', hexNat_append, ih]
    rfl

/-- The digits of a padded number spell it. -/
theorem hexNat_hexPadded (width n : Nat) : hexNat (hexPadded width n) = n := by
  rw [hexPadded, List.leftpad, hexNat_append, hexNat_replicate_zero]
  induction n using Nat.strongRecOn with
  | ind n ih =>
    rw [Nat.toDigits_eq_if (by decide)]
    split
    case isTrue h => simp [hexValue_digitChar_lower h]
    case isFalse h =>
      rw [List.foldl_append, ih (n / 16) (by omega), List.foldl_cons, List.foldl_nil,
        hexValue_digitChar_lower (Nat.mod_lt n (by decide)), Option.getD_some]
      omega

end McuSimulator.Base
