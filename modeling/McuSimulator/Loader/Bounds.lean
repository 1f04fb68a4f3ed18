import Mathlib.Data.List.GetD
import McuSimulator.Loader.Acceptance

/-!
# Reads past the end of a line

The loader checks the length of a line before it removes the line end, and never compares the
declared count with what the line holds. With nothing behind the terminator, a read past it shows
as an error of its own; a line leads to one exactly where its checksum is right and it holds fewer
bytes than its header, its count and its type call for.
-/

namespace McuSimulator.Loader

open McuSimulator.Base McuSimulator.Memory

/-- Nothing may be read behind the terminator. -/
def noneBehind : Behind := fun _ ↦ none

/-- Nothing may be read behind the terminator of any line. -/
def bounded : Past := fun _ ↦ noneBehind

/-- Behind the terminator there are more of them. -/
def nuls : Nat → Char := fun _ ↦ Char.ofNat 0

/-- The line passes the length and the checksum test, all its bytes can be read, the last from
one digit if need be, and they are fewer than its header, its count and its type call for. -/
structure Overruns (line : List Char) : Prop where
  long : 11 ≤ line.length
  checksum : ∃ bs, looseBytes nuls (stripEnd line) 1 (((stripEnd line).length - 1) / 2) = some bs ∧
    bs.sum = 0
  lacks : ∃ bs, looseBytes nuls (stripEnd line) 1 ((stripEnd line).length / 2) = some bs ∧
    (stripEnd line).length / 2 < 4 + dataWanted (bs.getD 0 0) (bs.getD 3 0)

/-- The load comes to the line: it starts with a colon, and the record lines before it can be
read and are no EOF records. -/
inductive ComesTo : BitVec 32 → List (List Char) → List Char → Prop
  | here {base : BitVec 32} {l : List Char} {ls : List (List Char)} (hl : l.head? = some ':') :
      ComesTo base (l :: ls) l
  | comment {base : BitVec 32} {l l' : List Char} {ls : List (List Char)}
      (hl : l.head? ≠ some ':') (h : ComesTo base ls l') : ComesTo base (l :: ls) l'
  | record {base next : BitVec 32} {l l' : List Char} {ls : List (List Char)}
      (hl : l.head? = some ':') (hr : Reads nuls base l (some next)) (h : ComesTo next ls l') :
      ComesTo base (l :: ls) l'

/-- The computation reads past a terminator. -/
abbrev Overran {α : Type} (x : Except LoadError α) : Prop := FailsWith (fun e ↦ ¬ e.Thrown) x

section Overran

variable {α β : Type} {x : Except LoadError α} {f : α → Except LoadError β}

private theorem overran_bind : Overran (x >>= f) ↔ Overran x ∨ ∃ a, x = .ok a ∧ Overran (f a) :=
  failsWith_bind

private theorem overran_bind_left (hf : ∀ a, ¬ Overran (f a)) : Overran (x >>= f) ↔ Overran x :=
  failsWith_bind_left hf

private theorem not_overran_ok (a : α) :
    ¬ Overran (.ok a : Except LoadError α) := not_failsWith_ok a

/-- An exception is no read past a terminator. -/
theorem not_overran_of_thrown (h : FailsIn LoadError.Thrown x) : ¬ Overran x :=
  h.not_failsWith fun _ he hne ↦ hne he

end Overran

/-! ### Bytes -/

section Bytes

variable (line : List Char)

private theorem charAt_noneBehind (i : Nat) : charAt noneBehind line i =
    if i ≤ line.length then .ok (charOf nuls line i) else .error (.outOfRange i) := by
  unfold charAt charOf noneBehind
  rcases Nat.lt_trichotomy i line.length with hlt | rfl | hgt
  · rw [List.getElem?_eq_getElem hlt, if_pos (Nat.le_of_lt hlt)]
    rfl
  · rw [List.getElem?_eq_none (Nat.le_refl _), if_pos rfl, if_pos (Nat.le_refl _), Option.getD_none,
      if_pos rfl]
  · rw [List.getElem?_eq_none (Nat.le_of_lt hgt), if_neg (Nat.ne_of_gt hgt),
      if_neg (Nat.not_le_of_lt hgt)]

/-- A byte is read within the line, or past its terminator. -/
theorem parseHexByte_noneBehind (k : Nat) :
    (k + 1 ≤ line.length ∧ parseHexByte noneBehind line k = parseHexByte (filled nuls) line k) ∨
      (line.length < k + 1 ∧ Overran (parseHexByte noneBehind line k)) := by
  rcases Nat.lt_or_ge line.length (k + 1) with hlt | hle
  · right
    refine ⟨hlt, ?_⟩
    refine failsWith_bind.mpr ?_
    rw [charAt_noneBehind]
    by_cases hk : k ≤ line.length
    · refine .inr ⟨_, if_pos hk, failsWith_bind.mpr (.inl ?_)⟩
      rw [charAt_noneBehind, if_neg (by omega)]
      exact failsWith_error.mpr id
    · rw [if_neg hk]
      exact .inl (failsWith_error.mpr id)
  · left
    refine ⟨hle, ?_⟩
    simp only [parseHexByte, charAt_noneBehind, charAt_filled, if_pos hle,
      if_pos (show k ≤ line.length by omega)]

/-- The bytes that lie within the line, from an index on. -/
def room (k : Nat) : Nat := (line.length + 1 - k) / 2

private theorem room_of_le {k : Nat} (h : k + 1 ≤ line.length) :
    room line k = room line (k + 2) + 1 := by
  unfold room
  omega

private theorem room_of_lt {k : Nat} (h : line.length < k + 1) : room line k = 0 := by
  unfold room
  omega

/-- Consecutive runs of bytes are read one after the other. -/
theorem looseBytes_add (behind : Nat → Char) {k m n : Nat} {bs : List Byte} :
    looseBytes behind line k (m + n) = some bs ↔
      ∃ hs ds, looseBytes behind line k m = some hs ∧
        looseBytes behind line (k + 2 * m) n = some ds ∧ bs = hs ++ ds := by
  simp only [← parseHexBytes_eq_ok]
  induction m generalizing k bs with
  | zero =>
    rw [Nat.zero_add, Nat.mul_zero, Nat.add_zero]
    constructor
    · exact fun h ↦ ⟨[], bs, rfl, h, rfl⟩
    · rintro ⟨hs, ds, hh, hd, rfl⟩
      cases hh
      exact hd
  | succ m ih =>
    have hk : k + 2 * (m + 1) = k + 2 + 2 * m := by omega
    rw [hk, Nat.add_right_comm m 1 n]
    simp only [parseHexBytes, bind_eq_ok, ih]
    constructor
    · rintro ⟨b, hb, bs', ⟨hs, ds, hh, hd, rfl⟩, hp⟩
      cases hp
      exact ⟨b :: hs, ds, ⟨b, hb, hs, hh, rfl⟩, hd, rfl⟩
    · rintro ⟨hs', ds, ⟨b, hb, hs, hh, hp⟩, hd, rfl⟩
      cases hp
      exact ⟨b, hb, hs ++ ds, ⟨hs, ds, hh, hd, rfl⟩, rfl⟩

private theorem length_looseBytes {behind : Nat → Char} {k n : Nat} {bs : List Byte}
    (h : looseBytes behind line k n = some bs) : bs.length = n := by
  induction n generalizing k bs with
  | zero =>
    cases h
    rfl
  | succ n ih =>
    rw [looseBytes] at h
    split at h
    · next b bs' _ hbs =>
      cases h
      rw [List.length_cons, ih hbs]
    · cases h

/-- Bytes are read past the terminator where more are wanted than lie within the line, and all
of these can be read. -/
theorem parseHexBytes_overran_iff (n k : Nat) : Overran (parseHexBytes noneBehind line k n) ↔
    room line k < n ∧ ∃ bs, looseBytes nuls line k (room line k) = some bs := by
  induction n generalizing k with
  | zero => exact iff_of_false (not_failsWith_ok _) fun h ↦ absurd h.1 (Nat.not_lt_zero _)
  | succ n ih =>
    rw [parseHexBytes, overran_bind]
    rcases parseHexByte_noneBehind line k with ⟨hk, heq⟩ | ⟨hk, hover⟩
    · have hno : ¬ Overran (parseHexByte (filled nuls) line k) :=
        not_overran_of_thrown (parseHexByte_thrown k)
      have hrest : ∀ b : Byte, Overran (do
            let bs ← parseHexBytes noneBehind line (k + 2) n
            return b :: bs) ↔
          Overran (parseHexBytes noneBehind line (k + 2) n) :=
        fun b ↦ overran_bind_left fun bs ↦ not_overran_ok _
      rw [heq, or_iff_right hno, room_of_le line hk]
      simp only [hrest, ih, Nat.add_lt_add_iff_right, ← parseHexBytes_eq_ok, parseHexBytes,
        bind_eq_ok]
      constructor
      · rintro ⟨b, hb, hlt, bs, hbs⟩
        exact ⟨hlt, b :: bs, b, hb, bs, hbs, rfl⟩
      · rintro ⟨hlt, -, b, hb, bs, hbs, -⟩
        exact ⟨b, hb, hlt, bs, hbs⟩
    · rw [room_of_lt line hk]
      exact iff_of_true (.inl hover) ⟨Nat.succ_pos n, [], rfl⟩

/-- Otherwise nothing behind the terminator matters. -/
theorem parseHexByte_eqUnless (k : Nat) :
    EqUnless (fun e ↦ ¬ e.Thrown) (parseHexByte noneBehind line k)
      (parseHexByte (filled nuls) line k) := by
  rcases parseHexByte_noneBehind line k with ⟨-, heq⟩ | ⟨-, hover⟩
  · exact .inr heq
  · exact .inl hover

private theorem parseHexBytes_eqUnless (n k : Nat) :
    EqUnless (fun e ↦ ¬ e.Thrown) (parseHexBytes noneBehind line k n)
      (parseHexBytes (filled nuls) line k n) := by
  induction n generalizing k with
  | zero => exact .refl _
  | succ n ih =>
    exact (parseHexByte_eqUnless line k).bind fun b ↦ (ih (k + 2)).bind fun bs ↦ .refl _

/-- Bytes are read in full where they lie within the line and all can be read. -/
theorem parseHexBytes_noneBehind_eq_ok {n k : Nat} {bs : List Byte} :
    parseHexBytes noneBehind line k n = .ok bs ↔
      n ≤ room line k ∧ looseBytes nuls line k n = some bs := by
  have hiff := parseHexBytes_overran_iff line n k
  rcases parseHexBytes_eqUnless line n k with hover | heq
  · obtain ⟨hlt, -⟩ := hiff.mp hover
    refine iff_of_false (fun h ↦ ?_) fun h ↦ absurd h.1 (Nat.not_le_of_lt hlt)
    rw [h] at hover
    exact not_overran_ok bs hover
  · rw [heq, parseHexBytes_eq_ok]
    refine ⟨fun h ↦ ⟨?_, h⟩, And.right⟩
    by_contra hlt
    -- what lies within the line could be read, so the next byte was past the terminator
    have hlt := Nat.lt_of_not_le hlt
    rw [show n = room line k + (n - room line k) by omega] at h
    obtain ⟨hs, ds, hh, -, -⟩ := (looseBytes_add line nuls).mp h
    have hover := hiff.mpr ⟨hlt, hs, hh⟩
    rw [heq] at hover
    exact not_overran_of_thrown (parseHexBytes_thrown n k) hover

end Bytes

/-! ### Records -/

section Records

variable {p : Progress} {line : List Char}

private theorem verifyChecksum_eqUnless :
    EqUnless (fun e ↦ ¬ e.Thrown) (verifyChecksum noneBehind line)
    (verifyChecksum (filled nuls) line) :=
  (parseHexBytes_eqUnless line _ _).bind fun _ ↦ .refl _

private theorem actOnRecord_eqUnless (count recType : Byte) (offset : BitVec 16) :
    EqUnless (fun e ↦ ¬ e.Thrown) (actOnRecord noneBehind p line count offset recType)
      (actOnRecord (filled nuls) p line count offset recType) := by
  obtain ⟨act, -, hact⟩ := exists_actOnRecord_eq p count recType offset
  rw [hact, hact]
  exact (parseHexBytes_eqUnless line _ _).bind fun _ ↦ .refl _

private theorem readRecord_eqUnless : EqUnless (fun e ↦ ¬ e.Thrown) (readRecord noneBehind p line)
    (readRecord (filled nuls) p line) := by
  unfold readRecord
  split
  · exact .refl _
  · have hbyte := parseHexByte_eqUnless (stripEnd line)
    exact verifyChecksum_eqUnless.bind fun _ ↦ (hbyte _).bind fun _ ↦ (hbyte _).bind fun _ ↦
      (hbyte _).bind fun _ ↦ (hbyte _).bind fun _ ↦ actOnRecord_eqUnless _ _ _

/-- The checksum runs over pairs that lie within the line. -/
theorem verifyChecksum_not_overran : ¬ Overran (verifyChecksum noneBehind line) := by
  unfold verifyChecksum
  rw [overran_bind_left, parseHexBytes_overran_iff]
  · rintro ⟨hlt, -⟩
    unfold room at hlt
    omega
  · intro bs
    split
    · exact not_overran_of_thrown (failsIn_error trivial)
    · exact not_overran_ok _

/-- A record overruns its line exactly where its data bytes do. -/
theorem actOnRecord_overran_iff (count recType : Byte) (offset : BitVec 16) :
    Overran (actOnRecord noneBehind p line count offset recType) ↔
      Overran (parseHexBytes noneBehind line 9 (dataWanted count recType)) := by
  obtain ⟨act, hthrown, hact⟩ := exists_actOnRecord_eq p count recType offset
  rw [hact]
  exact overran_bind_left fun bs ↦ not_overran_of_thrown (hthrown bs)

/-- The header and the data of a record overrun its line exactly where fewer bytes lie within it
than they call for. -/
theorem headerAndData_overran_iff :
    (Overran (parseHexBytes noneBehind line 1 4) ∨
        ∃ hs, parseHexBytes noneBehind line 1 4 = .ok hs ∧
          Overran (parseHexBytes noneBehind line 9 (dataWanted (hs.getD 0 0) (hs.getD 3 0)))) ↔
      ∃ bs, looseBytes nuls line 1 (line.length / 2) = some bs ∧
        line.length / 2 < 4 + dataWanted (bs.getD 0 0) (bs.getD 3 0) := by
  have hroom : room line 1 = line.length / 2 := by
    unfold room
    omega
  simp only [parseHexBytes_overran_iff, parseHexBytes_noneBehind_eq_ok, hroom]
  rcases Nat.lt_or_ge (line.length / 2) 4 with hlt | hge
  · constructor
    · rintro (⟨-, bs, hbs⟩ | ⟨hs, ⟨hle, -⟩, -⟩)
      · exact ⟨bs, hbs, by omega⟩
      · omega
    · rintro ⟨bs, hbs, -⟩
      exact .inl ⟨hlt, bs, hbs⟩
  · have hroom9 : line.length / 2 = 4 + room line 9 := by
      unfold room
      omega
    simp only [hroom9, looseBytes_add, Nat.add_lt_add_iff_left]
    constructor
    · rintro (⟨hlt, -⟩ | ⟨hs, ⟨-, hh⟩, hwant, ds, hd⟩)
      · omega
      · have hlen := length_looseBytes line hh
        refine ⟨hs ++ ds, ⟨hs, ds, hh, hd, rfl⟩, ?_⟩
        rw [List.getD_append _ _ _ _ (by omega), List.getD_append _ _ _ _ (by omega)]
        exact hwant
    · rintro ⟨-, ⟨hs, ds, hh, hd, rfl⟩, hwant⟩
      have hlen := length_looseBytes line hh
      rw [List.getD_append _ _ _ _ (by omega), List.getD_append _ _ _ _ (by omega)] at hwant
      exact .inr ⟨hs, ⟨Nat.le_add_right _ _, hh⟩, hwant, ds, hd⟩

/-- A line is read past its terminator exactly where it holds too few bytes. -/
theorem readRecord_overran_iff : Overran (readRecord noneBehind p line) ↔ Overruns line := by
  unfold readRecord
  by_cases hl : line.length < 11
  · rw [if_pos hl]
    exact iff_of_false (not_overran_of_thrown (failsIn_error trivial)) fun h ↦
      absurd h.long (Nat.not_le_of_lt hl)
  rw [if_neg hl]
  have hsum : verifyChecksum noneBehind (stripEnd line) =
      verifyChecksum (filled nuls) (stripEnd line) :=
    verifyChecksum_eqUnless.resolve_left verifyChecksum_not_overran
  have hfields : Overran (do
        let byteCount ← parseHexByte noneBehind (stripEnd line) 1
        let addrHi ← parseHexByte noneBehind (stripEnd line) 3
        let addrLo ← parseHexByte noneBehind (stripEnd line) 5
        let recType ← parseHexByte noneBehind (stripEnd line) 7
        actOnRecord noneBehind p (stripEnd line) byteCount (addrHi ++ addrLo) recType) ↔
      ∃ bs, looseBytes nuls (stripEnd line) 1 ((stripEnd line).length / 2) = some bs ∧
        (stripEnd line).length / 2 < 4 + dataWanted (bs.getD 0 0) (bs.getD 3 0) := by
    rw [← headerAndData_overran_iff, ← overran_bind]
    simp only [overran_bind, parseHexBytes, bind_assoc, pure_bind, actOnRecord_overran_iff,
      List.getD_cons_zero, List.getD_cons_succ]
  refine overran_bind.trans ?_
  rw [or_iff_right verifyChecksum_not_overran, hsum]
  constructor
  · rintro ⟨⟨⟩, hv, h⟩
    exact ⟨Nat.not_lt.mp hl, verifyChecksum_eq_ok.mp hv, hfields.mp h⟩
  · rintro ⟨-, hv, h⟩
    exact ⟨(), verifyChecksum_eq_ok.mpr hv, hfields.mpr h⟩

end Records

/-! ### Files -/

/-- A load reads past a terminator exactly where it comes to a line that overruns. -/
theorem readLines_overran_iff (ls seen : List (List Char)) (p : Progress) :
    Overran (readLines bounded seen p ls).1 ↔ ∃ l, ComesTo p.baseAddr ls l ∧ Overruns l := by
  induction ls generalizing seen p with
  | nil =>
    refine iff_of_false (not_overran_ok _) ?_
    rintro ⟨l, ⟨⟩, -⟩
  | cons line rest ih =>
    rw [readLines]
    split
    · next hl =>
      rw [ih]
      constructor
      · rintro ⟨l, hc, ho⟩
        exact ⟨l, .comment hl hc, ho⟩
      · rintro ⟨l, hc, ho⟩
        cases hc with
        | here hh => exact absurd hh hl
        | comment _ hc => exact ⟨l, hc, ho⟩
        | record hh _ _ => exact absurd hh hl
    · next hl =>
      have hl := Decidable.not_not.mp hl
      have hover := @readRecord_overran_iff p line
      rcases @readRecord_eqUnless p line with hr | heq
      · obtain ⟨e, he, hp⟩ := hr
        rw [bounded, he]
        exact iff_of_true ⟨e, rfl, hp⟩ ⟨line, .here hl, hover.mp ⟨e, he, hp⟩⟩
      · have hno : ¬ Overruns line := by
          rw [← hover, heq]
          exact not_overran_of_thrown readRecord_thrown
        have hread := @readRecord_eq_ok nuls p line
        rw [← heq] at hread
        -- a line that the load comes to later has this one read before it
        have hlater : ∀ l, ComesTo p.baseAddr (line :: rest) l → Overruns l →
            ∃ o, readRecord noneBehind p line = .ok (some o) ∧ ComesTo o.baseAddr rest l := by
          intro l hc ho
          cases hc with
          | here _ => exact absurd ho hno
          | comment hh _ => exact absurd hl hh
          | record _ hx hc =>
            obtain ⟨o, hok, hn⟩ := hread.mpr hx
            obtain ⟨o, rfl, rfl⟩ := Option.map_eq_some_iff.mp hn
            exact ⟨o, hok, hc⟩
        rw [bounded]
        cases hr : readRecord noneBehind p line with
        | error e =>
          rw [heq] at hr
          refine iff_of_false (fun h ↦ failsWith_error.mp h (readRecord_thrown e hr)) ?_
          rintro ⟨l, hc, ho⟩
          obtain ⟨o, hok, -⟩ := hlater l hc ho
          rw [heq, hr] at hok
          cases hok
        | ok o =>
          cases o with
          | none =>
            refine iff_of_false (not_overran_ok _) ?_
            rintro ⟨l, hc, ho⟩
            obtain ⟨o, hok, -⟩ := hlater l hc ho
            rw [hr] at hok
            cases hok
          | some p' =>
            dsimp only
            rw [ih]
            constructor
            · rintro ⟨l, hc, ho⟩
              exact ⟨l, .record hl (hread.mp ⟨some p', hr, rfl⟩) hc, ho⟩
            · rintro ⟨l, hc, ho⟩
              obtain ⟨o, hok, hc⟩ := hlater l hc ho
              rw [hr] at hok
              cases hok
              exact ⟨l, hc, ho⟩

/-- Every read of a load lies within its line. -/
def InBounds (result : Except LoadError (BitVec 32)) : Prop := ∀ i, result ≠ .error (.outOfRange i)

private theorem inBounds_iff {result : Except LoadError (BitVec 32)} :
    InBounds result ↔ ¬ Overran result := by
  constructor
  · rintro h ⟨e, he, hne⟩
    cases e with
    | loaderError _ | busFault _ => exact hne trivial
    | outOfRange i => exact h i he
  · intro h i hi
    exact h ⟨_, hi, id⟩

/-- The loader reads within its lines exactly where no line that it comes to overruns. -/
theorem load_ihex_inBounds_iff (mem : FlatMemoryBus) (path : String) (file : List Char) :
    InBounds (loadIhex bounded mem path (some file)).1 ↔
      ∀ l, ComesTo 0 (lines file) l → ¬ Overruns l := by
  rw [inBounds_iff]
  refine (not_congr (readLines_overran_iff (lines file) [] { mem := mem })).trans ?_
  simp only [not_exists, not_and]

/-- A record that declares 255 bytes and has none. -/
def overDeclaredFile : List Char := ":FF00000001\n".toList

/-- Its line of eleven characters is read at index 12. -/
theorem load_ihex_outOfRange :
    (loadIhex bounded .clear "declared.hex" (some overDeclaredFile)).1 =
        .error (.outOfRange 12) ∧
      ¬ InBounds (loadIhex bounded .clear "declared.hex" (some overDeclaredFile)).1 := by
  have hread : (loadIhex bounded .clear "declared.hex" (some overDeclaredFile)).1 =
      .error (.outOfRange 12) := by
    decide +kernel
  exact ⟨hread, fun h ↦ h 12 hread⟩

end McuSimulator.Loader
