import McuSimulator.Base.Fallible
import McuSimulator.Loader.Records

/-!
# What the Intel HEX loader accepts

`Accepted` describes, on the text alone, the files that the loader reads to an end: the
digits are read by prefix, the checksum runs over the pairs of the line, and the fields over
the declared count. `Slack` is the difference to a well-formed record: a line whose text after
the colon is not whole bytes in digits, or whose count does not match its bytes or its type.
Characters past the terminator of a line are arbitrary here.
-/

namespace McuSimulator.Loader

open McuSimulator.Base McuSimulator.Memory

/-! ### Reading by prefix -/

section

variable (behind : Nat → Char)

/-- Whatever follows the terminator has a value. -/
def filled : Behind := fun i ↦ some (behind i)

/-- The character at an index of `c_str()`. -/
def charOf (l : List Char) (i : Nat) : Char :=
  (l[i]?).getD (if i = l.length then Char.ofNat 0 else behind i)

/-- The byte at an index, read by prefix. -/
def looseByte (line : List Char) (k : Nat) : Option Byte :=
  fromChars (charOf behind line k) (charOf behind line (k + 1))

/-- Several of them. -/
def looseBytes (line : List Char) : Nat → Nat → Option (List Byte)
  | _, 0 => some []
  | k, n + 1 =>
    match looseByte behind line k, looseBytes line (k + 2) n with
    | some b, some bs => some (b :: bs)
    | _, _ => none

/-- The header of a stripped line: its pairs start with digits, sum to zero, and these are the
first four. -/
structure Header (line : List Char) (count addrHi addrLo recType : Byte) : Prop where
  pairs : ∃ bs, looseBytes behind line 1 ((line.length - 1) / 2) = some bs ∧ bs.sum = 0
  count : looseByte behind line 1 = some count
  addrHi : looseByte behind line 3 = some addrHi
  addrLo : looseByte behind line 5 = some addrLo
  recType : looseByte behind line 7 = some recType

/-- The fields of a stripped line can be read; the result is the base address that the next
line has, or `none` after an EOF record. -/
inductive Fields (base : BitVec 32) (line : List Char) (count : Byte) (offset : BitVec 16) :
    Byte → Option (BitVec 32) → Prop
  | data {bs : List Byte} {flat : Fin size} (hb : looseBytes behind line 9 count.toNat = some bs)
      (ht : FlatMemoryBus.translate (base + offset.setWidth 32) = .ok flat)
      (hf : flat.val + bs.length ≤ size) : Fields base line count offset 0 (some base)
  | eof : Fields base line count offset 1 none
  | segment {hi lo : Byte} (h : looseByte behind line 9 = some hi)
      (l : looseByte behind line 11 = some lo) :
      Fields base line count offset 2 (some ((hi ++ lo).setWidth 32 <<< 4))
  | linear {hi lo : Byte} (h : looseByte behind line 9 = some hi)
      (l : looseByte behind line 11 = some lo) :
      Fields base line count offset 4 (some ((hi ++ lo).setWidth 32 <<< 16))
  | start {bs : List Byte} (h : looseBytes behind line 9 4 = some bs) :
      Fields base line count offset 5 (some base)

/-- A line that starts with a colon can be read. -/
def Reads (base : BitVec 32) (line : List Char) (next : Option (BitVec 32)) : Prop :=
  11 ≤ line.length ∧ ∃ count hi lo recType,
    Header behind (stripEnd line) count hi lo recType ∧
      Fields behind base (stripEnd line) count (hi ++ lo) recType next

end

section

variable (past : List (List Char) → Nat → Char)

/-- Whatever follows the terminators has a value. -/
def total : Past := fun seen ↦ filled (past seen)

/-- The lines can be read, up to the first EOF record or the end, behind those in `seen`. -/
inductive Accepted : List (List Char) → BitVec 32 → List (List Char) → Prop
  | nil {seen : List (List Char)} {base : BitVec 32} : Accepted seen base []
  | comment {seen : List (List Char)} {base : BitVec 32} {l : List Char} {ls : List (List Char)}
      (hl : l.head? ≠ some ':') (h : Accepted (l :: seen) base ls) : Accepted seen base (l :: ls)
  | eof {seen : List (List Char)} {base : BitVec 32} {l : List Char} {ls : List (List Char)}
      (hl : l.head? = some ':') (hr : Reads (past (l :: seen)) base l none) :
      Accepted seen base (l :: ls)
  | record {seen : List (List Char)} {base next : BitVec 32} {l : List Char}
      {ls : List (List Char)} (hl : l.head? = some ':')
      (hr : Reads (past (l :: seen)) base l (some next)) (h : Accepted (l :: seen) next ls) :
      Accepted seen base (l :: ls)

/-- The record line is one that can be read, and so are those before it, which are no EOF
records. -/
inductive Passes : List (List Char) → BitVec 32 → List (List Char) → List Char → Prop
  | here {seen : List (List Char)} {base : BitVec 32} {next : Option (BitVec 32)} {l : List Char}
      {ls : List (List Char)} (hl : l.head? = some ':')
      (hr : Reads (past (l :: seen)) base l next) : Passes seen base (l :: ls) l
  | comment {seen : List (List Char)} {base : BitVec 32} {l l' : List Char}
      {ls : List (List Char)} (hl : l.head? ≠ some ':') (h : Passes (l :: seen) base ls l') :
      Passes seen base (l :: ls) l'
  | record {seen : List (List Char)} {base next : BitVec 32} {l l' : List Char}
      {ls : List (List Char)} (hl : l.head? = some ':')
      (hr : Reads (past (l :: seen)) base l (some next)) (h : Passes (l :: seen) next ls l') :
      Passes seen base (l :: ls) l'

end

/-- The line is not the digits of whole bytes, or its count does not match its bytes or its
type. -/
def Slack (line : List Char) : Prop :=
  match hexBytes (stripEnd line).tail with
  | some (count :: _ :: _ :: recType :: rest) =>
    rest.length ≠ count.toNat + 1 ∨ ((recType = 2 ∨ recType = 4) ∧ count ≠ 2) ∨
      (recType = 5 ∧ count ≠ 4)
  | _ => True

instance (line : List Char) : Decidable (Slack line) := by
  unfold Slack
  split <;> infer_instance

/-- Every line that starts with a colon, up to the first EOF record, spells a well-formed
record. -/
inductive WellFormed : List (List Char) → Prop
  | nil : WellFormed []
  | comment {l : List Char} {ls : List (List Char)} (hl : l.head? ≠ some ':')
      (h : WellFormed ls) : WellFormed (l :: ls)
  | eof {l : List Char} {ls : List (List Char)} {r : Record} (hr : r.SpelledBy l)
      (ht : r.recType = 1) : WellFormed (l :: ls)
  | record {l : List Char} {ls : List (List Char)} {r : Record} (hr : r.SpelledBy l)
      (h : WellFormed ls) : WellFormed (l :: ls)

/-! ### Acceptance -/

section Accept

variable {behind : Nat → Char} {p : Progress} {line : List Char}

/-- A read past the end returns what is behind the line. -/
theorem charAt_filled (line : List Char) (i : Nat) :
    charAt (filled behind) line i = .ok (charOf behind line i) := by
  unfold charAt charOf filled
  split
  · next c hc => rw [hc, Option.getD_some]
  · next hc =>
    rw [hc, Option.getD_none]
    split
    · rfl
    · rfl

private theorem parseHexByte_eq_ok {k : Nat} {b : Byte} :
    parseHexByte (filled behind) line k = .ok b ↔ looseByte behind line k = some b := by
  simp only [parseHexByte, charAt_filled, bind, Except.bind, looseByte]
  cases fromChars (charOf behind line k) (charOf behind line (k + 1)) with
  | none => simp [throw, throwThe, MonadExceptOf.throw]
  | some v => simp [pure, Except.pure]

/-- The bytes that are read are those of the characters. -/
theorem parseHexBytes_eq_ok {k n : Nat} {bs : List Byte} :
    parseHexBytes (filled behind) line k n = .ok bs ↔ looseBytes behind line k n = some bs := by
  induction n generalizing k bs with
  | zero => simp [parseHexBytes, looseBytes, pure, Except.pure]
  | succ n ih =>
    rw [parseHexBytes, looseBytes, bind_eq_ok]
    simp only [bind_eq_ok, parseHexByte_eq_ok, ih, pure, Except.pure, Except.ok.injEq]
    cases looseByte behind line k with
    | none => simp
    | some b =>
      cases looseBytes behind line (k + 2) n with
      | none => simp
      | some bs' => simp

/-- The check passes where all bytes are read and sum up to zero. -/
theorem verifyChecksum_eq_ok :
    verifyChecksum (filled behind) line = .ok () ↔
      ∃ bs, looseBytes behind line 1 ((line.length - 1) / 2) = some bs ∧ bs.sum = 0 := by
  rw [verifyChecksum, bind_eq_ok]
  simp only [parseHexBytes_eq_ok]
  refine exists_congr fun bs ↦ and_congr_right fun _ ↦ ?_
  split
  · next hs => exact iff_of_false (by simp [throw, throwThe, MonadExceptOf.throw]) hs
  · next hs => exact iff_of_true rfl (Decidable.not_not.mp hs)

/-- What a record does to the base address does not depend on the memory. -/
private theorem fields_of_actOnRecord {count recType : Byte} {offset : BitVec 16}
    {o : Option Progress} (h : actOnRecord (filled behind) p line count offset recType = .ok o) :
    Fields behind p.baseAddr line count offset recType (o.map Progress.baseAddr) := by
  unfold actOnRecord at h
  split at h
  · next ht =>
    obtain ⟨bs, hb, h⟩ := bind_eq_ok.mp h
    rw [parseHexBytes_eq_ok] at hb
    rw [ht]
    cases htr : FlatMemoryBus.translate (p.baseAddr + offset.setWidth 32) with
    | error e =>
      simp only [FlatMemoryBus.load, htr] at h
      cases h
    | ok flat =>
      simp only [FlatMemoryBus.load, htr] at h
      split at h
      · next hl =>
        split at hl
        · next hf =>
          cases h
          exact .data hb htr hf
        · cases hl
      · cases h
  · split at h
    · next ht =>
      cases h
      rw [ht]
      exact .eof
    · split at h
      · next ht =>
        obtain ⟨hi, hh, h⟩ := bind_eq_ok.mp h
        obtain ⟨lo, hl, h⟩ := bind_eq_ok.mp h
        cases h
        rw [ht]
        exact .segment (parseHexByte_eq_ok.mp hh) (parseHexByte_eq_ok.mp hl)
      · split at h
        · next ht =>
          obtain ⟨hi, hh, h⟩ := bind_eq_ok.mp h
          obtain ⟨lo, hl, h⟩ := bind_eq_ok.mp h
          cases h
          rw [ht]
          exact .linear (parseHexByte_eq_ok.mp hh) (parseHexByte_eq_ok.mp hl)
        · split at h
          · next ht =>
            obtain ⟨bs, hb, h⟩ := bind_eq_ok.mp h
            cases h
            rw [ht]
            exact .start (parseHexBytes_eq_ok.mp hb)
          · cases h

/-- Readable fields are acted on. -/
private theorem actOnRecord_of_fields {count recType : Byte} {offset : BitVec 16}
    {next : Option (BitVec 32)}
    (h : Fields behind p.baseAddr line count offset recType next) :
    ∃ o, actOnRecord (filled behind) p line count offset recType = .ok o ∧
      o.map Progress.baseAddr = next := by
  cases h with
  | @data bs flat hb ht hf =>
    rw [← parseHexBytes_eq_ok] at hb
    refine ⟨some { p with mem := p.mem.memcpy flat bs }, ?_, rfl⟩
    simp only [actOnRecord, if_true, hb, bind, Except.bind, FlatMemoryBus.load, ht, if_pos hf]
    rfl
  | eof => exact ⟨none, rfl, rfl⟩
  | @segment hi lo hh hl =>
    rw [← parseHexByte_eq_ok] at hh hl
    refine ⟨some { p with baseAddr := (hi ++ lo).setWidth 32 <<< 4 }, ?_, rfl⟩
    simp only [actOnRecord, hh, hl, bind, Except.bind]
    rfl
  | @linear hi lo hh hl =>
    rw [← parseHexByte_eq_ok] at hh hl
    refine ⟨some { p with baseAddr := (hi ++ lo).setWidth 32 <<< 16 }, ?_, rfl⟩
    simp only [actOnRecord, hh, hl, bind, Except.bind]
    rfl
  | @start bs hb =>
    rw [← parseHexBytes_eq_ok] at hb
    refine ⟨some { p with
      entryPoint := bs.foldl (fun e b ↦ e <<< 8 ||| b.setWidth 32) p.entryPoint }, ?_, rfl⟩
    simp only [actOnRecord, hb, bind, Except.bind]
    rfl

/-- The loader gets through a line exactly when the line can be read. -/
theorem readRecord_eq_ok {next : Option (BitVec 32)} :
    (∃ o, readRecord (filled behind) p line = .ok o ∧ o.map Progress.baseAddr = next) ↔
      Reads behind p.baseAddr line next := by
  unfold readRecord Reads
  by_cases hl : line.length < 11
  · rw [if_pos hl]
    refine iff_of_false ?_ fun h ↦ absurd h.1 (Nat.not_le.mpr hl)
    rintro ⟨o, ho, -⟩
    cases ho
  · rw [if_neg hl]
    simp only [bind_eq_ok, parseHexByte_eq_ok]
    constructor
    · rintro ⟨o, ⟨⟨⟩, hv, count, hc, hi, hh, lo, hlo, ty, ht, ha⟩, rfl⟩
      exact ⟨Nat.not_lt.mp hl, count, hi, lo, ty, ⟨verifyChecksum_eq_ok.mp hv, hc, hh, hlo, ht⟩,
        fields_of_actOnRecord ha⟩
    · rintro ⟨-, count, hi, lo, ty, hd, hf⟩
      obtain ⟨o, ho, hn⟩ := actOnRecord_of_fields hf
      exact ⟨o, ⟨(), verifyChecksum_eq_ok.mpr hd.pairs, count, hd.count, hi, hd.addrHi,
        lo, hd.addrLo, ty, hd.recType, ho⟩, hn⟩

/-- The loader returns exactly on the accepted texts. -/
theorem readLines_ok_iff (past : List (List Char) → Nat → Char) (ls seen : List (List Char))
    (p : Progress) :
    (∃ v, (readLines (total past) seen p ls).1 = .ok v) ↔ Accepted past seen p.baseAddr ls := by
  induction ls generalizing seen p with
  | nil => exact iff_of_true ⟨_, rfl⟩ .nil
  | cons l ls ih =>
    rw [readLines]
    split
    · next hl =>
      rw [ih]
      refine ⟨.comment hl, fun h ↦ ?_⟩
      cases h with
      | comment _ h => exact h
      | eof hc _ => exact absurd hc hl
      | record hc _ _ => exact absurd hc hl
    · next hl =>
      have hl := Decidable.not_not.mp hl
      have hread := @readRecord_eq_ok (past (l :: seen)) p l
      rw [total]
      cases hr : readRecord (filled (past (l :: seen))) p l with
      | error e =>
        rw [hr] at hread
        refine iff_of_false (by simp) fun h ↦ ?_
        have hno : ∀ next, ¬ Reads (past (l :: seen)) p.baseAddr l next := by
          intro next hx
          obtain ⟨o, ho, -⟩ := hread.mpr hx
          cases ho
        cases h with
        | comment hc _ => exact hc hl
        | eof _ hx => exact hno _ hx
        | record _ hx _ => exact hno _ hx
      | ok o =>
        rw [hr] at hread
        cases o with
        | none => exact iff_of_true ⟨_, rfl⟩ (.eof hl (hread.mp ⟨none, rfl, rfl⟩))
        | some p' =>
          dsimp only
          rw [ih]
          refine ⟨.record hl (hread.mp ⟨some p', rfl, rfl⟩), fun h ↦ ?_⟩
          cases h with
          | comment hc _ => exact absurd hl hc
          | eof _ hx =>
            obtain ⟨o, ho, hn⟩ := hread.mpr hx
            cases ho
            cases hn
          | record _ hx h =>
            obtain ⟨o, ho, hn⟩ := hread.mpr hx
            cases ho
            cases hn
            exact h

/-! ### Accepted and well formed -/

/-- On spelled bytes, reading by prefix gives the byte at its place. -/
theorem looseByte_of_hexBytes (behind : Nat → Char) {cs : List Char} {bs : List Byte}
    (h : hexBytes cs = some bs)
    {i : Nat} (hi : i < bs.length) : looseByte behind (':' :: cs) (2 * i + 1) = some bs[i] :=
  parseHexByte_eq_ok.mp (parseHexByte_of_hexBytes (filled behind) h hi)

/-- A line that starts with a colon still does without its end. -/
theorem stripEnd_of_head? (h : line.head? = some ':') : ∃ cs, stripEnd line = ':' :: cs := by
  obtain ⟨rest, rfl⟩ : ∃ rest, line = ':' :: rest := by
    cases line with
    | nil => cases h
    | cons c rest => exact ⟨rest, by rw [Option.some.inj h]⟩
  obtain ⟨t, ht⟩ := List.rdropWhile_prefix
    (fun c : Char ↦ decide (c = '\r' ∨ c = '\n')) (':' :: rest)
  cases hs : stripEnd (':' :: rest) with
  | nil =>
    have hall := List.rdropWhile_eq_nil_iff.mp hs ':' List.mem_cons_self
    exact absurd hall (by decide)
  | cons c cs =>
    unfold stripEnd at hs
    rw [hs] at ht
    exact ⟨cs, by rw [(List.cons.inj ht).1]⟩

private theorem not_slack_of_spelledBy {r : Record} (h : r.SpelledBy line) : ¬ Slack line := by
  obtain ⟨cs, hs, hb⟩ := h
  have hlen := r.length_data
  simp only [Slack, hs, List.tail_cons, hb, Record.bytes, List.length_append,
    List.length_singleton]
  rintro (hne | ⟨ht, hc⟩ | ⟨ht, hc⟩)
  · exact hne (by omega)
  · exact hc (r.base_count ht)
  · exact hc (r.start_count ht)

private theorem WellFormed.not_slack {ls : List (List Char)} (h : WellFormed (line :: ls))
    (hl : line.head? = some ':') : ¬ Slack line := by
  cases h with
  | comment hc _ => exact absurd hl hc
  | eof hr _ | record hr _ => exact not_slack_of_spelledBy hr

private theorem Fields.known {base : BitVec 32} {count recType : Byte} {offset : BitVec 16}
    {next : Option (BitVec 32)} (h : Fields behind base line count offset recType next) :
    recType = 0 ∨ recType = 1 ∨ recType = 2 ∨ recType = 4 ∨ recType = 5 := by
  cases h <;> simp

/-- The type that a readable line has, and whether it ends the file. -/
theorem Reads.recType {base : BitVec 32} {next : Option (BitVec 32)}
    (h : Reads behind base line next) :
    ∃ ty, looseByte behind (stripEnd line) 7 = some ty ∧ (ty = 1 ↔ next = none) := by
  obtain ⟨-, count, hi, lo, ty, hd, hf⟩ := h
  refine ⟨ty, hd.recType, ?_⟩
  cases hf <;> simp

/-- A line can be read in one way only. -/
theorem Reads.unique {base : BitVec 32} {next next' : Option (BitVec 32)}
    (h : Reads behind base line next) (h' : Reads behind base line next') : next = next' := by
  obtain ⟨o, ho, rfl⟩ := (readRecord_eq_ok (p := { mem := .clear, baseAddr := base })).mpr h
  obtain ⟨o', ho', rfl⟩ := (readRecord_eq_ok (p := { mem := .clear, baseAddr := base })).mpr h'
  rw [Except.ok.inj (ho.symm.trans ho')]

/-- The type of a record is the one that its line reads as. -/
theorem looseByte_of_spelledBy (behind : Nat → Char) {r : Record} (h : r.SpelledBy line) :
    looseByte behind (stripEnd line) 7 = some r.recType := by
  obtain ⟨cs, hs, hb⟩ := h
  have hlen := r.length_bytes
  have ht := looseByte_of_hexBytes behind hb (i := 3) (by omega)
  rw [hs]
  exact ht

/-- A readable line that is not slack spells a record. -/
theorem Reads.exists_record {base : BitVec 32} {next : Option (BitVec 32)}
    (h : Reads behind base line next) (hl : line.head? = some ':') (hn : ¬ Slack line) :
    ∃ r : Record, r.SpelledBy line := by
  obtain ⟨cs, hs⟩ := stripEnd_of_head? hl
  obtain ⟨-, count, hi, lo, ty, hd, hf⟩ := h
  rw [hs] at hd hf
  simp only [Slack, hs, List.tail_cons] at hn
  split at hn
  · next count' hi' lo' ty' rest hb =>
    simp only [not_or, not_and, Decidable.not_not] at hn
    obtain ⟨hlen, hbase, hstart⟩ := hn
    -- the fields of the line are the bytes it spells
    have hc : some count' = some count :=
      (looseByte_of_hexBytes behind hb (i := 0) (by simp)).symm.trans hd.count
    have ht : some ty' = some ty :=
      (looseByte_of_hexBytes behind hb (i := 3) (by simp)).symm.trans hd.recType
    cases hc
    cases ht
    have hne : rest ≠ [] := fun h0 ↦ by
      rw [h0] at hlen
      exact absurd hlen (by simp)
    have hrest : rest.dropLast ++ [rest.getLast hne] = rest := List.dropLast_append_getLast hne
    have hsum : (count :: hi' :: lo' :: ty :: rest).sum = 0 := by
      obtain ⟨bs, hbs, h0⟩ := hd.pairs
      have hcs := length_of_hexBytes hb
      have hcount : ((':' :: cs).length - 1) / 2 = (count :: hi' :: lo' :: ty :: rest).length := by
        rw [List.length_cons, hcs]
        omega
      have hall := parseHexBytes_of_hexBytes (filled behind) hb
        (count :: hi' :: lo' :: ty :: rest).length 0 (by omega)
      rw [List.drop_zero, List.take_length, parseHexBytes_eq_ok] at hall
      rw [hcount] at hbs
      rw [Option.some.inj (hall.symm.trans hbs)]
      exact h0
    refine ⟨⟨count, hi', lo', ty, rest.dropLast, rest.getLast hne, ?_, ?_, hf.known, ?_, ?_⟩,
      cs, hs, ?_⟩
    · rw [List.length_dropLast]
      omega
    · rw [hrest]
      exact hsum
    · exact hbase
    · exact hstart
    · simp only [Record.bytes, hrest]
      exact hb
  · exact absurd trivial hn

section WellFormed

variable {past : List (List Char) → Nat → Char} {seen : List (List Char)}

/-- Among accepted texts, the well-formed ones are those without a slack line. -/
theorem Accepted.wellFormed_iff {base : BitVec 32} {ls : List (List Char)}
    (h : Accepted past seen base ls) :
    WellFormed ls ↔ ∀ l, Passes past seen base ls l → ¬ Slack l := by
  induction h with
  | nil =>
    refine iff_of_true .nil fun l hp ↦ ?_
    cases hp
  | @comment seen base l ls hl _ ih =>
    constructor
    · intro h l' hp
      cases h with
      | comment _ h =>
        cases hp with
        | here hc _ => exact absurd hc hl
        | comment _ hp => exact ih.mp h l' hp
        | record hc _ _ => exact absurd hc hl
      | eof hr _ | record hr _ =>
        obtain ⟨cs, hs, -⟩ := hr
        exact absurd (head?_of_stripEnd hs) hl
    · exact fun h ↦ .comment hl (ih.mpr fun l' hp ↦ h l' (.comment hl hp))
  | @eof seen base l ls hl hr =>
    obtain ⟨ty, hty, hiff⟩ := hr.recType
    rw [hiff.mpr rfl] at hty
    constructor
    · intro h l' hp
      cases hp with
      | here _ _ => exact h.not_slack hl
      | comment hc _ => exact absurd hl hc
      | record _ hr' _ =>
        obtain ⟨ty', hty', hiff'⟩ := hr'.recType
        have hsame := Option.some.inj (hty.symm.trans hty')
        cases hiff'.mp hsame.symm
    · intro hn
      obtain ⟨r, hsp⟩ := hr.exists_record hl (hn l (.here hl hr))
      have hrt := (looseByte_of_spelledBy _ hsp).symm.trans hty
      exact .eof hsp (Option.some.inj hrt)
  | @record seen base next l ls hl hr _ ih =>
    obtain ⟨ty, hty, hiff⟩ := hr.recType
    have hne : ty ≠ 1 := fun h1 ↦ by cases hiff.mp h1
    constructor
    · intro h l' hp
      cases hp with
      | here _ _ => exact h.not_slack hl
      | comment hc _ => exact absurd hl hc
      | record _ hr' hp =>
        cases hr'.unique hr
        cases h with
        | comment hc _ => exact absurd hl hc
        | eof hsp ht =>
          have hrt := (looseByte_of_spelledBy _ hsp).symm.trans hty
          exact absurd ((Option.some.inj hrt).symm.trans ht) hne
        | record _ h => exact ih.mp h l' hp
    · intro hn
      obtain ⟨r, hsp⟩ := hr.exists_record hl (hn l (.here hl hr))
      exact .record hsp (ih.mpr fun l' hp ↦ hn l' (.record hl hr hp))

end WellFormed

/-! ### Exceptions -/

/-- The error is an exception of the source. -/
def LoadError.Thrown : LoadError → Prop
  | .loaderError _ | .busFault _ => True
  | .outOfRange _ => False

/-- A byte is refused by an exception. -/
theorem parseHexByte_thrown (k : Nat) :
    FailsIn LoadError.Thrown (parseHexByte (filled behind) line k) := by
  simp only [parseHexByte, charAt_filled]
  refine (failsIn_ok _).bind fun a ↦ (failsIn_ok _).bind fun b ↦ ?_
  cases fromChars a b with
  | none => exact failsIn_error trivial
  | some v => exact failsIn_ok v

/-- Bytes are refused by an exception. -/
theorem parseHexBytes_thrown (n k : Nat) :
    FailsIn LoadError.Thrown (parseHexBytes (filled behind) line k n) := by
  induction n generalizing k with
  | zero => exact failsIn_ok _
  | succ n ih =>
    rw [parseHexBytes]
    exact (parseHexByte_thrown k).bind fun b ↦ (ih (k + 2)).bind fun bs ↦ failsIn_ok _

private theorem verifyChecksum_thrown :
    FailsIn LoadError.Thrown (verifyChecksum (filled behind) line) := by
  unfold verifyChecksum
  refine (parseHexBytes_thrown _ _).bind fun bs ↦ ?_
  split
  · exact failsIn_error trivial
  · exact failsIn_ok _

/-- The data bytes that a record of this count and type is read for. -/
def dataWanted (count recType : Byte) : Nat :=
  if recType = 0 then count.toNat
  else if recType = 2 ∨ recType = 4 then 2
  else if recType = 5 then 4
  else 0

/-- A record is acted on once its data bytes are read; what is done then reads nothing more, and
fails with exceptions only. -/
theorem exists_actOnRecord_eq (p : Progress) (count recType : Byte) (offset : BitVec 16) :
    ∃ act : List Byte → Except LoadError (Option Progress),
      (∀ bs, FailsIn LoadError.Thrown (act bs)) ∧ ∀ (any : Behind) (line : List Char),
        actOnRecord any p line count offset recType =
          parseHexBytes any line 9 (dataWanted count recType) >>= act := by
  have hpair : ∀ (f : Byte → Byte → Option Progress) (any : Behind) (line : List Char),
      (do
          let hi ← parseHexByte any line 9
          let lo ← parseHexByte any line 11
          return f hi lo) =
        parseHexBytes any line 9 2 >>= fun bs ↦ return f (bs.getD 0 0) (bs.getD 1 0) := by
    intro f any line
    simp [parseHexBytes]
  unfold actOnRecord dataWanted
  by_cases h0 : recType = 0
  · refine ⟨_, fun bs ↦ ?_, fun any line ↦ by rw [if_pos h0, if_pos h0]⟩
    cases p.mem.load (p.baseAddr + offset.setWidth 32) bs with
    | error f => exact failsIn_error trivial
    | ok m => exact failsIn_ok _
  by_cases h1 : recType = 1
  · subst h1
    exact ⟨fun _ ↦ .ok none, fun _ ↦ failsIn_ok _, fun any line ↦ rfl⟩
  by_cases h2 : recType = 2
  · subst h2
    exact ⟨_, fun _ ↦ failsIn_ok _, fun any line ↦ hpair _ any line⟩
  by_cases h4 : recType = 4
  · subst h4
    exact ⟨_, fun _ ↦ failsIn_ok _, fun any line ↦ hpair _ any line⟩
  by_cases h5 : recType = 5
  · subst h5
    exact ⟨_, fun _ ↦ failsIn_ok _, fun any line ↦ rfl⟩
  · refine ⟨fun _ ↦ .error (.loaderError ("Unknown HEX record type: " ++ toString recType.toNat)),
      fun _ ↦ failsIn_error trivial, fun any line ↦ ?_⟩
    rw [if_neg h0, if_neg h1, if_neg h2, if_neg h4, if_neg h5, if_neg h0,
      if_neg (not_or.mpr ⟨h2, h4⟩), if_neg h5]
    rfl

private theorem actOnRecord_thrown (count recType : Byte) (offset : BitVec 16) :
    FailsIn LoadError.Thrown (actOnRecord (filled behind) p line count offset recType) := by
  obtain ⟨act, hthrown, hact⟩ := exists_actOnRecord_eq p count recType offset
  rw [hact]
  exact (parseHexBytes_thrown _ _).bind hthrown

/-- A record is refused by an exception. -/
theorem readRecord_thrown : FailsIn LoadError.Thrown (readRecord (filled behind) p line) := by
  unfold readRecord
  split
  · exact failsIn_error trivial
  · exact verifyChecksum_thrown.bind fun _ ↦ (parseHexByte_thrown _).bind fun count ↦
      (parseHexByte_thrown _).bind fun hi ↦ (parseHexByte_thrown _).bind fun lo ↦
        (parseHexByte_thrown _).bind fun ty ↦ actOnRecord_thrown _ _ _

private theorem readLines_thrown (past : List (List Char) → Nat → Char) (ls seen : List (List Char))
    (p : Progress) : FailsIn LoadError.Thrown (readLines (total past) seen p ls).1 := by
  induction ls generalizing seen p with
  | nil => exact failsIn_ok _
  | cons l ls ih =>
    rw [readLines]
    split
    · exact ih (l :: seen) p
    · cases hr : readRecord (total past (l :: seen)) p l with
      | error e => exact failsIn_error (readRecord_thrown e hr)
      | ok o =>
        cases o with
        | none => exact failsIn_ok _
        | some p' => exact ih (l :: seen) p'

end Accept

/-! ### Checksum bytes -/

/-- The place in a line of the data byte with this index; src/loader.cpp:72–73. -/
def dataAt (i : Nat) : Nat := 9 + 2 * i

/-- The place of the last pair that `verify_checksum` sums, which is the checksum. -/
def checksumAt (line : List Char) : Nat := 1 + 2 * ((line.length - 1) / 2 - 1)

/-- The load comes to the record line with this progress: it has got through the record lines before
it. The lines in `seen'` have been read then. -/
inductive LoadsTo (past : Past) : List (List Char) → Progress → List (List Char) →
    List (List Char) → Progress → List Char → Prop
  | here {seen ls : List (List Char)} {p : Progress} {l : List Char} (hl : l.head? = some ':') :
      LoadsTo past seen p (l :: ls) (l :: seen) p l
  | comment {seen seen' ls : List (List Char)} {p p' : Progress} {l l' : List Char}
      (hl : l.head? ≠ some ':') (h : LoadsTo past (l :: seen) p ls seen' p' l') :
      LoadsTo past seen p (l :: ls) seen' p' l'
  | record {seen seen' ls : List (List Char)} {p q p' : Progress} {l l' : List Char}
      (hl : l.head? = some ':') (hr : readRecord (past (l :: seen)) p l = .ok (some q))
      (h : LoadsTo past (l :: seen) q ls seen' p' l') : LoadsTo past seen p (l :: ls) seen' p' l'

/-- No data record that the load acts on stores its checksum as one of its data bytes. -/
def KeepsChecksums (past : Past) (mem : FlatMemoryBus) (ls : List (List Char)) : Prop :=
  ∀ seen p l o count, LoadsTo past [] { mem := mem } ls seen p l →
    readRecord (past seen) p l = .ok o → parseHexByte (past seen) (stripEnd l) 1 = .ok count →
    parseHexByte (past seen) (stripEnd l) 7 = .ok 0 →
    ∀ i < count.toNat, dataAt i ≠ checksumAt (stripEnd l)

/-- The byte at an index, if its two characters lie within the line. -/
def pairAt (cs : List Char) (k : Nat) : Option Byte :=
  match cs[k]?, cs[k + 1]? with
  | some a, some b => fromChars a b
  | _, _ => none

/-- A data record whose line has pairs for its header and its checksum, but fewer than its count
calls for. -/
def TakesChecksum (line : List Char) : Prop :=
  ∃ count ∈ pairAt (stripEnd line) 1, pairAt (stripEnd line) 7 = some 0 ∧
    5 ≤ ((stripEnd line).length - 1) / 2 ∧
    ((stripEnd line).length - 1) / 2 < 4 + count.toNat + 1

instance (line : List Char) : Decidable (TakesChecksum line) :=
  inferInstanceAs (Decidable (∃ count ∈ pairAt (stripEnd line) 1, _))

section Checksums

variable {past : List (List Char) → Nat → Char}

/-- A pair within the line is read as it stands. -/
theorem looseByte_eq_pairAt (behind : Nat → Char) {line : List Char} {k : Nat}
    (h : k + 1 < line.length) : looseByte behind line k = pairAt line k := by
  have hk : k < line.length := Nat.lt_of_succ_lt h
  rw [looseByte, charOf, charOf, pairAt, List.getElem?_eq_getElem h, List.getElem?_eq_getElem hk,
    Option.getD_some, Option.getD_some]

/-- The checksum is among the declared data bytes exactly where the line is too short for them. -/
theorem takesChecksum_iff (behind : Nat → Char) (line : List Char) :
    TakesChecksum line ↔ ∃ count, looseByte behind (stripEnd line) 1 = some count ∧
      looseByte behind (stripEnd line) 7 = some 0 ∧
      ∃ i < count.toNat, dataAt i = checksumAt (stripEnd line) := by
  unfold TakesChecksum dataAt checksumAt
  generalize stripEnd line = l
  by_cases hlong : 5 ≤ (l.length - 1) / 2
  · rw [looseByte_eq_pairAt behind (by omega : 1 + 1 < l.length),
      looseByte_eq_pairAt behind (by omega : 7 + 1 < l.length)]
    refine exists_congr fun count ↦ and_congr_right fun _ ↦ and_congr_right fun _ ↦ ?_
    constructor
    · rintro ⟨-, hlt⟩
      exact ⟨(l.length - 1) / 2 - 5, by omega, by omega⟩
    · rintro ⟨i, hi, heq⟩
      exact ⟨hlong, by omega⟩
  · refine iff_of_false ?_ ?_
    · rintro ⟨count, -, -, h5, -⟩
      exact hlong h5
    · rintro ⟨count, -, -, i, -, heq⟩
      omega

/-- What the load comes to and reads is a line that it gets through on the text. -/
theorem LoadsTo.passes {seen seen' ls : List (List Char)} {p p' : Progress} {l : List Char}
    {o : Option Progress} (h : LoadsTo (total past) seen p ls seen' p' l)
    (ho : readRecord (total past seen') p' l = .ok o) : Passes past seen p.baseAddr ls l := by
  induction h with
  | here hl => exact .here hl (readRecord_eq_ok.mp ⟨o, ho, rfl⟩)
  | comment hl _ ih => exact .comment hl (ih ho)
  | record hl hr _ ih => exact .record hl (readRecord_eq_ok.mp ⟨_, hr, rfl⟩) (ih ho)

/-- And every such line is come to and read. -/
theorem Passes.loadsTo {seen ls : List (List Char)} {base : BitVec 32} {l : List Char}
    (h : Passes past seen base ls l) (p : Progress) (hp : p.baseAddr = base) :
    ∃ seen' p' o, LoadsTo (total past) seen p ls seen' p' l ∧
      readRecord (total past seen') p' l = .ok o := by
  induction h generalizing p with
  | @here seen base next l ls hl hr =>
    subst hp
    obtain ⟨o, ho, -⟩ := readRecord_eq_ok.mpr hr
    exact ⟨l :: seen, p, o, .here hl, ho⟩
  | comment hl _ ih =>
    obtain ⟨seen', p', o, hto, ho⟩ := ih p hp
    exact ⟨seen', p', o, .comment hl hto, ho⟩
  | record hl hr _ ih =>
    subst hp
    obtain ⟨o, ho, hn⟩ := readRecord_eq_ok.mpr hr
    obtain ⟨q, rfl, hq⟩ := Option.map_eq_some_iff.mp hn
    obtain ⟨seen', p', o', hto, ho'⟩ := ih q hq
    exact ⟨seen', p', o', .record hl ho hto, ho'⟩

/-- Checksums are kept exactly where no line that the load gets through takes its own. -/
theorem keepsChecksums_iff (mem : FlatMemoryBus) (ls : List (List Char)) :
    KeepsChecksums (total past) mem ls ↔ ∀ l, Passes past [] 0 ls l → ¬ TakesChecksum l := by
  constructor
  · intro h l hl htakes
    obtain ⟨seen, p, o, hto, ho⟩ := hl.loadsTo { mem := mem } rfl
    obtain ⟨count, hc, ht, i, hi, heq⟩ := (takesChecksum_iff (past seen) l).mp htakes
    exact h seen p l o count hto ho (parseHexByte_eq_ok.mpr hc) (parseHexByte_eq_ok.mpr ht) i hi heq
  · intro h seen p l o count hto ho hc ht i hi heq
    refine h l (hto.passes ho) ((takesChecksum_iff (past seen) l).mpr ?_)
    exact ⟨count, parseHexByte_eq_ok.mp hc, parseHexByte_eq_ok.mp ht, i, hi, heq⟩

end Checksums

/-! ### Accepting only well-formed files -/

/-- The load returns only if the text is well formed, and throws otherwise. -/
structure AcceptsOnlyWellFormed (result : Except LoadError (BitVec 32))
    (ls : List (List Char)) : Prop where
  returns : (∃ v, result = .ok v) → WellFormed ls
  throws : ¬ WellFormed ls → ∃ e, result = .error e ∧ e.Thrown

/-- The load returns only well-formed files exactly where it gets through no slack line on its way
to the end of the records. -/
theorem acceptsOnlyWellFormed_iff (past : List (List Char) → Nat → Char) (mem : FlatMemoryBus)
    (ls : List (List Char)) :
    AcceptsOnlyWellFormed (readLines (total past) [] { mem := mem } ls).1 ls ↔
      (Accepted past [] 0 ls → ∀ l, Passes past [] 0 ls l → ¬ Slack l) := by
  have hok := readLines_ok_iff past ls [] { mem := mem }
  have hthrown := readLines_thrown past ls [] { mem := mem }
  constructor
  · intro h ha
    exact ha.wellFormed_iff.mp (h.returns (hok.mpr ha))
  · intro hn
    have hret : (∃ v, (readLines (total past) [] { mem := mem } ls).1 = .ok v) → WellFormed ls := by
      intro hv
      have ha := hok.mp hv
      exact ha.wellFormed_iff.mpr (hn ha)
    refine ⟨hret, fun hw ↦ ?_⟩
    cases hr : (readLines (total past) [] { mem := mem } ls).1 with
    | ok v => exact absurd (hret ⟨v, hr⟩) hw
    | error e => exact ⟨e, rfl, hthrown e hr⟩

/-- A data record that declares two bytes and has one: the checksum byte takes the place of
the second. -/
def shortDataFile : List Char := ":0200000001FD\n:00000001FF\n".toList

/-- The same record, and then a line that is too short. -/
def shortDataThenShort : List Char := ":0200000001FD\n:00\n".toList

end McuSimulator.Loader
