import McuSimulator.Loader.Ihex

/-!
# Well-formed Intel HEX records

The format apart from the code that reads it: a record carries the facts that make it well
formed, and a line spells it if, without its line end, it is a colon and the digits of the
record's bytes. On such lines the loader reads the record itself, and a file of them means
the stores of its data records, in order, and the last start address.
-/

namespace McuSimulator.Loader

open McuSimulator.Base McuSimulator.Memory

/-- A well-formed record. -/
structure Record where
  count : Byte
  addrHi : Byte
  addrLo : Byte
  recType : Byte
  data : List Byte
  checksum : Byte
  length_data : data.length = count.toNat
  sum_eq_zero : (count :: addrHi :: addrLo :: recType :: (data ++ [checksum])).sum = 0
  known : recType = 0 ∨ recType = 1 ∨ recType = 2 ∨ recType = 4 ∨ recType = 5
  base_count : recType = 2 ∨ recType = 4 → count = 2
  start_count : recType = 5 → count = 4

namespace Record

/-- The bytes of a record, in the order of the line. -/
def bytes (r : Record) : List Byte :=
  r.count :: r.addrHi :: r.addrLo :: r.recType :: (r.data ++ [r.checksum])

/-- A record has five bytes around its data. -/
theorem length_bytes (r : Record) : r.bytes.length = r.data.length + 5 := by
  simp [bytes]

/-- The address field. -/
def offset (r : Record) : BitVec 16 := r.addrHi ++ r.addrLo

/-- The line spells the record. -/
def SpelledBy (r : Record) (line : List Char) : Prop :=
  ∃ cs, stripEnd line = ':' :: cs ∧ hexBytes cs = some r.bytes

/-- The data bytes as a number, most significant first. -/
def value (r : Record) : Nat := r.data.foldl (fun v b ↦ 256 * v + b.toNat) 0

/-- The base address that a record of type 02 or 04 sets. -/
def base? (r : Record) : Option (BitVec 32) :=
  if r.recType = 2 then some (BitVec.ofNat 32 r.value <<< 4)
  else if r.recType = 4 then some (BitVec.ofNat 32 r.value <<< 16)
  else none

/-- The start address that a record of type 05 gives. -/
def start? (r : Record) : Option (BitVec 32) :=
  if r.recType = 5 then some (BitVec.ofNat 32 r.value) else none

end Record

/-- The lines spell the records in order; lines that do not start with a colon are comments. -/
inductive Spells : List (List Char) → List Record → Prop
  | nil : Spells [] []
  | comment {l : List Char} {ls : List (List Char)} {rs : List Record}
      (hl : l.head? ≠ some ':') (h : Spells ls rs) : Spells (l :: ls) rs
  | record {l : List Char} {ls : List (List Char)} {r : Record} {rs : List Record}
      (hl : r.SpelledBy l) (h : Spells ls rs) : Spells (l :: ls) (r :: rs)

/-- The stores of the data records: where each goes, under the base set before it. -/
def stores (base : BitVec 32) : List Record → List (BitVec 32 × List Byte)
  | [] => []
  | r :: rs =>
    if r.recType = 0 then (base + r.offset.setWidth 32, r.data) :: stores base rs
    else stores (r.base?.getD base) rs

/-- The last start address, or what it was. -/
def lastStart (entry : BitVec 32) (rs : List Record) : BitVec 32 :=
  (rs.filterMap Record.start?).getLast?.getD entry

/-- The memory after some stores, in order, byte by byte. -/
def storeAll (mem : FlatMemoryBus) (ws : List (BitVec 32 × List Byte)) : FlatMemoryBus :=
  ws.foldl (fun m w ↦ m.pokes w.1 w.2) mem

/-! ### Lines -/

/-- Removing the line end keeps the first character. -/
theorem head?_of_stripEnd {line cs : List Char} {c : Char} (h : stripEnd line = c :: cs) :
    line.head? = some c := by
  obtain ⟨t, ht⟩ := List.rdropWhile_prefix (fun c : Char ↦ decide (c = '\r' ∨ c = '\n')) line
  unfold stripEnd at h
  rw [← ht, h]
  rfl

/-- A line does not get longer. -/
theorem length_stripEnd_le (line : List Char) : (stripEnd line).length ≤ line.length :=
  (List.rdropWhile_prefix _ line).length_le

/-! ### Reading bytes -/

section Read

variable (behind : Behind) {line cs : List Char} {bs : List Byte}

private theorem charAt_of_getElem? {l : List Char} {i : Nat} {c : Char} (h : l[i]? = some c) :
    charAt behind l i = .ok c := by
  rw [charAt, h]

private theorem fromChars_of_hexPair {a b : Char} {v : Byte} (h : hexPair a b = some v) :
    fromChars a b = some v := by
  unfold hexPair at h
  unfold fromChars
  cases ha : hexValue a with
  | none => simp [ha] at h
  | some x =>
    cases hb : hexValue b with
    | none => simp [ha, hb] at h
    | some y => simpa [ha, hb] using h

private theorem parseHexByte_of_fromChars {k : Nat} {a b : Char} {v : Byte}
    (ha : charAt behind line k = .ok a) (hb : charAt behind line (k + 1) = .ok b)
    (h : fromChars a b = some v) : parseHexByte behind line k = .ok v := by
  simp only [parseHexByte, ha, hb, bind, Except.bind, h]
  rfl

/-- On spelled bytes, `parse_hex_byte` reads the byte at its place. -/
theorem parseHexByte_of_hexBytes (h : hexBytes cs = some bs) {i : Nat} (hi : i < bs.length) :
    parseHexByte behind (':' :: cs) (2 * i + 1) = .ok bs[i] := by
  obtain ⟨a, b, ha, hb, hp⟩ := hexPair_of_hexBytes h hi
  have ha' : (':' :: cs)[2 * i + 1]? = some a := ha
  have hb' : (':' :: cs)[2 * i + 1 + 1]? = some b := hb
  exact parseHexByte_of_fromChars behind (charAt_of_getElem? behind ha')
    (charAt_of_getElem? behind hb') (fromChars_of_hexPair hp)

/-- So does the loop over several bytes. -/
theorem parseHexBytes_of_hexBytes (h : hexBytes cs = some bs) (n k : Nat)
    (hk : k + n ≤ bs.length) :
    parseHexBytes behind (':' :: cs) (2 * k + 1) n = .ok ((bs.drop k).take n) := by
  induction n generalizing k with
  | zero => rfl
  | succ n ih =>
    have hlt : k < bs.length := by omega
    have hrest := ih (k + 1) (by omega)
    rw [show 2 * (k + 1) + 1 = 2 * k + 1 + 2 by omega] at hrest
    rw [parseHexBytes, parseHexByte_of_hexBytes behind h hlt, hrest, List.drop_eq_getElem_cons hlt,
      List.take_succ_cons]
    rfl

end Read

/-! ### Numbers from bytes -/

/-- Shifting a byte into a word. -/
theorem shiftIn_eq (v : Nat) (b : Byte) :
    BitVec.ofNat 32 v <<< 8 ||| b.setWidth 32 = BitVec.ofNat 32 (256 * v + b.toNat) := by
  apply BitVec.eq_of_toNat_eq
  have hb : b.toNat < 2 ^ 8 := b.isLt
  have hmod : (v % 2 ^ 32) <<< 8 % 2 ^ 32 = (v % 2 ^ 24) <<< 8 := by
    rw [Nat.shiftLeft_eq, Nat.shiftLeft_eq]
    omega
  rw [BitVec.toNat_or, BitVec.toNat_shiftLeft, BitVec.toNat_ofNat, BitVec.toNat_setWidth,
    BitVec.toNat_ofNat, hmod, Nat.mod_eq_of_lt (by omega : b.toNat < 2 ^ 32),
    ← Nat.shiftLeft_add_eq_or_of_lt hb, Nat.shiftLeft_eq]
  omega

private theorem foldl_shiftIn (bs : List Byte) (v : Nat) :
    bs.foldl (fun (e : BitVec 32) b ↦ e <<< 8 ||| b.setWidth 32) (BitVec.ofNat 32 v) =
      BitVec.ofNat 32 (bs.foldl (fun v b ↦ 256 * v + b.toNat) v) := by
  induction bs generalizing v with
  | nil => rfl
  | cons b bs ih => rw [List.foldl_cons, List.foldl_cons, shiftIn_eq, ih]

/-- Two bytes side by side. -/
theorem setWidth_append (x y : Byte) :
    (x ++ y).setWidth 32 = BitVec.ofNat 32 (256 * x.toNat + y.toNat) := by
  apply BitVec.eq_of_toNat_eq
  have hy : y.toNat < 2 ^ 8 := y.isLt
  rw [BitVec.toNat_setWidth, BitVec.toNat_append, BitVec.toNat_ofNat,
    ← Nat.shiftLeft_add_eq_or_of_lt hy, Nat.shiftLeft_eq, Nat.mul_comm]

/-- Four bytes push everything else out of a word. -/
theorem foldl_shiftIn_four {bs : List Byte} (h : bs.length = 4) (e : BitVec 32) :
    bs.foldl (fun (e : BitVec 32) b ↦ e <<< 8 ||| b.setWidth 32) e =
      BitVec.ofNat 32 (bs.foldl (fun v b ↦ 256 * v + b.toNat) 0) := by
  match bs, h with
  | [a, b, c, d], _ =>
    have he : e = BitVec.ofNat 32 e.toNat := by simp
    rw [he, foldl_shiftIn]
    apply BitVec.eq_of_toNat_eq
    simp only [List.foldl_cons, List.foldl_nil, BitVec.toNat_ofNat]
    omega

/-! ### Reading records -/

/-- What a record does to the state of the loader. -/
def Record.apply (r : Record) (p : Progress) : Progress where
  mem := if r.recType = 0 then p.mem.pokes (p.baseAddr + r.offset.setWidth 32) r.data else p.mem
  baseAddr := r.base?.getD p.baseAddr
  entryPoint := r.start?.getD p.entryPoint

section Records

variable (behind : Behind) {p : Progress} {r : Record} {line : List Char}

/-- Acting on a well-formed record whose data fits. -/
private theorem actOnRecord_spelled {cs : List Char} (h : hexBytes cs = some r.bytes)
    (hw : r.recType = 0 →
      FlatMemoryBus.InWindow (p.baseAddr + r.offset.setWidth 32) r.data.length) :
    actOnRecord behind p (':' :: cs) r.count r.offset r.recType =
      .ok (if r.recType = 1 then none else some (r.apply p)) := by
  have hlen := r.length_bytes
  have hdata : ∀ n, n = r.data.length →
      parseHexBytes behind (':' :: cs) 9 n = .ok r.data := by
    rintro n rfl
    have hb := parseHexBytes_of_hexBytes behind h r.data.length 4 (by omega)
    have htake : (r.bytes.drop 4).take r.data.length = r.data := List.take_left
    rw [htake] at hb
    exact hb
  have hpair : r.count = 2 → ∃ x y, r.data = [x, y] ∧
      parseHexByte behind (':' :: cs) 9 = .ok x ∧ parseHexByte behind (':' :: cs) 11 = .ok y := by
    intro hc
    have hl := r.length_data
    rw [hc] at hl
    match hd : r.data, hl with
    | [x, y], _ =>
      have htwo : r.data.length = 2 := by
        rw [hd]
        rfl
      have hx := parseHexByte_of_hexBytes behind h (i := 4) (by omega)
      have hy := parseHexByte_of_hexBytes behind h (i := 5) (by omega)
      simp only [Record.bytes, hd] at hx hy
      exact ⟨x, y, rfl, hx, hy⟩
  unfold actOnRecord
  rcases r.known with ht | ht | ht | ht | ht
  · have hload := p.mem.load_eq_pokes (hw ht)
    rw [if_pos ht, hdata _ r.length_data.symm]
    simp only [bind, Except.bind, hload, ht]
    simp [Record.apply, Record.base?, Record.start?, ht, pure, Except.pure]
  · simp [ht, pure, Except.pure]
  · obtain ⟨x, y, hd, hx, hy⟩ := hpair (r.base_count (.inl ht))
    simp [ht, hx, hy, bind, Except.bind, pure, Except.pure, Record.apply, Record.base?,
      Record.start?, Record.value, hd, setWidth_append]
  · obtain ⟨x, y, hd, hx, hy⟩ := hpair (r.base_count (.inr ht))
    simp [ht, hx, hy, bind, Except.bind, pure, Except.pure, Record.apply, Record.base?,
      Record.start?, Record.value, hd, setWidth_append]
  · have hfour : r.data.length = 4 := by
      rw [r.length_data, r.start_count ht]
      rfl
    have hb := hdata 4 hfour.symm
    simp only [ht, hb, bind, Except.bind, pure, Except.pure]
    simp [Record.apply, Record.base?, Record.start?, Record.value, ht,
      foldl_shiftIn_four hfour]

/-- The checksum of a spelled record is right. -/
private theorem verifyChecksum_spelled {cs : List Char} (h : hexBytes cs = some r.bytes) :
    verifyChecksum behind (':' :: cs) = .ok () := by
  have hlen := length_of_hexBytes h
  have hcount : ((':' :: cs).length - 1) / 2 = r.bytes.length := by
    rw [List.length_cons]
    omega
  have hb := parseHexBytes_of_hexBytes behind h r.bytes.length 0 (by omega)
  rw [List.drop_zero, List.take_length] at hb
  have hsum : r.bytes.sum = 0 := r.sum_eq_zero
  simp only [verifyChecksum, hcount, hb, bind, Except.bind, hsum]
  rfl

/-- Reading a line that spells a record whose data fits. -/
theorem readRecord_spelled (h : r.SpelledBy line)
    (hw : r.recType = 0 →
      FlatMemoryBus.InWindow (p.baseAddr + r.offset.setWidth 32) r.data.length) :
    readRecord behind p line = .ok (if r.recType = 1 then none else some (r.apply p)) := by
  obtain ⟨cs, hs, hb⟩ := h
  have hlen := r.length_bytes
  have hlong : ¬ line.length < 11 := by
    have hle := length_stripEnd_le line
    have hcs := length_of_hexBytes hb
    rw [hs, List.length_cons] at hle
    omega
  have h0 := parseHexByte_of_hexBytes behind hb (i := 0) (by omega)
  have h1 := parseHexByte_of_hexBytes behind hb (i := 1) (by omega)
  have h2 := parseHexByte_of_hexBytes behind hb (i := 2) (by omega)
  have h3 := parseHexByte_of_hexBytes behind hb (i := 3) (by omega)
  rw [← actOnRecord_spelled behind hb hw]
  unfold readRecord
  rw [if_neg hlong]
  simp only [hs, verifyChecksum_spelled behind hb, h0, h1, h2, h3, bind, Except.bind]
  rfl

/-- The data records of a file fit, each under the base set before it. -/
def Fits (base : BitVec 32) (rs : List Record) : Prop :=
  ∀ w ∈ stores base rs, FlatMemoryBus.InWindow w.1 w.2.length

instance (base : BitVec 32) (rs : List Record) : Decidable (Fits base rs) :=
  inferInstanceAs (Decidable (∀ w ∈ stores base rs, _))

/-- The first record fits, and so do the others under the base it leaves. -/
theorem Fits.cons {base : BitVec 32} {rs : List Record} (h : Fits base (r :: rs)) :
    (r.recType = 0 → FlatMemoryBus.InWindow (base + r.offset.setWidth 32) r.data.length) ∧
      Fits (r.base?.getD base) rs := by
  unfold Fits stores at h
  split at h
  · next ht =>
    have hbase : r.base? = none := by simp [Record.base?, ht]
    refine ⟨fun _ ↦ h _ List.mem_cons_self, ?_⟩
    rw [hbase]
    exact fun w hw ↦ h w (List.mem_cons_of_mem _ hw)
  · next ht => exact ⟨fun h0 ↦ absurd h0 ht, h⟩

/-- Records that are not EOF records are applied one after another. -/
theorem readLines_spells (past : Past) (seen : List (List Char)) {ls rest : List (List Char)}
    {rs : List Record} (h : Spells ls rs) (hn : ∀ r ∈ rs, r.recType ≠ 1)
    (hf : Fits p.baseAddr rs) :
    readLines past seen p (ls ++ rest) =
      readLines past (ls.reverse ++ seen) (rs.foldl (fun p r ↦ r.apply p) p) rest := by
  induction h generalizing p seen with
  | nil => rfl
  | @comment l ls rs hl _ ih =>
    rw [List.cons_append, readLines, if_pos hl, List.reverse_cons, List.append_assoc]
    exact ih (l :: seen) hn hf
  | @record l ls r rs hl _ ih =>
    obtain ⟨hw, hrest⟩ := hf.cons
    have hhead : l.head? = some ':' := by
      obtain ⟨cs, hs, -⟩ := hl
      exact head?_of_stripEnd hs
    rw [List.cons_append, readLines, if_neg (by simp [hhead]), readRecord_spelled _ hl hw,
      if_neg (hn r List.mem_cons_self), List.reverse_cons, List.append_assoc]
    exact ih (l :: seen) (fun x hx ↦ hn x (List.mem_cons_of_mem _ hx)) hrest

/-- The memory after all the records. -/
theorem mem_foldl_apply (rs : List Record) (p : Progress) :
    (rs.foldl (fun p r ↦ r.apply p) p).mem = storeAll p.mem (stores p.baseAddr rs) := by
  induction rs generalizing p with
  | nil => rfl
  | cons r rs ih =>
    rw [List.foldl_cons, ih, stores]
    by_cases ht : r.recType = 0
    · have hbase : r.base? = none := by simp [Record.base?, ht]
      simp only [Record.apply, ht, hbase, if_true, storeAll, List.foldl_cons, Option.getD_none]
    · simp only [Record.apply, ht, if_false]

/-- The entry point after all the records. -/
theorem entryPoint_foldl_apply (rs : List Record) (p : Progress) :
    (rs.foldl (fun p r ↦ r.apply p) p).entryPoint = lastStart p.entryPoint rs := by
  induction rs generalizing p with
  | nil => rfl
  | cons r rs ih =>
    rw [List.foldl_cons, ih, lastStart, lastStart]
    cases hs : r.start? with
    | none => simp [Record.apply, hs]
    | some v => simp [Record.apply, hs, List.getLast?_cons]

/-- What a file of well-formed records means: the stores of its data records before the first
EOF record, in order, and the last start address. -/
theorem load_ihex_records (past : Past) (mem : FlatMemoryBus) (path : String)
    (file : List Char) (ls rest : List (List Char)) (eofLine : List Char) (rs : List Record)
    (eof : Record) (hl : lines file = ls ++ eofLine :: rest) (hs : Spells ls rs)
    (hn : ∀ r ∈ rs, r.recType ≠ 1) (he : eof.SpelledBy eofLine) (ht : eof.recType = 1)
    (hf : Fits 0 rs) :
    loadIhex past mem path (some file) = (.ok (lastStart 0 rs), storeAll mem (stores 0 rs)) := by
  have hhead : eofLine.head? = some ':' := by
    obtain ⟨cs, hcs, -⟩ := he
    exact head?_of_stripEnd hcs
  have hread := readRecord_spelled (past (eofLine :: (ls.reverse ++ [])))
    (p := rs.foldl (fun p r ↦ r.apply p) { mem := mem }) he fun h0 ↦ absurd (h0.symm.trans ht)
      (by decide)
  rw [loadIhex, hl, readLines_spells past [] hs hn hf, readLines, if_neg (by simp [hhead]), hread,
    if_pos ht]
  simp only [entryPoint_foldl_apply, mem_foldl_apply]

end Records

/-- A segment base, a comment, a data byte relative to the base, and the EOF record. -/
def segmentFile : List Char :=
  ":020000020010EC\r\n; data\n:0100000001FE\n:00000001ff\n".toList

/-- `:020000020010EC`. -/
def segmentRecord : Record where
  count := 2
  addrHi := 0
  addrLo := 0
  recType := 2
  data := [0x00, 0x10]
  checksum := 0xEC
  length_data := rfl
  sum_eq_zero := by decide
  known := by decide
  base_count := by decide
  start_count := by decide

/-- `:0100000001FE`. -/
def dataRecord : Record where
  count := 1
  addrHi := 0
  addrLo := 0
  recType := 0
  data := [0x01]
  checksum := 0xFE
  length_data := rfl
  sum_eq_zero := by decide
  known := by decide
  base_count := by decide
  start_count := by decide

/-- `:00000001FF`. -/
def eofRecord : Record where
  count := 0
  addrHi := 0
  addrLo := 0
  recType := 1
  data := []
  checksum := 0xFF
  length_data := rfl
  sum_eq_zero := by decide
  known := by decide
  base_count := by decide
  start_count := by decide

/-- The byte goes to the segment base. -/
theorem load_ihex_records_segment :
    loadIhex (fun _ _ ↦ none) .clear "seg.hex" (some segmentFile) =
      (.ok 0, storeAll .clear [(0x100, [0x01])]) :=
  load_ihex_records (fun _ _ ↦ none) .clear "seg.hex" segmentFile
    [":020000020010EC\r".toList, "; data".toList, ":0100000001FE".toList] []
    ":00000001ff".toList [segmentRecord, dataRecord] eofRecord (by decide +kernel)
    (.record ⟨"020000020010EC".toList, by decide +kernel, by decide +kernel⟩
      (.comment (by decide +kernel)
        (.record ⟨"0100000001FE".toList, by decide +kernel, by decide +kernel⟩ .nil)))
    (by decide) ⟨"00000001ff".toList, by decide +kernel, by decide +kernel⟩ (by decide)
    (by decide +kernel)

end McuSimulator.Loader
