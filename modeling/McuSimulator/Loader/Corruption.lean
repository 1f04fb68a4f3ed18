import McuSimulator.Loader.Records

/-!
# Corrupted digits in a HEX file

A digit of a record that is replaced by one of a different value changes one byte of the record,
and with it the sum that the checksum makes zero. The checksum runs over the whole line before a
field is acted on, so the load ends there, whichever field the digit is in.
-/

namespace McuSimulator.Loader

open McuSimulator.Base McuSimulator.Memory

/-! ### Lines of a changed text -/

/-- What is read up to a newline is a line of its own. -/
theorem lines_append_newline {l : List Char} (h : '\n' ∉ l) (t : List Char) :
    lines (l ++ '\n' :: t) = l :: lines t := by
  induction l with
  | nil =>
    rw [List.nil_append, lines, if_pos rfl]
  | cons c l ih =>
    have hc : c ≠ '\n' := fun heq ↦ h (heq ▸ List.mem_cons_self)
    rw [List.cons_append, lines, if_neg hc, ih fun hl ↦ h (List.mem_cons_of_mem c hl)]

/-- A text without a newline is one line. -/
theorem lines_of_not_mem {l : List Char} (h : '\n' ∉ l) (hne : l ≠ []) : lines l = [l] := by
  induction l with
  | nil => exact absurd rfl hne
  | cons c l ih =>
    have hc : c ≠ '\n' := fun heq ↦ h (heq ▸ List.mem_cons_self)
    rw [lines, if_neg hc]
    cases l with
    | nil => rfl
    | cons d l => rw [ih (fun hl ↦ h (List.mem_cons_of_mem c hl)) (List.cons_ne_nil _ _)]

/-- The first line of a text ends with a newline, or is all of it. -/
theorem lines_eq_cons {text l : List Char} {ls : List (List Char)} (h : lines text = l :: ls) :
    '\n' ∉ l ∧ ((∃ t, text = l ++ '\n' :: t ∧ lines t = ls) ∨ text = l ∧ l ≠ [] ∧ ls = []) := by
  induction text generalizing l with
  | nil => cases h
  | cons c text ih =>
    rw [lines] at h
    split at h
    case isTrue hc =>
      obtain ⟨rfl, rfl⟩ := List.cons.inj h
      exact ⟨List.not_mem_nil, .inl ⟨text, by rw [hc]; rfl, rfl⟩⟩
    case isFalse hc =>
      cases hlines : lines text with
      | nil =>
        rw [hlines] at h
        obtain ⟨rfl, rfl⟩ := List.cons.inj h
        have htext : text = [] := by
          cases text with
          | nil => rfl
          | cons d text =>
            rw [lines] at hlines
            split at hlines
            · cases hlines
            · split at hlines <;> cases hlines
        rw [htext]
        exact ⟨by simpa using Ne.symm hc, .inr ⟨rfl, List.cons_ne_nil _ _, rfl⟩⟩
      | cons l' ls' =>
        rw [hlines] at h
        obtain ⟨rfl, rfl⟩ := List.cons.inj h
        obtain ⟨hmem, hcases⟩ := ih hlines
        refine ⟨fun hin ↦ ?_, ?_⟩
        · rcases List.mem_cons.mp hin with heq | hin
          · exact hc heq.symm
          · exact hmem hin
        · rcases hcases with ⟨t, rfl, ht⟩ | ⟨rfl, -, hls⟩
          · exact .inl ⟨t, rfl, ht⟩
          · exact .inr ⟨rfl, List.cons_ne_nil _ _, hls⟩

/-- Where the line behind some lines starts in the text. -/
def lineStart (ls : List (List Char)) : Nat := (ls.map fun l ↦ l.length + 1).sum

/-- Replacing a character of a line by one that is no newline changes that line alone. -/
theorem lines_set {text l : List Char} {ls rest : List (List Char)} {j : Nat} {b : Char}
    (h : lines text = ls ++ l :: rest) (hj : j < l.length) (hb : b ≠ '\n') :
    lines (text.set (lineStart ls + j) b) = ls ++ l.set j b :: rest := by
  induction ls generalizing text with
  | nil =>
    obtain ⟨hmem, hcases⟩ := lines_eq_cons h
    have hmem' : '\n' ∉ l.set j b := by
      intro hin
      rcases List.mem_or_eq_of_mem_set hin with hin | heq
      · exact hmem hin
      · exact hb heq.symm
    rw [show lineStart [] + j = j from Nat.zero_add j]
    rcases hcases with ⟨t, rfl, rfl⟩ | ⟨rfl, -, rfl⟩
    · rw [List.set_append_left _ _ hj, lines_append_newline hmem']
      rfl
    · refine lines_of_not_mem hmem' ?_
      rw [List.ne_nil_iff_length_pos, List.length_set]
      omega
  | cons l₀ ls ih =>
    obtain ⟨hmem, hcases⟩ := lines_eq_cons h
    rcases hcases with ⟨t, rfl, ht⟩ | ⟨-, -, hnil⟩
    · have hstart : lineStart (l₀ :: ls) + j = l₀.length + (lineStart ls + j + 1) := by
        rw [lineStart, List.map_cons, List.sum_cons, lineStart]
        omega
      rw [hstart, List.set_append_right _ _ (Nat.le_add_right _ _), Nat.add_sub_cancel_left,
        List.set_cons_succ, lines_append_newline hmem, ih ht]
      rfl
    · exact absurd hnil (List.append_ne_nil_of_right_ne_nil _ (List.cons_ne_nil _ _))

private theorem stripEnd_concat_of_end {l : List Char} {x : Char} (hx : x = '\r' ∨ x = '\n') :
    stripEnd (l ++ [x]) = stripEnd l :=
  List.rdropWhile_concat_pos _ l x (decide_eq_true hx)

private theorem stripEnd_concat_of_not_end {l : List Char} {x : Char}
    (hx : ¬ (x = '\r' ∨ x = '\n')) :
    stripEnd (l ++ [x]) = l ++ [x] :=
  List.rdropWhile_concat_neg _ l x (by rwa [decide_eq_true_eq])

/-- Replacing a character by one that is no line end keeps the line end. -/
theorem stripEnd_set {l : List Char} {j : Nat} {b : Char} (hj : j < (stripEnd l).length)
    (hb : ¬ (b = '\r' ∨ b = '\n')) : stripEnd (l.set j b) = (stripEnd l).set j b := by
  induction l using List.reverseRecOn with
  | nil => cases hj
  | append_singleton l x ih =>
    by_cases hx : x = '\r' ∨ x = '\n'
    · rw [stripEnd_concat_of_end hx] at hj ⊢
      have hlt : j < l.length := Nat.lt_of_lt_of_le hj (length_stripEnd_le l)
      rw [List.set_append_left _ _ hlt, stripEnd_concat_of_end hx]
      exact ih hj
    · rw [stripEnd_concat_of_not_end hx] at hj ⊢
      rcases Nat.lt_or_ge j l.length with hlt | hge
      · rw [List.set_append_left _ _ hlt, stripEnd_concat_of_not_end hx]
      · obtain rfl : j = l.length := by
          rw [List.length_append, List.length_singleton] at hj
          omega
        rw [List.set_append_right _ _ (Nat.le_refl _), Nat.sub_self, List.set_cons_zero,
          stripEnd_concat_of_not_end hb]

/-! ### The checksum -/

section Checksum

variable (behind : Behind)

/-- A line of whole bytes whose sum is not zero fails the checksum. -/
theorem verifyChecksum_of_sum_ne {cs : List Char} {bs : List Byte} (h : hexBytes cs = some bs)
    (hsum : bs.sum ≠ 0) : verifyChecksum behind (':' :: cs) =
      .error (.loaderError ("Checksum error in HEX record: " ++ String.ofList (':' :: cs))) := by
  have hlen := length_of_hexBytes h
  have hcount : ((':' :: cs).length - 1) / 2 = bs.length := by
    rw [List.length_cons]
    omega
  have hb := parseHexBytes_of_hexBytes behind h bs.length 0 (by omega)
  rw [List.drop_zero, List.take_length] at hb
  simp only [verifyChecksum, hcount, hb, bind, Except.bind]
  rw [if_pos hsum]
  rfl

/-- A digit is no line end. -/
theorem not_end_of_hexValue {b : Char} (hb : (hexValue b).isSome) : ¬ (b = '\r' ∨ b = '\n') := by
  rintro (rfl | rfl)
  · cases hb
  · cases hb

/-- A line that spells a record, with one digit changed, fails the checksum. -/
theorem readRecord_corrupted {r : Record} {line : List Char} (h : r.SpelledBy line) {j : Nat}
    (hj : 0 < j) {a b : Char} (ha : (stripEnd line)[j]? = some a) (hb : (hexValue b).isSome)
    (hne : hexValue b ≠ hexValue a) (p : Progress) :
    (line.set j b).head? = some ':' ∧
    readRecord behind p (line.set j b) = .error (.loaderError
      ("Checksum error in HEX record: " ++ String.ofList (stripEnd (line.set j b)))) := by
  obtain ⟨cs, hs, hbytes⟩ := h
  obtain ⟨i, rfl⟩ : ∃ i, j = i + 1 := ⟨j - 1, by omega⟩
  have hstrip : stripEnd (line.set (i + 1) b) = ':' :: cs.set i b := by
    have hlt : i + 1 < (stripEnd line).length := (List.getElem?_eq_some_iff.mp ha).1
    rw [stripEnd_set hlt (not_end_of_hexValue hb), hs, List.set_cons_succ]
  rw [hs] at ha
  obtain ⟨bs, hbs, hlen, hsum⟩ := hexBytes_set hbytes ha hb hne
  rw [show r.bytes.sum = 0 from r.sum_eq_zero] at hsum
  have hlong : ¬ (line.set (i + 1) b).length < 11 := by
    have hle := length_stripEnd_le (line.set (i + 1) b)
    have hcs := length_of_hexBytes hbs
    rw [hstrip, List.length_cons, hcs, hlen, r.length_bytes] at hle
    omega
  refine ⟨head?_of_stripEnd hstrip, ?_⟩
  unfold readRecord
  rw [if_neg hlong, hstrip]
  simp only [verifyChecksum_of_sum_ne behind hbs hsum, bind, Except.bind]

/-- A file in which one digit of a record is replaced by one of a different value, the records
before it being well formed, fitting and no EOF records: the load throws at that record, and the
memory holds what the records before it wrote. -/
theorem load_ihex_corrupted (past : Past) (mem : FlatMemoryBus) (path : String) (file : List Char)
    (ls rest : List (List Char)) (line : List Char) (rs : List Record) (r : Record)
    (hl : lines file = ls ++ line :: rest) (hs : Spells ls rs) (hn : ∀ x ∈ rs, x.recType ≠ 1)
    (hf : Fits 0 rs) (hr : r.SpelledBy line) (j : Nat) (hj : 0 < j) (a b : Char)
    (ha : (stripEnd line)[j]? = some a) (hb : (hexValue b).isSome)
    (hne : hexValue b ≠ hexValue a) :
    loadIhex past mem path (some (file.set (lineStart ls + j) b)) =
      (.error (.loaderError
        ("Checksum error in HEX record: " ++ String.ofList (stripEnd (line.set j b)))),
      storeAll mem (stores 0 rs)) := by
  have hlt : j < line.length :=
    Nat.lt_of_lt_of_le (List.getElem?_eq_some_iff.mp ha).1 (length_stripEnd_le line)
  have hnewline : b ≠ '\n' := fun heq ↦ not_end_of_hexValue hb (.inr heq)
  obtain ⟨hhead, hread⟩ := readRecord_corrupted
    (past (line.set j b :: (ls.reverse ++ []))) hr hj ha hb hne
    (rs.foldl (fun p r ↦ r.apply p) { mem := mem })
  rw [loadIhex, lines_set hl hlt hnewline]
  rw [readLines_spells past [] hs hn hf, readLines, if_neg (by simp [hhead]), hread]
  simp only [mem_foldl_apply]

end Checksum

/-- The data digit of `segmentFile`, replaced by a 2. -/
theorem load_ihex_corrupted_segment :
    loadIhex (fun _ _ ↦ none) .clear "seg.hex" (some (segmentFile.set 34 '2')) =
      (.error (.loaderError "Checksum error in HEX record: :0100000002FE"), .clear) :=
  load_ihex_corrupted (fun _ _ ↦ none) .clear "seg.hex" segmentFile
    [":020000020010EC\r".toList, "; data".toList] [":00000001ff".toList] ":0100000001FE".toList
    [segmentRecord] dataRecord (by decide +kernel)
    (.record ⟨"020000020010EC".toList, by decide +kernel, by decide +kernel⟩
      (.comment (by decide +kernel) .nil))
    (by decide) (by decide +kernel) ⟨"0100000001FE".toList, by decide +kernel, by decide +kernel⟩
    10 (by decide) '1' '2' (by decide +kernel) (by decide) (by decide)

end McuSimulator.Loader
