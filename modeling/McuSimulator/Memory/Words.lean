import McuSimulator.Memory.FlatMemoryBus

/-!
# Words in memory

Which ranges can be accessed, what a read returns after a write, and what a write leaves alone.
The two windows show the same cells, so two addresses are compared by the cells behind them.
-/

namespace McuSimulator.Memory

/-! ### Bytes of a word -/

/-- The lowest byte, then the bytes of the rest. -/
theorem toLittleEndian_succ {w : Nat} (n : Nat) (v : BitVec w) :
    toLittleEndian (n + 1) v = v.setWidth 8 :: toLittleEndian n (v >>> 8) := by
  rw [toLittleEndian, List.range_succ_eq_map, List.map_cons, List.map_map, toLittleEndian]
  congr 1
  apply List.map_congr_left
  intro i _
  rw [Function.comp_apply, Nat.mul_succ, Nat.add_comm, BitVec.shiftRight_add]

/-- As many bytes as asked for. -/
@[simp] theorem length_toLittleEndian {w : Nat} (n : Nat) (v : BitVec w) :
    (toLittleEndian n v).length = n := by
  simp [toLittleEndian]

/-- Byte `i` of a word, the least significant one first. -/
def byteOf {w : Nat} (v : BitVec w) (i : Nat) : Byte := v.extractLsb' (8 * i) 8

/-- The byte as a digit of the word. -/
theorem toNat_byteOf {w : Nat} (v : BitVec w) (i : Nat) :
    (byteOf v i).toNat = v.toNat / 256 ^ i % 256 := by
  rw [byteOf, BitVec.extractLsb'_toNat, Nat.shiftRight_eq_div_pow, Nat.pow_mul]

/-- The bytes of a word in memory, one by one. -/
theorem toLittleEndian_eq_map {w : Nat} (n : Nat) (v : BitVec w) :
    toLittleEndian n v = (List.range n).map (byteOf v) := by
  refine List.map_congr_left fun i _ ↦ BitVec.eq_of_toNat_eq ?_
  rw [toNat_byteOf, BitVec.toNat_setWidth, BitVec.toNat_ushiftRight, Nat.shiftRight_eq_div_pow,
    Nat.pow_mul]

/-- Byte `i` in memory is byte `i` of the word. -/
theorem getElem?_toLittleEndian {w : Nat} (v : BitVec w) {n i : Nat} (hi : i < n) :
    (toLittleEndian n v)[i]? = some (byteOf v i) := by
  rw [toLittleEndian_eq_map, List.getElem?_map, List.getElem?_range hi, Option.map_some]

/-- The bytes of a word make up its value. -/
theorem foldr_toLittleEndian {w : Nat} (n : Nat) (v : BitVec w) :
    (toLittleEndian n v).foldr (fun b x ↦ b.toNat + 256 * x) 0 = v.toNat % 256 ^ n := by
  induction n generalizing v with
  | zero => simp [toLittleEndian, Nat.mod_one]
  | succ n ih =>
    have hpow : 256 ^ (n + 1) = 256 * 256 ^ n := Nat.pow_succ'
    rw [toLittleEndian_succ, List.foldr_cons, ih, BitVec.toNat_setWidth, BitVec.toNat_ushiftRight,
      Nat.shiftRight_eq_div_pow, hpow, Nat.mod_mul]

/-- The bytes of a word give it back. -/
theorem ofLittleEndian_toLittleEndian {w n : Nat} (h : w = 8 * n) (v : BitVec w) :
    ofLittleEndian w (toLittleEndian n v) = v := by
  have hpow : 2 ^ w = 256 ^ n := by rw [h, Nat.pow_mul]
  have hlt : v.toNat < 256 ^ n := hpow ▸ v.isLt
  rw [ofLittleEndian, foldr_toLittleEndian, Nat.mod_eq_of_lt hlt, BitVec.ofNat_toNat,
    BitVec.setWidth_eq]

/-! ### Accessible ranges -/

/-- The `n` bytes from an address on can be read and written in one access. -/
def Accessible (addr : BitVec 32) (n : Nat) : Prop :=
  ∃ flat : Fin size, FlatMemoryBus.translate addr = .ok flat ∧ flat.val + n ≤ size

instance (addr : BitVec 32) (n : Nat) : Decidable (Accessible addr n) :=
  match h : FlatMemoryBus.translate addr with
  | .ok flat => decidable_of_iff (flat.val + n ≤ size)
      ⟨fun hle ↦ ⟨flat, h, hle⟩, fun ⟨_, ht, hle⟩ ↦ by rw [h] at ht; cases ht; exact hle⟩
  | .error _ => .isFalse fun ⟨_, ht, _⟩ ↦ by rw [h] at ht; cases ht

/-- A cell is one of the `n` behind an address. -/
def Covers (addr : BitVec 32) (n : Nat) (cell : Fin size) : Prop :=
  ∃ flat : Fin size, FlatMemoryBus.translate addr = .ok flat ∧
    flat.val ≤ cell.val ∧ cell.val < flat.val + n

namespace FlatMemoryBus

variable {m m' : FlatMemoryBus} {addr : BitVec 32} {flat : Fin size} {n : Nat}

/-- A read within the memory returns its cells. -/
theorem readBytes_eq_ok (ht : translate addr = .ok flat) (hle : flat.val + n ≤ size) :
    m.readBytes addr n =
      .ok (List.ofFn fun i : Fin n ↦ m.data ⟨flat.val + i.val, by omega⟩) := by
  rw [readBytes, ht]
  exact dif_pos hle

/-- A read of accessible bytes returns. -/
theorem exists_readBytes (m : FlatMemoryBus) (h : Accessible addr n) :
    ∃ bs, m.readBytes addr n = .ok bs := by
  obtain ⟨flat, ht, hle⟩ := h
  exact ⟨_, readBytes_eq_ok ht hle⟩

/-- A store returns exactly where its cells lie within the memory, and sets them. -/
theorem load_eq_ok {bs : List Byte} :
    m.load addr bs = .ok m' ↔ ∃ flat, translate addr = .ok flat ∧ flat.val + bs.length ≤ size ∧
      m' = m.memcpy flat bs := by
  unfold load
  cases translate addr with
  | error e => simp
  | ok flat =>
    by_cases hle : flat.val + bs.length ≤ size
    · simp [hle, eq_comm]
    · simp [hle]

/-- A read returns the bytes that were stored there. -/
theorem readBytes_load {bs : List Byte} (h : m.load addr bs = .ok m') :
    m'.readBytes addr bs.length = .ok bs := by
  obtain ⟨flat, ht, hle, rfl⟩ := load_eq_ok.mp h
  rw [readBytes_eq_ok ht hle]
  congr 1
  apply List.ext_getElem (by simp)
  intro i hi hi'
  have hsub : flat.val + i - flat.val = i := by omega
  rw [List.getElem_ofFn]
  unfold memcpy
  dsimp only
  rw [if_pos (by omega), hsub, List.getElem?_eq_getElem hi', Option.getD_some]

/-- A store leaves the other cells alone. -/
theorem data_load {bs : List Byte} (h : m.load addr bs = .ok m') {cell : Fin size}
    (hc : ¬ Covers addr bs.length cell) : m'.data cell = m.data cell := by
  obtain ⟨flat, ht, -, rfl⟩ := load_eq_ok.mp h
  unfold memcpy
  dsimp only
  by_cases hle : flat.val ≤ cell.val
  · have hge : bs.length ≤ cell.val - flat.val := by
      by_contra hlt
      exact hc ⟨flat, ht, hle, by omega⟩
    rw [if_pos hle, List.getElem?_eq_none hge, Option.getD_none]
  · rw [if_neg hle]

/-- A read depends on the cells that it covers. -/
theorem readBytes_congr (h : ∀ cell, Covers addr n cell → m'.data cell = m.data cell) :
    m'.readBytes addr n = m.readBytes addr n := by
  unfold readBytes
  cases ht : translate addr with
  | error e => rfl
  | ok flat =>
    dsimp only
    split
    case isTrue hle =>
      congr 2
      funext i
      exact h _ ⟨flat, ht, by simp, by simp⟩
    case isFalse => rfl

/-- A read of other bytes faults. -/
theorem readBytes_of_not_accessible {m : FlatMemoryBus} {addr : BitVec 32} {n : Nat}
    (h : ¬ Accessible addr n) : m.readBytes addr n = .error ⟨addr⟩ := by
  unfold readBytes
  cases ht : translate addr with
  | error e =>
    have he : e = ⟨addr⟩ := by
      unfold translate at ht
      split at ht
      · cases ht
      · split at ht <;> cases ht
        rfl
    rw [he]
  | ok flat =>
    have hle : ¬ flat.val + n ≤ size := fun hle ↦ h ⟨flat, ht, hle⟩
    exact dif_neg hle

/-- A store to other bytes faults. -/
theorem load_of_not_accessible (m : FlatMemoryBus) {addr : BitVec 32} {bs : List Byte}
    (h : ¬ Accessible addr bs.length) : ∃ e, m.load addr bs = .error e := by
  cases hload : m.load addr bs with
  | error e => exact ⟨e, rfl⟩
  | ok m' =>
    obtain ⟨flat, ht, hle, -⟩ := load_eq_ok.mp hload
    exact absurd ⟨flat, ht, hle⟩ h

/-! ### 32-bit words -/

/-- A read of an accessible word returns. -/
theorem exists_read32 (m : FlatMemoryBus) (h : Accessible addr 4) :
    ∃ v, m.read32 addr = .ok v := by
  obtain ⟨bs, hbs⟩ := m.exists_readBytes h
  exact ⟨_, by rw [read32, hbs]; rfl⟩

/-- A write of an accessible word returns. -/
theorem exists_write32 (m : FlatMemoryBus) (h : Accessible addr 4) (v : BitVec 32) :
    ∃ m', m.write32 addr v = .ok m' := by
  obtain ⟨flat, ht, hle⟩ := h
  exact ⟨_, load_eq_ok.mpr ⟨flat, ht, by rwa [length_toLittleEndian], rfl⟩⟩

/-- A word that has been read is accessible. -/
theorem accessible_of_read32 {v : BitVec 32} (h : m.read32 addr = .ok v) : Accessible addr 4 := by
  by_contra hacc
  rw [read32, readBytes_of_not_accessible hacc] at h
  cases h

/-- A word whose read faults is not accessible. -/
theorem not_accessible_of_read32 {e : BusFault} (h : m.read32 addr = .error e) :
    ¬ Accessible addr 4 := by
  intro hacc
  obtain ⟨v, hv⟩ := m.exists_read32 hacc
  rw [hv] at h
  cases h

/-- A word that has been written is accessible. -/
theorem accessible_of_write32 {v : BitVec 32} (h : m.write32 addr v = .ok m') :
    Accessible addr 4 := by
  obtain ⟨flat, ht, hle, -⟩ := load_eq_ok.mp h
  rw [length_toLittleEndian] at hle
  exact ⟨flat, ht, hle⟩

/-- A word whose write faults is not accessible. -/
theorem not_accessible_of_write32 {v : BitVec 32} {e : BusFault}
    (h : m.write32 addr v = .error e) : ¬ Accessible addr 4 := by
  intro hacc
  obtain ⟨m', hm⟩ := m.exists_write32 hacc v
  rw [hm] at h
  cases h

/-- A word is read as it has been written. -/
theorem read32_write32 {v : BitVec 32} (h : m.write32 addr v = .ok m') :
    m'.read32 addr = .ok v := by
  have hread := readBytes_load h
  rw [length_toLittleEndian] at hread
  rw [read32, hread]
  exact congrArg Except.ok (ofLittleEndian_toLittleEndian (w := 32) (n := 4) rfl v)

/-- A write of a word leaves the other cells. -/
theorem data_write32 {v : BitVec 32} (h : m.write32 addr v = .ok m') {cell : Fin size}
    (hc : ¬ Covers addr 4 cell) : m'.data cell = m.data cell := by
  apply data_load h
  rwa [length_toLittleEndian]

/-- A read depends on its cells only. -/
theorem read32_congr (h : ∀ cell, Covers addr 4 cell → m'.data cell = m.data cell) :
    m'.read32 addr = m.read32 addr := by
  rw [read32, read32, readBytes_congr h]

/-! ### Consecutive words -/

/-- The two windows and the cells behind them. -/
theorem translate_eq_ok : translate addr = .ok flat ↔
    (addr.toNat < size ∧ flat.val = addr.toNat) ∨
    (sramBase ≤ addr.toNat ∧ addr.toNat < sramBase + sramSize ∧
      flat.val = flashSize + (addr.toNat - sramBase)) := by
  constructor
  · intro h
    unfold translate at h
    split at h
    case isTrue hlt => exact .inl ⟨hlt, (congrArg Fin.val (Except.ok.inj h)).symm⟩
    case isFalse =>
      split at h
      case isTrue hin =>
        exact .inr ⟨hin.1, hin.2, (congrArg Fin.val (Except.ok.inj h)).symm⟩
      case isFalse => cases h
  · rintro (⟨hlt, hv⟩ | ⟨hge, hlt, hv⟩)
    · rw [translate_flash hlt]
      exact congrArg Except.ok (Fin.ext hv.symm)
    · obtain ⟨f, ht, hf⟩ := translate_sram hge hlt
      rw [ht]
      exact congrArg Except.ok (Fin.ext (hf.trans hv.symm))

/-- The next word of an accessible one, when accessible too, is behind the next cells. -/
theorem translate_add_four {flat' : Fin size} (ht : translate addr = .ok flat)
    (ht' : translate (addr + 4) = .ok flat') : flat'.val = flat.val + 4 := by
  have hlt := addr.isLt
  have hadd : (addr + 4).toNat = (addr.toNat + 4) % 4294967296 := BitVec.toNat_add ..
  have hx := translate_eq_ok.mp ht
  have hy := translate_eq_ok.mp ht'
  simp only [size, sramBase, sramSize, flashSize] at hx hy
  generalize (addr + 4).toNat = next at hadd hy
  omega

end FlatMemoryBus

/-- The address of word `k` from `base` on. -/
def wordAddr (base : BitVec 32) (k : Nat) : BitVec 32 := base + BitVec.ofNat 32 (4 * k)

/-- The first word is at the base. -/
theorem wordAddr_zero (base : BitVec 32) : wordAddr base 0 = base := by
  simp [wordAddr]

/-- The next word is four bytes on. -/
theorem wordAddr_succ (base : BitVec 32) (k : Nat) :
    wordAddr base (k + 1) = wordAddr base k + 4 := by
  rw [wordAddr, wordAddr, BitVec.add_assoc, show (4 : BitVec 32) = BitVec.ofNat 32 4 from rfl,
    BitVec.ofNat_add_ofNat, Nat.mul_succ]

/-- Words of which all are accessible lie in consecutive cells. -/
theorem translate_wordAddr {base : BitVec 32} {n : Nat} (hn : 0 < n)
    (h : ∀ k < n, Accessible (wordAddr base k) 4) :
    ∃ flat : Nat, ∀ k < n, ∃ f : Fin size,
      FlatMemoryBus.translate (wordAddr base k) = .ok f ∧ f.val = flat + 4 * k := by
  obtain ⟨f0, ht0, -⟩ := h 0 hn
  refine ⟨f0, fun k hk ↦ ?_⟩
  induction k with
  | zero => exact ⟨f0, ht0, rfl⟩
  | succ k ih =>
    obtain ⟨f, ht, hf⟩ := ih (by omega)
    obtain ⟨f', ht', -⟩ := h (k + 1) hk
    rw [wordAddr_succ] at ht'
    have hv := FlatMemoryBus.translate_add_four ht ht'
    rw [wordAddr_succ]
    exact ⟨f', ht', by omega⟩

/-- Different words of an accessible sequence share no cell. -/
theorem not_covers_wordAddr {base : BitVec 32} {n j k : Nat} {cell : Fin size}
    (h : ∀ k < n, Accessible (wordAddr base k) 4) (hj : j < n) (hk : k < n) (hjk : j ≠ k)
    (hc : Covers (wordAddr base j) 4 cell) : ¬ Covers (wordAddr base k) 4 cell := by
  obtain ⟨flat, hflat⟩ := translate_wordAddr (by omega) h
  obtain ⟨f, ht, hf⟩ := hflat j hj
  obtain ⟨g, hu, hg⟩ := hflat k hk
  rintro ⟨g', hu', hle', hlt'⟩
  obtain ⟨f', ht', hle, hlt⟩ := hc
  rw [ht] at ht'
  rw [hu] at hu'
  cases ht'
  cases hu'
  omega

end McuSimulator.Memory
