import McuSimulator.Memory.Words

/-!
# Accesses byte by byte

The accesses of several bytes against `read8` and `write8`. The range check is made on the cells,
after the translation, so an access may run out of the end of the SRAM window into cells that no
byte access reaches there. Everywhere else the two views agree.
-/

namespace McuSimulator.Memory

/-- Address `i` from `addr` on. -/
def byteAddr (addr : BitVec 32) (i : Nat) : BitVec 32 := addr + BitVec.ofNat 32 i

/-- The range starts in the SRAM window and runs out of its end, but not out of the cells. -/
def LeavesSram (addr : BitVec 32) (n : Nat) : Prop :=
  sramBase ≤ addr.toNat ∧ addr.toNat < sramBase + sramSize ∧
    sramBase + sramSize < addr.toNat + n ∧ flashSize + (addr.toNat - sramBase) + n ≤ size

instance (addr : BitVec 32) (n : Nat) : Decidable (LeavesSram addr n) :=
  inferInstanceAs (Decidable (_ ∧ _))

/-! ### Ranges -/

/-- The address of a byte, where the addresses do not wrap. -/
theorem toNat_byteAddr {addr : BitVec 32} {i : Nat} (h : addr.toNat + i < 2 ^ 32) :
    (byteAddr addr i).toNat = addr.toNat + i := by
  rw [byteAddr, BitVec.toNat_add, BitVec.toNat_ofNat]
  omega

namespace FlatMemoryBus

/-- A range inside one window is a range of cells. -/
theorem InWindow.translate_byteAddr {addr : BitVec 32} {n i : Nat} {flat : Fin size}
    (h : InWindow addr n) (ht : FlatMemoryBus.translate addr = .ok flat) (hi : i < n) :
    ∃ f : Fin size, FlatMemoryBus.translate (byteAddr addr i) = .ok f ∧
      f.val = flat.val + i := by
  have hv : (byteAddr addr i).toNat = addr.toNat + i := by
    apply toNat_byteAddr
    unfold InWindow size sramBase sramSize at h
    omega
  rcases h with ⟨hlt, hle⟩ | ⟨hb, hlt, hle⟩
  · rw [translate_flash hlt] at ht
    cases ht
    exact ⟨_, translate_flash (by omega), hv⟩
  · obtain ⟨f, hf, hfv⟩ := translate_sram hb hlt
    rw [ht] at hf
    cases hf
    have hb' : sramBase ≤ (byteAddr addr i).toNat := by omega
    obtain ⟨g, hg, hgv⟩ := translate_sram hb' (by omega)
    exact ⟨g, hg, by omega⟩

/-- An accessible range lies inside one window, or leaves SRAM. -/
theorem accessible_iff {addr : BitVec 32} {n : Nat} :
    Accessible addr n ↔ InWindow addr n ∨ LeavesSram addr n := by
  constructor
  · rintro ⟨flat, ht, hle⟩
    rcases translate_eq_ok.mp ht with ⟨hlt, hv⟩ | ⟨hb, hlt, hv⟩
    · exact .inl (.inl ⟨hlt, by omega⟩)
    · by_cases hin : addr.toNat + n ≤ sramBase + sramSize
      · exact .inl (.inr ⟨hb, hlt, hin⟩)
      · exact .inr ⟨hb, hlt, by omega, by omega⟩
  · rintro (h | ⟨hb, hlt, -, hle⟩)
    · exact h.translate
    · obtain ⟨flat, ht, hv⟩ := translate_sram hb hlt
      exact ⟨flat, ht, by omega⟩

/-- No address behind a window is mapped. -/
theorem translate_end {addr : BitVec 32}
    (h : addr.toNat = size ∨ addr.toNat = sramBase + sramSize) :
    translate addr = .error ⟨addr⟩ := by
  unfold size sramBase sramSize at h
  rw [translate, dif_neg (by unfold size; omega), dif_neg (by unfold sramBase sramSize; omega)]

/-- A range that is not accessible, or leaves SRAM, has an address that is not mapped. -/
theorem exists_translate_error {addr : BitVec 32} {n : Nat} (hn : 0 < n) (h : ¬ InWindow addr n) :
    ∃ i < n, translate (byteAddr addr i) = .error ⟨byteAddr addr i⟩ := by
  unfold InWindow at h
  by_cases hflash : addr.toNat < size
  · -- the range runs out of the flash window
    refine ⟨size - addr.toNat, by omega, translate_end (.inl ?_)⟩
    rw [toNat_byteAddr (by unfold size at *; omega)]
    omega
  by_cases hsram : sramBase ≤ addr.toNat ∧ addr.toNat < sramBase + sramSize
  · -- the range runs out of the SRAM window
    refine ⟨sramBase + sramSize - addr.toNat, by omega, translate_end (.inr ?_)⟩
    rw [toNat_byteAddr (by unfold sramBase sramSize at *; omega)]
    omega
  · refine ⟨0, hn, ?_⟩
    rw [byteAddr, BitVec.add_zero, translate, dif_neg hflash, dif_neg hsram]

/-! ### Byte accesses -/

/-- The bytes of the range are mapped, and they are these. -/
def Holds (m : FlatMemoryBus) (addr : BitVec 32) (bs : List Byte) : Prop :=
  ∀ i (h : i < bs.length), m.read8 (byteAddr addr i) = .ok bs[i]

/-- Some byte of the range is not mapped. -/
def Faults (m : FlatMemoryBus) (addr : BitVec 32) (n : Nat) : Prop :=
  ∃ i < n, ∃ e, m.read8 (byteAddr addr i) = .error e

private theorem faults_of_not_inWindow (m : FlatMemoryBus) {addr : BitVec 32} {n : Nat} (hn : 0 < n)
    (h : ¬ InWindow addr n) : m.Faults addr n := by
  obtain ⟨i, hi, he⟩ := exists_translate_error hn h
  exact ⟨i, hi, _, by rw [read8, he]; rfl⟩

private theorem not_holds_of_faults {m : FlatMemoryBus} {addr : BitVec 32} {bs : List Byte}
    (h : m.Faults addr bs.length) : ¬ m.Holds addr bs := by
  obtain ⟨i, hi, e, he⟩ := h
  intro hb
  rw [hb i hi] at he
  cases he

/-- Inside one window a read returns the bytes. -/
theorem holds_readBytes {m : FlatMemoryBus} {addr : BitVec 32} {bs : List Byte} {n : Nat}
    (h : InWindow addr n) (hread : m.readBytes addr n = .ok bs) :
    bs.length = n ∧ m.Holds addr bs := by
  obtain ⟨flat, ht, hle⟩ := h.translate
  rw [readBytes_eq_ok ht hle] at hread
  cases hread
  refine ⟨List.length_ofFn, ?_⟩
  intro i hi
  obtain ⟨f, hf, hv⟩ := h.translate_byteAddr ht (show i < n by simpa using hi)
  rw [read8, hf, List.getElem_ofFn]
  exact congrArg (Except.ok <| m.data ·) (Fin.ext hv)

/-- Inside one window a load leaves the bytes there. -/
theorem holds_load {m m' : FlatMemoryBus} {addr : BitVec 32} {bs : List Byte}
    (h : InWindow addr bs.length) (hload : m.load addr bs = .ok m') : m'.Holds addr bs :=
  (holds_readBytes h (readBytes_load hload)).2

/-! ### Agreement -/

/-- A read of `n` bytes and the byte reads: it returns the word that the bytes make up, and
faults only when one of them does. -/
def ReadAgrees {w : Nat} (m : FlatMemoryBus) (addr : BitVec 32) (n : Nat) :
    Except BusFault (BitVec w) → Prop
  | .ok v => ∃ bs, bs.length = n ∧ m.Holds addr bs ∧ v = ofLittleEndian w bs
  | .error _ => m.Faults addr n

/-- A store of bytes and the byte accesses: it makes their writes one by one, each byte can be
read back, and it faults, without a new memory, only when one of them does. -/
def StoreAgrees (m : FlatMemoryBus) (addr : BitVec 32) (bs : List Byte) :
    Except BusFault FlatMemoryBus → Prop
  | .ok m' => m'.Holds addr bs ∧ m' = m.pokes addr bs
  | .error _ => m.Faults addr bs.length

private theorem InWindow.not_leavesSram {addr : BitVec 32} {n : Nat} (h : InWindow addr n) :
    ¬ LeavesSram addr n := by
  unfold InWindow size sramBase sramSize at h
  unfold LeavesSram size sramBase sramSize
  omega

private theorem readAgrees_iff (w : Nat) (m : FlatMemoryBus) (addr : BitVec 32) {n : Nat}
    (hn : 0 < n) :
    m.ReadAgrees addr n ((m.readBytes addr n).map (ofLittleEndian w)) ↔ ¬ LeavesSram addr n := by
  by_cases hacc : Accessible addr n
  · obtain ⟨bs, hread⟩ := m.exists_readBytes hacc
    rw [hread]
    rcases accessible_iff.mp hacc with hin | hout
    · obtain ⟨hlength, hholds⟩ := holds_readBytes hin hread
      exact iff_of_true ⟨bs, hlength, hholds, rfl⟩ hin.not_leavesSram
    · have hfaults := m.faults_of_not_inWindow hn fun h ↦ h.not_leavesSram hout
      apply iff_of_false _ (not_not.mpr hout)
      rintro ⟨cs, rfl, hholds, -⟩
      exact not_holds_of_faults hfaults hholds
  · rw [readBytes_of_not_accessible hacc]
    have hfaults := m.faults_of_not_inWindow hn fun h ↦ hacc (accessible_iff.mpr (.inl h))
    exact iff_of_true hfaults fun h ↦ hacc (accessible_iff.mpr (.inr h))

private theorem storeAgrees_iff (m : FlatMemoryBus) (addr : BitVec 32) {bs : List Byte}
    (hn : 0 < bs.length) :
    m.StoreAgrees addr bs (m.load addr bs) ↔ ¬ LeavesSram addr bs.length := by
  by_cases hacc : Accessible addr bs.length
  · obtain ⟨flat, ht, hle⟩ := hacc
    have hload : m.load addr bs = .ok (m.memcpy flat bs) := load_eq_ok.mpr ⟨flat, ht, hle, rfl⟩
    rcases accessible_iff.mp ⟨flat, ht, hle⟩ with hin | hout
    · have hagrees : m.StoreAgrees addr bs (.ok (m.pokes addr bs)) :=
        ⟨holds_load hin (load_eq_pokes m hin), rfl⟩
      rw [load_eq_pokes m hin]
      exact iff_of_true hagrees hin.not_leavesSram
    · have hnot : ¬ InWindow addr bs.length := fun h ↦ h.not_leavesSram hout
      rw [hload]
      apply iff_of_false _ (not_not.mpr hout)
      rintro ⟨hholds, -⟩
      exact not_holds_of_faults (faults_of_not_inWindow _ hn hnot) hholds
  · obtain ⟨e, he⟩ := m.load_of_not_accessible hacc
    have hfaults := m.faults_of_not_inWindow hn fun h ↦ hacc (accessible_iff.mpr (.inl h))
    rw [he]
    exact iff_of_true hfaults fun h ↦ hacc (accessible_iff.mpr (.inr h))

end FlatMemoryBus

/-- The accesses of several bytes. -/
inductive Access where
  | read16
  | read32
  | write16 (val : BitVec 16)
  | write32 (val : BitVec 32)
  | load (src : List Byte)
  deriving DecidableEq, Repr

namespace Access

/-- How many bytes it covers. -/
def width : Access → Nat
  | read16 | write16 _ => 2
  | read32 | write32 _ => 4
  | load src => src.length

/-- The access agrees with the accesses of its bytes. -/
def Agrees (m : FlatMemoryBus) (addr : BitVec 32) : Access → Prop
  | read16 => m.ReadAgrees addr 2 (m.read16 addr)
  | read32 => m.ReadAgrees addr 4 (m.read32 addr)
  | write16 val => m.StoreAgrees addr (toLittleEndian 2 val) (m.write16 addr val)
  | write32 val => m.StoreAgrees addr (toLittleEndian 4 val) (m.write32 addr val)
  | load src => m.StoreAgrees addr src (m.load addr src)

/-- A read that leaves SRAM succeeds, though the bytes behind the window are not mapped. -/
theorem read32_leavesSram :
    FlatMemoryBus.clear.read32 0x20003FFE = .ok 0 ∧
    FlatMemoryBus.clear.read8 0x20004000 = .error ⟨0x20004000⟩ ∧
    ¬ read32.Agrees FlatMemoryBus.clear 0x20003FFE := by
  refine ⟨by rfl, by rfl, ?_⟩
  intro h
  have hiff := FlatMemoryBus.readAgrees_iff 32 FlatMemoryBus.clear 0x20003FFE (n := 4) (by decide)
  exact hiff.mp h (by decide)

/-- An access of several bytes agrees with the accesses of its bytes exactly when it does not
leave SRAM. -/
theorem agrees_iff (m : FlatMemoryBus) (addr : BitVec 32) (a : Access) (h : 0 < a.width) :
    a.Agrees m addr ↔ ¬ LeavesSram addr a.width := by
  cases a with
  | read16 => exact m.readAgrees_iff 16 addr h
  | read32 => exact m.readAgrees_iff 32 addr h
  | write16 val =>
    have hstore := m.storeAgrees_iff addr (by simp : 0 < (toLittleEndian 2 val).length)
    rwa [length_toLittleEndian] at hstore
  | write32 val =>
    have hstore := m.storeAgrees_iff addr (by simp : 0 < (toLittleEndian 4 val).length)
    rwa [length_toLittleEndian] at hstore
  | load src => exact m.storeAgrees_iff addr h

/-- A word store to the flash. -/
theorem agrees_iff_flash :
    (write32 0xDEADBEEF).Agrees FlatMemoryBus.clear 0x300 ↔ ¬ LeavesSram 0x300 4 :=
  agrees_iff FlatMemoryBus.clear 0x300 (write32 0xDEADBEEF) (by decide)

end Access

end McuSimulator.Memory
