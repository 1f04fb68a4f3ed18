import McuSimulator.Loader.Records
import McuSimulator.Memory.Bytewise

/-!
# Images cut into records

A firmware image is its bytes, from an address on. An assembler that writes it as a HEX file cuts
it into pieces, one for each data record, and may write them in any order. Inside one window the
pieces lie on different cells, so the file loads to the memory that the image itself loads to.
-/

namespace McuSimulator.Loader

open McuSimulator.Base McuSimulator.Memory McuSimulator.Memory.FlatMemoryBus

/-! ### Stores on different cells -/

section Stores

variable {m : FlatMemoryBus} {a a' : BitVec 32}

private theorem memcpy_singleton (m : FlatMemoryBus) (flat : Fin size) (b : Byte) :
    m.memcpy flat [b] = ⟨Function.update m.data flat b⟩ := by
  ext1
  funext i
  rw [memcpy]
  dsimp only
  rw [Function.update_apply]
  rcases Nat.lt_trichotomy i.val flat.val with hlt | heq | hgt
  · rw [if_neg (by omega), if_neg (by omega)]
  · rw [if_pos (by omega), if_pos (Fin.ext heq), heq, Nat.sub_self]
    rfl
  · have hnone : [b][i.val - flat.val]? = none := List.getElem?_eq_none (by
      rw [List.length_singleton]
      omega)
    rw [if_pos (by omega), if_neg (by omega), hnone, Option.getD_none]

private theorem poke_of_translate {flat : Fin size} (b : Byte)
    (h : FlatMemoryBus.translate a = .ok flat) :
    m.poke a b = ⟨Function.update m.data flat b⟩ := by
  rw [← memcpy_singleton]
  simp [poke, write8, h, Except.map]

private theorem poke_of_error {f : BusFault} (b : Byte) (h : FlatMemoryBus.translate a = .error f) :
    m.poke a b = m := by
  simp [poke, write8, h, Except.map]

/-- Two addresses that do not stand for the same cell. -/
def Distinct (a a' : BitVec 32) : Prop :=
  ∀ flat : Fin size,
    FlatMemoryBus.translate a = .ok flat → FlatMemoryBus.translate a' ≠ .ok flat

private theorem poke_comm (h : Distinct a a') (b b' : Byte) :
    (m.poke a b).poke a' b' = (m.poke a' b').poke a b := by
  cases ht : FlatMemoryBus.translate a with
  | error f => rw [poke_of_error b ht, poke_of_error b ht]
  | ok flat =>
    cases ht' : FlatMemoryBus.translate a' with
    | error f => rw [poke_of_error b' ht', poke_of_error b' ht']
    | ok flat' =>
      have hne : flat ≠ flat' := by
        rintro rfl
        exact h flat ht ht'
      rw [poke_of_translate b ht, poke_of_translate b' ht', poke_of_translate b' ht',
        poke_of_translate b ht]
      exact congrArg FlatMemoryBus.mk (Function.update_comm hne b b' m.data)

/-- Two stores none of whose bytes go to the same cell. -/
def Apart (w w' : BitVec 32 × List Byte) : Prop :=
  ∀ i < w.2.length, ∀ j < w'.2.length, Distinct (byteAddr w.1 i) (byteAddr w'.1 j)

private theorem byteAddr_zero (a : BitVec 32) : byteAddr a 0 = a := by
  rw [byteAddr]
  exact BitVec.add_zero a

private theorem byteAddr_succ (a : BitVec 32) (i : Nat) :
    byteAddr a (i + 1) = byteAddr (a + 1) i := by
  rw [byteAddr, byteAddr, Nat.add_comm, BitVec.ofNat_add, ← BitVec.add_assoc]
  rfl

private theorem poke_pokes_comm {b : Byte} (bs : List Byte)
    (h : ∀ j < bs.length, Distinct a (byteAddr a' j)) :
    (m.poke a b).pokes a' bs = (m.pokes a' bs).poke a b := by
  induction bs generalizing m a' with
  | nil => rfl
  | cons c bs ih =>
    have hfirst := h 0 (Nat.succ_pos _)
    rw [byteAddr_zero] at hfirst
    rw [pokes, pokes, poke_comm hfirst, ih]
    intro j hj
    rw [← byteAddr_succ]
    exact h (j + 1) (Nat.succ_lt_succ hj)

/-- Stores on different cells commute. -/
theorem pokes_comm {bs cs : List Byte} (h : Apart (a, bs) (a', cs)) :
    (m.pokes a bs).pokes a' cs = (m.pokes a' cs).pokes a bs := by
  induction bs generalizing m a with
  | nil => rfl
  | cons b bs ih =>
    rw [pokes, pokes, ih, poke_pokes_comm]
    · intro j hj
      rw [← byteAddr_zero a]
      exact h 0 (Nat.succ_pos _) j hj
    · intro i hi j hj
      rw [← byteAddr_succ]
      exact h (i + 1) (Nat.succ_lt_succ hi) j hj

/-- Storing bytes is storing some of them and then the rest. -/
theorem pokes_append (m : FlatMemoryBus) (a : BitVec 32) (bs cs : List Byte) :
    m.pokes a (bs ++ cs) = (m.pokes a bs).pokes (byteAddr a bs.length) cs := by
  induction bs generalizing m a with
  | nil =>
    rw [List.length_nil, byteAddr_zero]
    rfl
  | cons b bs ih =>
    rw [List.cons_append, pokes, pokes, ih, List.length_cons, byteAddr_succ]

/-- The order of stores on different cells does not matter. -/
theorem storeAll_perm {ws ws' : List (BitVec 32 × List Byte)} (hp : ws.Perm ws')
    (hw : ws.Pairwise Apart) : storeAll m ws = storeAll m ws' := by
  have hcomm : ∀ x ∈ ws, ∀ y ∈ ws, ∀ m : FlatMemoryBus,
      (m.pokes x.1 x.2).pokes y.1 y.2 = (m.pokes y.1 y.2).pokes x.1 x.2 := by
    apply List.Pairwise.forall_of_forall_of_flip
    · exact fun x _ m ↦ rfl
    · exact hw.imp fun h m ↦ pokes_comm h
    · exact hw.imp fun h m ↦ (pokes_comm h).symm
  exact hp.foldl_eq' (fun x hx y hy m ↦ hcomm x hx y hy m) m

end Stores

/-! ### Pieces -/

/-- The stores are the pieces, none of them empty, of the bytes from an address on. -/
inductive Cuts : BitVec 32 → List Byte → List (BitVec 32 × List Byte) → Prop
  | nil (addr : BitVec 32) : Cuts addr [] []
  | cons {addr : BitVec 32} {bs rest : List Byte} {ws : List (BitVec 32 × List Byte)}
      (hne : bs ≠ []) (h : Cuts (byteAddr addr bs.length) rest ws) :
      Cuts addr (bs ++ rest) ((addr, bs) :: ws)

namespace Cuts

variable {addr : BitVec 32} {bytes : List Byte} {ws : List (BitVec 32 × List Byte)}

/-- The pieces in order store the bytes. -/
theorem storeAll_eq (h : Cuts addr bytes ws) (m : FlatMemoryBus) :
    storeAll m ws = m.pokes addr bytes := by
  induction h generalizing m with
  | nil => rfl
  | cons hne h ih => rw [pokes_append, ← ih, storeAll, storeAll, List.foldl_cons]

private theorem byteAddr_byteAddr (a : BitVec 32) (i j : Nat) :
    byteAddr (byteAddr a i) j = byteAddr a (i + j) := by
  rw [byteAddr, byteAddr, byteAddr, BitVec.add_assoc, BitVec.ofNat_add_ofNat]

/-- Each piece is a range of the bytes. -/
theorem range (h : Cuts addr bytes ws) {w : BitVec 32 × List Byte} (hw : w ∈ ws) :
    ∃ k, w.1 = byteAddr addr k ∧ k + w.2.length ≤ bytes.length ∧ 0 < w.2.length := by
  induction h with
  | nil => cases hw
  | @cons addr bs rest ws hne h ih =>
    rcases List.mem_cons.mp hw with rfl | hw
    · exact ⟨0, (byteAddr_zero addr).symm, by simp, List.length_pos_iff.mpr hne⟩
    · obtain ⟨k, hk, hle, hpos⟩ := ih hw
      refine ⟨bs.length + k, by rw [hk, byteAddr_byteAddr], ?_, hpos⟩
      rw [List.length_append]
      omega

/-- Inside one window, different bytes are on different cells. -/
theorem distinct_of_inWindow {n i j : Nat} (h : InWindow addr n) (hi : i < n) (hj : j < n)
    (hne : i ≠ j) : Distinct (byteAddr addr i) (byteAddr addr j) := by
  obtain ⟨flat, ht, -⟩ := h.translate
  obtain ⟨f, hf, hfv⟩ := h.translate_byteAddr ht hi
  obtain ⟨g, hg, hgv⟩ := h.translate_byteAddr ht hj
  intro x hx hx'
  rw [hf] at hx
  rw [hg] at hx'
  cases hx
  cases hx'
  omega

/-- Inside one window, the pieces are on different cells. -/
theorem pairwise_apart (h : Cuts addr bytes ws) (hw : ∀ i < bytes.length, ∀ j < bytes.length,
    i ≠ j → Distinct (byteAddr addr i) (byteAddr addr j)) : ws.Pairwise Apart := by
  induction h with
  | nil => exact .nil
  | @cons addr bs rest ws hne h ih =>
    rw [List.length_append] at hw
    constructor
    · intro w hmem i hi j hj
      obtain ⟨k, hk, hle, -⟩ := h.range hmem
      rw [hk, byteAddr_byteAddr, byteAddr_byteAddr]
      dsimp only at hi
      exact hw i (by omega) _ (by omega) (by omega)
    · apply ih
      intro i hi j hj hij
      rw [byteAddr_byteAddr, byteAddr_byteAddr]
      exact hw _ (by omega) _ (by omega) (by omega)

/-- Each piece lies inside the window. -/
theorem inWindow (h : Cuts addr bytes ws) (hw : InWindow addr bytes.length)
    {w : BitVec 32 × List Byte} (hmem : w ∈ ws) : InWindow w.1 w.2.length := by
  obtain ⟨k, hk, hle, hpos⟩ := h.range hmem
  have hv : (byteAddr addr k).toNat = addr.toNat + k := by
    apply toNat_byteAddr
    unfold InWindow size sramBase sramSize at hw
    omega
  rw [hk]
  unfold InWindow at *
  omega

end Cuts

/-! ### Files of pieces -/

/-- The text is a HEX file of an image: its lines up to an EOF record spell records whose data
records are the pieces of the image, in any order. -/
structure Describes (text : List Char) (rs : List Record) (addr : BitVec 32) (image : List Byte) :
    Prop where
  spelled : ∃ ls eofLine rest, ∃ eof : Record, lines text = ls ++ eofLine :: rest ∧
    Spells ls rs ∧ eof.SpelledBy eofLine ∧ eof.recType = 1
  no_eof : ∀ r ∈ rs, r.recType ≠ 1
  pieces : ∃ ws, (stores 0 rs).Perm ws ∧ Cuts addr image ws

/-- A HEX file of an image inside one window loads to the memory that the image loads to. -/
theorem Describes.loadIhex_eq {text : List Char} {rs : List Record} {addr : BitVec 32}
    {image : List Byte} (h : Describes text rs addr image) (hw : InWindow addr image.length)
    (past : Past) (mem : FlatMemoryBus) (path : String) :
    loadIhex past mem path (some text) = (.ok (lastStart 0 rs), mem.pokes addr image) := by
  obtain ⟨⟨ls, eofLine, rest, eof, hl, hs, he, ht⟩, hn, ws, hperm, hcuts⟩ := h
  have hf : Fits 0 rs := fun w hmem ↦ hcuts.inWindow hw (hperm.mem_iff.mp hmem)
  have hhead : eofLine.head? = some ':' := by
    obtain ⟨cs, hcs, -⟩ := he
    exact head?_of_stripEnd hcs
  have hread := readRecord_spelled (past (eofLine :: (ls.reverse ++ [])))
    (p := rs.foldl (fun p r ↦ r.apply p) { mem := mem }) he fun h0 ↦
      absurd (h0.symm.trans ht) (by decide)
  have happart := hcuts.pairwise_apart fun i hi j hj ↦ Cuts.distinct_of_inWindow hw hi hj
  have hstore : storeAll mem (stores 0 rs) = mem.pokes addr image := by
    rw [← hcuts.storeAll_eq, storeAll_perm hperm.symm happart]
  rw [loadIhex, hl, readLines_spells past [] hs hn hf, readLines, if_neg (by simp [hhead]), hread,
    if_pos ht]
  simp only [entryPoint_foldl_apply, mem_foldl_apply, hstore]

/-- So does the image as a binary file. -/
theorem loadBinary_eq {addr : BitVec 32} {image : List Byte} (hne : image ≠ [])
    (hw : InWindow addr image.length) (mem : FlatMemoryBus) (path : String) :
    loadBinary mem path (some image) addr = (.ok addr, mem.pokes addr image) := by
  have hlen : ¬ image.length ≤ 0 := by
    rw [Nat.le_zero, List.length_eq_zero_iff]
    exact hne
  rw [loadBinary, if_neg hlen, load_eq_pokes mem hw]

end McuSimulator.Loader
