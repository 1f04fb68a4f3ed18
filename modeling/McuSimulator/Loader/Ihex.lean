import Mathlib.Data.List.DropRight
import Mathlib.Data.UInt
import McuSimulator.Base.HexText
import McuSimulator.Memory.FlatMemoryBus

/-!
# The firmware loader

`Loader` of `src/loader.h` and `src/loader.cpp`. A file is the list of its characters, or
`none` when it cannot be opened. Lines are read through `c_str()`: past the terminating NUL
the source reads whatever the buffer of `line` holds there and whatever follows it, which depends
on the lines read before and is the parameter `past`; where it has no value the read is reported as
an error of its own.
-/

namespace McuSimulator.Loader

open McuSimulator.Base McuSimulator.Memory

/-- What ends a load early. -/
inductive LoadError where
  /-- `LoaderError`, with its text. -/
  | loaderError (message : String)
  /-- `BusFaultException` from the memory. -/
  | busFault (fault : BusFault)
  /-- A read past the terminator of a line, where the behaviour is undefined. -/
  | outOfRange (index : Nat)
  deriving DecidableEq, Repr

/-- The characters that follow the terminator of a line in memory, by their index. -/
abbrev Behind := Nat → Option Char

/-- They may depend on all the lines read so far, this one first. -/
abbrev Past := List (List Char) → Behind

/-- `std::getline` over the whole file: the pieces ended by a newline, and the last one if it
is not empty. -/
def lines : List Char → List (List Char)
  | [] => []
  | c :: cs =>
    if c = '\n' then [] :: lines cs
    else
      match lines cs with
      | [] => [[c]]
      | l :: ls => (c :: l) :: ls

/-- Remove trailing CR and LF; src/loader.cpp:60–61. -/
def stripEnd (line : List Char) : List Char :=
  line.rdropWhile fun c ↦ c = '\r' ∨ c = '\n'

/-- `std::from_chars` in base 16 on two characters: the longest prefix of digits. -/
def fromChars (a b : Char) : Option Byte :=
  match hexValue a, hexValue b with
  | some x, some y => some (BitVec.ofNat 8 (16 * x + y))
  | some x, none => some (BitVec.ofNat 8 x)
  | none, _ => none

section

variable (behind : Behind)

/-- `line.c_str()[i]`. -/
def charAt (l : List Char) (i : Nat) : Except LoadError Char :=
  match l[i]? with
  | some c => .ok c
  | none =>
    if i = l.length then .ok (Char.ofNat 0)
    else
      match behind i with
      | some c => .ok c
      | none => .error (.outOfRange i)

/-- `parse_hex_byte(line.c_str() + k)`. Both characters are read, by `from_chars` or by the
message; src/loader.cpp:9–15. -/
def parseHexByte (line : List Char) (k : Nat) : Except LoadError Byte := do
  let a ← charAt behind line k
  let b ← charAt behind line (k + 1)
  match fromChars a b with
  | some v => return v
  | none => throw (.loaderError ("Invalid hex byte: " ++ String.ofList [a, b]))

/-- The loop over `n` bytes from `c_str() + k` on; src/loader.cpp:21–22, 72–73, 93–94. -/
def parseHexBytes (line : List Char) : Nat → Nat → Except LoadError (List Byte)
  | _, 0 => return []
  | k, n + 1 => do
    let b ← parseHexByte behind line k
    let bs ← parseHexBytes line (k + 2) n
    return b :: bs

/-- `verify_checksum`; src/loader.cpp:17–25. -/
def verifyChecksum (line : List Char) : Except LoadError Unit := do
  let bs ← parseHexBytes behind line 1 ((line.length - 1) / 2)
  if bs.sum ≠ 0 then
    throw (.loaderError ("Checksum error in HEX record: " ++ String.ofList line))

/-- The local state of `load_ihex` and the memory. -/
@[ext]
structure Progress where
  mem : FlatMemoryBus
  baseAddr : BitVec 32 := 0
  entryPoint : BitVec 32 := 0

/-- Act on a record whose header has been read; `none` is the EOF record;
src/loader.cpp:69–98. -/
def actOnRecord (p : Progress) (line : List Char) (byteCount : Byte) (offset : BitVec 16)
    (recType : Byte) : Except LoadError (Option Progress) := do
  if recType = 0x00 then
    let data ← parseHexBytes behind line 9 byteCount.toNat
    match p.mem.load (p.baseAddr + offset.setWidth 32) data with
    | .ok mem => return some { p with mem := mem }
    | .error f => throw (.busFault f)
  else if recType = 0x01 then return none
  else if recType = 0x02 then
    let hi ← parseHexByte behind line 9
    let lo ← parseHexByte behind line 11
    return some { p with baseAddr := (hi ++ lo).setWidth 32 <<< 4 }
  else if recType = 0x04 then
    let hi ← parseHexByte behind line 9
    let lo ← parseHexByte behind line 11
    return some { p with baseAddr := (hi ++ lo).setWidth 32 <<< 16 }
  else if recType = 0x05 then
    let bs ← parseHexBytes behind line 9 4
    return some { p with
      entryPoint := bs.foldl (fun e b ↦ e <<< 8 ||| b.setWidth 32) p.entryPoint }
  else throw (.loaderError ("Unknown HEX record type: " ++ toString recType.toNat))

/-- One line that starts with a colon; src/loader.cpp:57–98. -/
def readRecord (p : Progress) (line : List Char) : Except LoadError (Option Progress) := do
  if line.length < 11 then
    throw (.loaderError ("Short HEX record: " ++ String.ofList line))
  let line := stripEnd line
  verifyChecksum behind line
  let byteCount ← parseHexByte behind line 1
  let addrHi ← parseHexByte behind line 3
  let addrLo ← parseHexByte behind line 5
  let recType ← parseHexByte behind line 7
  actOnRecord behind p line byteCount (addrHi ++ addrLo) recType

end

section

variable (past : Past)

/-- The loop of `load_ihex` over the lines, behind those in `seen`. An exception leaves what the
earlier records wrote; src/loader.cpp:55–100. -/
def readLines (seen : List (List Char)) (p : Progress) :
    List (List Char) → Except LoadError (BitVec 32) × FlatMemoryBus
  | [] => (.ok p.entryPoint, p.mem)
  | line :: rest =>
    if line.head? ≠ some ':' then readLines (line :: seen) p rest
    else
      match readRecord (past (line :: seen)) p line with
      | .error e => (.error e, p.mem)
      | .ok none => (.ok p.entryPoint, p.mem)
      | .ok (some p') => readLines (line :: seen) p' rest

/-- `load_ihex`; src/loader.cpp:44–101. -/
def loadIhex (mem : FlatMemoryBus) (path : String) (file : Option (List Char)) :
    Except LoadError (BitVec 32) × FlatMemoryBus :=
  match file with
  | none => (.error (.loaderError ("Cannot open HEX file: " ++ path)), mem)
  | some text => readLines past [] { mem := mem } (lines text)

end

/-- `load_binary`, up to read errors of the file; src/loader.cpp:27–42. -/
def loadBinary (mem : FlatMemoryBus) (path : String) (file : Option (List Byte))
    (loadAddr : BitVec 32) : Except LoadError (BitVec 32) × FlatMemoryBus :=
  match file with
  | none => (.error (.loaderError ("Cannot open binary: " ++ path)), mem)
  | some bytes =>
    if bytes.length ≤ 0 then (.error (.loaderError ("Empty binary: " ++ path)), mem)
    else
      match mem.load loadAddr bytes with
      | .ok mem' => (.ok loadAddr, mem')
      | .error f => (.error (.busFault f), mem)

end McuSimulator.Loader
