import Dragonchain.BitStream
import Dragonchain.Primitives

/-!
The decoders of codec.cpp that verification uses. Coefficients are read from a 32-bit
accumulator that keeps bits it has already handed out. A signature coefficient is a sign,
seven low bits of its absolute value and the rest in unary, closed by a one; the decoder
neither looks at the sign of a zero nor at the bits behind the last coefficient.
-/

namespace Dragonchain.Falcon

open BitStream

/-- acc, acc_len and the bytes from buf + v on. -/
structure BitReader where
  acc : UInt32
  accLen : Nat
  buf : Bytes

variable (reader : BitReader)

/-- acc = (acc << 8) | buf[v ++], unless the input is used up. -/
def BitReader.pull : Option BitReader :=
  match reader.buf with
  | [] => none
  | byte :: buf => some { reader with acc := (reader.acc <<< 8) ||| byte.toUInt32, buf }

def BitReader.readBit : Option (Bool × BitReader) := do
  let reader ← (if reader.accLen = 0 then { reader with accLen := 8 }.pull else some reader)
  let accLen := reader.accLen - 1
  pure ((reader.acc >>> UInt32.ofNat accLen) &&& 1 != 0, { reader with accLen })

/-- The inner loop of comp_decode. It stops at the latest when m has passed 2047, after
sixteen bits. -/
def readTail : Nat → BitReader → Nat → Option (Nat × BitReader)
  | 0, _, _ => none
  | fuel + 1, reader, m => do
    let (bit, reader) ← reader.readBit
    if bit then pure (m, reader)
    else if m + 128 > 2047 then none
    else readTail fuel reader (m + 128)

def readCoefficient : Option (Int × BitReader) := do
  let reader ← reader.pull
  let b := reader.acc >>> UInt32.ofNat reader.accLen
  let (m, reader) ← readTail 16 reader (b &&& 127).toNat
  pure (if b &&& 128 != 0 then -(m : Int) else m, reader)

def readCoefficients : Nat → BitReader → Option (List Int × BitReader)
  | 0, reader => some ([], reader)
  | count + 1, reader => do
    let (x, reader) ← readCoefficient reader
    let (rest, reader) ← readCoefficients count reader
    pure (x :: rest, reader)

/-- PQCLEAN_FALCON512_CLEAN_comp_decode: the coefficients and the number of bytes used. -/
def compDecode (logn : Nat) (buf : Bytes) : Option (List Int × Nat) := do
  let (x, reader) ← readCoefficients (2 ^ logn) ⟨0, 0, buf⟩
  pure (x, buf.length - reader.buf.length)

def Q : Nat := 12289

/-- The loop of modq_decode, with the coefficients so far in reverse. -/
def readModq (n : Nat) : Bytes → UInt32 → Nat → List Nat → Option (List Nat × UInt32 × Nat)
  | buf, acc, accLen, x =>
    if x.length = n then some (x.reverse, acc, accLen)
    else
      match buf with
      | [] => none
      | byte :: buf =>
        let acc := (acc <<< 8) ||| byte.toUInt32
        let accLen := accLen + 8
        if accLen ≥ 14 then
          let accLen := accLen - 14
          let w := ((acc >>> UInt32.ofNat accLen) &&& 0x3fff).toNat
          if w ≥ Q then none else readModq n buf acc accLen (w :: x)
        else readModq n buf acc accLen x

/-- PQCLEAN_FALCON512_CLEAN_modq_decode: the coefficients and the number of bytes used. -/
def modqDecode (logn : Nat) (buf : Bytes) : Option (List Nat × Nat) :=
  let n := 2 ^ logn
  let inLen := (n * 14 + 7) / 8
  if inLen > buf.length then none
  else
    match readModq n (buf.take inLen) 0 0 [] with
    | none => none
    | some (x, acc, accLen) => if acc &&& ((1 <<< UInt32.ofNat accLen) - 1) != 0 then none else some (x, inLen)

end Dragonchain.Falcon
