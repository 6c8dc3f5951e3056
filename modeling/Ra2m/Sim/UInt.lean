/-
Unsigned integers of any width (`types/uint.rs`).

A number is a list of 64-bit words, the least significant first, and sums and products
of words are taken in 128 bits.  `debug` says whether the build has debug assertions
and overflow checks; without them a sum of words wraps.  The indices of the loops stay
inside the vectors, so an index is read with a default and written with `set`.

A `UInt` keeps its number in such a list.  `normalize` is to cut it down to the width
and to say whether bits were lost; every operator passes its result through it.
-/
import Mathlib.Algebra.Group.Nat.Defs
import Ra2m.Lib.Words
import Ra2m.Sim.Addr

namespace Ra2m

namespace Types

/-- `w as u128`. -/
def wide (w : UInt64) : BitVec 128 := w.toBitVec.setWidth 128

/-- `val as u64`. -/
def narrow (val : BitVec 128) : UInt64 := ⟨val.setWidth 64⟩

/-- Split u128 in slice of two u64, the high word first. -/
def split (val : BitVec 128) : UInt64 × UInt64 :=
  let lsb := narrow (val &&& ~~~((~~~1#128) <<< 64))
  let msb := narrow (val >>> 64)
  (msb, lsb)

/-- `x + y` on words. -/
def addWord (debug : Bool) (x y : UInt64) : Exec UInt64 :=
  if debug = true ∧ 2 ^ 64 ≤ x.toNat + y.toNat then .error ⟨"attempt to add with overflow"⟩
  else .ok (x + y)

/-- `Vec::resize` with zeros. -/
def resizeVec (vec : List UInt64) (len : Nat) : List UInt64 :=
  vec.take len ++ List.replicate (len - vec.length) 0

/-! ### Addition and subtraction -/

/-- One round of the loop over both operands. -/
def addCommon (shortOp longOp res : List UInt64) (i : Nat) : List UInt64 :=
  let tmp := wide (res.getD i 0) + wide (shortOp.getD i 0) + wide (longOp.getD i 0)
  let (hi, lo) := split tmp
  (res.set (i + 1) hi).set i lo

/-- One round of the loop over the rest of the longer operand. -/
def addTail (longOp res : List UInt64) (i : Nat) : List UInt64 :=
  let tmp := wide (res.getD i 0) + wide (longOp.getD i 0)
  let (hi, lo) := split tmp
  (res.set (i + 1) hi).set i lo

/-- The first `k` rounds over both operands. -/
def addCommonRounds (shortOp longOp : List UInt64) (k : Nat) : List UInt64 :=
  (List.range k).foldl (addCommon shortOp longOp) (List.replicate (longOp.length + 1) 0)

/-- All rounds over both operands, and `k` over the rest of the longer one. -/
def addTailRounds (shortOp longOp : List UInt64) (k : Nat) : List UInt64 :=
  (List.range' shortOp.length k).foldl (addTail longOp)
    (addCommonRounds shortOp longOp shortOp.length)

/-- The longer operand first. -/
def longShort (a b : List UInt64) : List UInt64 × List UInt64 :=
  if b.length ≤ a.length then (a, b) else (b, a)

/-- Add two sliced values. -/
def slicedAdd (debug : Bool) (a b : List UInt64) : Exec (List UInt64) :=
  let (longOp, shortOp) := longShort a b
  let res := addTailRounds shortOp longOp (longOp.length - shortOp.length)
  let ovflw := res.getLastD 0
  let res := res.dropLast
  if debug = true ∧ ovflw ≠ 0 then .error ⟨"Sliced operation overflowed"⟩ else .ok res

/-- Two complement a sliced value. -/
def slicedTwoComplement (debug : Bool) (val : List UInt64) : Exec (List UInt64) :=
  let res := val.map (~~~ ·)
  slicedAdd debug res [1]

def slicedSub (debug : Bool) (a b : List UInt64) : Exec (List UInt64) := do
  let bTc ← slicedTwoComplement debug b
  slicedAdd debug a bTc

/-! ### Multiplication -/

/-- The partial product of the words `sa` at `i` and `sb` at `j`. -/
def mulStep (debug : Bool) (sa : UInt64) (i : Nat) (res : List UInt64) (p : UInt64 × Nat) :
    Exec (List UInt64) := do
  let (sb, j) := p
  let tmp := wide sa * wide sb
  let (msw, lsw) := split tmp
  let sum ← addWord debug (res.getD (i + j) 0) lsw
  let res := res.set (i + j) sum
  return res.set (i + j + 1) msw

/-- The partial products of one word of `a`. -/
def mulRow (debug : Bool) (b res : List UInt64) (p : UInt64 × Nat) : Exec (List UInt64) :=
  let (sa, i) := p
  b.zipIdx.foldlM (mulStep debug sa i) res

/-- Mul two sliced values. -/
def slicedMul (debug : Bool) (a b : List UInt64) : Exec (List UInt64) := do
  let maxOpLen := max a.length b.length
  let resLen := a.length + b.length
  let res ← a.zipIdx.foldlM (mulRow debug b) (List.replicate resLen 0)
  if debug = true ∧ ∃ i ∈ List.range' maxOpLen (resLen - maxOpLen), res.getD i 0 ≠ 0 then
    throw ⟨"Sliced operation overflowed"⟩
  else return resizeVec res maxOpLen

/-! ### Shifts -/

/-- One word of a shift to the left, with the bits carried over from the word below. -/
def shlStep (debug : Bool) (val : List UInt64) (shiftWord shiftRem : Nat)
    (st : List UInt64 × UInt64) (i : Nat) : Exec (List UInt64 × UInt64) := do
  let (res, shiftIn) := st
  let res := res.set (i + shiftWord) (val.getD i 0 <<< UInt64.ofNat shiftRem)
  let sum ← addWord debug (res.getD (i + shiftWord) 0) shiftIn
  let res := res.set (i + shiftWord) sum
  return (res, narrow (wide (val.getD i 0) >>> (64 - shiftRem)))

/-- Shift left (<<) without extending the slice size. -/
def slicedShl (debug : Bool) (val : List UInt64) (lshift : Nat) : Exec (List UInt64) := do
  let shiftWord := lshift / 64
  let shiftRem := lshift % 64
  let (res, _) ← (List.range val.length).foldlM (shlStep debug val shiftWord shiftRem)
    (List.replicate (val.length + shiftWord) 0, 0)
  return resizeVec res val.length

/-- One word of a shift to the right, with the bits carried over from the word above. -/
def shrStep (debug : Bool) (val : List UInt64) (shiftWord shiftRem : Nat)
    (st : List UInt64 × UInt64) (i : Nat) : Exec (List UInt64 × UInt64) := do
  let (res, shiftIn) := st
  let valIsw := if i + shiftWord < val.length then val.getD (i + shiftWord) 0 else 0
  let res := res.set i (valIsw >>> UInt64.ofNat shiftRem)
  let sum ← addWord debug (res.getD i 0) (narrow (wide shiftIn <<< (64 - shiftRem)))
  let res := res.set i sum
  return (res, valIsw &&& ~~~((~~~1) <<< UInt64.ofNat shiftRem))

/-- Shift right (>>) without shrinking the slice size. -/
def slicedShr (debug : Bool) (val : List UInt64) (rshift : Nat) : Exec (List UInt64) := do
  let shiftWord := rshift / 64
  let shiftRem := rshift % 64
  let (res, _) ← (List.range val.length).reverse.foldlM (shrStep debug val shiftWord shiftRem)
    (List.replicate val.length 0, 0)
  return res

/-! ### Fixed sized unsigned integer -/

/-- An unsigned integer of `W` bits. -/
structure UInt (W : Nat) where
  words : List UInt64
  deriving DecidableEq

namespace UInt

variable {W : Nat}

/-- Keep the words of the width and the bits below the mask, and return an overflow status. -/
def normalize (debug : Bool) (self : UInt W) : Exec (Bool × UInt W) :=
  let trgtLen := (W + 63) / 64
  let mswRem := W % 64
  if self.words.length < trgtLen then .ok (false, self)
  else if trgtLen = 0 then
    .error ⟨if debug then "attempt to subtract with overflow"
      else "index out of bounds: the len is 0 but the index is 18446744073709551615"⟩
  else
    let words := resizeVec self.words trgtLen
    let msw := words.getD (trgtLen - 1) 0
    let bitmask := ~~~((~~~1) <<< UInt64.ofNat mswRem)
    -- The shift is by the size of a word in bytes.
    let overflow := msw >>> 8
    .ok (0 < overflow, ⟨words.set (trgtLen - 1) (msw &&& bitmask)⟩)

/-- The assertion asks for an overflow. -/
def fromVec (debug : Bool) (vec : List UInt64) : Exec (UInt W) := do
  let (ovflw, raw) ← normalize debug ⟨vec⟩
  if debug = true ∧ ovflw = false then throw ⟨"Given vector overflowed available bits"⟩
  else return raw

/-- Change the number of bit of the represented UInt. -/
def resize (debug : Bool) (self : UInt W) (T : Nat) : Exec (UInt T) := fromVec debug self.words

/-- `Add`: the result has the larger of the two widths. -/
def add {WL WR : Nat} (debug : Bool) (self : UInt WL) (rhs : UInt WR) :
    Exec (UInt (max WL WR)) := do
  let vec ← slicedAdd debug self.words rhs.words
  fromVec debug vec

def shl (debug : Bool) (self : UInt W) (rhs : Nat) : Exec (UInt W) := do
  let vec ← slicedShl debug self.words rhs
  fromVec debug vec

def shr (debug : Bool) (self : UInt W) (rhs : Nat) : Exec (UInt W) := do
  let vec ← slicedShr debug self.words rhs
  fromVec debug vec

end UInt

end Types

end Ra2m
