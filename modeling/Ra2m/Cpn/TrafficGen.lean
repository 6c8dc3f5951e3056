/-
The random traffic of the test bench (`test/traffic_gen.rs`).

A generator draws an address of its range, a length that is to keep the access inside
the chunk of that address, and a command; for a write it draws the bytes as well.  An
address that leaves no room for the shortest access is drawn again.

The random numbers come from a generator that is not part of the repository: `Rng` is
what is used of it, with its own state.  Whether it was seeded by the parameters is a
matter of the state that it starts from.  Sums of the parameters are exact.
-/
import Ra2m.Sim.MemBus

namespace Ra2m

/-- A generator of random numbers with a state `S`. -/
structure Rng (S : Type) where
  /-- A number from `lo..hi`. -/
  randomRange : S → Nat → Nat → Exec (Nat × S)
  /-- A byte. -/
  random : S → UInt8 × S

namespace Rng

variable {S : Type}

/-- The bytes of a write, drawn one after the other. -/
def bytes (rng : Rng S) : Nat → S → List UInt8 × S
  | 0, s => ([], s)
  | n + 1, s =>
      let (d, s) := rng.random s
      let (wval, s) := rng.bytes n s
      (d :: wval, s)

end Rng

structure TrafficGenParams where
  addrRange : Nat × Data
  addrChunk : Data
  dataRange : Data × Data
  readWriteWeight : Nat × Nat

namespace TrafficGenParams

variable {S : Type}

/-- The first address behind the range. -/
def addrHigh (params : TrafficGenParams) : Nat := params.addrRange.1 + params.addrRange.2

/-- The shortest access, in bytes. -/
def lenLow (params : TrafficGenParams) : Nat := params.dataRange.1

/-- One more than the longest access. -/
def lenHigh (params : TrafficGenParams) : Nat := params.dataRange.2

/-- The bytes from an address to the end of its chunk. -/
def lenMax (params : TrafficGenParams) (physAddr : Nat) : Nat :=
  params.addrChunk - physAddr % params.addrChunk

/-- One turn of the loop up to the request, if the turn has one. -/
def draw (params : TrafficGenParams) (fromUid : Nat) (rng : Rng S) (now : Tick) (s : S) :
    Exec (Option MemBus × S) := do
  let (readW, writeW) := params.readWriteWeight
  let cmdW := readW + writeW
  let (physAddr, s) ← rng.randomRange s params.addrRange.1 params.addrHigh
  if params.addrChunk = 0 then
    throw ⟨"attempt to calculate the remainder with a divisor of zero"⟩
  -- Prevent chunk boundary crossing
  let lenMax := params.lenMax physAddr
  if lenMax < params.lenLow then return (none, s)
  let (len, s) ← rng.randomRange s params.lenLow (min params.lenHigh lenMax)
  let addr := Addr.phys physAddr
  let pattern := Pattern.simple len
  let (cmdRand, s) ← rng.randomRange s 0 cmdW
  if cmdRand < readW then
    return (some (MemBus.new now fromUid .read addr pattern none), s)
  else
    let (wval, s) := rng.bytes len s
    return (some (MemBus.new now fromUid .write addr pattern (some wval)), s)

/-- The requests of the first `n` turns; turn `k` is at tick `now k`. -/
def genTraffic (params : TrafficGenParams) (fromUid : Nat) (rng : Rng S) (now : Nat → Tick) :
    Nat → S → Exec (List MemBus × S)
  | 0, s => .ok ([], s)
  | n + 1, s => do
      let (reqs, s) ← params.genTraffic fromUid rng now n s
      let (req, s) ← params.draw fromUid rng (now n) s
      return (reqs ++ req.toList, s)

end TrafficGenParams

end Ra2m
