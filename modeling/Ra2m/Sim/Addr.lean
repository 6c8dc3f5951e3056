/-
Addresses, access patterns and the routing table (`protocol/addr.rs`).

`AddrRangeMap` is the table an XBar routes by: range offset to range size and port.
`insertRange` adds a range and is meant to refuse one that overlaps; it looks only
at the last range that starts at or below the new one.  `findPort` looks at the
same entry and checks that the access ends inside it.

A `unit::Data` is read through `into_byte` everywhere here, so it is its number of
bytes.  Sums of offsets and sizes are exact.
-/
import Ra2m.Lib.SortedMap

namespace Ra2m

/-- What a Rust panic says; a program point that cannot panic never yields one. -/
structure Panic where
  message : String
  deriving DecidableEq, Repr

/-- The outcome of code that may panic. -/
abbrev Exec (α : Type) := Except Panic α

/-- Simulated time, in ticks. -/
abbrev Tick := Nat

/-- An amount of data, in bytes. -/
abbrev Data := Nat

/-- An address in the available address spaces. -/
inductive Addr where
  | unset
  | phys (p : Nat)
  | virt (v : Nat)
  | physVirt (p v : Nat)
  | range (b : Nat) (size : Data)
  deriving DecidableEq, Repr

/-- The physical side of an address. -/
def Addr.phys? : Addr → Option Nat
  | .phys p => some p
  | .physVirt p _ => some p
  | _ => none

/-- An address inside a sub-range, which is always physical. -/
inductive SubRangeAddr where
  | unset
  | phys (p : Nat)
  deriving DecidableEq, Repr

/-- The shape of an access: contiguous, or `iter` chunks of `size` bytes every `stride` bytes. -/
inductive Pattern where
  | unset
  | simple (d : Data)
  | stride (size stride : Data) (iter : Nat)
  deriving DecidableEq, Repr

namespace Pattern

/-- The size of the access. -/
def len : Pattern → Exec Data
  | simple d => .ok d
  | stride size _ iter => .ok (size * iter)
  | unset => .error ⟨"Unsupported pattern"⟩

/-- The range viewed by the access. -/
def range : Pattern → Exec Data
  | simple d => .ok d
  | stride _ strd iter => .ok (strd * iter)
  | unset => .error ⟨"Unsupported pattern"⟩

end Pattern

/-- The entries of a routing table: offset to size and port. -/
abbrev ArMap := SortedMap Nat (Nat × Nat)

inductive AddrRangeError where
  | overlap (target overlap : Nat × Data)
  | crossRange (access : Nat × Data) (range : ArMap)
  | unmapped (addr : Nat) (len : Data)
  deriving DecidableEq

/-- The routing table. -/
structure AddrRangeMap where
  arMap : ArMap
  deriving DecidableEq

namespace AddrRangeMap

def new : AddrRangeMap := ⟨SortedMap.empty⟩

/-- Add a range, unless the last range starting at or below it reaches past its offset. -/
def insertRange (self : AddrRangeMap) (addrOffset : Nat) (size : Data) (portId : Nat) :
    Except AddrRangeError AddrRangeMap :=
  match self.arMap.lastLE addrOffset with
  | some (arOfst, (arSize, _)) =>
      if arOfst + arSize > addrOffset then
        .error (.overlap (addrOffset, size) (arOfst, arSize))
      else .ok ⟨self.arMap.insert addrOffset (size, portId)⟩
  | none => .ok ⟨self.arMap.insert addrOffset (size, portId)⟩

/-- The offset and the port of the range an access falls in. -/
def findPort (self : AddrRangeMap) (addrOffset : Nat) (size : Data) :
    Except AddrRangeError (Nat × Nat) :=
  match self.arMap.lastLE addrOffset with
  | some (arOfst, (arSize, portId)) =>
      if arOfst + arSize < addrOffset + size then
        .error (.crossRange (addrOffset, size) self.arMap)
      else .ok (arOfst, portId)
  | none => .error (.unmapped addrOffset size)

/-! ### What the two operations read off the table -/

/-- `insertRange` accepts a range exactly when the last range at or below it ends before it. -/
theorem insertRange_eq_ok_iff {self m : AddrRangeMap} {ofst size port : Nat} :
    self.insertRange ofst size port = .ok m ↔
      m = ⟨self.arMap.insert ofst (size, port)⟩ ∧
        ∀ e, self.arMap.lastLE ofst = some e → e.1 + e.2.1 ≤ ofst := by
  unfold insertRange
  split
  · rename_i o s p hlast
    rw [hlast]
    simp only [Option.some.injEq, forall_eq']
    split
    · rename_i hgt
      simp only [reduceCtorEq, false_iff, not_and]
      intro _
      omega
    · rename_i hle
      simp only [Except.ok.injEq]
      exact ⟨fun h => ⟨h.symm, by omega⟩, fun h => h.1.symm⟩
  · rename_i hlast
    rw [hlast]
    simp only [Except.ok.injEq, reduceCtorEq, false_implies, implies_true, and_true]
    exact ⟨Eq.symm, Eq.symm⟩

/-- `findPort` routes an access to the last range at or below it, if the access ends inside. -/
theorem findPort_eq_ok_iff {self : AddrRangeMap} {ofst size o p : Nat} :
    self.findPort ofst size = .ok (o, p) ↔
      ∃ s, self.arMap.lastLE ofst = some (o, (s, p)) ∧ ofst + size ≤ o + s := by
  unfold findPort
  split
  · rename_i o' s' p' hlast
    rw [hlast]
    simp only [Option.some.injEq, Prod.mk.injEq]
    split
    · rename_i hlt
      simp only [reduceCtorEq, false_iff, not_exists, not_and]
      rintro s ⟨rfl, rfl, rfl⟩
      omega
    · rename_i hge
      simp only [Except.ok.injEq, Prod.mk.injEq]
      constructor
      · rintro ⟨rfl, rfl⟩
        exact ⟨s', ⟨rfl, rfl, rfl⟩, by omega⟩
      · rintro ⟨s, ⟨rfl, rfl, rfl⟩, -⟩
        exact ⟨rfl, rfl⟩
  · rename_i hlast
    rw [hlast]
    simp

end AddrRangeMap

end Ra2m
