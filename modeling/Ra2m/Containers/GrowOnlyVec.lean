/-
A vector that only grows, in a pool of fixed size (`growonly.rs`, `port/mod.rs`).

The pool is allocated once and its slots are uninitialised memory until they are
written.  `used` reserves the slot of a push and is at the same time the length every
reader goes by.  A `PortVec` keeps its ports in such a vector and reads them through
the slice.
-/
import Ra2m.Sim.Addr

namespace Ra2m

namespace Containers

inductive ContainerError where
  | sizeExceeded (capacity : Nat)
  deriving DecidableEq

/-- A slot of the pool is `none` until a value is written to it. -/
structure GrowOnlyVec (T : Type) where
  used : Nat
  capacity : Nat
  pool : List (Option T)
  pool_length : pool.length = capacity

namespace GrowOnlyVec

variable {T : Type}

def new (capacity : Nat) : GrowOnlyVec T where
  used := 0
  capacity := capacity
  pool := List.replicate capacity none
  pool_length := List.length_replicate

def len (self : GrowOnlyVec T) : Nat := self.used

def asSlice (self : GrowOnlyVec T) : Exec (List (Option T)) :=
  if self.len ≤ self.pool.length then .ok (self.pool.take self.len)
  else .error ⟨s!"range end index {self.len} out of range for slice of length {self.pool.length}"⟩

/-- The slot is reserved before the capacity is looked at. -/
def innerMutPush (self : GrowOnlyVec T) (value : T) :
    Except ContainerError Nat × GrowOnlyVec T :=
  let index := self.used
  let self := { self with used := self.used + 1 }
  if self.capacity ≤ index then (.error (.sizeExceeded self.capacity), self)
  else
    (.ok index, { self with
      pool := self.pool.set index (some value)
      pool_length := by rw [List.length_set, self.pool_length] })

/-- `Index<usize> for GrowOnlyVec`.  The slot is handed out as it is: `none` is memory that was
never written. -/
def index (self : GrowOnlyVec T) (index : Nat) : Exec (Option T) :=
  if self.len < index then
    .error ⟨s!"index out of bounds: the len is {self.len} but the index is {index}"⟩
  else
    match self.pool[index]? with
    | some slot => .ok slot
    | none =>
        .error ⟨s!"index out of bounds: the len is {self.pool.length} but the index is {index}"⟩

/-- `IndexMut<usize> for GrowOnlyVec`: the slot, and the vector after a write to it. -/
def indexMut (self : GrowOnlyVec T) (index : Nat) : Exec (Option T × (T → GrowOnlyVec T)) :=
  if self.len < index then
    .error ⟨s!"index out of bounds: the len is {self.len} but the index is {index}"⟩
  else
    match self.pool[index]? with
    | some slot =>
        .ok (slot, fun value =>
          { self with
            pool := self.pool.set index (some value)
            pool_length := by rw [List.length_set, self.pool_length] })
    | none =>
        .error ⟨s!"index out of bounds: the len is {self.pool.length} but the index is {index}"⟩

/-- The pushes of a list, one after another. -/
def pushAll (self : GrowOnlyVec T) (values : List T) : GrowOnlyVec T :=
  values.foldl (fun self value => (self.innerMutPush value).2) self

/-- The values of a list whose push succeeds. -/
def pushed (self : GrowOnlyVec T) : List T → List T
  | [] => []
  | value :: rest =>
      match self.innerMutPush value with
      | (.ok _, self) => value :: self.pushed rest
      | (.error _, self) => self.pushed rest

end GrowOnlyVec

/-- The ports of a vector port. -/
structure PortVec (P : Type) where
  portVec : GrowOnlyVec P

namespace PortVec

variable {P : Type}

def len (self : PortVec P) : Nat := self.portVec.len

def asSlice (self : PortVec P) : Exec (List (Option P)) := self.portVec.asSlice

/-- `Index<usize> for PortVec`. -/
def index (self : PortVec P) (idx : Nat) : Exec (Option P) := do
  let slice ← self.asSlice
  match slice[idx]? with
  | some port => .ok port
  | none =>
      .error ⟨s!"index out of bounds: the len is {slice.length} but the index is {idx}"⟩

end PortVec

end Containers

end Ra2m
