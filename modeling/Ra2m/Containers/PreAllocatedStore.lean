/-
A store with a fixed number of preallocated slots (`preallocatedstore.rs`).

The store starts in an array of `staticStore` slots and moves to a vector when the
array overflows; it never moves back.  A slot at or behind the length keeps what was
last written to it.  A fixed-size array is the list of its slots.

A clone is the value itself.
-/
import Ra2m.Lib.Refinement
import Mathlib.Data.List.Basic

namespace Ra2m

namespace Containers

/-- An array of `staticStore` slots, of which the first `len` are in use. -/
structure StaticStore (T : Type) (staticStore : Nat) where
  len : Nat
  array : List T
  array_length : array.length = staticStore
  len_le : len ≤ staticStore

inductive PreAllocatedStore (T : Type) (staticStore : Nat) where
  | static (store : StaticStore T staticStore)
  | dynamic (vec : List T)

/-- What is done to a slice in place: any elements may change, their number does not. -/
def SliceUpdate (T : Type) : Type := { f : List T → List T // ∀ l, (f l).length = l.length }

namespace StaticStore

variable {T : Type} {n : Nat}

/-- `&array[..len]`. -/
def slice (self : StaticStore T n) : List T := self.array.take self.len

/-- Write to the first free slot. -/
def write (self : StaticStore T n) (value : T) (h : self.len < n) : StaticStore T n where
  len := self.len + 1
  array := self.array.set self.len value
  array_length := by rw [List.length_set, self.array_length]
  len_le := h

/-- Write the values of a slice to the next slots, one after another. -/
def writeAll : (self : StaticStore T n) → (other : List T) → self.len + other.length ≤ n →
    StaticStore T n
  | self, [], _ => self
  | self, value :: rest, h =>
      have hlt : self.len < n := by
        rw [List.length_cons] at h
        omega
      (self.write value hlt).writeAll rest (by
        show self.len + 1 + rest.length ≤ n
        rw [List.length_cons] at h
        omega)

/-- Give up the last slot in use; its value stays where it is. -/
def drop (self : StaticStore T n) : StaticStore T n :=
  { self with len := self.len - 1, len_le := Nat.le_trans (Nat.sub_le _ _) self.len_le }

/-- Update the slots in use in place. -/
def update (self : StaticStore T n) (f : SliceUpdate T) : StaticStore T n :=
  { self with
    array := f.1 self.slice ++ self.array.drop self.len
    array_length := by
      have hle := self.len_le
      rw [List.length_append, f.2, slice, List.length_take, List.length_drop, self.array_length]
      omega }

end StaticStore

namespace PreAllocatedStore

variable {T : Type} {n : Nat}

/-- `Default`. -/
def empty [Inhabited T] : PreAllocatedStore T n :=
  .static ⟨0, List.replicate n default, List.length_replicate, Nat.zero_le _⟩

def len : PreAllocatedStore T n → Nat
  | static store => store.len
  | dynamic vec => vec.length

def asSlice : PreAllocatedStore T n → List T
  | static store => store.slice
  | dynamic vec => vec

/-- Update the slice of `as_mut_slice`. -/
def asMutSlice (self : PreAllocatedStore T n) (f : SliceUpdate T) : PreAllocatedStore T n :=
  match self with
  | static store => .static (store.update f)
  | dynamic vec => .dynamic (f.1 vec)

def push (self : PreAllocatedStore T n) (value : T) : PreAllocatedStore T n :=
  match self with
  | static store =>
      if h : store.len < n then .static (store.write value h)
      else .dynamic (store.array ++ [value])
  | dynamic vec => .dynamic (vec ++ [value])

def pop (self : PreAllocatedStore T n) : Option T × PreAllocatedStore T n :=
  match self with
  | static store =>
      if store.len = 0 then (none, .static store)
      else (store.array[store.len - 1]?, .static store.drop)
  | dynamic vec => (vec.getLast?, .dynamic vec.dropLast)

def extendFromSlice (self : PreAllocatedStore T n) (other : List T) : PreAllocatedStore T n :=
  match self with
  | static store =>
      if h : store.len + other.length ≤ n then .static (store.writeAll other h)
      else .dynamic (store.slice ++ other)
  | dynamic vec => .dynamic (vec ++ other)

def intoVec : PreAllocatedStore T n → List T
  | static store => store.slice
  | dynamic vec => vec

end PreAllocatedStore

/-! ### Operations -/

inductive StoreOp (T : Type) where
  | push (value : T)
  | pop
  | extendFromSlice (other : List T)
  | asMutSlice (f : SliceUpdate T)

/-- Apply an operation to a store; what it returns is that of a `pop`. -/
def PreAllocatedStore.step {T : Type} {n : Nat} (self : PreAllocatedStore T n) :
    StoreOp T → Option T × PreAllocatedStore T n
  | .push value => (none, self.push value)
  | .pop => self.pop
  | .extendFromSlice other => (none, self.extendFromSlice other)
  | .asMutSlice f => (none, self.asMutSlice f)

/-- The same on a `Vec`. -/
def vecStep {T : Type} (vec : List T) : StoreOp T → Option T × List T
  | .push value => (none, vec ++ [value])
  | .pop => (vec.getLast?, vec.dropLast)
  | .extendFromSlice other => (none, vec ++ other)
  | .asMutSlice f => (none, f.1 vec)

end Containers

end Ra2m
