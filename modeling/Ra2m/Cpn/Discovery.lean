/-
How a crossbar learns its address map (`protocol/membus.rs`, `mem/xbar.rs`).

At startup every device that has an address range announces it over its port: one
AddrRange request for each range and one without a range that ends the list
(`addr_range_register`).  The XBar reads the announcements of its outbound ports one
port after another (`addr_range_lookup`); a master with no use for them drops them
(`discard_addr_range`).  A device that was given no range announces nothing.
-/
import Ra2m.Cpn.XBar
import Ra2m.Cpn.NpRam

namespace Ra2m

namespace MemBus

/-- The requests that announce the ranges, the `i`-th sent at tick `now i`, and the one that ends
the list. -/
def addrRangeRegister (fromUid : Nat) (now : Nat → Tick) : Nat → List Addr → Exec (List MemBus)
  | i, [] => .ok [MemBus.new (now i) fromUid .addrRange .unset .unset none]
  | i, range :: rest =>
      match range with
      | .range _ _ => do
          let reqs ← addrRangeRegister fromUid now (i + 1) rest
          .ok (MemBus.new (now i) fromUid .addrRange range .unset none :: reqs)
      | _ => .error ⟨"Addr_range must be expressed as Addr::Range(offset, size)"⟩

/-- Drop the announcement at the head of what a port receives; `none` when its end has not come
yet. -/
def discardAddrRange : List MemBus → Exec (Option (List MemBus))
  | [] => .ok none
  | req :: rest =>
      match req.cmd with
      | .addrRange =>
          match req.addr with
          | .range _ _ => discardAddrRange rest
          | _ => .ok (some rest)
      | _ => .error ⟨"MemoryBus over ReqRespPort must start by AddrRange sequence"⟩

/-- What the `init` of a device with the given range announces. -/
def announce (fromUid : Nat) (now : Nat → Tick) : Option (Nat × Data) → Exec (List MemBus)
  | some (offset, size) => addrRangeRegister fromUid now 0 [.range offset size]
  | none => .ok []

end MemBus

/-- A XBar with memories on its outbound ports, before the address map is known: for each memory
the range it is set up with, if any. -/
structure Soc where
  uid : Nat
  masters : Nat
  devices : List (Option (Nat × Data))
  ramUid : Nat → Nat

namespace Soc

/-- The memory on an outbound port. -/
def ram (self : Soc) (port : Nat) : NpRam :=
  match self.devices[port]? with
  | some (some (_, size)) => NpRam.new (self.ramUid port) size
  | _ => NpRam.new (self.ramUid port) 0

/-- The XBar with the given address map. -/
def xbar (self : Soc) (addrMap : AddrRangeMap) : XBar :=
  ⟨self.uid, self.masters, self.devices.length, addrMap⟩

/-- What the outbound ports receive at startup. -/
def Announced (self : Soc) (ports : List (List MemBus)) : Prop :=
  List.Forall₂ (fun reqs device => ∃ fromUid now, MemBus.announce fromUid now device = .ok reqs)
    ports self.devices

end Soc

namespace MemBus

/-- The request ends a list of ranges. -/
def EndsList (req : MemBus) : Prop :=
  req.cmd = .addrRange ∧ ∀ addr size, req.addr ≠ .range addr size

/-- Announcing ranges always succeeds, with one request for each range. -/
theorem addrRangeRegister_ranges (fromUid : Nat) (now : Nat → Tick) (i : Nat)
    (ranges : List (Nat × Data)) :
    ∃ reqs last, addrRangeRegister fromUid now i (ranges.map fun r => .range r.1 r.2) =
        .ok (reqs ++ [last]) ∧ last.EndsList ∧
      reqs.map (fun req => (req.cmd, req.addr)) =
        ranges.map fun r => (.addrRange, .range r.1 r.2) := by
  induction ranges generalizing i with
  | nil => exact ⟨[], _, rfl, ⟨rfl, nofun⟩, rfl⟩
  | cons r rest ih =>
      obtain ⟨reqs, last, hreqs, hlast, hmap⟩ := ih (i + 1)
      refine ⟨MemBus.new (now i) fromUid .addrRange (.range r.1 r.2) .unset none :: reqs, last, ?_,
        hlast, ?_⟩
      · simp only [List.map_cons, addrRangeRegister, hreqs, bind, Except.bind, List.cons_append]
      · rw [List.map_cons, List.map_cons, hmap]
        rfl

end MemBus

end Ra2m
