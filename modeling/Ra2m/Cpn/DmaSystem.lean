/-
A Dma in front of the memories it moves data between.

`route` is where the interconnect takes a sub-range address: the memory and the
address in it.  Each memory serves one request at a time, from the Dma or from any
other master, in any order.  `accesses` records what every access of the Dma did to
the memory that served it.
-/
import Ra2m.Cpn.DmaRun
import Ra2m.Cpn.NpRam

namespace Ra2m

/-- An access made for a transfer, with the content of its memory before and after it. -/
structure RamAccess (K : Type) where
  serial : Nat
  ram : K
  cmd : Command
  before : List UInt8
  after : List UInt8

/-- The read of `d` bytes at `addr` of the memory. -/
def RamAccess.IsRead {K : Type} (a : RamAccess K) (ram : K) (addr d : Nat) : Prop :=
  a.cmd = .read ∧ a.ram = ram ∧ addr + d ≤ a.before.length ∧ a.after = a.before

/-- The write of `data` at `addr` of the memory. -/
def RamAccess.IsWrite {K : Type} (a : RamAccess K) (ram : K) (addr : Nat) (data : List UInt8) :
    Prop :=
  a.cmd = .write ∧ a.ram = ram ∧ addr + data.length ≤ a.before.length ∧
    a.after = Window.write a.before addr data

namespace RamAccess

variable {K : Type}

/-- One read of `d` bytes at `src` was made, and `data` is what it found. -/
def Fetched (made : List (RamAccess K)) (src : K × Nat) (d : Nat) (data : List UInt8) : Prop :=
  ∃ rd, made = [rd] ∧ rd.IsRead src.1 src.2 d ∧ data = Window.read rd.before src.2 d

/-- One read at `src` and one write at `dst` were made, and the write put there what the read
found. -/
def Copied (made : List (RamAccess K)) (src dst : K × Nat) (d : Nat) : Prop :=
  ∃ rd wr, made = [rd, wr] ∧ rd.IsRead src.1 src.2 d ∧
    wr.IsWrite dst.1 dst.2 (Window.read rd.before src.2 d)

/-- One more access shows in the record of its own transfer alone. -/
theorem filter_concat (accesses : List (RamAccess K)) (a : RamAccess K) (k : Nat) :
    (accesses ++ [a]).filter (fun e => e.serial = k) =
      accesses.filter (fun e => e.serial = k) ++ if a.serial = k then [a] else [] := by
  rw [List.filter_append]
  by_cases hk : a.serial = k
  · simp [hk]
  · simp [hk]

section

variable {t : Timing} {ram ram' : NpRam} {req resp : MemBus} {delay : Option Tick}
  (h : NpRam.handleRequest t ram req = .ok (delay, resp, ram')) (hm : resp.mode = .response)
  (serial : Nat) (k : K) {a d : Nat} (hsub : req.subrangeAddr = .phys a)

include h hm hsub

/-- A memory serves a read that carries no data yet. -/
theorem fetched_of_read (hpat : req.pattern = .simple d) (hcmd : req.cmd = .read)
    (hdata : req.data = []) :
    Fetched [⟨serial, k, resp.cmd, ram.memory, ram'.memory⟩] (k, a) d resp.data := by
  obtain ⟨addr, d', haddr, hd, hin, ⟨-, hresp, rfl⟩ | ⟨hw, -⟩⟩ := NpRam.handleRequest_response h hm
  · obtain rfl := SubRangeAddr.phys.inj (hsub.symm.trans haddr)
    obtain rfl := Pattern.simple.inj (hpat.symm.trans hd)
    rw [hdata, List.nil_append] at hresp
    exact ⟨_, rfl, ⟨(NpRam.handleRequest_keeps h).2.1.trans hcmd, rfl, hin, rfl⟩, hresp⟩
  · rw [hcmd] at hw
    cases hw

/-- A memory serves a write that carries what a read has found. -/
theorem copied_of_write (hcmd : req.cmd = .write) {made : List (RamAccess K)} {src : K × Nat}
    (hread : Fetched made src d req.data) :
    Copied (made ++ [⟨serial, k, resp.cmd, ram.memory, ram'.memory⟩]) src (k, a) d := by
  obtain ⟨addr, d', haddr, hd, hin, ⟨hr, -⟩ | ⟨-, hlen, -, hmem⟩⟩ :=
    NpRam.handleRequest_response h hm
  · rw [hcmd] at hr
    cases hr
  · obtain rfl := SubRangeAddr.phys.inj (hsub.symm.trans haddr)
    obtain ⟨rd, rfl, hrd, hdata⟩ := hread
    refine ⟨rd, _, rfl, hrd, (NpRam.handleRequest_keeps h).2.1.trans hcmd, rfl, ?_, ?_⟩
    · rw [← hdata, hlen]
      exact hin
    · rw [← hdata]
      exact hmem

end

end RamAccess

structure DmaSystem where
  run : DmaRun
  rams : List NpRam
  accesses : List (RamAccess Nat) := []

inductive SystemAct where
  | dma (a : DmaAct)
  /-- The memory an access is routed to serves it. -/
  | serve (i : Nat) (t : Timing)
  /-- An access fails on its way. -/
  | refuse (i : Nat) (err : MemBusError)
  /-- A memory serves a request of another master. -/
  | other (ram : Nat) (t : Timing) (req : MemBus)

namespace DmaSystem

/-- A request that makes its memory panic is not in range and no action. -/
def step (uid : Nat) (route : Nat → Nat × Nat) (s : DmaSystem) : SystemAct → Option DmaSystem
  | .dma a =>
      match a with
      | .answer _ _ => none
      | a => (DmaRun.step uid s.run a).map fun run => { s with run }
  | .serve i t =>
      match s.run.outbound[i]? with
      | none => none
      | some f =>
          match f.pkt.payload.subrangeAddr with
          | .unset => none
          | .phys p =>
              match s.rams[(route p).1]? with
              | none => none
              | some ram =>
                  match NpRam.handleRequest t ram
                    { f.pkt.payload with subrangeAddr := .phys (route p).2 } with
                  | .error _ => none
                  | .ok (delay, resp, ram') =>
                      let pkt := (f.pkt.setPayload resp).appendDelay (delay.getD 0)
                      (DmaRun.step uid s.run (.answer i pkt)).map fun run =>
                        { run
                          rams := s.rams.set (route p).1 ram'
                          accesses := s.accesses ++
                            [⟨f.serial, (route p).1, resp.cmd, ram.memory, ram'.memory⟩] }
  | .refuse i err =>
      match s.run.outbound[i]? with
      | none => none
      | some f =>
          let pkt := f.pkt.setPayload (f.pkt.payload.setMode (.error err))
          (DmaRun.step uid s.run (.answer i pkt)).map fun run => { s with run }
  | .other k t req =>
      match s.rams[k]? with
      | none => none
      | some ram =>
          match NpRam.handleRequest t ram req with
          | .error _ => none
          | .ok (_, _, ram') => some { s with rams := s.rams.set k ram' }

def init (inflightReq : Nat) (rams : List NpRam) : DmaSystem := { run := .init inflightReq, rams }

/-- The accesses made for a transfer. -/
def made (s : DmaSystem) (serial : Nat) : List (RamAccess Nat) :=
  s.accesses.filter fun a => a.serial = serial

end DmaSystem

end Ra2m
