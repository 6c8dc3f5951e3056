/-
The memory checker of the test bench (`test/mem_checker.rs`, `test/traffic_gen.rs`).

A traffic generator sends an access, waits for its answer and hands what it asked
for and what it got to a checker, which keeps one flat memory: a read must have
returned the bytes that memory holds, a write is applied to it.  `checkRx` is one
turn of the checker's loop; an assertion that fails is a panic.
-/
import Ra2m.Sim.MemBus
import Ra2m.Lib.Window

namespace Ra2m

/-- The fields of an access the checker looks at. -/
structure MemBusChecker where
  cmd : Command
  addr : Addr
  pattern : Pattern
  data : List UInt8 := []
  deriving DecidableEq

/-- What the generator hands to the checker once an access is answered: the bytes it wrote, or the
bytes it read. -/
def MemBusChecker.ofAnswer (req resp : MemBus) : MemBusChecker :=
  let checker : MemBusChecker :=
    { cmd := req.cmd, addr := req.addr, pattern := req.pattern, data := req.data }
  if req.cmd = .read then { checker with data := checker.data ++ resp.data } else checker

theorem MemBusChecker.ofAnswer_read {req : MemBus} (resp : MemBus) (hcmd : req.cmd = .read)
    (hdata : req.data = []) :
    ofAnswer req resp =
      { cmd := req.cmd, addr := req.addr, pattern := req.pattern, data := resp.data } := by
  unfold ofAnswer
  rw [if_pos hcmd, hdata, List.nil_append]

theorem MemBusChecker.ofAnswer_of_ne {req : MemBus} (resp : MemBus) (hcmd : req.cmd ≠ .read) :
    ofAnswer req resp =
      { cmd := req.cmd, addr := req.addr, pattern := req.pattern, data := req.data } := by
  unfold ofAnswer
  rw [if_neg hcmd]

structure MemoryChecker where
  offset : Nat
  memory : List UInt8

namespace MemoryChecker

/-- A checker without a binary file. -/
def start (offset : Nat) (size : Data) : MemoryChecker := ⟨offset, List.replicate size 0⟩

/-- The address of an access in the checker's memory. -/
def localAddr (self : MemoryChecker) : Addr → Exec Nat
  | .phys t | .physVirt t _ =>
      if self.offset ≤ t then .ok (t - self.offset)
      else .error ⟨"attempt to subtract with overflow"⟩
  | _ => .error ⟨"Received request with invalid Addr"⟩

/-- Check an answered access against the memory and apply it. -/
def checkRx (self : MemoryChecker) (req : MemBusChecker) : Exec MemoryChecker := do
  let addr ← self.localAddr req.addr
  match req.pattern with
  | .simple len =>
      match req.cmd with
      | .read =>
          if addr + len ≤ self.memory.length then
            if Window.read self.memory addr len = req.data then .ok self
            else .error ⟨"Faulty access"⟩
          else .error ⟨"range end index out of range for slice"⟩
      | .write =>
          if req.data.length = len then
            if addr + len ≤ self.memory.length then
              .ok { self with memory := Window.write self.memory addr (req.data.take len) }
            else .error ⟨"range end index out of range for slice"⟩
          else .error ⟨"assertion failed"⟩
      | .addrRange => .error ⟨"Received unsupported command"⟩
  | _ => .error ⟨"Received unsupported pattern"⟩

theorem localAddr_eq {self : MemoryChecker} {a : Addr} {addr : Nat} (hofst : self.offset = 0)
    (haddr : a.phys? = some addr) : self.localAddr a = .ok addr := by
  cases a with
  | phys p =>
      obtain rfl := Option.some.inj haddr
      simp [localAddr, hofst]
  | physVirt p v =>
      obtain rfl := Option.some.inj haddr
      simp [localAddr, hofst]
  | unset => cases haddr
  | virt v => cases haddr
  | range b n => cases haddr

/-- A read is accepted with the bytes the memory holds. -/
theorem checkRx_read {self : MemoryChecker} {req : MemBusChecker} {addr len : Nat}
    (hofst : self.offset = 0) (haddr : req.addr.phys? = some addr)
    (hpat : req.pattern = .simple len) (hcmd : req.cmd = .read)
    (hin : addr + len ≤ self.memory.length) (hdata : req.data = Window.read self.memory addr len) :
    self.checkRx req = .ok self := by
  unfold checkRx
  simp only [localAddr_eq hofst haddr, hpat, hcmd, bind, Except.bind, if_pos hin,
    if_pos hdata.symm]

/-- A write of as many bytes as its pattern is applied. -/
theorem checkRx_write {self : MemoryChecker} {req : MemBusChecker} {addr len : Nat}
    (hofst : self.offset = 0) (haddr : req.addr.phys? = some addr)
    (hpat : req.pattern = .simple len) (hcmd : req.cmd = .write) (hdata : req.data.length = len)
    (hin : addr + len ≤ self.memory.length) :
    self.checkRx req = .ok { self with memory := Window.write self.memory addr req.data } := by
  unfold checkRx
  simp only [localAddr_eq hofst haddr, hpat, hcmd, bind, Except.bind, if_pos hdata, if_pos hin,
    List.take_of_length_le hdata.le]

end MemoryChecker

end Ra2m
