/-
The multi-port RAM (`mem/np_ram.rs`).

`handleRequest` serves one MemBus request on the memory array.  A request it cannot
serve leaves with its mode set to the error; a window that runs out of the array,
or write data whose length is not the pattern's, panics.  `responseLayer` serves
request after request of one port.
-/
import Ra2m.Sim.Port
import Ra2m.Lib.Window

namespace Ra2m

structure NpRam where
  uid : Nat
  memory : List UInt8

namespace NpRam

/-- A memory of `size` bytes without a binary file. -/
def new (uid : Nat) (size : Data) : NpRam := ⟨uid, List.replicate size 0⟩

/-- Serve a request: the delay it costs, the request as answered, and the memory after it. -/
def handleRequest (t : Timing) (self : NpRam) (req : MemBus) :
    Exec (Option Tick × MemBus × NpRam) :=
  let req := req.pushTrace (.base t.now self.uid)
  let delay := t.frontend
  match req.subrangeAddr with
  | .unset => .ok (some delay, req.setMode (.error (.subRange req.subrangeAddr)), self)
  | .phys addr =>
      match req.pattern with
      | .simple d =>
          match req.cmd with
          | .read =>
              if addr + d ≤ self.memory.length then
                let req := { req with data := req.data ++ Window.read self.memory addr d }
                .ok (some (delay + t.transfer d), req.setMode .response, self)
              else .error ⟨"range end index out of range for slice"⟩
          | .write =>
              if req.data.length = d then
                if addr + d ≤ self.memory.length then
                  let memory := Window.write self.memory addr (req.data.take d)
                  .ok (some (delay + t.transfer d), req.setMode .response, { self with memory })
                else .error ⟨"range end index out of range for slice"⟩
              else .error ⟨"Provided data length didn't match with Pattern"⟩
          | .addrRange => .ok (some delay, req.setMode (.error (.cmd req.cmd)), self)
      | pattern => .ok (some delay, req.setMode (.error (.pattern pattern)), self)

/-- Serve the port's requests, one for each `Timing`, with the status each call returned. -/
def responseLayer : List Timing → NpRam → ReqRespPort MemBus →
    Exec (List (Except MemBusError Unit) × ReqRespPort MemBus × NpRam)
  | [], self, port => .ok ([], port, self)
  | t :: rest, self, port => do
      match ← port.waitReqForgeResp (handleRequest t) self with
      | none => .ok ([], port, self)
      | some (res, port, self) =>
          let (ress, port, self) ← responseLayer rest self port
          .ok (res :: ress, port, self)

/-- Serve requests in the order they arrive in, with the timings that come next. -/
def serve (self : List Timing × NpRam) (reqs : List (Packet MemBus)) :
    Exec (List (Packet MemBus) × (List Timing × NpRam)) := do
  let (_, port, ram) ← responseLayer (self.1.take reqs.length) self.2 { rx := reqs }
  .ok (port.tx, (self.1.drop reqs.length, ram))

/-! ### Requests the memory can serve -/

/-- A physical sub-range, one contiguous chunk, and a read or a write. -/
structure Supported (req : MemBus) : Prop where
  subrange : ∃ addr, req.subrangeAddr = .phys addr
  pattern : ∃ d, req.pattern = .simple d
  cmd : req.cmd ≠ .addrRange

/-- A request is answered in `Mode::Response` when it is supported, and fails when it is not. -/
theorem handleRequest_mode {t : Timing} {self self' : NpRam} {req req' : MemBus}
    {delay : Option Tick} (h : handleRequest t self req = .ok (delay, req', self')) :
    (Supported req → req'.mode = .response) ∧ (¬ Supported req → ∃ e, req'.mode = .error e) := by
  unfold handleRequest at h
  simp only at h
  split at h
  · rename_i hsub
    simp only [Except.ok.injEq, Prod.mk.injEq] at h
    obtain ⟨-, rfl, -⟩ := h
    refine ⟨?_, fun _ => ⟨_, rfl⟩⟩
    intro hs
    obtain ⟨a, ha⟩ := hs.subrange
    rw [show req.subrangeAddr = .unset from hsub] at ha
    cases ha
  · rename_i addr hsub
    split at h
    · rename_i d hpat
      split at h
      · rename_i hcmd
        split at h
        · simp only [Except.ok.injEq, Prod.mk.injEq] at h
          obtain ⟨-, rfl, -⟩ := h
          refine ⟨fun _ => rfl, fun hn => absurd ⟨⟨addr, hsub⟩, ⟨d, hpat⟩, ?_⟩ hn⟩
          rw [show req.cmd = .read from hcmd]
          exact Command.noConfusion
        · cases h
      · rename_i hcmd
        split at h
        · split at h
          · simp only [Except.ok.injEq, Prod.mk.injEq] at h
            obtain ⟨-, rfl, -⟩ := h
            refine ⟨fun _ => rfl, fun hn => absurd ⟨⟨addr, hsub⟩, ⟨d, hpat⟩, ?_⟩ hn⟩
            rw [show req.cmd = .write from hcmd]
            exact Command.noConfusion
          · cases h
        · cases h
      · rename_i hcmd
        simp only [Except.ok.injEq, Prod.mk.injEq] at h
        obtain ⟨-, rfl, -⟩ := h
        exact ⟨fun hs => absurd hcmd hs.cmd, fun _ => ⟨_, rfl⟩⟩
    · rename_i hpat
      simp only [Except.ok.injEq, Prod.mk.injEq] at h
      obtain ⟨-, rfl, -⟩ := h
      refine ⟨?_, fun _ => ⟨_, rfl⟩⟩
      intro hs
      obtain ⟨d, hd⟩ := hs.pattern
      exact absurd hd (hpat d)

theorem handleRequest_ne_request {t : Timing} {self self' : NpRam} {req req' : MemBus}
    {delay : Option Tick} (h : handleRequest t self req = .ok (delay, req', self')) :
    req'.mode ≠ .request := by
  intro hreq
  by_cases hs : Supported req
  · rw [(handleRequest_mode h).1 hs] at hreq
    cases hreq
  · obtain ⟨e, he⟩ := (handleRequest_mode h).2 hs
    rw [he] at hreq
    cases hreq

/-- The route stack, the command and the pattern of a request are those of its answer. -/
theorem handleRequest_keeps {t : Timing} {self self' : NpRam} {req req' : MemBus}
    {delay : Option Tick} (h : handleRequest t self req = .ok (delay, req', self')) :
    req'.xbarPort = req.xbarPort ∧ req'.cmd = req.cmd ∧ req'.pattern = req.pattern := by
  unfold handleRequest at h
  simp only at h
  -- Every branch answers with the request, its mode and data aside.
  repeat' split at h
  all_goals cases h
  all_goals exact ⟨rfl, rfl, rfl⟩

/-- The data of a write is that of its answer. -/
theorem handleRequest_data {t : Timing} {self self' : NpRam} {req req' : MemBus}
    {delay : Option Tick} (h : handleRequest t self req = .ok (delay, req', self'))
    (hcmd : req.cmd = .write) : req'.data = req.data := by
  unfold handleRequest at h
  simp only [MemBus.pushTrace, hcmd] at h
  repeat' split at h
  all_goals cases h
  all_goals rfl

/-- A read inside the memory is answered with the bytes of its window. -/
theorem handleRequest_read (t : Timing) (self : NpRam) {req : MemBus} {addr d : Nat}
    (hsub : req.subrangeAddr = .phys addr) (hpat : req.pattern = .simple d) (hcmd : req.cmd = .read)
    (hin : addr + d ≤ self.memory.length) :
    ∃ delay resp, handleRequest t self req = .ok (some delay, resp, self) ∧
      resp.mode = .response ∧ resp.data = req.data ++ Window.read self.memory addr d := by
  refine ⟨t.frontend + t.transfer d, { req.pushTrace (.base t.now self.uid) with
    mode := .response, data := req.data ++ Window.read self.memory addr d }, ?_, rfl, rfl⟩
  unfold handleRequest
  simp only [MemBus.pushTrace, hsub, hpat, hcmd, if_pos hin]
  rfl

/-- A write inside the memory replaces the bytes of its window. -/
theorem handleRequest_write (t : Timing) (self : NpRam) {req : MemBus} {addr d : Nat}
    (hsub : req.subrangeAddr = .phys addr) (hpat : req.pattern = .simple d)
    (hcmd : req.cmd = .write) (hdata : req.data.length = d) (hin : addr + d ≤ self.memory.length) :
    ∃ delay resp, handleRequest t self req =
        .ok (some delay, resp, { self with memory := Window.write self.memory addr req.data }) ∧
      resp.mode = .response := by
  refine ⟨t.frontend + t.transfer d, { req.pushTrace (.base t.now self.uid) with
    mode := .response }, ?_, rfl⟩
  unfold handleRequest
  simp only [MemBus.pushTrace, hsub, hpat, hcmd, if_pos hdata, if_pos hin]
  rw [List.take_of_length_le hdata.le]
  rfl

/-- A request answered in `Mode::Response` was a read or a write of a window inside the memory. -/
theorem handleRequest_response {t : Timing} {self self' : NpRam} {req req' : MemBus}
    {delay : Option Tick} (h : handleRequest t self req = .ok (delay, req', self'))
    (hmode : req'.mode = .response) :
    ∃ addr d, req.subrangeAddr = .phys addr ∧ req.pattern = .simple d ∧
      addr + d ≤ self.memory.length ∧
      ((req.cmd = .read ∧ req'.data = req.data ++ Window.read self.memory addr d ∧ self' = self) ∨
        (req.cmd = .write ∧ req.data.length = d ∧ req'.data = req.data ∧
          self'.memory = Window.write self.memory addr req.data)) := by
  have hsup : Supported req := by
    by_contra hne
    obtain ⟨e, he⟩ := (handleRequest_mode h).2 hne
    rw [hmode] at he
    cases he
  obtain ⟨addr, hsub⟩ := hsup.subrange
  obtain ⟨d, hpat⟩ := hsup.pattern
  refine ⟨addr, d, hsub, hpat, ?_⟩
  unfold handleRequest at h
  simp only [MemBus.pushTrace, hsub, hpat] at h
  cases hcmd : req.cmd with
  | addrRange => exact absurd hcmd hsup.cmd
  | read =>
      simp only [hcmd] at h
      split at h
      · rename_i hin
        cases h
        exact ⟨hin, Or.inl ⟨rfl, rfl, rfl⟩⟩
      · cases h
  | write =>
      simp only [hcmd] at h
      split at h
      · rename_i hdata
        split at h
        · rename_i hin
          cases h
          refine ⟨hin, Or.inr ⟨rfl, hdata, rfl, ?_⟩⟩
          rw [← hdata, List.take_length]
        · cases h
      · cases h

end NpRam

end Ra2m
