/-
The test bench around a crossbar (`test/traffic_gen.rs`, `test/mem_checker.rs`).

Each generator sends a request to its inbound port of the XBar, waits for what comes
back, and puts what it asked for and what it got on the channel to the checker before it
draws the next one.  The checker takes one entry after another off the channel.  The
layers of the XBar and the memories work at the same time, and which of them moves next
is open.

A panic anywhere in the bench ends it: `failed`.  The checker sees only the accesses;
which generator an entry is from and what has passed so far are read by no step.
-/
import Ra2m.Cpn.MemChecker
import Ra2m.Cpn.XBarNet
import Ra2m.Sim.Burst

namespace Ra2m

/-- Where the loop of a generator is. -/
inductive GenStage where
  | drawing
  /-- The request is sent, in `wait_pkt_ep`. -/
  | waiting (req : Packet MemBus)
  /-- In `checker_tx.send`. -/
  | sending (checker : MemBusChecker)

structure TestBench (xbar : XBar) where
  net : xbar.NetState
  gens : Fin xbar.inboundLen → GenStage := fun _ => .drawing
  /-- The channel to the checker. -/
  channel : List (Fin xbar.inboundLen × MemBusChecker) := []
  checker : MemoryChecker
  passed : List (Fin xbar.inboundLen × MemBusChecker) := []
  failed : Option Panic := none

inductive BenchAct (xbar : XBar) where
  /-- A generator sends the request it has drawn. -/
  | send (idx : Fin xbar.inboundLen) (req : Packet MemBus)
  /-- A layer or a memory does its next step. -/
  | work (a : xbar.NetAct)
  /-- A generator takes what came back for its request. -/
  | recv (idx : Fin xbar.inboundLen)
  /-- Its entry goes on the channel. -/
  | report (idx : Fin xbar.inboundLen)
  /-- The checker takes an entry. -/
  | check

namespace TestBench

variable {xbar : XBar}

/-- The bench at the start, with a checker of the given size. -/
def init (rams : Nat → NpRam) (size : Data) : TestBench xbar where
  net := Stations.State.init rams
  checker := MemoryChecker.start 0 size

/-- What came back is answered as the loop does: it panics on an error, and otherwise has its entry
for the checker ready. -/
def answered (s : TestBench xbar) (idx : Fin xbar.inboundLen) (req ans : Packet MemBus)
    (net : xbar.NetState) : TestBench xbar :=
  match (SlavePort.waitPktEp.accept ans : Except (PktFailure MemBusError) _) with
  | .error _ => { s with net, failed := some ⟨"Faulty Rx response"⟩ }
  | .ok resp =>
      { s with
        net
        gens := Function.update s.gens idx (.sending (.ofAnswer req.payload resp.payload)) }

/-- The checker looks at an entry. -/
def checked (s : TestBench xbar) (e : Fin xbar.inboundLen × MemBusChecker)
    (rest : List (Fin xbar.inboundLen × MemBusChecker)) : TestBench xbar :=
  match s.checker.checkRx e.2 with
  | .error p => { s with channel := rest, failed := some p }
  | .ok checker => { s with channel := rest, checker, passed := s.passed ++ [e] }

/-- One step of a bench in which nothing has failed; the channel to the checker holds `slots`
entries. -/
def stepOk (inflight : xbar.Station → Nat) (slots : Nat) (s : TestBench xbar) :
    BenchAct xbar → Option (TestBench xbar)
  | .send idx req =>
      match s.gens idx with
      | .drawing =>
          match TxStatus.txCheck req.payload with
          | .error _ => some { s with failed := some ⟨"Faulty Tx access"⟩ }
          | .ok () => ((xbar.net inflight).step s.net (.arrive (.inbound idx) req)).map fun net =>
              { s with net, gens := Function.update s.gens idx (.waiting req) }
      | _ => none
  | .work a =>
      if XBar.ofLayer a then ((xbar.net inflight).step s.net a).map fun net => { s with net }
      else none
  | .recv idx =>
      match s.gens idx, s.net.queue (.master idx) with
      | .waiting req, (_, ans) :: _ =>
          ((xbar.net inflight).step s.net (.take (.master idx) {})).map (s.answered idx req ans)
      | _, _ => none
  | .report idx =>
      match s.gens idx with
      | .sending checker =>
          if s.channel.length < slots then
            some { s with
              channel := s.channel ++ [(idx, checker)]
              gens := Function.update s.gens idx .drawing }
          else none
      | _ => none
  | .check =>
      match s.channel with
      | [] => none
      | e :: rest => some (s.checked e rest)

def step (inflight : xbar.Station → Nat) (slots : Nat) (s : TestBench xbar) (a : BenchAct xbar) :
    Option (TestBench xbar) :=
  match s.failed with
  | some _ => none
  | none => s.stepOk inflight slots a

end TestBench

end Ra2m
