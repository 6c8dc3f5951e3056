/-
Spans of a handling history, and the columns a trace is exported to
(`types/history.rs`, `types/span.rs`, `protocol/mod.rs`, `ra2m_sim_macros/trace.rs`).

`spans` passes once over the handlers of a history and keeps a span for each uid: a
uid that is already there gets a new end, a new one gets the tick of the handler that
follows as its end.  `exportAsTraceableMap` is what the `Trace` derive generates for
`MemBus`: a row for each span of each payload, with the traced fields of the payload,
as one column a field.

A `HashMap` is a finite map here.  The order it is iterated in is a parameter, and may
be another one for each payload.
-/
import Ra2m.Sim.MemBus

namespace Ra2m

namespace Handler

def tick : Handler → Exec Tick
  | base tick _ => .ok tick
  | pipe tick _ _ _ => .ok tick
  | switch tick _ _ => .ok tick
  | custom tick _ _ => .ok tick
  | unset => .error ⟨"Retrieved properties of unset handler"⟩

def uid : Handler → Exec Nat
  | base _ uid => .ok uid
  | pipe _ uid _ _ => .ok uid
  | switch _ uid _ => .ok uid
  | custom _ uid _ => .ok uid
  | unset => .error ⟨"Retrieved properties of unset handler"⟩

end Handler

/-- A period, from its first event to its last. -/
structure Span where
  start : Tick
  stop : Tick
  deriving DecidableEq, Repr

/-- A `usize` does not go below zero. -/
def Span.duration (self : Span) : Exec Tick :=
  if self.start ≤ self.stop then .ok (self.stop - self.start)
  else .error ⟨"attempt to subtract with overflow"⟩

namespace History

/-- The uid and the tick of each handler. -/
def uidTick : History → Exec (List (Nat × Tick))
  | [] => .ok []
  | x :: rest => do
      let uid ← x.uid
      let tick ← x.tick
      let rest ← uidTick rest
      .ok ((uid, tick) :: rest)

/-- The pass over the handlers that are left. -/
def spansLoop : SortedMap Nat Span → List (Nat × Tick) → SortedMap Nat Span
  | spans, [] => spans
  | spans, (uid, tick) :: rest =>
      let span := match spans.find? uid with
        | some x => { x with stop := tick }
        -- `peek().unwrap_or(&(tick, Default::default())).1`
        | none => { start := tick, stop := (rest.head?.getD (tick, 0)).2 }
      spansLoop (spans.insert uid span) rest

def spans (self : History) : Exec (SortedMap Nat Span) := do
  let uidTick ← self.uidTick
  .ok (spansLoop .empty uidTick)

end History

/-! ### Exported columns -/

/-- A value a trace file can hold. -/
inductive Traceable where
  | text (s : String)
  | scalar (v : Nat)
  | array (vs : List Nat)
  deriving DecidableEq, Repr

def Command.toTraceable : Command → Traceable
  | read => .text "read"
  | write => .text "write"
  | addrRange => .text "addrrange"

def Addr.toTraceable : Addr → Traceable
  | unset => .scalar 0
  | phys p => .scalar p
  | virt v => .scalar v
  | physVirt p v => .array [p, v]
  | range b size => .array [b, size]

def SubRangeAddr.toTraceable : SubRangeAddr → Traceable
  | unset => .scalar 0
  | phys p => .scalar p

def Pattern.toTraceable : Pattern → Traceable
  | unset => .scalar 0
  | simple d => .scalar d
  | stride size strd iter => .array [size, strd, iter]

/-- One tuple of the export. -/
structure TraceRow where
  transactionId : Nat
  componentId : Nat
  spanStart : Tick
  spanStop : Tick
  spanDur : Tick
  cmd : Command
  addr : Addr
  subrangeAddr : SubRangeAddr
  pattern : Pattern

/-- The order in which a payload's map of spans is iterated. -/
abbrev IterOrder := Nat → List (Nat × Span) → List (Nat × Span)

namespace MemBus

/-- The tuple of one span of payload `id`. -/
def traceRow (id : Nat) (x : MemBus) (s : Nat × Span) : Exec TraceRow := do
  let dur ← s.2.duration
  .ok {
    transactionId := id, componentId := s.1, spanStart := s.2.start, spanStop := s.2.stop,
    spanDur := dur, cmd := x.cmd, addr := x.addr, subrangeAddr := x.subrangeAddr,
    pattern := x.pattern }

/-- The tuples of the payloads from number `id` on. -/
def traceRows (order : IterOrder) : Nat → List MemBus → Exec (List TraceRow)
  | _, [] => .ok []
  | id, x :: vec => do
      let spans ← History.spans x.trace
      let rows ← (order id spans.entries).mapM (traceRow id x)
      let rest ← traceRows order (id + 1) vec
      .ok (rows ++ rest)

def exportAsTraceableMap (order : IterOrder) (vec : List MemBus) :
    Exec (List (String × List Traceable)) := do
  let vecTuple ← traceRows order 0 vec
  .ok [
    ("transaction_id", vecTuple.map fun v => .scalar v.transactionId),
    ("component_id", vecTuple.map fun v => .scalar v.componentId),
    ("span_start", vecTuple.map fun v => .scalar v.spanStart),
    ("span_stop", vecTuple.map fun v => .scalar v.spanStop),
    ("span_dur", vecTuple.map fun v => .scalar v.spanDur),
    ("cmd", vecTuple.map fun v => v.cmd.toTraceable),
    ("addr", vecTuple.map fun v => v.addr.toTraceable),
    ("subrange_addr", vecTuple.map fun v => v.subrangeAddr.toTraceable),
    ("pattern", vecTuple.map fun v => v.pattern.toTraceable)]

end MemBus

end Ra2m
