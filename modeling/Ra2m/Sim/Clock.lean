/-
Clock domains and latencies (`types/clock.rs`, `types/latency.rs`, `unit.rs`).

A clock domain counts in cycles and the simulation in ticks; both conversions go through
femtoseconds.  A number of cycles is taken a quarter of a period after its edge, which is
to make the way back end up in the same cycle.

As for the times, `fl` is what an operation on `f64` makes of its exact result.

A latency is a number of cycles, or a time with a random part.  The random number comes
from outside: `randomRange n` is what one call of `random_range(0..n)` returns, or that it
panics.  The delays of the components are sums of latencies and of the time the data takes;
the sums are exact.
-/
import Ra2m.Sim.MemBus
import Ra2m.Sim.Unit

namespace Ra2m

namespace Units

structure Cycles where
  n : UInt64
  deriving DecidableEq

inductive Frequency where
  | hz (t : UInt64)
  | kHz (t : ℚ)
  | mHz (t : ℚ)
  | gHz (t : ℚ)
  | tHz (t : ℚ)
  deriving DecidableEq

def Frequency.intoHz (self : Frequency) (fl : ℚ → ℚ := id) : UInt64 :=
  match self with
  | hz t => t
  | kHz t => roundToUsize (fl (10 ^ 3 * t))
  | mHz t => roundToUsize (fl (10 ^ 6 * t))
  | gHz t => roundToUsize (fl (10 ^ 9 * t))
  | tHz t => roundToUsize (fl (10 ^ 12 * t))

namespace Time

/-- `Mul<f64>`. -/
def mul (self : Time) (rhs : ℚ) (fl : ℚ → ℚ := id) : Time :=
  match self with
  | fs t => fs (roundToUsize (fl (fl t.toNat * rhs)))
  | ps t => ps (fl (t * rhs))
  | ns t => ns (fl (t * rhs))
  | us t => us (fl (t * rhs))
  | ms t => ms (fl (t * rhs))
  | s t => s (fl (t * rhs))

/-- `Mul<Cycles>`. -/
def mulCycles (self : Time) (rhs : Cycles) (fl : ℚ → ℚ := id) : Exec Time :=
  match self with
  | fs t =>
      if t.toNat * rhs.n.toNat < 2 ^ 64 then .ok (fs (t * rhs.n))
      else .error ⟨"attempt to multiply with overflow"⟩
  | ps t => .ok (ps (fl (t * fl rhs.n.toNat)))
  | ns t => .ok (ns (fl (t * fl rhs.n.toNat)))
  | us t => .ok (us (fl (t * fl rhs.n.toNat)))
  | ms t => .ok (ms (fl (t * fl rhs.n.toNat)))
  | s t => .ok (s (fl (t * fl rhs.n.toNat)))

/-- `Div<f64>`. -/
def div (self : Time) (rhs : ℚ) (fl : ℚ → ℚ := id) : Time :=
  match self with
  | fs t => fs (roundToUsize (fl (fl t.toNat / rhs)))
  | ps t => ps (fl (t / rhs))
  | ns t => ns (fl (t / rhs))
  | us t => us (fl (t / rhs))
  | ms t => ms (fl (t / rhs))
  | s t => s (fl (t / rhs))

def add (self rhs : Time) (fl : ℚ → ℚ := id) : Exec Time :=
  if (self.intoFs fl).toNat + (rhs.intoFs fl).toNat < 2 ^ 64 then
    .ok (fs (self.intoFs fl + rhs.intoFs fl))
  else .error ⟨"attempt to add with overflow"⟩

/-- The femtoseconds the time stands for, before any rounding. -/
def exactFs : Time → ℚ
  | fs t => t.toNat
  | ps t => 10 ^ 3 * t
  | ns t => 10 ^ 6 * t
  | us t => 10 ^ 9 * t
  | ms t => 10 ^ 12 * t
  | s t => 10 ^ 15 * t

end Time

/-- `num::integer::div_ceil`. -/
def divCeil (n d : Nat) : Nat := if n % d = 0 then n / d else n / d + 1

/-- `From<&Time> for Tick`: rounded up, where `tickOfTime` rounds down. -/
def tickOfTimeRef (ts t : Time) (fl : ℚ → ℚ := id) : Exec Tick :=
  if ts.intoFs fl = 0 then .error ⟨"attempt to divide by zero"⟩
  else .ok (divCeil (t.intoFs fl).toNat (ts.intoFs fl).toNat)

/-- `From<Tick> for Time`. -/
def timeOfTick (ts : Time) (tick : Tick) (fl : ℚ → ℚ := id) : Time := ts.mul (fl tick) fl

/-- `From<Frequency> for Time`: the period. -/
def timeOfFrequency (f : Frequency) (fl : ℚ → ℚ := id) : Exec Time :=
  if f.intoHz fl = 0 then .error ⟨"attempt to divide by zero"⟩
  else .ok (.fs ((Time.s 1).intoFs fl / f.intoHz fl))

structure ClockDomain where
  frequency : Frequency
  deriving DecidableEq

namespace ClockDomain

def intoTick (ts : Time) (self : ClockDomain) (cycles : Cycles) (fl : ℚ → ℚ := id) :
    Exec Tick := do
  let period ← timeOfFrequency self.frequency fl
  let edge ← period.mulCycles cycles fl
  -- Sampled a quarter of a period after the edge.
  let sampled ← edge.add (period.div 4 fl) fl
  tickOfTime ts sampled fl

def fromTick (ts : Time) (self : ClockDomain) (tick : Tick) (fl : ℚ → ℚ := id) :
    Exec Cycles := do
  let curTime := timeOfTick ts tick fl
  let period ← timeOfFrequency self.frequency fl
  if period.intoFs fl = 0 then .error ⟨"attempt to divide by zero"⟩
  else .ok ⟨curTime.intoFs fl / period.intoFs fl⟩

end ClockDomain

inductive Latency where
  | cycle (cycles : Cycles)
  | time (avg var : Time)
  deriving DecidableEq

def Latency.intoTick (ts : Time) (randomRange : Tick → Exec Tick) (self : Latency)
    (clkDomain : ClockDomain) (fl : ℚ → ℚ := id) : Exec Tick :=
  match self with
  | cycle cycles => clkDomain.intoTick ts cycles fl
  | time avg var => do
      let latAvg ← tickOfTimeRef ts avg fl
      let latVar ← tickOfTimeRef ts var fl
      let drawn ← randomRange latVar
      .ok (latAvg + drawn)

/-! ### Delays of the components -/

/-- The parameters of an `XBar` or a `Dma` that its delays use. -/
structure DelayParams where
  frontendLatency : Latency
  forwardLatency : Latency
  bandwidth : BW

section

variable (ts : Time) (clkDomain : ClockDomain) (params : DelayParams)

/-- `XBar::forward_delay`, with the draw of each of its latencies. -/
def xbarForwardDelay (randomRange randomRange' : Tick → Exec Tick) (size : Data) : Exec Tick := do
  let frontend ← params.frontendLatency.intoTick ts randomRange clkDomain
  let forward ← params.forwardLatency.intoTick ts randomRange' clkDomain
  let transfer ← transferTerm ts params.bandwidth size
  .ok (frontend + forward + transfer)

/-- `XBar::backward_delay`. -/
def xbarBackwardDelay (randomRange : Tick → Exec Tick) (size : Data) : Exec Tick := do
  let forward ← params.forwardLatency.intoTick ts randomRange clkDomain
  let transfer ← transferTerm ts params.bandwidth size
  .ok (forward + transfer)

/-- `Dma::frontend_delay`. -/
def dmaFrontendDelay (randomRange : Tick → Exec Tick) : Exec Tick :=
  params.frontendLatency.intoTick ts randomRange clkDomain

/-- `Dma::forward_delay`. -/
def dmaForwardDelay (randomRange : Tick → Exec Tick) (size : Data) : Exec Tick := do
  let forward ← params.forwardLatency.intoTick ts randomRange clkDomain
  let transfer ← transferTerm ts params.bandwidth size
  .ok (forward + transfer)

end

/-- The delay of `NpRam::handle_request`: a request it refuses has no size to move. -/
def npRamDelay (ts : Time) (clkDomain : ClockDomain) (latency : Latency) (bandwidth : BW)
    (randomRange : Tick → Exec Tick) (served : Option Data) : Exec Tick := do
  let delay ← latency.intoTick ts randomRange clkDomain
  match served with
  | none => .ok delay
  | some len => do
      let transfer ← transferTerm ts bandwidth len
      .ok (delay + transfer)

end Units

/-- A packet on its way: every stage adds the delay of its latency, which is converted with the
arithmetic of `f64`. -/
def Packet.appendLatencies {T : Type} (ts : Units.Time) (clkDomain : Units.ClockDomain)
    (randomRange : Tick → Exec Tick) (self : Packet T) (latencies : List Units.Latency) :
    Exec (Packet T) :=
  latencies.foldlM (fun pkt latency => do
    let delay ← latency.intoTick ts randomRange clkDomain Units.f64
    pkt.appendDelayChecked delay) self

end Ra2m
