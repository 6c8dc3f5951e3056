/-
Trace files: what the simulation writes and what the parsers read back
(`ra2m_sim_output/trace.rs`, `tools/parsers/parser.rs`).

A record is a port name and a value, encoded with bincode and followed by a newline.  The
encoding may hold the byte of the newline itself.  The reader takes the file up to the next
such byte and tries to decode what it holds; on an error it appends what comes next and
tries again, a bounded number of times.

The encoding is a parameter, and so is the type of the errors of the decoder.  Errors of
the file system are left out.
-/
import Mathlib.Logic.Function.Basic
import Ra2m.Lib.Chunks

namespace Ra2m

namespace Trace

/-- `BINCODE_STREAM_DELIMITER` -/
def bincodeStreamDelimiter : UInt8 := 0xA

/-- `BINCODE_MAX_RETRY` -/
def bincodeMaxRetry : Nat := 10

variable {T ε : Type*}

/-- What `trace!` appends to its file: the encoded message, and the newline of `writeln!`. -/
def trace (serialize : String × T → List UInt8) (msg : String × T) : List UInt8 :=
  serialize msg ++ [bincodeStreamDelimiter]

/-- A file of records.  Of the last one only the first bytes of its encoding may have been
written, when the simulation was stopped. -/
def file (serialize : String × T → List UInt8) (rs : List (String × T))
    (cut : Option ((String × T) × Nat)) : List UInt8 :=
  rs.flatMap (trace serialize) ++
    match cut with
    | none => []
    | some (r, n) => (serialize r).take n

/-- The `HashMap` the reader fills. -/
abbrev Entries (T : Type*) := String → Option (List T)

/-- `map.entry(port).or_insert(Vec::new()).push(val)` -/
def Entries.push (map : Entries T) (port : String) (val : T) : Entries T :=
  Function.update map port (some ((map port).getD [] ++ [val]))

/-- The loop of `read_trace`, on what the calls of `read_until` append to the buffer. -/
def readChunks (deserialize : List UInt8 → Except ε (String × T)) :
    List (List UInt8) → List UInt8 → Nat → Nat → Entries T → Except ε (Entries T)
  | [], _, _, _, map => .ok map
  | chunk :: chunks, buf, bincodeRetry, bincodeSuccess, map =>
      let buf := (if 0 = bincodeRetry then [] else buf) ++ chunk
      match deserialize buf with
      | .ok (port, val) =>
          readChunks deserialize chunks buf 0 (bincodeSuccess + 1) (map.push port val)
      | .error err =>
          let bincodeRetry := bincodeRetry + 1
          if bincodeMaxRetry < bincodeRetry then
            -- The last record may be incomplete: with something already parsed this is a success
            if 0 < bincodeSuccess then .ok map else .error err
          else
            readChunks deserialize chunks buf bincodeRetry bincodeSuccess map

/-- `read_trace`, on the content of the file. -/
def readTrace (deserialize : List UInt8 → Except ε (String × T)) (bytes : List UInt8) :
    Except ε (Entries T) :=
  readChunks deserialize (Chunks.split bincodeStreamDelimiter bytes) [] 0 0 fun _ => none

/-! ### What the reader is for -/

/-- The values of the records of one port, in the order of the file. -/
def values (rs : List (String × T)) (port : String) : List T :=
  (rs.filter fun r => r.1 = port).map Prod.snd

/-- For each port that has a record, its values. -/
def entriesOf (rs : List (String × T)) : Entries T := fun port =>
  if values rs port = [] then none else some (values rs port)

/-- The records whose encoding the file holds to its end. -/
def complete (serialize : String × T → List UInt8) (rs : List (String × T))
    (cut : Option ((String × T) × Nat)) : List (String × T) :=
  match cut with
  | none => rs
  | some (r, n) => if (serialize r).length ≤ n then rs ++ [r] else rs

/-- The reader returns the complete records. -/
def Recovers (serialize : String × T → List UInt8)
    (deserialize : List UInt8 → Except ε (String × T)) (rs : List (String × T))
    (cut : Option ((String × T) × Nat)) : Prop :=
  readTrace deserialize (file serialize rs cut) = .ok (entriesOf (complete serialize rs cut))

end Trace

end Ra2m
