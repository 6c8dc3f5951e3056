/-
The arguments of the command line (`ra2m_sim_output/log.rs`, `ra2m_sim_output/trace.rs`,
`unit.rs`).

Text is the list of its characters.  A parser answers with a result, which may be an
`InvalidInput`, or it panics: the parts of an argument are unwrapped where they may be
missing.  The names of an enumeration are those that its derived `EnumString` knows.

A number with a fraction is read by `parse::<f64>`, a parameter here; what it yields is a
rational number, an infinity or no number.  `ToPrimitive::to_usize` cuts such a value to an
integer when that is a `usize`.
-/
import Mathlib.Data.Rat.Floor
import Ra2m.Lib.Splitting
import Ra2m.Sim.Addr
import Ra2m.Sim.Module

namespace Ra2m

abbrev Text := List Char

/-- An `io::Error` of kind `InvalidInput`. -/
structure InvalidInput where
  message : String
  deriving DecidableEq

namespace ArgParse

/-! ### What the standard library does -/

/-- `char::is_whitespace` -/
def isWhitespace (c : Char) : Bool :=
  c.toNat ∈ [0x09, 0x0A, 0x0B, 0x0C, 0x0D, 0x20, 0x85, 0xA0, 0x1680, 0x2000, 0x2001, 0x2002, 0x2003,
    0x2004, 0x2005, 0x2006, 0x2007, 0x2008, 0x2009, 0x200A, 0x2028, 0x2029, 0x202F, 0x205F, 0x3000]

/-- `str::trim` -/
def trim (t : Text) : Text := Splitting.trim isWhitespace t

/-- `Option::unwrap` -/
def unwrap {α : Type} : Option α → Exec α
  | some a => .ok a
  | none => .error ⟨"called `Option::unwrap()` on a `None` value"⟩

/-- `Result::unwrap` where `err` is what there is to show of the error. -/
def unwrapOr {α : Type} (err : String) : Option α → Exec α
  | some a => .ok a
  | none => .error ⟨"called `Result::unwrap()` on an `Err` value: " ++ err⟩

/-- The variant of a name. -/
def variantOf {α : Type} (names : List (String × α)) (t : Text) : Option α :=
  (names.find? fun name => name.1.toList = t).map Prod.snd

/-- `bool::from_str` -/
def boolFromStr (t : Text) : Option Bool := variantOf [("true", true), ("false", false)] t

/-! ### Lists of pairs

The arguments of the log and of the trace are lists of the same shape.
-/

/-- What an opening and a closing brace enclose. -/
def unbrace (t : Text) : Exec Text := do
  let inner ← unwrap (Splitting.stripPrefix '{' t)
  unwrap (Splitting.stripSuffix '}' inner)

/-- Read the entries one by one behind the pairs read before. -/
def pushPairs {κ ν : Type} (key : Text → Exec κ) (val : Text → Exec ν) (message : String)
    (pairs : List (κ × ν)) : List Text → Exec (Except InvalidInput (List (κ × ν)))
  | [] => .ok (.ok pairs)
  | kv :: entries =>
      -- Case of trailing ','
      if kv = [] then pushPairs key val message pairs entries
      else
        match kv.splitOn ':' with
        | [k, v] => do
            let k ← key k
            let v ← val v
            pushPairs key val message (pairs ++ [(k, v)]) entries
        | _ => .ok (.error ⟨message⟩)

end ArgParse

open ArgParse

/-! ### The log -/

def Verbosity.names : List (String × Verbosity) :=
  [("Debug", .debug), ("Trace", .trace), ("Info", .info), ("Warning", .warning), ("Error", .error)]

def Category.names : List (String × Category) :=
  [("Own", .own), ("Port", .port), ("Protocol", .protocol), ("Scheduler", .scheduler),
    ("Test", .test), ("Any", .any)]

namespace LogArgs

def cat (t : Text) : Exec Category :=
  unwrapOr "VariantNotFound" (variantOf Category.names (trim t))

def verb (t : Text) : Exec Verbosity :=
  unwrapOr "VariantNotFound" (variantOf Verbosity.names (trim t))

/-- The part behind the default verbosity. -/
def catVerbFromStr (list : Text) : Exec (Except InvalidInput (List (Category × Verbosity))) :=
  if list ≠ [] ∧ list ≠ ['{', '}'] then do
    let body ← unbrace list
    pushPairs cat verb "Invalid split, expected \"Category:Verbosity\"" [] (body.splitOn ',')
  else .ok (.ok [])

def fromStr (s : String) : Exec (Except InvalidInput LogArgs) :=
  match s.toList.splitOn '=' with
  | [path, dfltCatverb] => do
      let (dflt, list) ← unwrap (Splitting.splitOnce ':' dfltCatverb)
      let dfltVerb ← verb dflt
      let catVerb ← catVerbFromStr list
      return catVerb.map fun catVerb => ⟨String.ofList path, dfltVerb, catVerb⟩
  | _ =>
      .ok (.error
        ⟨"Invalid split, expected \"path=dflt_verbosity:\x7bcategory:verbosity, ...\x7d\""⟩)

end LogArgs

/-! ### The trace -/

def HwTrace.Kind.names : List (String × HwTrace.Kind) :=
  [("Payload", .payload), ("Pipeline", .pipeline)]

namespace TraceArgs

def kind (t : Text) : Exec HwTrace.Kind :=
  unwrapOr "VariantNotFound" (variantOf HwTrace.Kind.names (trim t))

/-- The value is not trimmed. -/
def val (t : Text) : Exec Bool := unwrapOr "ParseBoolError" (boolFromStr t)

def fromStr (s : String) : Exec (Except InvalidInput TraceArgs) :=
  match s.toList.splitOn '=' with
  | [path, list] => do
      let body ← unbrace list
      let kindVal ← pushPairs kind val "Invalid split, expected \"Kind:bool\"" []
        (body.splitOn ',')
      return kindVal.map fun kindVal => ⟨String.ofList path, kindVal⟩
  | _ => .ok (.error ⟨"Invalid split, expected \"path=\x7bkind:val, ...\x7d\""⟩)

end TraceArgs

/-! ### Times -/

/-- What `parse::<f64>` may yield. -/
inductive F64 where
  | nan
  | inf (negative : Bool)
  | finite (q : ℚ)
  deriving DecidableEq

/-- `ToPrimitive::to_usize` -/
def F64.toUsize : F64 → Option UInt64
  | finite q => if -1 < q ∧ q < 2 ^ 64 then some (UInt64.ofNat ⌊q⌋₊) else none
  | _ => none

namespace ArgParse

/-- A `Time` as the command line gives it. -/
inductive Time where
  | fs (t : UInt64)
  | ps (t : F64)
  | ns (t : F64)
  | us (t : F64)
  | ms (t : F64)
  | s (t : F64)
  deriving DecidableEq

/-- `Time::from_str`, with the parser of the value. -/
def Time.fromStr (parseF64 : Text → Option F64) (s : String) : Exec (Except InvalidInput Time) :=
  match s.toList.splitOn '_' with
  | [val, unit] =>
      match parseF64 val with
      | none => .ok (.error ⟨"Invalid value, expected \"(val as f64)_unit\""⟩)
      | some value =>
          if unit = "fs".toList then do
            let t ← unwrap value.toUsize
            return .ok (.fs t)
          else if unit = "ps".toList then .ok (.ok (.ps value))
          else if unit = "ns".toList then .ok (.ok (.ns value))
          else if unit = "us".toList then .ok (.ok (.us value))
          else if unit = "ms".toList then .ok (.ok (.ms value))
          else if unit = "s".toList then .ok (.ok (.s value))
          else .ok (.error ⟨"Invalid unit, expected \"val_[fs,ps,ns,us,ms,s]\""⟩)
  | _ => .ok (.error ⟨"Invalid split, expected \"val_unit\""⟩)

end ArgParse

end Ra2m
