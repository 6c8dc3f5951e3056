/-
The module hierarchy, and the arguments that configure it (`module.rs`,
`ra2m_sim_output/log.rs`, `ra2m_sim_output/trace.rs`).

An area keeps its inner modules in a map under the last segment of their path.  An argument
names modules by a path of patterns: `inner_match_recurse` goes down the hierarchy with one
pattern for each level, and a last segment `*` stands for everything below.

The regular expressions are those of a crate: `regex` makes the predicate of a pattern, and
has none for text that is not a pattern, where the code panics.  `none` is that panic.  The
iteration order of a map is the order of the list it is here.  The filter and the trace
flags of a module are behind shared references, so they are in `Outputs`, under its uid.
-/
import Mathlib.Logic.Function.Basic
import Ra2m.Lib.KeyTree

namespace Ra2m

/-! ### `log.rs` -/

inductive Verbosity where
  | debug
  | trace
  | info
  | warning
  | error
  deriving DecidableEq

inductive Category where
  | own
  | port
  | protocol
  | scheduler
  | test
  | any
  deriving DecidableEq

/-- `Category::iter()` -/
def Category.iter : List Category := [.own, .port, .protocol, .scheduler, .test, .any]

structure LogArgs where
  path : String
  dfltVerb : Verbosity
  catVerb : List (Category × Verbosity)

structure LogFilter where
  bank : Category → Verbosity

namespace LogFilter

def new (dfltVerbosity : Verbosity) : LogFilter := ⟨fun _ => dfltVerbosity⟩

def set (self : LogFilter) (category : Category) (verbosity : Verbosity) : LogFilter :=
  ⟨Function.update self.bank category verbosity⟩

def replace (self filter : LogFilter) : LogFilter :=
  Category.iter.foldl (fun self cat => self.set cat (filter.bank cat)) self

end LogFilter

/-! ### `trace.rs` -/

inductive HwTrace.Kind where
  | payload
  | pipeline
  deriving DecidableEq

structure TraceArgs where
  path : String
  kindVal : List (HwTrace.Kind × Bool)

/-- Which kinds are on.  The files behind them are left out. -/
structure HwTrace where
  isOn : HwTrace.Kind → Bool

namespace HwTrace

def new (isOn : Bool) : HwTrace := ⟨fun _ => isOn⟩

/-- The previous value is returned with what is left. -/
def update (self : HwTrace) (kind : Kind) (isOn : Bool) : HwTrace × Bool :=
  (⟨Function.update self.isOn kind isOn⟩, self.isOn kind)

end HwTrace

/-! ### Modules -/

structure Properties where
  uid : Nat
  path : String

/-- What the properties of the modules share with the rest of the simulation, by uid. -/
structure Outputs where
  logFilter : Nat → LogFilter
  hwTrace : Nat → HwTrace

/-- A module without inner modules, or an `Area`. -/
inductive Module where
  | flat (props : Properties)
  | area (props : Properties) (modules : List (String × Module))

namespace Module

def properties : Module → Properties
  | flat props => props
  | area props _ => props

/-- The inner modules with their keys. -/
def modules : Module → List (String × Module)
  | flat _ => []
  | area _ modules => modules

def innerMatch (regex : String → Option (String → Bool)) (name : String) :
    Module → Option (List Module)
  | flat _ => some []
  | area _ modules => do
      let isMatch ← regex name
      some ((modules.filter fun kv => isMatch kv.1).map Prod.snd)

def isLeaf : Module → Bool
  | flat _ => true
  | area _ modules => modules.isEmpty

theorem sizeOf_lt {m : Module} {kv : String × Module} (h : kv ∈ m.modules) :
    sizeOf kv.2 < sizeOf m := by
  cases m with
  | flat props => exact absurd h List.not_mem_nil
  | area props modules =>
      have hlt := List.sizeOf_lt_of_mem h
      obtain ⟨key, v⟩ := kv
      simp only [Module.modules, Prod.mk.sizeOf_spec, area.sizeOf_spec] at hlt ⊢
      omega

theorem sizeOf_filter_le (p : String × Module → Bool) (l : List (String × Module)) :
    sizeOf ((l.filter p).map Prod.snd) ≤ sizeOf l := by
  induction l with
  | nil => exact Nat.le_refl _
  | cons kv l ih =>
      obtain ⟨key, v⟩ := kv
      rw [List.filter_cons]
      split
      · simp only [List.map_cons, List.cons.sizeOf_spec, Prod.mk.sizeOf_spec]
        omega
      · simp only [List.cons.sizeOf_spec]
        omega

theorem innerMatch_sizeOf_le {regex : String → Option (String → Bool)} {name : String}
    {m : Module} {l : List Module} (h : m.innerMatch regex name = some l) :
    sizeOf l ≤ sizeOf m := by
  cases m with
  | flat props =>
      cases h
      simp only [List.nil.sizeOf_spec, flat.sizeOf_spec]
      omega
  | area props modules =>
      obtain ⟨isMatch, -, h⟩ := Option.bind_eq_some_iff.mp h
      cases h
      have hle := sizeOf_filter_le (fun kv => isMatch kv.1) modules
      simp only [area.sizeOf_spec]
      omega

end Module

/-! ### Matching -/

inductive ImrMode where
  | exactMatch
  | wildcard
  | wrapUp
  deriving DecidableEq

/-- `inner_match_recurse` in the mode `WrapUp`, with no segments left. -/
def wrapUp (regex : String → Option (String → Bool)) : List Module → Option (List Module)
  | [] => some []
  | curM :: modules => do
      let inner ←
        (if curM.isLeaf then some []
        else
          match _h : curM.innerMatch regex ".*" with
          | none => none
          | some nextM => wrapUp regex nextM)
      let nextModules ← wrapUp regex modules
      some (curM :: inner ++ nextModules)
termination_by modules => sizeOf modules
decreasing_by
  · have hle := Module.innerMatch_sizeOf_le _h
    simp only [List.cons.sizeOf_spec]
    omega
  · simp only [List.cons.sizeOf_spec]
    omega

def innerMatchRecurse (regex : String → Option (String → Bool)) (modules : List Module)
    (pathSeg : List String) (mode : ImrMode) : Option (List Module) :=
  match pathSeg with
  | [] =>
      match mode with
      | .exactMatch => some modules
      | .wildcard => wrapUp regex modules
      | .wrapUp => wrapUp regex modules
  | curSeg :: pathSeg => do
      let nextModules ← modules.mapM fun curM => do
        let nextM ← curM.innerMatch regex curSeg
        innerMatchRecurse regex nextM pathSeg mode
      some nextModules.flatten

/-! ### Paths -/

/-- `split(PATH_SEP)` -/
def splitSep : List Char → List (List Char)
  | [] => [[]]
  | ':' :: ':' :: rest => [] :: splitSep rest
  | c :: rest =>
      match splitSep rest with
      | [] => [[c]]
      | seg :: segs => (c :: seg) :: segs

/-- What is behind the last separator, as `rsplit_once(PATH_SEP)` finds it. -/
def lastSeg : List Char → Option (List Char)
  | [] => none
  | ':' :: ':' :: rest => some ((lastSeg (':' :: rest)).getD rest)
  | _ :: rest => lastSeg rest

def imrWildcard : String := "*"

/-- The segments of the path of an argument, and the mode to match them in. -/
def argSegments (path : String) : List String × ImrMode :=
  let pathSeg := (splitSep path.toList).map String.ofList
  if pathSeg.getLast? = some imrWildcard then (pathSeg.dropLast, .wildcard)
  else (pathSeg, .exactMatch)

/-! ### Areas -/

namespace Module

/-- `Area::new` -/
def new (props : Properties) : Module := area props []

/-- `insert_module`, on the map of an area: the key is the last segment of the path. -/
def insertModule (modules : List (String × Module)) (module : Module) :
    Option (List (String × Module)) := do
  let seg ← lastSeg module.properties.path.toList
  let key := String.ofList seg
  some (modules.filter (fun kv => kv.1 ≠ key) ++ [(key, module)])

variable (regex : String → Option (String → Bool))

def applyLogArg (self : Module) (arg : LogArgs) (out : Outputs) : Option (Outputs × Nat) := do
  let filter := arg.catVerb.foldl (fun filter (cat, verb) => filter.set cat verb)
    (LogFilter.new arg.dfltVerb)
  let (pathSeg, mode) := argSegments arg.path
  let trgtModules ← innerMatchRecurse regex [self] pathSeg mode
  let logFilter := trgtModules.foldl (fun logFilter m =>
    let uid := m.properties.uid
    Function.update logFilter uid ((logFilter uid).replace filter)) out.logFilter
  some ({ out with logFilter }, trgtModules.length)

def applyTraceArg (self : Module) (arg : TraceArgs) (out : Outputs) :
    Option (Outputs × Nat) := do
  let (pathSeg, mode) := argSegments arg.path
  let trgtModules ← innerMatchRecurse regex [self] pathSeg mode
  let hwTrace := trgtModules.foldl (fun hwTrace m =>
    let uid := m.properties.uid
    Function.update hwTrace uid
      (arg.kindVal.foldl (fun trace (kind, val) => (trace.update kind val).1) (hwTrace uid)))
    out.hwTrace
  some ({ out with hwTrace }, trgtModules.length)

end Module

end Ra2m
