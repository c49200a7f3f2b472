import ForkJoin.InputError

/-!
# Options

The choices a caller has: which execution path to attempt, what outcome to expect, how to divide
a scatter and how to merge its parts. Every option has one name, which is both printed and read.

## Main definitions
- `Mode`, `Expectation`, `Strategy`, `MergeMode`: the options.
- `ofName?` and `ofName` of each: reading a name, the latter with the rejection of a bad one.
-/

namespace ForkJoin

/-- The option in a list that has a given name. -/
def findByName {α : Type} (all : List α) (name : α → String) (text : String) : Option α :=
  all.find? fun option => name option == text

/-- Reads an option, rejecting a name that none has. -/
def requireName {α : Type} (kind : OptionKind) (found : Option α) (text : String) :
    Except InputError α :=
  match found with
  | some option => .ok option
  | none => .error (.argument (.unknownName kind text))

/-! ## §1 Expectations -/

inductive Expectation where
  /-- Everything runs in parallel and nothing bails out. -/
  | success
  /-- Something bails out. -/
  | mixed
  /-- Every outcome will do. -/
  | any
  deriving DecidableEq, Repr

namespace Expectation

def all : List Expectation := [.success, .mixed, .any]

def name : Expectation → String
  | .success => "success"
  | .mixed => "mixed"
  | .any => "any"

def ofName? (text : String) : Option Expectation :=
  findByName all name text

def ofName (text : String) : Except InputError Expectation :=
  requireName .expectation (ofName? text) text

end Expectation

/-! ## §2 Modes -/

inductive Mode where
  /-- In parallel, falling back without complaint. -/
  | default
  /-- A warmup only, then sequentially. -/
  | compile
  /-- In parallel, expecting that nothing bails out. -/
  | par
  /-- In parallel, expecting a bailout and a recovery. -/
  | recover
  /-- In parallel, expecting a bailout. -/
  | bailout
  /-- Sequentially. -/
  | seq
  deriving DecidableEq, Repr

namespace Mode

def all : List Mode := [.default, .compile, .par, .recover, .bailout, .seq]

def name : Mode → String
  | .default => "default"
  | .compile => "compile"
  | .par => "par"
  | .recover => "recover"
  | .bailout => "bailout"
  | .seq => "seq"

def ofName? (text : String) : Option Mode :=
  findByName all name text

def ofName (text : String) : Except InputError Mode :=
  requireName .mode (ofName? text) text

/-- Whether a parallel attempt is permitted. -/
def allowsParallel (mode : Mode) : Bool :=
  mode != .seq

/-- What is expected when nothing is said. -/
def defaultExpectation : Mode → Expectation
  | .par => .success
  | .recover | .bailout => .mixed
  | .default | .compile | .seq => .any

end Mode

/-! ## §3 Scatter options -/

/-- How a parallel scatter divides its work. -/
inductive Strategy where
  /-- Each worker owns a part of the output and walks all targets. -/
  | divideOutputRange
  /-- Each worker owns a part of the targets and has an output of its own. -/
  | divideScatterVector
  deriving DecidableEq, Repr

namespace Strategy

def all : List Strategy := [.divideOutputRange, .divideScatterVector]

def name : Strategy → String
  | .divideOutputRange => "divide-output-range"
  | .divideScatterVector => "divide-scatter-vector"

def ofName? (text : String) : Option Strategy :=
  findByName all name text

def ofName (text : String) : Except InputError Strategy :=
  requireName .strategy (ofName? text) text

end Strategy

/-- How the outputs of scatter workers are merged. Both ways merge one worker after another. -/
inductive MergeMode where
  | seq
  | par
  deriving DecidableEq, Repr

namespace MergeMode

def all : List MergeMode := [.seq, .par]

def name : MergeMode → String
  | .seq => "seq"
  | .par => "par"

def ofName? (text : String) : Option MergeMode :=
  findByName all name text

def ofName (text : String) : Except InputError MergeMode :=
  requireName .merge (ofName? text) text

end MergeMode

end ForkJoin
