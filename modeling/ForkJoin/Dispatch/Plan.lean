import ForkJoin.Config.Basic
import ForkJoin.Partition.Slice

/-!
# Dispatch plans

Before anything runs, an operation decides whether a parallel attempt is worthwhile. The decision
is a value that carries its reason, so that it can be shown and reasoned about.

## Main definitions
- `Operation`: the bulk operations.
- `Action`, `Reason`: what is done and why.
- `Plan.make`: the decision.
-/

namespace ForkJoin

inductive Operation where
  | build
  | map
  | reduce
  | scan
  | filter
  | scatter
  deriving DecidableEq, Repr

namespace Operation

def all : List Operation := [.build, .map, .reduce, .scan, .filter, .scatter]

def name : Operation → String
  | .build => "build"
  | .map => "map"
  | .reduce => "reduce"
  | .scan => "scan"
  | .filter => "filter"
  | .scatter => "scatter"

def ofName? (text : String) : Option Operation :=
  findByName all name text

/-- The number of chunks below which a parallel attempt is not made. Elementwise work always pays
off. Where slices depend on each other every worker should have a chunk, and a filter should
have two. -/
def minChunks (op : Operation) (workers : Nat) : Nat :=
  match op with
  | .build | .map => 0
  | .reduce | .scan | .scatter => workers
  | .filter => workers * 2

end Operation

/-- What an operation does. -/
inductive Action where
  /-- Warmups and dispatches. -/
  | parallel
  /-- The sequential path at once. -/
  | sequential
  deriving DecidableEq, Repr

def Action.name : Action → String
  | .parallel => "parallel"
  | .sequential => "sequential"

/-- Why an operation does so. -/
inductive Reason where
  /-- There is work for every worker. -/
  | eligible
  /-- The caller insists on a scatter strategy. -/
  | forcedByStrategy
  /-- The mode does not permit a parallel attempt. -/
  | modeForbidsParallel
  /-- There is nothing to do. -/
  | emptyDomain
  /-- There is less work than the operation needs. -/
  | tooFewChunks (chunks required : Nat)
  deriving DecidableEq, Repr

def Reason.text : Reason → String
  | .eligible => "eligible"
  | .forcedByStrategy => "forced_by_strategy"
  | .modeForbidsParallel => "mode_forbids_parallel"
  | .emptyDomain => "empty_domain"
  | .tooFewChunks chunks required => s!"too_few_chunks:{chunks}<{required}"

/-- The decision for one operation. -/
structure Plan where
  op : Operation
  action : Action
  reason : Reason
  /-- The number of elements. -/
  length : Nat
  /-- The number of chunks. -/
  chunks : Nat
  /-- The number of slices, one per worker. -/
  slices : Nat
  deriving DecidableEq, Repr

namespace Plan

/-- What to do and why. The first reason that applies decides. -/
def choose (op : Operation) (length : Nat) (config : Config) (workers : Nat) : Action × Reason :=
  let chunks := chunkCount length
  let required := op.minChunks workers
  if !config.mode.allowsParallel then
    (.sequential, .modeForbidsParallel)
  else if length = 0 then
    (.sequential, .emptyDomain)
  -- A strategy that the caller insists on skips the question whether there is enough work.
  else if op = .scatter ∧ config.strategy.isSome then
    (.parallel, .forcedByStrategy)
  else if chunks < required then
    (.sequential, .tooFewChunks chunks required)
  else
    (.parallel, .eligible)

/-- The plan for an operation on `length` elements. -/
def make (op : Operation) (length : Nat) (config : Config) (workers : Nat) : Plan :=
  let (action, reason) := choose op length config workers
  { op, action, reason, length, chunks := chunkCount length, slices := workers }

def isParallel (plan : Plan) : Bool :=
  plan.action == .parallel

def text (plan : Plan) : String :=
  s!"{plan.op.name} over {plan.length} elements ({plan.chunks} chunks, {plan.slices} slices): " ++
    s!"{plan.action.name} ({plan.reason.text})"

end Plan

end ForkJoin
