import ForkJoin.Number.Positional
import ForkJoin.Shape.Dims
import ForkJoin.Text.Quoted

/-!
# Rejected inputs

Every input is validated before any work is attempted. This module lists the causes for which an
input is rejected, and gives each its message.

## Main definitions
- `BadArgument`: malformed shapes, lengths, fields, paths and option names.
- `InputError`: all causes.
- `InputError.message`: the text of a cause.
-/

namespace ForkJoin

/-- The kinds of option that are chosen by name. -/
inductive OptionKind where
  | mode
  | expectation
  | strategy
  | merge
  deriving DecidableEq, Repr

def OptionKind.title : OptionKind → String
  | .mode => "mode"
  | .expectation => "expectation"
  | .strategy => "scatter strategy"
  | .merge => "merge mode"

inductive BadArgument where
  /-- A shape without dimensions. -/
  | noDimensions
  /-- A shape with too many elements to address. -/
  | sizeOverflow (dims : Dims)
  /-- A number that is no length, given for an axis. -/
  | badLength (axis : Nat) (value : Binary64)
  /-- A shape and a number of cells that do not fit. -/
  | cellCount (dims : Dims) (given : Nat)
  /-- A length that does not fall into groups of one size. -/
  | unevenGroups (length amount : Nat)
  /-- Two fields of one name. -/
  | duplicateField (name : String)
  /-- A field that the record does not have. -/
  | unknownField (name : String)
  /-- A step into an array that is no index of it. -/
  | badIndex (step : String)
  /-- A step into a scalar. -/
  | stepIntoScalar (step : String)
  /-- A buffer that ends inside a record. -/
  | brokenRecords (bytes size : Nat)
  /-- A record that is not there. -/
  | noRecord (index count : Nat)
  /-- A path to something other than a scalar. -/
  | notScalar (path : List String)
  /-- A scalar that runs past the end of the buffer. -/
  | truncatedRecord
  /-- A scatter target that is no integer. -/
  | fractionalTarget (index : Nat)
  /-- A name that no option of its kind has. -/
  | unknownName (kind : OptionKind) (name : String)
  deriving DecidableEq, Repr

def BadArgument.message : BadArgument → String
  | .noDimensions => "shape must have at least one dimension"
  | .sizeOverflow dims => s!"shape {dims.text} overflows"
  | .badLength axis value => s!"dimension {axis} is not a valid length: {value.text}"
  | .cellCount dims given => s!"shape {dims.text} needs {dims.size} elements, got {given}"
  | .unevenGroups length amount => s!"cannot partition length {length} into groups of {amount}"
  | .duplicateField name => s!"duplicate field '{name}'"
  | .unknownField name => s!"no field '{name}'"
  | .badIndex step => s!"bad array index '{step}'"
  | .stepIntoScalar step => s!"cannot select '{step}' in a scalar"
  | .brokenRecords bytes size => s!"{bytes} bytes do not hold whole records of {size} bytes"
  | .noRecord index count => s!"record {index} out of range {count}"
  | .notScalar path => s!"{quotedList path} is not a scalar field"
  | .truncatedRecord => "record truncated"
  | .fractionalTarget index => s!"scatter target of source index {index} is not an integer"
  | .unknownName kind name => s!"unknown {kind.title} '{name}'"

/-- The actions that are defined for some ranks only. -/
inductive RankedAction where
  | reduce
  | scan
  | scatter
  | flatten
  deriving DecidableEq, Repr

def RankedAction.name : RankedAction → String
  | .reduce => "reduce"
  | .scan => "scan"
  | .scatter => "scatter"
  | .flatten => "flatten"

inductive InputError where
  /-- A malformed argument. -/
  | argument (cause : BadArgument)
  /-- A scatter target outside the output. -/
  | targetOutOfBounds (index : Nat) (target : Int) (length : Nat)
  /-- Nothing to reduce or scan. -/
  | emptyDomain
  /-- Two sources with one scatter target and no way to combine them. -/
  | targetConflict (index target : Nat)
  /-- An action that is not defined for arrays of this rank. -/
  | unsupportedRank (action : RankedAction) (rank : Nat)
  deriving DecidableEq, Inhabited, Repr

def InputError.message : InputError → String
  | .argument cause => s!"invalid argument: {cause.message}"
  | .targetOutOfBounds index target length =>
    s!"scatter target {target} of source index {index} out of bounds for length {length}"
  | .emptyDomain => "cannot reduce an empty domain"
  | .targetConflict index target =>
    s!"scatter conflict at target {target} (source index {index}) with no conflict function"
  | .unsupportedRank action rank => s!"{action.name} is not supported for arrays of rank {rank}"

end ForkJoin
