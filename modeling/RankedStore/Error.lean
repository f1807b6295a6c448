import RankedStore.Value

/-! What can go wrong, by cause. The causes of one group share a heading; a group whose failures a
caller may raise with words of its own has a cause `other` for them. -/
namespace RankedStore

namespace Error

inductive Configuration
  | badIdentifier (role name : String)
  | declaresId (entity : String)
  | columnTwice (entity column : String)
  | badNewPosition (text : String)
  | badCompactOnDelete (text : String)
  | unknownOption (name : String)
  | sortableTwice (entity : String)
  | alreadyRegistered (entity : String)
  | columnType (column entity expected found : String)
  | layoutDiffers (table : String)
  | notSortable (entity : String)
  | other (text : String)
deriving DecidableEq

def Configuration.text : Configuration → String
  | .badIdentifier role name => s!"The {role} name \"{name}\" is not a valid identifier."
  | .declaresId entity => s!"Entity '{entity}' declares the implicit 'id' column."
  | .columnTwice entity column => s!"Entity '{entity}' declares column '{column}' twice."
  | .badNewPosition text => s!"The new_position \"{text}\" is not valid."
  | .badCompactOnDelete text => s!"The compact_on_delete \"{text}\" is not a boolean."
  | .unknownOption name => s!"The option \"{name}\" does not exist for the sortable behavior."
  | .sortableTwice entity => s!"Entity '{entity}' declares the sortable behavior twice."
  | .alreadyRegistered entity => s!"Entity '{entity}' is already registered."
  | .columnType column entity expected found =>
    s!"Column '{column}' of entity '{entity}' must be {expected}, found {found}."
  | .layoutDiffers table => s!"Stored table '{table}' does not match its entity schema."
  | .notSortable entity => s!"Entity '{entity}' is not sortable."
  | .other text => text

inductive Argument
  | notPersisted (entity : String)
  | idIsAssigned (entity : String)
  | wrongEntity (entity : String)
  | noPosition (entity column : String)
  | positionNotInteger (column entity : String)
  | positionOutOfRange (column : String) (position last : Int64)
  | other (text : String)
deriving DecidableEq

def Argument.text : Argument → String
  | .notPersisted entity => s!"The {entity} entity has not been persisted yet."
  | .idIsAssigned entity => s!"The id of a {entity} entity is assigned by storage."
  | .wrongEntity entity => s!"The entity is not an instance of {entity}."
  | .noPosition entity column => s!"The {entity} entity has no {column}."
  | .positionNotInteger column entity => s!"The {column} of a {entity} entity must be an integer."
  | .positionOutOfRange column position last =>
    s!"The {column} {position} is out of range 1..={last}."
  | .other text => text

inductive Precondition
  | isFirst
  | isLast
  | noPrevious
  | noNext
  | other (text : String)
deriving DecidableEq

def Precondition.text : Precondition → String
  | .isFirst => "The entity is the first."
  | .isLast => "The entity is the last."
  | .noPrevious => "The entity has no previous entity."
  | .noNext => "The entity has no next entity."
  | .other text => text

inductive Mismatch
  | incomparable (left right : String)
  | cell (column expected found : String)
  | id (table found : String)
  | width (table : String) (expected found : Nat)
  | notShiftable (column kind : String)
  | notInteger (column kind : String)
  | recordWidth (entity : String) (found expected : Nat)
  | other (text : String)
deriving DecidableEq

def Mismatch.text : Mismatch → String
  | .incomparable left right => s!"Cannot compare incompatible types: {left} and {right}"
  | .cell column expected found => s!"Column '{column}' expects type {expected}, got {found}"
  | .id table found => s!"Table '{table}' expects an integer id, got {found}"
  | .width table expected found => s!"Table '{table}' expects {expected} columns, got {found}"
  | .notShiftable column kind => s!"Cannot shift column '{column}' of type {kind}"
  | .notInteger column kind => s!"Column '{column}' holds {kind}, expected INTEGER"
  | .recordWidth entity found expected =>
    s!"Row for '{entity}' has {found} values, schema has {expected} columns"
  | .other text => text

inductive Constraint
  | nullCell (column : String)
  | idTaken (id : Int64) (table : String)
  | notUnique (column : String) (value : Value)
  | shiftOverflow (column : String) (id delta : Int64)
  | noPositionLeft (column entity : String)
  | other (text : String)
deriving DecidableEq

def Constraint.text : Constraint → String
  | .nullCell column => s!"Column '{column}' cannot be NULL"
  | .idTaken id table => s!"Duplicate id {id} in table '{table}'"
  | .notUnique column value =>
    s!"Unique constraint violation: Column '{column}' already contains value {value}"
  | .shiftOverflow column id delta => s!"Shifting '{column}' of row {id} by {delta} overflows"
  | .noPositionLeft column entity => s!"No {column} left after the last {entity} entity."
  | .other text => text

inductive Transaction
  | nothingToCommit
  | nothingToRollBack
  | noCopyToCommit
  | noCopyToRollBack
  | conflict (base current : Nat)
  | other (text : String)
deriving DecidableEq

def Transaction.text : Transaction → String
  | .nothingToCommit => "Cannot commit: no transaction is active"
  | .nothingToRollBack => "Cannot roll back: no transaction is active"
  | .noCopyToCommit => "Cannot commit: no working copy is open"
  | .noCopyToRollBack => "Cannot roll back: no working copy is open"
  | .conflict base current =>
    s!"Cannot commit: the store changed since the transaction began (version {base} is now {current})"
  | .other text => text

inductive Serialization
  | malformed
  | version (found expected : Nat)
  | other (text : String)
deriving DecidableEq

def Serialization.text : Serialization → String
  | .malformed => "the text is not a JSON document of the expected form"
  | .version found expected => s!"Unsupported snapshot version {found} (expected {expected})"
  | .other text => text

/-- Data that no operation can go on with. -/
inductive Damage
  /-- A stored row has no cell for a column of its table. -/
  | rowTooShort (table : String)
  /-- No id comes after the one just given. This stands for the abort of a build that checks the sum
  `id + 1`. In a build that does not, the sum wraps around: the row is stored, and the next id
  stays. -/
  | idsExhausted (table : String)
  /-- The values of a column have no order to sort many rows by. This stands for the abort of a sort
  that notices it, which no sort has to. -/
  | unordered (table : String)
deriving DecidableEq

def Damage.text : Damage → String
  | .rowTooShort table => s!"A row of table '{table}' is too short"
  | .idsExhausted table => s!"The ids of table '{table}' are used up"
  | .unordered table => s!"The rows of table '{table}' cannot be put in order"

end Error

inductive Error
  | configuration (cause : Error.Configuration)
  | invalidArgument (cause : Error.Argument)
  | preconditionFailed (cause : Error.Precondition)
  | entityNotFound (entity : String) (id : Int64)
  | unknownEntity (entity : String)
  | tableExists (table : String)
  | tableNotFound (table : String)
  | columnNotFound (column table : String)
  | typeMismatch (cause : Error.Mismatch)
  | constraintViolation (cause : Error.Constraint)
  | transaction (cause : Error.Transaction)
  | lock (text : String)
  | io (text : String)
  | serialization (cause : Error.Serialization)
  | damage (cause : Error.Damage)
deriving DecidableEq

namespace Error

def message : Error → String
  | .configuration cause => "Configuration error: " ++ cause.text
  | .invalidArgument cause => "Invalid argument: " ++ cause.text
  | .preconditionFailed cause => "Precondition failed: " ++ cause.text
  | .entityNotFound entity id => s!"Entity '{entity}' with id {id} not found"
  | .unknownEntity entity => s!"Entity '{entity}' is not registered"
  | .tableExists table => s!"Table '{table}' already exists"
  | .tableNotFound table => s!"Table '{table}' not found"
  | .columnNotFound column table => s!"Column '{column}' not found in table '{table}'"
  | .typeMismatch cause => "Type mismatch: " ++ cause.text
  | .constraintViolation cause => "Constraint violation: " ++ cause.text
  | .transaction cause => "Transaction error: " ++ cause.text
  | .lock text => "Lock error: " ++ text
  | .io text => "I/O error: " ++ text
  | .serialization cause => "Serialization error: " ++ cause.text
  | .damage cause => "Damaged data: " ++ cause.text

/-- Whether the same call may succeed later, once the state of the store has changed. -/
def isRetryable : Error → Bool
  | .entityNotFound .. | .constraintViolation _ | .transaction _ | .lock _ | .io _ => true
  | _ => false

end Error

/-- The order of two values that a caller needs to be comparable. -/
def Value.compare (a b : Value) : Except Error Ordering :=
  match a.order? b with
  | some ordering => .ok ordering
  | none => .error (.typeMismatch (.incomparable a.kind b.kind))

end RankedStore
