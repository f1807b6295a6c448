import RankedStore.Entity.Schema

/-! How the entities of one type are ranked: the column that holds the positions, the end at which
new entities come in, and whether removing an entity closes its gap. -/
namespace RankedStore

inductive NewPosition
  | top
  | bottom
deriving DecidableEq

namespace NewPosition

def name : NewPosition → String
  | .top => "top"
  | .bottom => "bottom"

def ofName (name : String) : Except Error NewPosition :=
  match name with
  | "top" => .ok .top
  | "bottom" => .ok .bottom
  | other => .error (.configuration (.badNewPosition other))

end NewPosition

structure RankingConfig where
  column : String := "position"
  newPosition : NewPosition := .bottom
  compactOnDelete : Bool := false
deriving DecidableEq

namespace RankingConfig

def check (c : RankingConfig) : Except Error Unit := checkIdentifier "column" c.column

/-- Takes in one option as it is written in a schema. -/
def withOption (c : RankingConfig) (key value : String) : Except Error RankingConfig :=
  match key with
  | "column" => .ok { c with column := value }
  | "new_position" => do return { c with newPosition := ← NewPosition.ofName value }
  | "compact_on_delete" => match value with
    | "true" => .ok { c with compactOnDelete := true }
    | "false" => .ok { c with compactOnDelete := false }
    | other => .error (.configuration (.badCompactOnDelete other))
  | other => .error (.configuration (.unknownOption other))

def withOptions (c : RankingConfig) : List (String × String) → Except Error RankingConfig
  | [] => .ok c
  | (key, value) :: rest => do (← c.withOption key value).withOptions rest

/-- The configuration that options give, which are looked at in the order of their keys. -/
def ofOptions (options : Dict String String) : Except Error RankingConfig := do
  let config ← withOptions {} options.entries
  config.check
  return config

end RankingConfig
end RankedStore
