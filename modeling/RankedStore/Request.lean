import RankedStore.Session.Statement
import RankedStore.Session.Transaction

/-! The operations of a store as values, with what they answer. -/
namespace RankedStore

inductive Request
  | createTable (layout : TableLayout)
  | hasTable (table : String)
  | layout (table : String)
  | rowCount (table : String)
  | tableNames
  | insert (table : String) (row : Row)
  | fetch (table : String) (id : Int64)
  | select (statement : Select)
  | aggregate (statement : Aggregate)
  | update (statement : Update)
  | updateById (table : String) (id : Int64) (column : String) (value : Value)
  | replace (table : String) (id : Int64) (row : Row)
  | delete (table : String) (id : Int64)
  | begin
  | commit
  | rollback
  | inTransaction

inductive Reply
  | done
  | flag (b : Bool)
  | count (n : Nat)
  | id (id : Int64)
  | row (row : Option Row)
  | rows (rows : List Row)
  | value (value : Option Value)
  | layout (layout : TableLayout)
  | names (names : List String)
deriving DecidableEq

namespace Request

/-- Carries out a request. The ends of transaction levels answer with the depth that is left. -/
def run : Request → Action Reply
  | .createTable columns => do Action.createTable columns; return .done
  | .hasTable table => return .flag (← Action.hasTable table)
  | .layout table => return .layout (← Action.layout table)
  | .rowCount table => return .count (← Action.rowCount table)
  | .tableNames => return .names (← Action.tableNames)
  | .insert table row => return .id (← Action.insert table row)
  | .fetch table id => return .row (← Action.fetch table id)
  | .select statement => return .rows (← Action.select statement)
  | .aggregate statement => return .value (← Action.aggregate statement)
  | .update statement => return .count (← Action.updateWhere statement)
  | .updateById table id column value => do
    Action.updateById table id column value
    return .done
  | .replace table id row => do Action.replace table id row; return .done
  | .delete table id => return .flag (← Action.delete table id)
  | .begin => do Action.begin; return .count (← Action.depth)
  | .commit => do Action.commit; return .count (← Action.depth)
  | .rollback => do Action.rollback; return .count (← Action.depth)
  | .inTransaction => return .flag (← Action.inTransaction)

end Request
end RankedStore
