/-!
# Capabilities

The optional features of a database.  A dialect declares which of them it has, and a statement
that needs another one is refused.
-/

set_option autoImplicit false
namespace SqlCompiler

/-- An optional database feature. -/
inductive Capability where
  /-- Sequences, and their next value. -/
  | sequence
  /-- The current value of a sequence. -/
  | sequenceCurr
  /-- A least value for a sequence. -/
  | sequenceMin
  /-- A greatest value for a sequence. -/
  | sequenceMax
  /-- Sequences that start over. -/
  | sequenceCycle
  /-- Paging inside subqueries. -/
  | pagingNested
  /-- An offset without a number of rows to fetch. -/
  | pagingDrop
  /-- The name of the current database. -/
  | functionDatabase
  /-- The name of the current user. -/
  | functionUser
  /-- An escape character in a pattern. -/
  | likeEscape
  /-- Large objects. -/
  | typeBlob
  /-- Exact decimals. -/
  | typeBigDecimal
  /-- Generated keys handed back by an insert. -/
  | returnInsertKey
  /-- Other columns handed back by an insert. -/
  | returnInsertOther
  /-- Result rows that can be updated in place. -/
  | mutableCursor
  /-- Default values of columns. -/
  | columnDefaults
deriving DecidableEq, Repr

namespace Capability

/-- Every capability, in the order in which they are listed. -/
def all : List Capability :=
  [sequence, sequenceCurr, sequenceMin, sequenceMax, sequenceCycle, pagingNested, pagingDrop,
    functionDatabase, functionUser, likeEscape, typeBlob, typeBigDecimal, returnInsertKey,
    returnInsertOther, mutableCursor, columnDefaults]

/-- The name of a capability. -/
def name : Capability → String
  | sequence => "sequence"
  | sequenceCurr => "sequenceCurr"
  | sequenceMin => "sequenceMin"
  | sequenceMax => "sequenceMax"
  | sequenceCycle => "sequenceCycle"
  | pagingNested => "pagingNested"
  | pagingDrop => "pagingDrop"
  | functionDatabase => "functionDatabase"
  | functionUser => "functionUser"
  | likeEscape => "likeEscape"
  | typeBlob => "typeBlob"
  | typeBigDecimal => "typeBigDecimal"
  | returnInsertKey => "returnInsertKey"
  | returnInsertOther => "returnInsertOther"
  | mutableCursor => "mutableCursor"
  | columnDefaults => "columnDefaults"

/-- The capability with a given name. -/
def ofName? (s : String) : Option Capability :=
  all.find? (·.name == s)

end Capability
end SqlCompiler
