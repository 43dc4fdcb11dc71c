/-
**What can go wrong.**

A sink refuses a call, or a comparison fails; the wording of both is fixed here.

Main definitions:

* `Refusal` — why a sink refuses a call, with `Refusal.message`;
* `Fault` — why a comparison, a replay or an outline fails, with `Fault.message`.
-/
import GraphDelta.Property

set_option autoImplicit false

namespace GraphDelta

/-- Why a sink refuses a call. -/
inductive Refusal where
  | noTransaction
  | transactionOpen
  | duplicate (id : Ident)
  | unknown (id : Ident)
  | wrongParent (id : Ident) (expected actual : Option Ident)
  | conflict (key : Property.Key) (expected actual : Value)
  /-- The sink takes additions only. -/
  | removal (id : Ident)
deriving DecidableEq

def Refusal.message : Refusal → String
  | .noTransaction => "no transaction in progress"
  | .transactionOpen => "a transaction is already in progress"
  | .duplicate id => "object already exists: " ++ id.text
  | .unknown id => "unknown object: " ++ id.text
  | .wrongParent id expected actual =>
    "object " ++ id.text ++ " has parent " ++ Ident.describeOption actual ++ ", not " ++
      Ident.describeOption expected
  | .conflict key expected actual =>
    "conflicting value for " ++ key.text ++ ": expected " ++ expected.json.compact ++ ", found " ++
      actual.json.compact
  | .removal id => "removal of " ++ id.text ++ " is not supported by this sink"

/-- Why a comparison, a replay or an outline fails. -/
inductive Fault where
  | alreadyCompared
  | notCompared
  /-- A change speaks of an object that is in neither snapshot. -/
  | unresolved (id : Ident)
  | cycle (id : Ident)
  | refused (reason : Refusal)
deriving DecidableEq

def Fault.message : Fault → String
  | .alreadyCompared => "this differ has already been used to compute a diff"
  | .notCompared => "no diff has been computed yet"
  | .unresolved id => "object not found in either snapshot: " ++ id.text
  | .cycle id => "cyclic parent chain involving object " ++ id.text
  | .refused reason => "sink error: " ++ reason.message

end GraphDelta
