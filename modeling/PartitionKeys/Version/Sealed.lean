/-
# Sealed comparison

A record of a sealed segment has every configured column, and its version is compared with
the stored one position by position: it wins as soon as one of its values is the larger one,
and loses if a stored value wins and none of its own does.
-/
import PartitionKeys.Version.Basic

namespace PartitionKeys

/-- Which rule decides between two versions. -/
inductive ComparisonRule where
  /-- The first column with a value decides. -/
  | perColumn
  /-- All configured columns decide together. -/
  | sealed
deriving DecidableEq, Repr

namespace Sealed

/-- Compares values from a position on; `lost` tells whether a stored value has won before. -/
def compareFrom (names : List String) (lost : Bool) :
    List (Option Value × Option Value) → Except ComparisonError Ordering
  | [] => .ok (if lost then .lt else .eq)
  | (_, none) :: rest => compareFrom names.tail lost rest
  | (none, some _) :: rest => compareFrom names.tail true rest
  | (some own, some stored) :: rest => do
    match ← compareIn (names.head?.getD "?") stored own with
    | .gt => .ok .gt
    | .lt => compareFrom names.tail true rest
    | .eq => compareFrom names.tail lost rest

/-- Compares the values of a proposed version with those of the stored one. -/
def compare (own stored : List (Option Value)) (names : List String) :
    Except ComparisonError Ordering :=
  if own.length = stored.length then compareFrom names false (own.zip stored)
  else .error (.arityMismatch stored.length own.length)

end Sealed

namespace Version

/-- Decides between a proposed and the stored version by the named columns; a proposed
version that is accepted is held unchanged. -/
def decideSealed (proposed stored : Version) (names : List String) :
    Except ComparisonError Decision := do
  match ← Sealed.compare (proposed.project names) (stored.project names) names with
  | .lt => .ok .reject
  | _ => .ok (.supersede proposed)

end Version

/-- Decides between a proposed and the stored version by a rule. -/
def ComparisonRule.decide (rule : ComparisonRule) (proposed stored : Version)
    (names : List String) : Except ComparisonError Decision :=
  match rule with
  | .perColumn => proposed.decide stored
  | .sealed => proposed.decideSealed stored names

end PartitionKeys
