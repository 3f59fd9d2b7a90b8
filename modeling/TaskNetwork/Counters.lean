import TaskNetwork.Decimal.Fixed

/-! Counters of a planning call, and the report made of them. -/

namespace TaskNetwork

/-- What a search has done so far. -/
structure Counters where
  steps : Nat := 0
  expansions : Nat := 0
  primitives : Nat := 0
  unresolvedPrimitives : Nat := 0
  branchesTried : Nat := 0
  branchesFailed : Nat := 0
  snapshots : Nat := 0
  restores : Nat := 0
  factProbes : Nat := 0
  factMatches : Nat := 0
  axiomCalls : Nat := 0
  cyclesBlocked : Nat := 0
  maxPending : Nat := 0
  maxHistory : Nat := 0
deriving DecidableEq, Inhabited

namespace Counters

def step (c : Counters) : Counters := { c with steps := c.steps + 1 }

def expansion (c : Counters) : Counters := { c with expansions := c.expansions + 1 }

def primitive (c : Counters) : Counters := { c with primitives := c.primitives + 1 }

def unresolvedPrimitive (c : Counters) : Counters :=
  { c with unresolvedPrimitives := c.unresolvedPrimitives + 1 }

def branch (c : Counters) (succeeded : Bool) : Counters :=
  { c with
    branchesTried := c.branchesTried + 1
    branchesFailed := if succeeded then c.branchesFailed else c.branchesFailed + 1 }

/-- A choice was put on the history, which is now `depth` deep. -/
def snapshot (c : Counters) (depth : Nat) : Counters :=
  { c with snapshots := c.snapshots + 1, maxHistory := max c.maxHistory depth }

def restore (c : Counters) : Counters := { c with restores := c.restores + 1 }

def factProbe (c : Counters) (matched : Bool) : Counters :=
  { c with
    factProbes := c.factProbes + 1
    factMatches := if matched then c.factMatches + 1 else c.factMatches }

def axiomCall (c : Counters) : Counters := { c with axiomCalls := c.axiomCalls + 1 }

def cycleBlocked (c : Counters) : Counters := { c with cyclesBlocked := c.cyclesBlocked + 1 }

def pending (c : Counters) (depth : Nat) : Counters :=
  { c with maxPending := max c.maxPending depth }

/-- The counters after a call, with the number of environment entries left behind. -/
structure Report extends Counters where
  residualEntries : Nat := 0
deriving DecidableEq, Inhabited

def report (c : Counters) : Report := { c with }

namespace Report

/-- The share `part / whole`, and 1 of nothing. Both are rounded to floats before the division. -/
def rate (part whole : Nat) : Float :=
  if whole = 0 then 1.0 else part.toUInt64.toFloat / whole.toUInt64.toFloat

def factHitRate (r : Report) : Float := rate r.factMatches r.factProbes

def branchSuccessRate (r : Report) : Float :=
  rate (r.branchesTried - r.branchesFailed) r.branchesTried

/-- A share in percent with one place. -/
def percent (rate : Float) : String := Decimal.fixed 1 (rate * 100.0)

def text (r : Report) : String :=
  String.join <| [
    "=== Planning Metrics ===",
    s!"Steps:              {r.steps}",
    s!"Tasks:              {r.expansions} expanded, {r.primitives} primitive " ++
      s!"({r.unresolvedPrimitives} unresolved)",
    s!"Branches:           {r.branchesTried} tried, {r.branchesFailed} failed, " ++
      s!"{percent r.branchSuccessRate}% success",
    s!"History:            {r.snapshots} snapshots, {r.restores} restores, " ++
      s!"max depth {r.maxHistory}",
    s!"Fact probes:        {r.factProbes} ({r.factMatches} matched, " ++
      s!"{percent r.factHitRate}% hit)",
    s!"Axiom calls:        {r.axiomCalls} ({r.cyclesBlocked} cycles blocked)",
    s!"Max pending tasks:  {r.maxPending}",
    s!"Residual entries:   {r.residualEntries}"].map (· ++ "\n")

end Report

end Counters

end TaskNetwork
