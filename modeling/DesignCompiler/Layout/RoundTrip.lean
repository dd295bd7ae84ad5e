import DesignCompiler.Layout.Encoder

/-!
# `DesignCompiler.Layout.RoundTrip`: whether trees come back from what is written of them

Trees are dumped, the dump is read, and the trees that were read are compared with those that were
dumped. Each of the steps has its own limit: a dump holds `Node.levelLimit` levels, the padding
counted, reading takes as many nodes inside one another, and two trees are compared to
`Node.comparedLimit` levels.
-/

set_option autoImplicit false

namespace DesignCompiler

namespace Node

/-- How many levels of a tree are compared with another. -/
def comparedLimit : Nat := 247

/-- Whether two lists of trees are equal, if none of the first has more levels than are compared.
What is not a number comes back as the same value, so it is equal to itself here. -/
def compare (left right : List Node) : Except Fault Bool :=
  if levelsAll left ≤ comparedLimit then .ok (decide (left = right)) else .error .comparedTooDeep

/-- Whether trees are equal to those that are read from what is written of them. -/
def comeBack (nodes : List Node) : Except Fault Bool := do
  let trees ← dumpAll levelLimit nodes
  compare nodes (← trees.mapM (ofJson levelLimit))

end Node

end DesignCompiler
