import DesignCompiler.Drawing.Draft

/-!
# `DesignCompiler.Drawing.Walk`: the layers of a drawing visited in pre-order

The walk keeps a stack of the layers that wait for their visit, the next one on top. A visit drafts
the layer, notes its number with the layer around it, and puts the layers inside it on the stack.
The number of visits is limited by a budget; what is left on the stack when it is spent was cut off,
and nothing is known about it but that it consists of objects.

`Walk.node?` builds the layout tree from the visits, the last one first: the layers inside a layer
are visited after it, so their nodes are ready when its own is built. A value that is not fit for a
layout tree is reported only now, and the last visit with such a value is the one that is reported.
-/

set_option autoImplicit false

namespace DesignCompiler

/-- A layer that waits for its visit, with all that the visit needs and the drawing does not hold.
-/
structure Waiting where
  drawing : Drawing
  place : Place
  /-- The absolute position of the layer around it. -/
  origin : Origin
  /-- The number of the visit to the layer around it. -/
  parent : Option Nat

/-- A layer that has been visited, with the numbers of the visits to the layers inside it. The
numbers are added one by one, as those layers get their visits. -/
structure Visit where
  draft : Draft
  children : Array Nat

/-- A walk at some moment: the visits in order, and the stack with the next layer on top. -/
structure Walk where
  visits : Array Visit
  stack : List Waiting

namespace Waiting

/-- The layers inside a layer, waiting for their visits behind that of number `parent`; the first
has the given position. -/
def inside (origin : Origin) (place : Place) (parent : Nat) (position : Nat) :
    List Drawing → List Waiting
  | [] => []
  | drawing :: rest =>
    ⟨drawing, place.child position, origin, some parent⟩
      :: inside origin place parent (position + 1) rest

end Waiting

namespace Visit

/-- The visit with one more layer inside. -/
def addChild (number : Nat) (visit : Visit) : Visit :=
  { visit with children := visit.children.push number }

end Visit

namespace Walk

/-- The walk before its first visit. -/
def start (drawing : Drawing) (place : Place) : Walk :=
  ⟨#[], [⟨drawing, place, .zero, none⟩]⟩

/-- Notes a visit with the visit to the layer around it. The layer that the walk began with has none
around it. -/
def note (visits : Array Visit) (number : Nat) : Option Nat → Array Visit
  | none => visits
  | some parent => visits.modify parent (Visit.addChild number)

/-- The walk after a visit to a layer taken from its stack. The layers inside it go on top in their
order, which is what makes the order of the visits a pre-order. -/
def visit (visits : Array Visit) (next : Waiting) (rest : List Waiting) : Except Fault Walk := do
  let draft ← Draft.ofFields next.place next.origin next.drawing.fields
  -- The children are looked at after the layer's own fields, so a fault in those comes first.
  let origin ← Drawing.originAt next.drawing.fields next.place
  let children ← next.drawing.visitChildren next.place
  let number := visits.size
  return ⟨(note visits number next.parent).push ⟨draft, #[]⟩,
    Waiting.inside origin next.place number 0 children ++ rest⟩

/-- The walk after at most `budget` further visits. It stops early when nothing waits any more, and
at once when a visit fails. -/
def run : Nat → Walk → Except Fault Walk
  | 0, walk => .ok walk
  | budget + 1, walk =>
    match walk.stack with
    | [] => .ok walk
    | next :: rest => (visit walk.visits next rest).bind (run budget)

/-- Whether layers are left to visit. -/
def isCut (walk : Walk) : Bool := !walk.stack.isEmpty

/-- The node of a visit, given the nodes of all later visits of a walk, the last visit's first. It
only reads nodes that are there already: the layers inside a layer are visited after it. -/
def buildOne (count : Nat) (built : Array Node) (visit : Visit) : Except Fault (Array Node) :=
  -- Visit `child` is built as number `count - 1 - child`, for the last visit is built first.
  visit.draft.check.map fun layer =>
    built.push (.mk layer (visit.children.toList.filterMap fun child => built[count - 1 - child]?))

/-- The nodes of the visits of a walk, the last visit's first. The last visit with an unfit value is
therefore the one that is reported. -/
def build (visits : Array Visit) : Except Fault (Array Node) :=
  visits.toList.reverse.foldlM (buildOne visits.size) #[]

/-- The layout tree of the visited layers, if there was a visit. The node of the first visit is the
last one built, and everything else is inside it. -/
def node? (walk : Walk) : Except Fault (Option Node) :=
  (build walk.visits).map fun built => built.back?

end Walk

end DesignCompiler
