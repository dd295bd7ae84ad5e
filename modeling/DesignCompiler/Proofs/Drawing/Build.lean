import Mathlib.Data.List.Basic
import DesignCompiler.Proofs.Drawing.Run

/-!
# `DesignCompiler.Proofs.Drawing.Build`: the tree comes out of the visits

`Walk.build` goes through the visits from the last one to the first and looks up the children of
each among the nodes that are there already. Its place in the array of nodes is found by counting
from the end, so the lookup is right only if the nodes are exactly those of all later visits.

The invariant is that the nodes of a sketch end up as its subtrees in reversed pre-order
(`build_visits`), behind the nodes of everything that is visited later. `filterMap_numbers` is the
lookup under that invariant. `node?_visits` sums it up: from the visits to a sketch comes the
checked sketch.
-/

set_option autoImplicit false

namespace DesignCompiler

open Outcome

namespace Node

mutual

/-- A tree and all trees inside it, each before those inside it. The array of nodes holds these in
reversed order when the tree is built. -/
def subtrees : Node → List Node
  | .mk layer children => .mk layer children :: subtreesAll children

/-- The trees of a list and all trees inside them. -/
def subtreesAll : List Node → List Node
  | [] => []
  | node :: rest => subtrees node ++ subtreesAll rest

end

/-- A tree is the first of its subtrees. -/
theorem subtrees_eq_cons (node : Node) : ∃ rest, node.subtrees = node :: rest := by
  cases node with
  | mk layer children => exact ⟨subtreesAll children, by rw [subtrees]⟩

mutual

/-- A tree has as many subtrees as layers. -/
theorem length_subtrees (depth : Nat) : ∀ node : Node,
    node.subtrees.length = (node.preorder depth).length
  | .mk layer children => by
    rw [subtrees, preorder, List.length_cons, List.length_cons,
      length_subtreesAll (depth + 1) children]

/-- The same for a list of trees. -/
theorem length_subtreesAll (depth : Nat) : ∀ nodes : List Node,
    (subtreesAll nodes).length = (preorderAll depth nodes).length
  | [] => by rw [subtreesAll, preorderAll, List.length_nil, List.length_nil]
  | node :: rest => by
    rw [subtreesAll, preorderAll, List.length_append, List.length_append,
      length_subtrees depth node, length_subtreesAll depth rest]

end

end Node

namespace Sketch

mutual

/-- A checked sketch has as many subtrees as the sketch has layers. -/
theorem length_subtrees_of_check (node : Node) : ∀ s : Sketch,
    s.check = .ok node → node.subtrees.length = s.size
  | .mk draft children => by
    intro h
    simp only [check, bind_eq_ok, pure_eq, Except.ok.injEq] at h
    obtain ⟨nodes, hnodes, layer, -, rfl⟩ := h
    rw [Node.subtrees, size, List.length_cons, length_subtreesAll_of_checkAll nodes children hnodes]

/-- The same for a list of sketches. -/
theorem length_subtreesAll_of_checkAll (nodes : List Node) : ∀ ss : List Sketch,
    checkAll ss = .ok nodes → (Node.subtreesAll nodes).length = sizeAll ss
  | [] => by
    intro h
    rw [checkAll, Except.ok.injEq] at h
    subst h
    rw [Node.subtreesAll, sizeAll, List.length_nil]
  | s :: rest => by
    intro h
    simp only [checkAll, bind_eq_ok, pure_eq, Except.ok.injEq] at h
    obtain ⟨others, hothers, node, hnode, rfl⟩ := h
    rw [Node.subtreesAll, sizeAll, List.length_append, length_subtrees_of_check node s hnode,
      length_subtreesAll_of_checkAll others rest hothers]

end

/-- A sketch has a layer at least. -/
theorem size_pos (s : Sketch) : 0 < s.size := by
  cases s with
  | mk draft children => rw [size]; omega

/-- Sketches that are visited in order have numbers in a row of as many as they have layers. The
number of one sketch leaves room for the layers inside the one before it. -/
theorem mem_numbers {number m : Nat} {ss : List Sketch} (h : m ∈ numbers number ss) :
    number ≤ m ∧ m < number + sizeAll ss := by
  induction ss generalizing number with
  | nil => simp [numbers] at h
  | cons s rest ih =>
    have hpos := s.size_pos
    rw [numbers, List.mem_cons] at h
    rw [sizeAll]
    rcases h with rfl | h
    · omega
    · have := ih h
      omega

/-- What was built before, with the nodes of some sketches behind it. -/
theorem size_built {ss : List Sketch} {nodes : List Node} (h : checkAll ss = .ok nodes)
    (built : Array Node) :
    (built ++ (Node.subtreesAll nodes).reverse.toArray).size = built.size + sizeAll ss := by
  simp only [Array.size_append, List.size_toArray, List.length_reverse,
    length_subtreesAll_of_checkAll nodes ss h]

end Sketch

namespace Walk

open Sketch

/-- Where the nodes of all later visits are there in reversed pre-order, the numbers of some
sketches lead to the nodes of these sketches.

`count` is the number of all visits, and `built` holds the nodes of those behind the sketches. The
hypothesis on the count is what makes counting from the end right. -/
theorem filterMap_numbers {count number : Nat} {ss : List Sketch} {nodes : List Node}
    {built : Array Node} (hcheck : checkAll ss = .ok nodes)
    (hcount : number + sizeAll ss + built.size = count) :
    (numbers number ss).filterMap
        (fun m => (built ++ (Node.subtreesAll nodes).reverse.toArray)[count - 1 - m]?)
      = nodes := by
  induction ss generalizing number nodes with
  | nil =>
    rw [checkAll, Except.ok.injEq] at hcheck
    subst hcheck
    rfl
  | cons s rest ih =>
    simp only [checkAll, bind_eq_ok, pure_eq, Except.ok.injEq] at hcheck
    obtain ⟨others, hothers, node, hnode, rfl⟩ := hcheck
    obtain ⟨inner, hinner⟩ := node.subtrees_eq_cons
    have hlength : inner.length + 1 = s.size := by
      rw [← length_subtrees_of_check node s hnode, hinner, List.length_cons]
    rw [sizeAll] at hcount
    -- The nodes of the other sketches come first, and the node of the first sketch is the last.
    have hsplit : built ++ (Node.subtreesAll (node :: others)).reverse.toArray
        = (built ++ (Node.subtreesAll others).reverse.toArray
            ++ inner.reverse.toArray).push node := by
      rw [Node.subtreesAll, hinner]
      simp
    have hothersSize := size_built hothers built
    have hsize : (built ++ (Node.subtreesAll others).reverse.toArray ++ inner.reverse.toArray).size
        = built.size + sizeAll rest + inner.length := by
      rw [Array.size_append, hothersSize]
      simp only [List.size_toArray, List.length_reverse]
    rw [numbers, List.filterMap_cons, hsplit, Array.getElem?_push, if_pos (by omega)]
    dsimp only
    congr 1
    refine (List.filterMap_congr ?_).trans (@ih (number + s.size) others hothers (by omega))
    intro m hm
    -- The numbers of the other sketches count from the end to the nodes that come first.
    have hrange := mem_numbers hm
    rw [Array.getElem?_push, if_neg (by omega), Array.getElem?_append_left (by omega)]

mutual

/-- Building from the visits to a sketch checks it, and puts its subtrees behind what was built
before. Both sides fail at the same draft, the last one that is unfit. -/
theorem build_visits (count number : Nat) (built : Array Node) : ∀ s : Sketch,
    number + s.size + built.size = count →
      (s.visits number).reverse.foldlM (buildOne count) built
        = s.check.map fun node => built ++ node.subtrees.reverse.toArray
  | .mk draft children => by
    intro hcount
    rw [size] at hcount
    rw [Sketch.visits, List.reverse_cons, List.foldlM_append,
      build_visitsAll count (number + 1) built children (by omega), bind_of_map, check, map_bind]
    cases hcheck : checkAll children with
    | error fault => rfl
    | ok nodes =>
      -- The last step looks the children up, which are all there now.
      rw [ok_bind, ok_bind, List.foldlM_cons]
      simp only [buildOne, List.foldlM_nil]
      cases draft.check with
      | error fault => rfl
      | ok layer =>
        rw [map_ok, ok_bind, ok_bind, pure_eq, pure_eq, map_ok,
          filterMap_numbers hcheck (by omega), Node.subtrees]
        simp

/-- The same for a list of sketches. -/
theorem build_visitsAll (count number : Nat) (built : Array Node) : ∀ ss : List Sketch,
    number + sizeAll ss + built.size = count →
      (visitsAll number ss).reverse.foldlM (buildOne count) built
        = (checkAll ss).map fun nodes => built ++ (Node.subtreesAll nodes).reverse.toArray
  | [] => by
    intro _
    rw [visitsAll, checkAll, map_ok, Node.subtreesAll]
    simp
  | s :: rest => by
    intro hcount
    rw [sizeAll] at hcount
    rw [visitsAll, List.reverse_append, List.foldlM_append,
      build_visitsAll count (number + s.size) built rest (by omega), bind_of_map, checkAll,
      map_bind]
    cases hcheck : checkAll rest with
    | error fault => rfl
    | ok others =>
      -- The nodes of the sketches behind it are what was built before the first sketch.
      have hsize := size_built hcheck built
      rw [ok_bind, ok_bind, map_bind,
        build_visits count number (built ++ (Node.subtreesAll others).reverse.toArray) s (by omega)]
      cases s.check with
      | error fault => rfl
      | ok node =>
        rw [map_ok, ok_bind, pure_eq, map_ok, Node.subtreesAll]
        simp

end

/-- The tree of the visits to a sketch is the checked sketch: it is the last node that is built,
since its visit was the first. -/
theorem node?_visits (s : Sketch) (stack : List Waiting) :
    node? ⟨(s.visits 0).toArray, stack⟩ = s.check.map some := by
  rw [node?, build, List.size_toArray, length_visits,
    build_visits s.size 0 #[] s (by simp), map_map]
  congr 1
  funext node
  obtain ⟨rest, hrest⟩ := node.subtrees_eq_cons
  simp [hrest]

/-- Without visits there is no tree. -/
theorem node?_empty (stack : List Waiting) : node? ⟨#[], stack⟩ = .ok none := rfl

end Walk

end DesignCompiler
