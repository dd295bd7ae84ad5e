import DesignCompiler.Drawing.Walk
import DesignCompiler.Proofs.Drawing.Pruning
import DesignCompiler.Proofs.Outcome

/-!
# `DesignCompiler.Proofs.Drawing.Sketch`: a drawing read by recursion

The walk of `DesignCompiler.Drawing.Walk` reads a drawing in two passes, with a stack and with
numbers that stand for layers. Here are the same two passes as plain recursions on trees:

* `Drawing.sketch` drafts each layer before the layers inside it, so the first fault in pre-order is
  the one that is reported;
* `Sketch.check` checks each draft after the layers inside it and after those behind it, so the last
  unfit draft in pre-order is the one that is reported.

`Drawing.translate` is the naive translation in one pass. It stops at a different fault, but where
it succeeds it gives the node that the two passes give: `translate_eq_ok`.
-/

set_option autoImplicit false

namespace DesignCompiler

open Outcome

/-- A layer with the layers inside it, read but not checked. It is what the first pass finds out,
without the numbers of the visits. -/
inductive Sketch
  | mk (draft : Draft) (children : List Sketch)

namespace Sketch

mutual

/-- How many layers a sketch has. -/
def size : Sketch → Nat
  | .mk _ children => sizeAll children + 1

/-- How many layers the sketches of a list have. -/
def sizeAll : List Sketch → Nat
  | [] => 0
  | sketch :: rest => size sketch + sizeAll rest

end

mutual

/-- The node of a sketch, the drafts checked from the last one to the first. The order decides which
of several unfit drafts is reported. -/
def check : Sketch → Except Fault Node
  | .mk draft children => do
    let nodes ← checkAll children
    let layer ← draft.check
    return .mk layer nodes

/-- The nodes of the sketches of a list, the last one checked first. -/
def checkAll : List Sketch → Except Fault (List Node)
  | [] => .ok []
  | sketch :: rest => do
    let nodes ← checkAll rest
    let node ← check sketch
    return node :: nodes

end

end Sketch

namespace Drawing

mutual

/-- The sketch of a drawing at a place, inside a layer with the given origin. A layer's own fields
are read before its children, and a broken layer is found only after its own fields. -/
def sketch (place : Place) (origin : Origin) : Drawing → Except Fault Sketch
  | .sound fields children => do
    let draft ← Draft.ofFields place origin fields
    let inner ← originAt fields place
    let sketches ← sketchAll place inner 0 children
    return .mk draft sketches
  | .broken fields obstacle => do
    let _ ← Draft.ofFields place origin fields
    let _ ← originAt fields place
    obstruct fields place obstacle

/-- The sketches of the children of the layer at a place, the first of which has the given
position. -/
def sketchAll (place : Place) (origin : Origin) (position : Nat) :
    List Drawing → Except Fault (List Sketch)
  | [] => .ok []
  | drawing :: rest => do
    let first ← sketch (place.child position) origin drawing
    let others ← sketchAll place origin (position + 1) rest
    return first :: others

end

/-- The layer that some fields describe at a place, inside a layer with the given origin. -/
def translateLayer (place : Place) (origin : Origin) (fields : Json.Fields) : Except Fault Layer :=
  Draft.ofFields place origin fields >>= Draft.check

mutual

/-- The naive translation of a drawing: the outermost layer from its own fields and the origin of
the layer around it, the children by recursion from the layer's own origin. -/
def translate (place : Place) (origin : Origin) : Drawing → Except Fault Node
  | .sound fields children => do
    let layer ← translateLayer place origin fields
    let inner ← originAt fields place
    let nodes ← translateAll place inner 0 children
    return .mk layer nodes
  | .broken fields obstacle => obstruct fields place obstacle

/-- The translations of the children of the layer at a place, the first of which has the given
position. -/
def translateAll (place : Place) (origin : Origin) (position : Nat) :
    List Drawing → Except Fault (List Node)
  | [] => .ok []
  | drawing :: rest => do
    let first ← translate (place.child position) origin drawing
    let others ← translateAll place origin (position + 1) rest
    return first :: others

end

/-- A layer whose children cannot be read gives no result. -/
theorem obstruct_ne_ok {α : Type} (fields : Json.Fields) (place : Place) (obstacle : Obstacle)
    (a : α) : obstruct fields place obstacle ≠ .ok a := by
  cases obstacle <;> simp [obstruct, malformed]

mutual

/-- The naive translation succeeds where both passes do, with the same node. Where it fails the two
may report another fault, so nothing is said of those. -/
theorem translate_eq_ok (place : Place) (origin : Origin) (node : Node) : ∀ drawing : Drawing,
    drawing.translate place origin = .ok node
      ↔ ∃ s, drawing.sketch place origin = .ok s ∧ s.check = .ok node
  | .sound fields children => by
    simp only [translate, sketch, translateLayer, bind_eq_ok, pure_eq, Except.ok.injEq]
    -- The same steps on both sides; only the check of the layer comes at another time.
    constructor
    · rintro ⟨layer, ⟨draft, hdraft, hlayer⟩, inner, hinner, nodes, hnodes, rfl⟩
      obtain ⟨ss, hss, hcheck⟩ := (translateAll_eq_ok place inner 0 nodes children).mp hnodes
      refine ⟨.mk draft ss, ⟨draft, hdraft, inner, hinner, ss, hss, rfl⟩, ?_⟩
      rw [Sketch.check, hcheck, ok_bind, hlayer, ok_bind, pure_eq]
    · rintro ⟨s, ⟨draft, hdraft, inner, hinner, ss, hss, rfl⟩, hnode⟩
      simp only [Sketch.check, bind_eq_ok, pure_eq, Except.ok.injEq] at hnode
      obtain ⟨nodes, hcheck, layer, hlayer, rfl⟩ := hnode
      exact ⟨layer, ⟨draft, hdraft, hlayer⟩, inner, hinner, nodes,
        (translateAll_eq_ok place inner 0 nodes children).mpr ⟨ss, hss, hcheck⟩, rfl⟩
  | .broken fields obstacle => by
    simp only [translate, sketch, bind_eq_ok]
    -- Neither side gives a result.
    constructor
    · intro h
      exact absurd h (obstruct_ne_ok fields place obstacle node)
    · rintro ⟨s, ⟨_, -, _, -, h⟩, -⟩
      exact absurd h (obstruct_ne_ok fields place obstacle s)

/-- The same for a list of drawings. -/
theorem translateAll_eq_ok (place : Place) (origin : Origin) (position : Nat) (nodes : List Node) :
    ∀ drawings : List Drawing, translateAll place origin position drawings = .ok nodes
      ↔ ∃ ss, sketchAll place origin position drawings = .ok ss ∧ Sketch.checkAll ss = .ok nodes
  | [] => by
    simp only [translateAll, sketchAll, Except.ok.injEq]
    constructor
    · rintro rfl
      exact ⟨[], rfl, by rw [Sketch.checkAll]⟩
    · rintro ⟨ss, rfl, h⟩
      rw [Sketch.checkAll, Except.ok.injEq] at h
      exact h
  | drawing :: rest => by
    simp only [translateAll, sketchAll, bind_eq_ok, pure_eq, Except.ok.injEq]
    -- Translating checks a drawing right after it is sketched, and the list of sketches is checked
    -- from its end. Where both go through, the order makes no difference.
    constructor
    · rintro ⟨first, hfirst, others, hothers, rfl⟩
      obtain ⟨s, hs, hcheck⟩ := (translate_eq_ok _ origin first drawing).mp hfirst
      obtain ⟨ss, hss, hchecks⟩ := (translateAll_eq_ok place origin _ others rest).mp hothers
      refine ⟨s :: ss, ⟨s, hs, ss, hss, rfl⟩, ?_⟩
      rw [Sketch.checkAll, hchecks, ok_bind, hcheck, ok_bind, pure_eq]
    · rintro ⟨_, ⟨s, hs, ss, hss, rfl⟩, h⟩
      simp only [Sketch.checkAll, bind_eq_ok, pure_eq, Except.ok.injEq] at h
      obtain ⟨others, hchecks, first, hcheck, rfl⟩ := h
      exact ⟨first, (translate_eq_ok _ origin first drawing).mpr ⟨s, hs, hcheck⟩, others,
        (translateAll_eq_ok place origin _ others rest).mpr ⟨ss, hss, hchecks⟩, rfl⟩

end

mutual

/-- A sketch has as many layers as the drawing. -/
theorem size_of_sketch (place : Place) (origin : Origin) (s : Sketch) : ∀ drawing : Drawing,
    drawing.sketch place origin = .ok s → s.size = drawing.size
  | .sound fields children => by
    intro h
    simp only [sketch, bind_eq_ok, pure_eq, Except.ok.injEq] at h
    obtain ⟨draft, -, inner, -, ss, hss, rfl⟩ := h
    rw [Sketch.size, size_sound, sizeAll_of_sketchAll place inner 0 ss children hss]
  | .broken fields obstacle => by
    intro h
    simp only [sketch, bind_eq_ok] at h
    obtain ⟨_, -, _, -, h⟩ := h
    exact absurd h (obstruct_ne_ok fields place obstacle s)

/-- The same for a list of drawings. -/
theorem sizeAll_of_sketchAll (place : Place) (origin : Origin) (position : Nat)
    (ss : List Sketch) : ∀ drawings : List Drawing,
    sketchAll place origin position drawings = .ok ss → Sketch.sizeAll ss = sizeAll drawings
  | [] => by
    intro h
    rw [sketchAll, Except.ok.injEq] at h
    subst h
    rw [Sketch.sizeAll, sizeAll_nil]
  | drawing :: rest => by
    intro h
    simp only [sketchAll, bind_eq_ok, pure_eq, Except.ok.injEq] at h
    obtain ⟨s, hs, others, hothers, rfl⟩ := h
    rw [Sketch.sizeAll, sizeAll_cons, size_of_sketch _ origin s drawing hs,
      sizeAll_of_sketchAll place origin _ others rest hothers]

end

end Drawing

end DesignCompiler
