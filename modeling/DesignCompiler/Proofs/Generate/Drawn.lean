import DesignCompiler.Generate
import DesignCompiler.Proofs.Outcome
import DesignCompiler.Proofs.Render.Tree

/-!
# `DesignCompiler.Proofs.Generate.Drawn`: what generated code is made of

The main file holds the code of roots and calls of components, and each component has a file around
the code of a root (`Generated.drawn_of_ofNodes`). So what holds of the code of every tree, and of
calls, holds of the pieces of every file, whichever roots are extracted.
-/

set_option autoImplicit false

namespace DesignCompiler

open Outcome

namespace Forest

/-- A piece of the main file: the code of one of the trees, or the call of a component. It does not
say which tree the call stands for. -/
def IsPieceOf (platform : Platform) (nodes : List Node) (piece : Block) : Prop :=
  (∃ node ∈ nodes, node.render platform = .ok piece)
    ∨ ∃ name, piece = platform.target.reference (ComponentName.ofName name)

/-- The file of a component: it is around the code of one of the trees, and named after it. -/
def IsFileOf (platform : Platform) (nodes : List Node) (component : Component) : Prop :=
  ∃ node ∈ nodes, ∃ piece, node.render platform = .ok piece
    ∧ component
      = componentFile platform.target (ComponentName.ofName node.layer.name) piece

variable {platform : Platform}

/-- A piece of a file is one of a file with one more tree. -/
theorem IsPieceOf.cons {nodes : List Node} {piece : Block} (h : IsPieceOf platform nodes piece)
    (node : Node) : IsPieceOf platform (node :: nodes) piece :=
  h.imp_left fun ⟨drawn, hmem, hpiece⟩ => ⟨drawn, List.mem_cons_of_mem node hmem, hpiece⟩

/-- A component of some trees is one of these with one more. -/
theorem IsFileOf.cons {nodes : List Node} {component : Component}
    (h : IsFileOf platform nodes component) (node : Node) :
    IsFileOf platform (node :: nodes) component := by
  obtain ⟨drawn, hmem, hfile⟩ := h
  exact ⟨drawn, List.mem_cons_of_mem node hmem, hfile⟩

/-- The pieces of trees that are all in the main file. -/
theorem drawn_of_renderAll {nodes : List Node} {pieces : List Block}
    (h : Node.renderAll platform nodes = .ok pieces) :
    ∀ piece ∈ pieces, IsPieceOf platform nodes piece := by
  induction nodes generalizing pieces with
  | nil =>
    cases h
    simp
  | cons node rest ih =>
    rw [Node.renderAll] at h
    obtain ⟨piece, hpiece, h⟩ := bind_eq_ok.mp h
    obtain ⟨others, hothers, h⟩ := bind_eq_ok.mp h
    cases h
    exact List.forall_mem_cons.mpr ⟨.inl ⟨node, List.mem_cons_self, hpiece⟩,
      fun other hother => (ih hothers other hother).cons node⟩

/-- The pieces and the components of an extraction, whatever names were seen before. The induction
is on the roots, and the three cases are those of the definition. -/
theorem drawn_of_extract {seen : List Text} {nodes : List Node} {pieces : List Block}
    {components : List Component} (h : extract platform seen nodes = .ok (pieces, components)) :
    (∀ piece ∈ pieces, IsPieceOf platform nodes piece)
      ∧ ∀ component ∈ components, IsFileOf platform nodes component := by
  induction nodes generalizing seen pieces components with
  | nil =>
    cases h
    simp
  | cons node rest ih =>
    rw [extract] at h
    split at h
    · -- A root without children is drawn in its place.
      obtain ⟨piece, hpiece, h⟩ := bind_eq_ok.mp h
      obtain ⟨⟨others, files⟩, hothers, h⟩ := bind_eq_ok.mp h
      cases h
      obtain ⟨hpieces, hfiles⟩ := ih hothers
      exact ⟨List.forall_mem_cons.mpr ⟨.inl ⟨node, List.mem_cons_self, hpiece⟩,
        fun other hother => (hpieces other hother).cons node⟩,
        fun file hfile => (hfiles file hfile).cons node⟩
    · dsimp only at h
      split at h
      · -- A root whose name was seen is not drawn at all.
        obtain ⟨⟨others, files⟩, hothers, h⟩ := bind_eq_ok.mp h
        cases h
        obtain ⟨hpieces, hfiles⟩ := ih hothers
        exact ⟨List.forall_mem_cons.mpr ⟨.inr ⟨node.layer.name, rfl⟩,
          fun other hother => (hpieces other hother).cons node⟩,
          fun file hfile => (hfiles file hfile).cons node⟩
      · obtain ⟨piece, hpiece, h⟩ := bind_eq_ok.mp h
        obtain ⟨⟨others, files⟩, hothers, h⟩ := bind_eq_ok.mp h
        cases h
        obtain ⟨hpieces, hfiles⟩ := ih hothers
        exact ⟨List.forall_mem_cons.mpr ⟨.inr ⟨node.layer.name, rfl⟩,
          fun other hother => (hpieces other hother).cons node⟩,
          List.forall_mem_cons.mpr ⟨⟨node, List.mem_cons_self, piece, hpiece, rfl⟩,
            fun file hfile => (hfiles file hfile).cons node⟩⟩

end Forest

namespace Generated

/-- What the code of some trees is made of: the main file of pieces that are drawn trees or calls,
with the names of the components that it calls, and components that are files around drawn trees.
Only without trees is the main file the placeholder. -/
structure IsMadeOf (platform : Platform) (nodes : List Node) (generated : Generated) : Prop where
  isFor : generated.platform = platform
  main : (nodes = [] ∧ generated.code = Forest.placeholder)
    ∨ ∃ pieces, (∀ piece ∈ pieces, Forest.IsPieceOf platform nodes piece)
      ∧ generated.code = Forest.mainFile platform.target pieces
        ((generated.components.getD []).map Component.name)
  components : ∀ component ∈ generated.components.getD [],
    Forest.IsFileOf platform nodes component

/-- Generated code is made of drawn trees and calls. A statement about all code, such as that its
lines are unbroken, is proved for trees and for calls and follows for files by this. -/
theorem drawn_of_ofNodes {platform : Platform} {extracting : Bool} {nodes : List Node}
    {generated : Generated} (h : ofNodes platform extracting nodes = .ok generated) :
    generated.IsMadeOf platform nodes := by
  rw [ofNodes] at h
  -- With or without components, an empty forest has a file of its own.
  split at h
  · obtain ⟨⟨code, components⟩, hextracted, rfl⟩ := map_eq_ok.mp h
    rw [Forest.extracted] at hextracted
    split at hextracted
    · next hempty =>
      cases hextracted
      exact ⟨rfl, .inl ⟨List.isEmpty_iff.mp hempty, rfl⟩, by simp⟩
    · obtain ⟨⟨pieces, files⟩, hextract, hfile⟩ := map_eq_ok.mp hextracted
      cases hfile
      obtain ⟨hpieces, hfiles⟩ := Forest.drawn_of_extract hextract
      exact ⟨rfl, .inr ⟨pieces, hpieces, rfl⟩, hfiles⟩
  · obtain ⟨code, hinlined, rfl⟩ := map_eq_ok.mp h
    rw [Forest.inlined] at hinlined
    split at hinlined
    · next hempty =>
      cases hinlined
      exact ⟨rfl, .inl ⟨List.isEmpty_iff.mp hempty, rfl⟩, by simp⟩
    · obtain ⟨pieces, hpieces, rfl⟩ := map_eq_ok.mp hinlined
      exact ⟨rfl, .inr ⟨pieces, Forest.drawn_of_renderAll hpieces, rfl⟩, by simp⟩

end Generated

end DesignCompiler
