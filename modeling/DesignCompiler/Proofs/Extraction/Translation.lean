import Mathlib.Data.List.Forall2
import DesignCompiler.Extraction
import DesignCompiler.Proofs.Drawing.Build

/-!
# `DesignCompiler.Proofs.Extraction.Translation`: an extraction is a translation of the first layers

An extraction walks over a chosen layer with a stack and a budget and builds the tree afterwards.
`ofSelection_some` puts the recursive reading in its place, faults included: prune the chosen layer
to the first layers in pre-order, sketch what is left, check the sketch.

`Extraction.IsTranslation` says what follows for an extraction that goes through, and
`ofFile_isTranslation` that it holds for every file, page and limit. Its parts look at the result
from two sides. The tree is the naive translation of the pruned drawing, which fixes every field of
every node. And the list of its layers matches the first part of the list of the drawing's layers
depth by depth, which shows that pruning has kept the right ones. A negative limit is one of zero.
-/

set_option autoImplicit false

namespace DesignCompiler

open Outcome

namespace Drawing

/-- A layer of a tree that was read from fields at the same depth of a drawing. The origin is left
open, since it is that of the layer around and not of the fields. -/
def ReadFrom (source : Nat × Json.Fields) (found : Nat × Layer) : Prop :=
  source.1 = found.1 ∧ ∃ place origin, translateLayer place origin source.2 = .ok found.2

mutual

/-- The layers of a translation are read from those of the drawing, in order and depth by depth. The
induction is on the drawing and on the list of its children; a broken one is not translated. -/
theorem readFrom_preorder (place : Place) (origin : Origin) (depth : Nat) (node : Node) :
    ∀ drawing : Drawing, drawing.translate place origin = .ok node →
      List.Forall₂ ReadFrom (drawing.preorder depth) (node.preorder depth)
  | .sound fields children => by
    intro h
    simp only [translate, bind_eq_ok, pure_eq, Except.ok.injEq] at h
    obtain ⟨layer, hlayer, inner, -, nodes, hnodes, rfl⟩ := h
    rw [preorder, Node.preorder]
    exact .cons ⟨rfl, place, origin, hlayer⟩
      (readFrom_preorderAll place inner 0 (depth + 1) nodes children hnodes)
  | .broken fields obstacle => by
    intro h
    exact absurd h (obstruct_ne_ok fields place obstacle node)

/-- The same for a list of drawings. -/
theorem readFrom_preorderAll (place : Place) (origin : Origin) (position depth : Nat)
    (nodes : List Node) : ∀ drawings : List Drawing,
    translateAll place origin position drawings = .ok nodes →
      List.Forall₂ ReadFrom (preorderAll depth drawings) (Node.preorderAll depth nodes)
  | [] => by
    intro h
    rw [translateAll, Except.ok.injEq] at h
    subst h
    rw [preorderAll, Node.preorderAll]
    exact .nil
  | drawing :: rest => by
    intro h
    simp only [translateAll, bind_eq_ok, pure_eq, Except.ok.injEq] at h
    obtain ⟨node, hnode, others, hothers, rfl⟩ := h
    rw [preorderAll, Node.preorderAll]
    exact List.rel_append (readFrom_preorder _ origin depth node drawing hnode)
      (readFrom_preorderAll place origin _ depth others rest hothers)

end

end Drawing

/-- The layers of what was chosen, with their depths, in pre-order, and no layers if nothing was. -/
def Selection.layers (choice : Option Selection) : List (Nat × Json.Fields) :=
  choice.elim [] fun selection => selection.drawing.preorder 0

namespace Extraction

/-- The extraction of a chosen layer by recursion. It is an equation and not only an implication, so
faults are told by the recursive form as well, in the same order. -/
theorem ofSelection_some (limit : Int) (warnings : List Warning) (selection : Selection) :
    ofSelection limit warnings (some selection)
      = match selection.drawing.first? limit.toNat with
        | none => .ok ⟨none, 0, true, warnings ++ [.cut limit],
            if selection.isPage then some selection.drawing.pageId else none⟩
        | some pruned => do
          let s ← pruned.sketch selection.place .zero
          let node ← s.check
          return {
            root := some node
            count := s.size
            isCut := decide (limit.toNat < selection.drawing.size)
            warnings := warnings
              ++ if limit.toNat < selection.drawing.size then [.cut limit] else []
            page := if selection.isPage then some selection.drawing.pageId else none } := by
  have hrun := Walk.run_start limit.toNat selection.drawing selection.place
  rw [ofSelection]
  cases hwalk : Walk.run limit.toNat (Walk.start selection.drawing selection.place) with
  | error fault =>
    -- The sketch of the pruned drawing has failed with the same fault.
    rw [hwalk, map_error] at hrun
    cases hfirst : selection.drawing.first? limit.toNat with
    | none => simp [hfirst] at hrun
    | some pruned =>
      simp only [hfirst] at hrun ⊢
      cases hs : pruned.sketch selection.place .zero with
      | error other =>
        rw [hs, map_error, Except.error.injEq] at hrun
        rw [hrun, error_bind, error_bind]
      | ok s => simp [hs] at hrun
  | ok walk =>
    obtain ⟨visits, stack⟩ := walk
    rw [hwalk, map_ok, Walk.report] at hrun
    cases hfirst : selection.drawing.first? limit.toNat with
    | none =>
      -- Nothing may be visited, so there is no node to build.
      simp only [hfirst, Except.ok.injEq, Prod.mk.injEq] at hrun ⊢
      obtain ⟨rfl, hcut⟩ := hrun
      rw [ok_bind, Walk.node?_empty, ok_bind, pure_eq, hcut]
      simp
    | some pruned =>
      simp only [hfirst] at hrun ⊢
      cases hs : pruned.sketch selection.place .zero with
      | error fault => simp [hs] at hrun
      | ok s =>
        rw [hs, map_ok, Except.ok.injEq, Prod.mk.injEq] at hrun
        obtain ⟨rfl, hcut⟩ := hrun
        -- The tree of these visits is the checked sketch.
        rw [ok_bind, ok_bind, Walk.node?_visits, bind_of_map]
        congr 1
        funext node
        rw [hcut]
        simp [Sketch.length_visits]

/-- Without a page it is the document root that is extracted. -/
theorem ofDrawing_null (root : Drawing) (limit : Int) :
    ofDrawing root .null limit = ofSelection limit [] (some ⟨root, Drawing.rootPlace, false⟩) := rfl

/-- What it means that an extraction is the translation of the first layers of what was chosen. The
first clause fixes the tree; the others say what can be read off it without knowing how it was made.
-/
structure IsTranslation (limit : Int) (choice : Option Selection) (t : Extraction) : Prop where
  /-- The tree is the naive translation of the pruned drawing. -/
  root_eq : t.root.map Except.ok
    = choice.bind fun selection => (selection.drawing.first? limit.toNat).map fun pruned =>
        pruned.translate selection.place .zero
  /-- The layers are those that come first, at the depths where they were. -/
  layers_eq : List.Forall₂ Drawing.ReadFrom ((Selection.layers choice).take limit.toNat)
    (Node.preorderAll 0 t.roots)
  count_eq_length : t.count = (Node.preorderAll 0 t.roots).length
  count_eq_min : t.count = min (Selection.layers choice).length limit.toNat
  isCut_iff : t.isCut = true ↔ limit.toNat < (Selection.layers choice).length
  roots_eq_nil_iff : t.roots = [] ↔ t.count = 0

/-- Without a choice there is nothing to translate, and the count and the cut say so. -/
theorem isTranslation_none (limit : Int) (warnings : List Warning) (page : Option Text) :
    IsTranslation limit none ⟨none, 0, false, warnings, page⟩ where
  root_eq := rfl
  layers_eq := by simp [Selection.layers, roots, Node.preorderAll]
  count_eq_length := by simp [roots, Node.preorderAll]
  count_eq_min := by simp [Selection.layers]
  isCut_iff := by simp [Selection.layers]
  roots_eq_nil_iff := by simp [roots]

/-- The extraction of a chosen layer is a translation of its first layers. With a limit of zero
there is no tree, so that case is proved apart. -/
theorem isTranslation_some {limit : Int} {warnings : List Warning} {selection : Selection}
    {t : Extraction} (h : ofSelection limit warnings (some selection) = .ok t) :
    t.IsTranslation limit (some selection) := by
  have hpos := selection.drawing.size_pos
  have hlength : (Selection.layers (some selection)).length = selection.drawing.size :=
    Drawing.length_preorder 0 selection.drawing
  rw [ofSelection_some] at h
  cases hlimit : limit.toNat with
  -- Nothing is visited, so every clause is about the empty list.
  | zero =>
    rw [hlimit] at h
    rw [show selection.drawing.first? 0 = none from rfl, Except.ok.injEq] at h
    subst h
    refine ⟨?_, ?_, ?_, ?_, ?_, ?_⟩
    · simp [hlimit, Drawing.first?]
    · simp [hlimit, roots, Node.preorderAll]
    · simp [roots, Node.preorderAll]
    · simp [hlimit]
    · simp [hlimit, hlength, hpos]
    · simp [roots]
  | succ budget =>
    rw [hlimit, Drawing.first?_succ] at h
    simp only [bind_eq_ok, pure_eq, Except.ok.injEq] at h
    obtain ⟨s, hs, node, hnode, rfl⟩ := h
    -- Two passes have succeeded, so the naive translation does, with the same node.
    have htranslate :
        (selection.drawing.pruned budget).translate selection.place .zero = .ok node :=
      (Drawing.translate_eq_ok _ _ node _).mpr ⟨s, hs, hnode⟩
    have hsize : s.size = min selection.drawing.size (budget + 1) := by
      rw [Drawing.size_of_sketch _ _ s _ hs, Drawing.size_pruned]
    have hpreorder : Node.preorderAll 0 [node] = node.preorder 0 := by
      rw [Node.preorderAll, Node.preorderAll, List.append_nil]
    have hnodes : (node.preorder 0).length = s.size := by
      rw [← Node.length_subtrees, Sketch.length_subtrees_of_check node s hnode]
    refine ⟨?_, ?_, ?_, ?_, ?_, ?_⟩
    · simp [hlimit, Drawing.first?_succ, htranslate]
    · show List.Forall₂ _ _ (Node.preorderAll 0 [node])
      rw [hpreorder, hlimit, Selection.layers, Option.elim_some, ← Drawing.preorder_pruned]
      exact Drawing.readFrom_preorder _ _ 0 node _ htranslate
    · show s.size = (Node.preorderAll 0 [node]).length
      rw [hpreorder, hnodes]
    · rw [hlimit, hlength, hsize]
    · rw [hlimit, hlength, decide_eq_true_iff]
    · have hcount : s.size ≠ 0 := by omega
      simp [roots, hcount]

/-- Every extraction from a file is the translation of the first layers of what was chosen, as many
as the limit allows. Nothing is asked of the file but that the extraction goes through. -/
theorem ofFile_isTranslation {file page : Json} {limit : Int} {t : Extraction}
    (h : ofFile file page limit = .ok t) :
    ∃ root choice warnings, Drawing.ofFile file = .ok root
      ∧ root.select page = .ok (choice, warnings) ∧ t.IsTranslation limit choice := by
  simp only [ofFile, ofDrawing, bind_eq_ok] at h
  obtain ⟨root, hroot, ⟨choice, warnings⟩, hselect, h⟩ := h
  refine ⟨root, choice, warnings, hroot, hselect, ?_⟩
  cases choice with
  | none =>
    rw [ofSelection, Except.ok.injEq] at h
    subst h
    exact isTranslation_none limit warnings none
  | some selection => exact isTranslation_some h

/-- A file with two pages, of which the second holds a frame around two texts, and a shape behind
it. -/
def twoPages : Json :=
  let layer (id type : String) (x : Int) (children : List Json) : Json :=
    .object [("id".toList, .text id.toList), ("type".toList, .text type.toList),
      ("absoluteBoundingBox".toList, .object [("x".toList, .int x)]),
      ("children".toList, .list children)]
  .object [("document".toList, layer "0:0" "DOCUMENT" 0
    [layer "1:0" "CANVAS" 0 [],
     layer "2:0" "CANVAS" 5
      [layer "2:1" "FRAME" 20 [layer "2:2" "TEXT" 25 [], layer "2:3" "TEXT" 30 []],
       layer "2:4" "RECTANGLE" 40 []]])]

/-- The second page cut in the middle of the frame: the page, the frame and the first text. -/
theorem twoPages_isTranslation : ∃ t, ofFile twoPages (.text "2-0".toList) 3 = .ok t
    ∧ ∃ root choice warnings, Drawing.ofFile twoPages = .ok root
      ∧ root.select (.text "2-0".toList) = .ok (choice, warnings) ∧ t.IsTranslation 3 choice := by
  have hok : (ofFile twoPages (.text "2-0".toList) 3).isOk = true := by decide +kernel
  cases h : ofFile twoPages (.text "2-0".toList) 3 with
  | error fault => rw [h] at hok; cases hok
  | ok t => exact ⟨t, rfl, ofFile_isTranslation h⟩

end Extraction

end DesignCompiler
