import DesignCompiler.Proofs.Drawing.Agreement
import DesignCompiler.Proofs.Extraction.Translation
import DesignCompiler.Proofs.Layout.Preorder

/-!
# `DesignCompiler.Proofs.Extraction.Budget`: what lies beyond the limit

An extraction with a limit knows nothing about the layers beyond it. `ofFile_limit` says so in two
ways. An extraction that goes through goes through with every lower limit, and gives the front part
of the same tree. And two files whose layers look alike as far as the limit goes give the same
extraction, or the same fault, whatever else they hold.

The first comes from the naive translation: a translated drawing stays translated when it is pruned
(`Drawing.translate_pruned`). The second comes from the sketches, in which faults are kept.
-/

set_option autoImplicit false

namespace DesignCompiler

open Outcome

namespace Drawing

/-- A translation has as many layers as the drawing. It says how much of a budget a drawing has used
up before the next one. -/
theorem length_preorder_of_translate {place : Place} {origin : Origin} {drawing : Drawing}
    {node : Node} (h : drawing.translate place origin = .ok node) (depth : Nat) :
    (node.preorder depth).length = drawing.size := by
  rw [← (readFrom_preorder place origin depth node drawing h).length_eq, length_preorder]

mutual

/-- The pruned drawing is translated to the first layers of the translation. The budget does not
count the outermost layer, which is always kept. -/
theorem translate_pruned (place : Place) (origin : Origin) (depth budget : Nat) (node : Node) :
    ∀ drawing : Drawing, drawing.translate place origin = .ok node →
      ∃ first, (drawing.pruned budget).translate place origin = .ok first
        ∧ first.preorder depth = (node.preorder depth).take (budget + 1)
  | .sound fields children => by
    intro h
    simp only [translate, bind_eq_ok, pure_eq, Except.ok.injEq] at h
    obtain ⟨layer, hlayer, inner, hinner, nodes, hnodes, rfl⟩ := h
    obtain ⟨kept, hkept, hpreorder⟩ :=
      translateAll_prunedAll place inner 0 (depth + 1) budget nodes children hnodes
    refine ⟨.mk layer kept, ?_, ?_⟩
    · rw [pruned, translate, hlayer, ok_bind, hinner, ok_bind, hkept, ok_bind, pure_eq]
    · rw [Node.preorder, Node.preorder, List.take_succ_cons, hpreorder]
  | .broken fields obstacle => by
    intro h
    exact absurd h (obstruct_ne_ok fields place obstacle node)

/-- The same for a list of drawings. What the first one leaves of the budget goes to the others, and
a drawing that gets nothing is not kept at all. -/
theorem translateAll_prunedAll (place : Place) (origin : Origin) (position depth budget : Nat)
    (nodes : List Node) : ∀ drawings : List Drawing,
    translateAll place origin position drawings = .ok nodes →
      ∃ kept, translateAll place origin position (prunedAll budget drawings) = .ok kept
        ∧ Node.preorderAll depth kept = (Node.preorderAll depth nodes).take budget
  | [] => by
    intro h
    rw [translateAll, Except.ok.injEq] at h
    subst h
    exact ⟨[], by rw [prunedAll_nil, translateAll], by simp [Node.preorderAll]⟩
  | drawing :: rest => by
    intro h
    simp only [translateAll, bind_eq_ok, pure_eq, Except.ok.injEq] at h
    obtain ⟨node, hnode, others, hothers, rfl⟩ := h
    cases budget with
    | zero => exact ⟨[], by rw [prunedAll_zero, translateAll], by simp [Node.preorderAll]⟩
    | succ budget =>
      obtain ⟨first, hfirst, hpreorder⟩ :=
        translate_pruned (place.child position) origin depth budget node drawing hnode
      obtain ⟨kept, hkept, hothers⟩ := translateAll_prunedAll place origin (position + 1) depth
        (budget + 1 - drawing.size) others rest hothers
      refine ⟨first :: kept, ?_, ?_⟩
      · rw [prunedAll_succ_cons, translateAll, hfirst, ok_bind, hkept, ok_bind, pure_eq]
      · -- The first drawing takes its layers from the budget, and the others get the rest.
        rw [Node.preorderAll, Node.preorderAll, List.take_append, hpreorder, hothers,
          length_preorder_of_translate hnode]

end

end Drawing

namespace Extraction

/-- An extraction of a chosen layer goes through with every lower limit, and gives the first layers
of the tree. A lower limit cannot meet a fault that the higher one has not met. -/
theorem ofSelection_of_le {m n : Int} (hle : m ≤ n) {warnings : List Warning}
    {choice : Option Selection} {t : Extraction} (h : ofSelection n warnings choice = .ok t) :
    ∃ s, ofSelection m warnings choice = .ok s
      ∧ Node.preorderAll 0 s.roots = (Node.preorderAll 0 t.roots).take m.toNat := by
  cases choice with
  | none =>
    rw [ofSelection, Except.ok.injEq] at h
    subst h
    exact ⟨_, rfl, by simp [roots, Node.preorderAll]⟩
  | some selection =>
    rw [ofSelection_some] at h ⊢
    cases hm : m.toNat with
    | zero => exact ⟨_, rfl, by simp [roots, Node.preorderAll]⟩
    | succ less =>
      obtain ⟨more, hn⟩ := Nat.exists_eq_succ_of_ne_zero (by omega : n.toNat ≠ 0)
      rw [hn, Nat.succ_eq_add_one, Drawing.first?_succ] at h
      simp only [bind_eq_ok, pure_eq, Except.ok.injEq] at h
      obtain ⟨sketch, hsketch, node, hnode, rfl⟩ := h
      -- The naive translation goes through for the longer front part, so for the shorter one.
      have htranslate :
          (selection.drawing.pruned more).translate selection.place .zero = .ok node :=
        (Drawing.translate_eq_ok _ _ node _).mpr ⟨sketch, hsketch, hnode⟩
      obtain ⟨first, hfirst, hpreorder⟩ :=
        Drawing.translate_pruned selection.place .zero 0 less node _ htranslate
      -- Pruning the pruned drawing further is pruning the drawing.
      rw [Drawing.pruned_pruned (by omega)] at hfirst
      obtain ⟨short, hshort, hcheck⟩ := (Drawing.translate_eq_ok _ _ first _).mp hfirst
      rw [Drawing.first?_succ]
      dsimp only
      rw [hshort, ok_bind, hcheck, ok_bind, pure_eq]
      refine ⟨_, rfl, ?_⟩
      simpa [roots, Node.preorderAll] using hpreorder

/-- Files that agree as far as the limit goes have the same extraction, or none for the same fault.
Agreement is about the layers in pre-order and nothing behind them, so the sketches of the pruned
drawings are equal. -/
theorem ofFile_congr {a b : Json} {limit : Int} {ra rb : Drawing} (ha : Drawing.ofFile a = .ok ra)
    (hb : Drawing.ofFile b = .ok rb)
    (h : Drawing.AgreeFor limit.toNat (ra.preorder 0) (rb.preorder 0)) :
    ofFile a .null limit = ofFile b .null limit := by
  rw [ofFile, ofFile, ha, hb, ok_bind, ok_bind, ofDrawing_null, ofDrawing_null, ofSelection_some,
    ofSelection_some]
  cases hlimit : limit.toNat with
  | zero => rfl
  | succ budget =>
    rw [hlimit] at h
    obtain ⟨hsketch, hbehind⟩ := Drawing.sketch_pruned_congr Drawing.rootPlace .zero 0 budget [] []
      ra rb (Drawing.faithful_of_ofFile ha) (Drawing.faithful_of_ofFile hb) (by simpa using h)
    simp only [Drawing.first?_succ, hsketch, hbehind.lt_iff]
    rfl

/-- What lies beyond the limit does not matter. An extraction that goes through goes through with
every lower limit, and gives the one tree whose layers are the first layers of the former tree, at
their depths. And files that agree as far as the limit goes have the same extraction, or none for
the same fault. -/
theorem ofFile_limit :
    (∀ (file page : Json) (m n : Int) (t : Extraction), m ≤ n → ofFile file page n = .ok t →
      ∃ s, ofFile file page m = .ok s ∧ ∀ nodes, nodes = s.roots
        ↔ Node.preorderAll 0 nodes = (Node.preorderAll 0 t.roots).take m.toNat)
    ∧ ∀ (a b : Json) (limit : Int) (ra rb : Drawing), Drawing.ofFile a = .ok ra →
      Drawing.ofFile b = .ok rb →
        Drawing.AgreeFor limit.toNat (ra.preorder 0) (rb.preorder 0) →
          ofFile a .null limit = ofFile b .null limit := by
  constructor
  · intro file page m n t hle h
    simp only [ofFile, ofDrawing, bind_eq_ok] at h
    obtain ⟨root, hroot, ⟨choice, warnings⟩, hselect, h⟩ := h
    -- The page is selected before the limit is looked at, so both runs translate the same drawing.
    obtain ⟨s, hs, hpreorder⟩ := ofSelection_of_le hle h
    refine ⟨s, ?_, fun nodes => ⟨?_, ?_⟩⟩
    · rw [ofFile, hroot, ok_bind, ofDrawing, hselect, ok_bind]
      exact hs
    · rintro rfl
      exact hpreorder
    · intro hnodes
      -- Trees with the same preorder are the same trees.
      exact Node.preorderAll_injective 0 (hnodes.trans hpreorder.symm)
  · intro a b limit ra rb ha hb h
    exact ofFile_congr ha hb h

/-- The fields of a frame. -/
def frameFields : Json.Fields := [("type".toList, .text "FRAME".toList)]

/-- The fields of a document root with a frame and another layer behind it. -/
def spreadFields (last : Json.Fields) : Json.Fields :=
  [("id".toList, .text "0:0".toList),
   (childrenName, .list [.object frameFields, .object last])]

/-- The file with such a document root. -/
def spread (last : Json.Fields) : Json :=
  .object [("document".toList, .object (spreadFields last))]

/-- The layer behind the frame may be as broken as it likes, if the limit ends at the frame; with a
higher limit its fault is met. -/
theorem spread_limit :
    (∃ t s, ofFile (spread []) .null 3 = .ok t ∧ ofFile (spread []) .null 2 = .ok s
      ∧ Node.preorderAll 0 s.roots = (Node.preorderAll 0 t.roots).take 2)
    ∧ (ofFile (spread [(childrenName, .int 1)]) .null 3).isOk = false
    ∧ ofFile (spread []) .null 2 = ofFile (spread [(childrenName, .int 1)]) .null 2 := by
  obtain ⟨lower, agree⟩ := ofFile_limit
  refine ⟨?_, by decide +kernel, ?_⟩
  · have hok : (ofFile (spread []) .null 3).isOk = true := by decide +kernel
    cases ht : ofFile (spread []) .null 3 with
    | error fault =>
      rw [ht] at hok
      cases hok
    | ok t =>
      obtain ⟨s, hs, hroots⟩ := lower (spread []) .null 2 3 t (by decide) ht
      exact ⟨t, s, rfl, hs, (hroots s.roots).mp rfl⟩
  · -- The first two layers do not depend on what is last.
    have hlayers : ∀ last, ((Drawing.ofFields (spreadFields last)).preorder 0).take 2
        = [(0, spreadFields last), (1, frameFields)] := fun _ => rfl
    refine agree _ _ 2 (.ofFields (spreadFields [])) (.ofFields (spreadFields _)) rfl rfl ?_
    rw [Drawing.AgreeFor, show (2 : Int).toNat = 2 from rfl, hlayers, hlayers]
    refine .cons ⟨?_, rfl⟩ (.cons ⟨fun _ => rfl, rfl⟩ .nil)
    intro name hname
    simp [spreadFields, Json.field?, List.find?_cons, Ne.symm hname]

end Extraction

end DesignCompiler
