import Mathlib.Data.List.Forall2
import DesignCompiler.Proofs.Drawing.Faithful
import DesignCompiler.Proofs.Drawing.Sketch

/-!
# `DesignCompiler.Proofs.Drawing.Agreement`: drawings that agree on their first layers

Two layers look alike if they have the same fields apart from the children, and as many layers
inside, or children that cannot be read for the same reason (`LooksLike`). Nothing else of a layer
is ever looked at: the same draft comes out of both, the same origin, the same fault.

If the layers of two drawings look alike in pre-order as far as a budget goes, the pruned drawings
have the same sketch, or none for the same fault, and the budget cuts off layers of both or of
neither (`sketch_pruned_congr`). The numbers of children tell where in the tree the layers stand, so
it is enough to compare the two lists. In the induction other layers follow those of the drawings.
-/

set_option autoImplicit false

namespace DesignCompiler.Drawing

open Outcome

/-- Two layers that nobody can tell apart without going into their children. The children themselves
are left out, since they are compared one by one further down the list. -/
structure LooksLike (a b : Json.Fields) : Prop where
  field?_eq : ∀ {name : Text}, name ≠ childrenName → Json.field? a name = Json.field? b name
  /-- There are as many layers inside, or they cannot be read for the same reason. -/
  count_eq : (childrenIn a).map List.length = (childrenIn b).map List.length

namespace LooksLike

variable {a b : Json.Fields} {name : Text}

/-- The value of a field is the same, also where there is none. -/
theorem fieldOrNull_eq (h : LooksLike a b) (hname : name ≠ childrenName) :
    Json.fieldOrNull a name = Json.fieldOrNull b name := by
  rw [Json.fieldOrNull, Json.fieldOrNull, h.field?_eq hname]

/-- A fault tells the identifier of its layer, which is the same in both. -/
theorem malformed_eq (h : LooksLike a b) {α : Type} (place : Place) (problem : Malformation) :
    (malformed a place problem : Except Fault α) = malformed b place problem := by
  rw [malformed, malformed, h.fieldOrNull_eq (by decide)]

/-- So the same obstacle is the same fault. -/
theorem obstruct_eq (h : LooksLike a b) {α : Type} (place : Place) (obstacle : Obstacle) :
    (obstruct a place obstacle : Except Fault α) = obstruct b place obstacle := by
  cases obstacle <;> simp only [obstruct, h.malformed_eq]

/-- Numbers are read from single fields. -/
theorem numberAt_eq (h : LooksLike a b) (hname : name ≠ childrenName) :
    numberAt a name = numberAt b name := by
  rw [numberAt, numberAt, h.fieldOrNull_eq hname]

/-- So are the identifier, the type and the name. -/
theorem labelAt_eq (h : LooksLike a b) (hname : name ≠ childrenName) :
    labelAt a name = labelAt b name := by
  rw [labelAt, labelAt, h.fieldOrNull_eq hname]

/-- So are fields that may be missing. -/
theorem filledAt?_eq (h : LooksLike a b) (hname : name ≠ childrenName) :
    filledAt? a name = filledAt? b name := by
  rw [filledAt?, filledAt?, h.field?_eq hname]

/-- So are objects, and what is no object is the same fault. -/
theorem objectAt_eq (h : LooksLike a b) (place : Place) (hname : name ≠ childrenName) :
    objectAt a place name = objectAt b place name := by
  simp only [objectAt, h.fieldOrNull_eq hname, h.malformed_eq]

/-- The colour of a list of paints comes from the field with the list. -/
theorem paintColor_eq (h : LooksLike a b) (place : Place) (hname : name ≠ childrenName) :
    paintColor a place name = paintColor b place name := by
  simp only [paintColor, solidPaint?, h.fieldOrNull_eq hname, h.malformed_eq]

/-- The stroke around a layer comes from two fields. -/
theorem borderAt_eq (h : LooksLike a b) (place : Place) : borderAt a place = borderAt b place := by
  rw [borderAt, borderAt, strokeColor, strokeColor, h.paintColor_eq place (by decide),
    h.fieldOrNull_eq (by decide)]

/-- The content and style of a text come from its type, its characters, its style and its fills. -/
theorem writingAt_eq (h : LooksLike a b) (place : Place) :
    writingAt a place = writingAt b place := by
  have hcontent : content? a = content? b := by
    rw [content?, content?, h.fieldOrNull_eq (by decide), h.filledAt?_eq (by decide)]
  have hwriting : ∀ content style,
      writingOf a place content style = writingOf b place content style := by
    intro content style
    rw [writingOf, writingOf, fillColor, fillColor, h.paintColor_eq place (by decide)]
  simp only [writingAt, hcontent, hwriting, h.objectAt_eq place (by decide : "style".toList ≠ _)]

/-- The automatic layout comes from the layout mode, the padding and the spacing. -/
theorem flowAt_eq (h : LooksLike a b) : flowAt a = flowAt b := by
  have hsides : sidesAt a = sidesAt b := by
    simp only [sidesAt, h.numberAt_eq (by decide : "paddingTop".toList ≠ _),
      h.numberAt_eq (by decide : "paddingRight".toList ≠ _),
      h.numberAt_eq (by decide : "paddingBottom".toList ≠ _),
      h.numberAt_eq (by decide : "paddingLeft".toList ≠ _)]
  rw [flowAt, flowAt, h.field?_eq (by decide), hsides, h.numberAt_eq (by decide)]

/-- The same draft comes out of layers that look alike, or the same fault. Each part of a draft has
its lemma above, and none of them reads the children. -/
theorem draft_eq (h : LooksLike a b) (place : Place) (origin : Origin) :
    Draft.ofFields place origin a = Draft.ofFields place origin b := by
  have hbox : boxAt a place = boxAt b place := h.objectAt_eq place (by decide)
  have hfill : fillColor a place = fillColor b place := h.paintColor_eq place (by decide)
  have hlabel : ∀ label ∈ ["id".toList, "type".toList, "name".toList],
      labelAt a label = labelAt b label := by
    intro label hmem
    have hne : ∀ label ∈ ["id".toList, "type".toList, "name".toList], label ≠ childrenName := by
      decide
    exact h.labelAt_eq (hne label hmem)
  simp only [Draft.ofFields, hbox, hfill, h.borderAt_eq, h.writingAt_eq, h.flowAt_eq,
    hlabel "id".toList (by decide), hlabel "type".toList (by decide),
    hlabel "name".toList (by decide), h.filledAt?_eq (by decide : "cornerRadius".toList ≠ _)]

/-- Layers that look alike have the same origin. -/
theorem originAt_eq (h : LooksLike a b) (place : Place) : originAt a place = originAt b place := by
  rw [originAt, originAt, boxAt, boxAt, h.objectAt_eq place (by decide)]

end LooksLike

/-- The first layers of two lists look alike one by one, and one list ends there if the other does.
Their depths are left out: the numbers of children tell them. -/
def AgreeFor (count : Nat) (xs ys : List (Nat × Json.Fields)) : Prop :=
  List.Forall₂ (fun x y => LooksLike x.2 y.2) (xs.take count) (ys.take count)

/-- Of two drawings with these numbers of layers, a budget cuts off layers of both; or they have the
same number of layers, and what is left of the budget agrees behind them. -/
def AgreeBehind (budget m n : Nat) (xs ys : List (Nat × Json.Fields)) : Prop :=
  budget < m ∧ budget < n ∨ m = n ∧ AgreeFor (budget - m) xs ys

/-- The first layers of the lists, and the others. -/
theorem agreeFor_succ_cons {count : Nat} {x y : Nat × Json.Fields}
    {xs ys : List (Nat × Json.Fields)} :
    AgreeFor (count + 1) (x :: xs) (y :: ys) ↔ LooksLike x.2 y.2 ∧ AgreeFor count xs ys := by
  simp only [AgreeFor, List.take_succ_cons, List.forall₂_cons]

/-- Either way the budget cuts off layers of both drawings or of neither. -/
theorem AgreeBehind.lt_iff {budget m n : Nat} {xs ys : List (Nat × Json.Fields)}
    (h : AgreeBehind budget m n xs ys) : budget < m ↔ budget < n := by
  rcases h with ⟨hm, hn⟩ | ⟨rfl, -⟩
  · exact iff_of_true hm hn
  · exact .rfl

/-- The outermost layers of drawings that agree have as many layers inside, or the same obstacle.
Faithful drawings have the layers that their fields hold, so this can be told from the fields. -/
theorem AgreeFor.count_eq {depth budget : Nat} {xs ys : List (Nat × Json.Fields)} {d e : Drawing}
    (h : AgreeFor (budget + 1) (d.preorder depth ++ xs) (e.preorder depth ++ ys))
    (hd : d.Faithful) (he : e.Faithful) :
    d.children.map List.length = e.children.map List.length := by
  have hlike : LooksLike d.fields e.fields := by
    cases d <;> cases e <;>
      exact (agreeFor_succ_cons.mp (by simpa only [preorder, List.cons_append] using h)).1
  rw [← hd.childrenIn_fields, ← he.childrenIn_fields]
  exact hlike.count_eq

mutual

/-- Pruned drawings that agree as far as the budget goes have the same sketch, or none for the same
fault.

What follows the two drawings in the lists (`xs` and `ys`) is left open, and so is how far the
agreement reaches into it: `AgreeBehind` hands what is left of the budget on to the next drawings.
-/
theorem sketch_pruned_congr (place : Place) (origin : Origin) (depth budget : Nat)
    (xs ys : List (Nat × Json.Fields)) : ∀ d e : Drawing, d.Faithful → e.Faithful →
      AgreeFor (budget + 1) (d.preorder depth ++ xs) (e.preorder depth ++ ys) →
        (d.pruned budget).sketch place origin = (e.pruned budget).sketch place origin
          ∧ AgreeBehind (budget + 1) d.size e.size xs ys
  | .sound f cs, .sound g es => by
    intro hd he hagree
    -- The layers in front agree, so they have as many children, which may differ behind the budget.
    have hcount := Except.ok.inj (hagree.count_eq hd he)
    rw [preorder, preorder, List.cons_append, List.cons_append, agreeFor_succ_cons] at hagree
    obtain ⟨hlike, hinside⟩ := hagree
    have hrest := fun inner =>
      sketchAll_prunedAll_congr place inner 0 (depth + 1) budget xs ys cs es hcount
        (faithful_sound.mp hd).2 (faithful_sound.mp he).2 hinside
    constructor
    · simp only [pruned, sketch, hlike.draft_eq, hlike.originAt_eq, fun inner => (hrest inner).1]
    · rw [size_sound, size_sound]
      -- Either the budget ends inside both trees, or they are of one size and it goes on behind
      -- them.
      rcases (hrest origin).2 with ⟨hm, hn⟩ | ⟨hsize, hleft⟩
      · exact .inl ⟨by omega, by omega⟩
      · exact .inr ⟨by omega, by rwa [Nat.add_sub_add_right]⟩
  | .broken f obstacle, .broken g other => by
    intro hd he hagree
    have hobstacle : obstacle = other := Except.error.inj (hagree.count_eq hd he)
    subst hobstacle
    rw [preorder, preorder, List.cons_append, List.cons_append, agreeFor_succ_cons] at hagree
    obtain ⟨hlike, hleft⟩ := hagree
    constructor
    · simp only [pruned, sketch, hlike.draft_eq, hlike.originAt_eq, hlike.obstruct_eq]
    · rw [size_broken, size_broken]
      exact .inr ⟨rfl, hleft⟩
  | .sound f cs, .broken g obstacle => by
    -- A layer whose children can be read does not agree with one whose children cannot.
    intro hd he hagree
    cases hagree.count_eq hd he
  | .broken f obstacle, .sound g es => by
    intro hd he hagree
    cases hagree.count_eq hd he

/-- The same for as many drawings in two lists. -/
theorem sketchAll_prunedAll_congr (place : Place) (origin : Origin) (position depth budget : Nat)
    (xs ys : List (Nat × Json.Fields)) : ∀ ds es : List Drawing, ds.length = es.length →
      FaithfulAll ds → FaithfulAll es →
        AgreeFor budget (preorderAll depth ds ++ xs) (preorderAll depth es ++ ys) →
          sketchAll place origin position (prunedAll budget ds)
              = sketchAll place origin position (prunedAll budget es)
            ∧ AgreeBehind budget (sizeAll ds) (sizeAll es) xs ys
  | [], [] => by
    intro _ _ _ hagree
    exact ⟨rfl, .inr ⟨rfl, hagree⟩⟩
  | d :: ds, e :: es => by
    intro hlength hds hes hagree
    cases budget with
    | zero =>
      have hd := d.size_pos
      have he := e.size_pos
      rw [prunedAll_zero, prunedAll_zero, sizeAll_cons, sizeAll_cons]
      exact ⟨rfl, .inl ⟨by omega, by omega⟩⟩
    | succ budget =>
      rw [faithfulAll_cons] at hds hes
      rw [preorderAll, preorderAll, List.append_assoc, List.append_assoc] at hagree
      -- Behind the first drawings come the others, and then what comes behind all of them.
      obtain ⟨hfirst, hbehind⟩ := sketch_pruned_congr (place.child position) origin depth budget
        _ _ d e hds.1 hes.1 hagree
      rw [prunedAll_succ_cons, prunedAll_succ_cons, sketchAll, sketchAll, hfirst, sizeAll_cons,
        sizeAll_cons]
      rcases hbehind with ⟨hd, he⟩ | ⟨hsize, hleft⟩
      · -- The budget ends inside the first drawings.
        have hnone : budget + 1 - d.size = 0 ∧ budget + 1 - e.size = 0 := by omega
        rw [hnone.1, hnone.2, prunedAll_zero, prunedAll_zero]
        exact ⟨rfl, .inl ⟨by omega, by omega⟩⟩
      · obtain ⟨hothers, hend⟩ := sketchAll_prunedAll_congr place origin (position + 1) depth _
          xs ys ds es (Nat.succ.inj hlength) hds.2 hes.2 hleft
        rw [← hsize, hothers]
        refine ⟨rfl, ?_⟩
        rcases hend with ⟨hm, hn⟩ | ⟨hsizes, hleft⟩
        · exact .inl ⟨by omega, by omega⟩
        · exact .inr ⟨by omega, by rwa [Nat.sub_sub] at hleft⟩
  | [], _ :: _ => nofun
  | _ :: _, [] => nofun

end

end DesignCompiler.Drawing
