import DesignCompiler.Proofs.Drawing.Places
import DesignCompiler.Proofs.Drawing.Sketch
import DesignCompiler.Proofs.Drawing.WellTyped

/-!
# `DesignCompiler.Proofs.Drawing.Reading`: reading reports the flaws of the layers

Nothing but its flaws can go wrong with a well-typed layer. A draft of it reports the flaws of the
layer's own fields and is fit for a layout tree otherwise (`Draft.reports_ofFields`). Then the
children are looked at (`Drawing.reports_visitChildren`).

By induction over a drawing the sketch of its first layers reports the flaws of these, one layer
after the other (`Drawing.reports_sketch_pruned`). The fills and the box of a layer are read twice,
the second time without a flaw.
-/

set_option autoImplicit false

namespace DesignCompiler

open Outcome Schema

namespace Drawing

section

variable {fields : Json.Fields} {place : Place} {name : Text}

/-- An object that may be missing. What is read in the end are the fields inside, none if there is
no object. -/
theorem reports_objectAt (fields : Json.Fields) (place : Place) (name : Text) :
    Reports (objectFlaws fields place name)
      (fun inside => inside = (Json.fieldOrNull fields name).inside)
      (objectAt fields place name) := by
  rw [objectFlaws, objectAt]
  cases Json.fieldOrNull fields name with
  | null | object inside => exact .ok rfl
  | bool | int | double | text | list => exact .error _ [] _

/-- The box of a well-typed layer has an origin, whose coordinates are numbers of a bounded size. -/
theorem reports_originAt (htyped : WellTyped fields) (place : Place) :
    Reports (objectFlaws fields place "absoluteBoundingBox".toList)
      (fun origin => origin.x.IsMeasure ∧ origin.y.IsMeasure) (originAt fields place) := by
  refine (reports_objectAt fields place _).map ?_
  rintro box rfl
  exact ⟨isMeasure_numberAt (htyped.box "x".toList (by decide)),
    isMeasure_numberAt (htyped.box "y".toList (by decide))⟩

/-- The box of a layer without flaws of its own can be read once more. -/
theorem reports_originAt_again (htyped : WellTyped fields) (hown : ownFlaws fields place = []) :
    Reports [] (fun origin => origin.x.IsMeasure ∧ origin.y.IsMeasure) (originAt fields place) := by
  have hbox := reports_originAt htyped place
  rwa [(List.append_eq_nil_iff.mp hown).1] at hbox

/-- A colour of a well-typed layer can be written, if it is an object. -/
theorem reports_paintColor (htyped : WellTyped fields) (place : Place) (hname : name ∈ paintNames) :
    Reports (colorFlaws fields place name) (fun _ => True) (paintColor fields place name) := by
  have hpaint := htyped.paints name hname
  rw [colorFlaws, paintColor]
  cases hsolid : solidPaint? fields name with
  | none => exact .ok trivial
  | some paint =>
    have hchannels := hpaint paint hsolid
    dsimp only
    cases hcolor : Json.fieldOrNull paint "color".toList with
    | null | object =>
      rw [hcolor] at hchannels
      obtain ⟨t, ht⟩ := hchannels.exists_encodeFields
      exact ⟨some t, congrArg (Except.map some) ht, trivial⟩
    | bool | int | double | text | list => exact .error _ [] _

/-- The stroke around a well-typed layer. -/
theorem reports_borderAt (htyped : WellTyped fields) (place : Place) :
    Reports (colorFlaws fields place "strokes".toList)
      (fun border? => ∀ border ∈ border?, IsNumber border.width) (borderAt fields place) := by
  refine (reports_paintColor htyped place (by decide)).map ?_
  intro color? _ border hborder
  obtain ⟨color, -, rfl⟩ := Option.map_eq_some_iff.mp hborder
  exact ((htyped.measures "strokeWeight".toList (by decide)).orIfBlank (by decide)).isNumber

/-- The content of a well-typed text is a text. -/
theorem exists_text_of_content? (htyped : WellTyped fields) {content : Json}
    (h : content? fields = some content) : ∃ t, content = .text t := by
  rw [content?] at h
  split at h
  · obtain ⟨hfield, hfilled⟩ := Option.filter_eq_some_iff.mp h
    have hkind := htyped.content
    rw [Json.fieldOrNull, hfield, Option.getD_some] at hkind
    cases content with
    | text t => exact ⟨t, rfl⟩
    | null => cases hfilled
    | bool | int | double | list | object => simp [Json.kind] at hkind
  · cases h

/-- A value that is there is the one under the name, and no null. -/
theorem of_mem_presentAt? {value : Json} (h : value ∈ presentAt? fields name) :
    Json.fieldOrNull fields name = value ∧ value.kind ≠ .null := by
  unfold presentAt? at h
  split at h
  · cases h
  · next hnull =>
    cases h
    refine ⟨rfl, ?_⟩
    cases hvalue : Json.fieldOrNull fields name with
    | null => exact absurd hvalue hnull
    | bool | int | double | text | list | object => exact nofun

/-- The style of a well-typed text whose fills have no flaws. The fills were read before, for the
background, so their flaws are not to be told again. -/
theorem reports_writingOf (htyped : WellTyped fields)
    (hfills : colorFlaws fields place "fills".toList = []) (t : Text) :
    Reports [] Writing.IsFit (writingOf fields place (.text t)
      (Json.fieldOrNull fields "style".toList).inside) := by
  rw [writingOf]
  split
  · exact .ok ⟨⟨t, rfl⟩, (fun _ h => by cases h), (fun _ h => by cases h)⟩
  · -- The colour of the text is that of the fills, which were read for the background before.
    have hfill := reports_paintColor htyped place (by decide : "fills".toList ∈ paintNames)
    rw [hfills] at hfill
    refine hfill.map ?_
    intro color _
    refine ⟨⟨t, rfl⟩, ?_, ?_⟩
    · intro value hvalue
      obtain ⟨rfl, hnull⟩ := of_mem_presentAt? hvalue
      exact (htyped.size.resolve_left hnull).isNumber
    · intro value hvalue
      obtain ⟨rfl, hnull⟩ := of_mem_presentAt? hvalue
      have hkind := htyped.weight
      cases hweight : Json.fieldOrNull (Json.fieldOrNull fields "style".toList).inside
          "fontWeight".toList with
      | null => rw [hweight] at hnull; exact absurd rfl hnull
      | int | double | text => exact ⟨_, rfl⟩
      | bool | list | object => rw [hweight] at hkind; simp [Json.kind] at hkind

/-- The content and style of a well-typed text whose fills have no flaws. -/
theorem reports_writingAt (htyped : WellTyped fields)
    (hfills : colorFlaws fields place "fills".toList = []) :
    Reports (styleFlaws fields place) (fun writing? => ∀ writing ∈ writing?, writing.IsFit)
      (writingAt fields place) := by
  rw [writingAt, styleFlaws]
  cases hcontent : content? fields with
  | none => exact .ok fun _ h => by cases h
  | some content =>
    obtain ⟨t, rfl⟩ := exists_text_of_content? htyped hcontent
    refine (reports_objectAt fields place "style".toList).bind_clean ?_
    rintro - style rfl
    refine (reports_writingOf htyped hfills t).bind_clean ?_
    intro _ writing hwriting
    refine .ok ?_
    intro other hother
    cases hother
    exact hwriting

/-- The automatic layout of a well-typed layer. -/
theorem reports_flowAt (htyped : WellTyped fields) :
    Reports [] (fun flow? => ∀ flow ∈ flow?, IsNumber flow.spacing) (flowAt fields) := by
  rw [flowAt]
  cases Json.field? fields "layoutMode".toList with
  | none => exact .ok fun _ hflow => by cases hflow
  | some mode =>
    obtain ⟨padding, hpadding⟩ := htyped.exists_padding
    dsimp only
    rw [hpadding, map_ok]
    refine .ok ?_
    intro flow hflow
    cases hflow
    exact (isMeasure_numberAt (htyped.measures "itemSpacing".toList (by decide))).isNumber

end

end Drawing

/-- A draft of a well-typed layer reports the flaws of its own fields, and is fit otherwise. The
steps of the proof are those of `Draft.ofFields`, each with its part of `ownFlaws`. -/
theorem Draft.reports_ofFields {fields : Json.Fields} (htyped : Drawing.WellTyped fields)
    (place : Place) {origin : Origin} (horigin : origin.x.IsMeasure ∧ origin.y.IsMeasure) :
    Reports (Drawing.ownFlaws fields place) IsFit (ofFields place origin fields) := by
  have hnumber : ∀ name ∈ Drawing.boxNames, (Drawing.numberAt
      (Json.fieldOrNull fields "absoluteBoundingBox".toList).inside name).IsMeasure :=
    fun name hname => Drawing.isMeasure_numberAt (htyped.box name hname)
  obtain ⟨x, hx, hxnumber⟩ := (hnumber "x".toList (by decide)).exists_sub horigin.1
  obtain ⟨y, hy, hynumber⟩ := (hnumber "y".toList (by decide)).exists_sub horigin.2
  -- From here on the steps are those of reading a layer, in their order, each with the flaws that
  -- it looks at.
  refine (Drawing.reports_objectAt fields place _).bind ?_
  rintro - box rfl
  simp only [Drawing.boxOrigin, hx, hy, ok_bind]
  refine (Drawing.reports_paintColor htyped place (by decide)).bind ?_
  intro hfills background _
  refine (Drawing.reports_borderAt htyped place).bind ?_
  intro _ border hborder
  -- Behind the text there is nothing left to report, as the measures are well typed.
  refine (Drawing.reports_writingAt htyped hfills).bind_clean ?_
  intro _ writing hwriting
  refine (Drawing.reports_flowAt htyped).bind_clean ?_
  intro _ flow hflow
  refine .ok
    { x := hxnumber
      y := hynumber
      width := (hnumber "width".toList (by decide)).isNumber
      height := (hnumber "height".toList (by decide)).isNumber
      border := hborder
      radius := ?_
      writing := hwriting
      flow := hflow }
  intro value hvalue
  obtain ⟨hfield, hfilled⟩ := Option.filter_eq_some_iff.mp hvalue
  have hmeasure := htyped.measures "cornerRadius".toList (by decide)
  rw [Json.fieldOrNull, hfield, Option.getD_some] at hmeasure
  exact (hmeasure.of_filled (by simpa using hfilled)).isNumber

namespace Drawing

/-! ### Children -/

/-- Items that can be read as layers have no flaws. -/
theorem itemFlaws_eq_nil {position : Nat} {items : List Json} {children : List Drawing}
    (h : childrenFrom position items = .ok children) (fields : Json.Fields) (place : Place) :
    itemFlaws fields place position items = [] := by
  refine Classical.byContradiction fun hflaws => ?_
  obtain ⟨item, hitem, hkind⟩ := itemFlaws_ne_nil_iff.mp hflaws
  rw [eq_map_object_of_childrenFrom h] at hitem
  obtain ⟨child, -, rfl⟩ := List.mem_map.mp hitem
  exact hkind rfl

/-- The obstacle among some items is their first flaw. A list with several is obstructed once. -/
theorem reports_obstruct_items {α : Type} {position : Nat} {items : List Json} {obstacle : Obstacle}
    (h : childrenFrom position items = .error obstacle) (fields : Json.Fields) (place : Place)
    (P : α → Prop) :
    Reports (itemFlaws fields place position items) P (obstruct fields place obstacle) := by
  induction items generalizing position with
  | nil => cases h
  | cons item rest ih =>
    cases item with
    -- An object goes through, so the obstacle is behind it; anything else is the obstacle.
    | object inside =>
      simp only [itemFlaws, Json.kind, if_true, List.nil_append]
      rw [childrenFrom] at h
      cases hrest : childrenFrom (position + 1) rest with
      | ok others =>
        rw [hrest] at h
        cases h
      | error other =>
        rw [hrest] at h
        cases h
        exact ih hrest
    | null | bool | int | double | text | list =>
      cases h
      exact .error _ _ P

/-- Children that can be read have no flaws. -/
theorem childrenFlaws_eq_nil {fields : Json.Fields} {children : List Drawing}
    (h : childrenIn fields = .ok children) (place : Place) : childrenFlaws fields place = [] := by
  rw [childrenIn_eq] at h
  rw [childrenFlaws]
  cases hvalue : Json.fieldOrNull fields childrenName with
  | null => rfl
  | list items =>
    rw [hvalue, childrenOf] at h
    exact itemFlaws_eq_nil h fields place
  | bool | int | double | text | object => simp [hvalue, childrenOf] at h

/-- The obstacle among the children is their first flaw. -/
theorem reports_obstruct {α : Type} {fields : Json.Fields} {obstacle : Obstacle}
    (h : childrenIn fields = .error obstacle) (place : Place) (P : α → Prop) :
    Reports (childrenFlaws fields place) P (obstruct fields place obstacle) := by
  rw [childrenIn_eq] at h
  rw [childrenFlaws]
  cases hvalue : Json.fieldOrNull fields childrenName with
  | null => simp [hvalue, childrenOf] at h
  | list items =>
    rw [hvalue, childrenOf] at h
    exact reports_obstruct_items h fields place P
  | bool | int | double | text | object =>
    rw [hvalue] at h
    cases h
    exact .error _ [] P

/-- Looking at the children of a layer reports their flaws. -/
theorem reports_visitChildren {drawing : Drawing} (h : drawing.Faithful) (place : Place) :
    Reports (childrenFlaws drawing.fields place) (fun children => drawing.children = .ok children)
      (drawing.visitChildren place) := by
  cases drawing with
  | sound fields children =>
    have hnone := childrenFlaws_eq_nil (faithful_sound.mp h).1 place
    exact hnone ▸ .ok rfl
  | broken fields obstacle => exact reports_obstruct (faithful_broken.mp h) place _

/-! ### Whole drawings -/

/-- The flaws of some layers, one layer after the other. -/
def flawsOf (layers : List (Place × Json.Fields)) : List Fault :=
  layers.flatMap fun layer => flaws layer.2 layer.1

/-- The flaws of the first layer come before those of the others. -/
theorem flawsOf_cons (place : Place) (fields : Json.Fields) (rest : List (Place × Json.Fields)) :
    flawsOf ((place, fields) :: rest)
      = ownFlaws fields place ++ (childrenFlaws fields place ++ flawsOf rest) := by
  rw [flawsOf, List.flatMap_cons, flaws, List.append_assoc]
  rfl

/-- The flaws of a list come in the order of its layers. -/
theorem flawsOf_append (front back : List (Place × Json.Fields)) :
    flawsOf (front ++ back) = flawsOf front ++ flawsOf back := List.flatMap_append

mutual

/-- The sketch of the first layers of a drawing reports their flaws, and can be checked if there are
none.

The types of the values are asked of these layers only: what the budget cuts off is never read. A
broken layer is the last one that is listed, because the walk does not come past it. -/
theorem reports_sketch_pruned (place : Place) (origin : Origin) (budget : Nat) :
    ∀ drawing : Drawing, drawing.Faithful → origin.x.IsMeasure ∧ origin.y.IsMeasure →
      (∀ layer ∈ (placed place drawing).take (budget + 1), WellTyped layer.2) →
        Reports (flawsOf ((placed place drawing).take (budget + 1)))
          (fun s => ∃ node, s.check = .ok node) ((drawing.pruned budget).sketch place origin)
  | .sound fields children => by
    intro hfaithful horigin htyped
    rw [placed, List.take_succ_cons] at htyped ⊢
    have hlayer : WellTyped fields := htyped _ List.mem_cons_self
    have hinside := fun layer h => htyped layer (List.mem_cons_of_mem _ h)
    rw [faithful_sound] at hfaithful
    rw [flawsOf_cons, childrenFlaws_eq_nil hfaithful.1, List.nil_append, pruned, sketch]
    refine (Draft.reports_ofFields hlayer place horigin).bind ?_
    intro hown draft hdraft
    refine (reports_originAt_again hlayer hown).clean_bind ?_
    intro inner hinner
    refine (reports_sketchAll_prunedAll place inner 0 budget children hfaithful.2 hinner
      hinside).bind_clean ?_
    rintro - sketches ⟨nodes, hnodes⟩
    obtain ⟨layer, hcheck⟩ := hdraft.exists_check
    refine .ok ⟨.mk layer nodes, ?_⟩
    rw [Sketch.check, hnodes, ok_bind, hcheck, ok_bind, pure_eq]
  | .broken fields obstacle => by
    intro hfaithful horigin htyped
    rw [placed, List.take_succ_cons, List.take_nil] at htyped ⊢
    have hlayer : WellTyped fields := htyped _ List.mem_cons_self
    rw [faithful_broken] at hfaithful
    rw [flawsOf_cons, flawsOf, List.flatMap_nil, List.append_nil, pruned, sketch]
    refine (Draft.reports_ofFields hlayer place horigin).bind ?_
    intro hown draft hdraft
    refine (reports_originAt_again hlayer hown).clean_bind ?_
    intro inner _
    -- The walk ends at the obstacle, whatever layers the list of children holds before it.
    exact reports_obstruct hfaithful place _

/-- The same for a list of drawings. -/
theorem reports_sketchAll_prunedAll (place : Place) (origin : Origin) (position budget : Nat) :
    ∀ drawings : List Drawing, FaithfulAll drawings → origin.x.IsMeasure ∧ origin.y.IsMeasure →
      (∀ layer ∈ (placedAll place position drawings).take budget, WellTyped layer.2) →
        Reports (flawsOf ((placedAll place position drawings).take budget))
          (fun sketches => ∃ nodes, Sketch.checkAll sketches = .ok nodes)
          (sketchAll place origin position (prunedAll budget drawings))
  | [] => by
    intro _ _ _
    rw [placedAll, List.take_nil, prunedAll_nil, sketchAll]
    exact .ok ⟨[], by rw [Sketch.checkAll]⟩
  | drawing :: rest => by
    intro hfaithful horigin htyped
    cases budget with
    | zero =>
      rw [List.take_zero, prunedAll_zero, sketchAll]
      exact .ok ⟨[], by rw [Sketch.checkAll]⟩
    | succ budget =>
      -- The drawings behind the first one get what it leaves of the budget.
      rw [placedAll, List.take_append, length_placed] at htyped ⊢
      rw [faithfulAll_cons] at hfaithful
      rw [flawsOf_append, prunedAll_succ_cons, sketchAll]
      refine (reports_sketch_pruned (place.child position) origin budget drawing hfaithful.1 horigin
        fun layer h => htyped layer (List.mem_append_left _ h)).bind ?_
      rintro - first ⟨node, hnode⟩
      refine (reports_sketchAll_prunedAll place origin (position + 1) _ rest hfaithful.2 horigin
        fun layer h => htyped layer (List.mem_append_right _ h)).bind_clean ?_
      rintro - others ⟨nodes, hnodes⟩
      refine .ok ⟨node :: nodes, ?_⟩
      rw [Sketch.checkAll, hnodes, ok_bind, hnode, ok_bind, pure_eq]

end

end Drawing

end DesignCompiler
