import DesignCompiler.Proofs.Extraction.Colors
import DesignCompiler.Proofs.Extraction.Faults
import DesignCompiler.Proofs.Extraction.Pages
import DesignCompiler.Proofs.Number.Whole

/-!
# `DesignCompiler.Proofs.Extraction.Positions`: relative positions add up to absolute ones

A design file gives the position of a layer from the origin of the file, a layout tree gives it from
the layer around. `Coordinate.IsRelative` says how the two belong together for the node at the end
of a way through the tree, and `Extraction.ofFile_isRelative` that it holds for every node of an
extraction: the node is as far from the node around it as the layer is from the layer around that,
and the distances from the top of the tree down to the node add up to the position of the layer.

All of this is exact where positions are whole numbers, or not given, which counts as zero. Then
nothing is rounded. A layer without a box stands at the origin of the file for the layers inside it,
whatever stands around it.

The invariant is `Coordinate.Translates`: a node was translated from a layer, and the position of
the layer around that is known. It passes on to the nodes inside (`Coordinate.Translates.child`), so
it goes down every way.
-/

set_option autoImplicit false

namespace DesignCompiler

open Outcome Schema

/-! ### Ways through a tree -/

/-- The node that the child positions lead to. -/
def Node.nodeAt? : Node → List Nat → Option Node
  | node, [] => some node
  | node, index :: rest => (node.children[index]?).bind fun child => child.nodeAt? rest

namespace Drawing

/-- The layers of one of several drawings are among those of all of them. What is known of all
layers in view is known of those inside one child by this. -/
theorem mem_preorderAll {depth : Nat} {drawing : Drawing} {drawings : List Drawing}
    {entry : Nat × Json.Fields} (hdrawing : drawing ∈ drawings)
    (hentry : entry ∈ drawing.preorder depth) : entry ∈ preorderAll depth drawings := by
  induction hdrawing with
  | head rest =>
    rw [preorderAll]
    exact List.mem_append_left _ hentry
  | tail first _ ih =>
    rw [preorderAll]
    exact List.mem_append_right _ ih

/-- What pruning leaves of some drawings are the first of them, pruned. Each keeps its index, and
its own budget is not looked at here. -/
theorem getElem?_prunedAll {budget index : Nat} {drawings : List Drawing} {left : Drawing}
    (h : (prunedAll budget drawings)[index]? = some left) :
    ∃ drawing less, drawings[index]? = some drawing ∧ left = drawing.pruned less := by
  induction drawings generalizing budget index with
  | nil =>
    rw [prunedAll_nil] at h
    cases h
  | cons first rest ih =>
    cases budget with
    | zero =>
      rw [prunedAll_zero] at h
      cases h
    | succ budget =>
      rw [prunedAll_succ_cons] at h
      -- The first drawing is kept with what is left of the budget.
      cases index with
      | zero => exact ⟨first, budget, rfl, (Option.some.inj h).symm⟩
      | succ index => exact ih h

end Drawing

/-! ### Coordinates -/

/-- The greatest magnitude of an absolute coordinate that is looked at here. Differences of such
coordinates are no larger than twice that. -/
def farthest : Nat := 2 ^ (52 : Nat)

/-- The coordinate that a value is: a whole number that is not too large, zero for null. A whole
number may be written as a double. -/
def Json.coordinate? : Json → Option Int
  | .null => some 0
  | value => value.integer?.filter fun n => n.natAbs ≤ farthest

/-- Zero in place of a blank value is the same coordinate, and no coordinate is too large. -/
theorem Json.integer?_of_coordinate? {value : Json} {n : Int} (h : value.coordinate? = some n) :
    (value.orIfBlank (.int 0)).integer? = some n ∧ n.natAbs ≤ farthest := by
  unfold coordinate? at h
  split at h
  · cases h
    exact ⟨rfl, Nat.zero_le _⟩
  · obtain ⟨hinteger, hle⟩ := Option.filter_eq_some_iff.mp h
    refine ⟨?_, of_decide_eq_true hle⟩
    rw [orIfBlank]
    split
    · next hblank => rw [eq_zero_of_isBlank hinteger hblank, integer?]
    · exact hinteger

/-- One of the two coordinates of a position. Everything below is proved for both at once. -/
inductive Coordinate
  | x
  | y

namespace Coordinate

/-- The name in a box. -/
def name : Coordinate → Text
  | .x => "x".toList
  | .y => "y".toList

/-- The unchecked coordinate of an origin. -/
def ofOrigin : Coordinate → Origin → Json
  | .x, origin => origin.x
  | .y, origin => origin.y

/-- The unchecked coordinate of a draft. -/
def ofDraft : Coordinate → Draft → Json
  | .x, draft => draft.x
  | .y, draft => draft.y

/-- The coordinate of a layer of a tree. -/
def ofLayer : Coordinate → Layer → Binary64
  | .x, layer => layer.x
  | .y, layer => layer.y

/-- The absolute coordinate of a layer of a file: that of its box, zero if nothing is given. -/
def absolute? (c : Coordinate) (fields : Json.Fields) : Option Int :=
  (Json.fieldOrNull (Json.fieldOrNull fields "absoluteBoundingBox".toList).inside
    c.name).coordinate?

/-- The coordinate of a layer of a tree, if that is a whole number. -/
def relative? (c : Coordinate) (layer : Layer) : Option Int := (c.ofLayer layer).whole?

/-- The coordinates of the layers from the top of a tree down a way, added up. The sum is one of
whole numbers and exact, whatever doubles could hold. -/
def total? (c : Coordinate) : Node → List Nat → Option Int
  | node, [] => c.relative? node.layer
  | node, index :: rest => do
    let first ← c.relative? node.layer
    let child ← node.children[index]?
    let others ← total? c child rest
    return first + others

/-- The absolute coordinate of the layer around the one at the end of a way; that around the
outermost layer is given. It drops the last step of the way. -/
def around? (c : Coordinate) (outside : Int) (fields : Json.Fields) (way : List Nat) :
    Option Int :=
  if way = [] then some outside
  else (Drawing.layerAt? fields way.dropLast).bind c.absolute?

/-- How the node at the end of a way down a tree stands to the layer at the end of the same way
through the fields of a file. The absolute coordinate of what is around the outermost layer is
given, and so are those of the layer and of the layer around it. -/
structure IsRelative (c : Coordinate) (outside : Int) (fields : Json.Fields) (top : Node)
    (way : List Nat) (node : Node) (source : Json.Fields) (absolute around : Int) : Prop where
  source_eq : Drawing.layerAt? fields way = some source
  /-- The layer is the one that the node was translated from. -/
  read : ∃ place origin, Drawing.translateLayer place origin source = .ok node.layer
  absolute_eq : c.absolute? source = some absolute
  around_eq : c.around? outside fields way = some around
  /-- The node is as far from the node around it as the layer is from the layer around that. -/
  relative_eq : c.relative? node.layer = some (absolute - around)
  /-- The coordinates on the way add up to the absolute one. -/
  total_eq : c.total? top way = some (absolute - outside)

variable {c : Coordinate}

/-- Seen from the child that a way goes through first, the outermost layer is what is around. It is
the step of the induction along the way. -/
theorem around?_cons {fields inside : Json.Fields} {absolute : Int} {index : Nat} {rest : List Nat}
    (hinside : Drawing.childAt? fields index = some inside)
    (habsolute : c.absolute? fields = some absolute) (outside : Int) :
    c.around? outside fields (index :: rest) = c.around? absolute inside rest := by
  rw [around?, around?, if_neg (List.cons_ne_nil index rest)]
  split
  · next hrest =>
    subst hrest
    exact habsolute
  · next hrest =>
    rw [List.dropLast_cons_of_ne_nil hrest, Drawing.layerAt?, hinside, Option.bind_some]

/-! ### One layer -/

/-- The origin of a box has the coordinate that the box gives, and that is not too far out for a
difference to be exact. -/
theorem integer?_ofOrigin {fields box : Json.Fields} {place : Place} {absolute : Int}
    (hbox : Drawing.boxAt fields place = .ok box) (h : c.absolute? fields = some absolute) :
    (c.ofOrigin (Drawing.boxOrigin box)).integer? = some absolute
      ∧ absolute.natAbs ≤ farthest := by
  -- A box that could be read is an object, or is missing and counts as an empty one.
  have hinside : box = (Json.fieldOrNull fields "absoluteBoundingBox".toList).inside := by
    rw [Drawing.boxAt, Drawing.objectAt] at hbox
    split at hbox
    · next hvalue =>
      cases hbox
      rw [hvalue]
      rfl
    · next inside hvalue =>
      cases hbox
      rw [hvalue, Json.inside]
    · cases hbox
  rw [absolute?, ← hinside] at h
  have hnumber := Json.integer?_of_coordinate? h
  cases c <;> exact hnumber

/-- The coordinate of a draft is a difference of two others: that of its box and that of the origin
it was read with. -/
theorem sub_of_ofFields (c : Coordinate) {place : Place} {origin : Origin} {fields : Json.Fields}
    {draft : Draft} (h : Draft.ofFields place origin fields = .ok draft) :
    ∃ box, Drawing.boxAt fields place = .ok box
      ∧ (c.ofOrigin (Drawing.boxOrigin box)).sub (c.ofOrigin origin) = .ok (c.ofDraft draft) := by
  simp only [Draft.ofFields, bind_eq_ok, pure_eq, Except.ok.injEq] at h
  obtain ⟨box, hbox, x, hx, y, hy, _, -, _, -, _, -, _, -, rfl⟩ := h
  cases c with
  | x => exact ⟨box, hbox, hx⟩
  | y => exact ⟨box, hbox, hy⟩

/-- The coordinate of a layer is what its draft gives, as a double. Both coordinates are checked in
the same way. -/
theorem checkNumber_of_check (c : Coordinate) {draft : Draft} {layer : Layer}
    (h : draft.check = .ok layer) :
    checkNumber (c.ofDraft draft) = .accepted (c.ofLayer layer) := by
  have haccepted := Draft.isAccepted_of_check h
  cases c with
  | x => exact under_eq_accepted.mp haccepted.x
  | y => exact under_eq_accepted.mp haccepted.y

/-- A layer is as far from the layer around it as their absolute coordinates say. Two coordinates
within `farthest` have a difference that is a double, so nothing is rounded. -/
theorem relative?_of_translateLayer {place : Place} {origin : Origin} {fields : Json.Fields}
    {layer : Layer} {absolute outside : Int}
    (hlayer : Drawing.translateLayer place origin fields = .ok layer)
    (h : c.absolute? fields = some absolute)
    (horigin : (c.ofOrigin origin).integer? = some outside) (houtside : outside.natAbs ≤ farthest) :
    c.relative? layer = some (absolute - outside) := by
  obtain ⟨draft, hdraft, hcheck⟩ := bind_eq_ok.mp hlayer
  obtain ⟨box, hbox, hsub⟩ := sub_of_ofFields c hdraft
  obtain ⟨hinner, hinside⟩ := integer?_ofOrigin hbox h
  -- The two are whole numbers small enough for their difference to be exact.
  have hdistance : (absolute - outside).natAbs ≤ wholeLimit := by
    rw [farthest] at hinside houtside
    rw [wholeLimit]
    omega
  have hlimit : farthest ≤ wholeLimit := by decide
  obtain ⟨value, hvalue, hwhole⟩ := Json.exists_sub hinner horigin
    (Nat.le_trans hinside hlimit) (Nat.le_trans houtside hlimit) hdistance
  rw [hsub, Except.ok.injEq] at hvalue
  subst hvalue
  obtain ⟨x, hx, hexact⟩ := Json.exists_checkNumber hwhole hdistance
  rw [checkNumber_of_check c hcheck, Checked.accepted.injEq] at hx
  rw [relative?, hx, hexact]

/-! ### All layers of a tree -/

/-- The node was translated from the first layers of a drawing, which all have coordinates, and so
has what is around them. -/
structure Translates (c : Coordinate) (outside : Int) (drawing : Drawing) (node : Node) :
    Prop where
  faithful : drawing.Faithful
  outside_le : outside.natAbs ≤ farthest
  translated : ∃ budget depth place origin,
    (drawing.pruned budget).translate place origin = .ok node
      ∧ (c.ofOrigin origin).integer? = some outside
      ∧ ∀ entry ∈ (drawing.pruned budget).preorder depth, (c.absolute? entry.2).isSome

namespace Translates

variable {outside : Int} {drawing : Drawing} {node : Node}

/-- The outermost layer is read, relative to what is around it. -/
theorem read (h : c.Translates outside drawing node) : ∃ absolute,
    (∃ place origin, Drawing.translateLayer place origin drawing.fields = .ok node.layer)
      ∧ c.absolute? drawing.fields = some absolute
      ∧ c.relative? node.layer = some (absolute - outside) := by
  obtain ⟨budget, depth, place, origin, htranslate, horigin, hknown⟩ := h.translated
  cases drawing with
  | broken fields obstacle => exact absurd htranslate (Drawing.obstruct_ne_ok fields place _ node)
  | sound fields children =>
    rw [Drawing.pruned, Drawing.translate] at htranslate
    obtain ⟨layer, hlayer, htranslate⟩ := bind_eq_ok.mp htranslate
    obtain ⟨_, -, htranslate⟩ := bind_eq_ok.mp htranslate
    obtain ⟨_, -, htranslate⟩ := bind_eq_ok.mp htranslate
    cases htranslate
    rw [Drawing.pruned, Drawing.preorder] at hknown
    obtain ⟨absolute, habsolute⟩ := Option.isSome_iff_exists.mp (hknown _ List.mem_cons_self)
    exact ⟨absolute, ⟨place, origin, hlayer⟩, habsolute,
      relative?_of_translateLayer hlayer habsolute horigin h.outside_le⟩

/-- The nodes inside are translated from the layers inside, relative to the outermost layer. Pruning
may have left out the end of the children, but never changed the index of one that is kept. -/
theorem child (h : c.Translates outside drawing node) {absolute : Int}
    (habsolute : c.absolute? drawing.fields = some absolute) {index : Nat} {inner : Node}
    (hinner : node.children[index]? = some inner) : ∃ inside,
      Drawing.childAt? drawing.fields index = some inside.fields
        ∧ c.Translates absolute inside inner := by
  obtain ⟨hfaithful, -, budget, depth, place, origin, htranslate, -, hknown⟩ := h
  cases drawing with
  | broken fields obstacle => exact absurd htranslate (Drawing.obstruct_ne_ok fields place _ node)
  | sound fields children =>
    rw [Drawing.pruned, Drawing.translate] at htranslate
    obtain ⟨layer, -, htranslate⟩ := bind_eq_ok.mp htranslate
    obtain ⟨around, haround, htranslate⟩ := bind_eq_ok.mp htranslate
    obtain ⟨nodes, hnodes, htranslate⟩ := bind_eq_ok.mp htranslate
    cases htranslate
    obtain ⟨box, hbox, rfl⟩ := map_eq_ok.mp haround
    obtain ⟨horigin, hle⟩ := integer?_ofOrigin hbox habsolute
    obtain ⟨hlength, heach⟩ := Drawing.getElem?_translateAll hnodes
    -- The node was translated from what pruning has left of the child at the same index.
    obtain ⟨left, hleft⟩ : ∃ left, (Drawing.prunedAll budget children)[index]? = some left := by
      obtain ⟨hlt, -⟩ := List.getElem?_eq_some_iff.mp hinner
      exact ⟨_, List.getElem?_eq_getElem (hlength ▸ hlt)⟩
    obtain ⟨inside, less, hinside, rfl⟩ := Drawing.getElem?_prunedAll hleft
    rw [Drawing.faithful_sound] at hfaithful
    refine ⟨inside, Drawing.childAt?_eq hfaithful.1 hinside, ?_, hle, ?_⟩
    · exact Drawing.faithfulAll_iff.mp hfaithful.2 inside (List.mem_of_getElem? hinside)
    · refine ⟨less, depth + 1, _, _, heach index _ inner hleft hinner, horigin, ?_⟩
      intro entry hentry
      rw [Drawing.pruned, Drawing.preorder] at hknown
      exact hknown entry (List.mem_cons_of_mem _
        (Drawing.mem_preorderAll (List.mem_of_getElem? hleft) hentry))

/-- Every node is relative to the node around it. The induction is on the way, and the origin of the
top changes with each step. -/
theorem isRelative (h : c.Translates outside drawing node) {way : List Nat} {last : Node}
    (hlast : node.nodeAt? way = some last) : ∃ source absolute around,
      c.IsRelative outside drawing.fields node way last source absolute around := by
  -- From the top down: the outermost layer becomes what is around when the way goes on inside it.
  induction way generalizing outside drawing node with
  | nil =>
    obtain ⟨absolute, hread, habsolute, hrelative⟩ := h.read
    cases hlast
    exact ⟨drawing.fields, absolute, outside, rfl, hread, habsolute, rfl, hrelative, hrelative⟩
  | cons index rest ih =>
    obtain ⟨absolute, -, habsolute, hrelative⟩ := h.read
    obtain ⟨inner, hinner, hlast⟩ := Option.bind_eq_some_iff.mp hlast
    obtain ⟨inside, hinside, htranslates⟩ := h.child habsolute hinner
    obtain ⟨source, found, around, hfound⟩ := ih htranslates hlast
    refine ⟨source, found, around, ?_, hfound.read, hfound.absolute_eq, ?_, hfound.relative_eq, ?_⟩
    · rw [Drawing.layerAt?, hinside, Option.bind_some, hfound.source_eq]
    · rw [around?_cons hinside habsolute, hfound.around_eq]
    · -- What the first layer adds is taken away again by the one behind it.
      have hsum : absolute - outside + (found - absolute) = found - outside := by omega
      rw [total?, hrelative, hinner, ← hsum]
      simp [hfound.total_eq]

end Translates

end Coordinate

namespace Extraction

/-- The part of a file that is extracted, if there is one: all of it or a page. -/
def chosen? (file page : Json) : Option Drawing := do
  let root ← (Drawing.ofFile file).toOption
  let (selection, _) ← (root.select page).toOption
  selection.map Selection.drawing

/-- If all layers that are extracted have whole numbers for their positions, or none, then every
node is relative to the node around it, and relative positions add up to absolute ones. Around the
outermost layer that is extracted there is nothing, so its position stays as it is. -/
theorem ofFile_isRelative {file page : Json} {limit : Int} {t : Extraction}
    (h : ofFile file page limit = .ok t) {c : Coordinate}
    (hknown : ∀ drawing ∈ chosen? file page, ∀ entry ∈ (drawing.preorder 0).take limit.toNat,
      (c.absolute? entry.2).isSome) :
    ∀ top ∈ t.root, ∃ drawing ∈ chosen? file page, ∀ way node, top.nodeAt? way = some node →
      ∃ source absolute around,
        c.IsRelative 0 drawing.fields top way node source absolute around := by
  obtain ⟨root, choice, warnings, hroot, hselect, htranslation⟩ := ofFile_isTranslation h
  intro top htop
  have htree := htranslation.root_eq
  rw [show t.root = some top from htop, Option.map_some] at htree
  -- There is a tree, so a layer was chosen and the limit allows for one.
  obtain ⟨selection, rfl, hfirst⟩ := Option.bind_eq_some_iff.mp htree.symm
  obtain ⟨pruned, hpruned, htranslate⟩ := Option.map_eq_some_iff.mp hfirst
  have hchosen : chosen? file page = some selection.drawing := by
    rw [chosen?, hroot]
    simp [Except.toOption, hselect]
  have hfaithful : selection.drawing.Faithful :=
    (Drawing.isInside_of_select (Drawing.faithful_of_ofFile hroot) hselect).faithful
  cases hlimit : limit.toNat with
  | zero =>
    rw [hlimit] at hpruned
    cases hpruned
  | succ budget =>
    rw [hlimit, Drawing.first?_succ, Option.some.injEq] at hpruned
    subst hpruned
    refine ⟨selection.drawing, hchosen, fun way node hnode => ?_⟩
    refine Coordinate.Translates.isRelative ⟨hfaithful, Nat.zero_le _, budget, 0, selection.place,
      .zero, htranslate, by cases c <;> rfl, ?_⟩ hnode
    rw [Drawing.preorder_pruned, ← hlimit]
    exact hknown selection.drawing hchosen

/-- The second page of a file, cut behind the first text of its frame: the text is at 25 and the
frame around it at 20. -/
theorem twoPages_isRelative : ∃ t top drawing text source,
    ofFile twoPages (.text "2-0".toList) 3 = .ok t ∧ t.root = some top
      ∧ chosen? twoPages (.text "2-0".toList) = some drawing ∧ top.nodeAt? [0, 0] = some text
      ∧ Coordinate.x.IsRelative 0 drawing.fields top [0, 0] text source 25 20 := by
  have hreaches : (ofFile twoPages (.text "2-0".toList) 3).toOption.bind (fun t =>
      t.root.bind fun top => (top.nodeAt? [0, 0]).map fun text => text.layer.id)
      = some "2:2".toList := by decide +kernel
  obtain ⟨t, ht, hreaches⟩ := Option.bind_eq_some_iff.mp hreaches
  obtain ⟨top, htop, hreaches⟩ := Option.bind_eq_some_iff.mp hreaches
  obtain ⟨text, htext, -⟩ := Option.map_eq_some_iff.mp hreaches
  have ht := toOption_eq_some.mp ht
  obtain ⟨drawing, hdrawing, heach⟩ :=
    ofFile_isRelative (c := .x) ht (by decide +kernel) top htop
  obtain ⟨source, absolute, around, hrelative⟩ := heach [0, 0] text htext
  -- What the theorem says about the text is compared with what is computed from the file.
  have habsolute : (chosen? twoPages (.text "2-0".toList)).bind (fun drawing =>
      (Drawing.layerAt? drawing.fields [0, 0]).bind Coordinate.x.absolute?) = some 25 := by
    decide +kernel
  have haround : (chosen? twoPages (.text "2-0".toList)).bind (fun drawing =>
      Coordinate.x.around? 0 drawing.fields [0, 0]) = some 20 := by decide +kernel
  rw [show chosen? _ _ = some drawing from hdrawing, Option.bind_some] at habsolute haround
  rw [hrelative.source_eq, Option.bind_some, hrelative.absolute_eq, Option.some.injEq] at habsolute
  rw [hrelative.around_eq, Option.some.injEq] at haround
  subst habsolute haround
  exact ⟨t, top, drawing, text, source, ht, htop, hdrawing, htext, hrelative⟩

end Extraction

end DesignCompiler
