import DesignCompiler.Drawing.Draft

/-!
# `DesignCompiler.Proofs.Drawing.Flaws`: what is wrong with the structure of a layer

`Drawing.flaws` lists the faults of a layer at a place in the order in which a walk comes across
them: its box, the colours of its fills and strokes, the style of a text, its children. The list is
told from the fields of the layer alone. `IsDefective` says without places when there are any
(`flaws_ne_nil_iff`), and `exists_of_mem_flaws` which places they point at.
-/

set_option autoImplicit false

namespace DesignCompiler.Drawing

/-- The names of the lists of paints. -/
def paintNames : List Text := ["fills".toList, "strokes".toList]

/-- The fault of a layer at a place. It carries the identifier as it stands in the file, or null. -/
def faultOf (fields : Json.Fields) (place : Place) (problem : Malformation) : Fault :=
  .malformed problem place (Json.fieldOrNull fields "id".toList)

/-- The flaws of a field that has to hold an object, if it holds anything. There is one at most. -/
def objectFlaws (fields : Json.Fields) (place : Place) (name : Text) : List Fault :=
  let found := (Json.fieldOrNull fields name).kind
  if found ∈ [.null, .object] then [] else [faultOf fields place (.notObject name found)]

/-- The flaws of the paints under a name: only the colour that is drawn counts. A gradient, or a
solid that is not visible, may hold anything. -/
def colorFlaws (fields : Json.Fields) (place : Place) (name : Text) : List Fault :=
  match solidPaint? fields name with
  | none => []
  | some paint =>
    let found := (Json.fieldOrNull paint "color".toList).kind
    if found ∈ [.null, .object] then [] else [faultOf fields place (.colorNotObject name found)]

/-- The flaws of the style, which only a text with characters has. Nobody looks at the style of
another layer. -/
def styleFlaws (fields : Json.Fields) (place : Place) : List Fault :=
  if (content? fields).isSome then objectFlaws fields place "style".toList else []

/-- The flaws of the fields of a layer itself, in the order in which `Draft.ofFields` reads them. -/
def ownFlaws (fields : Json.Fields) (place : Place) : List Fault :=
  objectFlaws fields place "absoluteBoundingBox".toList
    ++ (colorFlaws fields place "fills".toList
      ++ (colorFlaws fields place "strokes".toList ++ styleFlaws fields place))

/-- The flaws of the items of a list of children: those that are no objects. Each is told at its own
place, with the identifier of the layer around it. -/
def itemFlaws (fields : Json.Fields) (place : Place) (position : Nat) : List Json → List Fault
  | [] => []
  | item :: rest =>
    (if item.kind = .object then []
      else [faultOf fields (place.child position) (.childNotObject item.kind)])
    ++ itemFlaws fields place (position + 1) rest

/-- The flaws of the children of a layer: those of the list if there is one, and otherwise that
there is none. -/
def childrenFlaws (fields : Json.Fields) (place : Place) : List Fault :=
  match Json.fieldOrNull fields childrenName with
  | .null => []
  | .list items => itemFlaws fields place 0 items
  | value => [faultOf fields place (.childrenNotList value.kind)]

/-- The flaws of a layer at a place, in the order in which they are met. -/
def flaws (fields : Json.Fields) (place : Place) : List Fault :=
  ownFlaws fields place ++ childrenFlaws fields place

/-! ### Which layers have flaws -/

/-- What is wrong with the structure of a layer, wherever it stands. Each constructor names the
fields that it is about, so a defect can be found without reading the layer. -/
inductive IsDefective (fields : Json.Fields) : Prop
  /-- The box is no object. -/
  | box : (Json.fieldOrNull fields "absoluteBoundingBox".toList).kind ∉ [.null, .object] →
      IsDefective fields
  /-- The first fill or stroke is a solid that can be seen, and its colour is no object. -/
  | color {name : Text} {paint : Json.Fields} {rest : List Json} : name ∈ paintNames →
      Json.fieldOrNull fields name = .list (.object paint :: rest) →
      (Json.fieldOrNull paint "type".toList).isText "SOLID".toList = true →
      Json.fieldOrNull paint "visible".toList ≠ .bool false →
      (Json.fieldOrNull paint "color".toList).kind ∉ [.null, .object] → IsDefective fields
  /-- The layer is a text with characters, and its style is no object. -/
  | style : (Json.fieldOrNull fields "type".toList).isText "TEXT".toList = true →
      (Json.fieldOrNull fields "characters".toList).isBlank = false →
      (Json.fieldOrNull fields "style".toList).kind ∉ [.null, .object] → IsDefective fields
  /-- The children are no list. -/
  | children : (Json.fieldOrNull fields childrenName).kind ∉ [.null, .list] → IsDefective fields
  /-- A child is no object. -/
  | child {items : List Json} {item : Json} : Json.fieldOrNull fields childrenName = .list items →
      item ∈ items → item.kind ≠ .object → IsDefective fields

section

variable {fields : Json.Fields} {place : Place} {name : Text}

/-- A field that has to hold an object has a flaw if it holds something else. -/
theorem objectFlaws_ne_nil_iff : objectFlaws fields place name ≠ []
    ↔ (Json.fieldOrNull fields name).kind ∉ [.null, .object] := by
  simp only [objectFlaws]
  split <;> simp_all

/-- What the paint looks like that gives a list of paints its colour. -/
theorem solidPaint?_eq_some_iff {paint : Json.Fields} : solidPaint? fields name = some paint
    ↔ (∃ rest, Json.fieldOrNull fields name = .list (.object paint :: rest))
      ∧ (Json.fieldOrNull paint "type".toList).isText "SOLID".toList = true
      ∧ Json.fieldOrNull paint "visible".toList ≠ .bool false := by
  have hfirst : ∀ value : Json, firstPaint? value = some paint
      ↔ ∃ rest, value = .list (.object paint :: rest) := by
    intro value
    unfold firstPaint?
    split <;> simp_all
  rw [solidPaint?, Option.filter_eq_some_iff, hfirst, isVisibleSolid, Bool.and_eq_true]
  refine and_congr_right fun _ => and_congr_right fun _ => ?_
  split <;> simp_all

/-- A list of paints has a flaw if the colour of the paint that is drawn is no object. -/
theorem colorFlaws_ne_nil_iff : colorFlaws fields place name ≠ []
    ↔ ∃ paint, solidPaint? fields name = some paint
      ∧ (Json.fieldOrNull paint "color".toList).kind ∉ [.null, .object] := by
  rw [colorFlaws]
  cases solidPaint? fields name with
  | none => simp
  | some paint =>
    simp only [Option.some.injEq, exists_eq_left']
    split <;> simp_all

/-- A layer has content if it is a text with characters. Blank characters are none. -/
theorem content?_isSome_iff : (content? fields).isSome
    ↔ (Json.fieldOrNull fields "type".toList).isText "TEXT".toList = true
      ∧ (Json.fieldOrNull fields "characters".toList).isBlank = false := by
  have hfilled : ∀ value? : Option Json,
      (value?.filter (!·.isBlank)).isSome ↔ (value?.getD .null).isBlank = false := by
    intro value?
    cases value? with
    | none => simp [Json.isBlank]
    | some value => simp
  rw [content?]
  split
  · next htype =>
    rw [filledAt?, hfilled]
    exact (and_iff_right htype).symm
  · next htype => exact iff_of_false nofun fun h => htype h.1

/-- The items of a list have flaws if one of them is no object. -/
theorem itemFlaws_ne_nil_iff {position : Nat} {items : List Json} :
    itemFlaws fields place position items ≠ [] ↔ ∃ item ∈ items, item.kind ≠ .object := by
  induction items generalizing position with
  | nil => simp [itemFlaws]
  | cons item rest ih =>
    rw [itemFlaws]
    split <;> simp_all

/-- The children have flaws if they are no list, or one of them is no object. -/
theorem childrenFlaws_ne_nil_iff : childrenFlaws fields place ≠ []
    ↔ (Json.fieldOrNull fields childrenName).kind ∉ [.null, .list]
      ∨ ∃ items, Json.fieldOrNull fields childrenName = .list items
        ∧ ∃ item ∈ items, item.kind ≠ .object := by
  rw [childrenFlaws]
  cases Json.fieldOrNull fields childrenName with
  | null => simp [Json.kind]
  | list items => simp [Json.kind, itemFlaws_ne_nil_iff]
  | bool | int | double | text | object => simp [Json.kind]

/-- A layer has flaws at whatever place if it is defective. Left of the equivalence is what a walk
finds, right of it what the file holds. -/
theorem flaws_ne_nil_iff : flaws fields place ≠ [] ↔ IsDefective fields := by
  have happend : ∀ {front back : List Fault}, front ++ back ≠ [] ↔ front ≠ [] ∨ back ≠ [] := by
    intro front back
    rw [Ne, List.append_eq_nil_iff, Classical.not_and_iff_not_or_not]
  have hstyle : styleFlaws fields place ≠ [] ↔ (content? fields).isSome
      ∧ (Json.fieldOrNull fields "style".toList).kind ∉ [.null, .object] := by
    rw [styleFlaws, ← @objectFlaws_ne_nil_iff fields place]
    split <;> simp_all
  rw [flaws, ownFlaws, happend, happend, happend, happend, objectFlaws_ne_nil_iff,
    colorFlaws_ne_nil_iff, colorFlaws_ne_nil_iff, hstyle, content?_isSome_iff,
    childrenFlaws_ne_nil_iff]
  simp only [solidPaint?_eq_some_iff]
  -- Each list of flaws is not empty in a case of its own.
  constructor
  · rintro ((hbox | ⟨paint, ⟨⟨rest, hlist⟩, hsolid, hvisible⟩, hcolor⟩
      | ⟨paint, ⟨⟨rest, hlist⟩, hsolid, hvisible⟩, hcolor⟩ | ⟨⟨htype, hcharacters⟩, hstyle⟩)
      | hchildren | ⟨items, hitems, item, hitem, hkind⟩)
    · exact .box hbox
    · exact .color (by decide) hlist hsolid hvisible hcolor
    · exact .color (by decide) hlist hsolid hvisible hcolor
    · exact .style htype hcharacters hstyle
    · exact .children hchildren
    · exact .child hitems hitem hkind
  · rintro (hbox | ⟨hname, hlist, hsolid, hvisible, hcolor⟩ | ⟨htype, hcharacters, hstyle⟩
      | hchildren | ⟨hitems, hitem, hkind⟩)
    · exact .inl (.inl hbox)
    · simp only [paintNames, List.mem_cons, List.not_mem_nil, or_false] at hname
      -- The paints are those of the fill and those of the border.
      rcases hname with rfl | rfl
      · exact .inl (.inr (.inl ⟨_, ⟨⟨_, hlist⟩, hsolid, hvisible⟩, hcolor⟩))
      · exact .inl (.inr (.inr (.inl ⟨_, ⟨⟨_, hlist⟩, hsolid, hvisible⟩, hcolor⟩)))
    · exact .inl (.inr (.inr (.inr ⟨⟨htype, hcharacters⟩, hstyle⟩)))
    · exact .inr (.inl hchildren)
    · exact .inr (.inr ⟨_, hitems, _, hitem, hkind⟩)

/-! ### What the flaws point at -/

variable {fault : Fault}

/-- The flaw of an object tells what was found in its place. -/
theorem eq_of_mem_objectFlaws (h : fault ∈ objectFlaws fields place name) :
    fault = faultOf fields place (.notObject name (Json.fieldOrNull fields name).kind) := by
  simp only [objectFlaws] at h
  split at h
  · cases h
  · exact List.mem_singleton.mp h

/-- The flaw of a colour tells the list of paints that it stands in. -/
theorem exists_of_mem_colorFlaws (h : fault ∈ colorFlaws fields place name) :
    ∃ found, fault = faultOf fields place (.colorNotObject name found) := by
  rw [colorFlaws] at h
  split at h
  · cases h
  · dsimp only at h
    split at h
    · cases h
    · exact ⟨_, List.mem_singleton.mp h⟩

/-- The flaws of a layer's own fields are told at its place, with its identifier. -/
theorem exists_of_mem_ownFlaws (h : fault ∈ ownFlaws fields place) :
    ∃ problem, fault = faultOf fields place problem := by
  rw [ownFlaws, List.mem_append, List.mem_append, List.mem_append] at h
  rcases h with hbox | hfills | hstrokes | hstyle
  · exact ⟨_, eq_of_mem_objectFlaws hbox⟩
  · obtain ⟨found, hfault⟩ := exists_of_mem_colorFlaws hfills
    exact ⟨_, hfault⟩
  · obtain ⟨found, hfault⟩ := exists_of_mem_colorFlaws hstrokes
    exact ⟨_, hfault⟩
  · rw [styleFlaws] at hstyle
    split at hstyle
    · exact ⟨_, eq_of_mem_objectFlaws hstyle⟩
    · cases hstyle

/-- The flaw of an item is told at its place in the list. -/
theorem exists_of_mem_itemFlaws {position : Nat} {items : List Json}
    (h : fault ∈ itemFlaws fields place position items) :
    ∃ offset item, items[offset]? = some item ∧ item.kind ≠ .object
      ∧ fault = faultOf fields (place.child (position + offset)) (.childNotObject item.kind) := by
  induction items generalizing position with
  | nil => cases h
  | cons item rest ih =>
    rw [itemFlaws, List.mem_append] at h
    rcases h with hitem | hrest
    · split at hitem
      · cases hitem
      · next hkind => exact ⟨0, item, rfl, hkind, List.mem_singleton.mp hitem⟩
    · obtain ⟨offset, found, hfound, hkind, hfault⟩ := ih hrest
      refine ⟨offset + 1, found, hfound, hkind, ?_⟩
      rwa [Nat.add_comm offset, ← Nat.add_assoc]

/-- A flaw of the children is told at the place of the layer, or at the place of the child that is
no object. -/
theorem exists_of_mem_childrenFlaws (h : fault ∈ childrenFlaws fields place) :
    (∃ found, fault = faultOf fields place (.childrenNotList found))
      ∨ ∃ items position item, Json.fieldOrNull fields childrenName = .list items
        ∧ items[position]? = some item ∧ item.kind ≠ .object
        ∧ fault = faultOf fields (place.child position) (.childNotObject item.kind) := by
  rw [childrenFlaws] at h
  split at h
  · cases h
  · next items hitems =>
    obtain ⟨position, item, hitem, hkind, hfault⟩ := exists_of_mem_itemFlaws h
    rw [Nat.zero_add] at hfault
    exact .inr ⟨items, position, item, hitems, hitem, hkind, hfault⟩
  · exact .inl ⟨_, List.mem_singleton.mp h⟩

/-- A flaw of a layer is told at its place, unless it is a child that is no object; then it is told
at the place of the child. The identifier is that of the layer either way. -/
theorem exists_of_mem_flaws (h : fault ∈ flaws fields place) :
    (∃ problem, fault = faultOf fields place problem)
      ∨ ∃ items position item, Json.fieldOrNull fields childrenName = .list items
        ∧ items[position]? = some item ∧ item.kind ≠ .object
        ∧ fault = faultOf fields (place.child position) (.childNotObject item.kind) := by
  rw [flaws, List.mem_append] at h
  rcases h with hown | hchildren
  · exact .inl (exists_of_mem_ownFlaws hown)
  · exact (exists_of_mem_childrenFlaws hchildren).imp_left fun ⟨_, hfault⟩ => ⟨_, hfault⟩

end

end DesignCompiler.Drawing
