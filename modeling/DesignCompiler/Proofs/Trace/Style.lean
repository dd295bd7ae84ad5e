import DesignCompiler.Proofs.Trace.Tree

/-!
# `DesignCompiler.Proofs.Trace.Style`: the style of every node

The entries of a style are merged one after the other, so what holds of the style is shown by
induction from the last entry (`merge_concat`): the keys are those of the entries, each where it
comes first and with what it is given last, and entries that share their key with no other are left
alone. `Merges` says this of a list of entries and a style.

Only an offset brings in a position, and it comes after the position of the axis. So nodes away from
the origin are positioned absolutely, and of the others only those with room for children are
positioned at all. `Node.styled_of_renderAt` puts it together for the code of every node.
-/

set_option autoImplicit false

namespace DesignCompiler

open Text

namespace React

/-! ### Merging entries -/

variable {all style : List Entry} {entry : Entry}

/-- A new key is set at the end, behind the keys that are there. -/
theorem setEntry_of_not_mem (h : entry.1 ∉ style.map Prod.fst) :
    setEntry entry style = style ++ [entry] := by
  induction style with
  | nil => rfl
  | cons first rest ih =>
    rw [List.map_cons, List.mem_cons, not_or] at h
    rw [setEntry, if_neg (Ne.symm h.1), ih h.2, List.cons_append]

/-- An old key stays in its place, and so do all others. -/
theorem keys_setEntry_of_mem (h : entry.1 ∈ style.map Prod.fst) :
    (setEntry entry style).map Prod.fst = style.map Prod.fst := by
  induction style with
  | nil => cases h
  | cons first rest ih =>
    rw [setEntry]
    split
    · next hsame => rw [List.map_cons, List.map_cons, hsame]
    · next hother =>
      rw [List.map_cons, List.mem_cons] at h
      rw [List.map_cons, List.map_cons, ih (h.resolve_left (Ne.symm hother))]

/-- The first entry is looked at first, said with an equation of keys in place of a comparison. -/
theorem lookup_cons (entry : Entry) (rest : List Entry) (key : Text) :
    (entry :: rest).lookup key = if key = entry.1 then some entry.2 else rest.lookup key := by
  rw [List.lookup_cons]
  by_cases hkey : key = entry.1
  · rw [if_pos hkey, beq_iff_eq.mpr hkey]
  · rw [if_neg hkey, beq_eq_false_iff_ne.mpr hkey]

/-- Setting an entry changes the literal of its key only, whether or not the key was there. -/
theorem lookup_setEntry (key : Text) :
    (setEntry entry style).lookup key
      = if key = entry.1 then some entry.2 else style.lookup key := by
  induction style with
  | nil => exact lookup_cons entry [] key
  | cons first rest ih =>
    rw [setEntry]
    split
    · next hsame =>
      rw [lookup_cons, lookup_cons, hsame]
      split <;> rfl
    · next hother =>
      rw [lookup_cons, lookup_cons, ih]
      -- No key is that of both entries.
      split
      · next hfirst => rw [if_neg (hfirst ▸ hother)]
      · rfl

/-- Setting an entry leaves the entries of other keys alone, in the order that they have. -/
theorem filter_setEntry {p : Text → Bool} (h : p entry.1 = false) :
    (setEntry entry style).filter (fun e => p e.1) = style.filter fun e => p e.1 := by
  induction style with
  | nil => simp [setEntry, h]
  | cons first rest ih =>
    rw [setEntry]
    split
    · next hsame => simp [hsame, h]
    · rw [List.filter_cons, List.filter_cons, ih]

/-- The last entry is set in the style of those in front of it. The inductions on entries below are
from the end for this reason. -/
theorem merge_concat (all : List Entry) (entry : Entry) :
    merge (all ++ [entry]) = setEntry entry (merge all) :=
  List.foldl_concat _ _ _ _

/-- The keys come in the order in which they come first. Where a key comes again, nothing moves. -/
theorem keys_merge (all : List Entry) :
    (merge all).map Prod.fst = (all.map Prod.fst).eraseDups := by
  induction all using List.reverseRecOn with
  | nil => rfl
  | append_singleton all entry ih =>
    rw [merge_concat, List.map_append, List.map_singleton, List.eraseDups_append, ← ih]
    -- A key that is there already adds nothing, on either side.
    by_cases hmem : entry.1 ∈ all.map Prod.fst
    · have hmerged : entry.1 ∈ (merge all).map Prod.fst := mem_keys_merge.mpr hmem
      have hnone : [entry.1].removeAll (all.map Prod.fst) = [] := by
        simpa [List.removeAll] using hmem
      rw [keys_setEntry_of_mem hmerged, hnone, List.eraseDups_nil, List.append_nil]
    · have hmerged : entry.1 ∉ (merge all).map Prod.fst := mem_keys_merge.not.mpr hmem
      have hsome : [entry.1].removeAll (all.map Prod.fst) = [entry.1] := by
        simpa [List.removeAll] using hmem
      rw [setEntry_of_not_mem hmerged, hsome, List.map_append, List.map_singleton]
      rfl

/-- No key comes twice, however often it comes among the entries. -/
theorem nodup_keys_merge (all : List Entry) : ((merge all).map Prod.fst).Nodup := by
  induction all using List.reverseRecOn with
  | nil => exact List.nodup_nil
  | append_singleton all entry ih =>
    rw [merge_concat]
    by_cases hmem : entry.1 ∈ (merge all).map Prod.fst
    · rwa [keys_setEntry_of_mem hmem]
    · rw [setEntry_of_not_mem hmem, List.map_append, List.map_singleton]
      exact List.nodup_append_comm.mp (List.nodup_cons.mpr ⟨hmem, ih⟩)

/-- Each key has the literal that it is given last. Looking from the end finds that one first. -/
theorem lookup_merge (all : List Entry) (key : Text) :
    (merge all).lookup key = all.reverse.lookup key := by
  induction all using List.reverseRecOn with
  | nil => rfl
  | append_singleton all entry ih =>
    rw [merge_concat, lookup_setEntry, List.reverse_concat, lookup_cons, ih]

/-- Entries of keys that come at most once are left alone, if the keys are chosen so that none of
them comes twice. -/
theorem filter_merge {p : Text → Bool}
    (h : ((all.map Prod.fst).filter p).Nodup) :
    (merge all).filter (fun e => p e.1) = all.filter fun e => p e.1 := by
  induction all using List.reverseRecOn with
  | nil => rfl
  | append_singleton all entry ih =>
    rw [List.map_append, List.map_singleton, List.filter_append] at h
    rw [merge_concat, List.filter_append, ← ih h.of_append_left]
    cases hp : p entry.1 with
    | false => rw [filter_setEntry hp]; simp [hp]
    | true =>
      -- The key is new, for else it would come twice.
      have hnew : entry.1 ∉ (merge all).map Prod.fst := by
        rw [mem_keys_merge]
        intro hmem
        refine List.disjoint_of_nodup_append h (List.mem_filter.mpr ⟨hmem, hp⟩) ?_
        exact List.mem_filter.mpr ⟨List.mem_singleton_self entry.1, hp⟩
      rw [setEntry_of_not_mem hnew, List.filter_append]

/-- Whether a key comes only once among some entries. These are the entries that no other one
replaces. -/
def isOnce (all : List Entry) (key : Text) : Bool := (all.map Prod.fst).count key = 1

/-- Of the keys that come only once, none comes twice. This is what `filter_merge` asks of the keys
that are chosen. -/
theorem nodup_filter_isOnce (all : List Entry) :
    ((all.map Prod.fst).filter (isOnce all)).Nodup := by
  rw [List.nodup_iff_count_le_one]
  intro key
  rcases Nat.eq_zero_or_pos (((all.map Prod.fst).filter (isOnce all)).count key) with hzero | hpos
  · omega
  · have hmem := (List.mem_filter.mp (List.count_pos_iff.mp hpos)).2
    rw [List.count_filter hmem]
    exact Nat.le_of_eq (of_decide_eq_true hmem)

/-- A style is made of some entries: it has each key once, where it comes first among the entries
and with the literal that it is given last, and where a key comes only once its entry is taken over
as it is. -/
structure Merges (all style : List Entry) : Prop where
  nodup : (style.map Prod.fst).Nodup
  keys : style.map Prod.fst = (all.map Prod.fst).eraseDups
  last : ∀ key, style.lookup key = all.reverse.lookup key
  once : style.filter (fun e => isOnce all e.1) = all.filter fun e => isOnce all e.1

/-- Merging makes a style of some entries in this sense, whatever the entries are. -/
theorem merges_merge (all : List Entry) : Merges all (merge all) where
  nodup := nodup_keys_merge all
  keys := keys_merge all
  last := lookup_merge all
  once := filter_merge (nodup_filter_isOnce all)

/-! ### Positions -/

/-- The key of the position. -/
def positionKey : Text := "position".toList

/-- Only an offset brings in a position. The other attributes have keys of their own. -/
theorem lookup_position_entries (a : Attribute Text) : (entries a).reverse.lookup positionKey
    = if a.kind = .offset then some "'absolute'".toList else none := by
  cases a with
  | border color width radius =>
    rw [entries]
    cases radius.isZero <;> rfl
  | size | background | cornerRadius | padding | spacing | offset | textColor | fontSize
  | fontWeight => rfl

/-- Several attributes bring in a position if there is an offset among them. By induction on the
attributes; looking from the end, those that follow come before the first. -/
theorem lookup_position_flatMap (attributes : List (Attribute Text)) :
    (attributes.flatMap entries).reverse.lookup positionKey
      = if .offset ∈ attributes.map Attribute.kind then some "'absolute'".toList else none := by
  induction attributes with
  | nil => rfl
  | cons first rest ih =>
    rw [List.flatMap_cons, List.reverse_append, List.lookup_append, ih, lookup_position_entries,
      List.map_cons]
    by_cases hrest : .offset ∈ rest.map Attribute.kind
    · rw [if_pos hrest, if_pos (List.mem_cons_of_mem _ hrest), Option.some_or]
    · rw [if_neg hrest, Option.none_or]
      simp only [List.mem_cons, hrest, or_false, eq_comm]

/-- A container is positioned by its axis, in the same way for every axis. -/
theorem lookup_position_axisEntries (axis : Axis) :
    (axisEntries axis).reverse.lookup positionKey = some "'relative'".toList := by
  cases axis <;> rfl

end React

/-- A layer has an offset unless it is at the origin. A coordinate that is not a number is not zero,
so such a layer has one. -/
theorem Attribute.offset_mem_collect_iff (l : Layer) (role : Role) (axis : Option Axis) :
    .offset ∈ (collect l role axis).map kind ↔ (l.x.isZero && l.y.isZero) = false := by
  -- What is collected before and behind the offset does not depend on the place.
  obtain ⟨front, back, hcollect⟩ : ∃ front back, ∀ x y, collect { l with x := x, y := y } role axis
      = front ++ (if x.isZero && y.isZero then [] else [.offset x y]) ++ back :=
    ⟨(if l.width.isPositive && l.height.isPositive then [.size l.width l.height] else [])
        ++ ((filled? l.backgroundColor).map .background).toList ++ edge l
        ++ (l.padding.map .padding).toList
        ++ (if axis = some .none then [] else ((nonzero? l.spacing).map .spacing).toList),
      if role = .text then ofText l else [], fun _ _ => rfl⟩
  -- Away from the origin the layer has the same other attributes, and none of the same kind twice.
  have hcanonical := (isCanonical_collect { l with x := .nan, y := l.y } role axis).increasing
  have hnodup : (front.map kind ++ AttributeKind.offset :: back.map kind).Nodup := by
    rw [hcollect, List.append_assoc, List.map_append] at hcanonical
    exact hcanonical.imp fun hlt heq => Nat.ne_of_lt hlt (congrArg _ heq)
  have hback : .offset ∉ back.map kind := (List.nodup_cons.mp hnodup.of_append_right).1
  have hfront : .offset ∉ front.map kind := fun hmem =>
    List.disjoint_of_nodup_append hnodup hmem List.mem_cons_self
  have hl : collect l role axis = collect { l with x := l.x, y := l.y } role axis := rfl
  rw [hl, hcollect, List.map_append, List.map_append, List.mem_append, List.mem_append]
  cases l.x.isZero && l.y.isZero with
  | true =>
    simp only [hfront, hback, if_true, List.map_nil, List.not_mem_nil, or_self, Bool.true_eq_false]
  | false =>
    simp only [Bool.false_eq_true, if_false, List.map_singleton, kind, List.mem_singleton, or_true,
      true_or]

/-! ### The style of a node -/

namespace React

/-- The entries for a node: those of its axis if it has room for children, and those of its
attributes. An entry of an attribute can replace one of the axis. -/
def styleEntries (kind : Kind) (attributes : List (Attribute Text)) : List Entry :=
  (if kind.role.hasRoom then axisEntries kind.axis else []) ++ attributes.flatMap entries

/-- The property of a style, if it has entries. An empty style is not written at all. -/
def property? (style : List Entry) : Option Text :=
  if style.isEmpty then none
  else some ("style=\x7b\x7b ".toList
    ++ joinWith ", ".toList (style.map fun entry => entry.1 ++ ": ".toList ++ entry.2)
    ++ " \x7d\x7d".toList)

/-- The tag of a node: the name of its primitive if it has one. The nodes that have none are drawn
like a container. -/
def tag (kind : Kind) : Text := (kind.primitive? .react).getD "div".toList

/-- The property in front of the style, which tells the name of a layer: of a component on one line,
and of an image as it is. -/
def label? (l : Layer) : Role → Option Text
  | .custom => some ("data-figma-component=".toList ++ expression (onOneLine l.name))
  | .image => some ("alt=".toList ++ expression l.name)
  | .container | .text | .shape => none

/-- Merging makes an empty style of no entries, and of nothing else: the first key is never lost. -/
theorem merge_eq_nil_iff {all : List Entry} : merge all = [] ↔ all = [] := by
  constructor
  · intro h
    have hkeys := keys_merge all
    rw [h] at hkeys
    cases all with
    | nil => rfl
    | cons first rest =>
      rw [List.map_cons, List.eraseDups_cons] at hkeys
      cases hkeys
  · rintro rfl
    rfl

/-- Merging leaves no style empty, so it does not matter whether there is nothing to merge or
nothing merged. -/
theorem style?_eq_property? (all : List Entry) : style? all = property? (merge all) := by
  have hempty : (merge all).isEmpty = all.isEmpty := by
    rw [Bool.eq_iff_iff, List.isEmpty_iff, List.isEmpty_iff]
    exact merge_eq_nil_iff
  rw [style?, property?, hempty]

/-- Where a node is positioned: by its offset if it has one, else by its axis if it has room for
children. Otherwise it has no position. -/
theorem lookup_position_styleEntries (kind : Kind) (attributes : List (Attribute Text)) :
    (styleEntries kind attributes).reverse.lookup positionKey
      = if .offset ∈ attributes.map Attribute.kind then some "'absolute'".toList
        else if kind.role.hasRoom then some "'relative'".toList else none := by
  rw [styleEntries, List.reverse_append, List.lookup_append, lookup_position_flatMap]
  split
  · exact Option.some_or
  · rw [Option.none_or]
    split
    · exact lookup_position_axisEntries kind.axis
    · rfl

/-- Whether a text goes on with the end of a tag. A node without children is closed at once, and any
other is left open. -/
def EndsTag (t : Text) : Prop := " />".toList <+: t ∨ ">".toList <+: t

/-- What follows the end of a tag does not matter. -/
theorem EndsTag.append {t : Text} (h : EndsTag t) (more : Text) : EndsTag (t ++ more) :=
  h.imp (fun hclosed => hclosed.trans (List.prefix_append t more))
    fun hopen => hopen.trans (List.prefix_append t more)

/-- An element has its properties on the first line, and its tag ends there. -/
theorem exists_element_eq_outer (name : Text) (properties : List (Option Text))
    (children : List Block) : ∃ ending rest, EndsTag ending
      ∧ element name properties children
        = Line.outer ("<".toList ++ opening name properties ++ ending) :: rest := by
  obtain ⟨ending, rest, hmem, heq⟩ := exists_element_eq name children
  refine ⟨ending, rest, ?_, heq properties⟩
  simp only [List.mem_cons, List.not_mem_nil, or_false] at hmem
  rcases hmem with rfl | rfl
  · exact .inl List.prefix_rfl
  · exact .inr List.prefix_rfl

/-- Nodes without room for children have a primitive, which is their tag. -/
theorem getD_primitive?_eq_tag {kind : Kind} (h : kind.role.hasRoom = false) :
    (kind.primitive? .react).getD [] = tag kind := by
  cases hprimitive : kind.primitive? .react with
  | some name => rw [tag, hprimitive, Option.getD_some, Option.getD_some]
  | none =>
    rw [Kind.role_of_primitive?_none hprimitive] at h
    cases h

/-- A node is drawn with its style on the first line. The shapes differ in what stands in front of
the style and in what follows the tag. -/
theorem exists_draw_eq (l : Layer) (hasChildren : Bool) (attributes : List (Attribute Text))
    (pieces : List Block) :
    ∃ ending rest, EndsTag ending
      ∧ l.draw .react hasChildren attributes pieces
        = Line.outer ("<".toList ++ opening (tag (l.kind hasChildren))
            [label? l (l.kind hasChildren).role,
              property? (merge (styleEntries (l.kind hasChildren) attributes))] ++ ending)
          :: rest := by
  rw [← style?_eq_property?]
  simp only [Layer.draw, styleEntries]
  generalize l.kind hasChildren = kind
  cases hrole : kind.role with
  | text =>
    -- A text stands on one line with its tags, the only node that is no element.
    rw [getD_primitive?_eq_tag (by rw [hrole]; rfl)]
    refine ⟨">".toList ++ (expression ((Attribute.filled? l.text).getD sampleText)
      ++ closing (tag kind)), [], .inr (List.prefix_append _ _), ?_⟩
    rw [← List.append_assoc, ← List.append_assoc]
    rfl
  | shape =>
    rw [getD_primitive?_eq_tag (by rw [hrole]; rfl)]
    exact exists_element_eq_outer (tag kind) [leafStyle attributes] []
  | image =>
    rw [getD_primitive?_eq_tag (by rw [hrole]; rfl)]
    exact exists_element_eq_outer (tag kind) [label? l .image, leafStyle attributes] []
  | container =>
    cases hprimitive : kind.primitive? .react with
    | some name =>
      have htag : tag kind = name := by rw [tag, hprimitive, Option.getD_some]
      rw [htag]
      exact exists_element_eq_outer name [containerStyle kind.axis attributes] pieces
    | none =>
      have hcustom := Kind.role_of_primitive?_none hprimitive
      exact absurd (hrole.symm.trans hcustom) (by decide)
  | custom =>
    cases hprimitive : kind.primitive? .react with
    | some name => exact absurd hrole (Kind.role_of_primitive?_some hprimitive)
    | none =>
      have htag : tag kind = "div".toList := by rw [tag, hprimitive, Option.getD_none]
      rw [htag]
      exact exists_element_eq_outer "div".toList
        [label? l .custom, containerStyle kind.axis attributes] pieces

end React

/-- The first line of a piece stands at its depth, and whatever follows is behind it. -/
theorem Block.exists_layOut_eq (unit : Text) (depth : Int) (first : Text) (rest : Block) :
    ∃ more, layOut unit depth (Line.outer first :: rest)
      = unit.times depth.toNat ++ (first ++ more) := by
  have hfirst : layOutLine unit depth (Line.outer first) = unit.times depth.toNat ++ first := by
    rw [layOutLine, Line.outer, Int.natCast_zero, Int.add_zero]
  rw [layOut, List.map_cons, hfirst]
  cases rest with
  | nil => exact ⟨[], by rw [List.map_nil, unlines_singleton, List.append_nil]⟩
  | cons next others =>
    refine ⟨'\n' :: unlines ((next :: others).map (layOutLine unit depth)), ?_⟩
    rw [unlines_cons _ (by simp), List.append_assoc]

/-- What the code of a node says of its style, which is merged from the entries for the axis and the
attributes. -/
structure Node.Styled (node : Node) (depth : Int) (code : Text) (attributes : List (Attribute Text))
    (style : List React.Entry) : Prop where
  spelled : Attribute.spell .react
    (Attribute.collect node.layer node.kind.role (some node.kind.axis)) = .ok attributes
  merges : React.Merges (React.styleEntries node.kind attributes) style
  position : style.lookup React.positionKey
    = if node.layer.x.isZero && node.layer.y.isZero then
        (if node.kind.role.hasRoom then some "'relative'".toList else none)
      else some "'absolute'".toList
  absent : React.property? style = none ↔ React.styleEntries node.kind attributes = []
  code : ∃ ending, React.EndsTag ending
    ∧ code = Text.times "  ".toList depth.toNat ++ ("<".toList
      ++ React.opening (React.tag node.kind)
        [React.label? node.layer node.kind.role, React.property? style] ++ ending)

/-- Every node that is rendered for React begins with an opening tag that holds its style.

The style is named here together with the attributes it comes from, and `Node.Styled` says how the
two belong together. The node may have any children; their code is behind the tag. -/
theorem Node.styled_of_renderAt {node : Node} {depth : Int} {code : Text}
    (h : node.renderAt .react depth = .ok code) :
    ∃ attributes style, node.Styled depth code attributes style := by
  obtain ⟨l, children⟩ := node
  obtain ⟨block, hblock, rfl⟩ := Outcome.map_eq_ok.mp h
  obtain ⟨attributes, pieces, hspell, -, rfl⟩ := render_mk_eq_ok hblock
  have hkind : kind (.mk l children) = l.kind (!children.isEmpty) := rfl
  refine ⟨attributes, React.merge (React.styleEntries (l.kind (!children.isEmpty)) attributes), ?_⟩
  constructor
  case merges => exact React.merges_merge _
  case spelled => exact hspell
  -- The entries decide where the node is positioned, and the offset among them stands for its
  -- place.
  case position =>
    rw [React.lookup_merge, React.lookup_position_styleEntries, hkind]
    have hoffset := Attribute.offset_mem_collect_iff l (l.kind (!children.isEmpty)).role
      (some (l.kind (!children.isEmpty)).axis)
    rw [← Attribute.map_kind_of_spell hspell] at hoffset
    show _ = if l.x.isZero && l.y.isZero then _ else _
    cases hzero : l.x.isZero && l.y.isZero with
    | true =>
      rw [hzero] at hoffset
      rw [if_neg (hoffset.not.mpr (by decide))]
      rfl
    | false => rw [if_pos (hoffset.mpr hzero)]; rfl
  case absent =>
    rw [← React.merge_eq_nil_iff, React.property?, hkind]
    simp
  case code =>
    obtain ⟨ending, rest, hending, hdraw⟩ :=
      React.exists_draw_eq l (!children.isEmpty) attributes pieces
    rw [hdraw]
    obtain ⟨more, hlayOut⟩ := Block.exists_layOut_eq "  ".toList depth _ rest
    refine ⟨ending ++ more, hending.append more, ?_⟩
    exact hlayOut.trans (congrArg _ (List.append_assoc _ ending more))

/-- A frame with a border around round corners, to the right of its place. -/
def Node.moved : Node :=
  .mk { Layer.plain "FRAME".toList with
    x := .ofQuotient 3 1, layout := some .horizontal, borderColor := some "#ff0000ff".toList,
    borderWidth := some (.ofQuotient 1 1), borderRadius := some (.ofQuotient 4 1) } []

/-- Its position by the axis is replaced in place: it is absolute, and stands between the direction
and the border. -/
theorem Node.moved_styled :
    (∃ code attributes style, moved.renderAt .react 0 = .ok code
      ∧ moved.Styled 0 code attributes style)
    ∧ (moved.renderAt .react 0).toOption = some
      ("<div style=\x7b\x7b display: 'flex', flexDirection: 'row', position: 'absolute', ".toList
        ++ "border: '1px solid #ff0000ff', borderRadius: '4px', ".toList
        ++ "left: '3px', top: '0px' \x7d\x7d />".toList) := by
  have htext : (moved.renderAt .react 0).toOption = some
      ("<div style=\x7b\x7b display: 'flex', flexDirection: 'row', position: 'absolute', ".toList
        ++ "border: '1px solid #ff0000ff', borderRadius: '4px', ".toList
        ++ "left: '3px', top: '0px' \x7d\x7d />".toList) := by decide +kernel
  have hcode := Outcome.toOption_eq_some.mp htext
  obtain ⟨attributes, style, hstyled⟩ := Node.styled_of_renderAt hcode
  exact ⟨⟨_, attributes, style, hcode, hstyled⟩, htext⟩

end DesignCompiler
