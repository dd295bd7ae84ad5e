import DesignCompiler.Proofs.Render.Guarded
import DesignCompiler.Proofs.Trace.Lines

/-!
# `DesignCompiler.Proofs.Trace.SwiftUI`: SwiftUI shows the kinds of attributes

A modifier begins with its name, and stands on a line of its own below the view. Only a border has
more than one line, and only the spacing has none: it is an argument of the stack, where it stands
between the alignment and the closing bracket. So equal code has equal words (`modifierWords`,
`gapText`), and the words are marks of the kinds (`marking`).
-/

set_option autoImplicit false

namespace DesignCompiler.SwiftUI

open Text AttributeKind

/-- The word that marks a kind: the name of a modifier, or that of the argument for the spacing. -/
def word (role : Role) : AttributeKind → Text
  | .size => ".frame".toList
  | .background => if role = .shape then ".foregroundColor".toList else ".background".toList
  | .border => ".overlay".toList
  | .cornerRadius => ".clipShape".toList
  | .padding => ".padding".toList
  | .spacing => "spacing".toList
  | .offset => ".offset".toList
  | .textColor => ".foregroundColor".toList
  | .fontSize => ".font".toList
  | .fontWeight => ".fontWeight".toList

/-- The words that a kind leaves. A border is drawn over four lines, and clips its corners if they
are round. -/
def marks (role : Role) (rounds : Bool) : AttributeKind → List Text
  | .border =>
    (if rounds then [".clipShape".toList] else [])
      ++ [".overlay".toList, if rounds then "RoundedRectangle".toList else "Rectangle".toList,
        ".stroke".toList, []]
  | kind => [word role kind]

/-- Only a border leaves more words than its own, so every other kind is dealt with by its word. -/
theorem marks_of_ne_border (role : Role) (rounds : Bool) {kind : AttributeKind}
    (h : kind ≠ .border) : marks role rounds kind = [word role kind] := by
  cases kind with
  | border => exact absurd rfl h
  | size | background | cornerRadius | padding | spacing | offset | textColor | fontSize
  | fontWeight => rfl

/-- The words of modifiers tell kinds apart. A shape is filled by the modifier that colours a text,
but has no colour of text. -/
theorem marking (role : Role) (axis : Axis) :
    Attribute.Marking role axis (word role) (marks role) [] where
  own := by cases role <;> decide
  distinct := by
    have hview : ∀ rounds, ∀ kind ∈ declared, ∀ other ∈ declared,
        word .container other ∈ marks .container rounds kind →
          other = kind ∨ other = .cornerRadius ∧ kind = .border := by decide +kernel
    have hshape : ∀ rounds, ∀ kind ∈ declared, ∀ other ∈ declared, kind ∉ ofTexts →
        other ∉ ofTexts → word .shape other ∈ marks .shape rounds kind →
          other = kind ∨ other = .cornerRadius ∧ kind = .border := by decide +kernel
    intro rounds kind hkind other hother hfits hsought hword
    cases role with
    | shape =>
      have hkept : kind ∉ ofTexts := hfits.2 (by decide)
      exact hshape rounds kind hkind other hother hkept (hsought.2 (by decide)) hword
    -- Every other role is drawn like a container.
    | container | text | image | custom => exact hview rounds kind hkind other hother hword
  free _ _ := List.not_mem_nil

/-! ### The words of modifiers -/

/-- The first words of the lines of the modifiers for an attribute, in the order in which they are
written. -/
def modifierWords (role : Role) (a : Attribute Text) : List Text :=
  ((modifiers role a).flatMap lines).map leadingWord

/-- A modifier on one line leaves its name, and nothing of its values. -/
theorem map_leadingWord_lines {m w : Text} (hm : Unbroken m) (hw : Leads w m) :
    ([m].flatMap lines).map leadingWord = [w] := by
  rw [List.flatMap_singleton, lines_unbroken hm, List.map_singleton, hw.eq]

/-- A modifier for an attribute other than a border begins with the word of its kind. Each case
finds the fixed start of the modifier and lets the values follow it. -/
theorem leads_modifiers (role : Role) {a : Attribute Text} (hkind : a.kind ≠ .border) :
    ∀ m ∈ modifiers role a, Leads (word role a.kind) m := by
  cases a with
  | size width height =>
    have hstart : Leads ".frame".toList ".frame(width: ".toList := .of_stop (by decide)
    exact List.forall_mem_singleton.mpr ((((hstart.append _).append _).append _).append _)
  | background c =>
    have hstart : Leads (word role .background)
        (if role = .shape then ".foregroundColor(".toList else ".background(".toList) := by
      show Leads (if role = .shape then ".foregroundColor".toList else ".background".toList) _
      split <;> exact .of_stop (by decide)
    exact List.forall_mem_singleton.mpr ((hstart.append _).append _)
  | border c width radius => exact absurd rfl hkind
  | cornerRadius radius =>
    have hstart : Leads ".clipShape".toList ".clipShape(".toList := .of_stop (by decide)
    exact List.forall_mem_singleton.mpr ((hstart.append _).append _)
  | padding sides =>
    have hstart : Leads ".padding".toList ".padding(EdgeInsets(top: ".toList :=
      .of_stop (by decide)
    exact List.forall_mem_singleton.mpr
      ((((((((hstart.append _).append _).append _).append _).append _).append _).append _).append _)
  | spacing gap => exact List.forall_mem_nil _
  | offset x y =>
    have hstart : Leads ".offset".toList ".offset(x: ".toList := .of_stop (by decide)
    exact List.forall_mem_singleton.mpr ((((hstart.append _).append _).append _).append _)
  | textColor c =>
    have hstart : Leads ".foregroundColor".toList ".foregroundColor(".toList :=
      .of_stop (by decide)
    exact List.forall_mem_singleton.mpr ((hstart.append _).append _)
  | fontSize size =>
    have hstart : Leads ".font".toList ".font(.system(size: ".toList := .of_stop (by decide)
    exact List.forall_mem_singleton.mpr ((hstart.append _).append _)
  | fontWeight weight =>
    have hstart : Leads ".fontWeight".toList ".fontWeight(".toList := .of_stop (by decide)
    exact List.forall_mem_singleton.mpr ((hstart.append _).append _)

/-- There is one modifier for an attribute other than a border and the spacing. -/
theorem exists_modifiers_eq (role : Role) {a : Attribute Text} (hborder : a.kind ≠ .border)
    (hspacing : a.kind ≠ .spacing) : ∃ m, modifiers role a = [m] := by
  cases a with
  | border => exact absurd rfl hborder
  | spacing => exact absurd rfl hspacing
  | size | background | cornerRadius | padding | offset | textColor | fontSize | fontWeight =>
    exact ⟨_, rfl⟩

/-- The words of the overlay that draws a border along a shape: one for each of its four lines, of
which the last only closes a bracket. -/
theorem words_overlay {shape w c : Text} (hshape : Unbroken shape) (hw : Leads w shape)
    (hc : Unbroken c) (width : Binary64) :
    (lines (unlines
      [".overlay(".toList,
       "    ".toList ++ shape,
       "        .stroke(".toList ++ color c ++ ", lineWidth: ".toList ++ number width ++ ")".toList,
       ")".toList])).map leadingWord = [".overlay".toList, w, ".stroke".toList, []] := by
  have hstroke : Leads ".stroke".toList "        .stroke(".toList :=
    .of_stop (by decide)
  have hoverlay : leadingWord ".overlay(".toList = ".overlay".toList := by decide
  have hclose : leadingWord ")".toList = [] := by decide
  rw [lines_unlines (List.cons_ne_nil _ _)]
  · simp only [List.map_cons, List.map_nil]
    rw [hoverlay, (hw.indent (by decide)).eq, hclose,
      ((((hstroke.append _).append _).append _).append _).eq]
  · simp only [List.forall_mem_cons, unbroken_append]
    exact ⟨by decide, ⟨by decide, hshape⟩, ⟨⟨⟨⟨by decide, unbroken_color hc⟩, by decide⟩,
      unbroken_dimension width⟩, by decide⟩, by decide, List.forall_mem_nil _⟩

/-- The words of the modifiers for a border. Around round corners there is a clip in front of the
overlay. -/
theorem modifierWords_border {role : Role} {c : Text} (hc : Unbroken c) (width radius : Binary64) :
    modifierWords role (.border c width radius) = marks role (!radius.isZero) .border := by
  show ((borderModifiers c width radius).flatMap lines).map leadingWord = _
  simp only [borderModifiers]
  cases hradius : radius.isZero with
  | true =>
    -- A border around straight corners clips nothing.
    have hshape : Leads "Rectangle".toList "Rectangle()".toList := .of_stop (by decide)
    simp only [if_true, List.nil_append, List.flatMap_singleton]
    rw [words_overlay (by decide) hshape hc width]
    rfl
  | false =>
    have hclip : Leads ".clipShape".toList ".clipShape(".toList := .of_stop (by decide)
    have hstart : Leads "RoundedRectangle".toList "RoundedRectangle(cornerRadius: ".toList :=
      .of_stop (by decide)
    have hline : Unbroken (".clipShape(".toList ++ rounded radius ++ ")".toList) := by
      simp only [unbroken_append]
      exact ⟨⟨by decide, unbroken_rounded radius⟩, by decide⟩
    have hshape : Leads "RoundedRectangle".toList (rounded radius) :=
      (hstart.append _).append _
    rw [if_neg Bool.false_ne_true, if_neg Bool.false_ne_true, List.flatMap_append, List.map_append,
      map_leadingWord_lines hline ((hclip.append _).append _), List.flatMap_singleton,
      words_overlay (unbroken_rounded radius) hshape hc width]
    rfl

/-- The words of the modifiers are the marks of their attribute, unless that is the spacing, which
has no modifier. -/
theorem modifierWords_eq {role : Role} {a : Attribute Text} (h : ∀ t ∈ a.texts, Unbroken t) :
    modifierWords role a = if a.kind = .spacing then [] else marks role a.rounds a.kind := by
  by_cases hborder : a.kind = .border
  · cases a <;> cases hborder
    next c width radius => exact modifierWords_border (h c (List.mem_singleton_self c)) width radius
  · split
    · next hspacing =>
      cases a <;> cases hspacing
      rfl
    · next hspacing =>
      obtain ⟨m, hm⟩ := exists_modifiers_eq role hborder hspacing
      -- There is one modifier, on one line, that begins with its word.
      have hguarded := isGuardedLine_modifiers role hborder h
      have hleads := leads_modifiers role hborder
      rw [hm, List.forall_mem_singleton] at hguarded hleads
      rw [modifierWords, hm, map_leadingWord_lines hguarded.unbroken hleads,
        marks_of_ne_border role a.rounds hborder]

/-! ### The words of a view -/

/-- What a stack says of its spacing, between its alignment and the closing bracket. -/
def gapText (attributes : List (Attribute Text)) : Text :=
  match Attribute.spacing? attributes with
  | some gap => ", spacing: ".toList ++ number gap
  | none => []

/-- Only a spacing is told between the brackets of a stack, and it is always told with a word. -/
theorem gapText_ne_nil_iff {attributes : List (Attribute Text)} :
    gapText attributes ≠ [] ↔ ∃ a ∈ attributes, a.kind = .spacing := by
  rw [← Attribute.isSome_spacing?_iff, gapText]
  cases Attribute.spacing? attributes <;> simp

/-- The words of a view: that of the spacing, if the stack tells one, and those of the modifiers.
This is all that the comparison of two views uses. -/
def words (role : Role) (attributes : List (Attribute Text)) : List Text :=
  (if gapText attributes = [] then [] else ["spacing".toList])
    ++ attributes.flatMap (modifierWords role)

/-- The words of a view are the marks of its attributes, with no other words among them. -/
theorem marked_words {role : Role} {attributes : List (Attribute Text)}
    (h : Attribute.TextsIn (· ≠ '\n') attributes) :
    Attribute.Marked (marks role) [] (words role attributes) attributes := by
  have hwords : ∀ a ∈ attributes,
      modifierWords role a = if a.kind = .spacing then [] else marks role a.rounds a.kind :=
    fun a ha => modifierWords_eq fun _ => h.unbroken ha
  constructor
  case complete =>
    intro a ha w hw
    rw [words]
    -- The spacing has no modifier; its mark is on the first line.
    by_cases hspacing : a.kind = .spacing
    · rw [hspacing] at hw
      rw [if_neg (gapText_ne_nil_iff.mpr ⟨a, ha, hspacing⟩)]
      exact List.mem_append_left _ hw
    · refine List.mem_append_right _ (List.mem_flatMap.mpr ⟨a, ha, ?_⟩)
      rwa [hwords a ha, if_neg hspacing]
  case sound =>
    intro w hw
    right
    rw [words] at hw
    rcases List.mem_append.mp hw with hgap | hmodifier
    · split at hgap
      · cases hgap
      · next hne =>
        obtain ⟨a, ha, hspacing⟩ := gapText_ne_nil_iff.mp hne
        refine ⟨a, ha, ?_⟩
        rwa [hspacing]
    · obtain ⟨a, ha, hmem⟩ := List.mem_flatMap.mp hmodifier
      rw [hwords a ha] at hmem
      split at hmem
      · cases hmem
      · exact ⟨a, ha, hmem⟩

section

variable {role : Role} {axis : Axis} {as bs : List (Attribute Text)} {depth : Int}

/-- Views with the same words have attributes of the same kinds. -/
theorem map_kind_eq_of_words (ha : Attribute.Drawable role axis as)
    (hb : Attribute.Drawable role axis bs) (h : words role as = words role bs) :
    as.map Attribute.kind = bs.map Attribute.kind :=
  (marking role axis).map_kind_eq (marked_words ha.unbroken) (h ▸ marked_words hb.unbroken)
    ha.canonical hb.canonical

/-- Equal lines of modifiers have equal words. The modifiers of two attributes run into one another,
so the words are compared as one list. -/
theorem modifierWords_eq_of_textLines
    (h : Block.textLines target.unit depth (modifierLines role as)
      = Block.textLines target.unit depth (modifierLines role bs)) :
    as.flatMap (modifierWords role) = bs.flatMap (modifierWords role) := by
  have hlines : ∀ texts : List Text, ∀ t ∈ texts.flatMap lines, Unbroken t := by
    intro texts t ht
    obtain ⟨text, -, ht⟩ := List.mem_flatMap.mp ht
    exact unbroken_of_mem_lines ht
  have hwords : ∀ attributes : List (Attribute Text), attributes.flatMap (modifierWords role)
      = ((attributes.flatMap (modifiers role)).flatMap lines).map leadingWord := by
    intro attributes
    rw [List.flatMap_assoc, List.map_flatMap]
    rfl
  rw [modifierLines, modifierLines, Block.flatMap_insideText, Block.flatMap_insideText] at h
  rw [hwords, hwords, Block.eq_of_textLines_eq (by decide) (hlines _) (hlines _) h]

/-- Views whose attributes are all modifiers: those without an axis, which have no spacing. -/
theorem map_kind_eq_of_modifierLines {front : Block} (ha : Attribute.Drawable role .none as)
    (hb : Attribute.Drawable role .none bs) (hfront : front ≠ [])
    (h : Block.layOut target.unit depth (front ++ modifierLines role as)
      = Block.layOut target.unit depth (front ++ modifierLines role bs)) :
    as.map Attribute.kind = bs.map Attribute.kind := by
  have hgap : ∀ {attributes : List (Attribute Text)}, Attribute.Drawable role .none attributes →
      gapText attributes = [] := by
    intro attributes hdrawable
    by_contra hne
    obtain ⟨a, ha, hkind⟩ := gapText_ne_nil_iff.mp hne
    exact hdrawable.canonical.spacing rfl (hkind ▸ List.mem_map_of_mem ha)
  refine map_kind_eq_of_words ha hb ?_
  rw [words, words, hgap ha, hgap hb,
    modifierWords_eq_of_textLines (Block.textLines_eq_of_layOut_eq hfront h)]

/-- A stack is a line that tells the spacing, then what the children decide, and the modifiers. Only
whether there are children decides how the line ends. -/
theorem exists_stack_eq_gapText (name : Text) (axis : Axis) (role : Role) (children : List Block) :
    ∃ close rest, Unbroken close ∧ ∀ attributes, stack name axis role attributes children
      = Line.outer (name ++ "(alignment: ".toList ++ alignment axis ++ gapText attributes ++ close)
        :: (rest ++ modifierLines role attributes) := by
  cases hchildren : children.isEmpty with
  | true =>
    refine ⟨")".toList ++ " \x7b\x7d".toList, [], by decide, ?_⟩
    intro attributes
    simp only [stack, hchildren, if_true, List.append_assoc]
    rfl
  | false =>
    refine ⟨")".toList ++ " \x7b".toList,
      Block.innerAll children ++ [.outer "\x7d".toList], by decide, ?_⟩
    intro attributes
    simp only [stack, hchildren, Bool.false_eq_true, if_false, List.append_assoc]
    rfl

/-- Stacks with the same children have attributes of the same kinds. -/
theorem map_kind_eq_of_stack (front : Block) {name : Text} (hname : name.IsWord)
    {children : List Block} (ha : Attribute.Drawable role axis as)
    (hb : Attribute.Drawable role axis bs)
    (h : Block.layOut target.unit depth (front ++ stack name axis role as children)
      = Block.layOut target.unit depth (front ++ stack name axis role bs children)) :
    as.map Attribute.kind = bs.map Attribute.kind := by
  obtain ⟨close, rest, hclose, hstack⟩ := exists_stack_eq_gapText name axis role children
  have hhead : ∀ attributes, Unbroken
      (name ++ "(alignment: ".toList ++ alignment axis ++ gapText attributes ++ close) := by
    intro attributes
    have halignment : Unbroken (alignment axis) := by cases axis <;> decide
    have hgap : Unbroken (gapText attributes) := by
      rw [gapText]
      split
      · next gap _ => exact unbroken_append.mpr ⟨by decide, unbroken_dimension gap⟩
      · decide
    simp only [unbroken_append]
    exact ⟨⟨⟨⟨hname.unbroken, by decide⟩, halignment⟩, hgap⟩, hclose⟩
  rw [hstack as, hstack bs] at h
  -- The first line tells the spacing; what the children decide is the same on both sides.
  obtain ⟨hline, hback⟩ := Block.head_eq_of_layOut_eq front (by decide) (hhead as) (hhead bs) h
  have hgap := List.append_cancel_left (List.append_cancel_right hline)
  rw [Block.textLines_append, Block.textLines_append] at hback
  have hmodifiers := modifierWords_eq_of_textLines (List.append_cancel_left hback)
  refine map_kind_eq_of_words ha hb ?_
  rw [words, words, hgap, hmodifiers]

end

/-- SwiftUI shows the kinds of attributes. A container is a stack, and everything else is one or two
lines with modifiers below. -/
theorem showsKinds : target.ShowsKinds where
  container {name axis as bs pieces depth} hname ha hb h :=
    map_kind_eq_of_stack [] hname ha hb h
  custom {l l' axis as bs pieces depth} htype hname ha hb h := by
    have hstack : (stackName axis).IsWord := by cases axis <;> decide
    have hcode : ∀ (layer : Layer) attributes, target.custom layer axis attributes pieces
        = [Line.outer (customComment layer)]
          ++ stack (stackName axis) axis .custom attributes pieces := fun _ _ => rfl
    rw [hcode, hcode, customComment_eq htype hname] at h
    exact map_kind_eq_of_stack [_] hstack ha hb h
  text {name content as bs depth} _ ha hb h :=
    map_kind_eq_of_modifierLines ha hb (List.cons_ne_nil _ []) h
  shape {name as bs depth} _ ha hb h :=
    map_kind_eq_of_modifierLines ha hb (List.cons_ne_nil _ []) h
  image {name title as bs depth} _ ha hb h :=
    map_kind_eq_of_modifierLines ha hb (List.cons_ne_nil _ [_]) h

end DesignCompiler.SwiftUI
