import Mathlib.Data.List.Sort
import DesignCompiler.Proofs.Render.Tree

/-!
# `DesignCompiler.Proofs.Render.Kinds`: which kinds of attributes a layer has, and in which order

The kinds of a layer's attributes come in the order in which they are declared, so none comes twice.
A layer has a border or round corners of its own, never both; there is no spacing without an axis;
only a text has attributes of text. `AttributeKind.IsCanonical` says this of a list of kinds, and
`Attribute.isCanonical_collect` of the attributes of every layer, role and axis. Spelling font
weights changes no kind (`Attribute.map_kind_of_spell`).

A canonical list is known by its members (`IsCanonical.eq_of_mem_iff`). So whoever looks for the
kinds of some attributes in generated code only has to find a mark of each. An `Attribute.Marking`
says which words are the marks; a border may leave the word of the corner radius too, which does no
harm because a layer with a border has no corner radius of its own (`Marking.map_kind_eq`).
-/

set_option autoImplicit false

namespace DesignCompiler

namespace AttributeKind

/-- The kinds in the order in which they are declared. -/
def declared : List AttributeKind := tokens.map (·.2)

/-- The place of a kind in the declared order. -/
def rank (kind : AttributeKind) : Nat := declared.idxOf kind

/-- The kinds of attributes that only texts have. -/
def ofTexts : List AttributeKind := [.textColor, .fontSize, .fontWeight]

/-- Every kind has a place in the order. -/
theorem mem_declared (kind : AttributeKind) : kind ∈ declared := by
  cases kind <;> decide

/-- Kinds in the declared order, with what excludes a kind. Strictly increasing ranks say at once
that no kind comes twice. -/
structure IsCanonical (role : Role) (axis : Option Axis) (kinds : List AttributeKind) : Prop where
  increasing : kinds.Pairwise fun a b => a.rank < b.rank
  edge : ¬ (.border ∈ kinds ∧ .cornerRadius ∈ kinds)
  spacing : axis = some .none → .spacing ∉ kinds
  text : role ≠ .text → ∀ kind ∈ ofTexts, kind ∉ kinds

/-- Whether a role and an axis leave a kind at all. -/
def Fits (role : Role) (axis : Option Axis) (kind : AttributeKind) : Prop :=
  (axis = some .none → kind ≠ .spacing) ∧ (role ≠ .text → kind ∉ ofTexts)

/-- Decided, for the kinds and roles are few. -/
instance (role : Role) (axis : Option Axis) (kind : AttributeKind) :
    Decidable (Fits role axis kind) :=
  inferInstanceAs (Decidable (_ ∧ _))

/-- A border fits everywhere: it is neither a spacing nor an attribute of texts. -/
theorem fits_border (role : Role) (axis : Option Axis) : Fits role axis .border :=
  ⟨fun _ => nofun, fun _ => by decide⟩

/-- The kinds of a canonical list fit its role and axis. -/
theorem IsCanonical.fits {role : Role} {axis : Option Axis} {kinds : List AttributeKind}
    (h : IsCanonical role axis kinds) {kind : AttributeKind} (hkind : kind ∈ kinds) :
    Fits role axis kind := by
  refine ⟨?_, fun hrole hmem => h.text hrole kind hmem hkind⟩
  rintro haxis rfl
  exact h.spacing haxis hkind

/-- All kinds that a role and an axis leave, if the edge has a given kind. They are in the declared
order, so canonical lists are the sublists of these. -/
def allowed (role : Role) (axis : Option Axis) (edge : AttributeKind) : List AttributeKind :=
  [.size, .background, edge, .padding] ++ (if axis = some .none then [] else [.spacing])
    ++ [.offset] ++ (if role = .text then ofTexts else [])

/-- Some of the kinds that a role and an axis leave, in their order, are canonical. Each clause is
read off the whole list, and there are few of these. -/
theorem isCanonical_of_sublist {role : Role} {axis : Option Axis} {edge : AttributeKind}
    (hedge : edge ∈ [AttributeKind.border, .cornerRadius]) {kinds : List AttributeKind}
    (h : kinds.Sublist (allowed role axis edge)) : IsCanonical role axis kinds := by
  -- Whatever the role and the axis, the list is one of eight.
  have hincreasing : (allowed role axis edge).Pairwise fun a b => a.rank < b.rank := by
    rw [allowed]
    simp only [List.mem_cons, List.not_mem_nil, or_false] at hedge
    rcases hedge with rfl | rfl <;> split <;> split <;> decide
  constructor
  case increasing => exact hincreasing.sublist h
  case edge =>
    rintro ⟨hborder, hcorner⟩
    have hboth : .border ∈ allowed role axis edge ∧ .cornerRadius ∈ allowed role axis edge :=
      ⟨h.subset hborder, h.subset hcorner⟩
    rw [allowed] at hboth
    simp only [List.mem_cons, List.not_mem_nil, or_false] at hedge
    revert hboth
    rcases hedge with rfl | rfl <;> split <;> split <;> decide
  case spacing =>
    rintro rfl hspacing
    have hallowed := h.subset hspacing
    rw [allowed, if_pos rfl] at hallowed
    simp only [List.mem_cons, List.not_mem_nil, or_false] at hedge
    revert hallowed
    rcases hedge with rfl | rfl <;> split <;> decide
  case text =>
    intro hrole kind hkind hmem
    have hallowed := h.subset hmem
    rw [allowed, if_neg hrole] at hallowed
    simp only [ofTexts, List.mem_cons, List.not_mem_nil, or_false] at hedge hkind
    revert hallowed
    rcases hedge with rfl | rfl <;> rcases hkind with rfl | rfl | rfl <;> split <;> decide

/-- Canonical lists with the same members are equal, since the order is given. -/
theorem IsCanonical.eq_of_mem_iff {role : Role} {axis : Option Axis}
    {kinds others : List AttributeKind} (hkinds : IsCanonical role axis kinds)
    (hothers : IsCanonical role axis others) (h : ∀ kind, kind ∈ kinds ↔ kind ∈ others) :
    kinds = others := by
  let before (a b : AttributeKind) : Prop := a.rank < b.rank
  have : Std.Irrefl before := ⟨fun a => Nat.lt_irrefl a.rank⟩
  have : Std.Antisymm before := ⟨fun a b hab hba => absurd (Nat.lt_trans hab hba) (Nat.lt_irrefl _)⟩
  exact List.Pairwise.eq_of_mem_iff hkinds.increasing hothers.increasing h

end AttributeKind

namespace Attribute

open AttributeKind

variable {ω : Type}

/-- An attribute that may be there is at most one of its kind. Seven of the ten kinds come up in
this way. -/
theorem sublist_of_map {α : Type} {kind : AttributeKind} (make : α → Attribute ω)
    (hmake : ∀ a, (make a).kind = kind) (value : Option α) :
    ((value.map make).toList.map Attribute.kind).Sublist [kind] := by
  cases value with
  | none => exact List.nil_sublist _
  | some a => simp [hmake]

/-- The edge of a layer is a border or a radius, and the radius is asked for only where there is no
border. -/
theorem exists_sublist_edge (l : Layer) : ∃ kind ∈ [AttributeKind.border, .cornerRadius],
    ((edge l : List (Attribute FontWeight)).map Attribute.kind).Sublist [kind] := by
  rw [edge]
  cases hborder : (borderOf l : Option (Attribute FontWeight)) with
  | none => exact ⟨.cornerRadius, by simp, sublist_of_map .cornerRadius (fun _ => rfl) _⟩
  | some found =>
    refine ⟨.border, by simp, ?_⟩
    rw [borderOf] at hborder
    split at hborder
    · cases hborder
      exact List.Sublist.refl _
    · cases hborder

/-- The kinds that are collected for a layer are some of those that its role and axis leave. The
facts named below are one for each part of `Attribute.collect`, in its order. -/
theorem sublist_collect (l : Layer) (role : Role) (axis : Option Axis) :
    ∃ kind ∈ [AttributeKind.border, .cornerRadius],
      ((collect l role axis).map Attribute.kind).Sublist (allowed role axis kind) := by
  obtain ⟨kind, hkind, hedge⟩ := exists_sublist_edge l
  refine ⟨kind, hkind, ?_⟩
  -- Every part of the list may be missing, and none is there twice.
  have hsize : ((if l.width.isPositive && l.height.isPositive
      then [Attribute.size l.width l.height] else ([] : List (Attribute FontWeight))).map
        Attribute.kind).Sublist [.size] := by
    split <;> simp [Attribute.kind]
  have hspacing : ((if axis = some .none then [] else
      ((nonzero? l.spacing).map .spacing).toList : List (Attribute FontWeight)).map
        Attribute.kind).Sublist (if axis = some .none then [] else [.spacing]) := by
    split
    · exact List.Sublist.refl _
    · exact sublist_of_map .spacing (fun _ => rfl) _
  have hoffset : ((if l.x.isZero && l.y.isZero then [] else
      [.offset l.x l.y] : List (Attribute FontWeight)).map Attribute.kind).Sublist [.offset] := by
    split <;> simp [Attribute.kind]
  have htext : ((if role = .text then ofText l else []).map Attribute.kind).Sublist
      (if role = .text then ofTexts else []) := by
    split
    · rw [ofText, List.map_append, List.map_append]
      exact ((sublist_of_map .textColor (fun _ => rfl) _).append
        (sublist_of_map .fontSize (fun _ => rfl) _)).append
          (sublist_of_map .fontWeight (fun _ => rfl) _)
    · exact List.Sublist.refl _
  have hbackground := sublist_of_map (.background : Text → Attribute FontWeight) (fun _ => rfl)
    (filled? l.backgroundColor)
  have hpadding := sublist_of_map (.padding : Padding → Attribute FontWeight) (fun _ => rfl)
    l.padding
  have hfront := ((hsize.append hbackground).append hedge).append hpadding
  rw [collect, allowed]
  simp only [List.map_append]
  exact ((hfront.append hspacing).append hoffset).append htext

/-- The kinds that are collected for a layer are canonical. -/
theorem isCanonical_collect (l : Layer) (role : Role) (axis : Option Axis) :
    IsCanonical role axis ((collect l role axis).map Attribute.kind) := by
  obtain ⟨kind, hkind, h⟩ := sublist_collect l role axis
  exact isCanonical_of_sublist hkind h

/-- Spelling font weights keeps the kinds: every attribute stays where it is, and only the weight is
replaced by its word. -/
theorem map_kind_of_spell {platform : Platform} {attributes : List (Attribute FontWeight)}
    {spelled : List (Attribute Text)} (h : spell platform attributes = .ok spelled) :
    spelled.map Attribute.kind = attributes.map Attribute.kind := by
  induction attributes generalizing spelled with
  | nil =>
    cases h
    rfl
  | cons first rest ih =>
    rw [spell] at h
    obtain ⟨one, hone, h⟩ := Outcome.bind_eq_ok.mp h
    obtain ⟨others, hothers, h⟩ := Outcome.bind_eq_ok.mp h
    cases h
    -- Only a weight is spelled anew, and it stays a weight.
    have hkind : one.kind = first.kind := by
      cases first with
      | fontWeight weight =>
        obtain ⟨word, -, rfl⟩ := Outcome.map_eq_ok.mp hone
        rfl
      | size | background | border | cornerRadius | padding | spacing | offset | textColor
      | fontSize =>
        cases hone
        rfl
    rw [List.map_cons, List.map_cons, hkind, ih hothers]

/-- There is a spacing among some attributes if one of them is of that kind. -/
theorem isSome_spacing?_iff {attributes : List (Attribute ω)} :
    (spacing? attributes).isSome ↔ ∃ a ∈ attributes, a.kind = .spacing := by
  rw [spacing?, List.isSome_findSome?]
  refine (List.any_eq_true).trans (exists_congr fun a => and_congr_right fun _ => ?_)
  cases a <;> simp [kind]

/-! ### Marks in code -/

/-- Whether an attribute is a border around round corners. -/
def rounds : Attribute ω → Bool
  | .border _ _ radius => !radius.isZero
  | _ => false

/-- Words that mark the kinds of attributes in some code. Each kind has a word of its own, which is
among the `marks` that it leaves; these may depend on whether a border is round. Of the kinds that a
role and an axis leave, only a border leaves the word of another one, that of the corner radius. The
`fixed` words may stand in the code whatever the attributes are. -/
structure Marking (role : Role) (axis : Axis) (word : AttributeKind → Text)
    (marks : Bool → AttributeKind → List Text) (fixed : List Text) : Prop where
  own : ∀ rounds, ∀ kind ∈ declared, word kind ∈ marks rounds kind
  distinct : ∀ rounds, ∀ kind ∈ declared, ∀ other ∈ declared, Fits role (some axis) kind →
    Fits role (some axis) other → word other ∈ marks rounds kind →
      other = kind ∨ other = .cornerRadius ∧ kind = .border
  free : ∀ kind ∈ declared, word kind ∉ fixed

/-- The words of some code are the marks of its attributes and, it may be, fixed ones. `complete`
finds every attribute in the code, and `sound` says that no word came from elsewhere. -/
structure Marked (marks : Bool → AttributeKind → List Text) (fixed words : List Text)
    (attributes : List (Attribute Text)) : Prop where
  complete : ∀ a ∈ attributes, ∀ w ∈ marks a.rounds a.kind, w ∈ words
  sound : ∀ w ∈ words, w ∈ fixed ∨ ∃ a ∈ attributes, w ∈ marks a.rounds a.kind

section

variable {role : Role} {axis : Axis} {word : AttributeKind → Text}
  {marks : Bool → AttributeKind → List Text} {fixed words : List Text}
  {as bs : List (Attribute Text)}

/-- Where the word of a kind stands, there is an attribute of the kind, or a border if the word is
that of the corner radius. -/
theorem Marking.kind_of_word (h : Marking role axis word marks fixed)
    (hb : Marked marks fixed words bs) (hcanonical : IsCanonical role (some axis) (bs.map kind))
    {sought : AttributeKind} (hfits : Fits role (some axis) sought) (hword : word sought ∈ words) :
    sought ∈ bs.map kind ∨ sought = .cornerRadius ∧ .border ∈ bs.map kind := by
  have hsought := mem_declared sought
  rcases hb.sound (word sought) hword with hfixed | ⟨b, hmem, hmark⟩
  · exact absurd hfixed (h.free sought hsought)
  · have hkind : b.kind ∈ bs.map kind := List.mem_map_of_mem hmem
    rcases h.distinct b.rounds b.kind (mem_declared b.kind) sought hsought (hcanonical.fits hkind)
        hfits hmark with rfl | ⟨hcorner, hborder⟩
    · exact .inl hkind
    · exact .inr ⟨hcorner, hborder ▸ hkind⟩

/-- The kinds of attributes leave their words. -/
theorem Marking.word_of_kind (h : Marking role axis word marks fixed)
    (ha : Marked marks fixed words as) {sought : AttributeKind} (hkind : sought ∈ as.map kind) :
    word sought ∈ words := by
  obtain ⟨a, hmem, rfl⟩ := List.mem_map.mp hkind
  exact ha.complete a hmem _ (h.own a.rounds a.kind (mem_declared a.kind))

/-- Kinds of attributes that are marked with the same words are found on both sides. -/
theorem Marking.mem_of_mem (h : Marking role axis word marks fixed)
    (ha : Marked marks fixed words as) (hb : Marked marks fixed words bs)
    (hcas : IsCanonical role (some axis) (as.map kind))
    (hcbs : IsCanonical role (some axis) (bs.map kind)) {sought : AttributeKind}
    (hkind : sought ∈ as.map kind) : sought ∈ bs.map kind := by
  rcases h.kind_of_word hb hcbs (hcas.fits hkind) (h.word_of_kind ha hkind) with
    hmem | ⟨rfl, hborder⟩
  · exact hmem
  · -- The border on the one side has left its word, so it is on the other side, beside the radius.
    rcases h.kind_of_word ha hcas (fits_border role (some axis)) (h.word_of_kind hb hborder) with
      hboth | ⟨hne, -⟩
    · exact absurd ⟨hboth, hkind⟩ hcas.edge
    · cases hne

/-- Attributes that are marked with the same words are of the same kinds. Neither the words nor the
attributes have to be compared: the kinds of both sides are found in the same code. -/
theorem Marking.map_kind_eq (h : Marking role axis word marks fixed)
    (ha : Marked marks fixed words as) (hb : Marked marks fixed words bs)
    (hcas : IsCanonical role (some axis) (as.map kind))
    (hcbs : IsCanonical role (some axis) (bs.map kind)) : as.map kind = bs.map kind := by
  refine hcas.eq_of_mem_iff hcbs ?_
  intro sought
  exact ⟨h.mem_of_mem ha hb hcas hcbs, h.mem_of_mem hb ha hcbs hcas⟩

end

end Attribute

end DesignCompiler
