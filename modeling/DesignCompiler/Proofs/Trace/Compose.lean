import DesignCompiler.Proofs.Render.Guarded
import DesignCompiler.Proofs.Trace.Lines

/-!
# `DesignCompiler.Proofs.Trace.Compose`: Compose shows the kinds of attributes

An attribute is a link of the modifier chain or a named argument, so a line of the call begins with
its name. The commas between the arguments stand at the end of lines and change no first word.
Calls with the same code have arguments with the same words (`words_eq_of_call`), and these words
are marks of the kinds (`marking`), besides the names of arguments that are there in any case.
-/

set_option autoImplicit false

namespace DesignCompiler.Compose

open Text AttributeKind

/-- The word that marks a kind: the name of a link or of an argument. For the spacing it depends on
the axis along which there is some. -/
def word (axis : Axis) : AttributeKind → Text
  | .size => ".width".toList
  | .background => ".background".toList
  | .border => ".border".toList
  | .cornerRadius => ".clip".toList
  | .padding => ".padding".toList
  | .spacing => (arrangement? axis).getD []
  | .offset => ".offset".toList
  | .textColor => "color".toList
  | .fontSize => "fontSize".toList
  | .fontWeight => "fontWeight".toList

/-- The words that a kind leaves. A border clips its corners if they are round, so it can leave the
word of another kind, and `Marking` allows for that. -/
def marks (axis : Axis) (rounds : Bool) : AttributeKind → List Text
  | .size => [".width".toList, ".height".toList]
  | .border => (if rounds then [".clip".toList] else []) ++ [".border".toList]
  | kind => [word axis kind]

/-- The names of arguments that tell no kind, as they may be there with any attributes. -/
def fixedWords : List Text :=
  ["text".toList, "painter".toList, "contentDescription".toList, "modifier".toList]

/-- The words of links and arguments tell kinds apart, whatever the role. Only along an axis there
is an argument for the spacing. -/
theorem marking (role : Role) (axis : Axis) :
    Attribute.Marking role axis (word axis) (marks axis) fixedWords where
  own := by cases axis <;> decide
  distinct := by
    have hall : ∀ rounds, ∀ kind ∈ declared, ∀ other ∈ declared,
        word axis other ∈ marks axis rounds kind →
          other = kind ∨ other = .cornerRadius ∧ kind = .border := by
      cases axis <;> decide +kernel
    intro rounds kind hkind other hother _ _ hword
    exact hall rounds kind hkind other hother hword
  free := by cases axis <;> decide

/-! ### The words of a call -/

/-- The first words of the lines of some arguments, without the commas between the arguments. -/
def words (arguments : List Argument) : List Text :=
  arguments.flatMap fun a => (lines a.text).map leadingWord

/-- The words of two lists of arguments are those of the one and of the other. -/
theorem words_append (front back : List Argument) :
    words (front ++ back) = words front ++ words back :=
  List.flatMap_append

/-- An argument on one line leaves its name, which ends at the blank before the sign. -/
theorem words_singleton {name literal : Text} (hname : name.IsWord) (hne : name ≠ [])
    (hliteral : Unbroken literal) : words [⟨name, literal⟩] = [name] := by
  have hline : Unbroken (name ++ " = ".toList ++ literal) := by
    simp only [unbroken_append]
    exact ⟨⟨hname.unbroken, by decide⟩, hliteral⟩
  have hleads : Leads name (name ++ " = ".toList ++ literal) :=
    Leads.append (.of_name hname (by decide) (absurd · hne) _) literal
  rw [words, List.flatMap_singleton, Argument.text, lines_unbroken hline, List.map_singleton,
    hleads.eq]

/-- The lines of arguments are one level inside the call, and begin with their words. The induction
is that of `argumentLines`, which looks whether an argument is the last. -/
theorem exists_argumentLines_eq (arguments : List Argument) :
    ∃ texts : List Text, (∀ t ∈ texts, Unbroken t) ∧ argumentLines arguments = texts.map (Line.mk 1)
      ∧ texts.map leadingWord = words arguments := by
  fun_induction argumentLines arguments with
  | case1 => exact ⟨[], List.forall_mem_nil _, rfl, rfl⟩
  | case2 last =>
    refine ⟨lines last.text, fun _ => unbroken_of_mem_lines, rfl, ?_⟩
    rw [words, List.flatMap_singleton]
  | case3 next rest _ ih =>
    -- A comma stands behind every argument but the last.
    obtain ⟨texts, hunbroken, hlines, hwords⟩ := ih
    refine ⟨lines (next.text ++ [',']) ++ texts, ?_, ?_, ?_⟩
    · exact List.forall_mem_append.mpr ⟨fun _ => unbroken_of_mem_lines, hunbroken⟩
    · rw [hlines, List.map_append]
      rfl
    · rw [List.map_append, map_leadingWord_lines_comma, hwords]
      rfl

/-- A call without arguments goes on behind its name with something else than a parenthesis that
stays open. This is how it is told from one with arguments. -/
theorem exists_call_nil_eq (name : Text) (content : Content) :
    ∃ bare rest, Unbroken bare ∧ bare ≠ "(".toList
      ∧ call name [] content = Line.outer (name ++ bare) :: rest := by
  cases content with
  | absent => exact ⟨"()".toList, [], by decide, by decide, rfl⟩
  | lambda children =>
    show ∃ bare rest, Unbroken bare ∧ bare ≠ "(".toList
      ∧ closeWith name (.lambda children) = Line.outer (name ++ bare) :: rest
    rw [closeWith]
    split
    · exact ⟨" \x7b\x7d".toList, [], by decide, by decide, rfl⟩
    · exact ⟨" \x7b".toList, _, by decide, by decide, rfl⟩

/-- A call with arguments opens a parenthesis behind its name. -/
theorem call_eq_of_ne_nil {arguments : List Argument} (h : arguments ≠ []) (name : Text)
    (content : Content) : call name arguments content = Line.outer (name ++ "(".toList)
      :: (argumentLines arguments ++ closeWith ")".toList content) := by
  have hempty : ¬ arguments.isEmpty = true := by simpa using h
  unfold call
  rw [if_neg hempty]
  rfl

section

variable {depth : Int} {name : Text} {content : Content} {arguments others : List Argument}

/-- A call without arguments is not one with arguments. They differ on the line of the name. -/
theorem layOut_call_nil_ne (front : Block) (hname : name.IsWord) (h : arguments ≠ []) :
    Block.layOut unit depth (front ++ call name [] content)
      ≠ Block.layOut unit depth (front ++ call name arguments content) := by
  intro heq
  obtain ⟨bare, rest, hbare, hne, hcall⟩ := exists_call_nil_eq name content
  rw [hcall, call_eq_of_ne_nil h] at heq
  obtain ⟨hline, -⟩ := Block.head_eq_of_layOut_eq front (by decide)
    (unbroken_append.mpr ⟨hname.unbroken, hbare⟩)
    (unbroken_append.mpr ⟨hname.unbroken, by decide⟩) heq
  exact hne (List.append_cancel_left hline)

/-- Equal calls have arguments with the same words. What stands before the call and what closes it
are the same on both sides. -/
theorem words_eq_of_call (front : Block) (hname : name.IsWord)
    (h : Block.layOut unit depth (front ++ call name arguments content)
      = Block.layOut unit depth (front ++ call name others content)) :
    words arguments = words others := by
  by_cases harguments : arguments = []
  · by_cases hothers : others = []
    · rw [harguments, hothers]
    · rw [harguments] at h
      exact absurd h (layOut_call_nil_ne front hname hothers)
  · by_cases hothers : others = []
    · rw [hothers] at h
      exact absurd h.symm (layOut_call_nil_ne front hname harguments)
    · have hhead : Unbroken (name ++ "(".toList) :=
        unbroken_append.mpr ⟨hname.unbroken, by decide⟩
      rw [call_eq_of_ne_nil harguments, call_eq_of_ne_nil hothers] at h
      obtain ⟨-, hback⟩ := Block.head_eq_of_layOut_eq front (by decide) hhead hhead h
      rw [Block.textLines_append, Block.textLines_append] at hback
      -- What closes the call is the same on both sides, so the lines of the arguments are left.
      obtain ⟨texts, htexts, hlines, hwords⟩ := exists_argumentLines_eq arguments
      obtain ⟨texts', htexts', hlines', hwords'⟩ := exists_argumentLines_eq others
      have hinner := List.append_cancel_right hback
      rw [hlines, hlines'] at hinner
      rw [← hwords, ← hwords', Block.eq_of_textLines_eq (by decide) htexts htexts' hinner]

end

/-! ### The words of the modifier chain -/

/-- The kinds that are arguments of their own and no links of the chain: the spacing, and the
attributes of texts. -/
def ownArguments : List AttributeKind := .spacing :: ofTexts

/-- The words of the links for an attribute are its marks, unless it is an argument of its own and
has no link. Each case finds the fixed start of a link and lets the values follow it. -/
theorem map_leadingWord_links (axis : Axis) (radius : Binary64) (a : Attribute Text) :
    (links radius a).map leadingWord
      = if a.kind ∈ ownArguments then [] else marks axis a.rounds a.kind := by
  have hclip : Leads ".clip".toList ".clip(".toList :=
    .of_stop (by decide)
  have hborder : Leads ".border".toList ".border(".toList :=
    .of_stop (by decide)
  cases a with
  | size width height =>
    have hwidth : Leads ".width".toList ".width(".toList := .of_stop (by decide)
    have hheight : Leads ".height".toList ".height(".toList := .of_stop (by decide)
    show [_, _] = [_, _]
    rw [((hwidth.append _).append _).eq, ((hheight.append _).append _).eq]
  | background c =>
    have hstart : Leads ".background".toList ".background(".toList := .of_stop (by decide)
    show [_] = [_]
    rw [(((hstart.append _).append _).append _).eq]
    rfl
  | border c width corner =>
    show (links radius (.border c width corner)).map leadingWord
      = (if !corner.isZero then [".clip".toList] else []) ++ [".border".toList]
    rw [links]
    -- Round corners are clipped before the border is drawn.
    cases hcorner : corner.isZero with
    | true =>
      show [_] = [_]
      rw [((((hborder.append _).append _).append _).append _).eq]
    | false =>
      show [_, _] = [_, _]
      rw [((hclip.append _).append _).eq,
        ((((((hborder.append _).append _).append _).append _).append _).append _).eq]
  | cornerRadius corner =>
    show [_] = [_]
    rw [((hclip.append _).append _).eq]
    rfl
  | padding sides =>
    have hstart : Leads ".padding".toList ".padding(start = ".toList := .of_stop (by decide)
    show [_] = [_]
    rw [((((((((hstart.append _).append _).append _).append _).append _).append _).append _).append
      _).eq]
    rfl
  | offset x y =>
    have hstart : Leads ".offset".toList ".offset(x = ".toList := .of_stop (by decide)
    show [_] = [_]
    rw [((((hstart.append _).append _).append _).append _).eq]
    rfl
  | spacing | textColor | fontSize | fontWeight => rfl

/-- The words of the chain are those of the argument that holds it, if it is there, and those of the
links. A call that needs a modifier has the argument even if there are no links. -/
theorem exists_words_modifierArgument {attributes : List (Attribute Text)}
    (h : Attribute.TextsIn (· ≠ '\n') attributes) (axis : Axis) (needed : Bool) :
    ∃ first, first ⊆ fixedWords ∧ words (modifierArgument attributes needed)
      = first ++ attributes.flatMap fun a =>
        if a.kind ∈ ownArguments then [] else marks axis a.rounds a.kind := by
  have hmodifier : IsWord "modifier".toList := by decide
  have hlinks : (attributes.flatMap (links (shapeRadius attributes))).map leadingWord
      = attributes.flatMap fun a =>
        if a.kind ∈ ownArguments then [] else marks axis a.rounds a.kind := by
    rw [List.map_flatMap]
    exact List.flatMap_congr fun a _ => map_leadingWord_links axis _ a
  rw [← hlinks]
  simp only [modifierArgument]
  split
  · next hchain =>
    rw [List.isEmpty_iff.mp hchain]
    cases needed with
    | false => exact ⟨[], List.nil_subset _, rfl⟩
    | true =>
      refine ⟨["modifier".toList], by decide, ?_⟩
      exact words_singleton hmodifier (by decide) (by decide)
  · next hchain =>
    generalize hlinked : attributes.flatMap (links (shapeRadius attributes)) = chain at hchain
    have hunbroken : ∀ line ∈ chain.map (unit ++ ·), Unbroken line := by
      intro line hline
      obtain ⟨link, hlink, rfl⟩ := List.mem_map.mp hline
      obtain ⟨a, ha, hlink⟩ := List.mem_flatMap.mp (hlinked ▸ hlink)
      have hguarded := isGuardedLine_links (fun _ => h.unbroken ha) link hlink
      exact unbroken_append.mpr ⟨by decide, hguarded.unbroken⟩
    have hne : chain.map (unit ++ ·) ≠ [] := by simpa using hchain
    -- The word `Modifier` stays on the first line, and the links hang below it.
    have hfirst : (lines ("modifier".toList ++ " = ".toList ++ "Modifier".toList)).map leadingWord
        = ["modifier".toList] := by decide
    have hrest : (chain.map (unit ++ ·)).map leadingWord = chain.map leadingWord := by
      rw [List.map_map]
      exact List.map_congr_left fun link _ => leadingWord_indent (by decide) link
    refine ⟨["modifier".toList], by decide, ?_⟩
    rw [words, List.flatMap_singleton, Argument.text, unlines_cons _ hne, ← List.append_assoc,
      lines_append_newline_append, List.map_append, lines_unlines hne hunbroken, hfirst, hrest]

/-! ### The words of the other arguments -/

/-- What the arguments beside the chain have to tell: the marks of the attributes that are no links.
The three lemmas that follow show it for containers, for texts, and for all others. -/
def TellsOwn (axis : Axis) (own : List Argument) (attributes : List (Attribute Text)) : Prop :=
  ∀ w, w ∈ words own
    ↔ ∃ a ∈ attributes, a.kind ∈ ownArguments ∧ w ∈ marks axis a.rounds a.kind

section

variable {role : Role} {axis : Axis} {attributes : List (Attribute Text)}

/-- Where there are no attributes of texts, only the spacing is an argument of its own. -/
theorem eq_spacing_of_mem_ownArguments (hrole : role ≠ .text)
    (h : Attribute.Drawable role axis attributes) {a : Attribute Text} (ha : a ∈ attributes)
    (hown : a.kind ∈ ownArguments) : a.kind = .spacing := by
  rcases List.mem_cons.mp hown with hspacing | htext
  · exact hspacing
  · exact absurd htext ((h.canonical.fits (List.mem_map_of_mem ha)).2 hrole)

/-- A container tells its spacing, by an argument that is named for its axis. -/
theorem tellsOwn_spacingArgument (hrole : role ≠ .text)
    (h : Attribute.Drawable role axis attributes) :
    TellsOwn axis (spacingArgument axis attributes) attributes := by
  intro w
  rw [spacingArgument]
  cases hgap : Attribute.spacing? attributes with
  | none =>
    constructor
    · intro hw
      cases hw
    · rintro ⟨a, ha, hown, -⟩
      have hsome := Attribute.isSome_spacing?_iff.mpr
        ⟨a, ha, eq_spacing_of_mem_ownArguments hrole h ha hown⟩
      rw [hgap] at hsome
      cases hsome
  | some gap =>
    have hsome : (Attribute.spacing? attributes).isSome := by rw [hgap, Option.isSome_some]
    obtain ⟨a, ha, hkind⟩ := Attribute.isSome_spacing?_iff.mp hsome
    -- Only children with an axis are spaced, so there is an argument to take the spacing.
    obtain ⟨name, hname, hword⟩ :
        ∃ name, arrangement? axis = some name ∧ name.IsWord ∧ name ≠ [] := by
      cases axis with
      | vertical => exact ⟨"verticalArrangement".toList, rfl, by decide, by decide⟩
      | horizontal => exact ⟨"horizontalArrangement".toList, rfl, by decide, by decide⟩
      | none => exact absurd (hkind ▸ List.mem_map_of_mem ha) (h.canonical.spacing rfl)
    have hmarks : marks axis a.rounds .spacing = [name] := by
      show [(arrangement? axis).getD []] = [name]
      rw [hname, Option.getD_some]
    have hliteral : Unbroken ("Arrangement.spacedBy(".toList ++ dp gap ++ ")".toList) := by
      simp only [unbroken_append]
      exact ⟨⟨by decide, unbroken_dp gap⟩, by decide⟩
    simp only [hname]
    rw [words_singleton hword.1 hword.2 hliteral]
    constructor
    · intro hw
      refine ⟨a, ha, ?_, ?_⟩
      · rw [hkind]
        exact List.mem_cons_self
      · rwa [hkind, hmarks]
    · rintro ⟨b, hb, hown, hmark⟩
      rw [eq_spacing_of_mem_ownArguments hrole h hb hown] at hmark
      exact hmarks ▸ hmark

/-- The argument for an attribute of a text leaves its mark, and no other attribute has such an
argument. -/
theorem words_textArgument {a : Attribute Text} (h : ∀ t ∈ a.texts, Unbroken t) (axis : Axis) :
    words (textArgument? a).toList
      = if a.kind ∈ ofTexts then marks axis a.rounds a.kind else [] := by
  cases a with
  | textColor c =>
    exact words_singleton (by decide) (by decide) (unbroken_color (h c (List.mem_singleton_self c)))
  | fontSize size =>
    refine words_singleton (by decide) (by decide) ?_
    exact unbroken_append.mpr ⟨unbroken_dimension size, by decide⟩
  | fontWeight weight =>
    exact words_singleton (by decide) (by decide) (h weight (List.mem_singleton_self weight))
  | size | background | border | cornerRadius | padding | spacing | offset => rfl

/-- A text tells its colour, its size and its weight. -/
theorem tellsOwn_textArguments (h : Attribute.Drawable role .none attributes) :
    TellsOwn .none (attributes.filterMap textArgument?) attributes := by
  intro w
  have hwords : words (attributes.filterMap textArgument?)
      = attributes.flatMap fun a => words (textArgument? a).toList := by
    rw [words, List.filterMap_eq_flatMap_toList, List.flatMap_assoc]
    rfl
  rw [hwords, List.mem_flatMap]
  refine exists_congr fun a => and_congr_right fun ha => ?_
  rw [words_textArgument (fun _ => h.unbroken.unbroken ha) .none]
  -- A text has no axis, so its attributes hold no spacing.
  have hspacing : a.kind ≠ .spacing := (h.canonical.fits (List.mem_map_of_mem ha)).1 rfl
  split
  · next htext => exact (and_iff_right (List.mem_cons_of_mem _ htext)).symm
  · next htext =>
    refine iff_of_false List.not_mem_nil ?_
    rintro ⟨hown, -⟩
    rcases List.mem_cons.mp hown with hmem | hmem
    · exact hspacing hmem
    · exact htext hmem

/-- A shape or image has nothing else to tell: it has neither an axis nor a text. -/
theorem tellsOwn_nil (hrole : role ≠ .text) (h : Attribute.Drawable role .none attributes) :
    TellsOwn .none [] attributes := by
  intro w
  refine iff_of_false List.not_mem_nil ?_
  rintro ⟨a, ha, hown, -⟩
  have hspacing := eq_spacing_of_mem_ownArguments hrole h ha hown
  exact h.canonical.spacing rfl (hspacing ▸ List.mem_map_of_mem ha)

/-- The words of the arguments of a call are the marks of its attributes, besides those of arguments
that are there in any case. -/
theorem marked_words (h : Attribute.Drawable role axis attributes) {fixed own : List Argument}
    (hfixed : words fixed ⊆ fixedWords) (hown : TellsOwn axis own attributes) (needed : Bool) :
    Attribute.Marked (marks axis) fixedWords
      (words (fixed ++ modifierArgument attributes needed ++ own)) attributes := by
  obtain ⟨first, hfirst, hchain⟩ := exists_words_modifierArgument h.unbroken axis needed
  rw [words_append, words_append, hchain]
  constructor
  case complete =>
    intro a ha w hw
    -- The mark is in an argument of its own, or else in the chain.
    by_cases hkind : a.kind ∈ ownArguments
    · exact List.mem_append_right _ ((hown w).mpr ⟨a, ha, hkind, hw⟩)
    · refine List.mem_append_left _ (List.mem_append_right _ (List.mem_append_right _ ?_))
      refine List.mem_flatMap.mpr ⟨a, ha, ?_⟩
      rwa [if_neg hkind]
  case sound =>
    intro w hw
    -- A word comes from the fixed arguments, from the chain or from an argument of its own.
    rcases List.mem_append.mp hw with hw | hmem
    · rcases List.mem_append.mp hw with hmem | hw
      · exact .inl (hfixed hmem)
      · rcases List.mem_append.mp hw with hmem | hmem
        · exact .inl (hfirst hmem)
        · obtain ⟨a, ha, hmem⟩ := List.mem_flatMap.mp hmem
          split at hmem
          · cases hmem
          · exact .inr ⟨a, ha, hmem⟩
    · obtain ⟨a, ha, -, hmark⟩ := (hown w).mp hmem
      exact .inr ⟨a, ha, hmark⟩

/-- Equal calls have attributes of the same kinds. Every shape of this target is a call, with other
fixed arguments and other arguments of its own. -/
theorem map_kind_eq_of_call (front : Block) (fixed : List Argument) (needed : Bool) {name : Text}
    (hname : name.IsWord) {as bs : List (Attribute Text)} (ha : Attribute.Drawable role axis as)
    (hb : Attribute.Drawable role axis bs) (hfixed : words fixed ⊆ fixedWords)
    {own other : List Argument} (hown : TellsOwn axis own as) (hother : TellsOwn axis other bs)
    {content : Content} {depth : Int}
    (h : Block.layOut unit depth
        (front ++ call name (fixed ++ modifierArgument as needed ++ own) content)
      = Block.layOut unit depth
        (front ++ call name (fixed ++ modifierArgument bs needed ++ other) content)) :
    as.map Attribute.kind = bs.map Attribute.kind := by
  have hwords := words_eq_of_call front hname h
  have hmarked := marked_words hb hfixed hother needed
  rw [← hwords] at hmarked
  exact (marking role axis).map_kind_eq (marked_words ha hfixed hown needed) hmarked ha.canonical
    hb.canonical

end

/-- Compose shows the kinds of attributes. In each case the code is brought into the form of one
call, and the shape says what it has beside the chain. -/
theorem showsKinds : target.ShowsKinds where
  container {name axis as bs pieces depth} hname ha hb h :=
    map_kind_eq_of_call [] [] false hname ha hb (List.nil_subset _)
      (tellsOwn_spacingArgument (by decide) ha) (tellsOwn_spacingArgument (by decide) hb) h
  custom {l l' axis as bs pieces depth} htype hname ha hb h := by
    have hlayout : (customName axis).IsWord := by cases axis <;> decide
    have hcode : ∀ (layer : Layer) attributes, target.custom layer axis attributes pieces
        = [Line.outer (customComment layer)]
          ++ layout (customName axis) axis attributes pieces := fun _ _ => rfl
    rw [hcode, hcode, customComment_eq htype hname] at h
    exact map_kind_eq_of_call [_] [] false hlayout ha hb (List.nil_subset _)
      (tellsOwn_spacingArgument (by decide) ha) (tellsOwn_spacingArgument (by decide) hb) h
  text {name content as bs depth} hname ha hb h := by
    have hfixed : words [⟨"text".toList, Literal.kotlin content⟩] ⊆ fixedWords := by
      rw [words_singleton (by decide) (by decide) (Literal.unbroken_kotlin content)]
      decide
    exact map_kind_eq_of_call [] [_] false hname ha hb hfixed (tellsOwn_textArguments ha)
      (tellsOwn_textArguments hb) h
  shape {name as bs depth} hname ha hb h := by
    -- A canvas needs a modifier and a body, and every other shape can do without.
    have hcode : ∀ attributes, target.shape name attributes
        = [] ++ call name ([] ++ modifierArgument attributes (name = "Canvas".toList) ++ [])
          (if name = "Canvas".toList then .lambda [] else .absent) := by
      intro attributes
      rw [List.append_nil]
      show shape name attributes = _
      rw [shape]
      split
      · next hcanvas => rw [decide_eq_true hcanvas]; rfl
      · next hcanvas => rw [decide_eq_false hcanvas]; rfl
    rw [hcode, hcode] at h
    exact map_kind_eq_of_call [] [] _ hname ha hb (List.nil_subset _)
      (tellsOwn_nil (by decide) ha) (tellsOwn_nil (by decide) hb) h
  image {name title as bs depth} hname ha hb h := by
    let painter : Argument := ⟨"painter".toList, "ColorPainter(Color.LightGray)".toList⟩
    let description : Argument := ⟨"contentDescription".toList, Literal.kotlin title⟩
    have hfixed : words ([painter] ++ [description]) ⊆ fixedWords := by
      rw [words_append, words_singleton (by decide) (by decide) (by decide),
        words_singleton (by decide) (by decide) (Literal.unbroken_kotlin title)]
      decide
    have hcode : ∀ attributes, target.image name title attributes
        = [] ++ call name ([painter] ++ [description] ++ modifierArgument attributes false ++ [])
          .absent := by
      intro attributes
      rw [List.append_nil]
      rfl
    rw [hcode, hcode] at h
    exact map_kind_eq_of_call [] _ false hname ha hb hfixed (tellsOwn_nil (by decide) ha)
      (tellsOwn_nil (by decide) hb) h

end DesignCompiler.Compose
