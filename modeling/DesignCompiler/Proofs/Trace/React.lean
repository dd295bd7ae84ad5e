import DesignCompiler.Proofs.Render.OneLine
import DesignCompiler.Proofs.Trace.Lines

/-!
# `DesignCompiler.Proofs.Trace.React`: React shows the kinds of attributes

An element tells everything about its attributes on its first line, in the one style. The entries of
a style are put together with commas, and none holds a comma, so equal styles have equal keys
(`keys_eq_of_style?`). The keys are marks of the kinds (`marking`), besides those that only tell an
axis. An entry that replaces an earlier one has the same key, so that no key is lost.
-/

set_option autoImplicit false

namespace DesignCompiler.React

open Text AttributeKind

/-- The key that marks a kind. A kind can have further keys, and this is one that no other kind has.
-/
def word : AttributeKind → Text
  | .size => "width".toList
  | .background => "backgroundColor".toList
  | .border => "border".toList
  | .cornerRadius => "overflow".toList
  | .padding => "padding".toList
  | .spacing => "gap".toList
  | .offset => "left".toList
  | .textColor => "color".toList
  | .fontSize => "fontSize".toList
  | .fontWeight => "fontWeight".toList

/-- The keys that a kind leaves. Corners of a border are no kind of their own, so the key of a
radius marks nothing by itself. -/
def marks (rounds : Bool) : AttributeKind → List Text
  | .size => ["width".toList, "height".toList]
  | .border => "border".toList :: (if rounds then ["borderRadius".toList] else [])
  | .cornerRadius => ["borderRadius".toList, "overflow".toList]
  | .offset => ["position".toList, "left".toList, "top".toList]
  | kind => [word kind]

/-- The keys of an axis. A container is positioned, with an offset or without one. -/
def fixedKeys : List Text := ["display".toList, "flexDirection".toList, "position".toList]

/-- The keys of a style tell kinds apart, whatever the role and the axis are. No kind leaves the key
that marks another one. -/
theorem marking (role : Role) (axis : Axis) :
    Attribute.Marking role axis word marks fixedKeys where
  own := by decide
  distinct := by
    have hall : ∀ rounds, ∀ kind ∈ declared, ∀ other ∈ declared,
        word other ∈ marks rounds kind → other = kind := by decide +kernel
    intro rounds kind hkind other hother _ _ hword
    exact .inl (hall rounds kind hkind other hother hword)
  free := by decide

/-! ### The keys of a style -/

/-- The keys of the entries for an attribute are its marks. -/
theorem map_fst_entries (a : Attribute Text) :
    (entries a).map Prod.fst = marks a.rounds a.kind := by
  cases a with
  | border c width radius =>
    show (entries (.border c width radius)).map Prod.fst
      = "border".toList :: (if !radius.isZero then ["borderRadius".toList] else [])
    rw [entries]
    cases radius.isZero <;> rfl
  | size | background | cornerRadius | padding | spacing | offset | textColor | fontSize
  | fontWeight => rfl

/-- The first words between the commas of a text. For a style these are its keys. -/
def commaWords (t : Text) : List Text := (t.splitOn ',').map leadingWord

/-- A blank in front changes no first word. There is one behind each comma that joins entries. -/
theorem commaWords_blank (t : Text) : commaWords (' ' :: t) = commaWords t := by
  rw [commaWords, List.splitOn, List.splitOnP_cons_eq_if_modifyHead, if_neg (by decide)]
  rw [commaWords, List.splitOn]
  cases List.splitOnP (· == ',') t with
  | nil => rfl
  | cons first rest =>
    rw [List.modifyHead_cons, List.map_cons, List.map_cons]
    have hindent : leadingWord ([' '] ++ first) = leadingWord first :=
      leadingWord_indent (by decide) first
    exact congrArg (· :: rest.map leadingWord) hindent

/-- Pieces that hold no comma begin with the words between the commas. By induction on the pieces;
each ends at the comma behind it. -/
theorem commaWords_joinWith {pieces : List Text} (hne : pieces ≠ [])
    (h : ∀ piece ∈ pieces, ',' ∉ piece) :
    commaWords (joinWith ", ".toList pieces) = pieces.map leadingWord := by
  have hplain : ∀ {piece : Text}, ',' ∉ piece → ∀ c ∈ piece, (c == ',') = false := by
    intro piece hpiece c hc
    exact beq_false_of_ne (ne_of_mem_of_not_mem hc hpiece)
  induction pieces with
  | nil => exact absurd rfl hne
  | cons piece rest ih =>
    obtain ⟨hpiece, hrest⟩ := List.forall_mem_cons.mp h
    cases rest with
    | nil =>
      show commaWords piece = _
      rw [commaWords, List.splitOn, List.splitOnP_eq_singleton (hplain hpiece)]
    | cons next rest =>
      have hjoined : joinWith ", ".toList (piece :: next :: rest)
          = piece ++ ',' :: ' ' :: joinWith ", ".toList (next :: rest) := by
        simp [joinWith]
      -- The piece ends at the comma, and the blank behind it belongs to the pieces that follow.
      rw [hjoined, commaWords, List.splitOn,
        List.splitOnP_append_cons_of_forall_mem (hplain hpiece) ',' (by decide), List.map_cons]
      have htail := commaWords_blank (joinWith ", ".toList (next :: rest))
      rw [commaWords, List.splitOn] at htail
      rw [htail, ih (List.cons_ne_nil next rest) hrest]
      rfl

/-- The key of a plain entry is the first word of its piece, as it is made of letters and followed
by a colon. -/
theorem Entry.IsPlain.leadingWord_eq {p : Char → Prop} {entry : Entry} (h : entry.IsPlain p) :
    leadingWord (entry.1 ++ ": ".toList ++ entry.2) = entry.1 := by
  have hleads : Leads entry.1 (entry.1 ++ ": ".toList) :=
    .of_name h.1 (by decide) (fun _ => by decide) _
  exact (hleads.append entry.2).eq

/-- The keys of a style are the words between its commas. No entry of the style holds a comma, as
they all come from the entries that were merged. -/
theorem commaWords_merge {all : List Entry} (hne : all ≠ []) (h : ∀ e ∈ all, e.IsPlain (· ≠ ',')) :
    commaWords (joinWith ", ".toList
        ((merge all).map fun entry => entry.1 ++ ": ".toList ++ entry.2))
      = (merge all).map Prod.fst := by
  have hplain : ∀ e ∈ merge all, e.IsPlain (· ≠ ',') := fun e he => h e (mem_of_mem_merge he)
  have hmerge : merge all ≠ [] := by
    intro hnil
    obtain ⟨entry, rest, rfl⟩ := List.exists_cons_of_ne_nil hne
    have hkey : entry.1 ∈ (merge (entry :: rest)).map Prod.fst :=
      mem_keys_merge.mpr List.mem_cons_self
    rw [hnil] at hkey
    cases hkey
  rw [commaWords_joinWith (by simpa using hmerge), List.map_map]
  · exact List.map_congr_left fun e he => (hplain e he).leadingWord_eq
  · intro piece hpiece
    obtain ⟨e, he, rfl⟩ := List.mem_map.mp hpiece
    exact (hplain e he).not_mem (by decide) (by decide)

/-- Equal styles have equal keys. The literals are not compared: two kinds of attributes are told
apart by their keys alone. -/
theorem keys_eq_of_style? {all others : List Entry} (hall : ∀ e ∈ all, e.IsPlain (· ≠ ','))
    (hothers : ∀ e ∈ others, e.IsPlain (· ≠ ',')) (h : style? all = style? others) :
    (merge all).map Prod.fst = (merge others).map Prod.fst := by
  rw [style?, style?] at h
  -- There is no style exactly if there are no entries.
  by_cases hempty : all = []
  · by_cases hnil : others = []
    · rw [hempty, hnil]
    · rw [if_pos (by simpa using hempty), if_neg (by simpa using hnil)] at h
      cases h
  · by_cases hnil : others = []
    · rw [if_neg (by simpa using hempty), if_pos (by simpa using hnil)] at h
      cases h
    · rw [if_neg (by simpa using hempty), if_neg (by simpa using hnil)] at h
      have hentries := List.append_cancel_left (List.append_cancel_right (Option.some.inj h))
      rw [← commaWords_merge hempty hall, ← commaWords_merge hnil hothers, hentries]

/-! ### The first line of an element -/

/-- The text of a style behind other properties, with the blank that stands between them. -/
def behind : Option Text → Text
  | some style => ' ' :: style
  | none => []

/-- The tag of an element whose last property is its style: first what the other properties make of
it, then the style. -/
theorem opening_concat (tag : Text) (front : List (Option Text)) (style : Option Text) :
    opening tag (front ++ [style]) = opening tag front ++ behind style := by
  cases style with
  | none =>
    rw [opening, List.filterMap_append, behind, List.append_nil]
    exact congrArg (fun rest => joinWith [' '] (tag :: rest)) (List.append_nil _)
  | some style =>
    rw [opening, List.filterMap_append, ← List.cons_append,
      joinWith_append [' '] (List.cons_ne_nil _ _) (by simp), List.append_assoc]
    rfl

/-- A style is read off from the text behind the other properties, also when there is none. -/
theorem behind_injective : Function.Injective behind := by
  intro style other h
  cases style <;> cases other <;> cases h <;> rfl

/-- An element tells its properties on its first line. Everything behind them depends on the
children only. -/
theorem exists_element_eq (tag : Text) (children : List Block) :
    ∃ close rest, close ∈ [" />".toList, ">".toList] ∧ ∀ properties, element tag properties children
      = Line.outer ("<".toList ++ opening tag properties ++ close) :: rest := by
  cases hchildren : children.isEmpty with
  | true =>
    refine ⟨" />".toList, [], by decide, ?_⟩
    intro properties
    rw [element, if_pos hchildren]
  | false =>
    refine ⟨">".toList, Block.innerAll children ++ [.outer (closing tag)], by decide, ?_⟩
    intro properties
    rw [element, if_neg (Bool.eq_false_iff.mp hchildren)]
    rfl

section

variable {role : Role} {axis : Axis} {as bs : List (Attribute Text)}

/-- The keys of a style are the marks of its attributes, besides those of entries that tell no
kind. -/
theorem marked_keys {fixed : List Entry} (hfixed : fixed.map Prod.fst ⊆ fixedKeys)
    (attributes : List (Attribute Text)) : Attribute.Marked marks fixedKeys
      ((merge (fixed ++ attributes.flatMap entries)).map Prod.fst) attributes := by
  have hentries : (attributes.flatMap entries).map Prod.fst
      = attributes.flatMap fun a => marks a.rounds a.kind := by
    rw [List.map_flatMap]
    exact List.flatMap_congr fun a _ => map_fst_entries a
  constructor
  case complete =>
    intro a ha w hw
    rw [mem_keys_merge, List.map_append, hentries]
    exact List.mem_append_right _ (List.mem_flatMap.mpr ⟨a, ha, hw⟩)
  case sound =>
    intro w hw
    rw [mem_keys_merge, List.map_append, hentries] at hw
    rcases List.mem_append.mp hw with hmem | hmem
    · exact .inl (hfixed hmem)
    · exact .inr (List.mem_flatMap.mp hmem)

/-- Elements with equal first lines have attributes of the same kinds. The properties in front and
the fixed entries are the same on both sides, so the styles have to be. -/
theorem map_kind_eq_of_head {tag close : Text} (htag : tag.IsWord) (hclose : Unbroken close)
    (front : List (Option Text)) (hfront : ∀ t, some t ∈ front → Unbroken t) (fixed : List Entry)
    (hplain : ∀ e ∈ fixed, ∀ p, e.IsPlain p) (hfixed : fixed.map Prod.fst ⊆ fixedKeys)
    (ha : Attribute.Drawable role axis as) (hb : Attribute.Drawable role axis bs)
    {rest : Block} {depth : Int}
    (h : Block.layOut target.unit depth (Line.outer ("<".toList
          ++ opening tag (front ++ [style? (fixed ++ as.flatMap entries)]) ++ close) :: rest)
      = Block.layOut target.unit depth (Line.outer ("<".toList
          ++ opening tag (front ++ [style? (fixed ++ bs.flatMap entries)]) ++ close) :: rest)) :
    as.map Attribute.kind = bs.map Attribute.kind := by
  have hall : ∀ {p : Char → Prop} {attributes : List (Attribute Text)},
      Attribute.TextsIn p attributes →
        ∀ e ∈ fixed ++ attributes.flatMap entries, e.IsPlain p := by
    intro p attributes htexts
    exact List.forall_mem_append.mpr
      ⟨fun e he => hplain e he p, isPlain_flatMap_entries htexts⟩
  have hline : ∀ {attributes : List (Attribute Text)}, Attribute.Drawable role axis attributes →
      Unbroken ("<".toList
        ++ opening tag (front ++ [style? (fixed ++ attributes.flatMap entries)]) ++ close) := by
    intro attributes hdrawable
    simp only [unbroken_append]
    refine ⟨⟨by decide, unbroken_opening htag ?_⟩, hclose⟩
    intro t ht
    rcases List.mem_append.mp ht with ht | ht
    · exact hfront t ht
    · exact unbroken_style (hall hdrawable.unbroken) (List.mem_singleton.mp ht).symm
  obtain ⟨hhead, -⟩ := Block.head_eq_of_layOut_eq [] (by decide) (hline ha) (hline hb) h
  -- The style is all that the first lines do not have in common.
  have hopening := List.append_cancel_left (List.append_cancel_right hhead)
  rw [opening_concat, opening_concat] at hopening
  have hstyle := behind_injective (List.append_cancel_left hopening)
  have hmarked := marked_keys hfixed bs
  rw [← keys_eq_of_style? (hall ha.noComma) (hall hb.noComma) hstyle] at hmarked
  exact (marking role axis).map_kind_eq (marked_keys hfixed as) hmarked ha.canonical hb.canonical

/-- Elements with the same children, properties and fixed entries: all that can differ is on the
first line. -/
theorem map_kind_eq_of_element {tag : Text} (htag : tag.IsWord) (front : List (Option Text))
    (hfront : ∀ t, some t ∈ front → Unbroken t) (fixed : List Entry)
    (hplain : ∀ e ∈ fixed, ∀ p, e.IsPlain p) (hfixed : fixed.map Prod.fst ⊆ fixedKeys)
    (ha : Attribute.Drawable role axis as) (hb : Attribute.Drawable role axis bs)
    (children : List Block) {depth : Int}
    (h : Block.layOut target.unit depth
        (element tag (front ++ [style? (fixed ++ as.flatMap entries)]) children)
      = Block.layOut target.unit depth
        (element tag (front ++ [style? (fixed ++ bs.flatMap entries)]) children)) :
    as.map Attribute.kind = bs.map Attribute.kind := by
  obtain ⟨close, rest, hmem, helement⟩ := exists_element_eq tag children
  have hclose : Unbroken close := by
    have hall : ∀ t ∈ [" />".toList, ">".toList], Unbroken t := by decide
    exact hall close hmem
  rw [helement, helement] at h
  exact map_kind_eq_of_head htag hclose front hfront fixed hplain hfixed ha hb h

/-- A container beside other properties, with the entries of its axis in front. -/
theorem map_kind_eq_of_container {tag : Text} (htag : tag.IsWord) (front : List (Option Text))
    (hfront : ∀ t, some t ∈ front → Unbroken t) (ha : Attribute.Drawable role axis as)
    (hb : Attribute.Drawable role axis bs) (children : List Block) {depth : Int}
    (h : Block.layOut target.unit depth
        (element tag (front ++ [containerStyle axis as]) children)
      = Block.layOut target.unit depth
        (element tag (front ++ [containerStyle axis bs]) children)) :
    as.map Attribute.kind = bs.map Attribute.kind := by
  have hkeys : (axisEntries axis).map Prod.fst ⊆ fixedKeys := by cases axis <;> decide
  exact map_kind_eq_of_element htag front hfront (axisEntries axis)
    (fun e he p => isPlain_axisEntries axis e he) hkeys ha hb children h

/-- An element without children beside other properties. It has no axis, so there are no fixed
entries. -/
theorem map_kind_eq_of_leaf {tag : Text} (htag : tag.IsWord) (front : List (Option Text))
    (hfront : ∀ t, some t ∈ front → Unbroken t) (ha : Attribute.Drawable role axis as)
    (hb : Attribute.Drawable role axis bs) {depth : Int}
    (h : Block.layOut target.unit depth (element tag (front ++ [leafStyle as]) [])
      = Block.layOut target.unit depth (element tag (front ++ [leafStyle bs]) [])) :
    as.map Attribute.kind = bs.map Attribute.kind :=
  map_kind_eq_of_element htag front hfront [] (List.forall_mem_nil _) (List.nil_subset _) ha hb [] h

end

/-- React shows the kinds of attributes. A text is no element, so its line is given; the others are
a container or a leaf. -/
theorem showsKinds : target.ShowsKinds where
  container {name axis as bs pieces depth} hname ha hb h :=
    map_kind_eq_of_container hname [] (by simp) ha hb pieces h
  custom {l l' axis as bs pieces depth} _ hname ha hb h := by
    let title : Text := "data-figma-component=".toList ++ expression (onOneLine l.name)
    have htitle : ∀ t, some t ∈ [some title] → Unbroken t := by
      intro t ht
      cases List.mem_singleton.mp ht
      exact unbroken_append.mpr ⟨by decide, unbroken_expression _⟩
    have hcode : ∀ (layer : Layer) attributes, layer.name = l.name →
        target.custom layer axis attributes pieces
          = element "div".toList ([some title] ++ [containerStyle axis attributes]) pieces := by
      intro layer attributes hlayer
      show element _ _ _ = _
      rw [hlayer]
      rfl
    rw [hcode l as rfl, hcode l' bs hname.symm] at h
    exact map_kind_eq_of_container (by decide) [some title] htitle ha hb pieces h
  text {name content as bs depth} hname ha hb h := by
    -- A text is no element: what closes its line is its content and a closing tag.
    have hclose : Unbroken (">".toList ++ expression content ++ closing name) := by
      simp only [unbroken_append]
      exact ⟨⟨by decide, unbroken_expression content⟩, unbroken_closing hname⟩
    have hcode : ∀ attributes, target.text name content attributes
        = [Line.outer ("<".toList
          ++ opening name ([] ++ [style? ([] ++ attributes.flatMap entries)])
          ++ (">".toList ++ expression content ++ closing name))] := by
      intro attributes
      rw [← List.append_assoc, ← List.append_assoc]
      rfl
    rw [hcode, hcode] at h
    exact map_kind_eq_of_head hname hclose [] (by simp) [] (List.forall_mem_nil _)
      (List.nil_subset _) ha hb h
  shape {name as bs depth} hname ha hb h :=
    map_kind_eq_of_leaf hname [] (by simp) ha hb h
  image {name title as bs depth} hname ha hb h := by
    have htitle : ∀ t, some t ∈ [some ("alt=".toList ++ expression title)] → Unbroken t := by
      intro t ht
      cases List.mem_singleton.mp ht
      exact unbroken_append.mpr ⟨by decide, unbroken_expression title⟩
    exact map_kind_eq_of_leaf hname [_] htitle ha hb h

end DesignCompiler.React
