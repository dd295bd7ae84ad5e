import DesignCompiler.Proofs.Lexical.Source
import DesignCompiler.Proofs.Render.Style

/-!
# `DesignCompiler.Proofs.Lexical.React`: React code is closed

Texts and names stand in braces as string expressions, styles in braces as objects whose literals
are in single quotes. Tags have no brackets of their own. The slash of a closing tag begins no
comment, as no second slash comes after it.
-/

set_option autoImplicit false

namespace DesignCompiler.React

open Text Lexical

/-- The quotes of React. -/
abbrev quotes : Text := Platform.react.quotes

/-- A string expression is closed. Its braces are opened and closed around a literal. -/
theorem closed_expression (t : Text) : Closed .react (expression t) := by
  have hopen : Reads quotes (inCode []) "\x7b".toList (inCode ['\x7d']) := by decide
  have hclose : Reads quotes (inCode ['\x7d']) "\x7d".toList (inCode []) := by decide
  exact (hopen.closed (closed_javaScript t)).append hclose

/-! ### Styles -/

/-- A text in single quotes is closed if its characters are ordinary. The values of styles are
quoted so, and none of them is a text of the design but for colours. -/
theorem closed_quoted {t : Text} (h : ∀ c ∈ t, isOrdinary c = true) : Closed .react (quoted t) := by
  have hquote : '\'' ∈ quotes := by decide
  exact Reads.quoted hquote (.ordinaryLiteral hquote h [])

/-- A plain entry is closed: a key, a colon, and a value that is bare or in quotes. -/
theorem closed_entry {entry : Entry} (h : entry.IsPlain fun c => isOrdinary c = true) :
    Closed .react (entry.1 ++ ": ".toList ++ entry.2) := by
  obtain ⟨hkey, t, hchars, hliteral⟩ := h
  have ht : ∀ c ∈ t, isOrdinary c = true := by
    intro c hc
    rcases hchars c hc with hmark | rfl | hordinary
    · exact isOrdinary_of_isMark hmark
    · decide
    · exact hordinary
  have hvalue : Closed .react entry.2 := by
    -- The literal of an entry is bare or stands in quotes.
    rcases hliteral with hliteral | hliteral
    · rw [hliteral]
      exact .ordinary ht
    · rw [hliteral]
      exact closed_quoted ht
  have hcolon : Closed .react ": ".toList := by decide
  exact ((closed_word hkey).append hcolon).append hvalue

/-- A style of plain entries is closed. What is printed are some of the entries, merged by key, so
it is enough to know all of them. -/
theorem closed_style {all : List Entry} (hall : ∀ e ∈ all, e.IsPlain fun c => isOrdinary c = true)
    {style : Text} (h : style? all = some style) : Closed .react style := by
  obtain ⟨merged, hmerged, rfl⟩ := exists_of_style? hall h
  have hopen : Reads quotes (inCode []) "style=\x7b\x7b ".toList (inCode ['\x7d', '\x7d']) := by
    decide
  have hclose : Reads quotes (inCode ['\x7d', '\x7d']) " \x7d\x7d".toList (inCode []) := by decide
  have hentries : Closed .react (joinWith ", ".toList
      (merged.map fun entry => entry.1 ++ ": ".toList ++ entry.2)) := by
    refine .joinWith (by decide) ?_
    intro piece hpiece
    obtain ⟨entry, hentry, rfl⟩ := List.mem_map.mp hpiece
    exact closed_entry (hmerged entry hentry)
  exact (hopen.closed hentries).append hclose

/-- The style of a leaf is closed, if it has one. -/
theorem closed_leafStyle {attributes : List (Attribute Text)}
    (h : Attribute.TextsIn (fun c => isOrdinary c = true) attributes) :
    ∀ t, some t ∈ [leafStyle attributes] → Closed .react t := by
  intro t ht
  exact closed_style (isPlain_flatMap_entries h) (List.mem_singleton.mp ht).symm

/-- So is the style of a container, with its layout entries. -/
theorem closed_containerStyle {axis : Axis} {attributes : List (Attribute Text)}
    (h : Attribute.TextsIn (fun c => isOrdinary c = true) attributes) :
    ∀ t, some t ∈ [containerStyle axis attributes] → Closed .react t := by
  intro t ht
  exact closed_style (isPlain_containerEntries h) (List.mem_singleton.mp ht).symm

/-! ### Elements -/

/-- A tag is closed if its properties are. -/
theorem closed_opening {tag : Text} (htag : tag.IsWord) {properties : List (Option Text)}
    (h : ∀ t, some t ∈ properties → Closed .react t) : Closed .react (opening tag properties) := by
  refine .joinWith (by decide) ?_
  intro piece hpiece
  rcases List.mem_cons.mp hpiece with rfl | hpiece
  · exact closed_word htag
  · obtain ⟨property, hproperty, hsome⟩ := List.mem_filterMap.mp hpiece
    exact h piece (hsome ▸ hproperty)

/-- The tag that ends an element is closed: its slash stands alone. -/
theorem closed_closing {tag : Text} (htag : tag.IsWord) : Closed .react (closing tag) := by
  -- After the slash a comment could begin, but the tag comes next.
  have hslash : Reads quotes (inCode []) "</".toList ⟨.code true, []⟩ := by decide
  have hordinary : ∀ c ∈ tag ++ ">".toList, isOrdinary c = true := by
    intro c hc
    rcases List.mem_append.mp hc with hc | hc
    · exact isOrdinary_of_isWord htag c hc
    · rw [List.mem_singleton.mp hc]
      decide
  have hrest : Reads quotes ⟨.code true, []⟩ (tag ++ ">".toList) (inCode []) :=
    Reads.ordinaryAfterSlash (by simp) hordinary []
  rw [Closed, closing, List.append_assoc]
  exact hslash.append hrest

/-- An element around closed pieces is closed. -/
theorem closedBlock_element {tag : Text} (htag : tag.IsWord) {properties : List (Option Text)}
    (h : ∀ t, some t ∈ properties → Closed .react t) {children : List Block}
    (hchildren : ∀ piece ∈ children, ClosedBlock .react piece) :
    ClosedBlock .react (element tag properties children) := by
  have hless : Closed .react "<".toList := by decide
  have hopening := hless.append (closed_opening htag h)
  rw [element]
  split
  · have hend : Closed .react " />".toList := by decide
    exact Reads.outer (hopening.append hend)
  · have hend : Closed .react ">".toList := by decide
    exact Reads.around [] (hopening.append hend) (closed_closing htag) hchildren

/-- React keeps pieces closed. The name of a component and the title of an image are string
expressions, like texts. -/
theorem keeps_closedBlock : target.Keeps (fun c => isOrdinary c = true) (ClosedBlock .react) where
  container hname htexts hpieces :=
    closedBlock_element hname (closed_containerStyle htexts) hpieces
  custom {l _ _ _} _ htexts hpieces := by
    have hlabel : Closed .react "data-figma-component=".toList := by decide
    refine closedBlock_element (by decide) ?_ hpieces
    intro t ht
    rcases List.mem_cons.mp ht with ht | ht
    · cases ht
      exact hlabel.append (closed_expression (onOneLine l.name))
    · exact closed_containerStyle htexts t ht
  text {_ content _} hname htexts := by
    have hless : Closed .react "<".toList := by decide
    have hmore : Closed .react ">".toList := by decide
    -- A text is written as one line, with its tags and its content between braces.
    have hopening := closed_opening hname (closed_leafStyle htexts)
    exact Reads.outer ((((hless.append hopening).append hmore).append
      (closed_expression content)).append (closed_closing hname))
  shape hname htexts :=
    closedBlock_element hname (closed_leafStyle htexts) (List.forall_mem_nil _)
  image {_ title _} hname htexts := by
    have hlabel : Closed .react "alt=".toList := by decide
    refine closedBlock_element hname ?_ (List.forall_mem_nil _)
    intro t ht
    rcases List.mem_cons.mp ht with ht | ht
    · cases ht
      exact hlabel.append (closed_expression title)
    · exact closed_leafStyle htexts t ht

/-! ### Files -/

/-- The line that imports a component is closed. -/
theorem closed_import {name : Text} (hname : ∀ c ∈ name, isOrdinary c = true) :
    Closed .react ("import ".toList ++ name ++ " from './".toList ++ name ++ "';".toList) := by
  have hquote : '\'' ∈ quotes := by decide
  have hkeyword : Closed .react "import ".toList := by decide
  have hfrom : Reads quotes (inCode []) " from './".toList (inLiteral '\'' []) := by decide
  have hend : Reads quotes (inLiteral '\'' []) "';".toList (inCode []) := by decide
  have hstart := Reads.append (hkeyword.append (.ordinary hname)) hfrom
  exact (hstart.append (.ordinaryLiteral hquote hname [])).append hend

/-- The lines in front of the body of a component open two brackets: the braces of the function and
the parentheses around what it returns. -/
theorem reads_head {name : Text} (hname : Closed .react name) {next : Text} {back : List Text}
    {s : State} (h : Reads quotes (inCode [')', '\x7d']) (unlines (next :: back)) s) :
    Reads quotes (inCode []) (unlines ([] :: ("const ".toList ++ name
      ++ ": React.FC = () => \x7b".toList) :: "  return (".toList :: next :: back)) s := by
  have hconst : Reads quotes (inCode []) ("const ".toList ++ name
      ++ ": React.FC = () => \x7b".toList) (inCode ['\x7d']) := by
    have hkeyword : Closed .react "const ".toList := by decide
    have hopen : Reads quotes (inCode []) ": React.FC = () => \x7b".toList
        (inCode ['\x7d']) := by decide
    exact Reads.append (hkeyword.append hname) hopen
  exact Reads.unlines [] (Reads.nil (inCode []))
    (Reads.unlines ['\x7d'] hconst (Reads.unlines [')', '\x7d'] (by decide) h))

/-- The lines after the body of a component close them. -/
theorem reads_foot {name : Text} (hname : Closed .react name) :
    Reads quotes (inCode [')', '\x7d']) (unlines ["  );".toList, "\x7d;".toList, [],
      "export default ".toList ++ name ++ ";".toList, []]) (inCode []) := by
  have hexport : Closed .react ("export default ".toList ++ name ++ ";".toList) := by
    have hkeyword : Closed .react "export default ".toList := by decide
    have hend : Closed .react ";".toList := by decide
    exact (hkeyword.append hname).append hend
  have hlast : Reads quotes (inCode []) (unlines [[], "export default ".toList ++ name
      ++ ";".toList, []]) (inCode []) :=
    Reads.unlines [] (Reads.nil (inCode [])) (Reads.unlines [] hexport (Reads.nil (inCode [])))
  exact Reads.unlines ['\x7d'] (by decide) (Reads.unlines [] (by decide) hlast)

/-- The main file is closed around a closed body. The imports name the components, whose names are
ordinary. -/
theorem closed_document {body : Text} (hbody : Closed .react (body ++ ['\n'])) {names : List Text}
    (hnames : ∀ name ∈ names, ∀ c ∈ name, isOrdinary c = true) :
    Closed .react (target.document body names ++ ['\n']) := by
  have hname : Closed .react componentName := by decide
  have hfront : ∀ l ∈ reactImport :: names.map (fun name =>
      "import ".toList ++ name ++ " from './".toList ++ name ++ "';".toList), Closed .react l := by
    intro l hl
    rcases List.mem_cons.mp hl with rfl | hl
    · decide
    · obtain ⟨name, hmem, rfl⟩ := List.mem_map.mp hl
      exact closed_import (hnames name hmem)
  -- Inside the function two brackets are open, and the body is read with both of them.
  have hdiv := Reads.unlines [')', '\x7d'] (Closed.reads (by decide : Closed .react
    "    </div>".toList) [')', '\x7d']) (reads_foot hname)
  have hinside := Reads.unlines [')', '\x7d'] (Closed.reads (by decide : Closed .react
    "    <div className=\"figma-container\">".toList) [')', '\x7d'])
    (Reads.unlinesLine (hbody.reads [')', '\x7d']) hdiv)
  exact Closed.line (Reads.unlinesAppend hfront (reads_head hname hinside))

/-- The file of a component is closed around a closed body. -/
theorem closed_component {name body : Text} (hname : Closed .react name)
    (hbody : Closed .react (body ++ ['\n'])) :
    Closed .react (target.component name body ++ ['\n']) := by
  have himport : Closed .react reactImport := by decide
  exact Closed.line (Reads.unlines [] himport
    (reads_head hname (Reads.unlinesLine (hbody.reads [')', '\x7d']) (reads_foot hname))))

end DesignCompiler.React
