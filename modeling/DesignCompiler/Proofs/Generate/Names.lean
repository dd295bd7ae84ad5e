import DesignCompiler.Proofs.Generate.Inlining
import DesignCompiler.Proofs.Lexical.Generated

/-!
# `DesignCompiler.Proofs.Generate.Names`: the names that the files of a design bind

The main file binds names of its own at its top level (`Platform.mainNames`), and each component's
file declares the name of the component. An extraction keeps the components apart from one another:
a name that has a file already gets no second one. It does not look at the names of the main file,
so a layer whose name becomes one of them gets a file that declares it again, and the call of that
component names the main file itself (`Generated.poster_clashes`). Apart from such layers all names
are different (`Generated.names_nodup_iff`).
-/

set_option autoImplicit false

namespace DesignCompiler

open Text

/-! ### What a file binds -/

/-- The main file is a view, and behind an empty line the initialiser that reads colours. -/
theorem SwiftUI.document_eq (body : Text) (components : List Text) :
    target.document body components
      = view viewName body ++ '\n' :: ('\n' :: colorInitialiser ++ "\n".toList) := by
  show view viewName body ++ "\n\n".toList ++ colorInitialiser ++ "\n".toList = _
  simp

namespace Platform

/-- The names that the main file binds at its top level. `exists_binds_document` shows that it binds
each of them. -/
def mainNames : Platform → List Text
  | .swiftUI => [SwiftUI.viewName]
  | .compose => [Compose.screenName, Compose.screenName ++ "Preview".toList]
  | .react => [React.componentName, "React".toList]

/-- The line that declares a name. -/
def declaration : Platform → Text → Text
  | .swiftUI, name => "struct ".toList ++ name ++ ": View \x7b".toList
  | .compose, name => "fun ".toList ++ name ++ "() \x7b".toList
  | .react, name => "const ".toList ++ name ++ ": React.FC = () => \x7b".toList

/-- A line binds a name: it declares it, or it imports a module under it. -/
def Binds (platform : Platform) (name line : Text) : Prop :=
  line = platform.declaration name
    ∨ ∃ module, line = "import ".toList ++ name ++ " from '".toList ++ module ++ "';".toList

/-- The line that declares a name is one line if the name is. A line of a file can only be compared
with what is one. -/
theorem unbroken_declaration (platform : Platform) {name : Text} (hname : Unbroken name) :
    Unbroken (platform.declaration name) := by
  cases platform <;>
    exact unbroken_append.mpr ⟨unbroken_append.mpr ⟨by decide, hname⟩, by decide⟩

/-- A view declares its name, two lines below the import. -/
theorem declaration_mem_view {name : Text} (hname : Unbroken name) (body : Text) :
    swiftUI.declaration name ∈ lines (SwiftUI.view name body) := by
  rw [SwiftUI.view]
  exact mem_lines_unlines (List.mem_of_mem_drop (i := 2) List.mem_cons_self)
    (unbroken_declaration swiftUI hname)

/-- A composable function declares its name. -/
theorem declaration_mem_function (name body : Text) :
    compose.declaration name ∈ Compose.function name body :=
  List.mem_cons_of_mem _ List.mem_cons_self

/-- The main file binds its names, whatever stands in it. The line is given for each target: a
declaration, or the import of React. -/
theorem exists_binds_document (platform : Platform) (body : Text) (components : List Text) :
    ∀ name ∈ platform.mainNames,
      ∃ line ∈ lines (platform.target.document body components), platform.Binds name line := by
  intro name hname
  have hunbroken : Unbroken name := by
    have hall : ∀ p ∈ all, ∀ n ∈ p.mainNames, Unbroken n := by decide
    exact hall platform platform.mem_all name hname
  have hdeclaration : Unbroken (platform.declaration name) :=
    unbroken_declaration platform hunbroken
  cases platform with
  | swiftUI =>
    refine ⟨_, ?_, .inl rfl⟩
    show _ ∈ lines (SwiftUI.target.document body components)
    rw [SwiftUI.document_eq, lines_append_newline_append, List.mem_singleton.mp hname]
    exact List.mem_append_left _ (declaration_mem_view (by decide) body)
  | compose =>
    refine ⟨_, mem_lines_unlines ?_ hdeclaration, .inl rfl⟩
    -- Behind both functions stands the one that reads colours, with an empty line on each side.
    refine List.mem_append_left _ (List.mem_append_left _ (List.mem_append_left _ ?_))
    simp only [mainNames, List.mem_cons, List.not_mem_nil, or_false] at hname
    rcases hname with rfl | rfl
    · refine List.mem_append_left _ (List.mem_append_left _ (List.mem_append_right _ ?_))
      exact declaration_mem_function Compose.screenName body
    · exact List.mem_append_right _ (declaration_mem_function _ _)
  | react =>
    simp only [mainNames, List.mem_cons, List.not_mem_nil, or_false] at hname
    rcases hname with rfl | rfl
    · refine ⟨_, mem_lines_unlines ?_ hdeclaration, .inl rfl⟩
      exact List.mem_append_right _ (List.mem_cons_of_mem _ List.mem_cons_self)
    · refine ⟨React.reactImport, mem_lines_unlines List.mem_cons_self (by decide),
        .inr ⟨"react".toList, by decide⟩⟩

/-- The file of a component declares the name of the component, around whatever body. -/
theorem declaration_mem_component (platform : Platform) {name : Text} (hname : Unbroken name)
    (body : Text) : platform.declaration name ∈ lines (platform.target.component name body) := by
  have hline := unbroken_declaration platform hname
  cases platform with
  | swiftUI =>
    show _ ∈ lines (SwiftUI.view name body ++ '\n' :: [])
    rw [lines_append_newline_append]
    exact List.mem_append_left _ (declaration_mem_view hname body)
  | compose =>
    refine mem_lines_unlines ?_ hline
    exact List.mem_append_left _ (List.mem_append_right _ (declaration_mem_function name body))
  | react =>
    exact mem_lines_unlines (List.mem_cons_of_mem _ (List.mem_cons_of_mem _ List.mem_cons_self))
      hline

end Platform

/-! ### The names of components -/

namespace Forest

/-- The components of an extraction are the files of the roots that come first under their name. The
roots are given with their pieces, as `Forest.firsts` takes them. -/
theorem exists_roots_of_extract {platform : Platform} {seen : List Text} {nodes : List Node}
    {pieces : List Block} {components : List Component}
    (h : extract platform seen nodes = .ok (pieces, components)) :
    ∃ roots : List Root, roots.map Root.node = nodes
      ∧ components = (firsts seen roots).map fun root =>
          componentFile platform.target root.name root.piece := by
  induction nodes generalizing seen pieces components with
  | nil =>
    cases h
    exact ⟨[], rfl, rfl⟩
  | cons node rest ih =>
    rw [extract] at h
    by_cases hleaf : node.children.isEmpty
    · rw [if_pos hleaf] at h
      obtain ⟨piece, -, h⟩ := Outcome.bind_eq_ok.mp h
      obtain ⟨⟨others, files⟩, hrest, h⟩ := Outcome.bind_eq_ok.mp h
      cases h
      obtain ⟨roots, rfl, rfl⟩ := ih hrest
      have hcalled : (Root.mk node piece).isCalled = false := by simp [Root.isCalled, hleaf]
      exact ⟨⟨node, piece⟩ :: roots, rfl, by simp [firsts, hcalled]⟩
    · have hcalled : ∀ piece, (Root.mk node piece).isCalled = true := by
        simpa [Root.isCalled] using hleaf
      simp only [if_neg hleaf] at h
      by_cases hseen : ComponentName.ofName node.layer.name ∈ seen
      · -- A root that is only called is not drawn, so any piece will do for it.
        rw [if_pos hseen] at h
        obtain ⟨⟨others, files⟩, hrest, h⟩ := Outcome.bind_eq_ok.mp h
        cases h
        obtain ⟨roots, rfl, rfl⟩ := ih hrest
        exact ⟨⟨node, []⟩ :: roots, rfl, by simp [firsts, Root.name, hseen]⟩
      · rw [if_neg hseen] at h
        obtain ⟨piece, -, h⟩ := Outcome.bind_eq_ok.mp h
        obtain ⟨⟨others, files⟩, hrest, h⟩ := Outcome.bind_eq_ok.mp h
        cases h
        obtain ⟨roots, rfl, rfl⟩ := ih hrest
        exact ⟨⟨node, piece⟩ :: roots, rfl, by simp [firsts, hcalled, Root.name, hseen]⟩

end Forest

namespace Generated

/-- The files of the components, none if they were not asked for. -/
def files (generated : Generated) : List Component := generated.components.getD []

/-- The names of the components. -/
def names (generated : Generated) : List Text := generated.files.map Component.name

/-- The components are files of roots with children, one for each of their names; without an
extraction there are none. Both ways of generating are brought under one statement here. -/
theorem exists_firsts {platform : Platform} {extracting : Bool} {nodes : List Node}
    {generated : Generated} (h : ofNodes platform extracting nodes = .ok generated) :
    ∃ roots : List Root, roots.map Root.node = (if extracting then nodes else [])
      ∧ generated.files = (Forest.firsts [] roots).map fun root =>
          Forest.componentFile platform.target root.name root.piece := by
  cases extracting with
  -- Without components there are no files besides the main one.
  | false =>
    obtain ⟨code, -, rfl⟩ := Outcome.map_eq_ok.mp h
    exact ⟨[], rfl, rfl⟩
  | true =>
    obtain ⟨⟨code, components⟩, hextracted, rfl⟩ := Outcome.map_eq_ok.mp h
    rw [Forest.extracted] at hextracted
    split at hextracted
    · next hempty =>
      cases hextracted
      exact ⟨[], (List.isEmpty_iff.mp hempty).symm, rfl⟩
    · obtain ⟨⟨pieces, found⟩, hextract, hfile⟩ := Outcome.map_eq_ok.mp hextracted
      cases hfile
      exact Forest.exists_roots_of_extract hextract

section

variable {platform : Platform} {extracting : Bool} {nodes : List Node} {generated : Generated}

/-- The components are named after the roots with children, each name once. All that is said of the
names below is read off this list. -/
theorem names_eq (h : ofNodes platform extracting nodes = .ok generated) :
    generated.names = (((if extracting then nodes else []).filter fun node =>
      !node.children.isEmpty).map fun node => ComponentName.ofName node.layer.name).eraseDups := by
  obtain ⟨roots, hroots, hfiles⟩ := exists_firsts h
  calc generated.names
      = (Forest.firsts [] roots).map Root.name := by
        rw [names, hfiles, List.map_map]
        rfl
    _ = (Forest.calledNames roots).eraseDups := by
        rw [Forest.names_firsts]
        simp
    _ = _ := by
        rw [← hroots, List.filter_map, List.map_map]
        rfl

/-- The names of components are those of the roots with children, if there is an extraction at all.
-/
theorem mem_names_iff (h : ofNodes platform extracting nodes = .ok generated) {name : Text} :
    name ∈ generated.names ↔ extracting = true ∧ ∃ node ∈ nodes, node.children ≠ []
      ∧ ComponentName.ofName node.layer.name = name := by
  rw [names_eq h, List.mem_eraseDups, List.mem_map]
  cases extracting with
  | false => simp
  | true => simp [and_assoc]

/-- The file of each component declares its name. -/
theorem declaration_mem_code (h : ofNodes platform extracting nodes = .ok generated)
    {component : Component} (hcomponent : component ∈ generated.files) :
    platform.declaration component.name ∈ lines component.code := by
  obtain ⟨roots, -, hfiles⟩ := exists_firsts h
  rw [hfiles] at hcomponent
  obtain ⟨root, -, rfl⟩ := List.mem_map.mp hcomponent
  refine platform.declaration_mem_component ?_ _
  intro hnewline
  have hletter := ComponentName.isAlphanumeric_of_mem_ofName hnewline
  exact absurd hletter (by decide)

/-- The main file of some trees binds its names, whatever the trees are: `Platform.mainNames` is
read off the code. Without trees there is only the placeholder, which binds none. -/
theorem exists_binds_code (h : ofNodes platform extracting nodes = .ok generated)
    (hne : nodes ≠ []) : ∀ name ∈ platform.mainNames,
      ∃ line ∈ lines generated.code, platform.Binds name line := by
  obtain ⟨pieces, -, hcode⟩ :=
    (drawn_of_ofNodes h).main.resolve_left fun hempty => hne hempty.1
  rw [hcode]
  exact platform.exists_binds_document _ _

/-- The names that the main file binds and the names of the components are all different if no root
that becomes a component has a name of the main file. Among themselves the components always have
different names, and each of them is declared in its file. The main file of one tree or more does
bind its names: there is a line in it for each. -/
theorem names_nodup_iff (h : ofNodes platform extracting nodes = .ok generated) :
    generated.names.Nodup
      ∧ (∀ component ∈ generated.files,
        platform.declaration component.name ∈ lines component.code)
      ∧ (nodes ≠ [] → ∀ name ∈ platform.mainNames,
        ∃ line ∈ lines generated.code, platform.Binds name line)
      ∧ ((platform.mainNames ++ generated.names).Nodup
        ↔ (extracting = true → ∀ node ∈ nodes, node.children ≠ [] →
          ComponentName.ofName node.layer.name ∉ platform.mainNames)) := by
  have hnames : generated.names.Nodup := by
    rw [names_eq h]
    exact Forest.nodup_eraseDups
  have hmain : platform.mainNames.Nodup := by
    have hall : ∀ p ∈ Platform.all, p.mainNames.Nodup := by decide
    exact hall platform platform.mem_all
  refine ⟨hnames, fun component => declaration_mem_code h, exists_binds_code h, ?_⟩
  -- Neither list has a name twice, so the two can only clash with each other.
  rw [List.nodup_append', and_iff_right hmain, and_iff_right hnames, List.disjoint_right]
  simp only [mem_names_iff h]
  constructor
  · intro hdisjoint hextracting node hnode hchildren
    exact hdisjoint ⟨hextracting, node, hnode, hchildren, rfl⟩
  · rintro hapart name ⟨hextracting, node, hnode, hchildren, rfl⟩
    exact hapart hextracting node hnode hchildren

/-- The component of two cards and the main file of a design have different names. -/
theorem cards_names_nodup : ∃ generated, ofNodes .react true Forest.cards = .ok generated
    ∧ generated.names.Nodup
    ∧ (∀ component ∈ generated.files,
      Platform.react.declaration component.name ∈ lines component.code)
    ∧ (∀ name ∈ Platform.react.mainNames,
      ∃ line ∈ lines generated.code, Platform.react.Binds name line)
    ∧ (Platform.react.mainNames ++ generated.names).Nodup := by
  have hok : (ofNodes .react true Forest.cards).isOk = true := by decide +kernel
  cases h : ofNodes .react true Forest.cards with
  | error fault =>
    rw [h] at hok
    cases hok
  | ok generated =>
    obtain ⟨hnames, hdeclared, hbound, hiff⟩ := names_nodup_iff h
    exact ⟨generated, rfl, hnames, hdeclared, hbound (by decide), hiff.mpr (by decide +kernel)⟩

end

/-- A frame with the name of the main view, around a text. -/
def poster : Node :=
  .mk (Forest.plainLayer "FRAME" "Generated View" none)
    [.mk (Forest.plainLayer "TEXT" "Label" (some "Hi".toList)) []]

/-- The component of a poster has the name of the main view, and the main view shows itself. -/
theorem poster_clashes : ∃ generated, ofNodes .swiftUI true [poster] = .ok generated
    ∧ ¬ (Platform.swiftUI.mainNames ++ generated.names).Nodup
    ∧ generated.code = Forest.mainFile Platform.swiftUI.target
      [Platform.swiftUI.target.reference SwiftUI.viewName] [SwiftUI.viewName] := by
  have hname : ComponentName.ofName poster.layer.name = SwiftUI.viewName := by decide
  have hok : (poster.render .swiftUI).isOk = true := by decide +kernel
  cases hpiece : poster.render .swiftUI with
  | error fault =>
    rw [hpiece] at hok
    cases hok
  | ok piece =>
    have hdraws : Forest.Draws .swiftUI [⟨poster, piece⟩] := by
      simpa [Forest.Draws] using hpiece
    -- The only root is a component, and a reference is all that is left of it.
    have hextract : Forest.extract .swiftUI [] [poster]
        = .ok ([Platform.swiftUI.target.reference SwiftUI.viewName],
          [Forest.componentFile Platform.swiftUI.target SwiftUI.viewName piece]) := by
      rw [← hname]
      exact Forest.extract_eq hdraws []
    refine ⟨⟨Forest.mainFile Platform.swiftUI.target
      [Platform.swiftUI.target.reference SwiftUI.viewName] [SwiftUI.viewName], .swiftUI,
      some [Forest.componentFile Platform.swiftUI.target SwiftUI.viewName piece]⟩, ?_, ?_, rfl⟩
    · rw [ofNodes, if_pos rfl, Forest.extracted, hextract]
      rfl
    · show ¬ [SwiftUI.viewName, SwiftUI.viewName].Nodup
      decide

end Generated

end DesignCompiler
