import DesignCompiler.Proofs.Generate.Drawn
import DesignCompiler.Proofs.Generate.Names
import DesignCompiler.Proofs.Render.Guarded

/-!
# `DesignCompiler.Proofs.Generate.Fence`: no line of generated code is a fence

The lines of a file are those that the target writes around the code, and the lines of the code
itself, which are guarded. So generated code can stand in a fenced block of markdown, whatever the
names and texts of the layers are (`Generated.fenceFree_of_ofNodes`).
-/

set_option autoImplicit false

namespace DesignCompiler

open Text

/-! ### Pieces -/

/-- A piece of code with guarded lines only. It says nothing about the depth, since blanks in front
of a line do not make it a fence. -/
def Block.IsSafe (block : Block) : Prop := ∀ line ∈ block, IsGuardedLine line.text

/-- The code of a tree is safe if its colours are on one line. Names and texts are not asked for
anything: they stand in literals and comments. -/
theorem Block.isSafe_of_render {platform : Platform} {node : Node}
    (hcolors : ∀ t ∈ node.colors, Unbroken t) {block : Block}
    (h : node.render platform = .ok block) : block.IsSafe :=
  fun line hline => ⟨(isLined_of_render hcolors h).2 line hline,
    isGuarded_of_render hcolors h line hline⟩

/-! ### Names -/

/-- A name made of ASCII letters and digits, as those of components are. It may be empty here, and
may begin with a digit. -/
def Text.IsName (name : Text) : Prop := ∀ c ∈ name, isAlphanumeric c = true

/-- The characters are looked at one by one. -/
instance (name : Text) : Decidable name.IsName :=
  List.decidableBAll (fun c => isAlphanumeric c = true) name

/-- The identifier of a layer is a name, whatever the layer is called. -/
theorem ComponentName.isName_ofName (name : Text) : (ofName name).IsName :=
  fun _ => isAlphanumeric_of_mem_ofName

/-- A name is on one line. -/
theorem Text.IsName.unbroken {name : Text} (h : name.IsName) : Unbroken name :=
  fun hmem => absurd (h '\n' hmem) (by decide)

/-- A line may begin with a name, which may be empty. -/
theorem Text.IsName.guardedLine {name rest : Text} (h : name.IsName) (hrest : rest.IsGuardedLine) :
    IsGuardedLine (name ++ rest) :=
  ⟨unbroken_append.mpr ⟨h.unbroken, hrest.unbroken⟩,
    hrest.guarded.behind fun hmem => absurd (h '`' hmem) (by decide)⟩

/-- Blanks in front of a guarded line leave it guarded. They are what depth adds to a line. -/
theorem Text.IsGuardedLine.indented {indent line : Text} (h : line.IsGuardedLine)
    (hindent : ∀ c ∈ indent, c = ' ') : IsGuardedLine (indent ++ line) :=
  ⟨unbroken_append.mpr ⟨fun hmem => absurd (hindent '\n' hmem) (by decide), h.unbroken⟩,
    h.guarded.behind fun hmem => absurd (hindent '`' hmem) (by decide)⟩

namespace Platform

/-- The call of a component is a guarded line in every target. -/
theorem isSafe_reference (platform : Platform) {name : Text} (hname : name.IsName) :
    Block.IsSafe (platform.target.reference name) := by
  cases platform with
  | swiftUI | compose => exact List.forall_mem_singleton.mpr (hname.guardedLine (by decide))
  | react =>
    have hopening : IsGuardedLine "<".toList := by decide
    exact List.forall_mem_singleton.mpr ((hopening.append hname.unbroken).append (by decide))

/-- Code with guarded lines has no fence at any depth, since the unit of indentation is blanks in
every target. -/
theorem fenceFree_layOut (platform : Platform) {block : Block} (h : block.IsSafe) (depth : Int) :
    FenceFree (Block.layOut platform.target.unit depth block) := by
  have hunit : platform.target.unit.all (· = ' ') = true := by cases platform <;> decide
  refine fenceFree_unlines ?_
  intro piece hpiece
  obtain ⟨line, hline, rfl⟩ := List.mem_map.mp hpiece
  refine ((h line hline).indented ?_).fenceFree
  -- The indentation repeats the unit, which is made of blanks.
  intro c hc
  obtain ⟨copy, hcopy, hc⟩ := List.mem_flatten.mp hc
  rw [List.eq_of_mem_replicate hcopy] at hc
  exact of_decide_eq_true (List.all_eq_true.mp hunit c hc)

end Platform

/-! ### Files -/

/-- A view has no fence if its body has none. Its other lines are fixed but for the name. -/
theorem SwiftUI.fenceFree_view {name body : Text} (hname : name.IsName)
    (hbody : FenceFree body) : FenceFree (view name body) := by
  have hstruct : IsGuardedLine "struct ".toList := by decide
  have hcall : IsGuardedLine ("    ".toList ++ name ++ "()".toList) := by
    rw [List.append_assoc]
    exact (hname.guardedLine (by decide)).indented (by simp)
  refine fenceFree_unlines ?_
  -- The lines of the view one by one; only the declaration, the body and the call depend on
  -- anything.
  simp only [List.forall_mem_cons]
  exact ⟨by decide, by decide, ((hstruct.append hname.unbroken).append (by decide)).fenceFree,
    by decide, hbody, by decide, by decide, by decide, by decide, hcall.fenceFree, by decide,
    by simp⟩

/-- The initialiser that reads colours has no fence. Its lines are fixed and are tried one by one.
-/
theorem SwiftUI.fenceFree_colorInitialiser : FenceFree colorInitialiser := by
  refine fenceFree_unlines ?_
  simp only [List.forall_mem_cons]
  repeat' apply And.intro
  all_goals first
    | exact of_literal (by decide)
    | simp

/-- The package and the imports have no fence. Only the names of the imports have to be on one line.
-/
theorem Compose.fenceFree_preamble {imports : List Text} (h : ∀ name ∈ imports, Unbroken name) :
    ∀ piece ∈ preamble imports, FenceFree piece := by
  have himport : IsGuardedLine "import ".toList := by decide
  refine List.forall_mem_append.mpr ⟨?_, ?_⟩
  · simp only [List.forall_mem_cons]
    exact ⟨of_literal (by decide), by decide, by simp⟩
  · intro piece hpiece
    obtain ⟨name, hname, rfl⟩ := List.mem_map.mp hpiece
    exact (himport.append (h name hname)).fenceFree

/-- The imports before the place of the preview are on one line each. -/
theorem Compose.unbroken_importsBefore : ∀ name ∈ importsBefore, Unbroken name := by
  simp only [importsBefore, List.forall_mem_cons]
  repeat' apply And.intro
  all_goals first
    | exact of_literal (by decide)
    | simp

/-- So are the imports after it. -/
theorem Compose.unbroken_importsAfter : ∀ name ∈ importsAfter, Unbroken name := by
  simp only [importsAfter, List.forall_mem_cons]
  exact ⟨of_literal (by decide), of_literal (by decide), by simp⟩

/-- The function that reads colours has no fence. -/
theorem Compose.fenceFree_colorReader : ∀ piece ∈ colorReader, FenceFree piece := by
  simp only [colorReader, List.forall_mem_cons]
  repeat' apply And.intro
  all_goals first
    | exact of_literal (by decide)
    | simp

/-- A function has no fence if its body has none and its name is on one line. -/
theorem Compose.fenceFree_function {name body : Text} (hname : Unbroken name)
    (hbody : FenceFree body) : ∀ piece ∈ function name body, FenceFree piece := by
  have hfun : IsGuardedLine "fun ".toList := by decide
  simp only [function, List.forall_mem_cons]
  exact ⟨by decide, ((hfun.append hname).append (by decide)).fenceFree, hbody, by decide, by simp⟩

namespace Platform

/-- The main file has no fence around code without one. -/
theorem fenceFree_document (platform : Platform) {body : Text} (hbody : FenceFree body)
    {names : List Text} (hnames : ∀ name ∈ names, name.IsName) :
    FenceFree (platform.target.document body names) := by
  cases platform with
  | swiftUI =>
    have hempty : FenceFree [] := by decide
    show FenceFree (SwiftUI.target.document body names)
    rw [SwiftUI.document_eq]
    exact (SwiftUI.fenceFree_view (by decide) hbody).append_newline
      (hempty.append_newline (SwiftUI.fenceFree_colorInitialiser.append_newline hempty))
  | compose =>
    have himports : ∀ name ∈
        Compose.importsBefore ++ [Compose.previewImport] ++ Compose.importsAfter,
        Unbroken name := by
      simp only [List.forall_mem_append, List.forall_mem_singleton]
      exact ⟨⟨Compose.unbroken_importsBefore, of_literal (by decide)⟩,
        Compose.unbroken_importsAfter⟩
    have hpreamble := Compose.fenceFree_preamble himports
    -- The preamble, the screen around the body, its preview, and the reader of colours.
    refine fenceFree_unlines ?_
    simp only [List.forall_mem_append]
    exact ⟨⟨⟨⟨⟨⟨⟨hpreamble, by decide⟩, Compose.fenceFree_function (by decide) hbody⟩, by decide⟩,
      Compose.fenceFree_function (by decide) (by decide)⟩, by decide⟩,
      Compose.fenceFree_colorReader⟩, by decide⟩
  | react =>
    have himports : ∀ piece ∈ names.map (fun name =>
        "import ".toList ++ name ++ " from './".toList ++ name ++ "';".toList),
        FenceFree piece := by
      have himport : IsGuardedLine "import ".toList := by decide
      intro piece hpiece
      obtain ⟨name, hname, rfl⟩ := List.mem_map.mp hpiece
      -- The name stands in an import twice, and in no way that could break the line.
      have hunbroken := (hnames name hname).unbroken
      exact ((((himport.append hunbroken).append (by decide)).append hunbroken).append
        (by decide)).fenceFree
    refine fenceFree_unlines (List.forall_mem_append.mpr ⟨?_, ?_⟩)
    · exact List.forall_mem_cons.mpr ⟨by decide, himports⟩
    · simp only [List.forall_mem_cons]
      exact ⟨by decide, by decide, by decide, by decide, hbody, by decide, by decide, by decide,
        by decide, by decide, by decide, by simp⟩

/-- The file of a component has no fence around code without one. -/
theorem fenceFree_component (platform : Platform) {name body : Text} (hname : name.IsName)
    (hbody : FenceFree body) : FenceFree (platform.target.component name body) := by
  cases platform with
  | swiftUI =>
    exact (SwiftUI.fenceFree_view hname hbody).append_newline (b := []) (by decide)
  | compose =>
    have hpreamble := Compose.fenceFree_preamble (List.forall_mem_append.mpr
      ⟨Compose.unbroken_importsBefore, Compose.unbroken_importsAfter⟩)
    -- The file is put together from lines, of which only the name and the body are not fixed.
    refine fenceFree_unlines ?_
    simp only [List.forall_mem_append]
    exact ⟨⟨⟨hpreamble, by decide⟩, Compose.fenceFree_function hname.unbroken hbody⟩, by decide⟩
  | react =>
    have hconst : IsGuardedLine "const ".toList := by decide
    have hexport : IsGuardedLine "export default ".toList := by decide
    refine fenceFree_unlines ?_
    simp only [List.forall_mem_cons]
    exact ⟨by decide, by decide, ((hconst.append hname.unbroken).append (by decide)).fenceFree,
      by decide, hbody, by decide, by decide, by decide,
      ((hexport.append hname.unbroken).append (by decide)).fenceFree, by decide, by simp⟩

end Platform

/-! ### Generated code -/

namespace Generated

variable {platform : Platform} {extracting : Bool} {nodes : List Node} {generated : Generated}

/-- The components are named by letters and digits. -/
theorem isName_of_mem_files (h : ofNodes platform extracting nodes = .ok generated)
    {component : Component} (hcomponent : component ∈ generated.files) :
    component.name.IsName := by
  obtain ⟨node, -, piece, -, rfl⟩ := (drawn_of_ofNodes h).components component hcomponent
  exact ComponentName.isName_ofName node.layer.name

/-- No line of the main file or of a component is a fence if the colours of the trees stand on one
line. -/
theorem fenceFree_of_ofNodes (hcolors : ∀ color ∈ Node.colorsAll nodes, Unbroken color)
    (h : ofNodes platform extracting nodes = .ok generated) :
    FenceFree generated.code ∧ ∀ component ∈ generated.files, FenceFree component.code := by
  have hnode : ∀ node ∈ nodes, ∀ color ∈ node.colors, Unbroken color :=
    fun node hmem color hcolor => hcolors color (Node.mem_colorsAll.mpr ⟨node, hmem, hcolor⟩)
  obtain ⟨-, hmain, hfiles⟩ := drawn_of_ofNodes h
  constructor
  · rcases hmain with ⟨-, hempty⟩ | ⟨pieces, hpieces, hcode⟩
    · rw [hempty]
      decide
    · have hsafe : Block.IsSafe pieces.flatten := by
        intro line hline
        obtain ⟨piece, hpiece, hline⟩ := List.mem_flatten.mp hline
        -- A piece is the code of a node or a reference to a component.
        rcases hpieces piece hpiece with ⟨node, hmem, hrender⟩ | ⟨name, rfl⟩
        · exact Block.isSafe_of_render (hnode node hmem) hrender line hline
        · exact platform.isSafe_reference (ComponentName.isName_ofName name) line hline
      rw [hcode]
      refine platform.fenceFree_document (platform.fenceFree_layOut hsafe _) ?_
      intro name hname
      obtain ⟨component, hcomponent, rfl⟩ := List.mem_map.mp hname
      exact isName_of_mem_files h hcomponent
  · intro component hcomponent
    obtain ⟨node, hmem, piece, hrender, rfl⟩ := hfiles component hcomponent
    exact platform.fenceFree_component (ComponentName.isName_ofName node.layer.name)
      (platform.fenceFree_layOut (Block.isSafe_of_render (hnode node hmem) hrender) _)

end Generated

end DesignCompiler
