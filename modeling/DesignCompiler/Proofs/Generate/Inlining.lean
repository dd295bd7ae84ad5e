import Mathlib.Data.List.Forall2
import Mathlib.Data.List.Nodup
import DesignCompiler.Generate
import DesignCompiler.Proofs.Render.Depth

/-!
# `DesignCompiler.Proofs.Generate.Inlining`: extracting components and putting them back

`Forest.extracted` takes the trees with children out of the main file and calls them there. Putting
them back gives the file that `Forest.inlined` writes at once (`extracted_eq_inlined`).

A drawn forest is a list of `Root`s. `Forest.firsts` are the roots whose code gets a file, and
`extract_eq` says that an extraction draws these roots and calls. The names of the files are the
names of the roots, each once, in the order in which they come first (`names_firsts`).

`Forest.IsOutline` states what an extraction has to be: entries of the main file, one for each root,
and units that the calls among them name. An entry is expanded by putting the body of its unit in
its place, indented by the levels that lie between the two depths. Roots that share a name share a
file, so their code has to be the same (`Forest.Agree`).
-/

set_option autoImplicit false

namespace DesignCompiler

open Text

/-- A root of a forest with its code. The two are kept together because an extraction takes some
roots apart and calls others, and both need the node and its piece. -/
structure Root where
  node : Node
  piece : Block

namespace Root

/-- Whether the root is called as a component. -/
def isCalled (root : Root) : Bool := !root.node.children.isEmpty

/-- The name under which the root is called. -/
def name (root : Root) : Text := ComponentName.ofName root.node.layer.name

/-- The piece that stands for a root in the main file of an extraction: a call, or its own code. -/
def entry (platform : Platform) (root : Root) : Block :=
  if root.isCalled then platform.target.reference root.name else root.piece

end Root

namespace Forest

/-- The roots whose code gets a file: those that are called, each under a name not yet seen. It is
what an extraction does with names, without the drawing. -/
def firsts (seen : List Text) : List Root → List Root
  | [] => []
  | root :: rest =>
    if root.isCalled && root.name ∉ seen then root :: firsts (root.name :: seen) rest
    else firsts seen rest

/-- The names of the roots that are called. -/
def calledNames (roots : List Root) : List Text := (roots.filter Root.isCalled).map Root.name

/-- The roots that are drawn: the piece of each is its code. -/
def Draws (platform : Platform) (roots : List Root) : Prop :=
  ∀ root ∈ roots, root.node.render platform = .ok root.piece

/-- Drawing all trees draws each of them, so a forest that is drawn is a list of drawn roots. -/
theorem exists_roots {platform : Platform} {nodes : List Node} {pieces : List Block}
    (h : Node.renderAll platform nodes = .ok pieces) :
    ∃ roots : List Root, Draws platform roots ∧ roots.map Root.node = nodes
      ∧ roots.map Root.piece = pieces := by
  induction nodes generalizing pieces with
  | nil =>
    cases h
    exact ⟨[], by simp [Draws], rfl, rfl⟩
  | cons node rest ih =>
    rw [Node.renderAll] at h
    obtain ⟨piece, hpiece, h⟩ := Outcome.bind_eq_ok.mp h
    obtain ⟨others, hothers, h⟩ := Outcome.bind_eq_ok.mp h
    cases h
    obtain ⟨roots, hdraws, rfl, rfl⟩ := ih hothers
    refine ⟨⟨node, piece⟩ :: roots, ?_, rfl, rfl⟩
    intro root hroot
    rcases List.mem_cons.mp hroot with rfl | hroot
    · exact hpiece
    · exact hdraws root hroot

/-- An extraction writes the entries of all roots and the files of the first ones. Where all roots
can be drawn it goes through, though it draws fewer of them. -/
theorem extract_eq {platform : Platform} {roots : List Root} (h : Draws platform roots)
    (seen : List Text) :
    extract platform seen (roots.map Root.node)
      = .ok (roots.map (Root.entry platform),
          (firsts seen roots).map fun root =>
            componentFile platform.target root.name root.piece) := by
  induction roots generalizing seen with
  | nil => rfl
  | cons root rest ih =>
    have hroot : root.node.render platform = .ok root.piece := h root (by simp)
    have hrest : Draws platform rest := fun r hr => h r (List.mem_cons_of_mem root hr)
    rw [List.map_cons, extract]
    by_cases hleaf : root.node.children.isEmpty
    · have hcalled : root.isCalled = false := by simp [Root.isCalled, hleaf]
      rw [if_pos hleaf, hroot, ih hrest, firsts]
      simp [Root.entry, hcalled]
    · have hcalled : root.isCalled = true := by simpa [Root.isCalled] using hleaf
      have hname : ComponentName.ofName root.node.layer.name = root.name := rfl
      simp only [if_neg hleaf, hname]
      by_cases hseen : root.name ∈ seen
      · -- A root that is only called is not drawn again.
        rw [if_pos hseen, ih hrest, firsts]
        simp [Root.entry, hcalled, hseen]
      · rw [if_neg hseen, hroot, Outcome.ok_bind, ih hrest, firsts]
        simp [Root.entry, hcalled, hseen]

/-- The files are those of the roots that are called, one for each name, in the order of the first
roots with that name. The names that were seen before are left out. -/
theorem names_firsts (seen : List Text) (roots : List Root) :
    (firsts seen roots).map Root.name
      = ((calledNames roots).filter fun name => name ∉ seen).eraseDups := by
  induction roots generalizing seen with
  | nil => rfl
  | cons root rest ih =>
    rw [firsts]
    by_cases hcalled : root.isCalled
    · have hnames : calledNames (root :: rest) = root.name :: calledNames rest := by
        simp [calledNames, hcalled]
      rw [hnames]
      by_cases hseen : root.name ∈ seen
      · simp [hseen, ih]
      · -- The name of the root is left out behind it, as one that was seen and as a repeat.
        simp only [hcalled, hseen, not_false_eq_true, decide_true, Bool.and_self, if_true,
          List.map_cons, List.filter_cons_of_pos, List.eraseDups_cons, ih, List.filter_filter]
        congr 2
        refine List.filter_congr ?_
        intro name _
        by_cases hname : name = root.name <;> simp [hname]
    · have hnames : calledNames (root :: rest) = calledNames rest := by
        simp [calledNames, hcalled]
      rw [hnames]
      simp [hcalled, ih]

/-- The roots whose code gets a file are roots that are called. The order and the names do not
matter here. -/
theorem mem_of_mem_firsts {seen : List Text} {root : Root} {roots : List Root}
    (h : root ∈ firsts seen roots) : root ∈ roots ∧ root.isCalled = true := by
  induction roots generalizing seen with
  | nil => cases h
  | cons first rest ih =>
    rw [firsts] at h
    split at h
    · next hfirst =>
      rcases List.mem_cons.mp h with rfl | h
      · exact ⟨List.mem_cons_self, (Bool.and_eq_true_iff.mp hfirst).1⟩
      · exact ⟨List.mem_cons_of_mem first (ih h).1, (ih h).2⟩
    · exact ⟨List.mem_cons_of_mem first (ih h).1, (ih h).2⟩

/-- Without repeats, an element comes first where it comes at all. The list behind an element
shrinks when repeats of it are taken out, so the induction is on the length. -/
theorem nodup_eraseDups {names : List Text} : names.eraseDups.Nodup := by
  induction hlength : names.length using Nat.strongRecOn generalizing names with
  | ind n ih =>
    cases names with
    | nil => exact List.nodup_nil
    | cons name rest =>
      have hfewer : (rest.filter fun other => !other == name).length < n := by
        have hle := List.length_filter_le (fun other => !other == name) rest
        rw [List.length_cons] at hlength
        omega
      rw [List.eraseDups_cons, List.nodup_cons]
      refine ⟨?_, ih _ hfewer rfl⟩
      intro hmem
      -- The names behind the first one are those that differ from it.
      have hother := (List.mem_filter.mp (List.mem_eraseDups.mp hmem)).2
      simp at hother

/-! ### Outlines -/

/-- What stands for a root in the main file of an extraction. It keeps the name apart from the code,
so a call can be put back. -/
inductive Entry
  /-- The call of a component. -/
  | call (name : Text)
  /-- The code of the root itself. -/
  | code (text : Text)

/-- A component: its name, and the code of its node as it stands in its file, without the lines
around it. -/
structure NamedCode where
  name : Text
  code : Text

/-- The file of a component. -/
def NamedCode.file (target : Target) (named : NamedCode) : Component :=
  ⟨named.name, target.component named.name named.code, target.platform.fileExtension⟩

/-- The lines of an entry in the main file. -/
def Entry.text (target : Target) : Entry → Text
  | .call name => Block.layOut target.unit target.bodyDepth (target.reference name)
  | .code text => text

/-- The lines that an entry stands for: a call stands for the code of its component, indented by the
levels between the two depths. -/
def Entry.expand (target : Target) (components : List NamedCode) : Entry → Text
  | .call name =>
    match components.find? fun named => named.name = name with
    | some named =>
      indented (target.unit.times (target.bodyDepth - target.componentDepth)) named.code
    | none => []
  | .code text => text

/-- A body of entries and some components are an outline of a forest. The clauses do not mention how
an extraction works; they are what a reader of the files can see. -/
structure IsOutline (platform : Platform) (nodes : List Node) (body : List Entry)
    (components : List NamedCode) : Prop where
  /-- No two components have the same name. -/
  unique : (components.map NamedCode.name).Nodup
  /-- The components are named after the roots with children, in the order in which the names come
  first. -/
  names : components.map NamedCode.name
    = ((nodes.filter fun node => !node.children.isEmpty).map fun node =>
        ComponentName.ofName node.layer.name).eraseDups
  /-- There is one entry for each root, in order: a call for a root with children, else its code. -/
  entries : List.Forall₂ (fun node entry =>
    if node.children.isEmpty then
      ∃ text, node.renderAt platform platform.target.bodyDepth = .ok text ∧ entry = .code text
    else entry = .call (ComponentName.ofName node.layer.name)) nodes body
  /-- Every call names exactly one component. -/
  called : ∀ name, Entry.call name ∈ body →
    ∃! named, named ∈ components ∧ named.name = name
  /-- Every component is called. -/
  calls : ∀ named ∈ components, Entry.call named.name ∈ body
  /-- Every entry stands for the code of its root. -/
  expands : List.Forall₂ (fun node entry =>
    node.renderAt platform platform.target.bodyDepth
      = .ok (entry.expand platform.target components)) nodes body

/-- The entry of a root. -/
def outlined (target : Target) (root : Root) : Entry :=
  if root.isCalled then .call root.name
  else .code (Block.layOut target.unit target.bodyDepth root.piece)

/-- The component of a root. -/
def component (target : Target) (root : Root) : NamedCode :=
  ⟨root.name, Block.layOut target.unit target.componentDepth root.piece⟩

section

variable {platform : Platform} {roots : List Root}

/-- A drawn root is laid out at every depth. Its code does not depend on the depth but for the
blanks. -/
theorem renderAt_of_draws (hdraws : Draws platform roots) {root : Root} (hroot : root ∈ roots)
    (depth : Int) :
    root.node.renderAt platform depth
      = .ok (Block.layOut platform.target.unit depth root.piece) := by
  rw [Node.renderAt, hdraws root hroot, Outcome.map_ok]

/-- The main file of an extraction holds the texts of its entries. The pieces are laid out one by
one or together, with the same lines. -/
theorem mainFile_entries (hlined : ∀ root ∈ roots, root.piece.IsLined) (names : List Text) :
    mainFile platform.target (roots.map (Root.entry platform)) names
      = platform.target.document
        (unlines ((roots.map (outlined platform.target)).map (Entry.text platform.target)))
          names := by
  have hreference : ∀ name, platform.target.reference name ≠ [] := by
    intro name
    cases platform <;> exact List.cons_ne_nil _ _
  have hne : ∀ piece ∈ roots.map (Root.entry platform), piece ≠ [] := by
    intro piece hpiece
    obtain ⟨root, hroot, rfl⟩ := List.mem_map.mp hpiece
    rw [Root.entry]
    split
    · exact hreference root.name
    · exact (hlined root hroot).1
  rw [mainFile, Block.layOut_flatten hne, List.map_map, List.map_map]
  -- The pieces are the same one by one, as references and as code.
  congr 2
  refine List.map_congr_left ?_
  intro root _
  simp only [Function.comp_apply, Root.entry, outlined]
  split <;> rfl

/-- Two roots with the same name have the same code. Roots without children are not asked, as they
are drawn in their place. -/
def Agree (platform : Platform) (nodes : List Node) : Prop :=
  ∀ a ∈ nodes, ∀ b ∈ nodes, a.children ≠ [] → b.children ≠ [] →
    ComponentName.ofName a.layer.name = ComponentName.ofName b.layer.name →
      a.renderAt platform platform.target.componentDepth
        = b.renderAt platform platform.target.componentDepth

/-- A root that is called has a file under its name, its own or that of an earlier root. -/
theorem name_mem_firsts {root : Root} (hroot : root ∈ roots) (hcalled : root.isCalled = true) :
    root.name ∈ (firsts [] roots).map Root.name := by
  rw [names_firsts, List.mem_eraseDups, List.mem_filter]
  exact ⟨List.mem_map_of_mem (List.mem_filter.mpr ⟨hroot, hcalled⟩), by simp⟩

/-- The code of a root in the main file is its code in a component's file, indented. The two depths
are those of the target, and the body is never the shallower one. -/
theorem layOut_bodyDepth {root : Root} (hlined : root.piece.IsLined) :
    Block.layOut platform.target.unit platform.target.bodyDepth root.piece
      = indented (platform.target.unit.times
            (platform.target.bodyDepth - platform.target.componentDepth))
          (Block.layOut platform.target.unit platform.target.componentDepth root.piece) := by
  have hdepth : platform.target.componentDepth
      + (platform.target.bodyDepth - platform.target.componentDepth)
        = platform.target.bodyDepth := by
    cases platform <;> rfl
  rw [← Block.layOut_add platform.unbroken_unit hlined, hdepth]

/-- The entry of a root stands for its code. For a call this needs that the file under its name,
which may be that of another root, has the same code. -/
theorem expand_outlined (hdraws : Draws platform roots)
    (hlined : ∀ root ∈ roots, root.piece.IsLined) (hagree : Agree platform (roots.map Root.node))
    {root : Root} (hroot : root ∈ roots) :
    (outlined platform.target root).expand platform.target
        ((firsts [] roots).map (component platform.target))
      = Block.layOut platform.target.unit platform.target.bodyDepth root.piece := by
  rw [outlined]
  split
  · next hcalled =>
    rw [Entry.expand]
    split
    · next named hfind =>
      -- The file is that of the first root with the name, whose code is the same.
      obtain ⟨first, hfirst, rfl⟩ := List.mem_map.mp (List.mem_of_find?_eq_some hfind)
      have hfound := List.find?_some hfind
      have hname : first.name = root.name := of_decide_eq_true hfound
      obtain ⟨hmem, hfirstCalled⟩ := mem_of_mem_firsts hfirst
      have hsame := hagree first.node (List.mem_map_of_mem hmem) root.node
        (List.mem_map_of_mem hroot) (by simpa [Root.isCalled] using hfirstCalled)
        (by simpa [Root.isCalled] using hcalled) hname
      rw [renderAt_of_draws hdraws hmem, renderAt_of_draws hdraws hroot,
        Except.ok.injEq] at hsame
      rw [layOut_bodyDepth (hlined root hroot), ← hsame]
      rfl
    · next hnone =>
      -- There is a file under the name of every root that is called.
      obtain ⟨first, hfirst, hname⟩ := List.mem_map.mp (name_mem_firsts hroot hcalled)
      have hno := List.find?_eq_none.mp hnone _ (List.mem_map_of_mem hfirst)
      simp [component, hname] at hno
  · rfl

/-- A root that is called has a call for its entry, and no other root has. -/
theorem outlined_eq_call {root : Root} {name : Text} {target : Target} :
    outlined target root = .call name ↔ root.isCalled = true ∧ root.name = name := by
  rw [outlined]
  split
  · next hcalled => simp [hcalled]
  · next hcalled => simp [hcalled]

/-- The entries and components of drawn roots are an outline. Each clause is read off
`Forest.firsts` and the names of the roots. -/
theorem isOutline (hdraws : Draws platform roots) (hlined : ∀ root ∈ roots, root.piece.IsLined)
    (hagree : Agree platform (roots.map Root.node)) :
    IsOutline platform (roots.map Root.node) (roots.map (outlined platform.target))
      ((firsts [] roots).map (component platform.target)) := by
  have hfirst : ((firsts [] roots).map (component platform.target)).map NamedCode.name
      = (firsts [] roots).map Root.name := List.map_map
  have hunique :
      (((firsts [] roots).map (component platform.target)).map NamedCode.name).Nodup := by
    rw [hfirst, names_firsts]
    exact nodup_eraseDups
  constructor
  case unique => exact hunique
  -- The names are those of the first occurrences, and there is one component for each.
  case names =>
    have hall : (calledNames roots).filter (fun name => name ∉ []) = calledNames roots := by simp
    rw [hfirst, names_firsts, hall, calledNames, List.filter_map, List.map_map]
    rfl
  case entries =>
    rw [List.forall₂_map_left_iff, List.forall₂_map_right_iff, List.forall₂_same]
    intro root hroot
    split
    · next hleaf =>
      have hcalled : root.isCalled = false := by simp [Root.isCalled, hleaf]
      exact ⟨_, renderAt_of_draws hdraws hroot _, by simp [outlined, hcalled]⟩
    · next hleaf =>
      have hcalled : root.isCalled = true := by simpa [Root.isCalled] using hleaf
      exact outlined_eq_call.mpr ⟨hcalled, rfl⟩
  case called =>
    intro name hname
    obtain ⟨root, hroot, hentry⟩ := List.mem_map.mp hname
    obtain ⟨hcalled, rfl⟩ := outlined_eq_call.mp hentry
    obtain ⟨first, hmem, hsame⟩ := List.mem_map.mp (name_mem_firsts hroot hcalled)
    refine ⟨component platform.target first, ⟨List.mem_map_of_mem hmem, hsame⟩, ?_⟩
    intro other hother
    -- No other component has this name.
    exact List.inj_on_of_nodup_map hunique hother.1 (List.mem_map_of_mem hmem)
      (hother.2.trans hsame.symm)
  case calls =>
    intro named hnamed
    obtain ⟨first, hmem, rfl⟩ := List.mem_map.mp hnamed
    obtain ⟨hroot, hcalled⟩ := mem_of_mem_firsts hmem
    exact List.mem_map.mpr ⟨first, hroot, outlined_eq_call.mpr ⟨hcalled, rfl⟩⟩
  -- Where names agree the code does, so it does not matter which root the component was made from.
  case expands =>
    rw [List.forall₂_map_left_iff, List.forall₂_map_right_iff, List.forall₂_same]
    intro root hroot
    rw [expand_outlined hdraws hlined hagree hroot, renderAt_of_draws hdraws hroot]

end

/-- Extracting components and putting them back gives the file with everything in its place. The
conditions are that there is a tree, that colours are on one line, and that roots which share a file
have the same code; names and texts may be anything. -/
theorem extracted_eq_inlined {platform : Platform} {nodes : List Node} (hne : nodes ≠ [])
    (hcolors : ∀ color ∈ Node.colorsAll nodes, Unbroken color) (hagree : Agree platform nodes)
    {file : Text} (h : inlined platform nodes = .ok file) :
    ∃ body components, IsOutline platform nodes body components
      ∧ extracted platform nodes
        = .ok (platform.target.document (unlines (body.map (Entry.text platform.target)))
            (components.map NamedCode.name), components.map (NamedCode.file platform.target))
      ∧ file = platform.target.document
          (unlines (body.map (Entry.expand platform.target components))) [] := by
  have hnonempty : nodes.isEmpty = false := by simpa using hne
  rw [inlined, hnonempty] at h
  obtain ⟨pieces, hpieces, rfl⟩ := Outcome.map_eq_ok.mp h
  obtain ⟨roots, hdraws, rfl, rfl⟩ := exists_roots hpieces
  have hlined : ∀ root ∈ roots, root.piece.IsLined := fun root hroot =>
    Block.isLined_of_renderAll hcolors hpieces root.piece (List.mem_map_of_mem hroot)
  -- The extraction and the expansion are two equations between lists of files and of lines.
  refine ⟨roots.map (outlined platform.target), (firsts [] roots).map (component platform.target),
    isOutline hdraws hlined hagree, ?_, ?_⟩
  · have hfiles : (firsts [] roots).map
          (fun root => componentFile platform.target root.name root.piece)
        = ((firsts [] roots).map (component platform.target)).map
          (NamedCode.file platform.target) := by
      rw [List.map_map]
      rfl
    have hnames : (((firsts [] roots).map (component platform.target)).map
          (NamedCode.file platform.target)).map (·.name)
        = ((firsts [] roots).map (component platform.target)).map NamedCode.name := by
      rw [List.map_map]
      rfl
    rw [extracted, hnonempty, extract_eq hdraws, hfiles]
    simp only [Bool.false_eq_true, if_false, Outcome.map_ok, hnames, mainFile_entries hlined]
  · have hentries : (roots.map (outlined platform.target)).map (Entry.expand platform.target
          ((firsts [] roots).map (component platform.target)))
        = (roots.map Root.piece).map
          (Block.layOut platform.target.unit platform.target.bodyDepth) := by
      rw [List.map_map, List.map_map]
      refine List.map_congr_left ?_
      intro root hroot
      exact expand_outlined hdraws hlined hagree hroot
    have hfull : ∀ piece ∈ roots.map Root.piece, piece ≠ [] := by
      intro piece hpiece
      obtain ⟨root, hroot, rfl⟩ := List.mem_map.mp hpiece
      exact (hlined root hroot).1
    rw [mainFile, Block.layOut_flatten hfull, hentries]

/-- A layer of a type with a name and a text. -/
def plainLayer (type name : String) (text : Option Text) : Layer :=
  { id := [], type := type.toList, name := name.toList, x := .zero false, y := .zero false,
    width := .zero false, height := .zero false, backgroundColor := some "#ff0000ff".toList,
    borderColor := none, borderWidth := none, borderRadius := none, text := text, textColor := none,
    fontSize := none, fontWeight := none, layout := none, spacing := none, padding := none }

/-- A frame around a text of two lines. -/
def card (id : String) : Node :=
  .mk { plainLayer "FRAME" "Card!!" none with id := id.toList }
    [.mk (plainLayer "TEXT" "Label" (some "Card\nbody".toList)) []]

/-- Two frames with the same name and a rectangle. -/
def cards : List Node := [card "1:1", card "1:2", .mk (plainLayer "RECTANGLE" "Divider" none) []]

/-- The frames share a component. -/
theorem cards_extracted : ∃ file, inlined .react cards = .ok file
    ∧ ∃ body components, IsOutline .react cards body components
      ∧ extracted .react cards
        = .ok (Platform.react.target.document
            (unlines (body.map (Entry.text Platform.react.target)))
            (components.map NamedCode.name), components.map (NamedCode.file Platform.react.target))
      ∧ file = Platform.react.target.document
          (unlines (body.map (Entry.expand Platform.react.target components))) [] := by
  -- The cards have different identifiers, which are not rendered.
  have hcard : ∀ node ∈ cards, node.children ≠ [] →
      node.renderAt .react 2 = (card "1:1").renderAt .react 2 := by
    intro node hnode hchildren
    simp only [cards, List.mem_cons, List.not_mem_nil, or_false] at hnode
    rcases hnode with rfl | rfl | rfl
    · rfl
    · exact Outcome.eq_of_toOption_eq (by decide +kernel) (by decide +kernel)
    · exact absurd rfl hchildren
  have hagree : Agree .react cards :=
    fun a ha b hb hachildren hbchildren _ =>
      (hcard a ha hachildren).trans (hcard b hb hbchildren).symm
  have hok : (inlined .react cards).isOk = true := by decide +kernel
  cases h : inlined .react cards with
  | error fault =>
    rw [h] at hok
    cases hok
  | ok file => exact ⟨file, rfl, extracted_eq_inlined (by decide) (by decide +kernel) hagree h⟩

end Forest

end DesignCompiler
