import DesignCompiler.Generate
import DesignCompiler.Proofs.Render.Enclosure

/-!
# `DesignCompiler.Proofs.Generate.Together`: the platforms fail together

Drawing fails for one reason only: a text has a font weight that is a double without a whole number
beside it. `Node.flaws` are the weights in question, in the order of the walk, and each platform
reports the first of them (`Node.reports_render`). The platform does not occur in the flaws, so the
three of them succeed together or fail with the same fault (`Generated.forAll_together`).

An extraction does not draw every root: of those with children that share a name only the first one
is drawn (`Forest.mem_drawn_iff`). What is not drawn cannot fail.
-/

set_option autoImplicit false

namespace DesignCompiler

open Outcome (Reports)

/-! ### Font weights -/

namespace FontWeight

/-- A double that is not a number or infinite: no whole number is nearest to it. Every other weight
has a token or none, and that is no fault. -/
def IsNotFinite (weight : FontWeight) : Prop :=
  weight = .exact .nan ∨ ∃ negative, weight = .exact (.infinite negative)

/-- The flaws of a weight: that no whole number is nearest to it. -/
def flaws : FontWeight → List Fault
  | .exact .nan => [.nanToWhole]
  | .exact (.infinite _) => [.infiniteToWhole]
  | .exact (.finite ..) | .whole _ | .named _ => []

/-- A weight has a flaw if it is one of these doubles. -/
theorem flaws_ne_nil_iff {weight : FontWeight} : weight.flaws ≠ [] ↔ weight.IsNotFinite := by
  cases weight with
  | exact x => cases x <;> simp [flaws, IsNotFinite]
  | whole n => simp [flaws, IsNotFinite]
  | named name => simp [flaws, IsNotFinite]

/-- A weight without flaws has a word on every platform. The table is looked up after the token is
known, so the platform makes no difference. -/
theorem reports_word (platform : Platform) (weight : FontWeight) :
    Reports weight.flaws (fun _ => True) (weight.word platform) := by
  have htoken : Reports weight.flaws (fun _ => True) weight.token? := by
    cases weight with
    | exact x =>
      cases x with
      | nan => exact .error Fault.nanToWhole [] _
      | infinite negative => exact .error Fault.infiniteToWhole [] _
      | finite negative units h => exact .ok trivial
    | whole n => exact .ok trivial
    | named name => exact .ok trivial
  exact htoken.map fun _ _ => trivial

end FontWeight

/-- The flaws of a layer's font weight, none if it has none. -/
def Layer.weightFlaws (l : Layer) : List Fault := l.fontWeight.toList.flatMap FontWeight.flaws

/-- A layer has such a flaw if it has a weight, and that is no finite double. -/
theorem Layer.weightFlaws_ne_nil_iff {l : Layer} :
    l.weightFlaws ≠ [] ↔ ∃ weight, l.fontWeight = some weight ∧ weight.IsNotFinite := by
  simp only [weightFlaws, ← FontWeight.flaws_ne_nil_iff]
  cases l.fontWeight <;> simp

/-! ### Attributes -/

namespace Attribute

/-- The flaws of an attribute, which only a font weight has. -/
def flaws : Attribute FontWeight → List Fault
  | .fontWeight weight => weight.flaws
  | .size .. | .background _ | .border .. | .cornerRadius _ | .padding _ | .spacing _ | .offset ..
  | .textColor _ | .fontSize _ => []

/-- Spelling an attribute reports its flaws. All attributes but the weight are spelled as they are.
-/
theorem reports_spellOne (platform : Platform) (a : Attribute FontWeight) :
    Reports a.flaws (fun _ => True) (spellOne platform a) := by
  cases a with
  | fontWeight weight => exact (weight.reports_word platform).map fun _ _ => trivial
  | size | background | border | cornerRadius | padding | spacing | offset | textColor
  | fontSize => exact .ok trivial

/-- Spelling attributes reports the flaws of all of them, the first one first. -/
theorem reports_spell (platform : Platform) (attributes : List (Attribute FontWeight)) :
    Reports (attributes.flatMap flaws) (fun _ => True) (spell platform attributes) := by
  induction attributes with
  | nil => exact .ok trivial
  | cons first rest ih =>
    rw [spell, List.flatMap_cons]
    exact (reports_spellOne platform first).bind fun _ _ _ => ih.bind_clean fun _ _ _ => .ok trivial

/-- An attribute that may be there, of a kind that has no flaws, has none. -/
theorem flatMap_flaws_map {α : Type} {make : α → Attribute FontWeight}
    (hmake : ∀ a, (make a).flaws = []) (a? : Option α) :
    (a?.map make).toList.flatMap flaws = [] := by
  cases a? with
  | none => rfl
  | some a => simp [hmake]

/-- A border has no flaws, and neither has the radius of corners. -/
theorem flatMap_flaws_edge (l : Layer) : (edge l).flatMap flaws = [] := by
  rw [edge]
  split
  · next found hfound =>
    rw [borderOf] at hfound
    split at hfound
    · cases hfound
      rfl
    · cases hfound
  · exact flatMap_flaws_map (fun _ => rfl) _

/-- Of what is collected for a layer only the font weight can have a flaw, and only a text has a
font weight. The parts of the collection are looked at one by one, in their order. -/
theorem flatMap_flaws_collect (l : Layer) (role : Role) (axis : Option Axis) :
    (collect l role axis).flatMap flaws = if role = .text then l.weightFlaws else [] := by
  -- All attributes but those of a text are without flaws, whether they are there or not.
  have hsize : (if l.width.isPositive && l.height.isPositive then
      [(.size l.width l.height : Attribute FontWeight)] else []).flatMap flaws = [] := by
    split <;> rfl
  have hspacing : (if axis = some .none then [] else
      ((nonzero? l.spacing).map (.spacing : _ → Attribute FontWeight)).toList).flatMap flaws
        = [] := by
    split
    · rfl
    · exact flatMap_flaws_map (fun _ => rfl) _
  have hoffset : (if l.x.isZero && l.y.isZero then [] else
      [(.offset l.x l.y : Attribute FontWeight)]).flatMap flaws = [] := by
    split <;> rfl
  have htext : (if role = .text then ofText l else []).flatMap flaws
      = if role = .text then l.weightFlaws else [] := by
    split
    · rw [ofText, List.flatMap_append, List.flatMap_append, flatMap_flaws_map fun _ => rfl,
        flatMap_flaws_map fun _ => rfl, Layer.weightFlaws]
      cases l.fontWeight <;> rfl
    · rfl
  have hbackground : ((filled? l.backgroundColor).map
      (.background : _ → Attribute FontWeight)).toList.flatMap flaws = [] :=
    flatMap_flaws_map (fun _ => rfl) _
  have hpadding :
      (l.padding.map (.padding : _ → Attribute FontWeight)).toList.flatMap flaws = [] :=
    flatMap_flaws_map (fun _ => rfl) _
  simp only [collect, List.flatMap_append, hsize, hbackground, flatMap_flaws_edge, hpadding,
    hspacing, hoffset, htext, List.nil_append]

end Attribute

/-! ### Trees -/

mutual

/-- The flaws of a tree: those of the font weights of the texts it is drawn with, in the order of
the walk. It follows the renderer role by role, without a platform. -/
def Node.flaws : Node → List Fault
  | .mk layer children =>
    match (layer.kind (!children.isEmpty)).role with
    | .text => layer.weightFlaws
    | .shape | .image => []
    | .container | .custom => Node.flawsAll children

/-- The flaws of the trees of a list. -/
def Node.flawsAll : List Node → List Fault
  | [] => []
  | node :: rest => Node.flaws node ++ Node.flawsAll rest

end

namespace Node

/-- The flaws of a list of trees are those of each, one after the other. -/
theorem flawsAll_eq_flatMap (nodes : List Node) : flawsAll nodes = nodes.flatMap flaws := by
  induction nodes with
  | nil => rfl
  | cons node rest ih => rw [flawsAll, ih, List.flatMap_cons]

mutual

/-- Every platform reports the flaws of a tree. The induction is on the tree and on the list of its
children; what is inside a text or a leaf is not drawn and reports nothing. -/
theorem reports_render (platform : Platform) :
    ∀ node : Node, Reports node.flaws (fun _ => True) (node.render platform)
  | .mk l children => by
    have hspell := Attribute.reports_spell platform (Attribute.collect l
      (l.kind (!children.isEmpty)).role (some (l.kind (!children.isEmpty)).axis))
    rw [Attribute.flatMap_flaws_collect] at hspell
    have hinside := reports_renderAll platform children
    rw [flaws, render]
    -- A text has the flaws of its own weight, a container those of its children; none has both.
    cases hrole : (l.kind (!children.isEmpty)).role with
    | text =>
      rw [hrole, if_pos rfl] at hspell
      exact hspell.bind_clean fun _ _ _ => .ok trivial
    | shape | image =>
      rw [hrole, if_neg (by decide)] at hspell
      exact hspell.clean_bind fun _ _ => .ok trivial
    | container | custom =>
      rw [hrole, if_neg (by decide)] at hspell
      refine hspell.clean_bind fun _ _ => hinside.bind_clean fun _ _ _ => ?_
      split <;> exact .ok trivial

/-- Every platform reports the flaws of the trees of a list. -/
theorem reports_renderAll (platform : Platform) :
    ∀ nodes : List Node, Reports (flawsAll nodes) (fun _ => True) (renderAll platform nodes)
  | [] => .ok trivial
  | node :: rest => by
    rw [flawsAll, renderAll]
    exact (reports_render platform node).bind fun _ _ _ =>
      (reports_renderAll platform rest).bind_clean fun _ _ _ => .ok trivial

end

/-- A tree has flaws if it is drawn with a text whose font weight is one. It is the form of the
statement in which the flaws are not listed. -/
def HasFlaw (root : Node) : Prop :=
  ∃ levels text weight, root.Draws levels text ∧ text.kind.role = .text
    ∧ text.layer.fontWeight = some weight ∧ weight.IsNotFinite

mutual

/-- A tree with flaws is drawn with a text that has one. The induction goes down to that text, level
by level. -/
theorem hasFlaw_of_flaws_ne_nil : ∀ {node : Node}, node.flaws ≠ [] → node.HasFlaw
  | .mk l children, h => by
    rw [flaws] at h
    -- A text can have a flaw of its own, shapes and images have none, and any other node has those
    -- of its children.
    cases hrole : (l.kind (!children.isEmpty)).role with
    | text =>
      simp only [hrole] at h
      obtain ⟨weight, hweight, hinfinite⟩ := Layer.weightFlaws_ne_nil_iff.mp h
      exact ⟨0, _, weight, .self _, hrole, hweight, hinfinite⟩
    | shape | image =>
      simp only [hrole] at h
      exact absurd rfl h
    | container | custom =>
      simp only [hrole] at h
      obtain ⟨child, hchild, levels, text, weight, hdraws, htext⟩ :=
        exists_hasFlaw_of_flawsAll_ne_nil h
      refine ⟨levels + 1, text, weight, .inside ?_ hchild hdraws, htext⟩
      show (l.kind (!children.isEmpty)).role ≠ .text
      rw [hrole]
      decide

/-- In a list with flaws some tree has one. -/
theorem exists_hasFlaw_of_flawsAll_ne_nil :
    ∀ {nodes : List Node}, flawsAll nodes ≠ [] → ∃ node ∈ nodes, node.HasFlaw
  | [], h => absurd rfl h
  | node :: rest, h => by
    by_cases hnode : node.flaws = []
    · rw [flawsAll, hnode, List.nil_append] at h
      obtain ⟨other, hother, hflaw⟩ := exists_hasFlaw_of_flawsAll_ne_nil h
      exact ⟨other, List.mem_cons_of_mem node hother, hflaw⟩
    · exact ⟨node, List.mem_cons_self, hasFlaw_of_flaws_ne_nil hnode⟩

end

/-- The flaws of what a node is drawn with are flaws of the node. The induction is on the way down
from the outer node. -/
theorem Draws.flaws_subset {outer node : Node} {levels : Nat} (h : outer.Draws levels node) :
    node.flaws ⊆ outer.flaws := by
  induction h with
  | self => exact List.Subset.refl _
  | @inside outer child node levels hrole hchild _ ih =>
    obtain ⟨l, children⟩ := outer
    have hne : (!children.isEmpty) ≠ false := by
      simpa using List.ne_nil_of_mem hchild
    have hroom : (l.kind (!children.isEmpty)).role.hasRoom = true :=
      (hasRoom_of_ne_text hrole).resolve_right hne
    -- A node with children that is no text has room for them, so their flaws are its own.
    have hall : (Node.mk l children).flaws = flawsAll children := by
      rw [flaws]
      cases hkind : (l.kind (!children.isEmpty)).role with
      | text | shape | image =>
        rw [hkind] at hroom
        cases hroom
      | container | custom => rfl
    rw [hall, flawsAll_eq_flatMap]
    exact fun fault hfault => List.mem_flatMap.mpr ⟨child, hchild, ih hfault⟩

/-- A tree has flaws in its list exactly if it is drawn with such a text. One direction goes down
the tree, the other up from the text. -/
theorem flaws_ne_nil_iff {node : Node} : node.flaws ≠ [] ↔ node.HasFlaw := by
  refine ⟨hasFlaw_of_flaws_ne_nil, ?_⟩
  rintro ⟨levels, ⟨l, children⟩, weight, hdraws, hrole, hweight, hinfinite⟩ hnone
  have hsubset := hdraws.flaws_subset
  have hrole : (l.kind (!children.isEmpty)).role = .text := hrole
  rw [hnone, flaws, hrole, List.subset_nil] at hsubset
  exact Layer.weightFlaws_ne_nil_iff.mpr ⟨weight, hweight, hinfinite⟩ hsubset

end Node

/-! ### Forests -/

namespace Forest

/-- The trees that an extraction draws; `seen` holds the names that have a file already. It is
`Forest.extract` without the drawing. -/
def drawn (seen : List Text) : List Node → List Node
  | [] => []
  | node :: rest =>
    if node.children.isEmpty then node :: drawn seen rest
    else
      let name := ComponentName.ofName node.layer.name
      if name ∈ seen then drawn seen rest else node :: drawn (name :: seen) rest

/-- An extraction reports the flaws of the trees it draws. A root that is only called is in neither.
-/
theorem reports_extract (platform : Platform) (seen : List Text) (nodes : List Node) :
    Reports (Node.flawsAll (drawn seen nodes)) (fun _ => True) (extract platform seen nodes) := by
  induction nodes generalizing seen with
  | nil => exact .ok trivial
  | cons node rest ih =>
    have hnode := node.reports_render platform
    rw [drawn, extract]
    by_cases hleaf : node.children.isEmpty
    · rw [if_pos hleaf, if_pos hleaf, Node.flawsAll]
      exact hnode.bind fun _ _ _ => (ih seen).bind_clean fun _ _ _ => .ok trivial
    · simp only [if_neg hleaf]
      -- A component that was seen before is not rendered again, and a new one is, with its flaws.
      by_cases hseen : ComponentName.ofName node.layer.name ∈ seen
      · simp only [if_pos hseen]
        exact (ih seen).bind_clean fun _ _ _ => .ok trivial
      · simp only [if_neg hseen, Node.flawsAll]
        exact hnode.bind fun _ _ _ => (ih _).bind_clean fun _ _ _ => .ok trivial

/-- A root that would get a file gets it under a name that neither the given names nor the roots
before it have taken. -/
def IsFresh (seen : List Text) (front : List Node) (root : Node) : Prop :=
  root.children ≠ [] → ComponentName.ofName root.layer.name ∉ seen
    ∧ ∀ earlier ∈ front, earlier.children ≠ [] →
      ComponentName.ofName earlier.layer.name ≠ ComponentName.ofName root.layer.name

section

variable {seen : List Text} {node root : Node} {front rest : List Node}

/-- With one more root before it, a root is fresh if it was and has another name than that one,
where both would get a file. -/
theorem isFresh_cons_iff : IsFresh seen (node :: front) root ↔ IsFresh seen front root
    ∧ (root.children ≠ [] → node.children ≠ [] →
      ComponentName.ofName node.layer.name ≠ ComponentName.ofName root.layer.name) := by
  simp only [IsFresh, List.forall_mem_cons]
  tauto

/-- With one more name taken, a root is fresh if it was and does not have the name. -/
theorem isFresh_cons_seen_iff {name : Text} : IsFresh (name :: seen) front root ↔
    IsFresh seen front root
      ∧ (root.children ≠ [] → name ≠ ComponentName.ofName root.layer.name) := by
  simp only [IsFresh, List.mem_cons, not_or, ne_comm (a := name)]
  tauto

/-- An element of a list is its head or stands in its tail. -/
theorem exists_split_cons_iff {P : List Node → Prop} :
    (∃ front back, node :: rest = front ++ root :: back ∧ P front)
      ↔ (root = node ∧ P []) ∨ ∃ front back, rest = front ++ root :: back ∧ P (node :: front) := by
  constructor
  · rintro ⟨front, back, hsplit, hP⟩
    cases front with
    | nil =>
      cases hsplit
      exact .inl ⟨rfl, hP⟩
    | cons first front =>
      cases hsplit
      exact .inr ⟨front, back, rfl, hP⟩
  · rintro (⟨rfl, hP⟩ | ⟨front, back, rfl, hP⟩)
    · exact ⟨[], rest, rfl, hP⟩
    · exact ⟨node :: front, back, rfl, hP⟩

/-- An extraction draws the roots that come first under their name. The position in the list is part
of the statement, since equal roots may stand at two of them. -/
theorem mem_drawn_iff {nodes : List Node} : root ∈ drawn seen nodes
    ↔ ∃ front back, nodes = front ++ root :: back ∧ IsFresh seen front root := by
  induction nodes generalizing seen with
  | nil => simp [drawn]
  | cons node rest ih =>
    -- Behind the first node the question is the same, for the names that are taken then.
    have hstep : ∀ {taken : List Text}, (∀ front, IsFresh taken front root ↔
        IsFresh seen front root ∧ (root.children ≠ [] → node.children ≠ [] →
          ComponentName.ofName node.layer.name ≠ ComponentName.ofName root.layer.name)) →
        (root ∈ drawn taken rest
          ↔ ∃ front back, rest = front ++ root :: back ∧ IsFresh seen (node :: front) root) := by
      intro taken htaken
      simp only [ih, isFresh_cons_iff, htaken]
    rw [exists_split_cons_iff, drawn]
    by_cases hleaf : node.children.isEmpty
    · have hnone : node.children = [] := List.isEmpty_iff.mp hleaf
      rw [if_pos hleaf, List.mem_cons, hstep fun front => by simp [hnone]]
      refine or_congr_left (and_iff_left_of_imp ?_).symm
      rintro rfl hchildren
      exact absurd hnone hchildren
    · have hsome : node.children ≠ [] := by simpa using hleaf
      simp only [if_neg hleaf]
      by_cases hseen : ComponentName.ofName node.layer.name ∈ seen
      · -- The node takes no new name, and a root that is fresh does not have the one it takes.
        rw [if_pos hseen, hstep fun front => ⟨fun hfresh => ⟨hfresh, ?_⟩, And.left⟩]
        · refine (or_iff_right ?_).symm
          rintro ⟨rfl, hfresh⟩
          exact (hfresh hsome).1 hseen
        · intro hchildren _ hname
          exact (hfresh hchildren).1 (hname ▸ hseen)
      · rw [if_neg hseen, List.mem_cons, hstep fun front => by simp [isFresh_cons_seen_iff, hsome]]
        refine or_congr_left (and_iff_left_of_imp ?_).symm
        rintro rfl _
        exact ⟨hseen, nofun⟩

end

/-- A root is drawn unless components are extracted and an earlier root with children has the name
under which this one, having children, would get a file. -/
def IsDrawn (extracting : Bool) (nodes : List Node) (root : Node) : Prop :=
  ∃ front back, nodes = front ++ root :: back ∧ (extracting = true → root.children ≠ [] →
    ∀ earlier ∈ front, earlier.children ≠ [] →
      ComponentName.ofName earlier.layer.name ≠ ComponentName.ofName root.layer.name)

/-- The trees that are drawn. -/
def drawnRoots (extracting : Bool) (nodes : List Node) : List Node :=
  if extracting then drawn [] nodes else nodes

/-- The list of the trees that are drawn holds exactly those that `IsDrawn` describes. -/
theorem mem_drawnRoots_iff {extracting : Bool} {nodes : List Node} {root : Node} :
    root ∈ drawnRoots extracting nodes ↔ IsDrawn extracting nodes root := by
  rw [drawnRoots]
  cases extracting with
  | true =>
    rw [if_pos rfl, mem_drawn_iff]
    simp [IsDrawn, IsFresh]
  | false =>
    rw [if_neg nofun, List.mem_iff_append]
    simp [IsDrawn]

end Forest

/-! ### All platforms -/

namespace Generated

/-- Every platform reports the flaws of the trees that are drawn. The platform is on one side only,
which is what makes the platforms fail together. -/
theorem reports_ofNodes (platform : Platform) (extracting : Bool) (nodes : List Node) :
    Reports (Node.flawsAll (Forest.drawnRoots extracting nodes)) (fun _ => True)
      (ofNodes platform extracting nodes) := by
  cases nodes with
  | nil => cases extracting <;> exact .ok trivial
  | cons node rest =>
    -- Which roots are rendered depends on whether components are extracted.
    cases extracting with
    | true =>
      have hextracted : Reports (Node.flawsAll (Forest.drawn [] (node :: rest))) (fun _ => True)
          (Forest.extracted platform (node :: rest)) :=
        (Forest.reports_extract platform [] (node :: rest)).map fun _ _ => trivial
      exact hextracted.map fun _ _ => trivial
    | false =>
      have hinlined : Reports (Node.flawsAll (node :: rest)) (fun _ => True)
          (Forest.inlined platform (node :: rest)) :=
        (Node.reports_renderAll platform (node :: rest)).map fun _ _ => trivial
      exact hinlined.map fun _ _ => trivial

/-- The trees that are drawn have flaws if one of them is drawn with a text whose font weight is
one. -/
theorem flawsAll_drawnRoots_ne_nil_iff {extracting : Bool} {nodes : List Node} :
    Node.flawsAll (Forest.drawnRoots extracting nodes) ≠ []
      ↔ ∃ root, Forest.IsDrawn extracting nodes root ∧ root.HasFlaw := by
  rw [Node.flawsAll_eq_flatMap, Ne, List.flatMap_eq_nil_iff]
  simp only [not_forall, exists_prop, Forest.mem_drawnRoots_iff]
  exact exists_congr fun root => and_congr_right fun _ => Node.flaws_ne_nil_iff

/-- All platforms have code for a forest, or all have the same fault: the first flaw, if there is
one. -/
theorem ofNodes_together (extracting : Bool) (nodes : List Node) :
    (∀ platform, ∃ code, ofNodes platform extracting nodes = .ok code)
      ∨ ∃ fault, ∀ platform, ofNodes platform extracting nodes = .error fault := by
  have hreports := fun platform => reports_ofNodes platform extracting nodes
  cases hflaws : Node.flawsAll (Forest.drawnRoots extracting nodes) with
  | nil =>
    left
    intro platform
    have hclean := hreports platform
    rw [hflaws] at hclean
    obtain ⟨code, hcode, -⟩ := hclean
    exact ⟨code, hcode⟩
  | cons first rest =>
    right
    refine ⟨first, fun platform => (hreports platform).eq_error_iff.mpr ?_⟩
    rw [hflaws, List.head?_cons]

/-- A platform has no code for a forest if a root that is drawn has a flaw, and only then. -/
theorem exists_ofNodes_eq_error_iff {platform : Platform} {extracting : Bool} {nodes : List Node} :
    (∃ fault, ofNodes platform extracting nodes = .error fault)
      ↔ ∃ root, Forest.IsDrawn extracting nodes root ∧ root.HasFlaw := by
  simp only [(reports_ofNodes platform extracting nodes).eq_error_iff,
    ← flawsAll_drawnRoots_ne_nil_iff]
  cases Node.flawsAll (Forest.drawnRoots extracting nodes) with
  | nil => simp
  | cons first rest => simp

/-- The code of a forest is generated for each platform once, and as it would be for that platform
alone. All platforms succeed, or all fail with the same fault; they fail if a root that is drawn is
drawn with a text whose font weight is not a number or infinite. -/
theorem forAll_together (extracting : Bool) (nodes : List Node) :
    (forAll extracting nodes).map Prod.fst = Platform.all
      ∧ (∀ platform, ∃! result, (platform, result) ∈ forAll extracting nodes)
      ∧ (∀ entry ∈ forAll extracting nodes, entry.2 = ofNodes entry.1 extracting nodes)
      ∧ ((∀ entry ∈ forAll extracting nodes, ∃ code, entry.2 = .ok code)
        ∨ ∃ fault, ∀ entry ∈ forAll extracting nodes, entry.2 = .error fault)
      ∧ ∀ entry ∈ forAll extracting nodes, (∃ fault, entry.2 = .error fault)
        ↔ ∃ root levels text weight, Forest.IsDrawn extracting nodes root
          ∧ root.Draws levels text ∧ text.kind.role = .text
          ∧ text.layer.fontWeight = some weight ∧ weight.IsNotFinite := by
  have hmem : ∀ {entry : Platform × Except Fault Generated},
      entry ∈ forAll extracting nodes ↔ entry.2 = ofNodes entry.1 extracting nodes := by
    rintro ⟨platform, result⟩
    simp [forAll, platform.mem_all, eq_comm]
  constructor
  · rw [forAll, List.map_map]
    exact List.map_id Platform.all
  -- What is known of one platform is now said of its entry.
  refine ⟨?unique, fun entry => hmem.mp, ?together, ?fails⟩
  case unique =>
    intro platform
    refine ⟨ofNodes platform extracting nodes, hmem.mpr rfl, ?_⟩
    intro result hresult
    exact hmem.mp hresult
  case together =>
    refine (ofNodes_together extracting nodes).imp ?_ ?_
    · intro hall entry hentry
      rw [hmem.mp hentry]
      exact hall entry.1
    · rintro ⟨fault, hall⟩
      refine ⟨fault, fun entry hentry => ?_⟩
      rw [hmem.mp hentry]
      exact hall entry.1
  case fails =>
    intro entry hentry
    rw [hmem.mp hentry, exists_ofNodes_eq_error_iff]
    constructor
    · rintro ⟨root, hroot, levels, text, weight, hdraws, htext⟩
      exact ⟨root, levels, text, weight, hroot, hdraws, htext⟩
    · rintro ⟨root, levels, text, weight, hroot, hdraws, htext⟩
      exact ⟨root, hroot, levels, text, weight, hdraws, htext⟩

end Generated

end DesignCompiler
