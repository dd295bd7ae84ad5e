import DesignCompiler.Proofs.Render.Attribute
import DesignCompiler.Proofs.Text.Lines
import DesignCompiler.Render.Tree

/-!
# `DesignCompiler.Proofs.Render.Tree`: what holds of the code of every tree

`Layer.draw` is one step of the walk over a tree: the code of a node, given its spelled attributes
and the pieces of its children. `render_mk_eq_ok` says that the walk is these steps, and from it
`Target.Keeps.render` goes by induction over the tree: a property of pieces that a target keeps in
each of its five shapes holds of the code of every tree.

A target may rely on what `Target.Keeps` grants it: the names of primitives are written with
letters, comments stand on one line, and the characters that are taken over as they are have a
property `p` if those of the colours and words for weights have it.
-/

set_option autoImplicit false

namespace DesignCompiler

/-- Letters only. Primitives, tags and the names of arguments are words, and so is the empty text.
-/
def Text.IsWord (t : Text) : Prop := ∀ c ∈ t, isLetter c

/-- Decided, for the words of the tables. -/
instance (t : Text) : Decidable t.IsWord := List.decidableBAll (fun c => Text.isLetter c = true) t

/-- The names of primitives are words. The table is finite, so this is decided row by row. -/
theorem Kind.isWord_primitive (kind : Kind) (platform : Platform) :
    ((kind.primitive? platform).getD []).IsWord := by
  have hall : ∀ k ∈ all, ∀ p ∈ Platform.all, ((k.primitive? p).getD []).IsWord := by
    decide +kernel
  have hkind : kind ∈ all := by cases kind <;> decide
  exact hall kind hkind platform platform.mem_all

/-! ### Comments -/

/-- The upper case of a line feed is a line feed. -/
theorem Text.upperChar_newline : upperChar '\n' = ['\n'] := by decide +kernel

/-- Only a line feed has a line feed as its lower case. A capital letter does not become one, and no
other character is changed. -/
theorem Text.lowerAscii_eq_newline {c : Char} (h : lowerAscii c = '\n') : c = '\n' := by
  by_cases hupper : c.toNat < 0x5B
  · have hall : ∀ n < 0x5B, lowerAscii (Char.ofNat n) = '\n' → Char.ofNat n = '\n' := by
      decide +kernel
    have hc := hall c.toNat hupper
    rw [Char.ofNat_toNat] at hc
    exact hc h
  · rwa [lowerAscii, if_neg (by omega)] at h

/-- A word in title case holds a line feed only if its upper case does. The types in the table are
upper case, so this is how a line feed is kept out of a comment. -/
theorem newline_mem_upper_of_titleFrom {inside : Bool} {t : Text}
    (h : '\n' ∈ titleFrom inside t) : '\n' ∈ Text.upper t := by
  induction t generalizing inside with
  | nil => cases h
  | cons c rest ih =>
    rw [Text.upper, List.flatMap_cons, List.mem_append]
    rw [titleFrom] at h
    rcases List.mem_append.mp h with h | h
    · left
      split at h
      · have hc : c = '\n' := Text.lowerAscii_eq_newline (List.mem_singleton.mp h).symm
        rw [hc, Text.upperChar_newline]
        exact List.mem_singleton_self '\n'
      · exact h
    · exact .inr (ih h)

/-- A layer that plays the role of a component has a type in the table of primitives: unknown types
are drawn as frames. -/
theorem Layer.ofName?_ne_none_of_custom {l : Layer} {hasChildren : Bool}
    (h : (l.kind hasChildren).role = .custom) : Kind.ofName? (Text.upper l.type) ≠ none := by
  intro hnone
  have hresolve : ∀ horizontal, Kind.resolve l.type horizontal = .fallback := by
    intro horizontal
    rw [Kind.resolve, hnone]
  simp only [Layer.kind, hresolve, ite_self] at h
  cases h

/-- The comment over a node stands on one line. The name is put on one line, and the type is one of
the table but for its case. -/
theorem customComment_unbroken {l : Layer} {hasChildren : Bool}
    (h : (l.kind hasChildren).role = .custom) : Text.Unbroken (customComment l) := by
  have htype : Text.Unbroken (titleFrom false l.type) := by
    intro hmem
    have hupper := newline_mem_upper_of_titleFrom hmem
    obtain ⟨kind, hkind⟩ := Option.ne_none_iff_exists'.mp (Layer.ofName?_ne_none_of_custom h)
    have hname : kind.name = Text.upper l.type := by
      simpa using List.find?_some hkind
    have hall : ∀ k ∈ Kind.all, '\n' ∉ k.name := by decide +kernel
    rw [← hname] at hupper
    exact hall kind (List.mem_of_find?_eq_some hkind) hupper
  simp only [customComment, Text.unbroken_append]
  exact ⟨⟨⟨by decide, htype⟩, by decide⟩, Text.onOneLine_unbroken l.name⟩

/-! ### One step of the walk -/

/-- The code of a node that has children or not, given its spelled attributes and the pieces of its
children. -/
def Layer.draw (platform : Platform) (l : Layer) (hasChildren : Bool)
    (attributes : List (Attribute Text)) (pieces : List Block) : Block :=
  let target := platform.target
  let kind := l.kind hasChildren
  let primitive := kind.primitive? platform
  match kind.role with
  | .text =>
    target.text (primitive.getD []) ((Attribute.filled? l.text).getD sampleText) attributes
  | .shape => target.shape (primitive.getD []) attributes
  | .image => target.image (primitive.getD []) l.name attributes
  | .container | .custom =>
    match primitive with
    | some name => target.container name kind.axis attributes pieces
    | none => target.custom l kind.axis attributes pieces

/-- Whether a node that plays a role is drawn with the nodes inside it. A text has no room for any;
shapes and images have children only where they are drawn as frames. -/
def Role.hasRoom : Role → Bool
  | .container | .custom => true
  | .text | .shape | .image => false

/-- A node is drawn with its attributes and, where its role has room for them, its children. -/
theorem Node.render_mk_eq_ok {platform : Platform} {l : Layer} {children : List Node}
    {block : Block} (h : Node.render platform (.mk l children) = .ok block) :
    ∃ attributes pieces,
      Attribute.spell platform (Attribute.collect l (l.kind (!children.isEmpty)).role
        (some (l.kind (!children.isEmpty)).axis)) = .ok attributes
      ∧ (if (l.kind (!children.isEmpty)).role.hasRoom then
          Node.renderAll platform children = .ok pieces
        else pieces = [])
      ∧ block = l.draw platform (!children.isEmpty) attributes pieces := by
  rw [Node.render] at h
  obtain ⟨attributes, hspell, h⟩ := Outcome.bind_eq_ok.mp h
  -- The attributes are spelled for every role; what differs is whether children are drawn.
  suffices hpieces : ∃ pieces,
      (if (l.kind (!children.isEmpty)).role.hasRoom then
          Node.renderAll platform children = .ok pieces
        else pieces = [])
      ∧ block = l.draw platform (!children.isEmpty) attributes pieces by
    obtain ⟨pieces, hpieces⟩ := hpieces
    exact ⟨attributes, pieces, hspell, hpieces⟩
  have hleaf : ∀ {code : Block}, (pure code : Except Fault Block) = .ok block → block = code :=
    fun hcode => (Except.ok.inj hcode).symm
  have hinside : ∀ {code : List Block → Block},
      (Node.renderAll platform children >>= fun pieces => pure (code pieces)) = .ok block →
        ∃ pieces, Node.renderAll platform children = .ok pieces ∧ block = code pieces := by
    intro code hcode
    obtain ⟨pieces, hpieces, hcode⟩ := Outcome.bind_eq_ok.mp hcode
    exact ⟨pieces, hpieces, hleaf hcode⟩
  simp only [Layer.draw]
  cases hrole : (l.kind (!children.isEmpty)).role with
  | text | shape | image =>
    simp only [hrole] at h
    exact ⟨[], rfl, hleaf h⟩
  | container | custom =>
    simp only [hrole] at h
    cases hprimitive : (l.kind (!children.isEmpty)).primitive? platform with
    | some name =>
      simp only [hprimitive] at h
      exact hinside h
    | none =>
      simp only [hprimitive] at h
      exact hinside h

/-! ### What a target keeps -/

/-- A target keeps a property `P` of pieces of code: each of its shapes has it if the pieces of the
children have it, and if the characters that are taken over as they are have the property `p`.

The properties in use are that lines are unbroken, that brackets and literals are closed, that no
line is a fence, and that a piece has lines at all. -/
structure Target.Keeps (target : Target) (p : Char → Prop) (P : Block → Prop) : Prop where
  container : ∀ {name : Text} {axis : Axis} {attributes : List (Attribute Text)}
    {pieces : List Block}, name.IsWord → Attribute.TextsIn p attributes →
      (∀ piece ∈ pieces, P piece) → P (target.container name axis attributes pieces)
  custom : ∀ {l : Layer} {axis : Axis} {attributes : List (Attribute Text)} {pieces : List Block},
    Text.Unbroken (customComment l) → Attribute.TextsIn p attributes →
      (∀ piece ∈ pieces, P piece) → P (target.custom l axis attributes pieces)
  text : ∀ {name content : Text} {attributes : List (Attribute Text)}, name.IsWord →
    Attribute.TextsIn p attributes → P (target.text name content attributes)
  shape : ∀ {name : Text} {attributes : List (Attribute Text)}, name.IsWord →
    Attribute.TextsIn p attributes → P (target.shape name attributes)
  image : ∀ {name title : Text} {attributes : List (Attribute Text)}, name.IsWord →
    Attribute.TextsIn p attributes → P (target.image name title attributes)

/-- Every piece inside the content of a call has a property. -/
def Compose.Content.Holds (P : Block → Prop) : Content → Prop
  | .absent => True
  | .lambda children => ∀ piece ∈ children, P piece

/-- Without a lambda there are no pieces. -/
theorem Compose.Content.Holds.absent (P : Block → Prop) : Content.absent.Holds P := trivial

/-- With a lambda the pieces are those of the children. -/
theorem Compose.Content.Holds.lambda {P : Block → Prop} {children : List Block}
    (h : ∀ piece ∈ children, P piece) : (Content.lambda children).Holds P := h

/-- A stack of SwiftUI, with what it says of its spacing. The other proofs about stacks start from
this form. -/
theorem SwiftUI.exists_stack_eq (name : Text) (axis : Axis) (role : Role)
    (attributes : List (Attribute Text)) (children : List Block) :
    ∃ spacing, (spacing = [] ∨ ∃ gap, spacing = ", spacing: ".toList ++ number gap)
      ∧ stack name axis role attributes children
        = (if children.isEmpty then
            [.outer (name ++ "(alignment: ".toList ++ alignment axis ++ spacing ++ ")".toList
              ++ " \x7b\x7d".toList)]
          else
            Line.outer (name ++ "(alignment: ".toList ++ alignment axis ++ spacing ++ ")".toList
              ++ " \x7b".toList) :: Block.innerAll children ++ [.outer "\x7d".toList])
          ++ modifierLines role attributes := by
  unfold stack
  cases Attribute.spacing? attributes with
  | none => exact ⟨[], .inl rfl, rfl⟩
  | some gap => exact ⟨_, .inr ⟨gap, rfl⟩, rfl⟩

/-- Only components have no primitive, whatever the target is. -/
theorem Kind.role_of_primitive?_none {kind : Kind} {platform : Platform}
    (h : kind.primitive? platform = none) : kind.role = .custom := by
  revert h
  cases kind <;> cases platform <;> decide

section

variable {p : Char → Prop} {P : Block → Prop} {platform : Platform}

/-- A drawn node has the property, if the pieces of its children have it. -/
theorem Target.Keeps.draw (keeps : platform.target.Keeps p P) {l : Layer} {hasChildren : Bool}
    {attributes : List (Attribute Text)} {pieces : List Block}
    (htexts : Attribute.TextsIn p attributes) (hpieces : ∀ piece ∈ pieces, P piece) :
    P (l.draw platform hasChildren attributes pieces) := by
  have hword := (l.kind hasChildren).isWord_primitive platform
  simp only [Layer.draw]
  split
  · exact keeps.text hword htexts
  · exact keeps.shape hword htexts
  · exact keeps.image hword htexts
  -- A container is drawn by its primitive, or as a component if it has none.
  all_goals
    split
    · next name hname =>
      rw [hname] at hword
      exact keeps.container hword htexts hpieces
    · next hnone =>
      have hcustom := Kind.role_of_primitive?_none hnone
      exact keeps.custom (customComment_unbroken hcustom) htexts hpieces

mutual

/-- The code of a tree has the property. The induction is over the tree: the attributes are looked
at in each layer, the pieces come from the children, and one step is `Target.Keeps.draw`. -/
theorem Target.Keeps.render (keeps : platform.target.Keeps p P)
    (hwords : ∀ c, Text.isAlphanumeric c || c = '.' → p c) :
    ∀ {node : Node} {block : Block}, (∀ t ∈ node.colors, ∀ c ∈ t, p c) →
      node.render platform = .ok block → P block
  | .mk l children, block, hcolors, h => by
    obtain ⟨attributes, pieces, hspell, hpieces, rfl⟩ := Node.render_mk_eq_ok h
    have hlayer : ∀ t ∈ l.colors, ∀ c ∈ t, p c :=
      fun t ht => hcolors t (Node.mem_colors_mk.mpr (.inl ht))
    have hinside : ∀ t ∈ Node.colorsAll children, ∀ c ∈ t, p c :=
      fun t ht => hcolors t (Node.mem_colors_mk.mpr (.inr ht))
    refine keeps.draw (Attribute.textsIn_of_spell hwords hlayer hspell) ?_
    split at hpieces
    · exact Target.Keeps.renderAll keeps hwords hinside hpieces
    · simp [hpieces]

/-- The pieces of the trees of a list have the property. -/
theorem Target.Keeps.renderAll (keeps : platform.target.Keeps p P)
    (hwords : ∀ c, Text.isAlphanumeric c || c = '.' → p c) :
    ∀ {nodes : List Node} {pieces : List Block}, (∀ t ∈ Node.colorsAll nodes, ∀ c ∈ t, p c) →
      Node.renderAll platform nodes = .ok pieces → ∀ piece ∈ pieces, P piece
  | [], pieces, _, h => by
    cases h
    simp
  | node :: rest, pieces, hcolors, h => by
    rw [Node.renderAll] at h
    obtain ⟨piece, hpiece, h⟩ := Outcome.bind_eq_ok.mp h
    obtain ⟨others, hothers, h⟩ := Outcome.bind_eq_ok.mp h
    cases h
    intro b hb
    rcases List.mem_cons.mp hb with rfl | hb
    · exact Target.Keeps.render keeps hwords
        (fun t ht => hcolors t (Node.mem_colorsAll_cons.mpr (.inl ht))) hpiece
    · exact Target.Keeps.renderAll keeps hwords
        (fun t ht => hcolors t (Node.mem_colorsAll_cons.mpr (.inr ht))) hothers b hb

end

end

end DesignCompiler
