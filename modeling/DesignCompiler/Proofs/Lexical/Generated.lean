import DesignCompiler.Generate
import DesignCompiler.Proofs.Extraction.Colors
import DesignCompiler.Proofs.Generate.Drawn
import DesignCompiler.Proofs.Lexical.Compose
import DesignCompiler.Proofs.Lexical.React
import DesignCompiler.Proofs.Lexical.SwiftUI

/-!
# `DesignCompiler.Proofs.Lexical.Generated`: generated files are well formed

Whatever the names and texts of the layers are, the literals, comments and brackets of a generated
file are well formed, on every platform (`Generated.files_wellFormed`). Colours are the one thing
that is taken over as it is, so they must be colour texts, as they are in every extraction.

Every file is made of drawn trees and calls of components (`Generated.drawn_of_ofNodes`). A drawn
tree is closed because each target keeps pieces closed (`keeps_closedBlock`), and a call because the
name in it is an identifier (`ComponentName.isAlphanumeric_of_mem_ofName`). A file is closed around
closed pieces.
-/

set_option autoImplicit false

namespace DesignCompiler

open Outcome Text Lexical

/-- The upper case of a letter or digit is one. -/
theorem Text.isAlphanumeric_upperAscii {c : Char} (h : isAlphanumeric c = true) :
    isAlphanumeric (upperAscii c) = true := by
  rw [upperAscii]
  split
  · next hsmall =>
    have hall : ∀ n < 0x7B, 0x61 ≤ n → isAlphanumeric (Char.ofNat (n - 0x20)) = true := by
      decide +kernel
    exact hall c.toNat (Nat.lt_succ_of_le hsmall.2) hsmall.1
  · exact h

/-- The name of a component is made of ASCII letters and digits. So it may stand bare in code, where
names of layers may not. -/
theorem ComponentName.isAlphanumeric_of_mem_ofName {name : Text} {c : Char} (h : c ∈ ofName name) :
    isAlphanumeric c = true := by
  have hkept : ∀ d ∈ (name.filter isAlphanumeric).dropWhile isDigit, isAlphanumeric d = true :=
    fun d hd => (List.mem_filter.mp ((List.dropWhile_sublist _).mem hd)).2
  rw [ofName] at h
  split at h
  · have hall : fallback.all isAlphanumeric = true := by decide
    exact List.all_eq_true.mp hall c h
  · next first rest hname =>
    rw [hname] at hkept
    rcases List.mem_cons.mp h with rfl | h
    · exact isAlphanumeric_upperAscii (hkept first List.mem_cons_self)
    · exact hkept c (List.mem_cons_of_mem first h)

namespace Lexical

variable {platform : Platform}

/-- The characters of words and numbers are ordinary. -/
theorem isOrdinary_of_word (c : Char) (h : isAlphanumeric c || c = '.') : isOrdinary c = true := by
  refine isOrdinary_of_isMark ?_
  rw [Dimension.isMark, h, Bool.true_or]

/-- The characters of a colour text are ordinary. -/
theorem isOrdinary_of_isColorText {color : Text} (h : Color.IsColorText color) :
    ∀ c ∈ color, isOrdinary c = true := by
  intro c hc
  rcases h c hc with rfl | hc
  · decide
  · exact isOrdinary_of_isAlphanumeric hc

/-! ### Pieces and files of a platform -/

/-- Every target keeps pieces closed. -/
theorem keeps_closedBlock (platform : Platform) :
    platform.target.Keeps (fun c => isOrdinary c = true) (ClosedBlock platform) := by
  cases platform with
  | swiftUI => exact SwiftUI.keeps_closedBlock
  | compose => exact Compose.keeps_closedBlock
  | react => exact React.keeps_closedBlock

/-- The main file is closed around a closed body, on every platform. Only React writes the names of
the components into it. -/
theorem closed_document {body : Text} (hbody : Closed platform (body ++ ['\n'])) {names : List Text}
    (hnames : ∀ name ∈ names, ∀ c ∈ name, isOrdinary c = true) :
    Closed platform (platform.target.document body names ++ ['\n']) := by
  cases platform with
  | swiftUI => exact SwiftUI.closed_document hbody names
  | compose => exact Compose.closed_document hbody names
  | react => exact React.closed_document hbody hnames

/-- The file of a component is closed around a closed body, on every platform. -/
theorem closed_component {name body : Text} (hname : ∀ c ∈ name, isOrdinary c = true)
    (hbody : Closed platform (body ++ ['\n'])) :
    Closed platform (platform.target.component name body ++ ['\n']) := by
  cases platform with
  | swiftUI => exact SwiftUI.closed_component (.ordinary hname) hbody
  | compose => exact Compose.closed_component (.ordinary hname) hbody
  | react => exact React.closed_component (.ordinary hname) hbody

/-- The call of a component is closed. -/
theorem closedBlock_reference {name : Text} (hname : ∀ c ∈ name, isOrdinary c = true) :
    ClosedBlock platform (platform.target.reference name) := by
  have hname : Closed platform name := .ordinary hname
  cases platform with
  | swiftUI => exact Reads.outer (hname.append (by decide : Closed .swiftUI "()".toList))
  | compose => exact Reads.outer (hname.append (by decide : Closed .compose "()".toList))
  | react =>
    have hleft : Closed .react "<".toList := by decide
    exact Reads.outer ((hleft.append hname).append (by decide : Closed .react " />".toList))

/-- A closed piece is closed at every depth, since the indentation of every target is of ordinary
characters. -/
theorem closed_layOut {block : Block} (h : ClosedBlock platform block) (depth : Int) :
    Closed platform (Block.layOut platform.target.unit depth block ++ ['\n']) := by
  have hunit : platform.target.unit.all isOrdinary = true := by cases platform <;> decide
  rw [Closed, Reads, scan_layOut (List.all_eq_true.mp hunit)]
  show Closed platform block.source
  exact h

/-- Closed pieces one after the other are closed. -/
theorem closedBlock_flatten {pieces : List Block}
    (h : ∀ piece ∈ pieces, ClosedBlock platform piece) :
    ClosedBlock platform pieces.flatten := by
  induction pieces with
  | nil => exact .nil
  | cons piece rest ih =>
    rw [List.flatten_cons]
    exact closedBlock_append (h piece List.mem_cons_self)
      (ih fun other hother => h other (List.mem_cons_of_mem piece hother))

end Lexical

namespace Forest

variable {platform : Platform} {nodes : List Node}

/-- The name of a component is ordinary, whatever the name of its layer is. -/
theorem ordinary_ofName (name : Text) : ∀ c ∈ ComponentName.ofName name, isOrdinary c = true :=
  fun _ hc => isOrdinary_of_isAlphanumeric (ComponentName.isAlphanumeric_of_mem_ofName hc)

/-- A tree is drawn as a closed piece if its colours are ordinary. This is where the rule of each
target is used for a whole tree (`Target.Keeps.render`). -/
theorem closedBlock_of_render (hcolors : ∀ color ∈ Node.colorsAll nodes, ∀ c ∈ color,
    isOrdinary c = true) {node : Node} (hnode : node ∈ nodes) {piece : Block}
    (h : node.render platform = .ok piece) : ClosedBlock platform piece :=
  (keeps_closedBlock platform).render isOrdinary_of_word
    (fun color hcolor => hcolors color (Node.mem_colorsAll.mpr ⟨node, hnode, hcolor⟩)) h

/-- The pieces of a main file are closed: a call has only a name in it. -/
theorem IsPieceOf.closedBlock (hcolors : ∀ color ∈ Node.colorsAll nodes, ∀ c ∈ color,
    isOrdinary c = true) {piece : Block} (h : IsPieceOf platform nodes piece) :
    ClosedBlock platform piece := by
  rcases h with ⟨node, hnode, hpiece⟩ | ⟨name, rfl⟩
  · exact closedBlock_of_render hcolors hnode hpiece
  · exact closedBlock_reference (ordinary_ofName name)

/-- The file of a component is closed. -/
theorem IsFileOf.closed (hcolors : ∀ color ∈ Node.colorsAll nodes, ∀ c ∈ color,
    isOrdinary c = true) {component : Component} (h : IsFileOf platform nodes component) :
    Closed platform (component.code ++ ['\n']) := by
  obtain ⟨node, hnode, piece, hpiece, rfl⟩ := h
  exact closed_component (ordinary_ofName node.layer.name)
    (closed_layOut (closedBlock_of_render hcolors hnode hpiece) _)

end Forest

namespace Generated

/-- The main file and the files of the components are well formed, whatever the names and texts of
the layers are. An empty design has a file of its own, which is read as it is. -/
theorem wellFormed_of_ofNodes {platform : Platform} {extract : Bool} {nodes : List Node}
    {g : Generated} (hcolors : ∀ color ∈ Node.colorsAll nodes, ∀ c ∈ color, isOrdinary c = true)
    (h : ofNodes platform extract nodes = .ok g) :
    WellFormed platform.quotes g.code
      ∧ ∀ components, g.components = some components →
        ∀ c ∈ components, WellFormed platform.quotes c.code := by
  obtain ⟨-, hmain, hfiles⟩ := drawn_of_ofNodes h
  constructor
  · refine wellFormed_of_reads ?_
    rcases hmain with ⟨-, hempty⟩ | ⟨pieces, hpieces, hcode⟩
    · rw [hempty]
      cases platform <;> decide
    · rw [hcode]
      refine closed_document (closed_layOut (closedBlock_flatten fun piece hpiece =>
        (hpieces piece hpiece).closedBlock hcolors) _) ?_
      -- The main file names the components, which are called like trees.
      intro name hname
      obtain ⟨component, hcomponent, rfl⟩ := List.mem_map.mp hname
      obtain ⟨node, -, piece, -, rfl⟩ := hfiles component hcomponent
      exact Forest.ordinary_ofName node.layer.name
  · intro components hcomponents c hc
    rw [hcomponents] at hfiles
    exact wellFormed_of_reads ((hfiles c hc).closed hcolors)

/-- Generated files are well formed if the colours are colour texts, and those of an extraction
are. -/
theorem files_wellFormed :
    (∀ file page limit t, Extraction.ofFile file page limit = .ok t →
      ∀ color ∈ Node.colorsAll t.roots, Color.IsColorText color)
    ∧ ∀ platform extract nodes g, (∀ color ∈ Node.colorsAll nodes, Color.IsColorText color) →
      ofNodes platform extract nodes = .ok g →
        WellFormed platform.quotes g.code
          ∧ ∀ components, g.components = some components →
            ∀ c ∈ components, WellFormed platform.quotes c.code := by
  constructor
  · intro file page limit t h
    exact Extraction.isColorText_of_ofFile h
  · intro platform extract nodes g hcolors h
    exact wellFormed_of_ofNodes
      (fun color hcolor => isOrdinary_of_isColorText (hcolors color hcolor)) h

/-- A file with a component whose name holds quotes, brackets and a line feed, around a text that
does so too and is red. -/
def quotedFile : Json :=
  let red : Json := .object [("type".toList, .text "SOLID".toList),
    ("color".toList, .object [("r".toList, .int 1)])]
  let label : Json := .object [("type".toList, .text "TEXT".toList),
    ("name".toList, .text "it's (".toList), ("characters".toList, .text "\\\"]\n// \x7b'".toList),
    ("fills".toList, .list [red])]
  .object [("document".toList, .object [("type".toList, .text "COMPONENT".toList),
    ("name".toList, .text "Say \"hi\n(\" // [".toList), ("children".toList, .list [label])])]

/-- Its extraction is drawn for React with a component. -/
theorem quotedFile_wellFormed : ∃ t g, Extraction.ofFile quotedFile .null 10 = .ok t
    ∧ (∀ color ∈ Node.colorsAll t.roots, Color.IsColorText color)
    ∧ ofNodes .react true t.roots = .ok g ∧ g.components.map List.length = some 1
    ∧ WellFormed Platform.react.quotes g.code
    ∧ ∀ components, g.components = some components →
      ∀ c ∈ components, WellFormed Platform.react.quotes c.code := by
  have hcount : ((Extraction.ofFile quotedFile .null 10 >>= fun t =>
      ofNodes .react true t.roots).map fun g =>
        g.components.map List.length).toOption = some (some 1) := by decide +kernel
  obtain ⟨textsIn, filesIn⟩ := files_wellFormed
  -- Both steps go through, as there is something to count.
  cases hfile : Extraction.ofFile quotedFile .null 10 with
  | error fault =>
    rw [hfile] at hcount
    cases hcount
  | ok t =>
    rw [hfile, ok_bind] at hcount
    have hcolors := textsIn quotedFile .null 10 t hfile
    cases hcode : ofNodes .react true t.roots with
    | error fault =>
      rw [hcode] at hcount
      cases hcount
    | ok g =>
      rw [hcode] at hcount
      exact ⟨t, g, rfl, hcolors, hcode, Option.some.inj hcount,
        filesIn .react true t.roots g hcolors hcode⟩

end Generated

end DesignCompiler
