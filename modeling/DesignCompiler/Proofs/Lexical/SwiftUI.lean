import DesignCompiler.Proofs.Lexical.Source
import DesignCompiler.Proofs.Render.Tree

/-!
# `DesignCompiler.Proofs.Lexical.SwiftUI`: SwiftUI code is closed

Every modifier is closed, and so is every view around closed pieces. A file is closed around a
closed body.
-/

set_option autoImplicit false

namespace DesignCompiler.SwiftUI

open Text Lexical

/-- The quotes of Swift. -/
abbrev quotes : Text := Platform.swiftUI.quotes

/-- A colour is closed if its characters are ordinary. It is the one text of a design that stands in
a literal as it is. -/
theorem closed_color {c : Text} (hc : ∀ d ∈ c, isOrdinary d = true) :
    Closed .swiftUI (color c) := by
  have hopen : Reads quotes (inCode []) "Color(hex: \"".toList (inLiteral '"' [')']) := by decide
  have hclose : Reads quotes (inLiteral '"' [')']) "\")".toList (inCode []) := by decide
  exact (hopen.append (.ordinaryLiteral (quotationMark_mem_quotes .swiftUI) hc [')'])).append hclose

/-- A rounded rectangle is closed. -/
theorem closed_rounded (radius : Binary64) : Closed .swiftUI (rounded radius) := by
  have hopen : Reads quotes (inCode []) "RoundedRectangle(cornerRadius: ".toList
      (inCode [')']) := by decide
  have hclose : Reads quotes (inCode [')']) ")".toList (inCode []) := by decide
  exact (hopen.closed (closed_dimension radius)).append hclose

/-- The modifiers for a border are closed. -/
theorem closed_borderModifiers {c : Text} (hc : ∀ d ∈ c, isOrdinary d = true)
    (width radius : Binary64) : ∀ m ∈ borderModifiers c width radius, Closed .swiftUI m := by
  have hclose : Reads quotes (inCode [')']) ")".toList (inCode []) := by decide
  have hshape : Closed .swiftUI
      (if radius.isZero then "Rectangle()".toList else rounded radius) := by
    split
    · decide
    · exact closed_rounded radius
  have hclip : Closed .swiftUI (".clipShape(".toList
      ++ (if radius.isZero then "Rectangle()".toList else rounded radius) ++ ")".toList) := by
    have hopen : Reads quotes (inCode []) ".clipShape(".toList (inCode [')']) := by decide
    exact (hopen.closed hshape).append hclose
  have hstroke : Closed .swiftUI ("        .stroke(".toList ++ color c ++ ", lineWidth: ".toList
      ++ number width ++ ")".toList) := by
    have hopen : Reads quotes (inCode []) "        .stroke(".toList (inCode [')']) := by decide
    have hwidth : Closed .swiftUI ", lineWidth: ".toList := by decide
    exact (((hopen.closed (closed_color hc)).closed hwidth).closed (closed_dimension width)).append
      hclose
  -- The overlay is one modifier of four lines, with a bracket open over the inner two.
  have hoverlay : Closed .swiftUI (unlines
      [".overlay(".toList,
       "    ".toList ++ (if radius.isZero then "Rectangle()".toList else rounded radius),
       "        .stroke(".toList ++ color c ++ ", lineWidth: ".toList ++ number width
        ++ ")".toList,
       ")".toList]) := by
    have hindent : Closed .swiftUI "    ".toList := by decide
    exact Reads.unlines [')'] (by decide)
      (Reads.unlines [')'] ((hindent.append hshape).reads [')'])
        (Reads.unlines [')'] (hstroke.reads [')']) hclose))
  intro m hm
  rcases List.mem_append.mp hm with hm | hm
  · split at hm
    · cases hm
    · next hradius =>
      rw [if_neg hradius] at hclip
      rw [List.mem_singleton.mp hm]
      exact hclip
  · rw [List.mem_singleton.mp hm]
    exact hoverlay

/-- The modifiers for an attribute are closed if its texts are of ordinary characters. Each is a
call with dimensions or colours between fixed pieces, which `decide` reads. -/
theorem closed_modifiers {role : Role} {a : Attribute Text}
    (ha : ∀ t ∈ a.texts, ∀ c ∈ t, isOrdinary c = true) :
    ∀ m ∈ modifiers role a, Closed .swiftUI m := by
  have hclose : Reads quotes (inCode [')']) ")".toList (inCode []) := by decide
  cases a with
  | size width height =>
    have hopen : Reads quotes (inCode []) ".frame(width: ".toList (inCode [')']) := by decide
    have hheight : Closed .swiftUI ", height: ".toList := by decide
    simp only [modifiers, List.mem_singleton, forall_eq]
    exact (((hopen.closed (closed_dimension width)).closed hheight).closed
      (closed_dimension height)).append hclose
  | background c =>
    have hopen : Reads quotes (inCode []) (if role = .shape then ".foregroundColor(".toList
        else ".background(".toList) (inCode [')']) := by
      split <;> decide
    simp only [modifiers, List.mem_singleton, forall_eq]
    exact (hopen.closed (closed_color (ha c List.mem_cons_self))).append hclose
  | border c width radius => exact closed_borderModifiers (ha c List.mem_cons_self) width radius
  | cornerRadius radius =>
    have hopen : Reads quotes (inCode []) ".clipShape(".toList (inCode [')']) := by decide
    simp only [modifiers, List.mem_singleton, forall_eq]
    exact (hopen.closed (closed_rounded radius)).append hclose
  | padding sides =>
    have hopen : Reads quotes (inCode []) ".padding(EdgeInsets(top: ".toList
        (inCode [')', ')']) := by decide
    have hleft : Closed .swiftUI ", leading: ".toList := by decide
    have hbottom : Closed .swiftUI ", bottom: ".toList := by decide
    have hright : Closed .swiftUI ", trailing: ".toList := by decide
    -- Two calls are opened at once here, and closed at once.
    have hcloses : Reads quotes (inCode [')', ')']) "))".toList (inCode []) := by decide
    have htop := hopen.closed (closed_dimension sides.top)
    have hleading := (htop.closed hleft).closed (closed_dimension sides.left)
    have hbelow := (hleading.closed hbottom).closed (closed_dimension sides.bottom)
    simp only [modifiers, List.mem_singleton, forall_eq]
    exact ((hbelow.closed hright).closed (closed_dimension sides.right)).append hcloses
  | spacing gap => simp [modifiers]
  | offset x y =>
    have hopen : Reads quotes (inCode []) ".offset(x: ".toList (inCode [')']) := by decide
    have hy : Closed .swiftUI ", y: ".toList := by decide
    simp only [modifiers, List.mem_singleton, forall_eq]
    have hx := hopen.closed (closed_dimension x)
    exact ((hx.closed hy).closed (closed_dimension y)).append hclose
  | textColor c =>
    have hopen : Reads quotes (inCode []) ".foregroundColor(".toList (inCode [')']) := by decide
    simp only [modifiers, List.mem_singleton, forall_eq]
    exact (hopen.closed (closed_color (ha c List.mem_cons_self))).append hclose
  | fontSize size =>
    have hopen : Reads quotes (inCode []) ".font(.system(size: ".toList
        (inCode [')', ')']) := by decide
    have hcloses : Reads quotes (inCode [')', ')']) "))".toList (inCode []) := by decide
    simp only [modifiers, List.mem_singleton, forall_eq]
    exact (hopen.closed (closed_dimension size)).append hcloses
  | fontWeight word =>
    have hopen : Reads quotes (inCode []) ".fontWeight(".toList (inCode [')']) := by decide
    simp only [modifiers, List.mem_singleton, forall_eq]
    exact (hopen.closed (.ordinary (ha word List.mem_cons_self))).append hclose

/-- The modifiers of a view are closed. -/
theorem closedBlock_modifierLines {role : Role} {attributes : List (Attribute Text)}
    (h : Attribute.TextsIn (fun c => isOrdinary c = true) attributes) :
    ClosedBlock .swiftUI (modifierLines role attributes) := by
  rw [ClosedBlock, modifierLines, Block.source, List.flatMap_assoc]
  refine .flatMap ?_
  intro m hm
  obtain ⟨a, ha, hm⟩ := List.mem_flatMap.mp hm
  exact closedBlock_insideText (closed_modifiers (h a ha) m hm)

/-- A stack of closed pieces is closed. -/
theorem closedBlock_stack {name : Text} (hname : Closed .swiftUI name) {axis : Axis} {role : Role}
    {attributes : List (Attribute Text)}
    (h : Attribute.TextsIn (fun c => isOrdinary c = true) attributes) {children : List Block}
    (hchildren : ∀ piece ∈ children, ClosedBlock .swiftUI piece) :
    ClosedBlock .swiftUI (stack name axis role attributes children) := by
  obtain ⟨spacing, hgap, hstack⟩ := exists_stack_eq name axis role attributes children
  have hspacing : Closed .swiftUI spacing := by
    rcases hgap with rfl | ⟨gap, rfl⟩
    · exact .nil
    · have hlabel : Closed .swiftUI ", spacing: ".toList := by decide
      exact hlabel.append (closed_dimension gap)
  have halignment : Closed .swiftUI (alignment axis) := by cases axis <;> decide
  have hopen : Reads quotes (inCode []) "(alignment: ".toList (inCode [')']) := by decide
  have hclose : Reads quotes (inCode [')']) ")".toList (inCode []) := by decide
  -- The brackets of the call are closed before the braces of the children open.
  have hhead := (((Reads.append hname hopen).closed halignment).closed hspacing).append hclose
  rw [hstack]
  refine closedBlock_append ?_ (closedBlock_modifierLines h)
  split
  · have hlambda : Closed .swiftUI " \x7b\x7d".toList := by decide
    exact Reads.outer (Closed.append hhead hlambda)
  · have hlambda : Reads quotes (inCode []) " \x7b".toList (inCode ['\x7d']) := by decide
    exact Reads.around ['\x7d'] (hhead.append hlambda) (by decide) hchildren

/-- SwiftUI keeps pieces closed. -/
theorem keeps_closedBlock : target.Keeps (fun c => isOrdinary c = true) (ClosedBlock .swiftUI) where
  container hname htexts hpieces := closedBlock_stack (closed_word hname) htexts hpieces
  custom {_ axis _ _} hcomment htexts hpieces := by
    have hname : Closed .swiftUI (stackName axis) := by cases axis <;> decide
    exact closedBlock_customComment hcomment (closedBlock_stack hname htexts hpieces)
  text {_ content _} hname htexts := by
    -- The content is a literal between parentheses, and the modifiers are lines of their own.
    have hopen : Reads quotes (inCode []) "(".toList (inCode [')']) := by decide
    have hclose : Reads quotes (inCode [')']) ")".toList (inCode []) := by decide
    have hcontent := (Reads.append (closed_word hname) hopen).closed (closed_swift content)
    exact closedBlock_cons (hcontent.append hclose) (closedBlock_modifierLines htexts)
  shape hname htexts := by
    have hcall : Closed .swiftUI "()".toList := by decide
    exact closedBlock_cons ((closed_word hname).append hcall) (closedBlock_modifierLines htexts)
  image hname htexts := by
    have hcall : Closed .swiftUI "(systemName: \"photo\")".toList := by decide
    have hresizable : Closed .swiftUI "    .resizable()".toList := by decide
    exact closedBlock_cons ((closed_word hname).append hcall)
      (closedBlock_cons hresizable (closedBlock_modifierLines htexts))

/-! ### Files -/

/-- A file with one view is closed around a closed body: `hbraces` is what follows the body, and
`hpreview` is the preview at the end. -/
theorem closed_view {name body : Text} (hname : Closed .swiftUI name)
    (hbody : Closed .swiftUI (body ++ ['\n'])) : Closed .swiftUI (view name body) := by
  have hstruct : Reads quotes (inCode []) ("struct ".toList ++ name ++ ": View \x7b".toList)
      (inCode ['\x7d']) := by
    have hlabel : Closed .swiftUI "struct ".toList := by decide
    have hopen : Reads quotes (inCode []) ": View \x7b".toList (inCode ['\x7d']) := by decide
    exact Reads.append (hlabel.append hname) hopen
  have hcall : Reads quotes (inCode ['\x7d']) ("    ".toList ++ name ++ "()".toList)
      (inCode ['\x7d']) := by
    have hindent : Closed .swiftUI "    ".toList := by decide
    have hparentheses : Closed .swiftUI "()".toList := by decide
    exact ((hindent.append hname).append hparentheses).reads ['\x7d']
  have hpreview : Reads quotes (inCode []) (unlines ["#Preview \x7b".toList,
      "    ".toList ++ name ++ "()".toList, "\x7d".toList]) (inCode []) :=
    Reads.unlines ['\x7d'] (by decide) (Reads.unlines ['\x7d'] hcall (by decide))
  -- Read from the end: the preview, and before it the two braces that are open around the body.
  have hbraces : Reads quotes (inCode ['\x7d', '\x7d']) (unlines ["    \x7d".toList,
      "\x7d".toList, [], "#Preview \x7b".toList, "    ".toList ++ name ++ "()".toList,
      "\x7d".toList]) (inCode []) :=
    Reads.unlines ['\x7d'] (by decide)
      (Reads.unlines [] (by decide) (Reads.unlines [] (by decide) hpreview))
  exact Reads.unlines [] (by decide) (Reads.unlines [] (by decide)
    (Reads.unlines ['\x7d'] hstruct (Reads.unlines ['\x7d', '\x7d'] (by decide)
      (Reads.unlinesLine (hbody.reads ['\x7d', '\x7d']) hbraces))))

/-- The main file is closed around a closed body. -/
theorem closed_document {body : Text} (hbody : Closed .swiftUI (body ++ ['\n']))
    (names : List Text) : Closed .swiftUI (target.document body names ++ ['\n']) := by
  have hview : Closed .swiftUI (view viewName body) := closed_view (by decide) hbody
  have hblank : Closed .swiftUI "\n\n".toList := by decide
  have hinitialiser : Closed .swiftUI colorInitialiser := by decide +kernel
  have hend : Closed .swiftUI "\n".toList := by decide
  exact (((hview.append hblank).append hinitialiser).append hend).line

/-- The file of a component is closed around a closed body. -/
theorem closed_component {name body : Text} (hname : Closed .swiftUI name)
    (hbody : Closed .swiftUI (body ++ ['\n'])) :
    Closed .swiftUI (target.component name body ++ ['\n']) := by
  have hend : Closed .swiftUI "\n".toList := by decide
  exact ((closed_view hname hbody).append hend).line

end DesignCompiler.SwiftUI
