import DesignCompiler.Proofs.Generate.Fence
import DesignCompiler.Service.Tool

/-!
# `DesignCompiler.Proofs.Service.Markdown`: generated code is read back from markdown

A reply in markdown tells the main code and the code of each component in fenced blocks, under
headings. A reader who knows nothing but the fences finds these blocks again
(`Tool.generate_sections`): no line of the code and no heading is a fence, so there are the two
fences of each block and no others. A reply that is cut may end inside a block.

The lines of a reply are those of its parts, each a heading over a fenced block, and a reader goes
through the parts one by one (`sections_parts`, `fences_parts`).
-/

set_option autoImplicit false

namespace DesignCompiler

open Text

namespace Report

/-! ### Parts of a reply -/

/-- A heading of some lines over a block of code. A reply in markdown is a list of such parts, the
main code first. -/
structure Part where
  heading : List Text
  code : Text

/-- The lines of the heading are guarded or empty, and no line of the code is a fence. A guarded
line begins with something that no fence begins with, so what stands behind it, such as a name,
cannot make it one. -/
structure Part.IsReadable (part : Part) : Prop where
  heading : ∀ line ∈ part.heading, line = [] ∨ IsGuardedLine line
  code : FenceFree part.code

/-- The line that opens a block of code in a language. -/
def opening (language : Text) : Text := "```".toList ++ language

/-- The line that closes a block of code. -/
def closing : Text := "```".toList

/-- A part as lines of markdown: its heading, and its code between two fences. -/
def Part.written (language : Text) (part : Part) : List Text :=
  part.heading ++ fenced language part.code

section

variable {language : Text} {parts : List Part}

/-- The line that opens a block is a fence in every language, as the language only follows the mark.
-/
theorem isFence_opening (language : Text) : isFence (opening language) = true := rfl

/-- The line that closes a block is a fence. -/
theorem isFence_closing : isFence closing = true := rfl

/-- A line of a heading is one line, so cutting the reply into lines leaves headings alone. -/
theorem Part.IsReadable.unbroken {part : Part} (h : part.IsReadable) {line : Text}
    (hline : line ∈ part.heading) : Unbroken line := by
  rcases h.heading line hline with rfl | hguarded
  · decide
  · exact hguarded.unbroken

/-- No line of a heading is a fence. An empty line is none, and a guarded one does not begin as a
fence. -/
theorem Part.IsReadable.isFence {part : Part} (h : part.IsReadable) :
    ∀ line ∈ part.heading, isFence line = false := by
  intro line hline
  rcases h.heading line hline with rfl | hguarded
  · rfl
  · exact isFence_of_isGuarded hguarded.guarded

/-- The code of a part may have many lines, and everything else in it is one line. So the lines of a
written part are its heading, the opening fence, the lines of the code and the closing fence. -/
theorem Part.IsReadable.lines_written {part : Part} (h : part.IsReadable)
    (hlanguage : Unbroken language) :
    (part.written language).flatMap lines
      = part.heading ++ opening language :: (lines part.code ++ [closing]) := by
  have hheading : part.heading.flatMap lines = part.heading := by
    rw [List.flatMap_congr fun line hline => lines_unbroken (h.unbroken hline),
      List.flatMap_singleton']
  have hopening : lines (opening language) = [opening language] :=
    lines_unbroken (unbroken_append.mpr ⟨by decide, hlanguage⟩)
  have hclosing : lines closing = [closing] := lines_unbroken (by decide)
  rw [Part.written, List.flatMap_append, hheading]
  show part.heading ++ (lines (opening language) ++ (lines part.code ++ (lines closing ++ []))) = _
  rw [hopening, hclosing]
  rfl

/-- The fences of readable parts are the two of each. By induction on the parts; the fences of the
first one are its own two, and no line of it is another. -/
theorem filter_parts (hlanguage : Unbroken language) (h : ∀ part ∈ parts, part.IsReadable) :
    ((parts.flatMap (Part.written language)).flatMap lines).filter isFence
      = (List.replicate parts.length [opening language, closing]).flatten := by
  induction parts with
  | nil => rfl
  | cons part rest ih =>
    obtain ⟨hpart, hrest⟩ := List.forall_mem_cons.mp h
    -- Neither the heading nor the code has a fence of its own.
    have hheading : part.heading.filter isFence = [] := by
      simpa using hpart.isFence
    have hcode : (lines part.code).filter isFence = [] := by
      simpa [FenceFree] using hpart.code
    rw [List.flatMap_cons, List.flatMap_append, hpart.lines_written hlanguage, List.filter_append,
      ih hrest, List.filter_append, hheading, List.filter_cons_of_pos (isFence_opening language),
      List.filter_append, hcode, List.filter_cons_of_pos isFence_closing]
    rfl

/-- Readable parts are cut into their headings and codes. Behind the last fence there is nothing,
which is the empty list at the end. -/
theorem splitOnP_parts (hlanguage : Unbroken language) (h : ∀ part ∈ parts, part.IsReadable) :
    ((parts.flatMap (Part.written language)).flatMap lines).splitOnP isFence
      = parts.flatMap (fun part => [part.heading, lines part.code]) ++ [[]] := by
  induction parts with
  | nil => rfl
  | cons part rest ih =>
    obtain ⟨hpart, hrest⟩ := List.forall_mem_cons.mp h
    -- The heading ends at the opening fence, and the code at the closing one.
    rw [List.flatMap_cons, List.flatMap_append, hpart.lines_written hlanguage, List.append_assoc,
      List.cons_append, List.append_assoc, List.singleton_append,
      List.splitOnP_append_cons_of_forall_mem hpart.isFence _ (isFence_opening language),
      List.splitOnP_append_cons_of_forall_mem hpart.code _ isFence_closing, ih hrest]
    rfl

/-- Where there are parts there are lines, at least the two fences of the first part. -/
theorem written_ne_nil (hne : parts ≠ []) : parts.flatMap (Part.written language) ≠ [] := by
  obtain ⟨part, rest, rfl⟩ := List.exists_cons_of_ne_nil hne
  simp [Part.written, fenced]

/-- Markdown of readable parts has the fences of each. A reader who counts them knows how many
blocks of code there are. -/
theorem fences_parts (hlanguage : Unbroken language) (h : ∀ part ∈ parts, part.IsReadable)
    (hne : parts ≠ []) :
    fences (unlines (parts.flatMap (Part.written language)))
      = (List.replicate parts.length [opening language, closing]).flatten := by
  rw [fences, lines_unlines_flatMap (written_ne_nil hne), filter_parts hlanguage h]

/-- Markdown of readable parts is cut into the heading and the code of each. The code is given back
as the one text that it was, with its line feeds. -/
theorem sections_parts (hlanguage : Unbroken language) (h : ∀ part ∈ parts, part.IsReadable)
    (hne : parts ≠ []) :
    sections (unlines (parts.flatMap (Part.written language)))
      = parts.flatMap (fun part => [unlines part.heading, part.code]) ++ [[]] := by
  rw [sections, lines_unlines_flatMap (written_ne_nil hne), splitOnP_parts hlanguage h,
    List.map_append, List.map_flatMap]
  simp only [List.map_cons, List.map_nil, unlines_lines]
  rfl

end

/-! ### Generated code -/

/-- The lines over the main code: a title, the platform, and an empty line. -/
def mainHeading (g : Generated) : List Text :=
  ["# Generated Code".toList, "**Platform:** ".toList ++ g.platform.token, []]

/-- The lines over the code of a component: an empty line, the name of its file, and an empty line.
-/
def componentHeading (c : Component) : List Text :=
  [[], "## ".toList ++ c.name ++ ['.'] ++ c.fileExtension, []]

/-- The parts that tell generated code: the main code, and one part for each component in order.
White space at the end of a code is left out. -/
def partsOf (g : Generated) : List Part :=
  ⟨mainHeading g, trimCode g.code⟩
    :: g.files.map fun c => ⟨componentHeading c, trimCode c.code⟩

/-- What is told of generated code are the written parts, if there are no warnings. Warnings would
come between the title and the main code. -/
theorem codeLines_eq (g : Generated) :
    codeLines g [] = (partsOf g).flatMap (Part.written g.platform.fence) := by
  rw [partsOf, List.flatMap_cons, List.flatMap_map]
  rfl

/-- The part of the main code is readable. Its heading repeats nothing but the platform, which is
one of three words. -/
theorem isReadable_main {g : Generated} (h : FenceFree g.code) :
    Part.IsReadable ⟨mainHeading g, trimCode g.code⟩ where
  heading := by
    have hplatform : IsGuardedLine ("**Platform:** ".toList ++ g.platform.token) := by
      cases g.platform <;> decide
    simp only [mainHeading, List.forall_mem_cons]
    exact ⟨.inr (by decide), .inr hplatform, .inl trivial, by simp⟩
  code := fenceFree_trimEndBy h

/-- The part of a component is readable. Its heading repeats the name of the component, which is an
identifier and so stands on one line. -/
theorem isReadable_component {c : Component} (hname : c.name.IsName)
    (hextension : Unbroken c.fileExtension) (h : FenceFree c.code) :
    Part.IsReadable ⟨componentHeading c, trimCode c.code⟩ where
  heading := by
    have hstart : IsGuardedLine "## ".toList := by decide
    simp only [componentHeading, List.forall_mem_cons]
    exact ⟨.inl trivial,
      .inr (((hstart.append hname.unbroken).append (by decide)).append hextension),
      .inl trivial, by simp⟩
  code := fenceFree_trimEndBy h

/-- The parts of generated code are readable if the colours of the trees stand on one line.
Everything else in the code that could come from a tree is quoted, put on one line or made an
identifier. -/
theorem isReadable_partsOf {platform : Platform} {extracting : Bool} {nodes : List Node}
    {g : Generated} (hcolors : ∀ color ∈ Node.colorsAll nodes, Unbroken color)
    (h : Generated.ofNodes platform extracting nodes = .ok g) :
    ∀ part ∈ partsOf g, part.IsReadable := by
  obtain ⟨hcode, hcomponents⟩ := Generated.fenceFree_of_ofNodes hcolors h
  refine List.forall_mem_cons.mpr ⟨isReadable_main hcode, ?_⟩
  intro part hpart
  obtain ⟨c, hc, rfl⟩ := List.mem_map.mp hpart
  have hextension : Unbroken c.fileExtension := by
    obtain ⟨node, -, piece, -, rfl⟩ := (Generated.drawn_of_ofNodes h).components c hc
    show Unbroken platform.target.platform.fileExtension
    cases platform <;> decide
  exact isReadable_component (Generated.isName_of_mem_files h hc) hextension (hcomponents c hc)

end Report

/-- Code that is told in markdown is read back. Unless the reply is cut, its fences are the two of
each block, and between them it has a heading and the code, for the main code and for each component
in order.

The request may hold any trees with colours on one line. Names and texts of layers may be anything
at all, also what looks like a fence. -/
theorem Tool.generate_sections {r : GenerateRequest} {g : Generated}
    (hformat : r.format = .markdown)
    (hcolors : ∀ color ∈ Node.colorsAll r.nodes, Unbroken color)
    (h : Generated.ofNodes r.platform r.extract r.nodes = .ok g)
    (hfits : (unlines (Report.codeLines g [])).length ≤ Report.characterLimit) :
    (fences (generate r).text).length = 2 * (1 + g.files.length)
      ∧ fences (generate r).text
        = (List.replicate (1 + g.files.length)
            [Report.opening r.platform.fence, Report.closing]).flatten
      ∧ sections (generate r).text
        = unlines (Report.mainHeading g) :: Report.trimCode g.code
          :: g.files.flatMap
            (fun c => [unlines (Report.componentHeading c), Report.trimCode c.code])
          ++ [[]] := by
  have hplatform : g.platform = r.platform := (Generated.drawn_of_ofNodes h).isFor
  have hlanguage : Unbroken r.platform.fence := by cases r.platform <;> decide
  have hreadable := Report.isReadable_partsOf hcolors h
  have hne : Report.partsOf g ≠ [] := List.cons_ne_nil _ _
  have htext : (generate r).text
      = unlines ((Report.partsOf g).flatMap (Report.Part.written r.platform.fence)) := by
    -- The reply fits, so nothing is cut off.
    rw [← hplatform, ← Report.codeLines_eq, generate, generateReply, h, hformat]
    exact if_neg (Nat.not_lt.mpr hfits)
  have hfences : fences (generate r).text
      = (List.replicate (1 + g.files.length)
          [Report.opening r.platform.fence, Report.closing]).flatten := by
    rw [htext, Report.fences_parts hlanguage hreadable hne, Report.partsOf, List.length_cons,
      List.length_map, Nat.add_comm]
  refine ⟨?_, hfences, ?_⟩
  · rw [hfences]
    simp [Nat.mul_comm]
  · rw [htext, Report.sections_parts hlanguage hreadable hne, Report.partsOf, List.flatMap_cons,
      List.flatMap_map]
    rfl

/-- A request for a card whose name and texts are full of backticks and line feeds. -/
def Tool.noisyRequest : GenerateRequest :=
  ⟨[.mk (Forest.plainLayer "COMPONENT" "\n```Card" none)
      [.mk (Forest.plainLayer "TEXT" "```" (some "```\n```swift\n".toList)) []]],
    .react, true, .markdown⟩

/-- The card is a component, and is told in two blocks. The backticks in its name and its text make
no third one. -/
theorem Tool.noisyRequest_sections :
    noisyRequest.format = .markdown
    ∧ (∀ color ∈ Node.colorsAll noisyRequest.nodes, Unbroken color)
    ∧ ∃ g, Generated.ofNodes noisyRequest.platform noisyRequest.extract noisyRequest.nodes = .ok g
      ∧ (unlines (Report.codeLines g [])).length ≤ Report.characterLimit
      ∧ (fences (generate noisyRequest).text).length = 4
      ∧ Report.trimCode g.code ∈ sections (generate noisyRequest).text := by
  have hcolors : ∀ color ∈ Node.colorsAll noisyRequest.nodes, Unbroken color := by decide
  have hresult : ((Generated.ofNodes noisyRequest.platform noisyRequest.extract
      noisyRequest.nodes).map fun g => ((unlines (Report.codeLines g [])).length ≤
        Report.characterLimit && g.files.length = 1)).toOption = some true := by decide +kernel
  obtain ⟨g, hg, hchecked⟩ := Outcome.map_eq_ok.mp (Outcome.toOption_eq_some.mp hresult)
  obtain ⟨hfits, hfiles⟩ := Bool.and_eq_true_iff.mp hchecked
  have hlimit := of_decide_eq_true hfits
  obtain ⟨hlength, -, hsections⟩ := generate_sections rfl hcolors hg hlimit
  refine ⟨rfl, hcolors, g, hg, hlimit, ?_, ?_⟩
  · rw [hlength, of_decide_eq_true hfiles]
  · rw [hsections]
    exact List.mem_cons_of_mem _ List.mem_cons_self

end DesignCompiler
