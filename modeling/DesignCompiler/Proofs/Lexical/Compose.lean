import DesignCompiler.Proofs.Lexical.Source
import DesignCompiler.Proofs.Render.OneLine

/-!
# `DesignCompiler.Proofs.Lexical.Compose`: Compose code is closed

A call has one argument per line and may end with a lambda. It is closed if its arguments and the
pieces in the lambda are, because both branches of `Compose.closeWith` close what the line in front
of the arguments has opened.
-/

set_option autoImplicit false

namespace DesignCompiler.Compose

open Text Lexical

/-- The quotes of Kotlin. -/
abbrev quotes : Text := Platform.compose.quotes

/-- A length is closed. -/
theorem closed_dp (x : Binary64) : Closed .compose (dp x) := by
  have hunit : Closed .compose ".dp".toList := by decide
  exact (closed_dimension x).append hunit

/-- A colour is closed. -/
theorem closed_color {c : Text} (hc : ∀ d ∈ c, isOrdinary d = true) :
    Closed .compose (color c) := by
  have hopen : Reads quotes (inCode []) "Color.fromHex(\"".toList (inLiteral '"' [')']) := by
    decide
  have hclose : Reads quotes (inLiteral '"' [')']) "\")".toList (inCode []) := by decide
  exact (hopen.append (.ordinaryLiteral (quotationMark_mem_quotes .compose) hc [')'])).append hclose

/-- A shape with rounded corners is closed. -/
theorem closed_rounded (radius : Binary64) : Closed .compose (rounded radius) := by
  have hopen : Reads quotes (inCode []) "RoundedCornerShape(".toList (inCode [')']) := by decide
  have hclose : Reads quotes (inCode [')']) ")".toList (inCode []) := by decide
  exact (hopen.closed (closed_dp radius)).append hclose

/-- The links for an attribute are closed if its texts are of ordinary characters. Each is a call
with lengths or colours between fixed pieces, which `decide` reads. -/
theorem closed_links {radius : Binary64} {a : Attribute Text}
    (ha : ∀ t ∈ a.texts, ∀ c ∈ t, isOrdinary c = true) :
    ∀ l ∈ links radius a, Closed .compose l := by
  have hclose : Reads quotes (inCode [')']) ")".toList (inCode []) := by decide
  have hcomma : Closed .compose ", ".toList := by decide
  have hclip : ∀ corner, Closed .compose (".clip(".toList ++ rounded corner ++ ")".toList) := by
    intro corner
    have hopen : Reads quotes (inCode []) ".clip(".toList (inCode [')']) := by decide
    exact (hopen.closed (closed_rounded corner)).append hclose
  cases a with
  | size width height =>
    have hwidth : Reads quotes (inCode []) ".width(".toList (inCode [')']) := by decide
    have hheight : Reads quotes (inCode []) ".height(".toList (inCode [')']) := by decide
    simp only [links, List.forall_mem_cons]
    exact ⟨(hwidth.closed (closed_dp width)).append hclose,
      (hheight.closed (closed_dp height)).append hclose, List.forall_mem_nil _⟩
  | background c =>
    have hopen : Reads quotes (inCode []) ".background(".toList (inCode [')']) := by decide
    have hshape : Closed .compose
        (if radius.isZero then [] else ", ".toList ++ rounded radius) := by
      split
      · exact .nil
      · exact hcomma.append (closed_rounded radius)
    simp only [links, List.mem_singleton, forall_eq]
    exact ((hopen.closed (closed_color (ha c List.mem_cons_self))).closed hshape).append hclose
  | border c width corner =>
    have hopen : Reads quotes (inCode []) ".border(".toList (inCode [')']) := by decide
    -- The parenthesis is left open, as round corners come into the same call.
    have hline := ((hopen.closed (closed_dp width)).closed hcomma).closed
      (closed_color (ha c List.mem_cons_self))
    simp only [links]
    split
    · simp only [List.mem_singleton, forall_eq]
      exact hline.append hclose
    · simp only [List.forall_mem_cons]
      exact ⟨hclip corner, ((hline.closed hcomma).closed (closed_rounded corner)).append hclose,
        List.forall_mem_nil _⟩
  | cornerRadius corner =>
    simp only [links, List.mem_singleton, forall_eq]
    exact hclip corner
  | padding sides =>
    have hopen : Reads quotes (inCode []) ".padding(start = ".toList (inCode [')']) := by decide
    have htop : Closed .compose ", top = ".toList := by decide
    have hend : Closed .compose ", end = ".toList := by decide
    have hbottom : Closed .compose ", bottom = ".toList := by decide
    have hstart := hopen.closed (closed_dp sides.left)
    have habove := (hstart.closed htop).closed (closed_dp sides.top)
    have hafter := (habove.closed hend).closed (closed_dp sides.right)
    simp only [links, List.mem_singleton, forall_eq]
    exact ((hafter.closed hbottom).closed (closed_dp sides.bottom)).append hclose
  | offset x y =>
    have hopen : Reads quotes (inCode []) ".offset(x = ".toList (inCode [')']) := by decide
    have hy : Closed .compose ", y = ".toList := by decide
    simp only [links, List.mem_singleton, forall_eq]
    exact (((hopen.closed (closed_dp x)).closed hy).closed (closed_dp y)).append hclose
  | spacing _ | textColor _ | fontSize _ | fontWeight _ => simp [links]

/-! ### Arguments -/

/-- An argument is closed if its name is a word and its literal is closed. -/
theorem closed_argument {name literal : Text} (hname : name.IsWord)
    (h : Closed .compose literal) : Closed .compose (Argument.text ⟨name, literal⟩) := by
  have hequals : Closed .compose " = ".toList := by decide
  exact ((closed_word hname).append hequals).append h

/-- The arguments for the attributes of a text are closed. The other attributes have none. -/
theorem closed_textArgument {a : Attribute Text}
    (ha : ∀ t ∈ a.texts, ∀ c ∈ t, isOrdinary c = true) {argument : Argument}
    (h : textArgument? a = some argument) : Closed .compose argument.text := by
  cases a with
  | textColor c =>
    cases h
    exact closed_argument (by decide) (closed_color (ha c List.mem_cons_self))
  | fontSize size =>
    cases h
    have hunit : Closed .compose ".sp".toList := by decide
    exact closed_argument (by decide) ((closed_dimension size).append hunit)
  | fontWeight word =>
    cases h
    exact closed_argument (by decide) (.ordinary (ha word List.mem_cons_self))
  | size _ _ | background _ | border _ _ _ | cornerRadius _ | padding _ | spacing _ | offset _ _ =>
    cases h

/-- The argument with the modifier chain is closed. The chain has one line for each link, each of
them closed by itself. -/
theorem closed_modifierArgument {attributes : List (Attribute Text)}
    (h : Attribute.TextsIn (fun c => isOrdinary c = true) attributes) {needed : Bool} :
    ∀ a ∈ modifierArgument attributes needed, Closed .compose a.text := by
  have hmodifier : Closed .compose "Modifier".toList := by decide
  intro a ha
  rw [modifierArgument] at ha
  split at ha
  · split at ha
    · rw [List.mem_singleton.mp ha]
      exact closed_argument (by decide) hmodifier
    · cases ha
  · rw [List.mem_singleton.mp ha]
    -- The chain is one argument over several lines, each of them closed.
    refine closed_argument (by decide) (.unlines ?_)
    intro l hl
    rcases List.mem_cons.mp hl with rfl | hl
    · exact hmodifier
    · obtain ⟨link, hlink, rfl⟩ := List.mem_map.mp hl
      obtain ⟨owner, howner, hlink⟩ := List.mem_flatMap.mp hlink
      have hindent : Closed .compose unit := by decide
      exact hindent.append (closed_links (h owner howner) link hlink)

/-- The argument for the spacing is closed. -/
theorem closed_spacingArgument {axis : Axis} {attributes : List (Attribute Text)} :
    ∀ a ∈ spacingArgument axis attributes, Closed .compose a.text := by
  intro a ha
  rw [spacingArgument] at ha
  split at ha
  · next gap name _ hname =>
    have hopen : Reads quotes (inCode []) "Arrangement.spacedBy(".toList (inCode [')']) := by decide
    have hclose : Reads quotes (inCode [')']) ")".toList (inCode []) := by decide
    have hword : name.IsWord := by
      cases axis <;> cases hname <;> decide
    rw [List.mem_singleton.mp ha]
    exact closed_argument hword ((hopen.closed (closed_dp gap)).append hclose)
  · cases ha

/-- Closed arguments are closed line by line. The recursion of `argumentLines` tells the last
argument, which has no comma, from the others. -/
theorem closed_argumentLines {arguments : List Argument}
    (h : ∀ a ∈ arguments, Closed .compose a.text) :
    ClosedBlock .compose (argumentLines arguments) := by
  fun_induction argumentLines arguments with
  | case1 => exact .nil
  | case2 last => exact closedBlock_insideText (h last List.mem_cons_self)
  | case3 next rest _ ih =>
    have hcomma : Closed .compose [','] := by decide
    exact closedBlock_append (closedBlock_insideText ((h next List.mem_cons_self).append hcomma))
      (ih fun a ha => h a (List.mem_cons_of_mem next ha))

/-! ### Calls -/

/-- A lambda of closed pieces after a line that closes what is open closes it as well. An empty
lambda stands on the line, any other one goes over several. -/
theorem reads_closeWith {line : Text} {awaited : List Char}
    (hline : Reads quotes (inCode awaited) line (inCode [])) {content : Content}
    (hcontent : content.Holds (ClosedBlock .compose)) :
    Reads quotes (inCode awaited) (closeWith line content).source (inCode []) := by
  cases content with
  | absent => exact Reads.outer hline
  | lambda children =>
    rw [closeWith]
    split
    · have hlambda : Closed .compose " \x7b\x7d".toList := by decide
      exact Reads.outer (hline.closed hlambda)
    · have hlambda : Reads quotes (inCode []) " \x7b".toList (inCode ['\x7d']) := by decide
      exact Reads.around ['\x7d'] (hline.append hlambda) (by decide) hcontent

/-- A call with closed arguments is closed, with parentheses, a lambda or both. -/
theorem closedBlock_call {name : Text} (hname : Closed .compose name) {arguments : List Argument}
    (harguments : ∀ a ∈ arguments, Closed .compose a.text) {content : Content}
    (hcontent : content.Holds (ClosedBlock .compose)) :
    ClosedBlock .compose (call name arguments content) := by
  unfold call
  split
  · -- Without arguments there are parentheses only if there is no lambda.
    cases content with
    | absent =>
      have hcall : Closed .compose "()".toList := by decide
      exact Reads.outer (hname.append hcall)
    | lambda children => exact reads_closeWith hname hcontent
  · have hopen : Reads quotes (inCode []) "(".toList (inCode [')']) := by decide
    have hclose : Reads quotes (inCode [')']) ")".toList (inCode []) := by decide
    have hhead := (Reads.append hname hopen).line
    have hinside := hhead.append (Closed.reads (closed_argumentLines harguments) [')'])
    rw [ClosedBlock, Block.source_append, Block.source_cons]
    exact hinside.append (reads_closeWith hclose hcontent)

/-- A container of closed pieces is closed. -/
theorem closedBlock_layout {name : Text} (hname : Closed .compose name) {axis : Axis}
    {attributes : List (Attribute Text)}
    (h : Attribute.TextsIn (fun c => isOrdinary c = true) attributes) {children : List Block}
    (hchildren : ∀ piece ∈ children, ClosedBlock .compose piece) :
    ClosedBlock .compose (layout name axis attributes children) := by
  refine closedBlock_call hname ?_ (.lambda hchildren)
  intro a ha
  rcases List.mem_append.mp ha with ha | ha
  · exact closed_modifierArgument h a ha
  · exact closed_spacingArgument a ha

/-- Compose keeps pieces closed. -/
theorem keeps_closedBlock : target.Keeps (fun c => isOrdinary c = true) (ClosedBlock .compose) where
  container hname htexts hpieces := closedBlock_layout (closed_word hname) htexts hpieces
  custom {_ axis _ _} hcomment htexts hpieces := by
    have hname : Closed .compose (customName axis) := by cases axis <;> decide
    exact closedBlock_customComment hcomment (closedBlock_layout hname htexts hpieces)
  text {_ content attributes} hname htexts := by
    simp only [target]
    -- A text has three sorts of arguments: its content, the chain, and what it says of its font.
    refine closedBlock_call (closed_word hname) ?_ (.absent _)
    intro a ha
    rcases List.mem_append.mp ha with ha | ha
    · rcases List.mem_cons.mp ha with rfl | ha
      · exact closed_argument (by decide) (closed_kotlin content)
      · exact closed_modifierArgument htexts a ha
    · obtain ⟨owner, howner, hsome⟩ := List.mem_filterMap.mp ha
      exact closed_textArgument (htexts owner howner) hsome
  shape {name attributes} hname htexts := by
    show ClosedBlock .compose (shape name attributes)
    rw [shape]
    split
    · exact closedBlock_call (closed_word hname) (closed_modifierArgument htexts)
        (.lambda (List.forall_mem_nil _))
    · exact closedBlock_call (closed_word hname) (closed_modifierArgument htexts) (.absent _)
  image {_ title attributes} hname htexts := by
    simp only [target]
    refine closedBlock_call (closed_word hname) ?_ (.absent _)
    intro a ha
    rcases List.mem_cons.mp ha with rfl | ha
    · exact closed_argument (by decide) (by decide)
    · rcases List.mem_cons.mp ha with rfl | ha
      · exact closed_argument (by decide) (closed_kotlin title)
      · exact closed_modifierArgument htexts a ha

/-! ### Files -/

/-- The imports are closed. There are many and some are long, so each is read by itself
(`of_literal`). -/
theorem closed_imports :
    ∀ i ∈ importsBefore ++ [previewImport] ++ importsAfter, Closed .compose i := by
  have hbefore : ∀ i ∈ importsBefore, Closed .compose i := by
    simp only [importsBefore, List.forall_mem_cons]
    repeat' apply And.intro
    all_goals first
      | exact of_literal (by decide +kernel)
      | exact List.forall_mem_nil _
  have hafter : ∀ i ∈ importsAfter, Closed .compose i := by
    simp only [importsAfter, List.forall_mem_cons]
    exact ⟨of_literal (by decide), of_literal (by decide), List.forall_mem_nil _⟩
  have hpreview : Closed .compose previewImport := of_literal (by decide +kernel)
  exact List.forall_mem_append.mpr
    ⟨List.forall_mem_append.mpr ⟨hbefore, List.forall_mem_singleton.mpr hpreview⟩, hafter⟩

/-- The lines of a preamble are closed, whichever of the imports it has: a component has no preview.
-/
theorem closed_preamble {imports : List Text}
    (h : ∀ i ∈ imports, i ∈ importsBefore ++ [previewImport] ++ importsAfter) :
    ∀ l ∈ preamble imports, Closed .compose l := by
  have hkeyword : Closed .compose "import ".toList := by decide
  intro l hl
  rcases List.mem_append.mp hl with hl | hl
  · have hpackage : ∀ l ∈ ["package com.example.generated".toList, []], Closed .compose l := by
      decide
    exact hpackage l hl
  · obtain ⟨name, hname, rfl⟩ := List.mem_map.mp hl
    exact hkeyword.append (closed_imports name (h name hname))

/-- A function is closed around a closed body, and the lines after it go on. The two functions of
the main file are put together with this. -/
theorem reads_function {name body : Text} (hname : Closed .compose name)
    (hbody : Closed .compose (body ++ ['\n'])) {next : Text} {back : List Text} {s : State}
    (h : Reads quotes (inCode []) (unlines (next :: back)) s) :
    Reads quotes (inCode []) (unlines (function name body ++ next :: back)) s := by
  have hfun : Reads quotes (inCode []) ("fun ".toList ++ name ++ "() \x7b".toList)
      (inCode ['\x7d']) := by
    have hkeyword : Closed .compose "fun ".toList := by decide
    have hopen : Reads quotes (inCode []) "() \x7b".toList (inCode ['\x7d']) := by decide
    exact Reads.append (hkeyword.append hname) hopen
  have hend : Reads quotes (inCode ['\x7d']) (unlines ("\x7d".toList :: next :: back)) s :=
    Reads.unlines [] (by decide) h
  exact Reads.unlines [] (by decide)
    (Reads.unlines ['\x7d'] hfun (Reads.unlinesLine (hbody.reads ['\x7d']) hend))

/-- The main file is closed around a closed body. -/
theorem closed_document {body : Text} (hbody : Closed .compose (body ++ ['\n']))
    (names : List Text) : Closed .compose (target.document body names ++ ['\n']) := by
  have hreader : Closed .compose (unlines ([] :: (colorReader ++ [[]]))) := by decide +kernel
  have hscreen : Closed .compose (unit ++ screenName ++ "()".toList ++ ['\n']) := by decide
  have hpreview := reads_function (by decide : Closed .compose (screenName ++ "Preview".toList))
    hscreen hreader
  have hannotation : Reads quotes (inCode []) (unlines ([]
      :: "@Preview(showBackground = true)".toList
      :: (function (screenName ++ "Preview".toList) (unit ++ screenName ++ "()".toList)
        ++ [] :: (colorReader ++ [[]])))) (inCode []) :=
    Reads.unlines [] (Reads.nil (inCode [])) (Reads.unlines [] (by decide) hpreview)
  -- The file is read from its end: the reader of colours, the preview, the screen, the preamble.
  have hmain := reads_function (by decide : Closed .compose screenName) hbody hannotation
  have hfile := Reads.unlinesAppend (closed_preamble fun _ hi => hi)
    (Reads.unlines [] (Reads.nil (inCode [])) hmain)
  show Closed .compose (document body ++ ['\n'])
  rw [document]
  simp only [List.append_assoc]
  exact Closed.line hfile

/-- The file of a component is closed around a closed body. -/
theorem closed_component {name body : Text} (hname : Closed .compose name)
    (hbody : Closed .compose (body ++ ['\n'])) :
    Closed .compose (target.component name body ++ ['\n']) := by
  have himports : ∀ i ∈ importsBefore ++ importsAfter,
      i ∈ importsBefore ++ [previewImport] ++ importsAfter := by
    simp only [List.mem_append]
    intro i hi
    exact hi.imp_left .inl
  have hend : Reads quotes (inCode []) (unlines [[]]) (inCode []) := rfl
  have hfile := Reads.unlinesAppend (closed_preamble himports)
    (Reads.unlines [] (Reads.nil (inCode [])) (reads_function hname hbody hend))
  show Closed .compose (component name body ++ ['\n'])
  rw [component]
  simp only [List.append_assoc]
  exact Closed.line hfile

end DesignCompiler.Compose
