import DesignCompiler.Text.Blank

/-!
# `DesignCompiler.Proofs.Text.Lines`: cutting a text into lines and putting it together

`Text.unlines_lines` says that a text comes back from its lines. The other direction needs that the
pieces are lines: there is at least one, and none of them is broken by a line feed
(`lines_unlines`). Pieces that are texts of several lines can be put together in one step or in two
(`unlines_flatten`).

`indented` puts the same blanks in front of every line of a text. `onOneLine_unbroken` is why a
layer's name can stand in a comment: cutting at blanks also cuts at line feeds.
-/

set_option autoImplicit false

namespace DesignCompiler.Text

/-- A text without a line feed, which takes one line where it is put. -/
def Unbroken (t : Text) : Prop := '\n' ∉ t

/-- Decided, since the fixed words around a name or a number are all shown to be unbroken by
evaluation. -/
instance (t : Text) : Decidable (Unbroken t) := inferInstanceAs (Decidable ('\n' ∉ t))

/-- What holds of the characters of a literal holds of the literal. The characters are found by
unification, so that nothing has to be decoded to decide about a long literal. -/
theorem of_literal {p : Text → Prop} {cs : List Char} (h : p cs) : p (String.ofList cs).toList := by
  rwa [String.toList_ofList]

/-- A text with `indent` in front of each of its lines. -/
def indented (indent t : Text) : Text := unlines ((lines t).map (indent ++ ·))

/-- A text in two parts has no line feed if neither part has. -/
theorem unbroken_append {a b : Text} : Unbroken (a ++ b) ↔ Unbroken a ∧ Unbroken b := by
  simp [Unbroken]

/-- A single line is a text as it stands, with no line feed behind it. -/
theorem unlines_singleton (l : Text) : unlines [l] = l := rfl

/-- Between two lines there is a line feed. This is the step for inductions on the lines, with at
least one line left to come. -/
theorem unlines_cons_cons (l next : Text) (rest : List Text) :
    unlines (l :: next :: rest) = l ++ '\n' :: unlines (next :: rest) := by
  simp [unlines, joinWith]

/-- The same, where it is known that lines follow and not which. -/
theorem unlines_cons (l : Text) {rest : List Text} (h : rest ≠ []) :
    unlines (l :: rest) = l ++ '\n' :: unlines rest := by
  cases rest with
  | nil => exact absurd rfl h
  | cons next rest => exact unlines_cons_cons l next rest

/-- Joining two lists of pieces puts the separator between what they are joined to. -/
theorem joinWith_append (separator : Text) {front back : List Text} (hf : front ≠ [])
    (hb : back ≠ []) : joinWith separator (front ++ back)
      = joinWith separator front ++ separator ++ joinWith separator back := by
  obtain ⟨next, more, rfl⟩ := List.exists_cons_of_ne_nil hb
  induction front with
  | nil => exact absurd rfl hf
  | cons piece rest ih =>
    cases rest with
    | nil => rfl
    | cons second rest =>
      have ih := ih (List.cons_ne_nil second rest)
      simp only [List.cons_append, joinWith] at ih ⊢
      rw [ih, List.append_assoc, List.append_assoc, List.append_assoc, List.append_assoc,
        List.append_assoc]

/-- Two lists of lines have one line feed between them. Both have to have lines: an empty list would
add a line feed of its own. -/
theorem unlines_append {front back : List Text} (hf : front ≠ []) (hb : back ≠ []) :
    unlines (front ++ back) = unlines front ++ '\n' :: unlines back := by
  rw [unlines, joinWith_append _ hf hb, List.append_assoc]
  rfl

/-- Texts of several lines are put together line by line or text by text. None of the texts may be
without lines, as it would count as an empty line in one way and not at all in the other. -/
theorem unlines_flatten {blocks : List (List Text)} (h : ∀ b ∈ blocks, b ≠ []) :
    unlines blocks.flatten = unlines (blocks.map unlines) := by
  induction blocks with
  | nil => rfl
  | cons block rest ih =>
    have ih := ih fun b hb => h b (List.mem_cons_of_mem _ hb)
    -- Only between two pieces is there a line feed to account for.
    cases rest with
    | nil => simp [unlines_singleton]
    | cons next rest =>
      have hrest : (next :: rest).flatten ≠ [] := by simp [h next (by simp)]
      rw [List.flatten_cons, unlines_append (h block (by simp)) hrest, ih]
      exact (unlines_cons (unlines block) (by simp)).symm

/-- A line feed at the front ends an empty line. -/
theorem lines_newline_cons (t : Text) : lines ('\n' :: t) = [] :: lines t := by
  rw [lines, if_pos rfl]

/-- The first line goes on while there is no line feed. -/
theorem lines_append_newline {l : Text} (h : Unbroken l) (t : Text) :
    lines (l ++ '\n' :: t) = l :: lines t := by
  induction l with
  | nil => exact lines_newline_cons t
  | cons c rest ih =>
    simp only [Unbroken, List.mem_cons, not_or] at h
    rw [List.cons_append, lines, if_neg (Ne.symm h.1), ih h.2]

/-- A text without a line feed is its only line. -/
theorem lines_unbroken {t : Text} (h : Unbroken t) : lines t = [t] := by
  induction t with
  | nil => rfl
  | cons c rest ih =>
    simp only [Unbroken, List.mem_cons, not_or] at h
    rw [lines, if_neg (Ne.symm h.1), ih h.2]

/-- Lines that are put together can be cut again. There has to be one, since even the empty text has
a line. -/
theorem lines_unlines {ls : List Text} (hne : ls ≠ []) (h : ∀ l ∈ ls, Unbroken l) :
    lines (unlines ls) = ls := by
  induction ls with
  | nil => exact absurd rfl hne
  | cons l rest ih =>
    cases rest with
    | nil => exact lines_unbroken (h l (by simp))
    | cons next rest =>
      rw [unlines_cons_cons, lines_append_newline (h l (by simp)),
        ih (by simp) fun m hm => h m (List.mem_cons_of_mem _ hm)]

/-- The lines of two texts with a line feed between them are those of the one and of the other.
Neither text has to be a single line. -/
theorem lines_append_newline_append (a b : Text) : lines (a ++ '\n' :: b) = lines a ++ lines b := by
  induction a with
  | nil => exact lines_newline_cons b
  | cons c rest ih =>
    rw [List.cons_append, lines, ih]
    split
    · next hc => rw [lines, if_pos hc, List.cons_append]
    · next hc =>
      rw [lines, if_neg hc]
      cases hrest : lines rest with
      | nil => exact absurd hrest (lines_ne_nil rest)
      | cons line more => rfl

/-- The lines of texts that are put together are those of each. In contrast to `lines_unlines`, the
texts may hold line feeds. -/
theorem lines_unlines_flatMap {pieces : List Text} (h : pieces ≠ []) :
    lines (unlines pieces) = pieces.flatMap lines := by
  induction pieces with
  | nil => exact absurd rfl h
  | cons piece rest ih =>
    cases rest with
    | nil => rw [unlines_singleton, List.flatMap_singleton]
    | cons next rest =>
      rw [unlines_cons_cons, lines_append_newline_append, ih (List.cons_ne_nil next rest)]
      exact List.flatMap_cons.symm

/-- A line is one of the lines of the text into which it is put. -/
theorem mem_lines_unlines {l : Text} {pieces : List Text} (h : l ∈ pieces) (hl : Unbroken l) :
    l ∈ lines (unlines pieces) := by
  rw [lines_unlines_flatMap (List.ne_nil_of_mem h)]
  exact List.mem_flatMap.mpr ⟨l, h, by rw [lines_unbroken hl, List.mem_singleton]⟩

/-- No line holds a line feed. So the lines of a text are lines that `lines_unlines` is about. -/
theorem unbroken_of_mem_lines {l t : Text} (h : l ∈ lines t) : Unbroken l := by
  induction t generalizing l with
  | nil =>
    simp only [lines, List.mem_singleton] at h
    subst h
    simp [Unbroken]
  | cons c rest ih =>
    rw [lines] at h
    split at h
    · rcases List.mem_cons.mp h with rfl | h
      · simp [Unbroken]
      · exact ih h
    · next hc =>
      -- The character goes in front of the first line of the rest.
      cases hl : lines rest with
      | nil => exact absurd hl (lines_ne_nil rest)
      | cons line more =>
        rw [hl] at h ih
        rcases List.mem_cons.mp h with rfl | h
        · have hline : Unbroken line := ih (by simp)
          simpa [Unbroken, Ne.symm hc] using hline
        · exact ih (by simp [h])

/-- What is put in front of a text goes on with its first line, and leaves the other lines as they
are. -/
theorem lines_unbroken_append {a : Text} (ha : Unbroken a) (t : Text) :
    lines (a ++ t) = (a ++ (lines t).headD []) :: (lines t).tail := by
  induction a with
  | nil =>
    cases hlines : lines t with
    | nil => exact absurd hlines (lines_ne_nil t)
    | cons first rest => simp [hlines]
  | cons c a ih =>
    simp only [Unbroken, List.mem_cons, not_or] at ha
    rw [List.cons_append, lines, if_neg (Ne.symm ha.1), ih ha.2]
    rfl

/-- What is put behind a text goes on with its last line, and leaves the other lines as they are. -/
theorem lines_append_unbroken {t b : Text} (hb : Unbroken b) :
    ∃ init last, lines t = init ++ [last] ∧ lines (t ++ b) = init ++ [last ++ b] := by
  obtain ⟨init, last, hlines⟩ : ∃ init last, lines t = init ++ [last] :=
    ⟨_, _, (List.dropLast_concat_getLast (lines_ne_nil t)).symm⟩
  refine ⟨init, last, hlines, ?_⟩
  have hlast : Unbroken (last ++ b) :=
    unbroken_append.mpr ⟨unbroken_of_mem_lines (hlines ▸ List.mem_concat_self), hb⟩
  rw [← unlines_lines t, hlines]
  by_cases hinit : init = []
  · rw [hinit]
    exact lines_unbroken hlast
  · rw [unlines_append hinit (List.cons_ne_nil last []), List.append_assoc, List.cons_append,
      lines_append_newline_append, lines_unlines hinit, unlines_singleton, lines_unbroken hlast]
    intro l hl
    exact unbroken_of_mem_lines (hlines ▸ List.mem_append_left _ hl)

/-- Indenting lines that are put together indents each of them. -/
theorem indented_unlines (indent : Text) {ls : List Text} (hne : ls ≠ [])
    (h : ∀ l ∈ ls, Unbroken l) : indented indent (unlines ls) = unlines (ls.map (indent ++ ·)) := by
  rw [indented, lines_unlines hne h]

/-- Joining keeps a property of characters that the separator has. -/
theorem forall_mem_joinWith {p : Char → Prop} {separator : Text} {pieces : List Text}
    (hs : ∀ c ∈ separator, p c) (h : ∀ piece ∈ pieces, ∀ c ∈ piece, p c) :
    ∀ c ∈ joinWith separator pieces, p c := by
  induction pieces with
  | nil => simp [joinWith]
  | cons piece rest ih =>
    have ih := ih fun q hq => h q (List.mem_cons_of_mem _ hq)
    cases rest with
    | nil => simpa [joinWith] using h
    | cons next rest =>
      intro c hc
      rw [joinWith] at hc
      · -- It is a character of the first piece, of the separator, or of what follows.
        rcases List.mem_append.mp hc with hc | hc
        · rcases List.mem_append.mp hc with hc | hc
          · exact h piece (by simp) c hc
          · exact hs c hc
        · exact ih c hc
      · simp

/-- A word holds no blank. The cases are those of `words`: nothing left, a blank, and a character
whose run ends before a blank, goes on, or is the last. -/
theorem not_isBlank_of_mem_words {t : Text} : ∀ w ∈ words t, ∀ c ∈ w, ¬ isBlank c := by
  fun_induction words t with
  | case1 => simp
  | case2 c rest hc ih => exact ih
  | case3 c hc next rest word more hnext heq ih =>
    rw [heq] at ih ⊢
    simpa [hc, hnext] using ih
  | case4 c hc next rest word more hnext heq ih =>
    rw [heq] at ih ⊢
    simpa [hc, hnext] using ih
  | case5 c rest hc hno ih => simpa [hc] using ih

/-- The words of a text with spaces between them stand on one line. A line feed is a blank, so it is
in no word, and it is not a space. -/
theorem onOneLine_unbroken (t : Text) : Unbroken (onOneLine t) := by
  intro h
  have hall : ∀ c ∈ onOneLine t, c ≠ '\n' :=
    forall_mem_joinWith (by simp) fun w hw c hc hnew => by
      subst hnew
      exact not_isBlank_of_mem_words w hw '\n' hc (by decide)
  exact hall '\n' h rfl

end DesignCompiler.Text
