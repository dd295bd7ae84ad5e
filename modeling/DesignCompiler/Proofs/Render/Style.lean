import DesignCompiler.Proofs.Number.Dimension
import DesignCompiler.Proofs.Render.Tree

/-!
# `DesignCompiler.Proofs.Render.Style`: the entries of a React style

A style is put together from entries that later ones may replace, so an entry of the result is one
of the entries that went in (`mem_of_mem_merge`). All of them are built alike: the key is a word,
and the literal a text, in single quotes or not, that holds dimensions, spaces and what is taken
over from the attributes (`Entry.IsPlain`).
-/

set_option autoImplicit false

namespace DesignCompiler.React

open Text

/-- Setting an entry brings in no other. -/
theorem mem_setEntry {entry e : Entry} {style : List Entry} (h : e ∈ setEntry entry style) :
    e = entry ∨ e ∈ style := by
  induction style with
  | nil => exact .inl (List.mem_singleton.mp h)
  | cons first rest ih =>
    rw [setEntry] at h
    split at h
    · rcases List.mem_cons.mp h with h | h
      · exact .inl h
      · exact .inr (List.mem_cons_of_mem first h)
    · rcases List.mem_cons.mp h with h | h
      · exact .inr (h ▸ List.mem_cons_self)
      · exact (ih h).imp_right (List.mem_cons_of_mem first)

/-- Merging entries leaves some of them. So what holds of all entries that go into a style holds of
those that are printed. -/
theorem mem_of_mem_merge {all : List Entry} {e : Entry} (h : e ∈ merge all) : e ∈ all := by
  -- The style that is built up has to be general for the induction.
  have hfold : ∀ (entries style : List Entry),
      e ∈ entries.foldl (fun style entry => setEntry entry style) style →
        e ∈ style ∨ e ∈ entries := by
    intro entries
    induction entries with
    | nil => exact fun style h => .inl h
    | cons entry rest ih =>
      intro style h
      rw [List.foldl_cons] at h
      rcases ih (setEntry entry style) h with h | h
      · rcases mem_setEntry h with rfl | h
        · exact .inr List.mem_cons_self
        · exact .inl h
      · exact .inr (List.mem_cons_of_mem entry h)
  rcases hfold all [] h with h | h
  · cases h
  · exact h

/-- Setting an entry sets its key and no other, whether the key was there or not. -/
theorem mem_keys_setEntry {entry : Entry} {style : List Entry} {key : Text} :
    key ∈ (setEntry entry style).map Prod.fst ↔ key = entry.1 ∨ key ∈ style.map Prod.fst := by
  induction style with
  | nil => simp [setEntry]
  | cons first rest ih =>
    rw [setEntry]
    split
    · next hsame => simp [hsame]
    · simp only [List.map_cons, List.mem_cons] at ih ⊢
      rw [ih]
      exact or_left_comm

/-- A style has the keys of the entries that went in. Which literal a key has is another matter:
that of its last entry. -/
theorem mem_keys_merge {all : List Entry} {key : Text} :
    key ∈ (merge all).map Prod.fst ↔ key ∈ all.map Prod.fst := by
  -- General in the style that is built up, as above.
  have hfold : ∀ (entries style : List Entry),
      key ∈ (entries.foldl (fun style entry => setEntry entry style) style).map Prod.fst
        ↔ key ∈ style.map Prod.fst ∨ key ∈ entries.map Prod.fst := by
    intro entries
    induction entries with
    | nil => simp
    | cons entry rest ih =>
      intro style
      rw [List.foldl_cons, ih, mem_keys_setEntry, List.map_cons, List.mem_cons]
      exact or_right_comm.trans or_comm
  rw [merge, hfold all []]
  simp

/-- A character of a literal: one that dimensions are written with, a space, or one with a
property. -/
def IsLiteralChar (p : Char → Prop) (c : Char) : Prop := Dimension.isMark c ∨ c = ' ' ∨ p c

/-- The key is a word, and the literal a text of literal characters, in single quotes or not. Only
the weight of a font is not in quotes: it is a number. -/
def Entry.IsPlain (p : Char → Prop) (entry : Entry) : Prop :=
  entry.1.IsWord
    ∧ ∃ t, (∀ c ∈ t, IsLiteralChar p c) ∧ (entry.2 = t ∨ entry.2 = quoted t)

section

variable {p : Char → Prop}

/-- A length is written with the characters of a dimension; those of its unit are letters. -/
theorem isLiteralChar_px (x : Binary64) : ∀ c ∈ px x, IsLiteralChar p c := by
  intro c hc
  left
  rcases List.mem_append.mp hc with hc | hc
  · exact Dimension.isMark_of_mem_write hc
  · have hall : "px".toList.all Dimension.isMark = true := by decide
    exact List.all_eq_true.mp hall c hc

/-- An entry whose literal is in quotes. -/
theorem isPlain_quoted {key t : Text} (hkey : key.IsWord) (ht : ∀ c ∈ t, IsLiteralChar p c) :
    Entry.IsPlain p (key, quoted t) :=
  ⟨hkey, t, ht, .inr rfl⟩

/-- An entry for a length. -/
theorem isPlain_px {key : Text} (hkey : key.IsWord) (x : Binary64) :
    Entry.IsPlain p (key, quoted (px x)) :=
  isPlain_quoted hkey (isLiteralChar_px x)

/-- An entry for a word of letters, as the values of a layout are. -/
theorem isPlain_word {key : Text} (hkey : key.IsWord) (word : Text) (hword : word.IsWord) :
    Entry.IsPlain p (key, quoted word) := by
  refine isPlain_quoted hkey ?_
  intro c hc
  have hletter : isLetter c = true := hword c hc
  exact .inl (by simp [Dimension.isMark, isAlphanumeric, hletter])

/-- The entries for the axis of a container are plain. -/
theorem isPlain_axisEntries (axis : Axis) : ∀ e ∈ axisEntries axis, e.IsPlain p := by
  have hposition : Entry.IsPlain p ("position".toList, "'relative'".toList) :=
    isPlain_word (by decide) "relative".toList (by decide)
  have hdisplay : Entry.IsPlain p ("display".toList, "'flex'".toList) :=
    isPlain_word (by decide) "flex".toList (by decide)
  have hcolumn : Entry.IsPlain p ("flexDirection".toList, "'column'".toList) :=
    isPlain_word (by decide) "column".toList (by decide)
  have hrow : Entry.IsPlain p ("flexDirection".toList, "'row'".toList) :=
    isPlain_word (by decide) "row".toList (by decide)
  cases axis with
  | vertical =>
    simp only [axisEntries, List.forall_mem_cons]
    exact ⟨hdisplay, hcolumn, hposition, by simp⟩
  | horizontal =>
    simp only [axisEntries, List.forall_mem_cons]
    exact ⟨hdisplay, hrow, hposition, by simp⟩
  | none =>
    simp only [axisEntries, List.forall_mem_cons]
    exact ⟨hposition, by simp⟩

/-- The entries for an attribute are plain. Besides dimensions and fixed words they hold the texts
of the attribute, so these have to have the property. -/
theorem isPlain_entries {a : Attribute Text} (h : ∀ t ∈ a.texts, ∀ c ∈ t, p c) :
    ∀ e ∈ entries a, e.IsPlain p := by
  have htaken : ∀ t ∈ a.texts, ∀ c ∈ t, IsLiteralChar p c :=
    fun t ht c hc => .inr (.inr (h t ht c hc))
  cases a with
  | size width height =>
    simp only [entries, List.forall_mem_cons]
    exact ⟨isPlain_px (by decide) width, isPlain_px (by decide) height, by simp⟩
  | background color =>
    simp only [entries, List.forall_mem_cons]
    exact ⟨isPlain_quoted (by decide) (htaken color (by simp [Attribute.texts])), by simp⟩
  | border color width radius =>
    -- The width, the word and the colour are one literal, with blanks between them.
    have hline : ∀ c ∈ px width ++ " solid ".toList ++ color, IsLiteralChar p c := by
      have hsolid : " solid ".toList.all (fun c => Dimension.isMark c || c = ' ') = true := by
        decide
      intro c hc
      rcases List.mem_append.mp hc with hc | hc
      · rcases List.mem_append.mp hc with hc | hc
        · exact isLiteralChar_px width c hc
        · rcases Bool.or_eq_true_iff.mp (List.all_eq_true.mp hsolid c hc) with hmark | hspace
          · exact .inl hmark
          · exact .inr (.inl (of_decide_eq_true hspace))
      · exact htaken color (by simp [Attribute.texts]) c hc
    simp only [entries, List.forall_mem_cons]
    refine ⟨isPlain_quoted (by decide) hline, ?_⟩
    split
    · simp
    · simp only [List.forall_mem_cons]
      exact ⟨isPlain_px (by decide) radius, by simp⟩
  | cornerRadius radius =>
    simp only [entries, List.forall_mem_cons]
    exact ⟨isPlain_px (by decide) radius, isPlain_word (by decide) "hidden".toList (by decide),
      by simp⟩
  | padding sides =>
    have hsides : ∀ c ∈ joinWith [' ']
        [px sides.top, px sides.right, px sides.bottom, px sides.left], IsLiteralChar p c := by
      refine forall_mem_joinWith (by simp [IsLiteralChar]) ?_
      simp only [List.forall_mem_cons]
      exact ⟨isLiteralChar_px sides.top, isLiteralChar_px sides.right,
        isLiteralChar_px sides.bottom, isLiteralChar_px sides.left, by simp⟩
    simp only [entries, List.forall_mem_cons]
    exact ⟨isPlain_quoted (by decide) hsides, by simp⟩
  | spacing gap =>
    simp only [entries, List.forall_mem_cons]
    exact ⟨isPlain_px (by decide) gap, by simp⟩
  | offset x y =>
    simp only [entries, List.forall_mem_cons]
    exact ⟨isPlain_word (by decide) "absolute".toList (by decide), isPlain_px (by decide) x,
      isPlain_px (by decide) y, by simp⟩
  | textColor color =>
    simp only [entries, List.forall_mem_cons]
    exact ⟨isPlain_quoted (by decide) (htaken color (by simp [Attribute.texts])), by simp⟩
  | fontSize size =>
    simp only [entries, List.forall_mem_cons]
    exact ⟨isPlain_px (by decide) size, by simp⟩
  | fontWeight word =>
    -- The weight is the one literal that may stand without quotes and is no dimension.
    have hkey : IsWord "fontWeight".toList := by decide
    simp only [entries, List.forall_mem_cons]
    exact ⟨⟨hkey, word, htaken word (by simp [Attribute.texts]), .inl rfl⟩, by simp⟩

/-- What a style that is there holds: plain entries between its braces. This is the form that the
proofs about lines and brackets start from. -/
theorem exists_of_style? {all : List Entry} (hall : ∀ e ∈ all, e.IsPlain p) {style : Text}
    (h : style? all = some style) :
    ∃ merged : List Entry, (∀ e ∈ merged, e.IsPlain p)
      ∧ style = "style=\x7b\x7b ".toList
        ++ joinWith ", ".toList (merged.map fun entry => entry.1 ++ ": ".toList ++ entry.2)
        ++ " \x7d\x7d".toList := by
  rw [style?] at h
  split at h
  · cases h
  · cases h
    exact ⟨merge all, fun e he => hall e (mem_of_mem_merge he), rfl⟩

/-- The entries of a leaf are plain. -/
theorem isPlain_flatMap_entries {attributes : List (Attribute Text)}
    (h : Attribute.TextsIn p attributes) : ∀ e ∈ attributes.flatMap entries, e.IsPlain p := by
  intro e he
  obtain ⟨a, ha, he⟩ := List.mem_flatMap.mp he
  exact isPlain_entries (h a ha) e he

/-- The entries of a container are plain: those of its axis come first, then those of its
attributes. -/
theorem isPlain_containerEntries {axis : Axis} {attributes : List (Attribute Text)}
    (h : Attribute.TextsIn p attributes) :
    ∀ e ∈ axisEntries axis ++ attributes.flatMap entries, e.IsPlain p := by
  intro e he
  rcases List.mem_append.mp he with he | he
  · exact isPlain_axisEntries axis e he
  · exact isPlain_flatMap_entries h e he

end

end DesignCompiler.React
