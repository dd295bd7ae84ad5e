import DesignCompiler.Layout.Decoder
import DesignCompiler.Proofs.Outcome
import DesignCompiler.Render.Attribute

/-!
# `DesignCompiler.Proofs.Render.Attribute`: the texts that code takes over as they are

Texts and names are escaped on their way into code. Colours and the words for font weights are not:
they stand there character by character. So what holds of every character of a colour of a tree, and
of every character of a word for a weight, holds of every character that is taken over
(`textsIn_of_spell`).
-/

set_option autoImplicit false

namespace DesignCompiler

/-- The colours of a layer. They are the only texts of a layer that code takes over as they are. -/
def Layer.colors (l : Layer) : List Text :=
  l.backgroundColor.toList ++ l.borderColor.toList ++ l.textColor.toList

mutual

/-- The colours of a tree, those of all its layers. -/
def Node.colors : Node → List Text
  | .mk layer children => layer.colors ++ Node.colorsAll children

/-- The colours of the trees of a list. -/
def Node.colorsAll : List Node → List Text
  | [] => []
  | node :: rest => Node.colors node ++ Node.colorsAll rest

end

/-- The colours of a node are its own and those of the nodes inside it. -/
theorem Node.mem_colors_mk {t : Text} {l : Layer} {children : List Node} :
    t ∈ (Node.mk l children).colors ↔ t ∈ l.colors ∨ t ∈ Node.colorsAll children := by
  rw [Node.colors, List.mem_append]

/-- The colours of a list of trees, tree by tree. -/
theorem Node.mem_colorsAll_cons {t : Text} {node : Node} {rest : List Node} :
    t ∈ Node.colorsAll (node :: rest) ↔ t ∈ node.colors ∨ t ∈ Node.colorsAll rest := by
  rw [Node.colorsAll, List.mem_append]

/-- The colours of the trees of a list are those of each. -/
theorem Node.mem_colorsAll {t : Text} {nodes : List Node} :
    t ∈ Node.colorsAll nodes ↔ ∃ node ∈ nodes, t ∈ node.colors := by
  induction nodes with
  | nil => simp [Node.colorsAll]
  | cons node rest ih =>
    rw [Node.mem_colorsAll_cons, ih]
    simp

namespace FontWeight

/-- The characters of the words for font weights: letters, digits and the point. Every word is one
of the table, also that of an unknown weight. -/
theorem tokenWord_chars (platform : Platform) (token : Option Text) :
    ∀ c ∈ tokenWord platform token, Text.isAlphanumeric c || c = '.' := by
  have hrows : ∀ row ∈ rows, ∀ p ∈ Platform.all,
      (row.word p).all (fun c => Text.isAlphanumeric c || c = '.') = true := by decide +kernel
  have hregular : ∀ p ∈ Platform.all,
      (regularWord p).all (fun c => Text.isAlphanumeric c || c = '.') = true := by decide +kernel
  rw [tokenWord]
  split
  · next row hrow =>
    obtain ⟨t, _, hfind⟩ := Option.bind_eq_some_iff.mp hrow
    exact List.all_eq_true.mp
      (hrows row (List.mem_of_find?_eq_some hfind) platform platform.mem_all)
  · exact List.all_eq_true.mp (hregular platform platform.mem_all)

end FontWeight

namespace Attribute

/-- The texts of a spelled attribute: its colour, or the word of its weight. -/
def texts : Attribute Text → List Text
  | .background c | .border c _ _ | .textColor c => [c]
  | .fontWeight word => [word]
  | .size .. | .cornerRadius _ | .padding _ | .spacing _ | .offset .. | .fontSize _ => []

/-- The colours of an attribute. These are its texts before the weight is spelled. -/
def colors {ω : Type} : Attribute ω → List Text
  | .background c | .border c _ _ | .textColor c => [c]
  | .size .. | .cornerRadius _ | .padding _ | .spacing _ | .offset .. | .fontSize _
  | .fontWeight _ => []

/-- A text that is there and not empty is there. -/
theorem eq_some_of_filled? {t : Option Text} {u : Text} (h : filled? t = some u) : t = some u :=
  (Option.filter_eq_some_iff.mp h).1

/-- The colour of an attribute made from a text that may be there is that text, if it is not empty.
-/
theorem mem_of_filled? {t : Option Text} {make : Text → Attribute FontWeight}
    (hmake : ∀ u, (make u).colors = [u]) {a : Attribute FontWeight}
    (ha : a ∈ ((filled? t).map make).toList) {c : Text} (hc : c ∈ a.colors) : c ∈ t.toList := by
  obtain ⟨found, hfound, rfl⟩ := Option.map_eq_some_iff.mp (Option.mem_toList.mp ha)
  rw [hmake, List.mem_singleton] at hc
  rw [hc, Option.mem_toList]
  exact eq_some_of_filled? hfound

/-- The colour of the edge of a layer is that of its border. -/
theorem mem_colors_of_edge {l : Layer} {a : Attribute FontWeight} (ha : a ∈ edge l) {c : Text}
    (hc : c ∈ a.colors) : c ∈ l.borderColor.toList := by
  rw [edge] at ha
  split at ha
  · next found hfound =>
    rw [List.mem_singleton.mp ha] at hc
    rw [borderOf] at hfound
    split at hfound
    · next color width hcolor hwidth =>
      cases hfound
      rw [List.mem_singleton.mp hc, Option.mem_toList]
      exact eq_some_of_filled? hcolor
    · cases hfound
  · obtain ⟨radius, _, rfl⟩ := Option.map_eq_some_iff.mp (Option.mem_toList.mp ha)
    cases hc

/-- The colours of attributes are colours of their layer. Nothing else of a layer gets into an
attribute as a text. -/
theorem mem_colors_of_collect {l : Layer} {role : Role} {axis : Option Axis}
    {a : Attribute FontWeight} (ha : a ∈ collect l role axis) {c : Text} (hc : c ∈ a.colors) :
    c ∈ l.colors := by
  simp only [Layer.colors, List.mem_append]
  -- Of the seven groups of attributes only background, edge and text have colours.
  simp only [collect, List.mem_append] at ha
  rcases ha with (((((hsize | hback) | hedge) | hpadding) | hspacing) | hoffset) | htext
  · split at hsize
    · rw [List.mem_singleton.mp hsize] at hc
      cases hc
    · cases hsize
  · exact .inl (.inl (mem_of_filled? (fun _ => rfl) hback hc))
  · exact .inl (.inr (mem_colors_of_edge hedge hc))
  · obtain ⟨sides, _, rfl⟩ := Option.map_eq_some_iff.mp (Option.mem_toList.mp hpadding)
    cases hc
  · split at hspacing
    · cases hspacing
    · obtain ⟨gap, _, rfl⟩ := Option.map_eq_some_iff.mp (Option.mem_toList.mp hspacing)
      cases hc
  · split at hoffset
    · cases hoffset
    · rw [List.mem_singleton.mp hoffset] at hc
      cases hc
  · split at htext
    · simp only [ofText, List.mem_append] at htext
      rcases htext with (hcolor | hsize) | hweight
      · exact .inr (mem_of_filled? (fun _ => rfl) hcolor hc)
      · obtain ⟨size, _, rfl⟩ := Option.map_eq_some_iff.mp (Option.mem_toList.mp hsize)
        cases hc
      · obtain ⟨weight, _, rfl⟩ := Option.map_eq_some_iff.mp (Option.mem_toList.mp hweight)
        cases hc
    · cases htext

/-- A spelled attribute comes from one that is not, at the same place in the list. -/
theorem exists_of_mem_spell {platform : Platform} {attributes : List (Attribute FontWeight)}
    {spelled : List (Attribute Text)} (h : spell platform attributes = .ok spelled)
    {b : Attribute Text} (hb : b ∈ spelled) :
    ∃ a ∈ attributes, spellOne platform a = .ok b := by
  induction attributes generalizing spelled with
  | nil =>
    cases h
    cases hb
  | cons first rest ih =>
    rw [spell] at h
    obtain ⟨word, hfirst, h⟩ := Outcome.bind_eq_ok.mp h
    obtain ⟨others, hrest, h⟩ := Outcome.bind_eq_ok.mp h
    cases h
    rcases List.mem_cons.mp hb with rfl | hb
    · exact ⟨first, by simp, hfirst⟩
    · obtain ⟨a, ha, hone⟩ := ih hrest hb
      exact ⟨a, List.mem_cons_of_mem _ ha, hone⟩

/-- Spelling keeps colours and puts in the words of font weights. -/
theorem texts_of_spellOne {platform : Platform} {a : Attribute FontWeight} {b : Attribute Text}
    (h : spellOne platform a = .ok b) {t : Text} (ht : t ∈ b.texts) :
    t ∈ a.colors ∨ ∃ token, t = FontWeight.tokenWord platform token := by
  cases a with
  | fontWeight weight =>
    obtain ⟨word, hword, rfl⟩ := Outcome.map_eq_ok.mp h
    obtain ⟨token, _, rfl⟩ := Outcome.map_eq_ok.mp hword
    exact .inr ⟨token, List.mem_singleton.mp ht⟩
  | background c | border c _ _ | textColor c =>
    cases h
    exact .inl ht
  | size _ _ | cornerRadius _ | padding _ | spacing _ | offset _ _ | fontSize _ =>
    cases h
    cases ht

/-- Every character of the texts of some attributes has a property. The properties in use are to be
ordinary for the scanner, and to be no line feed. -/
def TextsIn (p : Char → Prop) (attributes : List (Attribute Text)) : Prop :=
  ∀ a ∈ attributes, ∀ t ∈ a.texts, ∀ c ∈ t, p c

/-- What holds of the characters of colours and of words for weights holds of every character that
is taken over. -/
theorem textsIn_of_spell {p : Char → Prop} (hword : ∀ c, Text.isAlphanumeric c || c = '.' → p c)
    {platform : Platform} {l : Layer} (hcolors : ∀ t ∈ l.colors, ∀ c ∈ t, p c) {role : Role}
    {axis : Option Axis} {spelled : List (Attribute Text)}
    (h : spell platform (collect l role axis) = .ok spelled) : TextsIn p spelled := by
  intro b hb t ht c hc
  obtain ⟨a, ha, hone⟩ := exists_of_mem_spell h hb
  rcases texts_of_spellOne hone ht with hcolor | ⟨token, rfl⟩
  · exact hcolors t (mem_colors_of_collect ha hcolor) c hc
  · exact hword c (FontWeight.tokenWord_chars platform token c hc)

end Attribute

end DesignCompiler
