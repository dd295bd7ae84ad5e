import Mathlib.Data.List.Nodup
import DesignCompiler.Proofs.Extraction.Translation
import DesignCompiler.Proofs.Text.Trim

/-!
# `DesignCompiler.Proofs.Extraction.Pages`: a file page by page

The pages of a file can be extracted one after the other, or all at once with the whole file. Both
ways lead to the same trees: `ofFile_pages` says that the extraction of each page gives the node
that the page has in the tree of the whole file, with nothing to warn of, and that the numbers of
nodes add up.

This is so where nothing is cut off, and where the document root is like `Drawing.HasPages`. Nodes
are placed relative to the layer around them, and a page that is extracted alone has no such layer;
so the root has to start at zero. And a page is found by its identifier, so no other page may have
it; a hyphen in it could be read as a colon.

A walk that starts at a page has another place and another budget than the walk that comes by it.
Neither matters for a translation that goes through, which is why the proof compares translations
and leaves the walks to `ofSelection_some`.
-/

set_option autoImplicit false

namespace DesignCompiler

open Outcome

namespace Drawing

/-- The children of a layer are translated one by one, each at its own position. None of them
depends on another, which is why a page can be taken out. -/
theorem getElem?_translateAll {place : Place} {origin : Origin} {position : Nat}
    {drawings : List Drawing} {nodes : List Node}
    (h : translateAll place origin position drawings = .ok nodes) :
    nodes.length = drawings.length
      ∧ ∀ (i : Nat) (drawing : Drawing) (node : Node), drawings[i]? = some drawing →
        nodes[i]? = some node →
          drawing.translate (place.child (position + i)) origin = .ok node := by
  induction drawings generalizing position nodes with
  | nil =>
    rw [translateAll, Except.ok.injEq] at h
    subst h
    exact ⟨rfl, by simp⟩
  | cons first rest ih =>
    simp only [translateAll, bind_eq_ok, pure_eq, Except.ok.injEq] at h
    obtain ⟨top, htop, others, hothers, rfl⟩ := h
    obtain ⟨hlength, hnodes⟩ := ih hothers
    refine ⟨by rw [List.length_cons, List.length_cons, hlength], ?_⟩
    intro i drawing node hdrawing hnode
    cases i with
    | zero =>
      rw [List.getElem?_cons_zero, Option.some.injEq] at hdrawing hnode
      subst hdrawing hnode
      exact htop
    | succ i =>
      rw [List.getElem?_cons_succ] at hdrawing hnode
      -- Counted from the next position, it is one place nearer.
      rw [show position + (i + 1) = position + 1 + i by omega]
      exact hnodes i drawing node hdrawing hnode

/-- The box of a layer gives no position, or zero. A box that is missing gives none either. -/
def StartsAtZero (fields : Json.Fields) : Prop :=
  ∀ box, Json.fieldOrNull fields "absoluteBoundingBox".toList = .object box →
    (Json.fieldOrNull box "x".toList).isBlank = true
      ∧ (Json.fieldOrNull box "y".toList).isBlank = true

/-- A layer that starts at zero has the origin of the whole file, which is what an extraction begins
with. -/
theorem StartsAtZero.originAt_eq {fields : Json.Fields} (h : StartsAtZero fields) {place : Place}
    {origin : Origin} (horigin : originAt fields place = .ok origin) : origin = .zero := by
  obtain ⟨box, hbox, rfl⟩ := map_eq_ok.mp horigin
  rw [boxAt, objectAt] at hbox
  split at hbox
  · -- Without a box both numbers are missing.
    cases hbox
    rfl
  · next inside hinside =>
    cases hbox
    obtain ⟨hx, hy⟩ := h box hinside
    rw [boxOrigin, numberAt, numberAt, Json.orIfBlank, Json.orIfBlank, if_pos hx, if_pos hy]
    rfl
  · cases hbox

/-- A document root that starts at zero, with pages that can be told apart by their identifiers. -/
structure HasPages (root : Drawing) (pages : List Drawing) : Prop where
  children_eq : root.children = .ok pages
  /-- The box of the root gives no position, or zero. -/
  box_blank : ∀ box, Json.fieldOrNull root.fields "absoluteBoundingBox".toList = .object box →
    (Json.fieldOrNull box "x".toList).isBlank = true
      ∧ (Json.fieldOrNull box "y".toList).isBlank = true
  /-- Each page has a text for its identifier, which is not empty and holds no hyphen. -/
  id_eq : ∀ page ∈ pages, ∃ id, Json.field? page.fields "id".toList = some (.text id)
    ∧ id ≠ [] ∧ '-' ∉ id
  nodup : (pages.map pageId).Nodup

namespace HasPages

variable {root : Drawing} {pages : List Drawing}

/-- A root whose pages can be read is no broken layer, and its children are the pages. -/
theorem exists_eq_sound (h : root.HasPages pages) : ∃ fields, root = .sound fields pages := by
  have hchildren := h.children_eq
  cases root with
  | sound fields children =>
    cases hchildren
    exact ⟨fields, rfl⟩
  | broken fields obstacle => cases hchildren

/-- The identifier of a page is not empty and is read as it is: asking for it asks for this page,
and not for the whole file. -/
theorem pageId_plain (h : root.HasPages pages) {page : Drawing} (hpage : page ∈ pages) :
    page.pageId ≠ [] ∧ Text.replaceChar '-' ':' page.pageId = page.pageId := by
  obtain ⟨id, hid, hne, hplain⟩ := h.id_eq page hpage
  have hpageId : page.pageId = id := by
    rw [pageId, pageLabel, hid, Option.getD_some, Json.shown]
  rw [hpageId]
  exact ⟨hne, Text.replaceChar_eq_self ':' hplain⟩

/-- The page with the identifier of one of the pages is that page. A page before it would be found
first, and there is none with the identifier. -/
theorem selectPage_eq (h : root.HasPages pages) {i : Nat} {page : Drawing}
    (hpage : pages[i]? = some page) :
    selectPage page.pageId pages = (some ⟨page, rootPlace.child i, true⟩, []) := by
  obtain ⟨hi, hget⟩ := List.getElem?_eq_some_iff.mp hpage
  obtain ⟨-, hplain⟩ := h.pageId_plain (List.mem_of_getElem? hpage)
  have hfind : pages.findIdx? (isPage page.pageId) = some i := by
    rw [List.findIdx?_eq_some_iff_getElem]
    refine ⟨hi, by simp [hget, isPage], ?_⟩
    intro j hj
    -- No page before this one has the same identifier.
    have hne : (pages[j]).pageId ≠ page.pageId := by
      intro hsame
      have hapart := h.nodup
      rw [List.Nodup, List.pairwise_map, List.pairwise_iff_getElem] at hapart
      exact hapart j i _ hi hj (hget ▸ hsame)
    simp [isPage, hplain, hne]
  simp only [selectPage, hfind, hpage, Option.map_some]

end HasPages

end Drawing

namespace Extraction

-- The numbers of nodes are summed as the numbers of layers are.
open scoped Drawing

/-- A chosen layer that is translated, and has no more layers than the limit, is extracted without a
warning. Every part of the extraction is known then. -/
theorem ofSelection_of_translate {limit : Int} {warnings : List Warning} {selection : Selection}
    {node : Node} (htranslate : selection.drawing.translate selection.place .zero = .ok node)
    (hsize : selection.drawing.size ≤ limit.toNat) :
    ofSelection limit warnings (some selection)
      = .ok ⟨some node, selection.drawing.size, false, warnings,
          if selection.isPage then some selection.drawing.pageId else none⟩ := by
  have hpos := selection.drawing.size_pos
  obtain ⟨budget, hbudget⟩ : ∃ budget, limit.toNat = budget + 1 := ⟨limit.toNat - 1, by omega⟩
  obtain ⟨s, hs, hcheck⟩ := (Drawing.translate_eq_ok _ _ node _).mp htranslate
  rw [ofSelection_some, hbudget, Drawing.first?_succ, Drawing.pruned_eq_self (by omega)]
  dsimp only
  rw [hs, ok_bind, hcheck, ok_bind, pure_eq, Drawing.size_of_sketch _ _ s _ hs]
  simp [show ¬ budget + 1 < selection.drawing.size by omega]

/-- Where nothing is cut off, the chosen layer is translated as a whole. It is the way back from an
extraction to a translation, in which pages can be compared. -/
theorem translate_of_ofSelection {limit : Int} {warnings : List Warning} {selection : Selection}
    {t : Extraction} (h : ofSelection limit warnings (some selection) = .ok t)
    (hcut : t.isCut = false) :
    selection.drawing.size ≤ limit.toNat
      ∧ ∃ node, selection.drawing.translate selection.place .zero = .ok node
        ∧ t.root = some node := by
  have htranslation := isTranslation_some h
  have hlength : (Selection.layers (some selection)).length = selection.drawing.size :=
    Drawing.length_preorder 0 selection.drawing
  -- Nothing was cut, so the drawing is within the limit, and pruning it changes nothing.
  have hsize : selection.drawing.size ≤ limit.toNat := by
    have hnot := mt htranslation.isCut_iff.mpr (by rw [hcut]; exact Bool.false_ne_true)
    omega
  refine ⟨hsize, ?_⟩
  have hpos := selection.drawing.size_pos
  obtain ⟨budget, hbudget⟩ : ∃ budget, limit.toNat = budget + 1 := ⟨limit.toNat - 1, by omega⟩
  have hroot := htranslation.root_eq
  simp only [Option.bind_some, hbudget, Drawing.first?_succ, Option.map_some,
    Drawing.pruned_eq_self (by omega : selection.drawing.size ≤ budget + 1)] at hroot
  obtain ⟨node, hnode, htranslate⟩ := Option.map_eq_some_iff.mp hroot
  exact ⟨node, htranslate.symm, hnode⟩

/-- A page that is asked for by its identifier is the layer that is chosen, and no warning comes
with it. -/
theorem ofFile_text_pageId {file : Json} {root : Drawing} {pages : List Drawing}
    (hroot : Drawing.ofFile file = .ok root) (hpages : root.HasPages pages) {i : Nat}
    {page : Drawing} (hpage : pages[i]? = some page) (limit : Int) :
    ofFile file (.text page.pageId) limit
      = ofSelection limit [] (some ⟨page, Drawing.rootPlace.child i, true⟩) := by
  obtain ⟨hne, -⟩ := hpages.pageId_plain (List.mem_of_getElem? hpage)
  have hwanted : (Json.text page.pageId).isBlank = false := by simpa [Json.isBlank] using hne
  have hselect : root.select (.text page.pageId)
      = .ok (some ⟨page, Drawing.rootPlace.child i, true⟩, []) := by
    rw [Drawing.select, hwanted, Drawing.visitChildren, hpages.children_eq]
    simp [hpages.selectPage_eq hpage]
  rw [ofFile, hroot, ok_bind, ofDrawing, hselect, ok_bind]

/-- What there is to say of a page whose node is known. The extractions of the pages are given by
this, so nothing has to be chosen in the proof. -/
def ofPage (page : Drawing) (node : Node) : Extraction :=
  ⟨some node, page.size, false, [], some page.pageId⟩

/-- A page extracted alone: it gives the node that the page has in the tree of the whole file, and
nothing to warn of. -/
structure IsPage (file : Json) (limit : Int) (page : Drawing) (node : Node) (part : Extraction) :
    Prop where
  extracted : ofFile file (.text page.pageId) limit = .ok part
  warnings_eq : part.warnings = []
  roots_eq : part.roots = [node]
  page_eq : part.page = some page.pageId

/-- Extracting a file page by page gives the trees that the pages have in the tree of the whole
file, and as many nodes in all, not counting the document root. -/
theorem ofFile_pages {file : Json} {limit : Int} {root : Drawing} {pages : List Drawing}
    {whole : Extraction} (hroot : Drawing.ofFile file = .ok root) (hpages : root.HasPages pages)
    (h : ofFile file .null limit = .ok whole) (hcut : whole.isCut = false) :
    ∃ (layer : Layer) (nodes : List Node) (parts : List Extraction),
      whole.roots = [.mk layer nodes]
        ∧ nodes.length = pages.length ∧ parts.length = pages.length
        ∧ (∀ (i : Nat) (page : Drawing) (node : Node) (part : Extraction), pages[i]? = some page →
            nodes[i]? = some node → parts[i]? = some part → IsPage file limit page node part)
        ∧ whole.count = 1 + (parts.map count).sum := by
  rw [ofFile, hroot, ok_bind, ofDrawing_null] at h
  obtain ⟨hsize, top, htop, hwhole⟩ := translate_of_ofSelection h hcut
  have hcount : whole.count = root.size := by
    rw [ofSelection_of_translate htop hsize, Except.ok.injEq] at h
    rw [← h]
  -- The pages are the children of the root, so they are translated with it.
  obtain ⟨fields, rfl⟩ := hpages.exists_eq_sound
  rw [Drawing.translate] at htop
  obtain ⟨layer, -, htop⟩ := bind_eq_ok.mp htop
  obtain ⟨inner, hinner, htop⟩ := bind_eq_ok.mp htop
  obtain ⟨nodes, hnodes, htop⟩ := bind_eq_ok.mp htop
  cases htop
  -- The root starts at zero, so the pages were translated at the same origin as they are alone.
  obtain rfl := Drawing.StartsAtZero.originAt_eq hpages.box_blank hinner
  obtain ⟨hlength, htranslate⟩ := Drawing.getElem?_translateAll hnodes
  rw [Drawing.size_sound] at hsize hcount
  refine ⟨layer, nodes, (pages.zip nodes).map fun entry => ofPage entry.1 entry.2,
    by rw [roots, hwhole]; rfl, hlength, ?_, ?_, ?_⟩
  · rw [List.length_map, List.length_zip, hlength, Nat.min_self]
  · intro i page node part hpage hnode hpart
    have hpart : part = ofPage page node := by
      have hentry : (pages.zip nodes)[i]? = some (page, node) :=
        List.getElem?_zip_eq_some.mpr ⟨hpage, hnode⟩
      rw [List.getElem?_map, hentry, Option.map_some, Option.some.injEq] at hpart
      exact hpart.symm
    subst hpart
    refine ⟨?_, rfl, rfl, rfl⟩
    -- The page alone has fewer layers than the whole file, so it is not cut either.
    have hfits := Drawing.size_le_sizeAll (List.mem_of_getElem? hpage)
    have hnode := htranslate i page node hpage hnode
    rw [Nat.zero_add] at hnode
    rw [ofFile_text_pageId hroot hpages hpage,
      ofSelection_of_translate hnode (by dsimp only; omega)]
    rfl
  · have hsizes : ((pages.zip nodes).map fun entry => ofPage entry.1 entry.2).map count
        = pages.map Drawing.size := by
      calc _ = ((pages.zip nodes).map Prod.fst).map Drawing.size := by
            rw [List.map_map, List.map_map]
            rfl
        _ = pages.map Drawing.size := by rw [List.map_fst_zip (Nat.le_of_eq hlength.symm)]
    rw [hcount, hsizes, Drawing.sizeAll_eq_sum, Nat.add_comm]

/-- The two pages of a file are extracted one by one. -/
theorem twoPages_pages : ∃ root pages whole, Drawing.ofFile twoPages = .ok root
    ∧ root.HasPages pages ∧ ofFile twoPages .null usualLimit = .ok whole ∧ whole.isCut = false
    ∧ ∃ (layer : Layer) (nodes : List Node) (parts : List Extraction),
      whole.roots = [.mk layer nodes]
        ∧ nodes.length = pages.length ∧ parts.length = pages.length
        ∧ (∀ (i : Nat) (page : Drawing) (node : Node) (part : Extraction), pages[i]? = some page →
            nodes[i]? = some node → parts[i]? = some part →
              IsPage twoPages usualLimit page node part)
        ∧ whole.count = 1 + (parts.map count).sum := by
  have huncut : (ofFile twoPages .null usualLimit).toOption.map isCut = some false := by
    decide +kernel
  obtain ⟨whole, hwhole, hcut⟩ := Option.map_eq_some_iff.mp huncut
  have hwhole := toOption_eq_some.mp hwhole
  obtain ⟨root, hroot⟩ : ∃ root, Drawing.ofFile twoPages = .ok root := ⟨_, rfl⟩
  -- The root starts at zero, and each page has an identifier of its own.
  obtain ⟨pages, hpages⟩ : ∃ pages, root.HasPages pages := by
    cases hroot
    refine ⟨_, rfl, ?_, ?_, by decide +kernel⟩
    · intro box hbox
      cases hbox
      decide
    · intro page hpage
      rcases hpage with _ | ⟨_, _ | ⟨_, ⟨⟩⟩⟩
      · exact ⟨"1:0".toList, rfl, by decide, by decide⟩
      · exact ⟨"2:0".toList, rfl, by decide, by decide⟩
  exact ⟨root, pages, whole, hroot, hpages, hwhole, hcut, ofFile_pages hroot hpages hwhole hcut⟩

end Extraction

end DesignCompiler
