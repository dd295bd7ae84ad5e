import DesignCompiler.Proofs.Extraction.Budget
import DesignCompiler.Proofs.Extraction.Faults
import DesignCompiler.Proofs.Extraction.Pages

/-!
# `DesignCompiler.Proofs.Extraction.Selection`: the page that an identifier selects

A page is looked for by its identifier. If one has it, the first such page is extracted and nothing
is said about it; if none has it, the first page of all takes its place, and a warning says so
(`Drawing.selectPage_cases`). So the page that an extraction tells, together with its warnings,
shows whether the identifier was found (`Extraction.isFrom_iff`). Hyphens are read in two ways, and
the identifiers here have none.

Whether there is an extraction at all is another question. A file that goes through as a whole goes
through page by page, as a page is translated in the whole file too (`Extraction.exists_ofFile`).
Only the position of the page itself differs: it is measured from the document root there.
-/

set_option autoImplicit false

namespace DesignCompiler

open Outcome

/-- A warning that the wanted page is not there. The warning about the limit is none. -/
def Warning.missesPage : Warning → Bool
  | .noPages _ | .firstPage .. => true
  | .cut _ => false

namespace Drawing

/-- An identifier without hyphens is looked for as it is: both readings of it are the same then. -/
theorem isPage_iff {wanted : Text} (hwanted : Text.replaceChar '-' ':' wanted = wanted)
    {page : Drawing} : isPage wanted page = true ↔ page.pageId = wanted := by
  simp [isPage, hwanted]

/-- Either a page with the wanted identifier is selected, with nothing to say, or there is none and
a warning says so. The warning is the only sign by which the two can be told apart from outside. -/
theorem selectPage_cases (wanted : Text) (pages : List Drawing) :
    (∃ (position : Nat) (page : Drawing), pages[position]? = some page ∧ isPage wanted page = true
        ∧ selectPage wanted pages = (some ⟨page, rootPlace.child position, true⟩, []))
      ∨ (∀ page ∈ pages, isPage wanted page = false)
        ∧ ∃ warning, (selectPage wanted pages).2 = [warning] ∧ warning.missesPage = true := by
  cases hfind : pages.findIdx? (isPage wanted) with
  | some position =>
    obtain ⟨hlt, hfound, -⟩ := List.findIdx?_eq_some_iff_getElem.mp hfind
    have hpage : pages[position]? = some pages[position] := List.getElem?_eq_getElem hlt
    refine .inl ⟨position, _, hpage, hfound, ?_⟩
    simp only [selectPage, hfind, hpage, Option.map_some]
  | none =>
    refine .inr ⟨List.findIdx?_eq_none_iff.mp hfind, ?_⟩
    cases pages with
    | nil => exact ⟨_, rfl, rfl⟩
    | cons first rest => exact ⟨_, by simp only [selectPage, hfind]; rfl, rfl⟩

/-- A page with an identifier is looked for among the children of the root. The empty identifier is
excluded, as it stands for no page. -/
theorem select_text {wanted : Text} (hne : wanted ≠ []) (root : Drawing) :
    root.select (.text wanted)
      = (root.visitChildren rootPlace).map fun pages => selectPage wanted pages := by
  have hblank : (Json.text wanted).isBlank = false := by simpa [Json.isBlank] using hne
  rw [select, hblank]
  cases root.visitChildren rootPlace <;> rfl

/-- A page is looked for among the children of the root, which have to be layers. A root with broken
children has no selection of this kind. -/
theorem select_eq_ok {root : Drawing} {wanted : Text} (hne : wanted ≠ [])
    {choice : Option Selection} {warnings : List Warning}
    (h : root.select (.text wanted) = .ok (choice, warnings)) :
    ∃ pages, root.children = .ok pages ∧ selectPage wanted pages = (choice, warnings) := by
  rw [select_text hne] at h
  obtain ⟨pages, hpages, hselected⟩ := map_eq_ok.mp h
  cases root with
  | sound fields children =>
    cases hpages
    exact ⟨pages, rfl, hselected⟩
  | broken fields obstacle => exact absurd hpages (obstruct_ne_ok fields rootPlace obstacle pages)

/-- A drawing that can be translated inside a layer can be translated inside another one if its
outermost layer can. The layers inside are placed relative to the outermost one and never see what
is around that. -/
theorem exists_translate {drawing : Drawing} {place : Place} {origin other : Origin} {node : Node}
    {layer : Layer} (h : drawing.translate place origin = .ok node)
    (hlayer : translateLayer place other drawing.fields = .ok layer) :
    ∃ node', drawing.translate place other = .ok node' := by
  cases drawing with
  | sound fields children =>
    rw [translate] at h
    obtain ⟨_, -, h⟩ := bind_eq_ok.mp h
    obtain ⟨inner, hinner, h⟩ := bind_eq_ok.mp h
    obtain ⟨nodes, hnodes, -⟩ := bind_eq_ok.mp h
    rw [Drawing.fields] at hlayer
    exact ⟨.mk layer nodes, by rw [translate, hlayer, ok_bind, hinner, ok_bind, hnodes]; rfl⟩
  | broken fields obstacle => exact absurd h (obstruct_ne_ok fields place obstacle node)

/-- A page is translated with its root. Without it, its outermost layer has to have a position of
its own, as it has if the root starts at zero. -/
theorem exists_translate_page {fields : Json.Fields} {pages : List Drawing} {place : Place}
    {origin : Origin} {top : Node} (h : (sound fields pages).translate place origin = .ok top)
    {position : Nat} {page : Drawing} (hpage : pages[position]? = some page)
    (hposition : StartsAtZero fields
      ∨ ∃ layer, translateLayer (place.child position) .zero page.fields = .ok layer) :
    ∃ node, page.translate (place.child position) .zero = .ok node := by
  rw [translate] at h
  obtain ⟨_, -, h⟩ := bind_eq_ok.mp h
  obtain ⟨inner, hinner, h⟩ := bind_eq_ok.mp h
  obtain ⟨nodes, hnodes, -⟩ := bind_eq_ok.mp h
  obtain ⟨hlength, htranslate⟩ := getElem?_translateAll hnodes
  obtain ⟨hlt, -⟩ := List.getElem?_eq_some_iff.mp hpage
  have hnode := htranslate position page nodes[position] hpage
    (List.getElem?_eq_getElem (hlength ▸ hlt))
  rw [Nat.zero_add] at hnode
  -- At a root that starts at zero the page has the position that it has in the file.
  rcases hposition with hzero | ⟨layer, hlayer⟩
  · obtain rfl := hzero.originAt_eq hinner
    exact ⟨_, hnode⟩
  · exact exists_translate hnode hlayer

end Drawing

namespace Extraction

/-- An extraction that is from the page with an identifier and does not miss it. Both parts are
needed: a fallback tells a page as well. -/
structure IsFrom (t : Extraction) (id : Text) : Prop where
  page_eq : t.page = some id
  not_missed : ∀ warning ∈ t.warnings, warning.missesPage = false

/-- An extraction tells the page that was chosen and passes the warnings of the choice on. The walk
adds no warning about pages. -/
theorem ofSelection_tells {limit : Int} {warnings : List Warning} {choice : Option Selection}
    {t : Extraction} (h : ofSelection limit warnings choice = .ok t) :
    (t.page = choice.bind fun selection =>
        if selection.isPage then some selection.drawing.pageId else none)
      ∧ ∀ warning, warning.missesPage = true → (warning ∈ t.warnings ↔ warning ∈ warnings) := by
  cases choice with
  | none =>
    cases h
    exact ⟨rfl, fun _ _ => .rfl⟩
  | some selection =>
    rw [ofSelection] at h
    obtain ⟨walk, -, h⟩ := bind_eq_ok.mp h
    obtain ⟨root, -, h⟩ := bind_eq_ok.mp h
    cases h
    refine ⟨rfl, fun warning hmisses => ?_⟩
    -- The one warning that is added is about the limit and not about a page.
    rw [List.mem_append, or_iff_left]
    intro hcut
    split at hcut
    · cases List.mem_singleton.mp hcut
      cases hmisses
    · cases hcut

/-- The extraction is from the page with an identifier if this is what was wanted, and there is such
a page. The identifier that was wanted has no hyphens here, so it is read in one way only. -/
theorem isFrom_iff {file : Json} {root : Drawing} (hroot : Drawing.ofFile file = .ok root)
    {wanted : Text} (hwanted : Text.replaceChar '-' ':' wanted = wanted) {limit : Int}
    {t : Extraction} (h : ofFile file (.text wanted) limit = .ok t) {id : Text} :
    t.IsFrom id ↔ wanted = id ∧ wanted ≠ []
      ∧ ∃ pages, root.children = .ok pages ∧ ∃ page ∈ pages, page.pageId = id := by
  rw [ofFile, hroot, ok_bind, ofDrawing] at h
  obtain ⟨⟨choice, warnings⟩, hselect, h⟩ := bind_eq_ok.mp h
  obtain ⟨hpage, hwarnings⟩ := ofSelection_tells h
  by_cases hne : wanted = []
  · -- A blank identifier stands for the whole file, which is no page.
    subst hne
    cases hselect
    refine iff_of_false (fun hfrom => ?_) (fun hfound => hfound.2.1 rfl)
    cases hpage.symm.trans hfrom.page_eq
  obtain ⟨pages, hpages, hchoice⟩ := Drawing.select_eq_ok hne hselect
  rcases Drawing.selectPage_cases wanted pages with
    ⟨position, page, hposition, hfound, hselected⟩ | ⟨hnone, warning, hwarning, hmisses⟩
  · -- The page that was found has the wanted identifier and no other.
    rw [hchoice] at hselected
    cases hselected
    rw [Drawing.isPage_iff hwanted] at hfound
    have hpage : t.page = some wanted := by rw [hpage, ← hfound]; rfl
    constructor
    · intro hfrom
      obtain rfl := Option.some.inj (hpage.symm.trans hfrom.page_eq)
      exact ⟨rfl, hne, pages, hpages, page, List.mem_of_getElem? hposition, hfound⟩
    · rintro ⟨rfl, -⟩
      refine ⟨hpage, fun warning hmem => ?_⟩
      by_contra hmisses
      exact List.not_mem_nil ((hwarnings warning (Bool.not_eq_false _ ▸ hmisses)).mp hmem)
  · rw [hchoice] at hwarning
    refine iff_of_false (fun hfrom => ?_) ?_
    · have hmem : warning ∈ t.warnings := by
        rw [hwarnings warning hmisses, show warnings = [warning] from hwarning]
        exact List.mem_singleton_self warning
      rw [hfrom.not_missed warning hmem] at hmisses
      cases hmisses
    · rintro ⟨rfl, -, pages', hpages', page, hmem, hid⟩
      rw [hpages, Except.ok.injEq] at hpages'
      subst hpages'
      have hfound := (Drawing.isPage_iff hwanted).mpr hid
      rw [hnone page hmem] at hfound
      cases hfound

/-! ### Whether there is an extraction -/

/-- A chosen layer that can be translated is extracted with every limit, since a limit only leaves
layers out. -/
theorem exists_ofSelection {selection : Selection} {node : Node}
    (h : selection.drawing.translate selection.place .zero = .ok node) (limit : Int)
    (warnings : List Warning) : ∃ t, ofSelection limit warnings (some selection) = .ok t := by
  -- With a limit that is high enough nothing is left out; a lower one leaves out more.
  have hsize : selection.drawing.size ≤ (max limit selection.drawing.size).toNat := by omega
  obtain ⟨whole, hwhole⟩ : ∃ t,
      ofSelection (max limit selection.drawing.size) warnings (some selection) = .ok t :=
    ⟨_, ofSelection_of_translate h hsize⟩
  obtain ⟨t, ht, -⟩ := ofSelection_of_le (Int.le_max_left limit selection.drawing.size) hwhole
  exact ⟨t, ht⟩

/-- An extraction of one layer has read that layer. It is how a page shows that it has a position of
its own. -/
theorem exists_translateLayer {warnings : List Warning} {selection : Selection} {t : Extraction}
    (h : ofSelection 1 warnings (some selection) = .ok t) :
    ∃ layer, Drawing.translateLayer selection.place .zero selection.drawing.fields = .ok layer := by
  have hroot := (isTranslation_some h).root_eq
  simp only [Option.bind_some, Int.toNat_one, Drawing.first?_succ, Option.map_some] at hroot
  obtain ⟨node, -, htranslate⟩ := Option.map_eq_some_iff.mp hroot
  cases hdrawing : selection.drawing with
  | sound fields children =>
    rw [hdrawing, Drawing.pruned, Drawing.translate] at htranslate
    obtain ⟨layer, hlayer, -⟩ := bind_eq_ok.mp htranslate.symm
    exact ⟨layer, hlayer⟩
  | broken fields obstacle =>
    rw [hdrawing, Drawing.pruned] at htranslate
    exact absurd htranslate.symm (Drawing.obstruct_ne_ok fields _ obstacle node)

/-- A file that goes through as a whole goes through with every page that is wanted, and every
limit, if its root starts at zero. Otherwise the outermost layer of what is selected has to go
through, as its position is another one then. -/
theorem exists_ofFile {file : Json} {root : Drawing} (hroot : Drawing.ofFile file = .ok root)
    {most : Int} {whole : Extraction} (h : ofFile file .null most = .ok whole)
    (hcut : whole.isCut = false) (wanted : Text)
    (hposition : Drawing.StartsAtZero root.fields ∨ ∃ t, ofFile file (.text wanted) 1 = .ok t)
    (limit : Int) : ∃ t, ofFile file (.text wanted) limit = .ok t := by
  simp only [ofFile, hroot, ok_bind, ofDrawing] at h hposition ⊢
  obtain ⟨-, top, htop, -⟩ := translate_of_ofSelection h hcut
  by_cases hne : wanted = []
  · subst hne
    exact exists_ofSelection htop limit []
  · cases root with
    | broken fields obstacle => exact absurd htop (Drawing.obstruct_ne_ok fields _ obstacle top)
    | sound fields pages =>
      rw [Drawing.select_text hne, Drawing.visitChildren, Drawing.children, map_ok,
        ok_bind] at hposition ⊢
      -- Without any page nothing is walked, and that does not fail.
      cases hchoice : (Drawing.selectPage wanted pages).1 with
      | none => exact ⟨_, rfl⟩
      | some selection =>
        rw [hchoice] at hposition
        obtain ⟨position, hpage, hplace⟩ := Drawing.selectPage_eq_some hchoice
        -- A page that was extracted with one layer has a position of its own.
        have hread := hposition.imp_right fun hone =>
          hplace ▸ hone.elim fun _ ht => exists_translateLayer ht
        obtain ⟨node, hnode⟩ := Drawing.exists_translate_page htop hpage hread
        exact exists_ofSelection (hplace ▸ hnode) limit _

end Extraction

end DesignCompiler
