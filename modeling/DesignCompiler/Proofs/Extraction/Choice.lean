import DesignCompiler.Extraction.Log
import DesignCompiler.Proofs.Extraction.Selection

/-!
# `DesignCompiler.Proofs.Extraction.Choice`: what is extracted, and what is said about it

`Drawing.Selects` tells the four ways in which an identifier can select something: without one the
root is taken, else the first page that has it, else the first page of all, else nothing. The last
two leave a warning. Each way says when it is the one, and `Drawing.select_eq_ok_iff` that selecting
is nothing but these ways.

From there on the warnings only pile up: a walk that was cut adds one (`ofSelection_warnings`),
and the log repeats all of them (`textsAt_logWarnings`, by induction over the warnings). Together
that is `ofFileLogged_selects`: the tree is the translation of what was selected, and the warnings,
those in the log as well, are the one of the selection and the one of the cut.
-/

set_option autoImplicit false

namespace DesignCompiler

open Outcome

namespace Drawing

/-- Whether a page has the wanted identifier, with hyphens or with colons for them. The identifier
of the page itself is taken as it stands. -/
def HasId (wanted : Text) (page : Drawing) : Prop :=
  page.pageId = wanted ∨ page.pageId = Text.replaceChar '-' ':' wanted

/-- The test of the definition is this property. -/
theorem isPage_eq_true_iff {wanted : Text} {page : Drawing} :
    isPage wanted page = true ↔ page.HasId wanted := by
  rw [isPage, HasId, Bool.or_eq_true, decide_eq_true_eq, decide_eq_true_eq]

/-- What an identifier selects in a document, and the warnings about it. -/
inductive Selects (root : Drawing) (wanted : Text) : Option Selection → List Warning → Prop
  /-- Nothing is wanted, so the whole document is meant. -/
  | root : wanted = [] → Selects root wanted (some ⟨root, rootPlace, false⟩) []
  /-- A page has the identifier, and none in front of it has. -/
  | found {pages : List Drawing} {position : Nat} {page : Drawing} : wanted ≠ [] →
      root.children = .ok pages → pages[position]? = some page → page.HasId wanted →
      (∀ other ∈ pages.take position, ¬ other.HasId wanted) →
      Selects root wanted (some ⟨page, rootPlace.child position, true⟩) []
  /-- No page has the identifier, so the first one is taken; the warning names it and what was
  wanted. -/
  | fallback {first : Drawing} {rest : List Drawing} {warning : Warning} : wanted ≠ [] →
      root.children = .ok (first :: rest) → (∀ page ∈ first :: rest, ¬ page.HasId wanted) →
      warning = .firstPage wanted (first.pageLabel "name".toList) (first.pageLabel "id".toList) →
      (∀ piece ∈ [wanted, (first.pageLabel "name".toList).shown, first.pageId],
        piece <:+: warning.message) →
      Selects root wanted (some ⟨first, rootPlace.child 0, true⟩) [warning]
  /-- There is no page. -/
  | nothing : wanted ≠ [] → root.children = .ok [] → Selects root wanted none [.noPages wanted]

/-- The warning about a fallback has the names of what was wanted and what was taken in it, whatever
they hold. -/
theorem infix_message_firstPage (wanted : Text) (page : Drawing) :
    ∀ piece ∈ [wanted, (page.pageLabel "name".toList).shown, page.pageId], piece <:+:
      (Warning.firstPage wanted (page.pageLabel "name".toList)
        (page.pageLabel "id".toList)).message := by
  have hparts : ∀ a w b n c i d : Text, ∀ piece ∈ [w, n, i],
      piece <:+: a ++ w ++ b ++ n ++ c ++ i ++ d := by
    intro a w b n c i d piece hpiece
    simp only [List.mem_cons, List.not_mem_nil, or_false] at hpiece
    rcases hpiece with rfl | rfl | rfl
    · exact ⟨a, b ++ n ++ c ++ i ++ d, by simp only [List.append_assoc]⟩
    · exact ⟨a ++ w ++ b, c ++ i ++ d, by simp only [List.append_assoc]⟩
    · exact List.infix_append _ _ d
  exact hparts _ _ _ _ _ _ _

/-- Selecting among pages goes one of the ways. A page with the identifier is searched for from the
front, so none before it has the identifier. -/
theorem selectPage_selects {root : Drawing} {wanted : Text} {pages : List Drawing}
    (hne : wanted ≠ []) (hpages : root.children = .ok pages) :
    root.Selects wanted (selectPage wanted pages).1 (selectPage wanted pages).2 := by
  -- Either a position is found, or no page has the identifier and the list decides.
  cases hfind : pages.findIdx? (isPage wanted) with
  | some position =>
    obtain ⟨hlt, hfound, hbefore⟩ := List.findIdx?_eq_some_iff_getElem.mp hfind
    have hpage : pages[position]? = some pages[position] := List.getElem?_eq_getElem hlt
    have hselect : selectPage wanted pages
        = (some ⟨pages[position], rootPlace.child position, true⟩, []) := by
      simp only [selectPage, hfind, hpage, Option.map_some]
    rw [hselect]
    refine .found hne hpages hpage (isPage_eq_true_iff.mp hfound) ?_
    intro other hother hid
    obtain ⟨i, hi, rfl⟩ := List.mem_take_iff_getElem.mp hother
    exact hbefore i (by omega) (isPage_eq_true_iff.mpr hid)
  | none =>
    have hnone : ∀ page ∈ pages, ¬ page.HasId wanted := by
      intro page hpage hid
      have hmisses := List.findIdx?_eq_none_iff.mp hfind page hpage
      rw [isPage_eq_true_iff.mpr hid] at hmisses
      cases hmisses
    cases pages with
    | nil => exact .nothing hne hpages
    | cons first rest =>
      have hselect : selectPage wanted (first :: rest) = (some ⟨first, rootPlace.child 0, true⟩,
          [.firstPage wanted (first.pageLabel "name".toList) (first.pageLabel "id".toList)]) := by
        simp only [selectPage, hfind]
      rw [hselect]
      exact .fallback hne hpages hnone rfl (infix_message_firstPage wanted first)

/-- Where a page is wanted, selecting is searching the children of the root. Each way fixes the
outcome of the search. -/
theorem selectPage_of_selects {root : Drawing} {wanted : Text} (hne : wanted ≠ [])
    {choice : Option Selection} {said : List Warning} (h : root.Selects wanted choice said) :
    ∃ pages, root.children = .ok pages ∧ selectPage wanted pages = (choice, said) := by
  have hfind : ∀ {pages : List Drawing}, (∀ page ∈ pages, ¬ page.HasId wanted) →
      pages.findIdx? (isPage wanted) = none := by
    intro pages hnone
    refine List.findIdx?_eq_none_iff.mpr fun page hpage => ?_
    exact Bool.eq_false_iff.mpr fun hid => hnone page hpage (isPage_eq_true_iff.mp hid)
  cases h with
  | root hroot => exact absurd hroot hne
  | @found pages position page _ hpages hpage hid hbefore =>
    obtain ⟨hlt, rfl⟩ := List.getElem?_eq_some_iff.mp hpage
    -- The search stops at the first page that has the identifier.
    have hposition : pages.findIdx? (isPage wanted) = some position := by
      refine List.findIdx?_eq_some_iff_getElem.mpr ⟨hlt, isPage_eq_true_iff.mpr hid, ?_⟩
      intro i hi hid'
      exact hbefore pages[i] (List.mem_take_iff_getElem.mpr ⟨i, by omega, rfl⟩)
        (isPage_eq_true_iff.mp hid')
    exact ⟨pages, hpages, by simp only [selectPage, hposition, hpage, Option.map_some]⟩
  | @fallback first rest warning _ hpages hnone hwarning _ =>
    subst hwarning
    exact ⟨first :: rest, hpages, by simp only [selectPage, hfind hnone]⟩
  | nothing _ hpages => exact ⟨[], hpages, rfl⟩

/-- Selecting goes one of the four ways, and each of them is what selecting does. The statement
about the ways is therefore as strong as the definition. -/
theorem select_eq_ok_iff {root : Drawing} {wanted : Option Text} {choice : Option Selection}
    {said : List Warning} : root.select (wanted.elim .null .text) = .ok (choice, said)
      ↔ root.Selects (wanted.getD []) choice said := by
  by_cases hne : wanted.getD [] = []
  · -- Without an identifier it is the root, whether it is missing or empty.
    have hroot : root.select (wanted.elim .null .text)
        = .ok (some ⟨root, rootPlace, false⟩, []) := by
      cases wanted with
      | none => rfl
      | some wanted =>
        obtain rfl : wanted = [] := hne
        rfl
    rw [hroot, hne]
    constructor
    · intro h
      cases h
      exact .root rfl
    · intro h
      cases h with
      | root => rfl
      | found hne => exact absurd rfl hne
      | fallback hne => exact absurd rfl hne
      | nothing hne => exact absurd rfl hne
  · obtain ⟨text, rfl⟩ : ∃ text, wanted = some text := by
      cases wanted with
      | none => exact absurd rfl hne
      | some text => exact ⟨text, rfl⟩
    change text ≠ [] at hne
    show _ ↔ root.Selects text choice said
    constructor
    · intro h
      obtain ⟨pages, hpages, hselected⟩ := select_eq_ok hne h
      have hselects := selectPage_selects hne hpages
      rw [hselected] at hselects
      exact hselects
    · intro h
      obtain ⟨pages, hpages, hselected⟩ := selectPage_of_selects hne h
      show root.select (.text text) = _
      have hvisit : root.visitChildren rootPlace = .ok pages := by
        rw [visitChildren, hpages]
      rw [select_text hne, hvisit, map_ok, hselected]

end Drawing

namespace Extraction

/-- The log repeats the warnings, in order, and leaves everything else as it is. The induction is on
the warnings, over any log before them. -/
theorem textsAt_logWarnings (log : Log) (warnings : List Warning) (level : LogLevel) :
    (logWarnings log warnings).textsAt level
      = log.textsAt level ++ if level = .warning then warnings.map Warning.message else [] := by
  induction warnings generalizing log with
  | nil => simp [logWarnings]
  | cons warning rest ih =>
    show (logWarnings (log.write .warning warning.message) rest).textsAt level = _
    rw [ih, Log.textsAt_write]
    cases level <;> simp

/-- The warnings are those of the selection, and one more if layers are left out. -/
theorem ofSelection_warnings {limit : Int} {said : List Warning} {choice : Option Selection}
    {t : Extraction} (h : ofSelection limit said choice = .ok t) :
    t.warnings = said ++ if t.isCut then [.cut limit] else [] := by
  cases choice with
  | none =>
    cases h
    exact (List.append_nil said).symm
  | some selection =>
    rw [ofSelection] at h
    obtain ⟨walk, -, h⟩ := bind_eq_ok.mp h
    obtain ⟨root, -, h⟩ := bind_eq_ok.mp h
    cases h
    rfl

/-- What is extracted is what the identifier selects. The warnings are the one about the selection,
if there is one, and the one about the limit, if layers are left out, and they are logged in that
order. -/
theorem ofFileLogged_selects {file : Json} {wanted : Option Text} {limit : Int} {t : Extraction}
    {log : Log} (h : ofFileLogged file (wanted.elim .null .text) limit = .ok (t, log)) :
    ofFile file (wanted.elim .null .text) limit = .ok t
    ∧ ∃ root choice said, Drawing.ofFile file = .ok root
      ∧ root.Selects (wanted.getD []) choice said
      ∧ t.IsTranslation limit choice
      ∧ (choice = none → t.roots = [] ∧ t.count = 0 ∧ t.isCut = false)
      ∧ t.page = (choice.filter (·.isPage)).map (·.drawing.pageId)
      ∧ t.warnings = said ++ (if t.isCut then [.cut limit] else [])
      ∧ log.textsAt .warning = t.messages := by
  simp only [ofFileLogged, bind_eq_ok, pure_eq, Except.ok.injEq, Prod.mk.injEq] at h
  -- The logged extraction takes the same steps as the plain one, so both are read off one chain.
  obtain ⟨root, hroot, ⟨choice, said⟩, hselect, _, hextract, rfl, rfl⟩ := h
  refine ⟨by rw [ofFile, hroot, ok_bind, ofDrawing, hselect, ok_bind]; exact hextract,
    root, choice, said, hroot, Drawing.select_eq_ok_iff.mp hselect, ?_, ?_, ?_,
    ofSelection_warnings hextract, ?_⟩
  · cases choice with
    | none =>
      cases hextract
      exact isTranslation_none limit said none
    | some selection => exact isTranslation_some hextract
  · rintro rfl
    cases hextract
    exact ⟨rfl, rfl, rfl⟩
  · rw [(ofSelection_tells hextract).1]
    cases choice with
    | none => rfl
    | some selection =>
      rw [Option.bind_some, Option.filter_some]
      split <;> rfl
  · rw [logged, Log.textsAt_write, textsAt_logWarnings]
    simp [messages]

/-- No page has the identifier, and nothing may be visited: the first page is told all the same, and
both warnings are logged. -/
theorem twoPages_selects : ∃ t log,
    ofFileLogged twoPages (.text "7-7".toList) 0 = .ok (t, log)
      ∧ t.page = some "1:0".toList ∧ t.count = 0
      ∧ log.textsAt .warning = t.messages ∧ t.messages.length = 2
      ∧ ∃ root choice said, Drawing.ofFile twoPages = .ok root
        ∧ root.Selects "7-7".toList choice said ∧ t.IsTranslation 0 choice := by
  have hok : ((ofFileLogged twoPages (.text "7-7".toList) 0).map fun result =>
      (result.1.page, result.1.count, result.1.messages.length)).toOption
        = some (some "1:0".toList, 0, 2) := by decide +kernel
  obtain ⟨⟨t, log⟩, h, htells⟩ := map_eq_ok.mp (toOption_eq_some.mp hok)
  simp only [Prod.mk.injEq] at htells
  obtain ⟨hpage, hcount, hlength⟩ := htells
  have hwanted : ofFileLogged twoPages ((some "7-7".toList).elim .null .text) 0 = .ok (t, log) := h
  obtain ⟨-, root, choice, said, hroot, hselects, htranslation, -, -, -, hlog⟩ :=
    ofFileLogged_selects hwanted
  exact ⟨t, log, h, hpage, hcount, hlog, hlength, root, choice, said, hroot, hselects,
    htranslation⟩

end Extraction

end DesignCompiler
