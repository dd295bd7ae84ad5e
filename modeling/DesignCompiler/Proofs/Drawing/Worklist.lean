import Mathlib.Data.List.Nodup
import DesignCompiler.Proofs.Drawing.Build
import DesignCompiler.Proofs.Drawing.Places
import DesignCompiler.Proofs.Drawing.Reading

/-!
# `DesignCompiler.Proofs.Drawing.Worklist`: what holds in every round of the walk

`DesignCompiler.Proofs.Drawing.Run` says what a walk has visited in the end. Here is what holds on
the way, at the start of each round: `Walk.Invariant`. The layers taken from the stack so far and
those below the waiting ones, from the top of the stack down, are the layers of the drawing in
pre-order. Whatever waits was put there by a layer that has been taken, and carries the position and
the place that this layer gave it. The number of a layer is noted with that layer and nowhere else.

One round preserves this (`Walk.Invariant.visit`), and so does any number of rounds
(`Walk.Invariant.run`, by induction on the rounds). Two things follow from it. A number is noted
with a smaller one, so the pass from the last visit to the first finds the nodes that it looks up
(`Walk.IsNumbered.readsBuilt`). And a round takes a layer that no other round takes, so there are
not many rounds (`Walk.Invariant.lt_size`). `Walk.rounds_invariant` has all of this in one place.
-/

set_option autoImplicit false

namespace DesignCompiler

open Outcome

namespace Waiting

/-- The layer that waits, with its place. -/
def layer (next : Waiting) : Place × Json.Fields := (next.place, next.drawing.fields)

/-- The layer that waits and all layers inside it, in pre-order. -/
def layers (next : Waiting) : List (Place × Json.Fields) := next.drawing.placed next.place

/-- A waiting layer comes before the layers inside it. -/
theorem layers_eq_cons {next : Waiting} {children : List Drawing}
    (h : next.drawing.children = .ok children) :
    next.layers = next.layer :: Drawing.placedAll next.place 0 children := by
  obtain ⟨drawing, place, origin, parent⟩ := next
  cases drawing with
  | sound fields inside =>
    cases h
    rw [layers, Drawing.placed]
    rfl
  | broken fields obstacle => cases h

/-- A waiting layer stands for one layer at least, itself. -/
theorem layers_ne_nil (next : Waiting) : next.layers ≠ [] := by
  intro h
  have hlength := Drawing.length_placed next.place next.drawing
  have hpos := next.drawing.size_pos
  rw [layers] at h
  rw [h, List.length_nil] at hlength
  omega

/-- The children of a layer wait in their order. -/
theorem flatMap_layers_inside (origin : Origin) (place : Place) (parent position : Nat)
    (drawings : List Drawing) : (inside origin place parent position drawings).flatMap layers
      = Drawing.placedAll place position drawings := by
  induction drawings generalizing position with
  | nil => rw [inside, List.flatMap_nil, Drawing.placedAll]
  | cons drawing rest ih =>
    rw [inside, List.flatMap_cons, ih, Drawing.placedAll]
    rfl

/-- What waits inside a layer is one of its children. -/
theorem of_mem_inside {origin : Origin} {place : Place} {parent position : Nat}
    {drawings : List Drawing} {next : Waiting}
    (h : next ∈ inside origin place parent position drawings) :
    ∃ (offset : Nat) (drawing : Drawing), drawings[offset]? = some drawing
      ∧ next = ⟨drawing, place.child (position + offset), origin, some parent⟩ := by
  induction drawings generalizing position with
  | nil => cases h
  | cons drawing rest ih =>
    rw [inside, List.mem_cons] at h
    rcases h with rfl | hrest
    · exact ⟨0, drawing, rfl, rfl⟩
    · obtain ⟨offset, found, hfound, rfl⟩ := ih hrest
      refine ⟨offset + 1, found, hfound, ?_⟩
      rw [Nat.add_assoc, Nat.add_comm 1 offset]

/-- Where a layer on the stack comes from, when some layers have been taken: it is the outermost one
and nothing has been taken, or it is a child of a layer that has been taken and carries the absolute
position of this layer and its own place inside it. -/
inductive ComesFrom (drawing : Drawing) (place : Place) (taken : List Waiting) (next : Waiting) :
    Prop
  | root : taken = [] → next = ⟨drawing, place, .zero, none⟩ → ComesFrom drawing place taken next
  | inside {number position : Nat} {outer : Waiting} {children : List Drawing} :
      next.parent = some number → number < taken.length → taken[number]? = some outer →
      Drawing.originAt outer.drawing.fields outer.place = .ok next.origin →
      outer.drawing.children = .ok children → children[position]? = some next.drawing →
      next.place = outer.place.child position → ComesFrom drawing place taken next

/-- The layer around a waiting layer has been taken. -/
theorem ComesFrom.parent_lt {drawing : Drawing} {place : Place} {taken : List Waiting}
    {next : Waiting} (h : next.ComesFrom drawing place taken) {number : Nat}
    (hparent : next.parent = some number) : number < taken.length := by
  cases h with
  | root _ heq =>
    rw [heq] at hparent
    cases hparent
  | inside hinside hlt =>
    obtain rfl := Option.some.inj (hinside.symm.trans hparent)
    exact hlt

/-- Once a layer has been taken, it does not matter which ones follow. -/
theorem ComesFrom.append {drawing : Drawing} {place : Place} {taken : List Waiting}
    {next : Waiting} (h : next.ComesFrom drawing place taken) (hne : taken ≠ [])
    (more : List Waiting) : next.ComesFrom drawing place (taken ++ more) := by
  cases h with
  | root hnil _ => exact absurd hnil hne
  | inside hparent hlt houter horigin hchildren hchild hplace =>
    refine .inside hparent ?_ ((List.getElem?_append_left hlt).trans houter) horigin hchildren
      hchild hplace
    rw [List.length_append]
    omega

/-- The numbers of the layers among those taken that wait inside the layer of a number. It is told
from the list of layers alone; that the visits hold the same numbers is part of the invariant. -/
def insideOf (taken : List Waiting) (number : Nat) : List Nat :=
  (List.range taken.length).filter fun i => (taken[i]?.bind parent) = some number

/-- A number is among them if its layer waits inside the layer of the given number. -/
theorem mem_insideOf {taken : List Waiting} {number child : Nat} :
    child ∈ insideOf taken number
      ↔ ∃ next, taken[child]? = some next ∧ next.parent = some number := by
  rw [insideOf, List.mem_filter, List.mem_range, decide_eq_true_eq, Option.bind_eq_some_iff]
  constructor
  · exact fun h => h.2
  · rintro ⟨next, hnext, hparent⟩
    exact ⟨(List.getElem?_eq_some_iff.mp hnext).1, next, hnext, hparent⟩

/-- The numbers of children increase. -/
theorem pairwise_insideOf (taken : List Waiting) (number : Nat) :
    (insideOf taken number).Pairwise (· < ·) :=
  List.pairwise_lt_range.sublist List.filter_sublist

/-- A layer waits inside one other layer only, so all these numbers are different. From this it
follows that a number is noted once. -/
theorem nodup_flatMap_insideOf (taken : List Waiting) :
    ((List.range taken.length).flatMap (insideOf taken)).Nodup := by
  refine List.nodup_flatMap.mpr ⟨?_, List.nodup_range.pairwise_of_forall_ne ?_⟩
  · intro k _
    exact (pairwise_insideOf taken k).imp Nat.ne_of_lt
  · intro i _ j _ hne child hchild hother
    obtain ⟨next, hnext, hparent⟩ := mem_insideOf.mp hchild
    obtain ⟨other, hother, hparent'⟩ := mem_insideOf.mp hother
    obtain rfl := Option.some.inj (hnext.symm.trans hother)
    exact hne (Option.some.inj (hparent.symm.trans hparent'))

/-- One more layer is a child of the layer that it waits inside. -/
theorem insideOf_concat (taken : List Waiting) (next : Waiting) (number : Nat) :
    insideOf (taken ++ [next]) number
      = insideOf taken number ++ if next.parent = some number then [taken.length] else [] := by
  have hbefore : (List.range taken.length).filter
        (fun i => decide (((taken ++ [next])[i]?.bind parent) = some number))
      = insideOf taken number := by
    refine List.filter_congr fun i hi => ?_
    rw [List.getElem?_append_left (List.mem_range.mp hi)]
  rw [insideOf, List.length_append, List.length_singleton, List.range_succ, List.filter_append,
    hbefore, List.filter_singleton, List.getElem?_concat_length, Option.bind_some,
    Bool.cond_decide]

end Waiting

namespace Drawing

/-- The children that a visit finds are those of the drawing. -/
theorem visitChildren_eq_ok {drawing : Drawing} {place : Place} {children : List Drawing} :
    drawing.visitChildren place = .ok children ↔ drawing.children = .ok children := by
  cases drawing with
  | sound fields inside => simp [visitChildren, Drawing.children]
  | broken fields obstacle =>
    refine iff_of_false (obstruct_ne_ok fields place obstacle children) fun h => ?_
    cases h

/-- A drawing in which nothing is wrong: the layers are those of its fields, their values have the
types that are read, and none of them has a flaw. -/
structure IsWellFormed (drawing : Drawing) : Prop where
  faithful : drawing.Faithful
  wellTyped : ∀ layer ∈ drawing.preorder 0, WellTyped layer.2
  not_isDefective : ∀ layer ∈ drawing.preorder 0, ¬ IsDefective layer.2

/-- The layers of a well-formed drawing have no flaws, wherever they stand. -/
theorem IsWellFormed.of_mem_placed {drawing : Drawing} (h : drawing.IsWellFormed) {place : Place}
    {layer : Place × Json.Fields} (hlayer : layer ∈ drawing.placed place) :
    WellTyped layer.2 ∧ flaws layer.2 layer.1 = [] := by
  obtain ⟨found, hfound, heq⟩ : ∃ found ∈ drawing.preorder 0, found.2 = layer.2 := by
    have hmem : layer.2 ∈ (drawing.placed place).map Prod.snd := List.mem_map_of_mem hlayer
    rw [map_snd_placed place 0] at hmem
    exact List.mem_map.mp hmem
  refine ⟨heq ▸ h.wellTyped found hfound, ?_⟩
  by_contra hflaws
  exact h.not_isDefective found hfound (heq ▸ flaws_ne_nil_iff.mp hflaws)

end Drawing

namespace Walk

/-- What a visit does when nothing goes wrong. -/
theorem visit_eq_ok {visits : Array Visit} {next : Waiting} {rest : List Waiting} {after : Walk} :
    visit visits next rest = .ok after ↔ ∃ draft origin children,
      Draft.ofFields next.place next.origin next.drawing.fields = .ok draft
      ∧ Drawing.originAt next.drawing.fields next.place = .ok origin
      ∧ next.drawing.children = .ok children
      ∧ after = ⟨(note visits visits.size next.parent).push ⟨draft, #[]⟩,
          Waiting.inside origin next.place visits.size 0 children ++ rest⟩ := by
  simp only [visit, bind_eq_ok, Drawing.visitChildren_eq_ok, pure_eq, Except.ok.injEq]
  constructor
  · rintro ⟨draft, hdraft, origin, horigin, children, hchildren, rfl⟩
    exact ⟨draft, origin, children, hdraft, horigin, hchildren, rfl⟩
  · rintro ⟨draft, origin, children, hdraft, horigin, hchildren, rfl⟩
    exact ⟨draft, hdraft, origin, horigin, children, hchildren, rfl⟩

/-- Noting a number changes the one visit that it is noted for, and no draft. -/
theorem getElem?_note (visits : Array Visit) (number : Nat) (parent : Option Nat) (k : Nat) :
    (note visits number parent)[k]?
      = visits[k]?.map fun visit => if parent = some k then visit.addChild number else visit := by
  cases parent with
  | none => simp [note]
  | some parent =>
    rw [note, Array.getElem?_modify]
    split <;> simp_all

/-! ### The rounds -/

/-- The layers that the next rounds take from the stack, at most `budget` of them, in order. It is
what the rounds would have to remember to state the invariant; the walk itself does not. -/
def taken : Nat → Walk → List Waiting
  | 0, _ => []
  | budget + 1, walk =>
    match walk.stack with
    | [] => []
    | next :: rest => next :: (visit walk.visits next rest).toOption.elim [] (taken budget)

/-- A walk at the start of a round, of which the first has number zero. There is a round as long as
a layer waits. Each round takes one of the budget, and the round that finds nothing left is the
last. -/
structure StartsRound (budget : Nat) (drawing : Drawing) (place : Place) (round : Nat)
    (walk : Walk) : Prop where
  le_budget : round ≤ budget
  run_eq : run round (start drawing place) = .ok walk
  stack_ne_nil : walk.stack ≠ []

/-- What holds of a walk through a drawing when some layers have been taken from the stack. -/
structure Invariant (drawing : Drawing) (place : Place) (taken : List Waiting) (walk : Walk) :
    Prop where
  /-- Nothing is left out, and the order is kept. -/
  preorder : taken.map Waiting.layer ++ walk.stack.flatMap Waiting.layers = drawing.placed place
  /-- Every waiting layer comes from one that has been taken. -/
  waiting : ∀ next ∈ walk.stack, next.ComesFrom drawing place taken
  /-- So did the layers that have been taken. -/
  waited : ∀ (k : Nat) (next : Waiting), taken[k]? = some next →
    next.ComesFrom drawing place (taken.take k)
  /-- There is one visit for each layer that has been taken. -/
  size_visits : walk.visits.size = taken.length
  /-- The visit drafts the layer, and its children are the layers that waited inside it. -/
  visits : ∀ (k : Nat) (next : Waiting) (visit : Visit), taken[k]? = some next →
    walk.visits[k]? = some visit →
    Draft.ofFields next.place next.origin next.drawing.fields = .ok visit.draft
      ∧ visit.children.toList = Waiting.insideOf taken k

/-- How the numbers of visits are noted with visits. -/
structure IsNumbered (visits : Array Visit) : Prop where
  /-- Every number but zero is noted once in all. -/
  once : ∀ number, 0 < number → number < visits.size →
    (visits.toList.flatMap fun visit => visit.children.toList).count number = 1
  /-- Numbers are noted with smaller ones. -/
  later : ∀ (k : Nat) (visit : Visit), visits[k]? = some visit → ∀ child ∈ visit.children.toList,
    k < child ∧ child < visits.size
  /-- They are noted in increasing order. -/
  increasing : ∀ visit ∈ visits.toList, visit.children.toList.Pairwise (· < ·)

/-- The pass from the last visit to the first looks up nodes that have been built, and finds those
of the visits that it means. A lookup that finds nothing would drop a child without a word. -/
def ReadsBuilt (visits : Array Visit) : Prop :=
  ∀ (earlier : List Visit) (visit : Visit) (later : List Visit) (built : Array Node),
    visits.toList = earlier ++ visit :: later →
    later.reverse.foldlM (buildOne visits.size) #[] = .ok built →
    ∀ child ∈ visit.children.toList, ∃ node inner, built[visits.size - 1 - child]? = some node
      ∧ visits[child]? = some inner ∧ inner.draft.check = .ok node.layer

section

variable {drawing : Drawing} {place : Place} {taken : List Waiting} {walk after : Walk}

namespace Invariant

/-- Before the first round the outermost layer waits. -/
theorem start (drawing : Drawing) (place : Place) :
    Invariant drawing place [] (start drawing place) where
  preorder := by simp [Walk.start, Waiting.layers]
  waiting next hnext := .root rfl (List.mem_singleton.mp hnext)
  waited k next hnext := by cases hnext
  size_visits := rfl
  visits k next visit hnext := by cases hnext

/-- The layer around a layer has been taken before it. -/
theorem parent_lt (h : Invariant drawing place taken walk) {k number : Nat} {next : Waiting}
    (hnext : taken[k]? = some next) (hparent : next.parent = some number) : number < k := by
  have hlt := (h.waited k next hnext).parent_lt hparent
  rw [List.length_take] at hlt
  omega

/-- Every layer but the first has one around it that has been taken. -/
theorem exists_parent (h : Invariant drawing place taken walk) {k : Nat} {next : Waiting}
    (hpos : 0 < k) (hnext : taken[k]? = some next) : ∃ number, next.parent = some number := by
  cases h.waited k next hnext with
  | root hnil _ =>
    have hlt := (List.getElem?_eq_some_iff.mp hnext).1
    have hlength := congrArg List.length hnil
    rw [List.length_take, List.length_nil] at hlength
    omega
  | inside hparent => exact ⟨_, hparent⟩

/-- Nothing waited inside a layer that has not been taken. -/
theorem insideOf_eq_nil (h : Invariant drawing place taken walk) {number : Nat}
    (hge : taken.length ≤ number) : Waiting.insideOf taken number = [] := by
  refine List.eq_nil_iff_forall_not_mem.mpr fun child hchild => ?_
  obtain ⟨next, hnext, hparent⟩ := Waiting.mem_insideOf.mp hchild
  have hlt := h.parent_lt hnext hparent
  have hbound := (List.getElem?_eq_some_iff.mp hnext).1
  omega

/-- The numbers noted with a visit. -/
theorem children_eq (h : Invariant drawing place taken walk) {k : Nat} {visit : Visit}
    (hvisit : walk.visits[k]? = some visit) :
    visit.children.toList = Waiting.insideOf taken k := by
  have hlt : k < taken.length := by
    rw [← h.size_visits]
    exact (Array.getElem?_eq_some_iff.mp hvisit).1
  exact (h.visits k taken[k] visit (List.getElem?_eq_getElem hlt) hvisit).2

section

variable {vs : Array Visit} {next : Waiting} {rest : List Waiting}

/-- While nothing has been taken, only the outermost layer waits. -/
theorem rest_eq_nil (h : Invariant drawing place [] ⟨vs, next :: rest⟩) : rest = [] := by
  have hroot : next.layers = drawing.placed place := by
    cases h.waiting next List.mem_cons_self with
    | root _ heq =>
      rw [heq]
      rfl
    | inside _ hlt => cases hlt
  have hpreorder := h.preorder
  -- The layers of the outermost one are all layers, and every other one would add some.
  rw [List.map_nil, List.nil_append, List.flatMap_cons, hroot, List.append_right_eq_self,
    List.flatMap_eq_nil_iff] at hpreorder
  cases rest with
  | nil => rfl
  | cons other more => exact absurd (hpreorder other List.mem_cons_self) other.layers_ne_nil

/-- The layer that is taken joins those that have been taken. -/
theorem waited_concat (h : Invariant drawing place taken ⟨vs, next :: rest⟩) {k : Nat}
    {other : Waiting} (hother : (taken ++ [next])[k]? = some other) :
    other.ComesFrom drawing place ((taken ++ [next]).take k) := by
  rcases Nat.lt_or_ge k taken.length with hlt | hge
  · rw [List.getElem?_append_left hlt] at hother
    rw [List.take_append_of_le_length (Nat.le_of_lt hlt)]
    exact h.waited k other hother
  · obtain rfl : k = taken.length := by
      have hbound := (List.getElem?_eq_some_iff.mp hother).1
      rw [List.length_append, List.length_singleton] at hbound
      omega
    rw [List.getElem?_concat_length, Option.some.injEq] at hother
    subst hother
    rw [List.take_left]
    exact h.waiting _ List.mem_cons_self

/-- The number of the new visit is noted with the visit to the layer around it, and nothing is noted
with the new visit itself. -/
theorem children_concat (h : Invariant drawing place taken ⟨vs, next :: rest⟩) {draft : Draft}
    {k : Nat} {visit : Visit}
    (hvisit : ((note vs vs.size next.parent).push ⟨draft, #[]⟩)[k]? = some visit) :
    visit.children.toList = Waiting.insideOf (taken ++ [next]) k := by
  have hsize : vs.size = taken.length := h.size_visits
  rw [Array.getElem?_push, size_note] at hvisit
  rw [Waiting.insideOf_concat, ← hsize]
  split at hvisit
  · next hk =>
    subst hk
    obtain rfl := Option.some.inj hvisit
    -- The new visit has no children yet, not even itself.
    have hself : next.parent ≠ some vs.size := by
      intro hparent
      have hlt := (h.waiting next List.mem_cons_self).parent_lt hparent
      omega
    rw [h.insideOf_eq_nil (Nat.le_of_eq hsize.symm), if_neg hself]
    rfl
  · rw [getElem?_note] at hvisit
    obtain ⟨old, hold, rfl⟩ := Option.map_eq_some_iff.mp hvisit
    -- An old visit gets the new number if it is the parent, and is left alone otherwise.
    rw [← h.children_eq hold]
    split
    · rw [Visit.addChild, Array.toList_push]
    · rw [List.append_nil]

/-- The visits that were there keep their drafts, and the new one has the draft of its layer. -/
theorem draft_concat (h : Invariant drawing place taken ⟨vs, next :: rest⟩) {draft : Draft}
    (hdraft : Draft.ofFields next.place next.origin next.drawing.fields = .ok draft) {k : Nat}
    {other : Waiting} {visit : Visit} (hother : (taken ++ [next])[k]? = some other)
    (hvisit : ((note vs vs.size next.parent).push ⟨draft, #[]⟩)[k]? = some visit) :
    Draft.ofFields other.place other.origin other.drawing.fields = .ok visit.draft := by
  have hsize : vs.size = taken.length := h.size_visits
  rw [Array.getElem?_push, size_note] at hvisit
  split at hvisit
  · next hk =>
    rw [hk, hsize, List.getElem?_concat_length, Option.some.injEq] at hother
    subst hother
    obtain rfl := Option.some.inj hvisit
    exact hdraft
  · rw [getElem?_note] at hvisit
    obtain ⟨old, hold, rfl⟩ := Option.map_eq_some_iff.mp hvisit
    have hlt : k < taken.length := by
      rw [← hsize]
      exact (Array.getElem?_eq_some_iff.mp hold).1
    rw [List.getElem?_append_left hlt] at hother
    -- Noting a number leaves the draft alone.
    split <;> exact (h.visits k other old hother hold).1

/-- A round preserves the invariant. -/
theorem visit (h : Invariant drawing place taken ⟨vs, next :: rest⟩)
    (hvisit : Walk.visit vs next rest = .ok after) :
    Invariant drawing place (taken ++ [next]) after := by
  obtain ⟨draft, origin, children, hdraft, horigin, hchildren, rfl⟩ := visit_eq_ok.mp hvisit
  have hsize : vs.size = taken.length := h.size_visits
  refine ⟨?preorder, ?waiting, fun k other => h.waited_concat, ?size_visits,
    fun k other visit hother hat => ⟨h.draft_concat hdraft hother hat, h.children_concat hat⟩⟩
  case preorder =>
    -- The layer moves over, and the layers inside it stay where they were.
    rw [← h.preorder, List.map_append, List.map_singleton, List.append_assoc, List.flatMap_append,
      Waiting.flatMap_layers_inside, List.flatMap_cons, Waiting.layers_eq_cons hchildren]
    rfl
  case waiting =>
    intro other hother
    rcases List.mem_append.mp hother with hinside | hrest
    · -- A child of the layer that has just been taken.
      obtain ⟨position, child, hchild, rfl⟩ := Waiting.of_mem_inside hinside
      refine .inside rfl ?_ ?_ horigin hchildren hchild (by rw [Nat.zero_add])
      · rw [List.length_append, List.length_singleton]
        omega
      · rw [hsize, List.getElem?_concat_length]
    · refine (h.waiting other (List.mem_cons_of_mem _ hrest)).append ?_ [next]
      rintro rfl
      rw [h.rest_eq_nil] at hrest
      cases hrest
  case size_visits => simp [hsize]

end

/-- Any number of rounds preserves the invariant. -/
theorem run (h : Invariant drawing place taken walk) {budget : Nat}
    (hrun : Walk.run budget walk = .ok after) :
    Invariant drawing place (taken ++ Walk.taken budget walk) after := by
  induction budget generalizing taken walk with
  | zero =>
    rw [run_zero, Except.ok.injEq] at hrun
    subst hrun
    rwa [Walk.taken, List.append_nil]
  | succ budget ih =>
    obtain ⟨vs, stack⟩ := walk
    cases stack with
    | nil =>
      rw [run_of_stack_nil, Except.ok.injEq] at hrun
      subst hrun
      rwa [Walk.taken, List.append_nil]
    | cons next rest =>
      rw [run_succ_cons] at hrun
      obtain ⟨middle, hvisit, hrun⟩ := bind_eq_ok.mp hrun
      -- One round keeps the invariant, and the rounds that are left start from what it made.
      have hrest := ih (h.visit hvisit) hrun
      rw [List.append_assoc, List.singleton_append] at hrest
      simpa only [Walk.taken, hvisit, Except.toOption, Option.elim_some] using hrest

/-- As long as a layer waits, not all layers have been taken. So there are no more rounds than
layers. -/
theorem lt_size (h : Invariant drawing place taken walk) (hstack : walk.stack ≠ []) :
    taken.length < drawing.size := by
  obtain ⟨next, rest, hnext⟩ := List.exists_cons_of_ne_nil hstack
  have hlength := congrArg List.length h.preorder
  have hpos := List.length_pos_of_ne_nil next.layers_ne_nil
  rw [hnext, List.length_append, List.length_map, List.flatMap_cons, List.length_append,
    Drawing.length_placed] at hlength
  omega

/-- The lists of numbers that are noted, one for each visit. -/
theorem map_children (h : Invariant drawing place taken walk) :
    walk.visits.toList.map (fun visit => visit.children.toList)
      = (List.range taken.length).map (Waiting.insideOf taken) := by
  refine List.ext_getElem (by simp [h.size_visits]) fun k hk hk' => ?_
  rw [List.length_map, Array.length_toList] at hk
  rw [List.getElem_map, List.getElem_map, List.getElem_range, Array.getElem_toList]
  exact h.children_eq (Array.getElem?_eq_getElem hk)

/-- The numbers of the visits are noted in order, each of them once. -/
theorem isNumbered (h : Invariant drawing place taken walk) : IsNumbered walk.visits := by
  refine ⟨?once, ?later, ?increasing⟩
  case once =>
    intro number hpos hlt
    rw [h.size_visits] at hlt
    have hnext : taken[number]? = some taken[number] := List.getElem?_eq_getElem hlt
    obtain ⟨parent, hparent⟩ := h.exists_parent hpos hnext
    -- Its parent was numbered earlier, and lists it; no two lists share a number.
    have hbefore := h.parent_lt hnext hparent
    rw [List.flatMap_def, h.map_children, ← List.flatMap_def]
    refine List.count_eq_one_of_mem (Waiting.nodup_flatMap_insideOf taken)
      (List.mem_flatMap.mpr ⟨parent, ?_, ?_⟩)
    · exact List.mem_range.mpr (by omega)
    · exact Waiting.mem_insideOf.mpr ⟨_, hnext, hparent⟩
  case later =>
    intro k visit hvisit child hchild
    rw [h.children_eq hvisit, Waiting.mem_insideOf] at hchild
    obtain ⟨next, hnext, hparent⟩ := hchild
    rw [h.size_visits]
    exact ⟨h.parent_lt hnext hparent, (List.getElem?_eq_some_iff.mp hnext).1⟩
  case increasing =>
    intro visit hvisit
    obtain ⟨k, hk⟩ := List.mem_iff_getElem?.mp hvisit
    rw [h.children_eq (Array.getElem?_toList.symm.trans hk)]
    exact Waiting.pairwise_insideOf taken k

end Invariant

/-- As long as a layer waits, every round has made its visit. -/
theorem size_visits_run {budget : Nat} (hrun : run budget walk = .ok after)
    (hstack : after.stack ≠ []) : after.visits.size = walk.visits.size + budget := by
  induction budget generalizing walk with
  | zero =>
    rw [run_zero, Except.ok.injEq] at hrun
    rw [hrun, Nat.add_zero]
  | succ budget ih =>
    obtain ⟨vs, stack⟩ := walk
    cases stack with
    | nil =>
      rw [run_of_stack_nil, Except.ok.injEq] at hrun
      subst hrun
      exact absurd rfl hstack
    | cons next rest =>
      rw [run_succ_cons] at hrun
      obtain ⟨middle, hvisit, hrun⟩ := bind_eq_ok.mp hrun
      -- Each round adds one visit, as long as there is something on the stack.
      obtain ⟨_, _, _, -, -, -, rfl⟩ := visit_eq_ok.mp hvisit
      rw [ih hrun, Array.size_push, size_note]
      show vs.size + 1 + budget = vs.size + (budget + 1)
      omega

end

/-! ### The nodes of the visits -/

/-- The nodes that have been built are those of the visits that have been gone through, the last
one's first. The induction is over the later visits, the last of which is built first. -/
theorem built_of_foldlM {count : Nat} {later : List Visit} {built : Array Node}
    (h : later.reverse.foldlM (buildOne count) #[] = .ok built) :
    built.size = later.length ∧ ∀ (i : Nat) (visit : Visit), later[i]? = some visit →
      ∃ node, built[later.length - 1 - i]? = some node ∧ visit.draft.check = .ok node.layer := by
  induction later generalizing built with
  | nil =>
    simp only [List.reverse_nil, List.foldlM_nil, pure_eq, Except.ok.injEq] at h
    subst h
    refine ⟨rfl, fun i visit hvisit => ?_⟩
    rw [List.getElem?_nil] at hvisit
    cases hvisit
  | cons first rest ih =>
    rw [List.reverse_cons, List.foldlM_append] at h
    obtain ⟨before, hbefore, h⟩ := bind_eq_ok.mp h
    obtain ⟨hsize, hnodes⟩ := ih hbefore
    simp only [List.foldlM_cons, List.foldlM_nil, buildOne, bind_eq_ok, map_eq_ok, pure_eq,
      Except.ok.injEq] at h
    obtain ⟨_, ⟨layer, hlayer, rfl⟩, rfl⟩ := h
    refine ⟨by rw [Array.size_push, hsize, List.length_cons], fun i visit hvisit => ?_⟩
    rw [List.length_cons, Array.getElem?_push, hsize]
    cases i with
    | zero =>
      obtain rfl := Option.some.inj hvisit
      exact ⟨_, if_pos (by omega), hlayer⟩
    | succ i =>
      -- The other visits have their nodes already, and these stay where they are.
      have hlt : i < rest.length :=
        Nat.lt_of_succ_lt_succ (List.getElem?_eq_some_iff.mp hvisit).1
      obtain ⟨node, hnode, hcheck⟩ := hnodes i visit hvisit
      refine ⟨node, ?_, hcheck⟩
      rw [if_neg (by omega), ← hnode]
      congr 1
      omega

/-- Where numbers are noted with smaller ones only, nodes are there when they are looked up. -/
theorem IsNumbered.readsBuilt {visits : Array Visit} (h : IsNumbered visits) :
    ReadsBuilt visits := by
  intro earlier visit later built hvisits hbuilt child hchild
  have hsize : visits.size = earlier.length + (later.length + 1) := by
    rw [← Array.length_toList, hvisits, List.length_append, List.length_cons]
  have hvisit : visits[earlier.length]? = some visit := by
    rw [← Array.getElem?_toList, hvisits, List.getElem?_append_right (Nat.le_refl _), Nat.sub_self]
    rfl
  obtain ⟨hafter, hbound⟩ := h.later _ visit hvisit child hchild
  -- The child is one of the later visits.
  obtain ⟨i, rfl⟩ : ∃ i, child = earlier.length + (i + 1) :=
    ⟨child - earlier.length - 1, by omega⟩
  have hi : i < later.length := by omega
  obtain ⟨node, hnode, hcheck⟩ :=
    (built_of_foldlM hbuilt).2 i later[i] (List.getElem?_eq_getElem hi)
  refine ⟨node, later[i], ?_, ?_, hcheck⟩
  · rw [← hnode]
    congr 1
    omega
  · rw [← Array.getElem?_toList, hvisits, List.getElem?_append_right (by omega),
      Nat.add_sub_cancel_left, List.getElem?_cons_succ, List.getElem?_eq_getElem hi]

/-- A walk through a well-formed drawing goes through, and so does building its nodes. Nothing but
flaws can end a walk early. -/
theorem exists_run {drawing : Drawing} (h : drawing.IsWellFormed) (place : Place) (budget : Nat) :
    ∃ walk node, run budget (start drawing place) = .ok walk ∧ walk.node? = .ok node := by
  cases budget with
  | zero => exact ⟨_, none, run_zero _, node?_empty _⟩
  | succ budget =>
    -- Only the layers within the budget are read, but all of them are well formed.
    have hfront : ∀ layer ∈ (drawing.placed place).take (budget + 1),
        Drawing.WellTyped layer.2 ∧ Drawing.flaws layer.2 layer.1 = [] :=
      fun layer hlayer => h.of_mem_placed (List.mem_of_mem_take hlayer)
    have hflaws : Drawing.flawsOf ((drawing.placed place).take (budget + 1)) = [] :=
      List.flatMap_eq_nil_iff.mpr fun layer hlayer => (hfront layer hlayer).2
    have hzero : Origin.zero.x.IsMeasure ∧ Origin.zero.y.IsMeasure := by decide
    have hreports := Drawing.reports_sketch_pruned place .zero budget drawing h.faithful hzero
      fun layer hlayer => (hfront layer hlayer).1
    rw [hflaws] at hreports
    obtain ⟨s, hs, node, hnode⟩ := hreports
    have hrun := run_start (budget + 1) drawing place
    -- The run does what the sketch of the pruned drawing does, and that has no flaw to stop at.
    rw [Drawing.first?_succ] at hrun
    dsimp only at hrun
    rw [hs, map_ok] at hrun
    obtain ⟨⟨visits, stack⟩, hwalk, hreport⟩ := map_eq_ok.mp hrun
    obtain rfl : visits = (s.visits 0).toArray := congrArg Prod.fst hreport
    exact ⟨_, some node, hwalk, by rw [node?_visits, hnode, map_ok]⟩

/-- At the start of every round of a walk with a limit the invariant holds and the numbers are noted
in order, and there is at most one round more than the limit allows visits or the drawing has
layers. When the walk is over, building the nodes reads only what has been built. Nothing of this
fails if the drawing is well formed. -/
theorem rounds_invariant (drawing : Drawing) (place : Place) (limit : Int) :
    (∀ round walk, StartsRound limit.toNat drawing place round walk →
      Invariant drawing place (taken round (start drawing place)) walk
      ∧ IsNumbered walk.visits
      ∧ (round : Int) + 1 ≤ min (drawing.size : Int) (max limit 0) + 1)
    ∧ (∀ walk, run limit.toNat (start drawing place) = .ok walk →
      IsNumbered walk.visits ∧ ReadsBuilt walk.visits)
    ∧ (drawing.IsWellFormed → ∀ budget, ∃ walk node,
      run budget (start drawing place) = .ok walk ∧ walk.node? = .ok node) := by
  refine ⟨?_, ?_, fun h budget => exists_run h place budget⟩
  · intro round walk h
    have hinvariant := (Invariant.start drawing place).run h.run_eq
    rw [List.nil_append] at hinvariant
    -- As many layers are visited as rounds have passed, and one is still waiting.
    have hsize : walk.visits.size = round := by
      rw [size_visits_run h.run_eq h.stack_ne_nil]
      exact Nat.zero_add round
    have hlt := hinvariant.lt_size h.stack_ne_nil
    have hbudget := h.le_budget
    rw [← hinvariant.size_visits, hsize] at hlt
    exact ⟨hinvariant, hinvariant.isNumbered, by omega⟩
  · intro walk h
    have hnumbered := ((Invariant.start drawing place).run h).isNumbered
    exact ⟨hnumbered, hnumbered.readsBuilt⟩

/-- A layer with two layers inside it, the first of which has one itself. -/
def nested : Json.Fields :=
  let layer (id : String) (children : List Json) : Json.Fields :=
    [("id".toList, .text id.toList), (childrenName, .list children)]
  layer "1" [.object (layer "2" [.object (layer "3" [])]), .object (layer "4" [])]

/-- Nothing is wrong with it. -/
theorem nested_isWellFormed : (Drawing.ofFields nested).IsWellFormed where
  faithful := Drawing.faithful_ofFields nested
  wellTyped := by decide +kernel
  not_isDefective := by
    have hflaws : ∀ layer ∈ (Drawing.ofFields nested).preorder 0,
        Drawing.flaws layer.2 Drawing.rootPlace = [] := by decide +kernel
    exact fun layer hlayer hdefect => Drawing.flaws_ne_nil_iff.mpr hdefect (hflaws layer hlayer)

/-- With a limit of two the third round is the last. The layer and the first one inside it have been
visited, and the other two wait. -/
theorem nested_rounds : ∃ walk node,
    StartsRound 2 (Drawing.ofFields nested) Drawing.rootPlace 2 walk
    ∧ Invariant (Drawing.ofFields nested) Drawing.rootPlace
      (taken 2 (start (Drawing.ofFields nested) Drawing.rootPlace)) walk
    ∧ walk.visits.toList.map (fun visit => visit.children.toList) = [[1], []]
    ∧ walk.stack.map Waiting.parent = [some 1, some 0]
    ∧ IsNumbered walk.visits ∧ ReadsBuilt walk.visits ∧ walk.node? = .ok node := by
  obtain ⟨hrounds, hbuilt, hsucceeds⟩ :=
    rounds_invariant (Drawing.ofFields nested) Drawing.rootPlace 2
  obtain ⟨walk, node, hrun, hnode⟩ := hsucceeds nested_isWellFormed 2
  have htells : ((run 2 (start (Drawing.ofFields nested) Drawing.rootPlace)).map fun walk =>
      (walk.visits.toList.map (fun visit => visit.children.toList),
        walk.stack.map Waiting.parent)).toOption = some ([[1], []], [some 1, some 0]) := by
    decide +kernel
  rw [hrun, map_ok] at htells
  obtain ⟨hchildren, hparents⟩ := Prod.mk.inj (Option.some.inj htells)
  -- Two layers are still on the stack after two rounds.
  have hstack : walk.stack ≠ [] := by
    intro hnil
    rw [hnil] at hparents
    cases hparents
  have hstarts : StartsRound 2 (Drawing.ofFields nested) Drawing.rootPlace 2 walk :=
    ⟨Nat.le_refl 2, hrun, hstack⟩
  obtain ⟨hinvariant, hnumbered, -⟩ := hrounds 2 walk hstarts
  exact ⟨walk, node, hstarts, hinvariant, hchildren, hparents, hnumbered, (hbuilt walk hrun).2,
    hnode⟩

end Walk

end DesignCompiler
