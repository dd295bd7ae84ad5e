import DesignCompiler.Proofs.Drawing.Sketch

/-!
# `DesignCompiler.Proofs.Drawing.Run`: the walk is a recursion

`Walk.run` takes layers from a stack, one after the other, until the stack is empty or the budget is
spent. The main statement, `run_start`, says what the visits are in the end: those of the sketch of
the pruned drawing, numbered in pre-order (`Sketch.visits`); and that layers are left over when the
drawing has more of them than the budget. Faults are covered, too: the walk fails where the sketch
of the pruned drawing fails, with the same fault.

The induction is on the drawing, with everything that stands around it left open: the visits so far,
the stack below, and the budget. `run_next` is the case of one drawing on top of the stack,
`run_inside` that of the children of one layer. A visit notes its number with the layer around it,
so the visits that are there already change; `noteAll_append` and `noteAll_push` say that only one
of them does.
-/

set_option autoImplicit false

namespace DesignCompiler

open Outcome

namespace Sketch

/-- The numbers of some sketches that are visited one after the other, from the given number on. The
layers inside each of them are visited before the next. -/
def numbers (number : Nat) : List Sketch → List Nat
  | [] => []
  | sketch :: rest => number :: numbers (number + sketch.size) rest

mutual

/-- The visits to the layers of a sketch, the first of which has the given number. -/
def visits (number : Nat) : Sketch → List Visit
  | .mk draft children =>
    ⟨draft, (numbers (number + 1) children).toArray⟩ :: visitsAll (number + 1) children

/-- The visits to the layers of the sketches of a list. -/
def visitsAll (number : Nat) : List Sketch → List Visit
  | [] => []
  | sketch :: rest => visits number sketch ++ visitsAll (number + sketch.size) rest

end

mutual

/-- There is one visit for each layer. -/
theorem length_visits (number : Nat) : ∀ s : Sketch, (s.visits number).length = s.size
  | .mk draft children => by
    rw [visits, size, List.length_cons, length_visitsAll (number + 1) children]

/-- The same for a list of sketches. -/
theorem length_visitsAll (number : Nat) : ∀ ss : List Sketch,
    (visitsAll number ss).length = sizeAll ss
  | [] => by rw [visitsAll, sizeAll, List.length_nil]
  | s :: rest => by
    rw [visitsAll, sizeAll, List.length_append, length_visits number s, length_visitsAll _ rest]

end

end Sketch

namespace Walk

/-- What a walk has to say in the end: its visits, and whether layers are left. The stack itself is
not told; its layers could be anything. -/
def report (walk : Walk) : Array Visit × Bool := (walk.visits, walk.isCut)

/-- The visits with several numbers noted for one of them. -/
def noteAll (visits : Array Visit) (parent : Nat) (numbers : List Nat) : Array Visit :=
  numbers.foldl (fun vs number => note vs number (some parent)) visits

/-- Noting a number adds no visit. -/
@[simp] theorem size_note (visits : Array Visit) (number : Nat) (parent : Option Nat) :
    (note visits number parent).size = visits.size := by
  cases parent <;> simp [note]

/-- Without numbers nothing is noted. -/
@[simp] theorem noteAll_nil (visits : Array Visit) (parent : Nat) :
    noteAll visits parent [] = visits := rfl

/-- Numbers are noted one after the other. -/
theorem noteAll_cons (visits : Array Visit) (parent number : Nat) (numbers : List Nat) :
    noteAll visits parent (number :: numbers)
      = noteAll (note visits number (some parent)) parent numbers := rfl

/-- Noting a number leaves later visits alone. The visit that it is noted for is among the first
ones (`h`). -/
theorem note_append {vs : Array Visit} {parent : Nat} (h : parent < vs.size) (ws : Array Visit)
    (number : Nat) :
    note (vs ++ ws) number (some parent) = note vs number (some parent) ++ ws := by
  apply Array.ext (by simp)
  intro i h₁ h₂
  simp only [note, Array.size_append] at h₁ h₂ ⊢
  -- The visit that changes is among the first ones.
  rw [Array.getElem_modify, Array.getElem_append, Array.getElem_append]
  split
  · subst parent
    simp only [Array.size_modify, h, dite_true, Array.getElem_modify, if_true]
  · simp only [Array.size_modify, Array.getElem_modify, *, if_false]

/-- Noting numbers leaves later visits alone. -/
theorem noteAll_append {vs : Array Visit} {parent : Nat} (h : parent < vs.size) (ws : Array Visit)
    (numbers : List Nat) : noteAll (vs ++ ws) parent numbers = noteAll vs parent numbers ++ ws := by
  induction numbers generalizing vs with
  | nil => rfl
  | cons number rest ih =>
    rw [noteAll_cons, noteAll_cons, note_append h, ih (by rwa [size_note])]

/-- Numbers noted for the last visit go behind those that it has. This is how the children of a
layer come together, one round after the other. -/
theorem noteAll_push (vs : Array Visit) (draft : Draft) (children : Array Nat)
    (numbers : List Nat) :
    noteAll (vs.push ⟨draft, children⟩) vs.size numbers
      = vs.push ⟨draft, children ++ numbers.toArray⟩ := by
  induction numbers generalizing children with
  | nil => simp
  | cons number rest ih =>
    have hnote : note (vs.push ⟨draft, children⟩) number (some vs.size)
        = vs.push ⟨draft, children.push number⟩ := by
      apply Array.ext (by simp [note])
      intro i h₁ h₂
      simp only [note, Array.getElem_modify, Array.getElem_push, Visit.addChild]
      grind
    rw [noteAll_cons, hnote, ih]
    simp

/-- A spent budget ends the walk. -/
@[simp] theorem run_zero (walk : Walk) : run 0 walk = .ok walk := by rw [run]

/-- So does an empty stack. -/
@[simp] theorem run_of_stack_nil (budget : Nat) (vs : Array Visit) :
    run budget ⟨vs, []⟩ = .ok ⟨vs, []⟩ := by
  cases budget <;> simp [run]

/-- Otherwise one layer is visited, and the walk goes on. -/
theorem run_succ_cons (budget : Nat) (vs : Array Visit) (next : Waiting) (rest : List Waiting) :
    run (budget + 1) ⟨vs, next :: rest⟩ = visit vs next rest >>= run budget := by
  rw [run]
  rfl

/-- What a walk has to say that spent its budget on `size` layers and has some visits now: it goes
on with the rest of the stack unless the budget was too small, and then layers are left over. -/
def afterwards (budget size : Nat) (vs : Array Visit) (rest : List Waiting) :
    Except Fault (Array Visit × Bool) :=
  if size ≤ budget then (run (budget - size) ⟨vs, rest⟩).map report else .ok (vs, true)

/-- A visit to a layer with children: its number is noted, its draft is pushed, and its children go
on top of the stack. -/
theorem visit_sound (vs : Array Visit) (fields : Json.Fields) (children : List Drawing)
    (place : Place) (origin : Origin) (parent : Option Nat) (rest : List Waiting) :
    visit vs ⟨.sound fields children, place, origin, parent⟩ rest = (do
      let draft ← Draft.ofFields place origin fields
      let inner ← Drawing.originAt fields place
      return ⟨(note vs vs.size parent).push ⟨draft, #[]⟩,
        Waiting.inside inner place vs.size 0 children ++ rest⟩) := rfl

/-- A visit to a layer whose children cannot be read ends in a fault, but only after the layer's own
fields. -/
theorem visit_broken (vs : Array Visit) (fields : Json.Fields) (obstacle : Obstacle)
    (place : Place) (origin : Origin) (parent : Option Nat) (rest : List Waiting) :
    visit vs ⟨.broken fields obstacle, place, origin, parent⟩ rest = (do
      let _ ← Draft.ofFields place origin fields
      let _ ← Drawing.originAt fields place
      Drawing.obstruct fields place obstacle) := by
  cases obstacle <;> rfl

mutual

/-- A walk that starts with a drawing: it first visits as many layers of it as it may.

The left side works with a stack and a budget, the right side is the recursion on the pruned
drawing. Both read the draft and the origin first and fail there alike, so these can be taken off
before the children are looked at. -/
theorem run_next (budget : Nat) (vs : Array Visit) (place : Place) (origin : Origin)
    (parent : Option Nat) (rest : List Waiting) : ∀ drawing : Drawing,
    (run (budget + 1) ⟨vs, ⟨drawing, place, origin, parent⟩ :: rest⟩).map report
      = ((drawing.pruned budget).sketch place origin >>= fun s =>
          afterwards (budget + 1) drawing.size
            (note vs vs.size parent ++ (s.visits vs.size).toArray) rest)
  | .sound fields children => by
    -- The draft and the inner origin are read first on both sides, and may fail there.
    rw [run_succ_cons, visit_sound, Drawing.pruned, Drawing.sketch]
    simp only [bind_assoc, pure_eq, ok_bind, map_bind]
    congr 1
    funext draft
    congr 1
    funext inner
    have hsize : (note vs vs.size parent).size = vs.size := size_note ..
    rw [run_inside budget _ place inner vs.size 0 rest (by simp) children]
    congr 1
    funext ss
    -- The visits to the children are noted for the visit that was pushed last.
    have hnoted : noteAll ((note vs vs.size parent).push ⟨draft, #[]⟩) vs.size
          (Sketch.numbers (vs.size + 1) ss) ++ (Sketch.visitsAll (vs.size + 1) ss).toArray
        = note vs vs.size parent ++ ((Sketch.mk draft ss).visits vs.size).toArray := by
      have hpush := noteAll_push (note vs vs.size parent) draft #[]
        (Sketch.numbers (vs.size + 1) ss)
      rw [hsize] at hpush
      rw [hpush, Sketch.visits]
      simp
    rw [Array.size_push, hsize, hnoted, afterwards, afterwards, Drawing.size_sound,
      Nat.add_sub_add_right]
    simp only [Nat.add_le_add_iff_right]
  | .broken fields obstacle => by
    rw [run_succ_cons, visit_broken, Drawing.pruned, Drawing.sketch]
    simp only [bind_assoc, map_bind]
    cases Draft.ofFields place origin fields with
    | error fault => rfl
    | ok draft =>
      cases Drawing.originAt fields place with
      | error fault => rfl
      | ok inner => cases obstacle <;> rfl

/-- A walk that starts with the children of the layer visited as number `parent`. The budget is
shared: the first child takes what it needs, and the others go on with the rest. -/
theorem run_inside (budget : Nat) (vs : Array Visit) (place : Place) (origin : Origin)
    (parent position : Nat) (rest : List Waiting) (hparent : parent < vs.size) :
    ∀ drawings : List Drawing,
    (run budget ⟨vs, Waiting.inside origin place parent position drawings ++ rest⟩).map report
      = (Drawing.sketchAll place origin position (Drawing.prunedAll budget drawings) >>= fun ss =>
          afterwards budget (Drawing.sizeAll drawings)
            (noteAll vs parent (Sketch.numbers vs.size ss)
              ++ (Sketch.visitsAll vs.size ss).toArray) rest)
  | [] => by
    rw [Waiting.inside, Drawing.prunedAll_nil, Drawing.sketchAll, ok_bind, afterwards,
      Drawing.sizeAll_nil, if_pos (Nat.zero_le _), Sketch.numbers, Sketch.visitsAll]
    simp
  | drawing :: others => by
    cases budget with
    | zero =>
      -- Nothing of the list is visited, so layers are left.
      have hpos := drawing.size_pos
      rw [Drawing.prunedAll_zero, Drawing.sketchAll, ok_bind, afterwards, Drawing.sizeAll_cons,
        if_neg (by omega), run_zero, Waiting.inside]
      simp [report, isCut, Sketch.numbers, Sketch.visitsAll]
    | succ budget =>
      rw [Waiting.inside, List.cons_append,
        run_next budget vs (place.child position) origin (some parent) _ drawing,
        Drawing.prunedAll_succ_cons, Drawing.sketchAll, bind_assoc]
      congr 1
      funext s
      rw [bind_assoc]
      simp only [pure_eq, ok_bind]
      -- The number of the next child, and the visits that are there when it is visited.
      have hnext : (note vs vs.size (some parent) ++ (s.visits vs.size).toArray).size
          = vs.size + s.size := by
        simp [Sketch.length_visits]
      rcases Nat.lt_or_ge (budget + 1) drawing.size with hlt | hge
      · -- The budget ends inside the first child, and nothing is left for the others.
        rw [afterwards, if_neg (by omega), show budget + 1 - drawing.size = 0 by omega,
          Drawing.prunedAll_zero, Drawing.sketchAll, ok_bind, afterwards, Drawing.sizeAll_cons,
          if_neg (by omega), Sketch.numbers, Sketch.numbers, Sketch.visitsAll, Sketch.visitsAll]
        simp [noteAll_cons]
      · -- The others go on with what the first child has left of the budget.
        rw [afterwards, if_pos hge,
          run_inside (budget + 1 - drawing.size) _ place origin parent (position + 1) rest
            (by rw [hnext]; omega) others, hnext]
        congr 1
        funext ss
        rw [noteAll_append (by rwa [size_note]), Sketch.numbers, Sketch.visitsAll, noteAll_cons,
          afterwards, afterwards, Drawing.sizeAll_cons, Nat.sub_sub]
        simp only [Array.append_assoc, List.append_toArray, show
          Drawing.sizeAll others ≤ budget + 1 - drawing.size
            ↔ drawing.size + Drawing.sizeAll others ≤ budget + 1 by omega]

end

/-- A walk visits the sketch of the pruned drawing, and layers are left when the drawing has more
of them than the budget. -/
theorem run_start (limit : Nat) (drawing : Drawing) (place : Place) :
    (run limit (start drawing place)).map report
      = match drawing.first? limit with
        | none => .ok (#[], true)
        | some pruned => (pruned.sketch place .zero).map fun s =>
            ((s.visits 0).toArray, decide (limit < drawing.size)) := by
  cases limit with
  -- Without a round nothing is visited, and the stack is left as it was.
  | zero =>
    rw [run_zero]
    rfl
  | succ limit =>
    rw [start, run_next, Drawing.first?_succ]
    simp only [note, Array.size_empty, Array.empty_append, afterwards]
    cases (drawing.pruned limit).sketch place .zero with
    | error fault => rfl
    | ok s =>
      rw [ok_bind, map_ok]
      -- The stack is empty behind the run exactly if the whole drawing is within the limit.
      split
      · next h => simp [report, isCut, h]
      · next h => simp [Nat.lt_of_not_le h]

end Walk

end DesignCompiler
