import DesignCompiler.Drawing.Basic

/-!
# `DesignCompiler.Proofs.Drawing.Pruning`: the first layers of a drawing

A walk with a budget sees the layers of a drawing that come first in pre-order. This module says
which those are without a walk: `pruned budget` keeps the outermost layer and `budget` of the layers
inside it, and `first? limit` keeps `limit` layers in all, or gives no drawing if that is none.

`preorder` lists the layers with their depths, and so tells the whole shape of a drawing. The
statement that ties the two together is `preorder_pruned`: the list of a pruned drawing is the front
part of the list.

A broken layer is a layer without children here. What its file holds in their place is no layer, and
a walk that gets as far as the broken layer ends there.
-/

set_option autoImplicit false

namespace DesignCompiler.Drawing

mutual

/-- How many layers a drawing has. A broken layer counts as one: it is visited like any other. -/
def size : Drawing → Nat
  | .sound _ children => sizeAll children + 1
  | .broken _ _ => 1

/-- How many layers the drawings of a list have. -/
def sizeAll : List Drawing → Nat
  | [] => 0
  | drawing :: rest => size drawing + sizeAll rest

end

mutual

/-- The layers of a drawing with their depths, each before those inside it; the outermost one has
the given depth. This is the order of a walk. -/
def preorder (depth : Nat) : Drawing → List (Nat × Json.Fields)
  | .sound fields children => (depth, fields) :: preorderAll (depth + 1) children
  | .broken fields _ => [(depth, fields)]

/-- The layers of the drawings of a list with their depths. -/
def preorderAll (depth : Nat) : List Drawing → List (Nat × Json.Fields)
  | [] => []
  | drawing :: rest => preorder depth drawing ++ preorderAll depth rest

end

mutual

/-- The outermost layer, and of the layers inside it the first ones in pre-order. A layer whose
children are cut off is a layer without these children. -/
def pruned (budget : Nat) : Drawing → Drawing
  | .sound fields children => .sound fields (prunedAll budget children)
  | .broken fields obstacle => .broken fields obstacle

/-- The first layers of the drawings of a list in pre-order. -/
def prunedAll (budget : Nat) : List Drawing → List Drawing
  | [] => []
  | drawing :: rest =>
    if budget = 0 then []
    else pruned (budget - 1) drawing :: prunedAll (budget - size drawing) rest

end

/-- The first layers of a drawing in pre-order, if there is to be any. -/
def first? (limit : Nat) (drawing : Drawing) : Option Drawing :=
  if limit = 0 then none else some (drawing.pruned (limit - 1))

/-- A layer and those inside it. -/
@[simp] theorem size_sound (fields : Json.Fields) (children : List Drawing) :
    (sound fields children).size = sizeAll children + 1 := by rw [size]

/-- A layer by itself. -/
@[simp] theorem size_broken (fields : Json.Fields) (obstacle : Obstacle) :
    (broken fields obstacle).size = 1 := by rw [size]

/-- No drawings have no layers. -/
@[simp] theorem sizeAll_nil : sizeAll [] = 0 := by rw [sizeAll]

/-- The layers of the first drawing and those of the others. -/
@[simp] theorem sizeAll_cons (drawing : Drawing) (rest : List Drawing) :
    sizeAll (drawing :: rest) = drawing.size + sizeAll rest := by rw [sizeAll]

/-- Zero as a natural number is that of the core library here, whatever else is imported. A sum of
natural numbers starts with it. -/
scoped instance (priority := 2000) natZero : Zero Nat := Zero.ofOfNat0

/-- The layers of several drawings add up. -/
theorem sizeAll_eq_sum (drawings : List Drawing) : sizeAll drawings = (drawings.map size).sum := by
  induction drawings with
  | nil => rw [sizeAll_nil, List.map_nil, List.sum_nil]
  | cons drawing rest ih => rw [sizeAll_cons, List.map_cons, List.sum_cons, ih]

/-- One of several drawings has no more layers than all of them. -/
theorem size_le_sizeAll {drawing : Drawing} {drawings : List Drawing} (h : drawing ∈ drawings) :
    drawing.size ≤ sizeAll drawings := by
  induction h with
  | head => rw [sizeAll_cons]; omega
  | tail _ _ ih => rw [sizeAll_cons]; omega

/-- A drawing has a layer at least, the outermost one. -/
theorem size_pos (drawing : Drawing) : 0 < drawing.size := by
  cases drawing <;> simp

/-- Of no drawings nothing is left. -/
@[simp] theorem prunedAll_nil (budget : Nat) : prunedAll budget [] = [] := by rw [prunedAll]

/-- With no budget nothing is left. -/
@[simp] theorem prunedAll_zero (drawings : List Drawing) : prunedAll 0 drawings = [] := by
  cases drawings <;> simp [prunedAll]

/-- With a budget the first drawing is left, and the others share what it does not use. The
outermost layer takes one of the budget. -/
theorem prunedAll_succ_cons (budget : Nat) (drawing : Drawing) (rest : List Drawing) :
    prunedAll (budget + 1) (drawing :: rest)
      = drawing.pruned budget :: prunedAll (budget + 1 - drawing.size) rest := by
  rw [prunedAll, if_neg (by omega), Nat.add_sub_cancel]

/-- A limit other than zero leaves the outermost layer, and one less inside it. -/
theorem first?_succ (limit : Nat) (drawing : Drawing) :
    drawing.first? (limit + 1) = some (drawing.pruned limit) := by
  rw [first?, if_neg (by omega), Nat.add_sub_cancel]

mutual

/-- The list of the layers is as long as the drawing has layers. -/
theorem length_preorder (depth : Nat) : ∀ drawing : Drawing,
    (preorder depth drawing).length = drawing.size
  | .sound fields children => by
    rw [preorder, List.length_cons, length_preorderAll (depth + 1) children, size_sound]
  | .broken fields obstacle => by rw [preorder, size_broken, List.length_singleton]

/-- The same for a list of drawings. -/
theorem length_preorderAll (depth : Nat) : ∀ drawings : List Drawing,
    (preorderAll depth drawings).length = sizeAll drawings
  | [] => by rw [preorderAll, sizeAll_nil, List.length_nil]
  | drawing :: rest => by
    rw [preorderAll, List.length_append, length_preorder depth drawing,
      length_preorderAll depth rest, sizeAll_cons]

end

mutual

/-- Pruning keeps the front part of the pre-order: the outermost layer and `budget` layers behind
it. -/
theorem preorder_pruned (depth budget : Nat) : ∀ drawing : Drawing,
    preorder depth (drawing.pruned budget) = (preorder depth drawing).take (budget + 1)
  | .sound fields children => by
    rw [pruned, preorder, preorder, List.take_succ_cons,
      preorderAll_prunedAll (depth + 1) budget children]
  | .broken fields obstacle => by simp [pruned, preorder]

/-- The same for a list of drawings. -/
theorem preorderAll_prunedAll (depth budget : Nat) : ∀ drawings : List Drawing,
    preorderAll depth (prunedAll budget drawings) = (preorderAll depth drawings).take budget
  | [] => by simp [preorderAll]
  | drawing :: rest => by
    cases budget with
    | zero => simp [preorderAll]
    | succ budget =>
      -- The first drawing takes what it has from the budget, and the others get the rest.
      rw [prunedAll_succ_cons, preorderAll, preorderAll, List.take_append,
        length_preorder, preorder_pruned depth budget drawing,
        preorderAll_prunedAll depth _ rest]

end

mutual

/-- A drawing that is small enough stays as it is. So a limit that is not reached changes nothing.
-/
theorem pruned_eq_self {budget : Nat} : ∀ {drawing : Drawing}, drawing.size ≤ budget + 1 →
    drawing.pruned budget = drawing
  | .sound fields children, h => by
    rw [size_sound] at h
    rw [pruned, prunedAll_eq_self (by omega)]
  | .broken fields obstacle, _ => by rw [pruned]

/-- The same for a list of drawings. -/
theorem prunedAll_eq_self {budget : Nat} : ∀ {drawings : List Drawing}, sizeAll drawings ≤ budget →
    prunedAll budget drawings = drawings
  | [], _ => prunedAll_nil budget
  | drawing :: rest, h => by
    rw [sizeAll_cons] at h
    have hpos := drawing.size_pos
    obtain ⟨less, rfl⟩ : ∃ less, budget = less + 1 := ⟨budget - 1, by omega⟩
    -- What the first drawing leaves of the budget is enough for the others.
    rw [prunedAll_succ_cons, pruned_eq_self (by omega), prunedAll_eq_self (by omega)]

end

/-- The number of layers that are left. -/
theorem size_pruned (budget : Nat) (drawing : Drawing) :
    (drawing.pruned budget).size = min drawing.size (budget + 1) := by
  rw [← length_preorder 0, preorder_pruned, List.length_take, length_preorder, Nat.min_comm]

mutual

/-- Pruning more after pruning less is pruning more. With this, what holds of a small limit can be
read off a larger one. -/
theorem pruned_pruned {less more : Nat} (h : more ≤ less) : ∀ drawing : Drawing,
    (drawing.pruned less).pruned more = drawing.pruned more
  | .sound fields children => by
    rw [pruned, pruned, pruned, prunedAll_prunedAll h children]
  | .broken fields obstacle => by simp only [pruned]

/-- The same for a list of drawings. -/
theorem prunedAll_prunedAll {less more : Nat} (h : more ≤ less) : ∀ drawings : List Drawing,
    prunedAll more (prunedAll less drawings) = prunedAll more drawings
  | [] => by simp only [prunedAll_nil]
  | drawing :: rest => by
    cases more with
    | zero => simp only [prunedAll_zero]
    | succ more =>
      obtain ⟨less, rfl⟩ := Nat.exists_eq_succ_of_ne_zero (by omega : less ≠ 0)
      have hleft : more + 1 - (drawing.pruned less).size = more + 1 - drawing.size := by
        rw [size_pruned]
        omega
      rw [prunedAll_succ_cons, prunedAll_succ_cons, prunedAll_succ_cons, hleft,
        pruned_pruned (by omega) drawing, prunedAll_prunedAll (by omega) rest]

end

end DesignCompiler.Drawing
