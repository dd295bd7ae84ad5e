import DesignCompiler.Layout.Node

/-!
# `DesignCompiler.Proofs.Layout.Preorder`: the layers of a forest with their depths

`Node.preorderAll` lists the layers of some trees with their depths. The list says everything about
the trees: which of the layers that follow are inside a layer is told by their depths
(`Node.preorderAll_injective`). So it is enough to compare lists where trees are meant.
-/

set_option autoImplicit false

namespace DesignCompiler.Node

/-- Where the list of a forest ends among layers that are not inside it, the forest can be told, and
what follows. The two lists behind make the induction go through: inside a tree they hold what
stands behind it. -/
theorem preorderAll_append_inj (depth : Nat) : ∀ (ns ms : List Node) {xs ys : List (Nat × Layer)},
    (∀ x ∈ xs.head?, x.1 < depth) → (∀ y ∈ ys.head?, y.1 < depth) →
      preorderAll depth ns ++ xs = preorderAll depth ms ++ ys → ns = ms ∧ xs = ys
  | [], [], xs, ys => by
    intro _ _ h
    exact ⟨rfl, h⟩
  | [], .mk l children :: ms, xs, ys => by
    intro hxs _ h
    have hhead := hxs (depth, l) (by rw [show xs = _ from h]; simp [preorderAll, preorder])
    exact absurd hhead (Nat.lt_irrefl depth)
  | .mk l children :: ns, [], xs, ys => by
    intro _ hys h
    have hhead := hys (depth, l) (by rw [show ys = _ from h.symm]; simp [preorderAll, preorder])
    exact absurd hhead (Nat.lt_irrefl depth)
  | .mk l cs :: ns, .mk k ds :: ms, xs, ys => by
    intro hxs hys h
    simp only [preorderAll, preorder, List.cons_append, List.append_assoc, List.cons.injEq,
      Prod.mk.injEq, true_and] at h
    obtain ⟨rfl, h⟩ := h
    -- What follows the children is no deeper than their parent.
    have hbehind : ∀ {nodes : List Node} {zs : List (Nat × Layer)},
        (∀ z ∈ zs.head?, z.1 < depth) →
          ∀ z ∈ (preorderAll depth nodes ++ zs).head?, z.1 < depth + 1 := by
      intro nodes zs hzs z hz
      cases nodes with
      | nil => exact Nat.lt_succ_of_lt (hzs z hz)
      | cons node rest =>
        obtain ⟨top, inside⟩ := node
        simp only [preorderAll, preorder, List.cons_append, List.head?_cons,
          Option.mem_some_iff] at hz
        subst hz
        exact Nat.lt_succ_self depth
    obtain ⟨rfl, hrest⟩ := preorderAll_append_inj (depth + 1) cs ds (hbehind hxs) (hbehind hys) h
    obtain ⟨rfl, rfl⟩ := preorderAll_append_inj depth ns ms hxs hys hrest
    exact ⟨rfl, rfl⟩

/-- Forests with the same layers at the same depths are equal. Nothing stands behind a whole forest,
so the statement above applies with empty lists. -/
theorem preorderAll_injective (depth : Nat) {ns ms : List Node}
    (h : preorderAll depth ns = preorderAll depth ms) : ns = ms := by
  refine (@preorderAll_append_inj depth ns ms [] [] (by simp) (by simp) ?_).1
  rw [h]

end DesignCompiler.Node
