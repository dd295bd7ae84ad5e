import DesignCompiler.Proofs.Json.RoundTrip
import DesignCompiler.Proofs.Layout.RoundTrip

/-!
# `DesignCompiler.Proofs.Layout.Written`: what is written of a tree, as JSON

The names of a written layer are different (`Layer.names_nodup`), so all that could keep a written
tree from being read are whole numbers of too many digits (`Node.readable_toJson`). Each level of a
tree is an object with a list in it, which makes the JSON twice as deep as the tree
(`Node.levels_le_depth`).
-/

set_option autoImplicit false

namespace DesignCompiler

open Json

/-! ### Layers -/

namespace Layer

/-- The names of the written fields stand in the order of all fields. Leaving fields out cannot make
two names equal. -/
theorem names_sublist (l : Layer) (properties : List Property) :
    ((properties.filterMap fun property =>
      (l.value? property).map (property.camelName, ·)).map Prod.fst).Sublist
        (properties.map Property.camelName) := by
  induction properties with
  | nil => exact .slnil
  | cons property rest ih =>
    cases hvalue : l.value? property with
    | none =>
      rw [List.filterMap_cons_none (by rw [hvalue]; rfl)]
      exact ih.cons property.camelName
    | some value =>
      rw [List.filterMap_cons_some (by rw [hvalue]; rfl)]
      exact ih.cons_cons property.camelName

/-- A written layer has different names, that of its children included. It is what a reader asks for
that takes the last of equal names. -/
theorem names_nodup (l : Layer) (children : Json) :
    ((l.toFields ++ [(childrenName, children)]).map Prod.fst).Nodup := by
  have hall : (Property.all.map Property.camelName ++ [childrenName]).Nodup := by
    decide +kernel
  rw [List.map_append]
  exact hall.sublist ((l.names_sublist Property.all).append (.refl _))

/-- The value of a field is text, a double, a font weight or a padding. There are eighteen fields
but four kinds of values, so proofs about written values have four cases. -/
theorem value?_cases {l : Layer} {p : Property} {value : Json} (h : l.value? p = some value) :
    (∃ t, value = .text t) ∨ (∃ x, value = .double x)
      ∨ (∃ weight : FontWeight, value = weight.toJson)
      ∨ ∃ padding : Padding, value = padding.toJson := by
  -- The properties come in four kinds: texts, numbers, the weight, and the padding.
  cases p
  case id | type | name =>
    cases h
    exact .inl ⟨_, rfl⟩
  case x | y | width | height =>
    cases h
    exact .inr (.inl ⟨_, rfl⟩)
  case backgroundColor | borderColor | text | textColor =>
    obtain ⟨t, -, rfl⟩ := Option.map_eq_some_iff.mp h
    exact .inl ⟨t, rfl⟩
  case borderWidth | borderRadius | fontSize | spacing =>
    obtain ⟨x, -, rfl⟩ := Option.map_eq_some_iff.mp h
    exact .inr (.inl ⟨x, rfl⟩)
  case fontWeight =>
    obtain ⟨weight, -, rfl⟩ := Option.map_eq_some_iff.mp h
    exact .inr (.inr (.inl ⟨weight, rfl⟩))
  case layout =>
    obtain ⟨direction, -, rfl⟩ := Option.map_eq_some_iff.mp h
    exact .inl ⟨direction.token, rfl⟩
  case padding =>
    obtain ⟨padding, -, rfl⟩ := Option.map_eq_some_iff.mp h
    exact .inr (.inr (.inr ⟨padding, rfl⟩))

/-- The value of a field can be read back if its whole numbers can. Only a font weight may be such a
number. -/
theorem readable_value {l : Layer} {p : Property} {value : Json} (h : l.value? p = some value)
    (hdigits : value.WithinDigits) : value.Readable := by
  rcases value?_cases h with ⟨t, rfl⟩ | ⟨x, rfl⟩ | ⟨weight, rfl⟩ | ⟨padding, rfl⟩
  · trivial
  · trivial
  · cases weight with
    | whole n => exact hdigits n List.mem_cons_self
    | exact x => trivial
    | named t => trivial
  · have hnames : ["top".toList, "right".toList, "bottom".toList, "left".toList].Nodup := by
      decide
    exact ⟨hnames, trivial, trivial, trivial, trivial, trivial⟩

end Layer

/-! ### Trees -/

namespace Node

mutual

/-- A written tree can be read, if its whole numbers can. The induction is on the tree and on the
list of its children. -/
theorem readable_toJson : ∀ (node : Node), node.toJson.WithinDigits → node.toJson.Readable
  | .mk l children, h => by
    rw [toJson] at h ⊢
    rw [Readable]
    refine ⟨l.names_nodup _, readableFields_iff.mpr ?_⟩
    rintro ⟨name, value⟩ hmem
    have hdigits : value.WithinDigits := h.field hmem
    rcases List.mem_append.mp hmem with hmem | hmem
    · obtain ⟨p, -, hvalue⟩ := Layer.mem_toFields.mp hmem
      exact Layer.readable_value hvalue hdigits
    · obtain ⟨-, rfl⟩ := Prod.mk.inj (List.mem_singleton.mp hmem)
      exact readableAll_toJsons children hdigits

/-- The same for the trees of a list. -/
theorem readableAll_toJsons : ∀ (nodes : List Node),
    (Json.list (toJsons nodes)).WithinDigits → ReadableAll (toJsons nodes)
  | [], _ => trivial
  | node :: rest, h => by
    rw [toJsons] at h ⊢
    refine ⟨readable_toJson node (h.item List.mem_cons_self), readableAll_toJsons rest ?_⟩
    exact fun n hn => h n (List.mem_append_right _ hn)

end

mutual

/-- A level of a tree is an object and a list. The two at the end are for the innermost node, whose
list is empty. -/
theorem levels_le_depth : ∀ (node : Node), 2 * node.levels ≤ node.toJson.depth + 2
  | .mk l children => by
    have hchildren := levelsAll_le_depthAll children
    have hpadding : l.padding.toList.length ≤ 1 := by
      cases l.padding with
      | none => exact Nat.zero_le 1
      | some padding => exact Nat.le_refl 1
    -- A padding is an object beside the list of the children, which is there anyway.
    have hlist : (Json.list (toJsons children)).depth
        ≤ depthFields (l.toFields ++ [(childrenName, .list (toJsons children))]) :=
      depth_le_depthFields (List.mem_append_right _ (List.mem_singleton_self _))
    rw [depth] at hlist
    rw [levels, toJson, depth]
    omega

/-- The same for the trees of a list, of which the deepest counts on both sides. -/
theorem levelsAll_le_depthAll : ∀ (nodes : List Node),
    2 * levelsAll nodes ≤ depthAll (toJsons nodes) + 2
  | [] => by
    rw [levelsAll]
    omega
  | node :: rest => by
    have hnode := levels_le_depth node
    have hrest := levelsAll_le_depthAll rest
    rw [levelsAll, toJsons, depthAll]
    omega

end

end Node

end DesignCompiler
