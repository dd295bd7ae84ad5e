import DesignCompiler.Generate
import DesignCompiler.Layout.RoundTrip
import DesignCompiler.Proofs.Layout.Layer
import DesignCompiler.Proofs.Outcome

/-!
# `DesignCompiler.Proofs.Layout.RoundTrip`: trees come back from what is written of them

A layer is written under the camel-case names of its fields, fields without a value left out.
Reading looks each field up under two names. No two fields have a name in common
(`Property.eq_of_camelName_mem`), so it finds what was written of that field, or nothing
(`Layer.givenBy_toFields`). Each single value is accepted as what it was, which makes the whole
layer accepted (`Layer.check_toFields`), and a tree level by level (`Node.check_toJson`).

`Node.dump` and `Node.ofJson` have a limit each, the first for levels and the second for nodes
inside one another. A tree within the first is within the second. So all that can happen to a tree
on the way is that it is too deep to be dumped (`Node.ofJson_dump`), and code generated from the
dump is the code generated from the tree, fault for fault (`Generated.ofValues_dumpAll`).
-/

set_option autoImplicit false

namespace DesignCompiler

open Outcome Schema

namespace Json

/-- A field that is found is there. The converse needs that no other field has the name. -/
theorem mem_of_field? {fields : Fields} {name : Text} {value : Json}
    (h : field? fields name = some value) : (name, value) ∈ fields := by
  obtain ⟨⟨key, found⟩, hfind, rfl⟩ := Option.map_eq_some_iff.mp h
  have hkey : key = name := by simpa using List.find?_some hfind
  rw [← hkey]
  exact List.mem_of_find?_eq_some hfind

/-- Some field is found under a name that is there. -/
theorem exists_field?_of_mem {fields : Fields} {name : Text} {value : Json}
    (h : (name, value) ∈ fields) : ∃ found, field? fields name = some found := by
  have hsome : (fields.find? fun entry => entry.1 = name).isSome := by
    rw [List.find?_isSome]
    exact ⟨_, h, decide_eq_true rfl⟩
  obtain ⟨entry, hentry⟩ := Option.isSome_iff_exists.mp hsome
  exact ⟨entry.2, by rw [field?, hentry, Option.map_some]⟩

end Json

/-! ### Fields of a layer -/

namespace Property

/-- Every field is in the list of fields, so what holds of the list holds of each. -/
theorem mem_all (property : Property) : property ∈ all := by
  cases property <;> decide

/-- The name under which a field is written is no name of another field. There are eighteen fields,
and all pairs are tried. -/
theorem eq_of_camelName_mem {p q : Property} (h : q.camelName ∈ [p.camelName, p.plainName]) :
    q = p := by
  have hall : ∀ p ∈ all, ∀ q ∈ all, q.camelName ∈ [p.camelName, p.plainName] → q = p := by
    decide +kernel
  exact hall p p.mem_all q q.mem_all h

/-- The children are given under a name of their own, which no field is written under. -/
theorem camelName_ne_childrenName (p : Property) : p.camelName ≠ childrenName := by
  cases p <;> decide

/-- Nor is it the other name of a field. -/
theorem plainName_ne_childrenName (p : Property) : p.plainName ≠ childrenName := by
  cases p <;> decide

end Property

namespace Layer

/-- The written fields are those with a value, each under its camel-case name. -/
theorem mem_toFields {l : Layer} {name : Text} {value : Json} :
    (name, value) ∈ l.toFields ↔ ∃ p, p.camelName = name ∧ l.value? p = some value := by
  simp only [toFields, List.mem_filterMap, Option.map_eq_some_iff, Prod.mk.injEq]
  constructor
  · rintro ⟨p, -, v, hvalue, hname, rfl⟩
    exact ⟨p, hname, hvalue⟩
  · rintro ⟨p, hname, hvalue⟩
    exact ⟨p, p.mem_all, value, hvalue, hname, rfl⟩

/-- A field of a written node is found under its camel-case name, if it has a value at all. The
second name is tried only after the first, and finds nothing either. -/
theorem givenBy_toFields (l : Layer) (children : Json) (p : Property) :
    givenBy (l.toFields ++ [(childrenName, children)]) p
      = (l.value? p).map fun value => (p.camelName, value) := by
  have hnames : ∀ name ∈ [p.camelName, p.plainName], name ≠ childrenName := by
    simp [p.camelName_ne_childrenName, p.plainName_ne_childrenName]
  -- Whatever stands under one of the two names is the value of the field.
  have hvalue : ∀ name ∈ [p.camelName, p.plainName], ∀ value,
      (name, value) ∈ l.toFields ++ [(childrenName, children)] → l.value? p = some value := by
    intro name hname value hmem
    rcases List.mem_append.mp hmem with hmem | hmem
    · obtain ⟨q, rfl, hq⟩ := mem_toFields.mp hmem
      rw [← Property.eq_of_camelName_mem hname]
      exact hq
    · rw [List.mem_singleton, Prod.mk.injEq] at hmem
      exact absurd hmem.1 (hnames name hname)
  rw [givenBy, given?]
  cases hp : l.value? p with
  | none =>
    have hnone : ∀ name ∈ [p.camelName, p.plainName],
        Json.field? (l.toFields ++ [(childrenName, children)]) name = none := by
      intro name hname
      rw [Option.eq_none_iff_forall_not_mem]
      intro value hfound
      rw [hvalue name hname value (Json.mem_of_field? hfound)] at hp
      cases hp
    simp [hnone]
  | some value =>
    have hmem : (p.camelName, value) ∈ l.toFields ++ [(childrenName, children)] :=
      List.mem_append_left _ (mem_toFields.mpr ⟨p, rfl, hp⟩)
    obtain ⟨found, hfound⟩ := Json.exists_field?_of_mem hmem
    have hsame := hvalue p.camelName List.mem_cons_self found (Json.mem_of_field? hfound)
    rw [hp, Option.some.injEq] at hsame
    rw [List.findSome?_cons, hfound, ← hsame]
    rfl

end Layer

/-- A layer is read from what is written of it. The children behind the fields do not matter, as no
field has their name. -/
theorem Layer.check_toFields (l : Layer) (children : Json) :
    Layer.check (givenBy (l.toFields ++ [(childrenName, children)])) = .accepted l := by
  have hgiven := l.givenBy_toFields children
  rw [Layer.check_eq_accepted]
  -- Each field is given as it was written, or not at all.
  constructor <;> rw [hgiven]
  case id | type | name => exact field_given restores_text _ _ _
  case x | y | width | height => exact field_given restores_number _ _ _
  case backgroundColor | borderColor | text | textColor => exact field_nullable restores_text _ _
  case borderWidth | borderRadius | fontSize | spacing => exact field_nullable restores_number _ _
  case fontWeight => exact field_nullable FontWeight.restores _ _
  case layout => exact field_nullable Direction.restores _ _
  case padding => exact field_nullable Padding.restores _ _

/-! ### Trees -/

namespace Node

/-- The children are looked for behind fields with other names, whatever these hold. -/
theorem checkChildrenIn_append (levels : Nat) {front : Json.Fields} (children : Json)
    (h : ∀ entry ∈ front, entry.1 ≠ childrenName) :
    checkChildrenIn levels (front ++ [(childrenName, children)])
      = (checkChildren levels children).under (.field childrenName) := by
  induction front with
  | nil => rw [List.nil_append, checkChildrenIn, if_pos rfl]
  | cons entry rest ih =>
    rw [List.cons_append, checkChildrenIn, if_neg (h entry List.mem_cons_self)]
    exact ih fun other hother => h other (List.mem_cons_of_mem entry hother)

/-- The children of a written layer are looked for behind its fields. -/
theorem checkChildrenIn_toFields (levels : Nat) (l : Layer) (children : Json) :
    checkChildrenIn levels (l.toFields ++ [(childrenName, children)])
      = (checkChildren levels children).under (.field childrenName) := by
  refine checkChildrenIn_append levels children ?_
  rintro ⟨name, value⟩ hmem
  obtain ⟨p, rfl, -⟩ := Layer.mem_toFields.mp hmem
  exact p.camelName_ne_childrenName

mutual

/-- A tree is read from what is written of it, if it has no more levels than are read. The induction
is on the tree and on the list of its children, with one level less inside. -/
theorem check_toJson {levels : Nat} : ∀ {node : Node}, node.levels ≤ levels →
    check levels node.toJson = .accepted node
  | .mk l children, h => by
    rw [Node.levels] at h
    -- Every node takes a level, so one is left to read it.
    obtain ⟨rest, rfl⟩ : ∃ rest, levels = rest + 1 := ⟨levels - 1, by omega⟩
    have hchildren : levelsAll children ≤ rest := by omega
    rw [toJson, check, l.check_toFields, checkChildrenIn_toFields, checkChildren,
      checkAll_toJsons hchildren]
    show Node.mk <$> Checked.accepted l <*> Checked.accepted children = _
    rfl

/-- The same for the trees of a list. -/
theorem checkAll_toJsons {levels position : Nat} : ∀ {nodes : List Node},
    levelsAll nodes ≤ levels → checkAll levels position (toJsons nodes) = .accepted nodes
  | [], _ => rfl
  | node :: rest, h => by
    rw [levelsAll] at h
    have hnode : node.levels ≤ levels := by omega
    have hrest : levelsAll rest ≤ levels := by omega
    rw [toJsons, checkAll, check_toJson hnode, checkAll_toJsons hrest]
    show List.cons <$> Checked.accepted node <*> Checked.accepted rest = _
    rfl

end

/-- Reading gives the tree that was written. -/
theorem ofJson_toJson {levels : Nat} {node : Node} (h : node.levels ≤ levels) :
    ofJson levels node.toJson = .ok node := by
  rw [ofJson, check_toJson h]

/-- All that can happen to a tree on the way is that it is too deep to be dumped. Reading allows at
least as much as dumping, since it does not count the padding. -/
theorem ofJson_dump (levels : Nat) (node : Node) :
    (dump levels node >>= ofJson levels)
      = if node.levels ≤ levels then .ok node else .error .treeTooDeep := by
  rw [dump]
  split
  · next hlevels => exact ofJson_toJson hlevels
  · rfl

/-! ### Forests -/

/-- Trees are dumped if the deepest of them is. The fault does not say which tree was too deep. -/
theorem dumpAll_eq (levels : Nat) (nodes : List Node) :
    dumpAll levels nodes
      = if levelsAll nodes ≤ levels then .ok (toJsons nodes) else .error .treeTooDeep := by
  rw [dumpAll]
  induction nodes with
  | nil => rfl
  | cons node rest ih =>
    rw [List.mapM_cons, ih, dump, levelsAll, toJsons]
    by_cases hnode : node.levels ≤ levels
    · rw [if_pos hnode, ok_bind]
      by_cases hrest : levelsAll rest ≤ levels
      · rw [if_pos hrest, if_pos (by omega)]
        rfl
      · rw [if_neg hrest, if_neg (by omega)]
        rfl
    · rw [if_neg hnode, error_bind, if_neg (by omega)]

/-- Written trees are read one after the other. -/
theorem mapM_ofJson_toJsons {levels : Nat} {nodes : List Node} (h : levelsAll nodes ≤ levels) :
    (toJsons nodes).mapM (ofJson levels) = .ok nodes := by
  induction nodes with
  | nil => rfl
  | cons node rest ih =>
    rw [levelsAll] at h
    have hnode : node.levels ≤ levels := by omega
    have hrest : levelsAll rest ≤ levels := by omega
    rw [toJsons, List.mapM_cons, ofJson_toJson hnode, ih hrest]
    rfl

/-- Trees come back, unless they are too deep to be dumped or to be compared. The limit for
comparing is the lower one, so both faults occur. -/
theorem comeBack_eq (nodes : List Node) :
    comeBack nodes = if levelsAll nodes ≤ levelLimit
      then (if levelsAll nodes ≤ comparedLimit then .ok true else .error .comparedTooDeep)
      else .error .treeTooDeep := by
  rw [comeBack, dumpAll_eq]
  split
  · next hlevels =>
    rw [ok_bind, mapM_ofJson_toJsons hlevels, ok_bind, compare, decide_eq_true rfl]
  · rfl

end Node

/-- Trees are a faithful exchange format: what is read from a dump is the tree that was dumped, and
the code generated from a dump is the code generated from the trees, or the same fault. A tree of
more levels than the limit is the only one that is not dumped. -/
theorem Generated.ofValues_dumpAll (levels : Nat) :
    (∀ node : Node, (node.dump levels >>= Node.ofJson levels)
      = if node.levels ≤ levels then .ok node else .error .treeTooDeep)
    ∧ ∀ (platform : Json) (extract : Bool) (nodes : List Node),
      (Node.dumpAll levels nodes >>= fun trees => ofValues levels platform extract (.list trees))
        = if Node.levelsAll nodes ≤ levels
          then Platform.resolve platform >>= fun target => ofNodes target extract nodes
          else .error .treeTooDeep := by
  refine ⟨Node.ofJson_dump levels, ?_⟩
  intro platform extract nodes
  rw [Node.dumpAll_eq]
  split
  · next hlevels =>
    have hforest : Node.forest levels (.list (Node.toJsons nodes)) = .ok nodes :=
      Node.mapM_ofJson_toJsons hlevels
    rw [ok_bind, ofValues]
    -- The platform is looked at first on both sides.
    congr 1
    funext target
    show (Node.forest levels (.list (Node.toJsons nodes)) >>= _) = ofNodes target extract nodes
    rw [hforest, ok_bind]
  · rfl

end DesignCompiler
