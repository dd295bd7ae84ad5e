import DesignCompiler.Proofs.Json.RoundTrip

/-!
# `DesignCompiler.Proofs.Json.Extent`: how long a deep value is

Written on lines of its own, a value stands inside two blanks for each list and object around it.
The closing brackets alone make it longer than the square of its depth (`length_of_lt_depth`), so a
limit on the length is one on the depth too.
-/

set_option autoImplicit false

namespace DesignCompiler.Json

/-- One level further in, one step of depth less: what is missing is a closing bracket. This is the
arithmetic of the induction step below, kept out of it. -/
theorem extent_succ (d level : Nat) : (d + 1) * (2 * level + (d + 1) + 1)
    = d * (2 * (level + 1) + d + 1) + (2 * level + 2) := calc
  (d + 1) * (2 * level + (d + 1) + 1)
      = d * (2 * level + (d + 1) + 1) + (2 * level + (d + 1) + 1) := Nat.succ_mul _ _
  _ = d * (2 * level + (d + 1) + 1) + d + (2 * level + 2) := by omega
  _ = d * (2 * (level + 1) + d + 1) + (2 * level + 2) := by
    rw [← Nat.mul_succ, show 2 * (level + 1) + d + 1 = (2 * level + (d + 1) + 1).succ by omega]

/-- A closing bracket stands on a line of its own, behind the blanks of its level. These blanks make
a deep value long. -/
theorem length_close (level : Nat) (bracket : Char) (rest : Text) :
    (Style.indented.breakBefore level ++ bracket :: rest).length
      = 2 * level + 2 + rest.length := by
  simp only [Style.breakBefore, List.length_append, List.length_cons, List.length_replicate]
  omega

/-- What follows the items of a list is part of their text. -/
theorem length_le_writeItems (style : Style) (level : Nat) (items : List Json) (rest : Text) :
    rest.length ≤ (writeItems style level items rest).length := by
  have happend := writeItems_append style level items [] rest
  rw [List.nil_append] at happend
  rw [happend, List.length_append]
  omega

/-- What follows the fields of an object is part of their text. -/
theorem length_le_writeFields (style : Style) (level : Nat) (fields : Fields) (rest : Text) :
    rest.length ≤ (writeFields style level fields rest).length := by
  have happend := writeFields_append style level fields [] rest
  rw [List.nil_append] at happend
  rw [happend, List.length_append]
  omega

mutual

/-- A value is longer than any depth below its own makes it.

The bound counts the closing brackets of `d` lists and objects inside one another, the innermost
with most blanks in front. Stating it for every `d` below the depth, and not for the depth itself,
lets a list pass it on to whichever of its items is deep enough. -/
theorem length_of_lt_depth : ∀ (value : Json) {d : Nat} (level : Nat) (rest : Text),
    d < value.depth →
    d * (2 * level + d + 1) + rest.length ≤ (writeBefore .indented level value rest).length
  | .null, d, level, rest, hd | .bool _, d, level, rest, hd | .int _, d, level, rest, hd
  | .double _, d, level, rest, hd | .text _, d, level, rest, hd => by
    rw [depth] at hd
    exact absurd hd (Nat.not_lt_zero d)
  | value, 0, level, rest, _ => by
    have hlength := length_lt_writeBefore .indented level value rest
    omega
  | .list [], d + 1, level, rest, hd | .object [], d + 1, level, rest, hd => by
    simp only [depth, depthAll, depthFields] at hd
    omega
  | .list (item :: items), d + 1, level, rest, hd => by
    -- The items are a level further inside, and the bracket has its own blanks in front.
    rw [depth, depthAll] at hd
    have hitems := length_of_lt_depthAll item items (level + 1)
      (Style.indented.breakBefore level ++ ']' :: rest) (Nat.lt_of_succ_lt_succ hd)
    rw [length_close] at hitems
    rw [extent_succ, writeBefore_list, itemsText, List.length_cons, List.length_append]
    omega
  | .object ((name, value) :: fields), d + 1, level, rest, hd => by
    rw [depth, depthFields] at hd
    have hfields := length_of_lt_depthFields value fields (level + 1)
      (Style.indented.breakBefore level ++ '\x7d' :: rest) (Nat.lt_of_succ_lt_succ hd)
    rw [length_close] at hfields
    rw [extent_succ, writeBefore_object, fieldsText]
    simp only [List.length_cons, List.length_append]
    omega
termination_by value => sizeOf value

/-- The items of a list are as long as the deepest of them. -/
theorem length_of_lt_depthAll : ∀ (item : Json) (items : List Json) {d : Nat} (level : Nat)
    (rest : Text), d < max item.depth (depthAll items) →
    d * (2 * level + d + 1) + rest.length
      ≤ (writeBefore .indented level item (writeItems .indented level items rest)).length
  | item, [], d, level, rest, hd => by
    rw [depthAll, Nat.max_zero] at hd
    exact length_of_lt_depth item level rest hd
  | item, next :: items, d, level, rest, hd => by
    rw [depthAll] at hd
    -- Either this item is deep enough, or one behind it is.
    by_cases hitem : d < item.depth
    · have hlength := length_of_lt_depth item level
        (writeItems .indented level (next :: items) rest) hitem
      have hrest := length_le_writeItems .indented level (next :: items) rest
      omega
    · have hdeeper : d < max next.depth (depthAll items) := by omega
      have hnext := length_of_lt_depthAll next items level rest hdeeper
      have hlength := length_lt_writeBefore .indented level item
        (writeItems .indented level (next :: items) rest)
      rw [writeItems, List.length_append] at hlength
      rw [writeItems]
      omega
termination_by item items => 1 + sizeOf item + sizeOf items

/-- The fields of an object are as long as the deepest of them. -/
theorem length_of_lt_depthFields : ∀ (value : Json) (fields : Fields) {d : Nat} (level : Nat)
    (rest : Text), d < max value.depth (depthFields fields) →
    d * (2 * level + d + 1) + rest.length
      ≤ (writeBefore .indented level value (writeFields .indented level fields rest)).length
  | value, [], d, level, rest, hd => by
    rw [depthFields, Nat.max_zero] at hd
    exact length_of_lt_depth value level rest hd
  | value, (next, other) :: fields, d, level, rest, hd => by
    rw [depthFields] at hd
    -- The first value is deep enough itself, or else one of the fields behind it is.
    by_cases hvalue : d < value.depth
    · have hlength := length_of_lt_depth value level
        (writeFields .indented level ((next, other) :: fields) rest) hvalue
      have hrest := length_le_writeFields .indented level ((next, other) :: fields) rest
      omega
    · have hdeeper : d < max other.depth (depthFields fields) := by omega
      have hnext := length_of_lt_depthFields other fields level rest hdeeper
      have hlength := length_lt_writeBefore .indented level value
        (writeFields .indented level ((next, other) :: fields) rest)
      rw [writeFields, List.length_append] at hlength
      rw [writeFields]
      omega
termination_by value fields => 1 + sizeOf value + sizeOf fields

end

/-- The length of a value on lines of its own is a limit on its depth. So a reply within the
character limit is read with the levels that the reader allows. -/
theorem depth_le_of_length {value : Json} {d : Nat} (h : value.indented.length < d * (d + 1)) :
    value.depth ≤ d := by
  refine Nat.not_lt.mp fun hd => ?_
  have hlength := length_of_lt_depth value 0 [] hd
  rw [Nat.mul_zero, Nat.zero_add, List.length_nil, Nat.add_zero] at hlength
  exact absurd h (Nat.not_lt.mpr hlength)

end DesignCompiler.Json
