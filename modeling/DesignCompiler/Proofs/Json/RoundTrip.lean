import DesignCompiler.Proofs.Json.Number
import DesignCompiler.Proofs.Json.Quoted
import DesignCompiler.Proofs.Outcome

/-!
# `DesignCompiler.Proofs.Json.RoundTrip`: written values read back

A value comes back from its written form in every style (`read_write`) if it is `Readable`: its
whole numbers have no more digits than are read, and no object has a name twice. The levels have to
be enough for the lists and objects inside one another (`depth`).

The induction is over the value, with the text that follows it left open. What follows a value does
not go on a number (`EndsNumber`), and is found behind blanks that the reader skips. The budget of
calls is told by lengths: each call uses up a character, so twice the length of the written form is
enough.
-/

set_option autoImplicit false

namespace DesignCompiler.Json

open Text Quoted

/-! ### Values that are read back -/

mutual

/-- How many lists and objects are inside one another in a value. This is what the reader's `levels`
allow or refuse. -/
def depth : Json → Nat
  | .list items => depthAll items + 1
  | .object fields => depthFields fields + 1
  | .null | .bool _ | .int _ | .double _ | .text _ => 0

/-- The greatest depth of the items of a list. -/
def depthAll : List Json → Nat
  | [] => 0
  | item :: rest => max (depth item) (depthAll rest)

/-- The greatest depth of the fields of an object. -/
def depthFields : Fields → Nat
  | [] => 0
  | (_, value) :: rest => max (depth value) (depthFields rest)

end

/-- An object is as deep as the deepest of its fields. -/
theorem depth_le_depthFields {fields : Fields} {name : Text} {value : Json}
    (h : (name, value) ∈ fields) : value.depth ≤ depthFields fields := by
  induction fields with
  | nil => cases h
  | cons entry rest ih =>
    rw [depthFields]
    rcases List.mem_cons.mp h with rfl | hmem
    · exact Nat.le_max_left _ _
    · exact Nat.le_trans (ih hmem) (Nat.le_max_right _ _)

mutual

/-- A value whose written form is read: its whole numbers are within the limit, and the names in
each object are different. A name that occurs twice would be read as one field, with the last value.
-/
def Readable : Json → Prop
  | .int n => n.natAbs < 10 ^ digitLimit
  | .list items => ReadableAll items
  | .object fields => (fields.map Prod.fst).Nodup ∧ ReadableFields fields
  | .null | .bool _ | .double _ | .text _ => True

/-- Every item of a list is readable. -/
def ReadableAll : List Json → Prop
  | [] => True
  | item :: rest => Readable item ∧ ReadableAll rest

/-- Every field of an object is readable. -/
def ReadableFields : Fields → Prop
  | [] => True
  | (_, value) :: rest => Readable value ∧ ReadableFields rest

end

/-- Item by item, as a statement about membership. -/
theorem readableAll_iff {items : List Json} :
    ReadableAll items ↔ ∀ item ∈ items, Readable item := by
  induction items with
  | nil => simp [ReadableAll]
  | cons item rest ih => simp [ReadableAll, ih]

/-- Field by field, as a statement about membership. -/
theorem readableFields_iff {fields : Fields} :
    ReadableFields fields ↔ ∀ entry ∈ fields, Readable entry.2 := by
  induction fields with
  | nil => simp [ReadableFields]
  | cons entry rest ih => simp [ReadableFields, ih]

mutual

/-- The whole numbers in a value, with repetitions. A statement about all of them is one about a
list, also where the value is deep. -/
def wholes : Json → List Int
  | .int n => [n]
  | .list items => wholesAll items
  | .object fields => wholesFields fields
  | .null | .bool _ | .double _ | .text _ => []

/-- The whole numbers in the items of a list. -/
def wholesAll : List Json → List Int
  | [] => []
  | item :: rest => wholes item ++ wholesAll rest

/-- The whole numbers in the fields of an object. -/
def wholesFields : Fields → List Int
  | [] => []
  | (_, value) :: rest => wholes value ++ wholesFields rest

end

/-- No whole number in a value has more digits than are read. -/
def WithinDigits (value : Json) : Prop := ∀ n ∈ value.wholes, n.natAbs < 10 ^ digitLimit

/-- The whole numbers of a list are those of its items. -/
theorem mem_wholesAll {n : Int} {items : List Json} :
    n ∈ wholesAll items ↔ ∃ item ∈ items, n ∈ item.wholes := by
  induction items with
  | nil => simp [wholesAll]
  | cons item rest ih => simp [wholesAll, ih]

/-- The whole numbers of an object are those of its fields. -/
theorem mem_wholesFields {n : Int} {fields : Fields} :
    n ∈ wholesFields fields ↔ ∃ entry ∈ fields, n ∈ entry.2.wholes := by
  induction fields with
  | nil => simp [wholesFields]
  | cons entry rest ih => simp [wholesFields, ih]

/-- The limit passes from a list to its items. -/
theorem WithinDigits.item {items : List Json} {item : Json} (h : (list items).WithinDigits)
    (hmem : item ∈ items) : item.WithinDigits := fun n hn =>
  h n (mem_wholesAll.mpr ⟨item, hmem, hn⟩)

/-- The limit passes from an object to its fields. -/
theorem WithinDigits.field {fields : Fields} {name : Text} {value : Json}
    (h : (object fields).WithinDigits) (hmem : (name, value) ∈ fields) : value.WithinDigits :=
  fun n hn => h n (mem_wholesFields.mpr ⟨(name, value), hmem, hn⟩)

/-- A field with a new name goes to the end, so the fields of a readable object are read in the
order in which they are written. -/
theorem setField_of_not_mem {name : Text} {fields : Fields} (h : name ∉ fields.map Prod.fst)
    (value : Json) : setField name value fields = fields ++ [(name, value)] := by
  induction fields with
  | nil => rfl
  | cons entry rest ih =>
    obtain ⟨key, old⟩ := entry
    rw [List.map_cons, List.mem_cons, not_or] at h
    rw [setField, if_neg (Ne.symm h.1), ih h.2, List.cons_append]

/-- In a list of different names, one does not stand in front of itself. The reader's accumulator is
what stands in front. -/
theorem not_mem_of_nodup {before fields : Fields} {name : Text} {value : Json}
    (h : ((before ++ (name, value) :: fields).map Prod.fst).Nodup) :
    name ∉ before.map Prod.fst := by
  rw [List.map_append, List.map_cons, List.nodup_append] at h
  exact fun hmem => h.2.2 name hmem name List.mem_cons_self rfl

/-! ### Blanks -/

/-- A blank that may stand between the parts of a value. It is the test that `skip` makes, under a
name. -/
def isSkipped (c : Char) : Bool := c = ' ' ∨ c = '\t' ∨ c = '\n' ∨ c = '\r'

/-- Blanks in front are skipped. -/
theorem skip_blanks {blanks : Text} (h : ∀ c ∈ blanks, isSkipped c = true) (t : Text) :
    skip (blanks ++ t) = skip t := List.dropWhile_append_of_pos h

/-- Up to the first character that is no blank. -/
theorem skip_cons {c : Char} (h : isSkipped c = false) (t : Text) : skip (c :: t) = c :: t :=
  List.dropWhile_cons_of_neg (by simpa [isSkipped] using h)

/-- What stands before a bracket or behind a comma is blank, in every style. -/
theorem isSkipped_of_mem_breakBefore {style : Style} {level : Nat} {c : Char}
    (h : c ∈ style.breakBefore level) : isSkipped c = true := by
  cases style with
  | indented =>
    rcases List.mem_cons.mp h with rfl | h
    · decide
    · rw [List.eq_of_mem_replicate h]
      decide
  | spaced | compact => cases h

/-- So is the space behind a comma or a colon. -/
theorem isSkipped_of_mem_blank {c : Char} (h : c ∈ [' ']) : isSkipped c = true := by
  rw [List.mem_singleton.mp h]
  decide

/-- A separator is a comma with blanks behind it. The three styles differ in the blanks only, and
the reader does not see the difference. -/
theorem separator_eq (style : Style) (level : Nat) :
    ∃ blanks, style.separator level = ',' :: blanks ∧ ∀ c ∈ blanks, isSkipped c = true := by
  cases style with
  | indented => exact ⟨_, rfl, fun c hc => isSkipped_of_mem_breakBefore hc⟩
  | spaced => exact ⟨[' '], rfl, fun c hc => isSkipped_of_mem_blank hc⟩
  | compact => exact ⟨[], rfl, nofun⟩

/-- A colon has blanks behind it. -/
theorem colon_eq (style : Style) :
    ∃ blanks, style.colon = ':' :: blanks ∧ ∀ c ∈ blanks, isSkipped c = true := by
  cases style with
  | indented | spaced => exact ⟨[' '], rfl, fun c hc => isSkipped_of_mem_blank hc⟩
  | compact => exact ⟨[], rfl, nofun⟩

/-! ### What a value starts with -/

/-- A character that a written value may start with: no blank and no closing bracket. The reader
looks at it to tell an empty list from one with items. -/
def startsValue (c : Char) : Bool := !isSkipped c && c ≠ ']' && c ≠ '}'

/-- A digit is neither. -/
theorem startsValue_of_isDigit {c : Char} (h : isDigit c = true) : startsValue c = true := by
  have hne : ∀ {d : Char}, isDigit d = false → c ≠ d := by
    rintro d hd rfl
    rw [h] at hd
    cases hd
  have hskipped : isSkipped c = false := by
    simp [isSkipped, hne (show isDigit ' ' = false by decide),
      hne (show isDigit '\t' = false by decide), hne (show isDigit '\n' = false by decide),
      hne (show isDigit '\r' = false by decide)]
  simp [startsValue, hskipped, hne (show isDigit ']' = false by decide),
    hne (show isDigit '}' = false by decide)]

/-- A sign and a digit start a value. -/
theorem exists_start_signed (negative : Bool) {first : Char} (h : isDigit first = true)
    (rest : Text) : ∃ c t, signed negative ++ first :: rest = c :: t ∧ startsValue c = true := by
  cases negative with
  | true => exact ⟨'-', _, rfl, by decide⟩
  | false => exact ⟨first, rest, rfl, startsValue_of_isDigit h⟩

/-- A written value starts with a character of its own, whatever the style and whatever follows. -/
theorem exists_start (style : Style) (level : Nat) (value : Json) (rest : Text) :
    ∃ c t, writeBefore style level value rest = c :: t ∧ startsValue c = true := by
  -- Each constructor has its first character; only those of numbers have to be found.
  cases value with
  | null => exact ⟨'n', _, rfl, by decide⟩
  | bool b =>
    cases b with
    | true => exact ⟨'t', _, rfl, by decide⟩
    | false => exact ⟨'f', _, rfl, by decide⟩
  | int n =>
    have hsigned : ∀ (negative : Bool) (m : Nat),
        ∃ c t, signed negative ++ (ofNat m ++ rest) = c :: t ∧ startsValue c = true := by
      intro negative m
      obtain ⟨first, more, hdigits⟩ := List.exists_cons_of_ne_nil (ofNat_ne_nil m)
      have hfirst : isDigit first = true := isDigits_ofNat m first (hdigits ▸ List.mem_cons_self)
      rw [hdigits]
      exact exists_start_signed negative hfirst (more ++ rest)
    cases n with
    | ofNat m => exact hsigned false m
    | negSucc m => exact hsigned true (m + 1)
  | double x =>
    cases x with
    | nan => exact ⟨'N', _, rfl, by decide⟩
    | infinite negative =>
      cases negative with
      | true => exact ⟨'-', _, rfl, by decide⟩
      | false => exact ⟨'I', _, rfl, by decide⟩
    | finite negative units h =>
      -- What is read as a number starts like one.
      obtain ⟨sign, first, more, hfirst, htext⟩ :=
        exists_digit_of_readNumber (@readNumber_write [] units negative doubleForm h .nil)
      rw [List.append_nil] at htext
      rw [writeBefore, htext, List.append_assoc]
      exact exists_start_signed sign hfirst (more ++ rest)
  | text t => exact ⟨'"', _, rfl, by decide⟩
  | list items =>
    cases items with
    | nil => exact ⟨'[', _, rfl, by decide⟩
    | cons item items => exact ⟨'[', _, rfl, by decide⟩
  | object fields =>
    cases fields with
    | nil => exact ⟨'\x7b', _, rfl, by decide⟩
    | cons field fields => exact ⟨'\x7b', _, rfl, by decide⟩

/-- A written value has a character at least. The budget of the reader is counted with this. -/
theorem length_lt_writeBefore (style : Style) (level : Nat) (value : Json) (rest : Text) :
    rest.length < (writeBefore style level value rest).length := by
  obtain ⟨c, t, htext, -⟩ := exists_start style level value []
  rw [writeBefore_eq, List.length_append, write, htext, List.length_cons]
  omega

/-- Blanks in front of a value are skipped up to the value, no further. -/
theorem skip_writeBefore {blanks : Text} (h : ∀ c ∈ blanks, isSkipped c = true) (style : Style)
    (level : Nat) (value : Json) (rest : Text) :
    skip (blanks ++ writeBefore style level value rest) = writeBefore style level value rest := by
  obtain ⟨c, t, htext, hstart⟩ := exists_start style level value rest
  have hskipped : isSkipped c = false := by
    simp only [startsValue, Bool.and_eq_true, Bool.not_eq_true'] at hstart
    exact hstart.1.1
  rw [skip_blanks h, htext, skip_cons hskipped]

/-- Blanks in front of a string are skipped up to its quotation mark. -/
theorem skip_ascii {blanks : Text} (h : ∀ c ∈ blanks, isSkipped c = true) (t rest : Text) :
    skip (blanks ++ (ascii t ++ rest)) = ascii t ++ rest := by
  rw [skip_blanks h]
  exact skip_cons (by decide) _

/-- A written string is longer than its text by the two quotation marks at least; an escape makes it
longer still. -/
theorem length_le_ascii (t : Text) : t.length + 2 ≤ (ascii t).length := by
  -- Each character is written as one character or more.
  have hlength : t.length ≤ (t.flatMap asciiChar).length := by
    induction t with
    | nil => exact Nat.le_refl 0
    | cons c t ih =>
      have hchar : 1 ≤ (asciiChar c).length := by
        rcases asciiChar_cases c with ⟨hself, -⟩ | ⟨escape, hescape, -⟩
        · simp [hself]
        · simp [hescape]
      rw [List.flatMap_cons, List.length_append, List.length_cons]
      omega
  simp only [ascii, List.length_append, List.length_cons, List.length_nil]
  omega

/-! ### What stands behind an opening bracket -/

/-- The items of a list with its closing bracket and what follows; `level` is that of the list. The
reader of items starts here, so the statement about it is one about this text. -/
def itemsText (style : Style) (level : Nat) (item : Json) (items : List Json) (rest : Text) :
    Text :=
  writeBefore style (level + 1) item
    (writeItems style (level + 1) items (style.breakBefore level ++ ']' :: rest))

/-- The fields of an object with its closing brace and what follows; `level` is that of the object.
-/
def fieldsText (style : Style) (level : Nat) (name : Text) (value : Json) (fields : Fields)
    (rest : Text) : Text :=
  ascii name ++ (style.colon ++ writeBefore style (level + 1) value
    (writeFields style (level + 1) fields (style.breakBefore level ++ '\x7d' :: rest)))

section

variable (style : Style) (level : Nat)

/-- A list with items is its bracket in front of them. -/
theorem writeBefore_list (item : Json) (items : List Json) (rest : Text) :
    writeBefore style level (.list (item :: items)) rest
      = '[' :: (style.breakBefore (level + 1) ++ itemsText style level item items rest) := rfl

/-- An object with fields is its brace in front of them. -/
theorem writeBefore_object (name : Text) (value : Json) (fields : Fields) (rest : Text) :
    writeBefore style level (.object ((name, value) :: fields)) rest
      = '\x7b' :: (style.breakBefore (level + 1)
          ++ fieldsText style level name value fields rest) := by
  simp only [writeBefore, fieldsText, List.append_assoc]

/-- The last item has the closing bracket behind it. -/
theorem itemsText_nil (item : Json) (rest : Text) : itemsText style level item [] rest
    = writeBefore style (level + 1) item (style.breakBefore level ++ ']' :: rest) := rfl

/-- Any other item has a separator and the next items behind it. -/
theorem itemsText_cons (item next : Json) (items : List Json) (rest : Text) :
    itemsText style level item (next :: items) rest
      = writeBefore style (level + 1) item
          (style.separator (level + 1) ++ itemsText style level next items rest) := rfl

/-- The last field has the closing brace behind it. -/
theorem fieldsText_nil (name : Text) (value : Json) (rest : Text) :
    fieldsText style level name value [] rest = ascii name ++ (style.colon
      ++ writeBefore style (level + 1) value (style.breakBefore level ++ '\x7d' :: rest)) := rfl

/-- Any other field has a separator and the next fields behind it. -/
theorem fieldsText_cons (name next : Text) (value other : Json) (fields : Fields) (rest : Text) :
    fieldsText style level name value ((next, other) :: fields) rest
      = ascii name ++ (style.colon ++ writeBefore style (level + 1) value
          (style.separator (level + 1) ++ fieldsText style level next other fields rest)) := by
  simp only [fieldsText, writeFields, List.append_assoc]

/-- The items of a list are longer than what follows them by two characters at least: an item and
the bracket. -/
theorem length_lt_itemsText (item : Json) (items : List Json) (rest : Text) :
    rest.length + 1 < (itemsText style level item items rest).length := by
  induction items generalizing item with
  -- The last item is followed by a bracket and the rest.
  | nil =>
    have hitem := length_lt_writeBefore style (level + 1) item
      (style.breakBefore level ++ ']' :: rest)
    rw [List.length_append, List.length_cons] at hitem
    rw [itemsText_nil]
    omega
  | cons next items ih =>
    have hitem := length_lt_writeBefore style (level + 1) item
      (style.separator (level + 1) ++ itemsText style level next items rest)
    rw [List.length_append] at hitem
    have hnext := ih next
    rw [itemsText_cons]
    omega

/-- The fields of an object are longer than what follows them by two characters at least. -/
theorem length_lt_fieldsText (name : Text) (value : Json) (fields : Fields) (rest : Text) :
    rest.length + 1 < (fieldsText style level name value fields rest).length := by
  induction fields generalizing name value with
  | nil =>
    have hvalue := length_lt_writeBefore style (level + 1) value
      (style.breakBefore level ++ '\x7d' :: rest)
    rw [List.length_append, List.length_cons] at hvalue
    rw [fieldsText_nil, List.length_append, List.length_append]
    omega
  -- Any other field is followed by a separator, which is counted with the next one.
  | cons field fields ih =>
    obtain ⟨next, other⟩ := field
    have hvalue := length_lt_writeBefore style (level + 1) value
      (style.separator (level + 1) ++ fieldsText style level next other fields rest)
    rw [List.length_append] at hvalue
    have hnext := ih next other
    rw [fieldsText_cons, List.length_append, List.length_append]
    omega

/-- What stands before a closing bracket does not go on a number: a line feed, or the bracket
itself. -/
theorem endsNumber_close {bracket : Char} (h : endsNumber bracket = true) (rest : Text) :
    EndsNumber (style.breakBefore level ++ bracket :: rest) := by
  cases style with
  | indented => exact .cons (by decide)
  | spaced | compact => exact .cons h

/-- Neither does a separator, which starts with a comma. -/
theorem endsNumber_separator (rest : Text) : EndsNumber (style.separator level ++ rest) := by
  obtain ⟨blanks, hseparator, -⟩ := separator_eq style level
  rw [hseparator]
  exact .cons (by decide)

/-- What stands behind a separator is found behind blanks. The reader skips blanks, takes the comma
and skips blanks again. -/
theorem skip_separator (t : Text) : ∃ blanks, (∀ c ∈ blanks, isSkipped c = true)
    ∧ skip (style.separator level ++ t) = ',' :: (blanks ++ t) := by
  obtain ⟨blanks, hseparator, hblanks⟩ := separator_eq style level
  refine ⟨blanks, hblanks, ?_⟩
  rw [hseparator, List.cons_append, skip_cons (by decide)]

/-- A separator has a character at least. -/
theorem length_lt_separator (t : Text) : t.length < (style.separator level ++ t).length := by
  obtain ⟨blanks, hseparator, -⟩ := separator_eq style level
  rw [hseparator, List.length_append, List.length_cons]
  omega

/-- What stands behind the members of a list or an object is its bracket. -/
theorem skip_close {bracket : Char} (h : isSkipped bracket = false) (rest : Text) :
    skip (style.breakBefore level ++ bracket :: rest) = bracket :: rest := by
  rw [skip_blanks fun c hc => isSkipped_of_mem_breakBefore hc, skip_cons h]

end

/-! ### Values -/

/-- An atom is a value: it starts like no text, list or object. Each of the three would have been
refused by the reader of atoms. -/
theorem readValue_of_readAtom {levels budget : Nat} {t : Text} {found : Json × Text}
    (h : readAtom t = .ok found) : readValue levels (budget + 1) t = .ok found := by
  -- No atom begins with a quote or a bracket.
  unfold readValue
  split
  · next rest =>
    have hnone : readAtom ('"' :: rest) = .error ⟨.expectingValue, '"' :: rest⟩ := rfl
    rw [hnone] at h
    cases h
  · next rest =>
    have hnone : readAtom ('[' :: rest) = .error ⟨.expectingValue, '[' :: rest⟩ := rfl
    rw [hnone] at h
    cases h
  · next rest =>
    have hnone : readAtom ('\x7b' :: rest) = .error ⟨.expectingValue, '\x7b' :: rest⟩ := rfl
    rw [hnone] at h
    cases h
  · exact h

section

variable {levels budget : Nat} {t u v rest : Text} {item : Json}

/-- A list that does not end at once has items, which are read with one level less. -/
theorem readValue_list {c : Char} (hlevels : levels ≠ 0) (hskip : skip t = c :: u)
    (hc : startsValue c = true) : readValue levels (budget + 1) ('[' :: t)
      = (readItems (levels - 1) budget (c :: u)).map fun (items, rest) => (.list items, rest) := by
  simp only [readValue, if_neg hlevels, hskip]
  split
  · next heq =>
    cases heq
    exact absurd hc (by decide)
  · rfl

/-- An object that does not end at once has fields, which are read with one level less. -/
theorem readValue_object (hlevels : levels ≠ 0) (hskip : skip t = '"' :: u) :
    readValue levels (budget + 1) ('\x7b' :: t)
      = (readFields (levels - 1) budget [] ('"' :: u)).map fun (fields, rest) =>
          (.object fields, rest) := by
  simp only [readValue, if_neg hlevels, hskip]
  rfl

/-- An item with a bracket behind it is the last one. -/
theorem readItems_last (hitem : readValue levels budget t = .ok (item, u))
    (hskip : skip u = ']' :: rest) : readItems levels (budget + 1) t = .ok ([item], rest) := by
  simp only [readItems, hitem, hskip]

/-- An item with a comma behind it is followed by others. -/
theorem readItems_more (hitem : readValue levels budget t = .ok (item, u))
    (hskip : skip u = ',' :: v) : readItems levels (budget + 1) t
      = (readItems levels budget (skip v)).map fun (items, rest) => (item :: items, rest) := by
  simp only [readItems, hitem, hskip]

end

/-- What the reader does behind a field: it stops at the brace, and goes on at a comma. Naming this
part keeps the lemma about one field free of what comes after it. -/
def readBehindField (levels budget : Nat) (fields : Fields) :
    Text → Except ReadError (Fields × Text)
  | '\x7d' :: rest => .ok (fields, rest)
  | ',' :: rest => readFields levels budget fields (skip rest)
  | rest => .error ⟨.expectingComma, rest⟩

/-- A written field is read up to what stands behind its value. The value is assumed to be read
(`hvalue`), which the induction provides. -/
theorem readFields_field (style : Style) (level : Nat) {levels budget : Nat} {name : Text}
    {value : Json} {behind : Text} (before : Fields) (hname : name.length ≤ budget)
    (hvalue : readValue levels budget (writeBefore style level value behind)
      = .ok (value, behind)) :
    readFields levels (budget + 1) before
        (ascii name ++ (style.colon ++ writeBefore style level value behind))
      = readBehindField levels budget (setField name value before) (skip behind) := by
  obtain ⟨blanks, hcolon, hblanks⟩ := colon_eq style
  have hread : readQuoted (budget + 1)
      (ascii name ++ (style.colon ++ writeBefore style level value behind))
        = .ok (name, style.colon ++ writeBefore style level value behind) :=
    readQuoted_ascii name _ (by omega)
  have hskip : skip (style.colon ++ writeBefore style level value behind)
      = ':' :: (blanks ++ writeBefore style level value behind) := by
    rw [hcolon, List.cons_append, skip_cons (by decide)]
  -- The reader looks at the quotation mark first.
  change readFields levels (budget + 1) before ('"' :: _) = _
  change readQuoted (budget + 1) ('"' :: _) = _ at hread
  simp only [readFields, hread, hskip, skip_writeBefore hblanks, hvalue]
  rfl

/-- A value takes a call at least, so a budget that is enough for its length is not used up. -/
theorem exists_call {style : Style} {level budget : Nat} {value : Json} {rest : Text}
    (h : 2 * (writeBefore style level value rest).length ≤ budget + 2 * rest.length) :
    ∃ more, budget = more + 1 := by
  have hlength := length_lt_writeBefore style level value rest
  exact ⟨budget - 1, by omega⟩

mutual

/-- A value is read back from its written form in front of what follows.

The budget is counted in characters: twice the length of the written form, told as a difference to
the rest so that it splits over the members of a list. Each list takes a call for the next item and
one for the item itself, and has a character for both. -/
theorem readValue_writeBefore (style : Style) : ∀ (value : Json) (level levels budget : Nat)
    {rest : Text}, value.Readable → value.depth ≤ levels → EndsNumber rest →
      2 * (writeBefore style level value rest).length ≤ budget + 2 * rest.length →
      readValue levels budget (writeBefore style level value rest) = .ok (value, rest)
  | .null, level, levels, budget, rest, _, _, _, hbudget => by
    obtain ⟨more, rfl⟩ := exists_call hbudget
    rfl
  | .bool b, level, levels, budget, rest, _, _, _, hbudget => by
    obtain ⟨more, rfl⟩ := exists_call hbudget
    cases b <;> rfl
  | .int n, level, levels, budget, rest, hreadable, _, hrest, hbudget => by
    obtain ⟨more, rfl⟩ := exists_call hbudget
    exact readValue_of_readAtom (readAtom_ofInt hreadable hrest)
  | .double x, level, levels, budget, rest, _, _, hrest, hbudget => by
    obtain ⟨more, rfl⟩ := exists_call hbudget
    exact readValue_of_readAtom (readAtom_write x hrest)
  | .text t, level, levels, budget, rest, _, _, _, hbudget => by
    obtain ⟨more, rfl⟩ := exists_call hbudget
    have hquoted := length_le_ascii t
    rw [writeBefore, List.length_append] at hbudget
    have hread : readQuoted (more + 1) (ascii t ++ rest) = .ok (t, rest) :=
      readQuoted_ascii t rest (by omega)
    show (readQuoted (more + 1) (ascii t ++ rest)).map _ = _
    rw [hread]
    rfl
  | .list [], level, levels, budget, rest, _, hdepth, _, hbudget => by
    obtain ⟨more, rfl⟩ := exists_call hbudget
    have hlevels : levels ≠ 0 := by
      rw [depth] at hdepth
      omega
    have hskip : skip (']' :: rest) = ']' :: rest := skip_cons (by decide) rest
    simp only [writeBefore, readValue, if_neg hlevels, hskip]
  | .list (item :: items), level, levels, budget, rest, hreadable, hdepth, _, hbudget => by
    obtain ⟨more, rfl⟩ := exists_call hbudget
    rw [depth, depthAll] at hdepth
    rw [writeBefore_list, List.length_cons, List.length_append] at hbudget
    have hskip : skip (style.breakBefore (level + 1) ++ itemsText style level item items rest)
        = itemsText style level item items rest :=
      skip_writeBefore (fun c hc => isSkipped_of_mem_breakBefore hc) style (level + 1) item _
    have hitems := readItems_itemsText style item items level (levels - 1) more rest
      hreadable.1 hreadable.2 (by omega) (by omega) (by omega)
    -- An item starts like no bracket, so the list does not end at once.
    obtain ⟨c, t, htext, hstart⟩ : ∃ c t, itemsText style level item items rest = c :: t
      ∧ startsValue c = true := exists_start style (level + 1) item _
    rw [writeBefore_list]
    rw [htext] at hskip hitems ⊢
    rw [readValue_list (by omega) hskip hstart, hitems]
    rfl
  | .object [], level, levels, budget, rest, _, hdepth, _, hbudget => by
    obtain ⟨more, rfl⟩ := exists_call hbudget
    have hlevels : levels ≠ 0 := by
      rw [depth] at hdepth
      omega
    have hskip : skip ('\x7d' :: rest) = '\x7d' :: rest := skip_cons (by decide) rest
    simp only [writeBefore, readValue, if_neg hlevels, hskip]
  | .object ((name, value) :: fields), level, levels, budget, rest, hreadable, hdepth, _,
      hbudget => by
    obtain ⟨more, rfl⟩ := exists_call hbudget
    rw [depth, depthFields] at hdepth
    rw [writeBefore_object, List.length_cons, List.length_append] at hbudget
    have hskip : skip (style.breakBefore (level + 1)
          ++ fieldsText style level name value fields rest)
        = fieldsText style level name value fields rest :=
      skip_ascii (fun c hc => isSkipped_of_mem_breakBefore hc) name _
    have hfields := readFields_fieldsText style name value fields level (levels - 1) more [] rest
      hreadable.1 hreadable.2.1 hreadable.2.2 (by omega) (by omega) (by omega)
    obtain ⟨t, htext⟩ : ∃ t, fieldsText style level name value fields rest = '"' :: t := ⟨_, rfl⟩
    rw [writeBefore_object]
    rw [htext] at hskip hfields ⊢
    rw [readValue_object (by omega) hskip, hfields]
    rfl
termination_by value => sizeOf value

/-- The items of a list are read back up to the closing bracket. The first item is named apart from
the others, because the reader comes here only when there is one. -/
theorem readItems_itemsText (style : Style) : ∀ (item : Json) (items : List Json)
    (level levels budget : Nat) (rest : Text), item.Readable → ReadableAll items →
      item.depth ≤ levels → depthAll items ≤ levels →
      2 * (itemsText style level item items rest).length ≤ budget + 2 * rest.length →
      readItems levels budget (itemsText style level item items rest) = .ok (item :: items, rest)
  | item, [], level, levels, budget, rest, hitem, _, hdepth, _, hbudget => by
    have hlength := length_lt_itemsText style level item [] rest
    obtain ⟨more, rfl⟩ : ∃ more, budget = more + 1 := ⟨budget - 1, by omega⟩
    rw [itemsText_nil] at hbudget ⊢
    have hends : EndsNumber (style.breakBefore level ++ ']' :: rest) :=
      endsNumber_close style level (by decide) rest
    have hread := readValue_writeBefore style item (level + 1) levels more hitem hdepth hends (by
      rw [List.length_append, List.length_cons]
      omega)
    exact readItems_last hread (skip_close style level (by decide) rest)
  | item, next :: items, level, levels, budget, rest, hitem, hitems, hdepth, hdepths,
      hbudget => by
    rw [depthAll] at hdepths
    obtain ⟨blanks, hblanks, hskip⟩ :=
      skip_separator style (level + 1) (itemsText style level next items rest)
    have hnext := length_lt_itemsText style level next items rest
    have hseparated :=
      length_lt_separator style (level + 1) (itemsText style level next items rest)
    have hlength := length_lt_writeBefore style (level + 1) item
      (style.separator (level + 1) ++ itemsText style level next items rest)
    rw [itemsText_cons] at hbudget ⊢
    obtain ⟨more, rfl⟩ : ∃ more, budget = more + 1 := ⟨budget - 1, by omega⟩
    have hread := readValue_writeBefore style item (level + 1) levels more hitem hdepth
      (endsNumber_separator style (level + 1) (itemsText style level next items rest)) (by omega)
    -- The budget for the items behind the comma is what the first item leaves of it.
    have hmore := readItems_itemsText style next items level levels more rest hitems.1 hitems.2
      (by omega) (by omega) (by omega)
    have hskips : skip (blanks ++ itemsText style level next items rest)
        = itemsText style level next items rest := skip_writeBefore hblanks style (level + 1) next _
    rw [readItems_more hread hskip, hskips, hmore]
    rfl
termination_by item items => 1 + sizeOf item + sizeOf items

/-- The fields of an object are read back up to the closing brace, behind those read before. All
names together are different (`hnames`), so no field replaces another. -/
theorem readFields_fieldsText (style : Style) : ∀ (name : Text) (value : Json) (fields : Fields)
    (level levels budget : Nat) (before : Fields) (rest : Text),
      ((before ++ (name, value) :: fields).map Prod.fst).Nodup → value.Readable →
      ReadableFields fields → value.depth ≤ levels → depthFields fields ≤ levels →
      2 * (fieldsText style level name value fields rest).length ≤ budget + 2 * rest.length →
      readFields levels budget before (fieldsText style level name value fields rest)
        = .ok (before ++ (name, value) :: fields, rest)
  | name, value, [], level, levels, budget, before, rest, hnames, hvalue, _, hdepth, _,
      hbudget => by
    have hlength := length_lt_fieldsText style level name value [] rest
    have hname := length_le_ascii name
    have htext := length_lt_writeBefore style (level + 1) value
      (style.breakBefore level ++ '\x7d' :: rest)
    rw [List.length_append, List.length_cons] at htext
    obtain ⟨more, rfl⟩ : ∃ more, budget = more + 1 := ⟨budget - 1, by omega⟩
    rw [fieldsText_nil] at hbudget ⊢
    rw [List.length_append, List.length_append] at hbudget
    have hends : EndsNumber (style.breakBefore level ++ '\x7d' :: rest) :=
      endsNumber_close style level (by decide) rest
    have hread := readValue_writeBefore style value (level + 1) levels more hvalue hdepth hends (by
      rw [List.length_append, List.length_cons]
      omega)
    rw [readFields_field style (level + 1) before (by omega) hread,
      skip_close style level (by decide), setField_of_not_mem (not_mem_of_nodup hnames)]
    rfl
  | name, value, (next, other) :: fields, level, levels, budget, before, rest, hnames,
      hvalue, hfields, hdepth, hdepths, hbudget => by
    rw [depthFields] at hdepths
    obtain ⟨blanks, hblanks, hskip⟩ :=
      skip_separator style (level + 1) (fieldsText style level next other fields rest)
    have hname := length_le_ascii name
    have hnext := length_lt_fieldsText style level next other fields rest
    have hseparated :=
      length_lt_separator style (level + 1) (fieldsText style level next other fields rest)
    have htext := length_lt_writeBefore style (level + 1) value
      (style.separator (level + 1) ++ fieldsText style level next other fields rest)
    rw [fieldsText_cons] at hbudget ⊢
    rw [List.length_append, List.length_append] at hbudget
    obtain ⟨more, rfl⟩ : ∃ more, budget = more + 1 := ⟨budget - 1, by omega⟩
    have hread := readValue_writeBefore style value (level + 1) levels more hvalue hdepth
      (endsNumber_separator style (level + 1) (fieldsText style level next other fields rest))
      (by omega)
    -- The field just read stands in front of the others from here on.
    have hregroup : before ++ (name, value) :: (next, other) :: fields
        = (before ++ [(name, value)]) ++ (next, other) :: fields := by
      rw [List.append_assoc, List.singleton_append]
    have hmore := readFields_fieldsText style next other fields level levels more
      (before ++ [(name, value)]) rest (hregroup ▸ hnames) hfields.1 hfields.2 (by omega)
      (by omega) (by omega)
    have hskips : skip (blanks ++ fieldsText style level next other fields rest)
        = fieldsText style level next other fields rest := skip_ascii hblanks next _
    rw [readFields_field style (level + 1) before (by omega) hread, hskip,
      setField_of_not_mem (not_mem_of_nodup hnames), hregroup, ← hmore]
    exact congrArg (readFields levels more _) hskips
termination_by _ value fields => 1 + sizeOf value + sizeOf fields

end

/-- A readable value comes back from its written form, in every style. Nothing stands behind the
value, and the reader's budget is what the induction needs. -/
theorem read_write (style : Style) {value : Json} {levels : Nat} (hreadable : value.Readable)
    (hdepth : value.depth ≤ levels) : read levels (write style 0 value) = .ok value := by
  have hskip : skip (write style 0 value) = write style 0 value :=
    @skip_writeBefore [] nofun style 0 value []
  have hread : readValue levels (2 * (write style 0 value).length + 2) (write style 0 value)
      = .ok (value, []) :=
    readValue_writeBefore style value 0 levels _ hreadable hdepth .nil (by
      rw [write]
      omega)
  simp only [read, hskip, hread]
  rfl

end DesignCompiler.Json
