import DesignCompiler.Text.Digit

/-!
# `DesignCompiler.Text.Encoding`: the characters behind the bytes of a JSON text

JSON text arrives as bytes in one of five encodings. Nobody says which one, but JSON text starts
with an ASCII character, so the zeros among its first bytes tell (`Encoding.ofBytes`). A body is
given as the text that its bytes write in UTF-8, and `Encoding.decode` reads the same bytes in the
encoding that they show.

Codes of surrogates stand for a character in pairs only (`joinPairs`). A single one is kept as
U+FFFD, which is no part of JSON outside of strings. Bytes that are left over at the end, and codes
beyond the last character, cannot be read.
-/

set_option autoImplicit false

namespace DesignCompiler

namespace Text

/-- The first of a pair of surrogates. -/
def isHigh (n : Nat) : Bool := 0xD800 ≤ n && n < 0xDC00

/-- The second of a pair of surrogates. -/
def isLow (n : Nat) : Bool := 0xDC00 ≤ n && n < 0xE000

/-- The character of a code; a surrogate without its partner becomes U+FFFD. -/
def charOfCode (n : Nat) : Char := if isHigh n || isLow n then Char.ofNat 0xFFFD else Char.ofNat n

/-- The character that a pair of surrogates stands for. -/
def charOfPair (high low : Nat) : Char :=
  Char.ofNat (0x10000 + (high - 0xD800) * 0x400 + (low - 0xDC00))

/-- The characters of codes of 16 bits. Two surrogates in the right order are one character; any
other surrogate is replaced. -/
def joinPairs : List Nat → Text
  | [] => []
  | [n] => [charOfCode n]
  | n :: m :: rest =>
    if isHigh n && isLow m then charOfPair n m :: joinPairs rest
    else charOfCode n :: joinPairs (m :: rest)

/-- The bytes of a text in UTF-8. -/
def bytes (t : Text) : List UInt8 := t.flatMap String.utf8EncodeChar

/-- The text without the mark that may stand at its start. -/
def withoutMark : Text → Text
  | [] => []
  | c :: rest => if c = Char.ofNat 0xFEFF then rest else c :: rest

end Text

/-- Which byte of a number comes first. -/
inductive ByteOrder
  | big
  | little
  deriving DecidableEq

/-- The number that bytes write. -/
def ByteOrder.value (order : ByteOrder) (bytes : List UInt8) : Nat :=
  match order with
  | .big => bytes.foldl (fun n b => 256 * n + b.toNat) 0
  | .little => bytes.foldr (fun b n => b.toNat + 256 * n) 0

/-- The encodings of JSON text. -/
inductive Encoding
  | utf8
  | utf16 (order : ByteOrder)
  | utf32 (order : ByteOrder)
  deriving DecidableEq

namespace Encoding

/-- The name of an encoding in messages. -/
def label : Encoding → Text
  | .utf8 => "utf-8".toList
  | .utf16 .big => "utf-16-be".toList
  | .utf16 .little => "utf-16-le".toList
  | .utf32 .big => "utf-32-be".toList
  | .utf32 .little => "utf-32-le".toList

/-- The encoding that the first bytes of a JSON text show. Two bytes alone are one character or
two; one or three are always read as UTF-8. -/
def ofBytes : List UInt8 → Encoding
  | [a, b] => if a = 0 then .utf16 .big else if b = 0 then .utf16 .little else .utf8
  | a :: b :: c :: d :: _ =>
    if a = 0 then if b = 0 then .utf32 .big else .utf16 .big
    else if b = 0 then if c = 0 ∧ d = 0 then .utf32 .little else .utf16 .little
    else .utf8
  | _ => .utf8

/-- Why bytes stand for no text. -/
inductive Defect
  /-- The bytes end inside a character. -/
  | truncated
  /-- The number is greater than that of any character. -/
  | outOfRange
  deriving DecidableEq

/-- The wording of a defect. -/
def Defect.message : Defect → Text
  | .truncated => "truncated data".toList
  | .outOfRange => "code point not in range(0x110000)".toList

/-- A defect and the bytes that show it. -/
structure DecodeError where
  encoding : Encoding
  defect : Defect
  /-- The bytes before those that show the defect. -/
  offset : Nat
  bytes : List UInt8

/-- The wording of an error: the byte if it is a single one, and where it stands. -/
def DecodeError.message (e : DecodeError) : Text :=
  "'".toList ++ e.encoding.label ++ "' codec can't decode ".toList
    ++ (match e.bytes with
      | [b] =>
        "byte 0x".toList ++ Text.hexDigits 2 b.toNat ++ " in position ".toList
          ++ Text.ofNat e.offset
      | _ =>
        "bytes in position ".toList ++ Text.ofNat e.offset ++ ['-']
          ++ Text.ofNat (e.offset + e.bytes.length - 1))
    ++ ": ".toList ++ e.defect.message

/-- The codes of 16 bits that bytes write from an offset on. -/
def codes16 (order : ByteOrder) (offset : Nat) : List UInt8 → Except DecodeError (List Nat)
  | [] => .ok []
  | [b] => .error ⟨.utf16 order, .truncated, offset, [b]⟩
  | a :: b :: rest => (codes16 order (offset + 2) rest).map (order.value [a, b] :: ·)

/-- The characters that bytes write as codes of 32 bits from an offset on. -/
def chars32 (order : ByteOrder) (offset : Nat) : List UInt8 → Except DecodeError Text
  | [] => .ok []
  | a :: b :: c :: d :: rest =>
    if order.value [a, b, c, d] < 0x110000 then
      (chars32 order (offset + 4) rest).map (Text.charOfCode (order.value [a, b, c, d]) :: ·)
    else .error ⟨.utf32 order, .outOfRange, offset, [a, b, c, d]⟩
  | left => .error ⟨.utf32 order, .truncated, offset, left⟩

/-- The text that the bytes of a body write in the encoding that they show. A mark at the start is
taken away in UTF-8 only. -/
def decode (body : Text) : Except DecodeError Text :=
  -- Five characters have more bytes than the encoding depends on.
  match ofBytes (Text.bytes (body.take 5)) with
  | .utf8 => .ok (Text.withoutMark body)
  | .utf16 order => (codes16 order 0 (Text.bytes body)).map Text.joinPairs
  | .utf32 order => chars32 order 0 (Text.bytes body)

end Encoding

end DesignCompiler
