import DesignCompiler.Proofs.Color.Hexadecimal
import DesignCompiler.Proofs.Number.Signed

/-!
# `DesignCompiler.Proofs.Color.Accuracy`: how accurate written colours are

A channel goes through four roundings before it is a byte: to a double, of the product with 255, of
the sum with one half, and down to a whole number. Each keeps the order, so the byte does
(`byteOf_mono`), and the ends of the range need no more than that: what is not positive is zero, and
what is one or more is 255. In between the errors of the roundings are far below one half, so the
byte is less than two thirds away from 255 times the channel (`dist_byteOf_le`), and the double read
back from it is less than the 255th part away from the channel.

`encodeValue_accurate` says so of the whole colour, with the rational numbers that its channels are.
-/

set_option autoImplicit false

namespace DesignCompiler

/-! ### The numbers that values are -/

namespace Json

/-- The rational number that a value is, zero if it is no number. -/
def number : Json → ℚ
  | .int n => n
  | .bool b => b.toNat
  | .double x => x.value
  | .null | .text _ | .list _ | .object _ => 0

/-- The same number in units, which is whole. -/
def units : Json → Int
  | .int n => n * unitsPerOne
  | .bool b => b.toNat * unitsPerOne
  | .double x => x.signed
  | .null | .text _ | .list _ | .object _ => 0

/-- A number is that many ones as it has units. Statements are made in rational numbers and proved
in units, and this is the way from one to the other. -/
theorem number_eq (value : Json) : value.number = value.units / unitsPerOne := by
  have hone : (unitsPerOne : ℚ) ≠ 0 := Nat.cast_ne_zero.mpr (Nat.ne_of_gt unitsPerOne_pos)
  -- The three kinds of numbers divide out; everything else is zero on both sides.
  cases value with
  | int n => rw [number, units, Int.cast_mul, Int.cast_natCast, mul_div_cancel_right₀ _ hone]
  | bool b =>
    rw [number, units, Int.cast_mul, Int.cast_natCast, Int.cast_natCast,
      mul_div_cancel_right₀ _ hone]
  | double x => rfl
  | null | text | list | object => rw [number, units, Int.cast_zero, zero_div]

/-- The double beside a number is the nearest one. For a double that is the double itself, and for a
whole number the rounding is the first of the four. -/
theorem signed_of_numeric? {value : Json} {x : Binary64} (h : value.numeric? = some (.ok x)) :
    x.signed = roundSigned value.units := by
  -- A truth value counts as the whole number zero or one.
  have hwhole : ∀ n : Int, (Binary64.ofInt? n).elim (.error Fault.wholeTooLarge) Except.ok = .ok x →
      x.signed = roundSigned (n * unitsPerOne) := by
    intro n hn
    cases hx : Binary64.ofInt? n with
    | none =>
      rw [hx] at hn
      cases hn
    | some y =>
      rw [hx] at hn
      cases hn
      exact Binary64.signed_ofInt? hx
  cases value with
  | int n => exact hwhole n (Option.some.inj h)
  | bool b => exact hwhole b.toNat (Option.some.inj h)
  | double y =>
    cases h
    exact (Binary64.roundSigned_signed x).symm
  | null | text | list | object => cases h

end Json

namespace Color

open Text

/-! ### The byte of a channel -/

/-- The byte of a channel of some units: the four roundings, written out over whole numbers.
`valueHex_eq` shows that it is the byte that is written. -/
def byteOf (units : Int) : Nat :=
  (max 0 (min 255 (roundSigned (roundSigned (255 * roundSigned units) + halfUnits)
    / unitsPerOne))).toNat

/-- A byte is a byte. With it the digits of a byte are read back as it. -/
theorem byteOf_le (units : Int) : byteOf units ≤ 255 := by
  rw [byteOf]
  omega

/-- A larger channel has no smaller byte. Every rounding keeps the order, and so does cutting off at
the ends. -/
theorem byteOf_mono {a b : Int} (h : a ≤ b) : byteOf a ≤ byteOf b := by
  have hscaled : 255 * roundSigned a ≤ 255 * roundSigned b :=
    Int.mul_le_mul_of_nonneg_left (roundSigned_mono h) (by decide)
  have hsum := roundSigned_mono (Int.add_le_add_right (roundSigned_mono hscaled) halfUnits)
  have hfloor := Int.ediv_le_ediv (Int.natCast_pos.mpr unitsPerOne_pos) hsum
  rw [byteOf, byteOf]
  omega

/-- A channel that is not positive has no byte but zero. By the order it is enough to look at zero
itself, where one half is all that is left to round. -/
theorem byteOf_of_nonpos {units : Int} (h : units ≤ 0) : byteOf units = 0 := by
  have hzero : byteOf 0 = 0 := by
    have hhalf : roundSigned halfUnits = halfUnits :=
      roundSigned_of_isRepresentable isRepresentable_halfUnits false
    have hlt : (halfUnits : Int) < unitsPerOne := by
      have htwo := two_mul_halfUnits
      have hpos := unitsPerOne_pos
      omega
    rw [byteOf, roundSigned_zero, Int.mul_zero, roundSigned_zero, Int.zero_add, hhalf,
      Int.ediv_eq_zero_of_lt (Int.natCast_nonneg _) hlt]
    rfl
  have hle := byteOf_mono h
  omega

/-- A channel of one or more is full. By the order it is enough to look at one, where all numbers
are whole or half and none of the roundings changes anything. -/
theorem byteOf_of_one_le {units : Int} (h : unitsPerOne ≤ units) : byteOf units = 255 := by
  have hone : 255 ≤ byteOf unitsPerOne := by
    have hwhole := roundSigned_whole (show 1 ≤ wholeLimit by decide)
    have hfull := roundSigned_whole (show 255 ≤ wholeLimit by decide)
    rw [Nat.one_mul] at hwhole
    rw [Int.natCast_mul] at hfull
    -- The half may only raise the sum, and the floor takes it away again.
    have hsum := roundSigned_mono (Int.le_add_of_nonneg_right
      (a := 255 * (unitsPerOne : Int)) (Int.natCast_nonneg halfUnits))
    have hfloor : 255 ≤ roundSigned (255 * unitsPerOne + halfUnits) / unitsPerOne := by
      apply Int.le_ediv_of_mul_le (Int.natCast_pos.mpr unitsPerOne_pos)
      exact Int.le_trans (Int.le_of_eq hfull.symm) hsum
    rw [byteOf, hwhole]
    rw [show ((255 : Nat) : Int) = 255 from rfl] at hfull
    rw [hfull]
    omega
  have hle := byteOf_mono h
  have hlimit := byteOf_le units
  omega

/-- Within the range the byte is less than two thirds away from 255 times the channel: one half for
the last rounding, and little for the others. -/
theorem dist_byteOf_le {m : Nat} (h : m ≤ unitsPerOne) :
    3 * (byteOf m * unitsPerOne).dist (255 * m) ≤ 2 * unitsPerOne := by
  have hlarge := two_pow_le_unitsPerOne
  have htwo := two_mul_halfUnits
  obtain ⟨hx₁, hx₂⟩ := isNear_nearestUnits m Nat.one_pos
  have hbyte : byteOf m = min 255
      (nearestUnits (nearestUnits (255 * nearestUnits m 1) 1 + halfUnits) 1 / unitsPerOne) := by
    have hscaled : 255 * (nearestUnits m 1 : Int) = (255 * nearestUnits m 1 : Nat) := rfl
    rw [byteOf, roundSigned_natCast, hscaled, roundSigned_natCast, ← Int.natCast_add,
      roundSigned_natCast, ← Int.natCast_ediv]
    generalize nearestUnits _ 1 / unitsPerOne = floored
    omega
  -- Each rounding is off by a part in `2 ^ 52` of its number and one unit.
  generalize nearestUnits m 1 = x at *
  obtain ⟨hp₁, hp₂⟩ := isNear_nearestUnits (255 * x) Nat.one_pos
  generalize nearestUnits (255 * x) 1 = product at *
  obtain ⟨hs₁, hs₂⟩ := isNear_nearestUnits (product + halfUnits) Nat.one_pos
  generalize nearestUnits (product + halfUnits) 1 = sum at *
  -- Nothing is cut off above: even a full channel with one half more is below 256.
  have hsum : sum < unitsPerOne * 256 := by omega
  have hclipped : sum / unitsPerOne < 256 := Nat.div_lt_of_lt_mul hsum
  have hfloor := Nat.div_add_mod' sum unitsPerOne
  have hrest := Nat.mod_lt sum unitsPerOne_pos
  rw [hbyte, Nat.min_eq_right (Nat.le_of_lt_succ hclipped)]
  generalize sum / unitsPerOne * unitsPerOne = floored at *
  unfold Nat.dist
  omega

/-- A channel beyond the range has the byte of the nearer end. The distance has to be proved within
the range only. -/
theorem exists_clamped (units : Int) : ∃ m : Nat, m ≤ unitsPerOne ∧ byteOf units = byteOf m
    ∧ max 0 (min 1 ((units : ℚ) / unitsPerOne)) = (m : ℚ) / unitsPerOne := by
  have hone : (0 : ℚ) < unitsPerOne := Nat.cast_pos.mpr unitsPerOne_pos
  -- Below, above and within the range; outside, the byte is that of the end.
  rcases Int.lt_or_le units 0 with hneg | hnonneg
  · refine ⟨0, Nat.zero_le _, ?_, ?_⟩
    · rw [byteOf_of_nonpos (Int.le_of_lt hneg)]
      exact (byteOf_of_nonpos (Int.le_refl _)).symm
    · have hbelow : (units : ℚ) / unitsPerOne ≤ 0 :=
        div_nonpos_of_nonpos_of_nonneg (by exact_mod_cast Int.le_of_lt hneg) hone.le
      rw [Nat.cast_zero, zero_div]
      exact max_eq_left ((min_le_right _ _).trans hbelow)
  · rcases Int.lt_or_le unitsPerOne units with hlarge | hle
    · refine ⟨unitsPerOne, Nat.le_refl _, ?_, ?_⟩
      · rw [byteOf_of_one_le (Int.le_of_lt hlarge), byteOf_of_one_le (Int.le_refl _)]
      · have habove : 1 ≤ (units : ℚ) / unitsPerOne := by
          rw [le_div_iff₀ hone, one_mul]
          exact_mod_cast Int.le_of_lt hlarge
        rw [min_eq_left habove, div_self hone.ne']
        exact max_eq_right zero_le_one
    · obtain ⟨m, rfl⟩ := Int.eq_ofNat_of_zero_le hnonneg
      have hm : m ≤ unitsPerOne := Int.ofNat_le.mp hle
      refine ⟨m, hm, rfl, ?_⟩
      have hbelow : (m : ℚ) / unitsPerOne ≤ 1 := by
        rw [div_le_one₀ hone]
        exact_mod_cast hm
      rw [Int.cast_natCast, min_eq_right hbelow]
      exact max_eq_right (div_nonneg (Nat.cast_nonneg m) hone.le)

/-- The double that is read back from the byte is at most the 255th part away from the channel, cut
off at the ends of the range. Two thirds of that are the byte's, so there is room for the rounding
of the quotient. -/
theorem abs_byteChannel_sub_le (units : Int) :
    |(byteChannel (byteOf units)).value - max 0 (min 1 ((units : ℚ) / unitsPerOne))| ≤ 1 / 255 := by
  obtain ⟨m, hm, hbyte, hclamped⟩ := exists_clamped units
  have hdist := dist_byteOf_le hm
  have hlarge := two_pow_le_unitsPerOne
  rw [hbyte, hclamped]
  have hlimit := byteOf_le m
  have hproduct : byteOf m * unitsPerOne ≤ 255 * unitsPerOne := Nat.mul_le_mul_right _ hlimit
  obtain ⟨q, hr, hq, hq₁, hq₂⟩ := Binary64.exists_ofUnits false (show 0 < 255 by decide)
    (Nat.div_le_self (byteOf m * unitsPerOne) 255) (Nat.le_trans hlimit (by decide))
  -- Two thirds of a step by the byte, and very little by the quotient.
  have hnear : 255 * q.dist m ≤ unitsPerOne := by
    generalize byteOf m * unitsPerOne = full at *
    unfold Nat.dist at *
    omega
  have hvalue : (byteChannel (byteOf m)).value = (q : ℚ) / unitsPerOne := by
    rw [byteChannel, Binary64.ofQuotient, hq]
    rfl
  rw [hvalue]
  refine abs_div_sub_div_le (k := 255) unitsPerOne_pos unitsPerOne_pos (by decide) ?_
  rw [Nat.dist_mul_right, ← Nat.mul_assoc]
  exact Nat.mul_le_mul_right _ hnear

/-! ### Colours -/

/-- Whether a value may be a channel: a number that is finite 255 times over. It is all that keeps a
colour of numbers from being written. -/
def isChannel (value : Json) : Bool :=
  match value.numeric? with
  | some (.ok x) => (x.scale 255).isFinite
  | _ => false

/-- A channel has a double beside it, and scaling that does not overflow. -/
theorem exists_of_isChannel {value : Json} (h : isChannel value = true) :
    ∃ x, value.numeric? = some (.ok x) ∧ (x.scale 255).isFinite = true := by
  rw [isChannel] at h
  split at h
  · next x hx => exact ⟨x, hx, h⟩
  · cases h

/-- The written form of a channel is that of its byte. This is where the doubles of the definition
become the whole numbers of `byteOf`. -/
theorem valueHex_eq {value : Json} (h : isChannel value = true) :
    valueHex value = .ok (hexDigits 2 (byteOf value.units)) := by
  obtain ⟨x, hx, hscale⟩ := exists_of_isChannel h
  have hdouble : value.toDouble = .ok x := by simp only [Json.toDouble, hx]
  obtain ⟨hfinite, hsum⟩ := Binary64.add_half hscale
  rw [Binary64.signed_scale hscale, Json.signed_of_numeric? hx] at hsum
  -- No step overflows, so the byte is computed from numbers all along.
  have hfloor : ((x.scale 255).add .half).floor
      = .ok (roundSigned (roundSigned (255 * roundSigned value.units) + halfUnits)
        / unitsPerOne) := by
    obtain ⟨negative, units, hr, heq⟩ := Binary64.exists_eq_of_isFinite hfinite
    rw [heq] at hsum ⊢
    rw [Binary64.floor, Int.fdiv_eq_ediv_of_nonneg _ (Int.natCast_nonneg _)]
    exact congrArg (fun sum => Except.ok (sum / (unitsPerOne : Int))) hsum
  rw [valueHex, hdouble]
  show channelHex x = _
  rw [channelHex, channelByte, hfloor]
  rfl

/-- The channels of a colour. A statement about each of them is made once, for a channel, and its
four cases are alike. -/
inductive Channel
  | red
  | green
  | blue
  | alpha

namespace Channel

/-- The channel of a colour that is read. -/
def of (c : Color) : Channel → Binary64
  | red => c.red
  | green => c.green
  | blue => c.blue
  | alpha => c.alpha

/-- A colour that is put together from its channels has them. -/
theorem of_mk (x : Channel → Binary64) (channel : Channel) :
    channel.of ⟨x red, x green, x blue, x alpha⟩ = x channel := by
  cases channel <;> rfl

/-- The channel of an unchecked colour, zero or full if it is missing. -/
def given (fields : Json.Fields) : Channel → Json
  | red => (Json.field? fields "r".toList).getD (.int 0)
  | green => (Json.field? fields "g".toList).getD (.int 0)
  | blue => (Json.field? fields "b".toList).getD (.int 0)
  | alpha => alphaOf fields

/-- How many digits of a written colour come before those of a channel, the `#` not counted. -/
def start : Channel → Nat
  | red => 0
  | green => 2
  | blue => 4
  | alpha => 6

/-- The two digits of a channel in a written colour. -/
def digits (t : Text) (channel : Channel) : Text := (t.tail.drop channel.start).take 2

end Channel

/-- Four bytes, written. -/
def written (byte : Channel → Nat) : Text :=
  '#' :: hexDigits 2 (byte .red) ++ hexDigits 2 (byte .green) ++ hexDigits 2 (byte .blue)
    ++ hexDigits 2 (byte .alpha)

/-- The digits of a channel stand where `Channel.start` says, whatever the bytes. -/
theorem digits_written (byte : Channel → Nat) (channel : Channel) :
    channel.digits (written byte) = hexDigits 2 (byte channel) := by
  cases channel <;> rfl

/-- The digits of a byte are read as it. -/
theorem bytes_hexDigits {n : Nat} (h : n ≤ 255) (rest : Text) :
    bytes (hexDigits 2 n ++ rest) = n :: bytes rest := by
  show bytes (hexChar (n / 16 % 16) :: hexChar (n % 16) :: rest) = _
  rw [bytes, hexValue?_hexChar (Nat.mod_lt _ (by decide)),
    hexValue?_hexChar (Nat.mod_lt _ (by decide)), Option.getD_some, Option.getD_some]
  congr 1
  omega

/-- Four bytes give a written colour, whatever they are: the digits of a byte are two and in lower
case. -/
theorem isWritten_written (byte : Channel → Nat) : IsWritten (written byte) := by
  have hdigits : ∀ n, (hexDigits 2 n).length = 2 ∧ ∀ c ∈ hexDigits 2 n, c ∈ lowerCase := by
    intro n
    refine ⟨length_hexDigits 2 n, fun c hc => ?_⟩
    obtain ⟨m, hm, rfl⟩ := exists_of_mem_hexDigits hc
    have hall : ∀ n < 16, hexChar n ∈ lowerCase := by decide
    exact hall m hm
  refine isWritten_append fun t ht => ?_
  simp only [List.mem_cons, List.not_mem_nil, or_false] at ht
  rcases ht with rfl | rfl | rfl | rfl <;> exact hdigits _

/-- Four written bytes are read as the doubles nearest to their 255th parts. Blanks, further marks
and a missing alpha do not come into it, since none of them is written. -/
theorem exists_decode_written {byte : Channel → Nat} (h : ∀ channel, byte channel ≤ 255) :
    ∃ c, decode (written byte) = .ok c ∧ ∀ channel : Channel,
      channel.of c = byteChannel (byte channel) := by
  obtain ⟨hbody, hhex⟩ := body_of_isWritten (isWritten_written byte)
  have hbytes : bytes (written byte).tail
      = [byte .red, byte .green, byte .blue, byte .alpha] := by
    show bytes (hexDigits 2 (byte .red) ++ (hexDigits 2 (byte .green)
      ++ (hexDigits 2 (byte .blue) ++ (hexDigits 2 (byte .alpha) ++ [])))) = _
    rw [bytes_hexDigits (h _), bytes_hexDigits (h _), bytes_hexDigits (h _), bytes_hexDigits (h _),
      bytes]
    simp
  -- Eight digits are written, so no opacity is added when they are read.
  have halpha : withAlpha (written byte).tail = (written byte).tail := by
    rw [withAlpha, (isWritten_written byte).2.1, if_neg (by decide)]
  refine ⟨⟨byteChannel (byte .red), byteChannel (byte .green), byteChannel (byte .blue),
    byteChannel (byte .alpha)⟩, ?_, fun channel => ?_⟩
  · rw [decode_eq, hbody, if_pos hhex, halpha, hbytes]
    rfl
  · exact Channel.of_mk (fun channel => byteChannel (byte channel)) channel

/-- A colour whose channels are numbers is written, with the byte of each. -/
theorem encodeValue_eq {fields : Json.Fields}
    (h : ∀ channel : Channel, isChannel (channel.given fields) = true) :
    encodeValue (.object fields)
      = .ok (written fun channel => byteOf (channel.given fields).units) := by
  have hred := valueHex_eq (h .red)
  have hgreen := valueHex_eq (h .green)
  have hblue := valueHex_eq (h .blue)
  have halpha := valueHex_eq (h .alpha)
  simp only [Channel.given] at hred hgreen hblue halpha
  rw [encodeValue, encodeFields, hred, hgreen, hblue, halpha]
  rfl

/-- The order of numbers is that of their units, so monotony can be proved on whole numbers. -/
theorem number_le_number {a b : Json} : a.number ≤ b.number ↔ a.units ≤ b.units := by
  have hone : (0 : ℚ) < unitsPerOne := Nat.cast_pos.mpr unitsPerOne_pos
  rw [Json.number_eq, Json.number_eq, div_le_div_iff_of_pos_right hone, Int.cast_le]

/-- A colour whose channels are numbers is written as one, and what is read back is at most the
255th part away from each channel, cut off at the ends of the range. At or below zero a channel is
written `00`, at or above one it is written `ff`, and a channel that is larger than another, in the
same colour or not, is written as no smaller byte. -/
theorem encodeValue_accurate {fields : Json.Fields}
    (h : ∀ channel : Channel, isChannel (channel.given fields) = true) :
    ∃ t c, encodeValue (.object fields) = .ok t ∧ IsWritten t ∧ decode t = .ok c
      ∧ ∀ channel : Channel,
        |(channel.of c).value - max 0 (min 1 (channel.given fields).number)| ≤ 1 / 255
        ∧ ((channel.given fields).number ≤ 0 → channel.digits t = "00".toList)
        ∧ (1 ≤ (channel.given fields).number → channel.digits t = "ff".toList)
        ∧ ∀ (others : Json.Fields) (u : Text),
          (∀ other : Channel, isChannel (other.given others) = true) →
            encodeValue (.object others) = .ok u → ∀ other : Channel,
              (channel.given fields).number ≤ (other.given others).number →
                ∃ m n, bytes (channel.digits t) = [m] ∧ bytes (other.digits u) = [n] ∧ m ≤ n := by
  obtain ⟨c, hdecode, hof⟩ :=
    exists_decode_written fun channel : Channel => byteOf_le (channel.given fields).units
  refine ⟨_, c, encodeValue_eq h, isWritten_written _, hdecode, fun channel => ?_⟩
  rw [digits_written]
  -- The byte is known as a function of the channel's units, and so is what it is read as.
  refine ⟨?accurate, ?zero, ?full, ?monotone⟩
  case accurate =>
    have hnear := abs_byteChannel_sub_le (channel.given fields).units
    rw [← Json.number_eq] at hnear
    rw [hof]
    exact hnear
  case zero =>
    intro hzero
    have hnone : (Json.null).number = 0 := rfl
    rw [← hnone, number_le_number] at hzero
    rw [byteOf_of_nonpos hzero]
    rfl
  case full =>
    intro hone
    have hsome : (Json.int 1).number = 1 := Int.cast_one
    rw [← hsome, number_le_number, Json.units, Int.one_mul] at hone
    rw [byteOf_of_one_le hone]
    rfl
  case monotone =>
    intro others u hothers hu other hle
    obtain rfl := Except.ok.inj ((encodeValue_eq hothers).symm.trans hu)
    have hread : ∀ units, bytes (hexDigits 2 (byteOf units)) = [byteOf units] := by
      intro units
      have hbytes := bytes_hexDigits (byteOf_le units) []
      rwa [List.append_nil] at hbytes
    rw [digits_written]
    exact ⟨_, _, hread _, hread _, byteOf_mono (number_le_number.mp hle)⟩

/-- A channel in a tie, one below the range, one above it, and a missing one. -/
def vivid : Json.Fields :=
  [("r".toList, .double (.ofDecimal false 3 (-1))), ("g".toList, .double (.ofDecimal true 1 (-1))),
   ("b".toList, .int 2)]

/-- It is written with the tie rounded up, the two channels outside cut off, and full alpha. -/
theorem vivid_accurate :
    (∃ t c, encodeValue (.object vivid) = .ok t ∧ IsWritten t ∧ decode t = .ok c
      ∧ ∀ channel : Channel,
        |(channel.of c).value - max 0 (min 1 (channel.given vivid).number)| ≤ 1 / 255
        ∧ ((channel.given vivid).number ≤ 0 → channel.digits t = "00".toList)
        ∧ (1 ≤ (channel.given vivid).number → channel.digits t = "ff".toList)
        ∧ ∀ (others : Json.Fields) (u : Text),
          (∀ other : Channel, isChannel (other.given others) = true) →
            encodeValue (.object others) = .ok u → ∀ other : Channel,
              (channel.given vivid).number ≤ (other.given others).number →
                ∃ m n, bytes (channel.digits t) = [m] ∧ bytes (other.digits u) = [n] ∧ m ≤ n)
    ∧ (encodeValue (.object vivid)).toOption = some "#4d00ffff".toList := by
  have hchannels : ∀ channel : Channel, isChannel (channel.given vivid) = true := by
    intro channel
    cases channel <;> decide +kernel
  exact ⟨encodeValue_accurate hchannels, by decide +kernel⟩

end Color

end DesignCompiler
