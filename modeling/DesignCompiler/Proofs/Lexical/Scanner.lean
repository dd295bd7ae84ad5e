import DesignCompiler.Platform
import DesignCompiler.Proofs.Text.Lines

/-!
# `DesignCompiler.Proofs.Lexical.Scanner`: literals, comments and brackets of generated code

A scanner for the three languages. It skips string literals, in which a backslash escapes the next
character and no line may end, and comments from two slashes to the end of the line. What is left is
code, where brackets have to be closed in the reverse order in which they were opened. Swift and
Kotlin write literals in double quotes, React in single quotes as well (`Platform.quotes`).

`WellFormed` is what a whole file has to be: the scan comes to the end outside of any literal, with
no bracket left open.

`Reads` says that a text takes the scanner from one state to another. Texts one after the other are
read one after the other (`Reads.append`), and what is read with some brackets open is read in the
same way with more of them open further out (`Reads.under`). So a fixed piece of code is read once,
by evaluation, and the result holds in every place where the piece is put.
-/

set_option autoImplicit false

namespace DesignCompiler

/-- The characters that begin and end a string literal. Only these have to be told from code; what a
literal holds is the matter of `Proofs/Lexical/Literal`. -/
def Platform.quotes : Platform → Text
  | .swiftUI | .compose => ['"']
  | .react => ['"', '\'']

namespace Lexical

open Text

/-- Where the scanner is between two characters. -/
inductive Mode
  /-- In code, just after a slash that may begin a comment or not. -/
  | code (slash : Bool)
  /-- In a literal that ends with `quote`, just after the backslash of an escape or not. -/
  | literal (quote : Char) (escaped : Bool)
  /-- In a comment. -/
  | comment
  deriving DecidableEq

/-- A state of the scanner: where it is, and what it waits for. -/
structure State where
  mode : Mode
  /-- The closing brackets that are still to come, the next one first. -/
  awaited : List Char
  deriving DecidableEq

/-- The bracket that closes an opening bracket. The three kinds of brackets are the same in all
languages; angle brackets are none, as React uses them for tags. -/
def closer? (c : Char) : Option Char :=
  if c = '(' then some ')'
  else if c = '[' then some ']'
  else if c = '\x7b' then some '\x7d'
  else none

/-- A closing bracket. -/
def isCloser (c : Char) : Bool := c = ')' || c = ']' || c = '\x7d'

/-- One character of code that is neither a slash nor a quote. A closing bracket has to be the one
that is awaited next. -/
def stepBracket (awaited : List Char) (c : Char) : Option (List Char) :=
  match closer? c with
  | some close => some (close :: awaited)
  | none =>
    if isCloser c then
      match awaited with
      | next :: rest => if next = c then some rest else none
      | [] => none
    else some awaited

/-- One character. There is no next state where a literal does not end on its line, or where a
bracket is closed that is not the innermost open one. -/
def step (quotes : Text) (s : State) (c : Char) : Option State :=
  match s.mode with
  | .comment => some ⟨if c = '\n' then .code false else .comment, s.awaited⟩
  | .literal quote escaped =>
    -- A literal has to end on its line, so not even an escape may be a line feed.
    if c = '\n' then none
    else if escaped then some ⟨.literal quote false, s.awaited⟩
    else if c = '\\' then some ⟨.literal quote true, s.awaited⟩
    else if c = quote then some ⟨.code false, s.awaited⟩
    else some s
  | .code slash =>
    if c = '/' then some ⟨if slash then .comment else .code true, s.awaited⟩
    else if c ∈ quotes then some ⟨.literal c false, s.awaited⟩
    else (stepBracket s.awaited c).map fun awaited => ⟨.code false, awaited⟩

/-- The characters of a text, one after the other, as long as there is a next state. -/
def scan (quotes : Text) (s : State) : Text → Option State
  | [] => some s
  | c :: rest => (step quotes s c).bind fun next => scan quotes next rest

/-- In code, with some closing brackets to come. -/
def inCode (awaited : List Char) : State := ⟨.code false, awaited⟩

/-- In a literal, with some closing brackets to come after it. -/
def inLiteral (quote : Char) (awaited : List Char) : State := ⟨.literal quote false, awaited⟩

/-- Whether a file may end in a state: not in a literal, and with no bracket open. -/
def State.isFinal (s : State) : Bool :=
  match s.mode with
  | .literal _ _ => false
  | _ => s.awaited.isEmpty

/-- Every literal of a file ends on its line, and every bracket is closed by its own, with none left
open. A file may end in a comment. -/
def WellFormed (quotes t : Text) : Prop := (scan quotes (inCode []) t).any State.isFinal = true

/-- A text takes the scanner from one state to another. For a closed text this is decided by running
the scanner, and the lemmas below put such results together. -/
def Reads (quotes : Text) (s : State) (t : Text) (s' : State) : Prop := scan quotes s t = some s'

/-- Decided by running the scanner, which is how the fixed words of the targets are dealt with. -/
instance (quotes : Text) (s : State) (t : Text) (s' : State) : Decidable (Reads quotes s t s') :=
  inferInstanceAs (Decidable (_ = _))

section

variable {quotes : Text}

/-- Scanning two texts is scanning the first and going on with the second. -/
theorem scan_append (s : State) (t u : Text) :
    scan quotes s (t ++ u) = (scan quotes s t).bind fun next => scan quotes next u := by
  induction t generalizing s with
  | nil => rfl
  | cons c rest ih =>
    rw [List.cons_append, scan, scan]
    cases step quotes s c with
    | none => rfl
    | some next => exact ih next

/-- Nothing is read in every state. -/
theorem Reads.nil (s : State) : Reads quotes s [] s := rfl

/-- Texts one after the other are read one after the other. -/
theorem Reads.append {s s' s'' : State} {t u : Text} (ht : Reads quotes s t s')
    (hu : Reads quotes s' u s'') : Reads quotes s (t ++ u) s'' := by
  rw [Reads, scan_append, ht]
  show scan quotes s' u = some s''
  exact hu

/-! ### More brackets further out -/

/-- A state with more brackets open further out. The brackets awaited next come first, so those
further out stand at the end. -/
def State.under (s : State) (outer : List Char) : State := ⟨s.mode, s.awaited ++ outer⟩

/-- A bracket is opened or closed at the front, so what is awaited further out stays. -/
theorem stepBracket_under {awaited awaited' : List Char} {c : Char}
    (h : stepBracket awaited c = some awaited') (outer : List Char) :
    stepBracket (awaited ++ outer) c = some (awaited' ++ outer) := by
  unfold stepBracket at h ⊢
  cases hcloser : closer? c with
  | some close =>
    rw [hcloser] at h
    cases h
    rfl
  | none =>
    rw [hcloser] at h
    by_cases hclose : isCloser c
    · simp only [hclose, if_true] at h ⊢
      cases awaited with
      | nil => cases h
      | cons next rest =>
        -- The bracket to be closed is the innermost one, so those further out do not matter.
        by_cases hnext : next = c
        · simp only [hnext, if_true, Option.some.injEq] at h
          subst h
          simp [hnext]
        · simp [hnext] at h
    · simp only [hclose] at h ⊢
      cases h
      rfl

/-- Every step goes the same way with more brackets open further out. -/
theorem step_under {s s' : State} {c : Char} (h : step quotes s c = some s') (outer : List Char) :
    step quotes (s.under outer) c = some (s'.under outer) := by
  obtain ⟨mode, awaited⟩ := s
  cases mode with
  | comment =>
    cases h
    rfl
  | literal quote escaped =>
    simp only [step, State.under] at h ⊢
    -- No branch looks at the brackets.
    by_cases hbreak : c = '\n'
    · rw [if_pos hbreak] at h
      cases h
    · rw [if_neg hbreak] at h ⊢
      by_cases hescaped : escaped
      · rw [if_pos hescaped] at h ⊢
        cases h
        rfl
      · rw [if_neg hescaped] at h ⊢
        by_cases hback : c = '\\'
        · rw [if_pos hback] at h ⊢
          cases h
          rfl
        · rw [if_neg hback] at h ⊢
          by_cases hquote : c = quote
          · rw [if_pos hquote] at h ⊢
            cases h
            rfl
          · rw [if_neg hquote] at h ⊢
            cases h
            rfl
  | code slash =>
    simp only [step, State.under] at h ⊢
    by_cases hslash : c = '/'
    · rw [if_pos hslash] at h ⊢
      cases h
      rfl
    · rw [if_neg hslash] at h ⊢
      by_cases hquote : c ∈ quotes
      · rw [if_pos hquote] at h ⊢
        cases h
        rfl
      · rw [if_neg hquote] at h ⊢
        obtain ⟨next, hnext, rfl⟩ := Option.map_eq_some_iff.mp h
        rw [stepBracket_under hnext outer]
        rfl

/-- What is read with some brackets open is read in the same way with more of them open further out.
So a piece that is decided with none open may stand anywhere. -/
theorem Reads.under {s s' : State} {t : Text} (h : Reads quotes s t s') (outer : List Char) :
    Reads quotes (s.under outer) t (s'.under outer) := by
  induction t generalizing s with
  | nil =>
    cases h
    rfl
  | cons c rest ih =>
    rw [Reads, scan] at h ⊢
    obtain ⟨next, hstep, hrest⟩ := Option.bind_eq_some_iff.mp h
    rw [step_under hstep outer]
    show scan quotes (next.under outer) rest = some (s'.under outer)
    exact ih hrest

end

/-! ### Ordinary characters -/

/-- A character that means nothing to the scanner, in code as in a literal. Letters, digits, blanks
and the signs of a dimension are such characters. -/
def isOrdinary (c : Char) : Bool := c ∉ "/\"'\\\n()[]\x7b\x7d".toList

section

variable {platform : Platform}

/-- An ordinary character is none that is not. With this, `decide` tells it from a given bracket,
quote or slash. -/
theorem ne_of_isOrdinary {c d : Char} (hc : isOrdinary c = true) (hd : isOrdinary d = false) :
    c ≠ d := by
  intro heq
  rw [heq, hd] at hc
  cases hc

/-- No quote is an ordinary character. There are three targets and two quotes, so each is looked at.
-/
theorem isOrdinary_of_mem_quotes {quote : Char} (h : quote ∈ platform.quotes) :
    isOrdinary quote = false := by
  have hall : ∀ p ∈ Platform.all, p.quotes.all (fun c => !isOrdinary c) = true := by decide
  have hquote := List.all_eq_true.mp (hall platform platform.mem_all) quote h
  rwa [Bool.not_eq_true'] at hquote

/-- An ordinary character is no bracket, so as many are open behind it as before. -/
theorem stepBracket_ordinary {c : Char} (h : isOrdinary c = true) (awaited : List Char) :
    stepBracket awaited c = some awaited := by
  have hopen : closer? c = none := by
    rw [closer?, if_neg (ne_of_isOrdinary h (by decide)), if_neg (ne_of_isOrdinary h (by decide)),
      if_neg (ne_of_isOrdinary h (by decide))]
  have hclose : isCloser c = false := by
    simp only [isCloser, Bool.or_eq_false_iff, decide_eq_false_iff_not]
    exact ⟨⟨ne_of_isOrdinary h (by decide), ne_of_isOrdinary h (by decide)⟩,
      ne_of_isOrdinary h (by decide)⟩
  simp [stepBracket, hopen, hclose]

/-- Code goes on after an ordinary character, also just after a slash: a comment would have needed a
second one. -/
theorem step_ordinary {c : Char} (h : isOrdinary c = true) (slash : Bool) (awaited : List Char) :
    step platform.quotes ⟨.code slash, awaited⟩ c = some (inCode awaited) := by
  have hslash : c ≠ '/' := ne_of_isOrdinary h (by decide)
  have hquote : c ∉ platform.quotes :=
    fun hmem => ne_of_isOrdinary h (isOrdinary_of_mem_quotes hmem) rfl
  simp only [step]
  rw [if_neg hslash, if_neg hquote, stepBracket_ordinary h]
  rfl

/-- Ordinary characters are passed over in code. -/
theorem Reads.ordinary {t : Text} (h : ∀ c ∈ t, isOrdinary c = true) (awaited : List Char) :
    Reads platform.quotes (inCode awaited) t (inCode awaited) := by
  induction t with
  | nil => rfl
  | cons c rest ih =>
    rw [Reads, scan, inCode, step_ordinary (h c List.mem_cons_self)]
    exact ih fun d hd => h d (List.mem_cons_of_mem c hd)

/-- An ordinary character takes back that a slash may begin a comment. The closing tags of React
need this, as their slash stands just before the name. -/
theorem Reads.ordinaryAfterSlash {t : Text} (hne : t ≠ []) (h : ∀ c ∈ t, isOrdinary c = true)
    (awaited : List Char) :
    Reads platform.quotes ⟨.code true, awaited⟩ t (inCode awaited) := by
  cases t with
  | nil => exact absurd rfl hne
  | cons c rest =>
    rw [Reads, scan, step_ordinary (h c List.mem_cons_self)]
    exact Reads.ordinary (fun d hd => h d (List.mem_cons_of_mem c hd)) awaited

/-- A character that neither ends a line or a literal nor escapes is passed over in a literal. -/
theorem step_inLiteral {quotes : Text} {quote c : Char} (hbreak : c ≠ '\n') (hback : c ≠ '\\')
    (hquote : c ≠ quote) (awaited : List Char) :
    step quotes (inLiteral quote awaited) c = some (inLiteral quote awaited) := by
  simp only [step, inLiteral]
  rw [if_neg hbreak, if_neg (by decide), if_neg hback, if_neg hquote]

/-- Ordinary characters are passed over in a literal. -/
theorem Reads.ordinaryLiteral {quote : Char} (hquote : quote ∈ platform.quotes) {t : Text}
    (h : ∀ c ∈ t, isOrdinary c = true) (awaited : List Char) :
    Reads platform.quotes (inLiteral quote awaited) t (inLiteral quote awaited) := by
  induction t with
  | nil => rfl
  | cons c rest ih =>
    have hc := h c List.mem_cons_self
    rw [Reads, scan, step_inLiteral (ne_of_isOrdinary hc (by decide))
      (ne_of_isOrdinary hc (by decide)) (ne_of_isOrdinary hc (isOrdinary_of_mem_quotes hquote))]
    exact ih fun d hd => h d (List.mem_cons_of_mem c hd)

/-- A quote begins a literal and ends it. -/
theorem Reads.quote {quote : Char} (hquote : quote ∈ platform.quotes) (awaited : List Char) :
    Reads platform.quotes (inCode awaited) [quote] (inLiteral quote awaited)
      ∧ Reads platform.quotes (inLiteral quote awaited) [quote] (inCode awaited) := by
  have hall : ∀ p ∈ Platform.all, p.quotes.all (fun c =>
      decide (Reads p.quotes (inCode []) [c] (inLiteral c [])
        ∧ Reads p.quotes (inLiteral c []) [c] (inCode []))) = true := by decide
  have hboth := List.all_eq_true.mp (hall platform platform.mem_all) quote hquote
  obtain ⟨hbegin, hend⟩ := of_decide_eq_true hboth
  exact ⟨hbegin.under awaited, hend.under awaited⟩

/-- A literal is passed over if what is inside its quotes is. -/
theorem Reads.quoted {quote : Char} (hquote : quote ∈ platform.quotes) {t : Text}
    {awaited : List Char}
    (h : Reads platform.quotes (inLiteral quote awaited) t (inLiteral quote awaited)) :
    Reads platform.quotes (inCode awaited) (quote :: t ++ [quote]) (inCode awaited) :=
  ((Reads.quote hquote awaited).1.append h).append (Reads.quote hquote awaited).2

/-! ### Ends of lines -/

/-- After a line feed the scanner is in code: a comment ends there, and a literal that is still open
has no next state. -/
theorem mode_of_step_newline {s s' : State} (h : step platform.quotes s '\n' = some s') :
    s' = inCode s.awaited := by
  obtain ⟨mode, awaited⟩ := s
  cases mode with
  | comment =>
    cases h
    rfl
  | literal quote escaped => cases h
  | code slash =>
    have hquote : '\n' ∉ platform.quotes := by cases platform <;> decide
    simp only [step] at h
    rw [if_neg (by decide), if_neg hquote] at h
    cases h
    rfl

/-- Code goes on after a line feed. -/
theorem Reads.newline (awaited : List Char) :
    Reads platform.quotes (inCode awaited) ['\n'] (inCode awaited) := by
  cases platform <;> rfl

/-- A line that was read is read with its line feed. -/
theorem Reads.line {s : State} {t : Text} {awaited : List Char}
    (h : Reads platform.quotes s t (inCode awaited)) :
    Reads platform.quotes s (t ++ ['\n']) (inCode awaited) :=
  h.append (.newline awaited)

/-- A comment is passed over, whatever it holds, up to the end of its line. A line feed inside would
end it too early. -/
theorem Reads.comment {t : Text} (h : Unbroken t) (awaited : List Char) :
    Reads platform.quotes (inCode awaited) ('/' :: '/' :: t ++ ['\n']) (inCode awaited) := by
  have hinside : Reads platform.quotes ⟨.comment, awaited⟩ t ⟨.comment, awaited⟩ := by
    induction t with
    | nil => rfl
    | cons c rest ih =>
      have hc : c ≠ '\n' := fun heq => h (heq ▸ List.mem_cons_self)
      have hstep : step platform.quotes ⟨.comment, awaited⟩ c = some ⟨.comment, awaited⟩ := by
        simp only [step]
        rw [if_neg hc]
      rw [Reads, scan, hstep]
      exact ih fun hmem => h (List.mem_cons_of_mem c hmem)
  have hslashes : Reads platform.quotes (inCode awaited) ['/', '/'] ⟨.comment, awaited⟩ := by
    cases platform <;> rfl
  exact (hslashes.append hinside).append rfl

/-- A file is well formed if, with a line feed at its end, it is read from start to start. Pieces of
code are read with a line feed at their end, so this is the form in which files come. -/
theorem wellFormed_of_reads {t : Text}
    (h : Reads platform.quotes (inCode []) (t ++ ['\n']) (inCode [])) :
    WellFormed platform.quotes t := by
  rw [Reads, scan_append] at h
  -- The state before the line feed is not in a literal, and has the same brackets open.
  obtain ⟨last, hlast, hnewline⟩ := Option.bind_eq_some_iff.mp h
  have hstep : step platform.quotes last '\n' = some (inCode []) := by
    rw [scan] at hnewline
    obtain ⟨next, hnext, hrest⟩ := Option.bind_eq_some_iff.mp hnewline
    cases hrest
    exact hnext
  have hawaited : last.awaited = [] := by
    have hmode := mode_of_step_newline hstep
    injection hmode with _ hnil
    exact hnil.symm
  rw [WellFormed, hlast, Option.any_some, State.isFinal]
  split
  · next quote escaped hmode =>
    simp [step, hmode] at hstep
  · rw [hawaited]
    rfl

end

end Lexical

end DesignCompiler
