import DesignCompiler.Fault

/-!
# `DesignCompiler.Platform`: the targets of code generation

SwiftUI, Jetpack Compose and React, each known by one exact token. A token in another case, with
blanks, or of another kind than text is refused.
-/

set_option autoImplicit false

namespace DesignCompiler

/-- A target of code generation. -/
inductive Platform
  | swiftUI
  | compose
  | react
  deriving DecidableEq

namespace Platform

/-- The targets in the order in which they are listed and run. -/
def all : List Platform := [.swiftUI, .compose, .react]

/-- Every target is in the list. A search through the list therefore never misses one, and a
statement over the list is one over all targets. -/
theorem mem_all (platform : Platform) : platform ∈ all := by
  cases platform <;> decide

/-- The word that chooses a target. No other spelling of it is accepted. -/
def token : Platform → Text
  | .swiftUI => "swiftui".toList
  | .compose => "jetpack".toList
  | .react => "react".toList

/-- The extension of a target's files. -/
def fileExtension : Platform → Text
  | .swiftUI => "swift".toList
  | .compose => "kt".toList
  | .react => "tsx".toList

/-- The language of a target's fenced code blocks. -/
def fence : Platform → Text
  | .swiftUI => "swift".toList
  | .compose => "kotlin".toList
  | .react => "tsx".toList

/-- The tokens and what they choose. -/
def tokens : List (Text × Platform) := all.map fun p => (p.token, p)

/-- The target that a value chooses. The fault lists the words of all targets in their order. -/
def resolve (value : Json) : Except Fault Platform :=
  match all.find? fun p => value.isText p.token with
  | some p => .ok p
  | none => .error (.unsupportedPlatform value (all.map token))

end Platform

end DesignCompiler
