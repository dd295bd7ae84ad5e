import DesignCompiler.Text.Basic

/-!
# `DesignCompiler.Proofs.Text.Piece`: texts inside texts

What `Text.after?` and `Text.contains` decide, as the library of lists says it: one text is the
start of another, or stands somewhere inside it.
-/

set_option autoImplicit false

namespace DesignCompiler.Text

/-- What is left behind the start of a text. The start is given, so no more than one text can be
left. -/
theorem after?_eq_some_iff {start t rest : Text} :
    after? start t = some rest ↔ t = start ++ rest := by
  induction start generalizing t with
  | nil => simp [after?]
  | cons s start ih =>
    cases t with
    | nil => simp [after?]
    | cons c t =>
      rw [after?]
      split
      · next hsame => rw [ih, hsame, List.cons_append, List.cons.injEq, and_iff_right rfl]
      · next hother => simp [Ne.symm hother]

/-- A text goes on behind its start, and behind nothing that is not its start. -/
theorem isSome_after?_iff {start t : Text} : (after? start t).isSome ↔ start <+: t := by
  rw [Option.isSome_iff_exists]
  exact exists_congr fun rest => after?_eq_some_iff.trans eq_comm

/-- A piece occurs in a text if the text can be cut around it. By induction on the text: the piece
is at its front or in what follows. -/
theorem contains_iff {piece t : Text} : contains piece t ↔ piece <:+: t := by
  induction t with
  | nil => simp [contains]
  | cons c t ih => rw [contains, Bool.or_eq_true, isSome_after?_iff, ih, List.infix_cons_iff]

end DesignCompiler.Text
