/-!
Cutting a text at a separator character and joining pieces again.

`intercalate_splitOn` says that joining the pieces restores the text, and
`append_of_cutAt` that a cut loses nothing but the separator itself.
-/

namespace Depsolve.Text

/-- The pieces between the separators; a text without a separator is one piece. -/
def splitOn (sep : Char) : List Char → List (List Char)
  | [] => [[]]
  | c :: cs =>
    if c = sep then [] :: splitOn sep cs
    else match splitOn sep cs with
      | [] => [[c]]
      | piece :: pieces => (c :: piece) :: pieces

/-- What stands before and after the first separator, or nothing when there is none. -/
def cutAt (sep : Char) : List Char → Option (List Char × List Char)
  | [] => none
  | c :: cs =>
    if c = sep then some ([], cs)
    else (cutAt sep cs).map fun (before, after) => (c :: before, after)

/-- The texts one after another with a separator between neighbours. -/
def joinWith (sep : String) (texts : List String) : String :=
  String.intercalate sep texts

theorem splitOn_ne_nil (sep : Char) (cs : List Char) : splitOn sep cs ≠ [] := by
  cases cs with
  | nil => simp [splitOn]
  | cons c cs =>
    unfold splitOn
    split
    · simp
    · split <;> simp

theorem intercalate_splitOn (sep : Char) (cs : List Char) :
    List.intercalate [sep] (splitOn sep cs) = cs := by
  induction cs with
  | nil => rfl
  | cons c cs ih =>
    unfold splitOn
    cases h : splitOn sep cs with
    | nil => exact absurd h (splitOn_ne_nil sep cs)
    | cons piece pieces =>
      rw [h] at ih
      split
      · rename_i hc
        subst hc
        cases pieces <;> simp_all [List.intercalate, List.intersperse]
      · cases pieces <;> simp_all [List.intercalate, List.intersperse]

theorem append_of_cutAt {sep : Char} {cs before after : List Char}
    (h : cutAt sep cs = some (before, after)) : cs = before ++ sep :: after := by
  induction cs generalizing before with
  | nil => simp [cutAt] at h
  | cons c cs ih =>
    unfold cutAt at h
    split at h
    · rename_i hc
      cases h
      simp [hc]
    · cases hcs : cutAt sep cs with
      | none => simp [hcs] at h
      | some p =>
        obtain ⟨b, a⟩ := p
        rw [hcs] at h
        cases h
        simp [ih hcs]

end Depsolve.Text
