/-!
# File names

A file name may end in a dot and an extension. The two splits here differ on names whose only
dot comes first: `splitAtLastDot?` splits them, `stemAndExtension` does not.
-/

namespace SiteFolders.FileName

/-- The characters before and after the last dot, if there is a dot. -/
def splitChars? (name : List Char) : Option (List Char × List Char) :=
  let reversed := name.reverse
  match reversed.dropWhile (· != '.') with
  | [] => none
  | _ :: before => some (before.reverse, (reversed.takeWhile (· != '.')).reverse)

/-- The text before and after the last dot, if there is a dot. -/
def splitAtLastDot? (name : String) : Option (String × String) :=
  (splitChars? name.toList).map fun (before, after) => (String.ofList before, String.ofList after)

/-- The text after the last dot, empty without a dot. -/
def suffix (name : String) : String :=
  match splitAtLastDot? name with
  | some (_, after) => after
  | none => ""

/-- The stem and the extension; a dot at the very start begins no extension. -/
def stemAndExtension (name : String) : String × Option String :=
  match splitAtLastDot? name with
  | some (before, after) => if before.isEmpty then (name, none) else (before, some after)
  | none => (name, none)

/-- Putting the parts together again gives the name. -/
theorem eq_append_of_splitChars? {name before after : List Char}
    (h : splitChars? name = some (before, after)) : name = before ++ '.' :: after := by
  unfold splitChars? at h
  simp only at h
  split at h
  next => simp at h
  next d rest hd =>
    simp only [Option.some.injEq, Prod.mk.injEq] at h
    obtain ⟨rfl, rfl⟩ := h
    have hdot : d = '.' := by
      have hne : name.reverse.dropWhile (· != '.') ≠ [] := by rw [hd]; simp
      have := List.head_dropWhile_not (· != '.') hne
      simp only [hd, List.head_cons] at this
      simpa using this
    have hjoin := List.takeWhile_append_dropWhile (p := (· != '.')) (l := name.reverse)
    rw [hd, hdot] at hjoin
    have := congrArg List.reverse hjoin
    simpa using this.symm

end SiteFolders.FileName
