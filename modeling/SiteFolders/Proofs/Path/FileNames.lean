import Mathlib.Data.List.TakeWhile
import SiteFolders.FileName

/-!
# Splitting file names

The last dot is the one after which no other comes. So a name has a stem and an extension in one way
at most (`stemAndExtension_eq_some_iff`), and any way to write it with a dot before a text that has
none shows its ending (`endsIn_iff`).
-/

namespace SiteFolders.FileName

/-- A name is split at a dot after which no other comes. -/
theorem splitChars?_eq_some_iff {name before after : List Char} :
    splitChars? name = some (before, after) ↔ name = before ++ '.' :: after ∧ '.' ∉ after := by
  constructor
  · intro h
    refine ⟨eq_append_of_splitChars? h, ?_⟩
    unfold splitChars? at h
    simp only at h
    split at h
    · simp at h
    · simp only [Option.some.injEq, Prod.mk.injEq] at h
      rw [← h.2, List.mem_reverse]
      intro hdot
      simpa using List.mem_takeWhile_imp hdot
  · rintro ⟨rfl, hdot⟩
    have hpass : ∀ c ∈ after.reverse, (c != '.') = true := by
      intro c hc
      simpa using fun h : c = '.' => hdot (h ▸ List.mem_reverse.1 hc)
    simp [splitChars?, List.dropWhile_append_of_pos hpass, List.takeWhile_append_of_pos hpass]

theorem dot_notMem_of_splitChars? {name : List Char} (h : splitChars? name = none) :
    '.' ∉ name := by
  unfold splitChars? at h
  simp only at h
  split at h
  · next hnone =>
    intro hdot
    simpa using List.dropWhile_eq_nil_iff.1 hnone '.' (List.mem_reverse.2 hdot)
  · simp at h

theorem eq_append_dot_iff {name stem ending : String} :
    name = stem ++ "." ++ ending ↔ name.toList = stem.toList ++ '.' :: ending.toList := by
  rw [← String.toList_inj]
  simp

/-! ## Stem and extension -/

/-- The extension of a name, if it has one. -/
theorem stemAndExtension_eq_some_iff {name stem extension : String} :
    stemAndExtension name = (stem, some extension) ↔
      stem ≠ "" ∧ '.' ∉ extension.toList ∧ name = stem ++ "." ++ extension := by
  rw [eq_append_dot_iff]
  unfold stemAndExtension splitAtLastDot?
  constructor
  · intro h
    cases hsplit : splitChars? name.toList with
    | none => simp [hsplit] at h
    | some parts =>
      rcases parts with ⟨before, after⟩
      simp only [hsplit, Option.map_some] at h
      split at h
      · simp at h
      · next hempty =>
        simp only [Prod.mk.injEq, Option.some.injEq] at h
        rcases h with ⟨rfl, rfl⟩
        obtain ⟨hname, hdot⟩ := splitChars?_eq_some_iff.1 hsplit
        exact ⟨by simpa using hempty, by simpa using hdot, by simpa using hname⟩
  · rintro ⟨hstem, hdot, hname⟩
    have hsplit := splitChars?_eq_some_iff.2 ⟨hname, hdot⟩
    simp [hsplit, hstem]

theorem stemAndExtension_of_none {name stem : String}
    (h : stemAndExtension name = (stem, none)) : stem = name := by
  unfold stemAndExtension at h
  split at h
  · split at h
    · exact (Prod.mk.inj h).1.symm
    · simp at h
  · exact (Prod.mk.inj h).1.symm

/-! ## The ending -/

/-- What comes after the last dot of a name: the empty text if there is no dot. -/
inductive EndsIn (name : String) : String → Prop
  | dotted (stem ending : String) (hdot : '.' ∉ ending.toList)
      (hname : name = stem ++ "." ++ ending) : EndsIn name ending
  | bare (hname : '.' ∉ name.toList) : EndsIn name ""

theorem EndsIn.dot_notMem {name ending : String} (h : EndsIn name ending) :
    '.' ∉ ending.toList := by
  cases h with
  | dotted stem ending hdot hname => exact hdot
  | bare hname => simp

/-- Every name has one ending. -/
theorem endsIn_iff {name ending : String} : EndsIn name ending ↔ suffix name = ending := by
  unfold suffix splitAtLastDot?
  constructor
  · intro h
    cases h with
    | dotted stem ending hdot hname =>
      rw [splitChars?_eq_some_iff.2 ⟨eq_append_dot_iff.1 hname, hdot⟩]
      simp
    | bare hname =>
      cases hsplit : splitChars? name.toList with
      | none => rfl
      | some parts =>
        rw [eq_append_of_splitChars? hsplit] at hname
        simp at hname
  · rintro rfl
    cases hsplit : splitChars? name.toList with
    | none => exact .bare (dot_notMem_of_splitChars? hsplit)
    | some parts =>
      rcases parts with ⟨before, after⟩
      obtain ⟨hname, hdot⟩ := splitChars?_eq_some_iff.1 hsplit
      refine .dotted (String.ofList before) (String.ofList after) ?_ ?_
      · simpa using hdot
      · rw [eq_append_dot_iff]
        simpa using hname

end SiteFolders.FileName
