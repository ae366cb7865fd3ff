import SiteFolders.Proofs.Reference.Idempotence

/-!
# Where a file comes to

A file comes to a candidate in the folder of its category, and the number of a candidate stands in
front of what the name ends in. So the place ends in a keyword only where the former name does
(`suffix_of_candidate`), and a reference to it is steady (`steady_of_place`).
-/

namespace SiteFolders.Reference

open Move Regex
open SiteFolders.Text (Spelled)

/-! ## Candidates -/

theorem IsKeyChar.not_digit {c : Char} (h : IsKeyChar c) : c.isDigit = false := by
  rcases h with h | rfl | rfl
  · have hval : c.val.toNat = c.toNat := rfl
    have hdigit : c.isDigit = (c.val ≥ '0'.val && c.val ≤ '9'.val) := rfl
    by_contra hd
    rw [Bool.not_eq_false, hdigit] at hd
    simp only [Bool.and_eq_true, decide_eq_true_eq, ge_iff_le, UInt32.le_iff_toNat_le] at hd
    simp at hd
    rcases h with h | h | h | h <;> omega
  all_goals decide

/-- What a candidate ends in is what the name ends in, if it holds no digits. -/
theorem suffix_of_candidate {name : String} {k : Nat} {s : List Char}
    (hs : ∀ c ∈ s, c.isDigit = false) (h : s <:+ (candidate name k).toList) :
    s <:+ name.toList := by
  rcases toList_candidate name k with hsame | ⟨stem, digits, tail, hname, -, -, hdigits, hdigit, hcand⟩
  · rwa [hsame] at h
  · have hsplit : (candidate name k).toList = (stem ++ '-' :: digits) ++ tail := by
      rw [hcand]
      simp
    rw [hsplit] at h
    rw [hname]
    refine (suffix_of_append h fun c hc hmem => ?_).trans (List.suffix_append stem tail)
    rw [List.getLast?_append_of_ne_nil _ (by simp), ← List.singleton_append,
      List.getLast?_append_of_ne_nil _ hdigits] at hc
    have hnot := hs c hmem
    rw [hdigit c (List.mem_of_getLast? hc)] at hnot
    exact absurd hnot (by decide)

/-- Candidates for names that are words are words. -/
theorem isWord_candidate {name : String} (h : IsWord name.toList) (k : Nat) :
    IsWord (candidate name k).toList where
  plain := by
    intro c hc
    rcases mem_of_mem_candidate hc with hc | rfl | hc
    · exact h.plain c hc
    · decide
    · exact not_delimits_of_isPlainChar (Or.inl (by simp [Char.isAlphanum, hc]))
  ne_nil := by
    rcases toList_candidate name k with hsame | ⟨stem, digits, tail, -, -, -, -, -, hcand⟩
    · rw [hsame]
      exact h.ne_nil
    · simp [hcand]
  not_sign := by
    rcases toList_candidate name k with hsame | ⟨stem, digits, tail, -, -, -, -, -, hcand⟩
    · rw [hsame]
      exact h.not_sign
    · -- a numbered candidate has a hyphen, so it is not the lone sign
      intro hsign
      have hdash : '-' ∈ ['='] := by
        rw [← hsign, hcand]
        simp
      simp at hdash
  not_attribute := by
    rintro ⟨key, hkey, hend⟩
    refine h.not_attribute ⟨key, hkey, suffix_of_candidate (fun c hc => ?_) hend⟩
    rcases List.mem_append.1 hc with hc | hc
    · exact IsKeyChar.not_digit (Or.inl (hkey.isLetter c hc))
    · rw [List.mem_singleton.1 hc]
      rfl
  head := by
    rw [head?_candidate (by simpa using h.ne_nil)]
    exact h.head

/-! ## Slashes -/

/-- A text with a slash for every backslash. -/
def slashed (cs : List Char) : List Char := cs.map fun c => if c = '\\' then '/' else c

theorem suffix_of_slashed {s t : List Char} (h : s <:+ slashed t) (hs : '/' ∉ s) : s <:+ t := by
  obtain ⟨u, hu, rfl⟩ := List.suffix_map_iff.1 h
  have hsame : u.map (fun c => if c = '\\' then '/' else c) = u := by
    refine (List.map_congr_left fun c hc => ?_).trans (List.map_id u)
    rw [if_neg]
    · rfl
    · rintro rfl
      exact hs (List.mem_map.2 ⟨'\\', hc, rfl⟩)
  rwa [hsame]

theorem isWord_slashed {t : List Char} (h : IsWord t) : IsWord (slashed t) where
  plain := by
    intro c hc
    obtain ⟨k, hk, rfl⟩ := List.mem_map.1 hc
    split
    · decide
    · exact h.plain k hk
  ne_nil := by simp [slashed, h.ne_nil]
  not_sign := by
    intro hsign
    have hsuffix : ['='] <:+ t := suffix_of_slashed (hsign ▸ List.suffix_rfl) (by simp)
    have hlength := congrArg List.length hsign
    rw [slashed, List.length_map] at hlength
    exact h.not_sign (hsuffix.eq_of_length hlength.symm).symm
  not_attribute := by
    rintro ⟨key, hkey, hend⟩
    refine h.not_attribute ⟨key, hkey, suffix_of_slashed hend ?_⟩
    intro hslash
    rcases List.mem_append.1 hslash with hslash | hslash
    · exact hkey.notMem_of_mark (by decide) hslash
    · simp at hslash
  head := by
    intro hhead
    rw [slashed, List.head?_map, Option.map_eq_some_iff] at hhead
    obtain ⟨c, hc, hmark⟩ := hhead
    split at hmark
    · simp at hmark
    · exact h.head (hmark ▸ hc)

/-! ## References to places -/

/-- A reference to a candidate in a folder is a word that ends in a keyword only where the name
does. -/
theorem steady_of_place {name : String} (hname : IsWord name.toList)
    (hstarts : StartsName name.toList) {k ups : Nat} {category : Category} {ns : List String}
    (hns : ns = [candidate name k] ∨ ns = [category.folder, candidate name k]) :
    Steady name.toList (Path.withSlashes (Path.stepText ups ns)).toList := by
  have hcandidate := isWord_candidate hname k
  have hfolder := isOrdinary_folder category
  have hne : ns ≠ [] := by rcases hns with rfl | rfl <;> simp
  obtain ⟨above, habove, hplain, hend, hhead⟩ : ∃ above : List Char,
      ("/".intercalate ns).toList = above ++ (candidate name k).toList ∧ PlainValue above ∧
      (∀ c, above.getLast? = some c → c = '/') ∧ above.head? ≠ some ';' := by
    rcases hns with rfl | rfl
    · exact ⟨[], by simp, by simp [PlainValue], by simp, by simp⟩
    · refine ⟨category.folder.toList ++ ['/'], by simp, ?_, by simp [eq_comm], ?_⟩
      · exact (plainValue_of_isPlain hfolder.plain).append (by decide)
      · cases category <;> decide
  have hlead := matches_lead_ups ups
  have htext : (Path.withSlashes (Path.stepText ups ns)).toList =
      slashed ((List.replicate ups "../".toList).flatten ++
        (above ++ (candidate name k).toList)) := by
    rw [Path.withSlashes, String.toList_ofList, Path.toList_stepText ups hne, habove]
    rfl
  have hword : IsWord ((List.replicate ups "../".toList).flatten ++
      (above ++ (candidate name k).toList)) := by
    refine (hcandidate.append hplain hhead fun c hc => ?_).lead_append hlead
    rw [hend c hc]
    exact ⟨fun h => h.ne_of_isMark (by decide) rfl, by decide⟩
  rw [htext]
  refine ⟨hname, hstarts, isWord_slashed hword, ?_⟩
  intro w hw r s hr hs
  have hkey := isKeyChar_of_keyword hw hs
  have hslash : '/' ∉ s := fun hmem => (hkey '/' hmem).ne_of_isMark (by decide) rfl
  -- all that stands before the candidate ends in a slash or a dot
  have hbelow : s <:+ above ++ (candidate name k).toList :=
    suffix_of_append (suffix_of_slashed ⟨r, hr.symm⟩ hslash) fun c hc hmem =>
      not_isKeyChar_of_lead hlead (List.mem_of_getLast? hc) (hkey c hmem)
  have hlast : s <:+ (candidate name k).toList :=
    suffix_of_append hbelow fun c hc => hend c hc ▸ hslash
  obtain ⟨n, hn⟩ := suffix_of_candidate (fun c hc => (hkey c hc).not_digit) hlast
  exact ⟨n, s, hn.symm, hs⟩

end SiteFolders.Reference
