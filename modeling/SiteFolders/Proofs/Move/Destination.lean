import SiteFolders.Move.Destination
import SiteFolders.Proofs.Disk.Growth
import SiteFolders.Proofs.Path.FileNames

/-!
# Destinations are free

The candidates for a name are names again and differ from each other, and each one that is taken
takes an entry of the disk. So among one more candidates than there are entries one is free, and
the search of `firstFree` finds it (`not_isOccupied_firstFree`).
-/

namespace SiteFolders.Move

/-! ## Candidates -/

/-- The number of a candidate stands between the stem and the extension. -/
theorem candidate_succ_eq (name : String) : ∃ stem tail, name = stem ++ tail ∧
    (name ≠ "" → stem ≠ "") ∧ (tail = "" ∨ ∃ extension, tail = "." ++ extension) ∧
      ∀ k, candidate name (k + 1) = stem ++ "-" ++ Nat.repr (k + 1) ++ tail := by
  unfold candidate
  cases hsplit : FileName.stemAndExtension name with
  | mk stem extension? =>
    cases extension? with
    | none =>
      obtain rfl := FileName.stemAndExtension_of_none hsplit
      refine ⟨stem, "", by simp, id, Or.inl rfl, fun k => ?_⟩
      rw [String.append_empty]
      rfl
    | some extension =>
      obtain ⟨hstem, -, hname⟩ := FileName.stemAndExtension_eq_some_iff.1 hsplit
      refine ⟨stem, "." ++ extension, ?_, fun _ => hstem, Or.inr ⟨extension, rfl⟩, fun k => ?_⟩
      · rw [hname, String.append_assoc]
      · rw [← String.append_assoc]
        rfl

theorem repr_inj {m n : Nat} (h : Nat.repr m = Nat.repr n) : m = n := by
  have hvalue := congrArg (fun s => Nat.ofDigitChars 10 s.toList 0) h
  simpa using hvalue

/-- Numbered candidates with different numbers differ. -/
theorem candidate_succ_inj {name : String} {j k : Nat}
    (h : candidate name (j + 1) = candidate name (k + 1)) : j = k := by
  rcases candidate_succ_eq name with ⟨stem, tail, -, -, -, hcand⟩
  rw [hcand, hcand] at h
  have hlists := congrArg String.toList h
  simp only [String.toList_append] at hlists
  have hnumbers := List.append_cancel_left (List.append_cancel_right hlists)
  have := repr_inj (String.toList_inj.1 hnumbers)
  omega

theorem digit_of_mem_repr {n : Nat} {c : Char} (h : c ∈ (Nat.repr n).toList) : c.isDigit = true := by
  rw [Nat.toList_repr] at h
  exact Nat.isDigit_of_mem_toDigits (by decide) (by decide) h

/-- What is tried for a name is a name again. -/
theorem isName_candidate {name : String} (hn : IsName name) (k : Nat) :
    IsName (candidate name k) := by
  cases k with
  | zero => exact hn
  | succ k =>
    rcases candidate_succ_eq name with ⟨stem, tail, hname, -, -, hcand⟩
    have hslash := hn.no_slash
    rw [hname, String.toList_append, List.mem_append, not_or] at hslash
    have hdash : '-' ∈ (candidate name (k + 1)).toList := by
      rw [hcand]
      simp
    refine ⟨?_, ?_, ?_, ?_⟩
    · intro h
      simp [h] at hdash
    · rw [hcand]
      simp only [String.toList_append, List.mem_append, not_or]
      refine ⟨⟨⟨hslash.1, by decide⟩, fun h => ?_⟩, hslash.2⟩
      have := digit_of_mem_repr h
      simp at this
    · intro h
      simp [h] at hdash
    · intro h
      simp [h] at hdash

/-- A numbered candidate is longer than the name. -/
theorem lt_utf8ByteSize_candidate (name : String) (k : Nat) :
    name.utf8ByteSize < (candidate name (k + 1)).utf8ByteSize := by
  rcases candidate_succ_eq name with ⟨stem, tail, rfl, -, -, hcand⟩
  have hdash : "-".utf8ByteSize = 1 := rfl
  rw [hcand]
  simp only [String.utf8ByteSize_append, hdash]
  omega

/-- A candidate has every character of the name. -/
theorem mem_candidate {name : String} {c : Char} (hc : c ∈ name.toList) (k : Nat) :
    c ∈ (candidate name k).toList := by
  cases k with
  | zero => exact hc
  | succ k =>
    rcases candidate_succ_eq name with ⟨stem, tail, hname, -, -, hcand⟩
    rw [hname, String.toList_append, List.mem_append] at hc
    rw [hcand]
    simp only [String.toList_append, List.mem_append]
    rcases hc with hc | hc
    · exact Or.inl (Or.inl (Or.inl hc))
    · exact Or.inr hc

/-- A candidate has a dash and digits where the name is cut in two, or is the name itself. -/
theorem toList_candidate (name : String) (k : Nat) : candidate name k = name ∨
    ∃ stem digits tail, name.toList = stem ++ tail ∧ (name ≠ "" → stem ≠ []) ∧
      (tail = [] ∨ ∃ extension, tail = '.' :: extension) ∧ digits ≠ [] ∧
      (∀ c ∈ digits, c.isDigit = true) ∧
      (candidate name k).toList = stem ++ '-' :: (digits ++ tail) := by
  cases k with
  | zero => exact Or.inl rfl
  | succ k =>
    right
    obtain ⟨stem, tail, hname, hstem, htail, hcand⟩ := candidate_succ_eq name
    have hdigits : (Nat.repr (k + 1)).toList ≠ [] := by
      rw [Nat.toList_repr]
      exact Nat.toDigits_ne_nil
    refine ⟨stem.toList, (Nat.repr (k + 1)).toList, tail.toList, ?_, ?_, ?_, hdigits,
      fun c hc => digit_of_mem_repr hc, ?_⟩
    · rw [hname, String.toList_append]
    · simpa using hstem
    · rcases htail with rfl | ⟨extension, rfl⟩
      · exact Or.inl rfl
      · exact Or.inr ⟨extension.toList, by simp⟩
    · rw [hcand]
      simp

theorem mem_of_mem_candidate {name : String} {k : Nat} {c : Char}
    (hc : c ∈ (candidate name k).toList) : c ∈ name.toList ∨ c = '-' ∨ c.isDigit = true := by
  rcases toList_candidate name k with hsame | ⟨stem, digits, tail, hname, -, -, -, hdigits, hcand⟩
  · rw [hsame] at hc
    exact Or.inl hc
  · rw [hcand] at hc
    rw [hname]
    simp only [List.mem_append, List.mem_cons] at hc ⊢
    rcases hc with hc | rfl | hc | hc
    · exact Or.inl (Or.inl hc)
    · exact Or.inr (Or.inl rfl)
    · exact Or.inr (Or.inr (hdigits c hc))
    · exact Or.inl (Or.inr hc)

theorem utf8ByteSize_le_candidate (name : String) (k : Nat) :
    name.utf8ByteSize ≤ (candidate name k).utf8ByteSize := by
  cases k with
  | zero => exact Nat.le_refl _
  | succ k => exact (lt_utf8ByteSize_candidate name k).le

/-- A file has a path that can be used where a candidate for it in a folder has one. -/
theorem checkPath_of_candidate {root : Path} {folder name : String} {k : Nat}
    (hfolder : IsName folder) (hn : IsName name)
    (h : Disk.checkPath ((root.join folder).join (candidate name k)) = .ok ()) :
    Disk.checkPath (root.join name) = .ok () := by
  have hk := isName_candidate hn k
  obtain ⟨start, hstart⟩ := Path.exists_start (root.join folder)
  have hzero : '\x00' ∉ name.toList := by
    intro hmem
    have htext : '\x00' ∈ ((root.join folder).join (candidate name k)).text.toList := by
      rw [hstart _ hk.head?_ne_slash, String.toList_append]
      exact List.mem_append_right _ (mem_candidate hmem k)
    simp [Disk.checkPath, htext] at h
  exact Disk.checkPath_join_of_le hfolder hk hn hzero (utf8ByteSize_le_candidate name k) h

/-! ## A free candidate -/

/-- All that a directory holds under names that are tried lies in one place. -/
theorem exists_dir_of_isOccupied {d : Disk} {dir : Path} {name : String} (hn : IsName name)
    {k : Nat} (h : d.isOccupied (dir.join (candidate name k)) = true) :
    ∃ loc, d.Reaches (dir.join (candidate name k)) loc (candidate name k) ∧
      (d.get? (candidate name k :: loc)).isSome := by
  have hk := isName_candidate hn k
  have hslash := Disk.endsInSlash_join hk dir
  obtain ⟨x, hloc⟩ := Disk.isOccupied_iff_locate.1 h
  have hlast : (Disk.namesOf (dir.join (candidate name k)).text).getLast? =
      some (candidate name k) := by simp [Disk.namesOf_join hk]
  rcases Disk.reaches_of_resolve hlast hk (Disk.locate_eq_ok_iff.1 hloc).1 with ⟨loc, hreach, -⟩
  exact ⟨loc, hreach, ((Disk.isOccupied_iff hslash hreach).1 h).2⟩

/-- One more candidates than there are entries cannot all be taken. -/
theorem exists_free_candidate (d : Disk) (dir : Path) {name : String} (hn : IsName name) :
    ∃ k < d.entries.length + 2, d.isOccupied (dir.join (candidate name k)) = false := by
  by_contra hall
  push Not at hall
  have htaken : ∀ k < d.entries.length + 1,
      d.isOccupied (dir.join (candidate name (k + 1))) = true := by
    intro k hk
    simpa using hall (k + 1) (by omega)
  -- the first of them tells the directory, in which the others lie as well
  rcases exists_dir_of_isOccupied hn (htaken 0 (by omega)) with ⟨loc, hreach, -⟩
  have hmem : ∀ k < d.entries.length + 1,
      candidate name (k + 1) :: loc ∈ d.entries.map Prod.fst := by
    intro k hk
    rcases exists_dir_of_isOccupied hn (htaken k hk) with ⟨loc', hreach', hsome⟩
    have hsame := (Disk.reaches_join_iff (isName_candidate hn 1)).1 hreach
    rw [((Disk.reaches_join_iff (isName_candidate hn (k + 1))).1 hreach').2.2] at hsame
    rcases hsame with ⟨-, -, hsame⟩
    simp only [Except.ok.injEq, Place.entry.injEq] at hsame
    rcases Option.isSome_iff_exists.1 hsome with ⟨e, he⟩
    exact List.mem_map.2 ⟨_, Disk.mem_of_get? (hsame ▸ he) (by simp), rfl⟩
  have hsub : (List.range (d.entries.length + 1)).map (fun k => candidate name (k + 1) :: loc) ⊆
      d.entries.map Prod.fst := by
    intro l hl
    rcases List.mem_map.1 hl with ⟨k, hk, rfl⟩
    exact hmem k (List.mem_range.1 hk)
  have hnodup : ((List.range (d.entries.length + 1)).map
      (fun k => candidate name (k + 1) :: loc)).Nodup := by
    refine List.nodup_range.map ?_
    intro j k h
    exact candidate_succ_inj (List.cons.inj h).1
  have hlen := hnodup.length_le_of_subset hsub
  simp only [List.length_map, List.length_range] at hlen
  omega

/-- The number that the search gives belongs to a candidate that is free. -/
theorem not_isOccupied_firstFree (d : Disk) (dir : Path) {name : String} (hn : IsName name) :
    d.isOccupied (dir.join (candidate name (firstFree d dir name))) = false := by
  rcases exists_free_candidate d dir hn with ⟨k, hk, hfree⟩
  unfold firstFree
  cases hfind : (List.range (d.entries.length + 2)).find? fun k =>
      !d.isOccupied (dir.join (candidate name k)) with
  | none =>
    have hnone := List.find?_eq_none.1 hfind k (List.mem_range.2 hk)
    simp [hfree] at hnone
  | some j => simpa using List.find?_some hfind

/-- The destination is a free name in a directory that is there. -/
theorem destination_eq_ok {d made : Disk} {dir target : Path} {name folder : String}
    (hfolder : IsName folder) (hn : IsName name)
    (h : destination d (dir.join folder) name = (.ok target, made)) :
    made.makeDir (dir.join folder) = .error .alreadyExists ∧
    ∃ k, target = (dir.join folder).join (candidate name k) ∧ made.isOccupied target = false := by
  unfold destination at h
  split at h
  · simp at h
  · next found hmade =>
    simp only [Prod.mk.injEq, Except.ok.injEq] at h
    rcases h with ⟨rfl, rfl⟩
    exact ⟨Disk.makeDir_of_makeDirs hfolder hmade, _, rfl, not_isOccupied_firstFree _ _ hn⟩

/-- Looking for a destination only adds directories. -/
theorem grown_destination (d : Disk) (dir : Path) (name : String) :
    d.Grown (destination d dir name).2 := by
  have hgrown := d.grown_makeDirs dir
  unfold destination
  split
  · next e made h => rwa [h] at hgrown
  · next made h => rwa [h] at hgrown

end SiteFolders.Move
