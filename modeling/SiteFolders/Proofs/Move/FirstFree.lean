import SiteFolders.Proofs.Disk.Ancestors
import SiteFolders.Proofs.Listing.Agreement
import SiteFolders.Proofs.Move.Destination

/-!
# The first free candidate

What the search for a destination gives: the names that are tried are described apart from how they
are computed (`Tried`), and the path that is chosen is that of the first one which is free
(`destination_least`). A candidate counts as taken if its path leads to an entry. Where the path is
not too long this is so exactly if the directory has an entry of that name
(`isOccupied_join_iff`); so as many numbers are passed over as there are entries at most.
-/

namespace SiteFolders

/-! ## What is tried -/

namespace Move

open Disk

/-- The names that are tried for a file. The number stands at the end of the name, or before its
extension, which the last dot begins unless it comes first. -/
inductive Tried (name : String) : Nat → String → Prop
  | itself : Tried name 0 name
  | extended {stem extension : String} (k : Nat) (hstem : stem ≠ "")
      (hdot : '.' ∉ extension.toList) (hname : name = stem ++ "." ++ extension) :
      Tried name (k + 1) (stem ++ "-" ++ Nat.repr (k + 1) ++ "." ++ extension)
  | plain (k : Nat) (hname : ∀ stem extension, stem ≠ "" → '.' ∉ extension.toList →
      name ≠ stem ++ "." ++ extension) :
      Tried name (k + 1) (name ++ "-" ++ Nat.repr (k + 1))

theorem tried_candidate (name : String) (k : Nat) : Tried name k (candidate name k) := by
  cases k with
  | zero => exact .itself
  | succ k =>
    unfold candidate
    cases hsplit : FileName.stemAndExtension name with
    | mk stem extension? =>
      cases extension? with
      | some extension =>
        obtain ⟨hstem, hdot, hname⟩ := FileName.stemAndExtension_eq_some_iff.1 hsplit
        exact .extended k hstem hdot hname
      | none =>
        rw [FileName.stemAndExtension_of_none hsplit]
        refine .plain k fun stem' extension hstem hdot hname => ?_
        rw [FileName.stemAndExtension_eq_some_iff.2 ⟨hstem, hdot, hname⟩] at hsplit
        simp at hsplit

/-- Each number gives one name. -/
theorem tried_iff {name c : String} {k : Nat} : Tried name k c ↔ c = candidate name k := by
  constructor
  · intro h
    cases h with
    | itself => rfl
    | extended k hstem hdot hname =>
      rw [candidate, FileName.stemAndExtension_eq_some_iff.2 ⟨hstem, hdot, hname⟩]
      rfl
    | plain k hname =>
      unfold candidate
      cases hsplit : FileName.stemAndExtension name with
      | mk stem extension? =>
        cases extension? with
        | some extension =>
          obtain ⟨hstem, hdot, heq⟩ := FileName.stemAndExtension_eq_some_iff.1 hsplit
          exact absurd heq (hname stem extension hstem hdot)
        | none =>
          rw [FileName.stemAndExtension_of_none hsplit]
          rfl
  · rintro rfl
    exact tried_candidate name k

theorem candidate_inj {name : String} {j k : Nat} (h : candidate name j = candidate name k) :
    j = k := by
  cases j with
  | zero =>
    cases k with
    | zero => rfl
    | succ k =>
      have hlt := lt_utf8ByteSize_candidate name k
      rw [← h, candidate] at hlt
      exact absurd hlt (Nat.lt_irrefl _)
  | succ j =>
    cases k with
    | zero =>
      have hlt := lt_utf8ByteSize_candidate name j
      rw [h, candidate] at hlt
      exact absurd hlt (Nat.lt_irrefl _)
    | succ k => rw [candidate_succ_inj h]

/-! ## What is taken -/

/-- The names of a path lead to a place. -/
def GoesTo (d : Disk) (p : Path) (home : Location) : Prop :=
  d.resolveFrom true linkLimit (startOf p.text d.workingDirectory) (namesOf p.text) =
    .ok (.entry home)

section Taken

variable {d : Disk} (hd : d.IsTree) {dir : Path} {home : Location} (hhome : GoesTo d dir home)
  (hsearch : d.holdsDir home = true → d.Searchable home)
include hd hhome hsearch

/-- The path of a name in a directory leads to an entry if it is not too long and the directory has
such an entry. -/
theorem isOccupied_join_iff {n : String} (hn : IsName n) :
    d.isOccupied (dir.join n) = true ↔
      checkPath (dir.join n) = .ok () ∧ (d.get? (n :: home)).isSome = true := by
  have hslash := endsInSlash_join hn dir
  constructor
  · intro hocc
    obtain ⟨loc, hreach, hsome⟩ := exists_dir_of_isOccupied (k := 0) hn hocc
    obtain ⟨hcheck, -, hloc⟩ := (Disk.reaches_join_iff hn).1 hreach
    rw [hhome, Except.ok.injEq, Place.entry.injEq] at hloc
    exact ⟨hcheck, hloc ▸ hsome⟩
  · rintro ⟨hcheck, hsome⟩
    obtain ⟨e, he⟩ := Option.isSome_iff_exists.1 hsome
    have hopen := hsearch (hd.holdsDir_of_get? he)
    have hreach := (Disk.reaches_join_iff hn).2 ⟨hcheck, hopen, hhome⟩
    exact (isOccupied_iff hslash hreach).2 ⟨hd.length_le_of_get? he, hsome⟩

omit hd hsearch in
/-- The candidates that are taken are entries of the directory, no two of them the same. -/
theorem le_length_children {name : String} (hn : IsName name) {k : Nat}
    (htaken : ∀ j < k, d.isOccupied (dir.join (candidate name j)) = true) :
    k ≤ (d.children home).length := by
  have hmem : (List.range k).map (candidate name) ⊆ (d.children home).map Prod.fst := by
    intro n hmem
    obtain ⟨j, hj, rfl⟩ := List.mem_map.1 hmem
    obtain ⟨loc, hreach, hsome⟩ := exists_dir_of_isOccupied hn (htaken j (List.mem_range.1 hj))
    obtain ⟨-, -, hloc⟩ := (Disk.reaches_join_iff (isName_candidate hn j)).1 hreach
    rw [hhome, Except.ok.injEq, Place.entry.injEq] at hloc
    obtain ⟨e, he⟩ := Option.isSome_iff_exists.1 (hloc ▸ hsome)
    exact List.mem_map.2 ⟨(candidate name j, e), mem_children.2 (mem_of_get? he (by simp)), rfl⟩
  have hnodup : ((List.range k).map (candidate name)).Nodup :=
    List.nodup_range.map fun i j h => candidate_inj h
  simpa using hnodup.length_le_of_subset hmem

end Taken

/-- The search goes past nothing that is free. -/
theorem isOccupied_of_lt_firstFree {d : Disk} {dir : Path} {name : String} {j : Nat}
    (hj : j < firstFree d dir name) : d.isOccupied (dir.join (candidate name j)) = true := by
  unfold firstFree at hj
  cases hfind : (List.range (d.entries.length + 2)).find? fun k =>
      !d.isOccupied (dir.join (candidate name k)) with
  | none => simp [hfind] at hj
  | some k =>
    rw [hfind, Option.getD_some] at hj
    simpa using (List.find?_range_eq_some.1 hfind).2.2 j hj

/-! ## The choice -/

/-- A path in a directory has been chosen for a file. -/
structure Chosen (d : Disk) (dir : Path) (home : Location) (name : String) (k : Nat)
    (target : Path) : Prop where
  goesTo : GoesTo d dir home
  isDir : dir.text ≠ "" → d.holdsDir home = true
  tried : ∃ c, Tried name k c ∧ target = dir.join c
  free : d.isOccupied target = false
  vacant : checkPath target = .ok () → ∀ c, Tried name k c → d.get? (c :: home) = none
  taken : ∀ j < k, ∀ c, Tried name j c →
    d.isOccupied (dir.join c) = true ∧ (d.get? (c :: home)).isSome = true
  le : k ≤ (d.children home).length

theorem exists_goesTo {d made : Disk} {dir : Path} (h : d.makeDirs dir = (.ok (), made)) :
    ∃ home, GoesTo made dir home ∧ (dir.text ≠ "" → made.holdsDir home = true) := by
  by_cases hempty : dir.text = ""
  · refine ⟨made.workingDirectory, ?_, fun hne => absurd hempty hne⟩
    rw [GoesTo, hempty]
    rfl
  · obtain ⟨home, mode, hloc⟩ := isDir_iff_locate.1 (isDir_of_makeDirs hempty h)
    have hroot := rootAt_of_locate hloc
    exact ⟨home, hroot.leads, fun _ => hroot.isDir⟩

/-- Looking for a destination makes the directory with the parents that are missing and nothing
else. It fails only if they cannot be made, and gives the path of the first candidate that is
free. -/
theorem destination_least {d : Disk} (hd : d.IsTree) (dir : Path) {name : String}
    (hn : IsName name)
    (hsearch : ∀ home, GoesTo (d.makeDirs dir).2 dir home → d.holdsDir home = true →
      d.Searchable home) :
    MadeAt dir.ancestors d (destination d dir name).2 ∧
    match destination d dir name with
    | (.error e, made) => d.makeDirs dir = (.error e, made)
    | (.ok target, made) => d.makeDirs dir = (.ok (), made) ∧
        ∃ home k, Chosen made dir home name k target := by
  have hmade := madeAt_makeChain dir.ancestors d
  change MadeAt dir.ancestors d (d.makeDirs dir).2 at hmade
  unfold destination
  cases hdirs : d.makeDirs dir with
  | mk result made =>
    rw [hdirs] at hmade hsearch
    cases result with
    | error e => exact ⟨hmade, rfl⟩
    | ok u =>
      have htree := hmade.grown.isTree hd
      obtain ⟨home, hhome, hisDir⟩ := exists_goesTo hdirs
      have hopen := hmade.searchable (hsearch home hhome)
      -- a name is occupied exactly if the directory holds it, where that may be searched
      have hiff := fun j => isOccupied_join_iff htree hhome hopen (isName_candidate hn j)
      have hfree := not_isOccupied_firstFree made dir hn
      refine ⟨hmade, rfl, home, firstFree made dir name, hhome, hisDir,
        ⟨_, tried_candidate name _, rfl⟩, hfree, fun hcheck c hc => ?_, fun j hj c hc => ?_, ?_⟩
      · obtain rfl := tried_iff.1 hc
        rw [Bool.eq_false_iff, ne_eq, hiff, not_and] at hfree
        simpa using hfree hcheck
      · obtain rfl := tried_iff.1 hc
        have hocc := isOccupied_of_lt_firstFree hj
        exact ⟨hocc, ((hiff j).1 hocc).2⟩
      · exact le_length_children hhome hn fun j hj => isOccupied_of_lt_firstFree hj

open Listing (plainDisk slashedRoot)

theorem destination_least_of_plainDisk : plainDisk.IsTree ∧ IsName "a.css" ∧
    ∃ home k, Chosen plainDisk ⟨"/site"⟩ home "a.css" k ⟨"/site/a-1.css"⟩ := by
  have hd : plainDisk.IsTree := by decide +kernel
  have hn : IsName "a.css" := by decide +kernel
  have hdest : destination plainDisk ⟨"/site"⟩ "a.css" = (.ok ⟨"/site/a-1.css"⟩, plainDisk) := rfl
  have hleast := (destination_least hd ⟨"/site"⟩ hn fun home hhome _ => by
    have hsite : GoesTo (plainDisk.makeDirs ⟨"/site"⟩).2 ⟨"/site"⟩ ["site"] := rfl
    rw [GoesTo, hsite, Except.ok.injEq, Place.entry.injEq] at hhome
    exact hhome ▸ ⟨0o755, rfl, by decide +kernel⟩).2
  rw [hdest] at hleast
  exact ⟨hd, hn, hleast.2⟩

/-- Nothing is found under a path that is too long, so it is chosen. -/
theorem destination_of_long {d : Disk} {dir : Path} {name : String}
    (hmade : d.makeDirs dir = (.ok (), d)) (hlong : checkPath (dir.join name) ≠ .ok ()) :
    destination d dir name = (.ok (dir.join name), d) := by
  have hfirst : firstFree d dir name = 0 := by
    by_contra hne
    have hocc := isOccupied_of_lt_firstFree (Nat.pos_of_ne_zero hne)
    obtain ⟨⟨loc, e⟩, hloc⟩ := isOccupied_iff_locate.1 hocc
    exact hlong (resolve_eq_ok_iff.1 (locate_eq_ok_iff.1 hloc).1).1
  simp only [destination, hmade, hfirst, candidate]

theorem makeDirs_slashedRoot :
    plainDisk.makeDirs (slashedRoot 4090) = (.ok (), plainDisk) := by
  have hloc := Listing.locate_slashedRoot
  have hreach : plainDisk.Reaches (slashedRoot 4090) [] "site" := by
    refine ⟨(resolve_eq_ok_iff.1 (locate_eq_ok_iff.1 hloc).1).1, by decide +kernel, ⟨_, rfl, rfl⟩,
      [], ?_, ?_⟩
    · rw [Listing.namesOf_slashedRoot, List.nil_append]
    · rw [startOf, if_pos (Listing.chars_slashedRoot 4090).1]
      rfl
  exact makeDirs_of_isDir (isDir_iff_locate.2 ⟨_, _, hloc⟩)
    (makeDir_of_taken hreach (by decide +kernel) rfl)

/-- A name is chosen that the directory has already, where the path of the directory can be used and
the path of the file is too long. -/
theorem destination_taken : plainDisk.IsTree ∧ IsName "a.css" ∧
    plainDisk.Searchable ["site"] ∧ GoesTo plainDisk (slashedRoot 4090) ["site"] ∧
    (plainDisk.get? ["a.css", "site"]).isSome = true ∧
    destination plainDisk (slashedRoot 4090) "a.css" =
      (.ok ((slashedRoot 4090).join "a.css"), plainDisk) := by
  have hn : IsName "a.css" := by decide +kernel
  have hlong : checkPath ((slashedRoot 4090).join "a.css") ≠ .ok () := by
    intro hcheck
    have hsize := Path.size_le_size_join hn (slashedRoot 4090)
    have hbytes : "a.css".utf8ByteSize = 5 := by decide +kernel
    have hlimit := (checkPath_eq_ok_iff.1 hcheck).2.2
    rw [Listing.size_slashedRoot, hbytes] at hsize
    rw [pathLimit] at hlimit
    omega
  exact ⟨by decide +kernel, hn, ⟨0o755, rfl, by decide +kernel⟩,
    (rootAt_of_locate Listing.locate_slashedRoot).leads, by decide +kernel,
    destination_of_long makeDirs_slashedRoot hlong⟩

end Move

end SiteFolders
