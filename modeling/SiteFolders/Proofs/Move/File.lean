import SiteFolders.Move.File
import SiteFolders.Proofs.Disk.Ancestors
import SiteFolders.Proofs.Move.Relocation

/-!
# Moving a file changes one place

Where the target of a move is free, once the directories that lead to it have been made, one entry
goes to it or these directories are all that is new (`moveFile_cases`). On one volume the entry is
renamed, and a copy that is tried after a failed rename comes to nothing: what can be copied to
a free path and then be taken away could have been renamed. On another volume renaming fails, and
the entry is copied and taken away (`relocated_of_copied`). Where it cannot be taken away the copy
can, and everything is as it was (`removeFile_copied`).
-/

namespace SiteFolders.Move

open Disk

/-! ## The source -/

theorem mem_children {d : Disk} {dir : Location} {x : String × Entry} :
    x ∈ d.children dir ↔ (x.1 :: dir, x.2) ∈ d.entries := by
  simp only [children, List.mem_mergeSort, List.mem_filterMap]
  constructor
  · rintro ⟨⟨loc, e⟩, hmem, hsome⟩
    cases loc with
    | nil => simp at hsome
    | cons name parent =>
      simp only [Option.ite_none_right_eq_some, Option.some.injEq] at hsome
      rcases hsome with ⟨rfl, rfl⟩
      exact hmem
  · intro hmem
    exact ⟨_, hmem, by simp⟩

/-- The names in a directory differ. -/
theorem pairwise_children {d : Disk} (hd : d.IsTree) (dir : Location) :
    (d.children dir).Pairwise fun x y => x.1 ≠ y.1 := by
  refine (List.mergeSort_perm _ _).pairwise_iff (fun h => h.symm) |>.2 ?_
  refine List.pairwise_filterMap.2 ((List.pairwise_map.1 hd.nodup).imp ?_)
  rintro ⟨l, e⟩ ⟨l', e'⟩ hne x hx y hy
  cases l with
  | nil => simp at hx
  | cons name parent =>
    cases l' with
    | nil => simp at hy
    | cons name' parent' =>
      simp only [Option.ite_none_right_eq_some, Option.some.injEq] at hx hy
      rcases hx with ⟨rfl, rfl⟩
      rcases hy with ⟨rfl, rfl⟩
      exact fun h => hne (by simpa using h)

/-- A directory that grows keeps its files in their order. -/
theorem filter_isFile_children {d made : Disk} (hd : d.IsTree) (hgrown : d.Grown made)
    (dir : Location) :
    (made.children dir).filter (·.2.isFile) = (d.children dir).filter (·.2.isFile) := by
  have hsorted : ∀ d : Disk, (d.children dir).Pairwise fun x y => x.1 ≤ y.1 := by
    intro d
    refine (List.pairwise_mergeSort (fun a b c hab hbc => ?_) (fun a b => ?_) _).imp
      fun h => by simpa using h
    · simp only [decide_eq_true_eq] at hab hbc ⊢
      exact String.le_trans hab hbc
    · simpa using String.le_total a.1 b.1
  have hnodup : ∀ d : Disk, d.IsTree → ((d.children dir).filter (·.2.isFile)).Nodup :=
    fun d hd => ((pairwise_children hd dir).imp fun hne heq => hne (by rw [heq])).filter _
  have hmem : ∀ x, x ∈ (made.children dir).filter (·.2.isFile) ↔
      x ∈ (d.children dir).filter (·.2.isFile) := by
    intro x
    simp only [List.mem_filter, mem_children, and_congr_left_iff]
    intro hfile
    constructor
    · intro hx
      have hget := (hgrown.isTree hd).get?_of_mem hx
      exact mem_of_get? (hgrown.of_not_dir hget (isDir_of_isFile hfile)) (by simp)
    · intro hx
      exact mem_of_get? (hgrown.kept _ _ (hd.get?_of_mem hx)) (by simp)
  have hperm := (List.perm_ext_iff_of_nodup (hnodup made (hgrown.isTree hd)) (hnodup d hd)).2 hmem
  refine hperm.eq_of_pairwise ?_ ((hsorted made).filter _) ((hsorted d).filter _)
  intro x y hx hy hxy hyx
  -- one name has one entry
  have hname := String.le_antisymm hxy hyx
  have hx := hd.get?_of_mem (mem_children.1 (List.mem_filter.1 ((hmem x).1 hx)).1)
  have hy := hd.get?_of_mem (mem_children.1 (List.mem_filter.1 hy).1)
  rw [hname, hy, Option.some.injEq] at hx
  exact Prod.ext hname hx.symm

/-- What is read in a directory has names, and no two of them are the same. -/
theorem names_of_readDir {d : Disk} (hd : d.IsTree) {p : Path} {entries : List (String × Entry)}
    (h : d.readDir p = .ok entries) :
    (∀ x ∈ entries, IsName x.1) ∧ entries.Pairwise fun x y => x.1 ≠ y.1 := by
  obtain ⟨loc, mode, -, -, rfl⟩ := readDir_eq_ok_iff.1 h
  refine ⟨fun x hx => ?_, pairwise_children hd loc⟩
  exact hd.isName_of_get? (hd.get?_of_mem (mem_children.1 hx))

/-- Entries that stand in order are read as they stand. -/
theorem readDir_of_sorted {d : Disk} {p : Path} {dir : Location} {mode : Nat}
    {entries : List (String × Entry)} (hloc : d.locate true p = .ok (dir, .dir mode))
    (hread : d.mayRead mode = true)
    (hentries : d.entries.filterMap (fun x =>
      match x.1 with
      | name :: parent => if parent = dir then some (name, x.2) else none
      | [] => none) = entries)
    (hsorted : entries.Pairwise fun x y => x.1 ≤ y.1) : d.readDir p = .ok entries := by
  have hchildren : d.children dir = entries.mergeSort fun a b => decide (a.1 ≤ b.1) := by
    rw [← hentries]
    rfl
  rw [List.mergeSort_of_pairwise (hsorted.imp fun h => by simpa using h)] at hchildren
  exact readDir_eq_ok_iff.2 ⟨dir, mode, hloc, hread, hchildren.symm⟩

/-- What a case variant is: the first regular file of the directory whose name is the same up to
letter case. -/
theorem caseVariant?_eq_some_iff {d : Disk} {p found : Path} :
    caseVariant? d p = some found ↔ ∃ dir name home mode x, p.parent? = some dir ∧
      p.fileName? = some name ∧ d.locate true dir = .ok (home, .dir mode) ∧
      d.mayRead mode = true ∧ ((d.children home).filter (·.2.isFile)).find?
        (fun y => Text.lowercase y.1 == Text.lowercase name) = some x ∧ found = dir.join x.1 := by
  unfold caseVariant?
  simp only [bind, Option.bind_eq_some_iff, pure, Option.some.injEq, List.find?_filter,
    Bool.decide_and, Bool.decide_eq_true]
  constructor
  · rintro ⟨dir, hdir, name, hname, entries, hentries, x, hfind, rfl⟩
    obtain ⟨home, mode, hloc, hmay, rfl⟩ :=
      readDir_eq_ok_iff.1 (toOption_eq_some_iff.1 hentries)
    exact ⟨dir, name, home, mode, x, hdir, hname, hloc, hmay, hfind, rfl⟩
  · rintro ⟨dir, name, home, mode, x, hdir, hname, hloc, hmay, hfind, rfl⟩
    refine ⟨dir, hdir, name, hname, d.children home, ?_, x, hfind, rfl⟩
    exact toOption_eq_some_iff.2 (readDir_eq_ok_iff.2 ⟨home, mode, hloc, hmay, rfl⟩)

/-- A case variant is its own case variant, also after its directory has grown. -/
theorem caseVariant?_grown {d made : Disk} (hd : d.IsTree) (hgrown : d.Grown made)
    {p found : Path} (h : caseVariant? d p = some found) :
    caseVariant? made found = some found := by
  obtain ⟨dir, name, home, mode, ⟨n, e⟩, hdir, hname, hloc, hmay, hfind, rfl⟩ :=
    caseVariant?_eq_some_iff.1 h
  have hmem := (List.mem_filter.1 (List.mem_of_find?_eq_some hfind)).1
  have hn : IsName n := (hd.hosted _ (mem_children.1 hmem)).1
  have hsame := List.find?_some hfind
  simp only [beq_iff_eq] at hsame
  refine caseVariant?_eq_some_iff.2 ⟨dir, n, home, mode, (n, e),
    Path.parent?_join_of_parent? hdir hn, Path.fileName?_join hn dir, hgrown.locate hloc, ?_, ?_, rfl⟩
  · rwa [hgrown.keeps.mayRead]
  · rwa [filter_isFile_children hd hgrown, hsame]

/-- What is to be moved is found again under its own path. -/
theorem source?_grown {d made : Disk} (hd : d.IsTree) (hgrown : d.Grown made) {p found : Path}
    (h : source? d p = some found) : source? made found = some found := by
  unfold source? at h ⊢
  split
  · rfl
  · next hfree =>
    split at h
    · next hocc =>
      obtain rfl : p = found := by simpa using h
      exact absurd (hgrown.isOccupied hocc) hfree
    · exact caseVariant?_grown hd hgrown h

/-! ## Copying -/

theorem copyFile_eq_ok {d copied : Disk} {source target : Path}
    (h : d.copyFile source target = .ok copied) :
    ∃ loc mode was bytes, d.locate true source = .ok (loc, .file mode was) ∧
      d.store target mode true bytes = .ok copied ∧
      ((∀ other, d.resolve true target ≠ .ok (.entry other)) → bytes = was) := by
  obtain ⟨⟨loc, e⟩, hloc, h⟩ := bind_eq_ok_iff.1 h
  obtain ⟨-, h⟩ := ite_error_eq_ok_iff.1 h
  cases e with
  | dir | link => simp at h
  | file mode was =>
    refine ⟨loc, mode, was, _, hloc, h, fun hvacant => ?_⟩
    split
    · next other hother => exact absurd hother (hvacant other)
    · rfl

/-- The source of a copy is not at the place of the copy, where there was nothing to be copied. -/
theorem ne_of_copied {d : Disk} {source : Path} {new fromDir : Location} {m : String}
    {x : Location × Entry} (hvacant : d.get? new = none) (hsource : d.Reaches source fromDir m)
    (hslash : endsInSlash source = false) (hm : m.utf8ByteSize ≤ nameLimit)
    (hloc : d.locate true source = .ok x) : m :: fromDir ≠ new := by
  rintro rfl
  have hres := hsource.resolve hslash hm true (by simp [hvacant])
  rw [(locate_eq_ok_iff.1 hloc).1, hvacant] at hres
  simp at hres

/-- What a path leads to is what stands for the entry at the path where it is copied to. -/
theorem copyOf_of_locate {d : Disk} {source : Path} {fromDir loc : Location} {m : String}
    {e : Entry} {mode : Nat} {bytes : ByteArray} (hsource : d.Reaches source fromDir m)
    (hslash : endsInSlash source = false) (hm : m.utf8ByteSize ≤ nameLimit)
    (he : d.get? (m :: fromDir) = some e) (hleaf : e.isDir = false)
    (hloc : d.locate true source = .ok (loc, .file mode bytes)) :
    CopyOf d source e (.file mode bytes) := by
  cases e with
  | dir => simp [Entry.isDir] at hleaf
  | link target => exact .link hloc
  | file mode' bytes' =>
    -- a path that leads to no link is not led on
    have hres := hsource.resolve hslash hm true (by simp [he, Entry.isLink])
    obtain ⟨hplace, hget⟩ := locate_eq_ok_iff.1 hloc
    rw [hplace, he, Option.isSome_some, if_pos rfl] at hres
    obtain rfl := Place.entry.inj (Except.ok.inj hres)
    obtain ⟨rfl, rfl⟩ := Entry.file.inj (Option.some.inj (he.symm.trans hget))
    exact .file mode' bytes'

section Target

variable {d : Disk} {target : Path} (hfree : d.isOccupied target = false)
include hfree

/-- A copy stands under the vacant name that the target reaches, with the bytes of the file that
the source leads to. -/
theorem copyFile_eq_ok_of_free {source : Path} {copied : Disk}
    (h : d.copyFile source target = .ok copied) :
    endsInSlash target = false ∧ ∃ loc mode bytes toDir n,
      d.locate true source = .ok (loc, .file mode bytes) ∧ d.Reaches target toDir n ∧
      n.utf8ByteSize ≤ nameLimit ∧ d.get? (n :: toDir) = none ∧ d.mayChange toDir = true ∧
      copied = d.put (n :: toDir) (.file mode bytes) := by
  obtain ⟨loc, mode, was, bytes, hloc, hstore, hbytes⟩ := copyFile_eq_ok h
  obtain ⟨hslash, toDir, n, hreach, hlen, hvacant, hchange, hcopied⟩ :=
    store_eq_ok_of_free hfree hstore
  have hres := hreach.resolve_vacant hlen hvacant true
  obtain rfl : bytes = was := hbytes (by simp [hres])
  exact ⟨hslash, loc, mode, bytes, toDir, n, hloc, hreach, hlen, hvacant, hchange, hcopied⟩

/-- What can be copied to a free path and then be taken away can be renamed, or it has come to another
volume. -/
theorem relocated_of_copied (hd : d.IsTree) {source : Path} {copied removed : Disk}
    (hcopy : d.copyFile source target = .ok copied)
    (hremove : copied.removeFile source = .ok removed) :
    (∃ renamed, d.rename source target = .ok renamed) ∨
      ∃ old new, Relocated d removed source target old new := by
  obtain ⟨hend, loc, mode, bytes, toDir, n, hloc, htarget, hlen, hvacant, hto, rfl⟩ :=
    copyFile_eq_ok_of_free hfree hcopy
  obtain ⟨fromDir, m, e, hsource, hm, he, hslash, hfrom, hleaf, hmount, rfl⟩ :=
    removeFile_eq_ok_iff.1 hremove
  -- the copy is put at a vacant place, so all that was found after it was found before
  have hkeeps := keeps_of_put_file hvacant mode bytes
  have hsource' := hkeeps.reaches hsource
  have hne := ne_of_copied hvacant hsource' hslash hm hloc
  rw [get?_put_of_ne _ _ hne] at he
  rw [hkeeps.mayChange hsource.searchable |>.symm] at hfrom
  replace hmount : d.isMount (m :: fromDir) = false := hmount
  by_cases hvolume : d.volume fromDir = d.volume toDir
  · left
    have habove : ¬ (n :: toDir) <:+ fromDir := by
      rintro ⟨below, hbelow⟩
      rcases hsource'.searchable with ⟨mode, hmode, -⟩
      rw [← hbelow, hd.get?_below_vacant hvacant] at hmode
      simp at hmode
    rw [rename_of_reaches hsource' hm he htarget hlen]
    simp [hvolume, hslash, hend, hleaf, habove, hne, hfrom, hto, hvacant, checkKind, hmount,
      hd.isMount_of_vacant hvacant]
  · right
    have hcan := canMove_of_vacant hd he htarget.name hlen htarget.searchable.holdsDir hvacant
      (by simp [hleaf])
    have hcopied := copyOf_of_locate hsource' hslash hm he hleaf hloc
    exact ⟨_, _, hcan, .copied he hcopied hmount hvolume, fun _ _ _ => ⟨hslash, hend⟩,
      ⟨_, _, rfl, hm, hsource'⟩, ⟨_, _, rfl, hlen, htarget⟩⟩

/-- Where the source cannot be taken away, the copy can, and then everything is as it was. -/
theorem removeFile_copied (hd : d.IsTree) {source : Path} {copied : Disk}
    (hcopy : d.copyFile source target = .ok copied) :
    copied.removeFile target = .ok d := by
  obtain ⟨hslash, loc, mode, bytes, toDir, n, -, htarget, hlen, hvacant, hto, rfl⟩ :=
    copyFile_eq_ok_of_free hfree hcopy
  have hkeeps := keeps_put_file hvacant mode bytes
  refine removeFile_eq_ok_iff.2 ⟨toDir, n, _, hkeeps.reaches htarget, hlen, get?_put_self .., ?_⟩
  refine ⟨hslash, ?_, rfl, hd.isMount_of_vacant hvacant, (erase_put_vacant hvacant _).symm⟩
  rwa [hkeeps.mayChange htarget.searchable]

/-- After a rename that failed, the entry is copied to another volume and taken away, or copying
changes nothing. -/
theorem copyAcross_of_rename_error (hd : d.IsTree) {source : Path} {cause : DiskError}
    (hrename : d.rename source target = .error cause) :
    (∃ after old new, Relocated d after source target old new ∧
      copyAcross d source target = (.ok (), after)) ∨
    ∃ e, copyAcross d source target = (.error (.failed e), d) := by
  unfold copyAcross
  split
  · next e he => exact Or.inr ⟨e, rfl⟩
  · next copied hcopy =>
    split
    · next removed hremove =>
      rcases relocated_of_copied hfree hd hcopy hremove with ⟨renamed, hrenamed⟩ | ⟨old, new, h⟩
      · simp [hrename] at hrenamed
      · exact Or.inl ⟨removed, old, new, h, rfl⟩
    · next e he =>
      rw [removeFile_copied hfree hd hcopy]
      exact Or.inr ⟨e, rfl⟩

/-- What is renamed to a free path has gone there. -/
theorem relocated_of_rename (hd : d.IsTree) {source : Path} {renamed : Disk}
    (hrename : d.rename source target = .ok renamed) :
    ∃ old new, Relocated d renamed source target old new := by
  obtain ⟨old, new, e, hold, hnew, hcan, he, hslash, hvolume, rfl⟩ :=
    rename_eq_ok_of_free hd hfree hrename
  refine ⟨old, new, hcan, .renamed hvolume, fun f hf => ?_, hold, hnew⟩
  obtain rfl := Option.some.inj (he.symm.trans hf)
  exact hslash

end Target

/-! ## Moving -/

/-- The directories that lead to a path, as far as they are made for it. -/
def parents (p : Path) : List Path :=
  match p.parent? with
  | some dir => if dir.text.isEmpty then [] else dir.ancestors
  | none => []

theorem makeParent_eq_makeChain (d : Disk) (p : Path) : makeParent d p = makeChain (parents p) d := by
  unfold makeParent parents
  cases p.parent? with
  | none => rfl
  | some dir =>
    simp only
    split <;> rfl

theorem madeAt_makeParent (d : Disk) (p : Path) : MadeAt (parents p) d (makeParent d p).2 := by
  rw [makeParent_eq_makeChain]
  exact madeAt_makeChain _ d

theorem makeParent_again {d made : Disk} {p : Path} (h : makeParent d p = (.ok (), made)) :
    (makeParent made p).2 = made := by
  rw [makeParent_eq_makeChain] at h ⊢
  exact makeChain_again h

/-- Making the parents of a free path leaves it free, unless it goes up on its way. -/
theorem not_isOccupied_makeParent {d : Disk} (hd : d.IsTree) {p : Path}
    (hup : ".." ∉ namesOf p.text) (hfree : d.isOccupied p = false) :
    (makeParent d p).2.isOccupied p = false := by
  rw [makeParent_eq_makeChain]
  refine not_isOccupied_makeChain hup hd (fun q hq => ?_) hfree
  unfold parents at hq
  split at hq
  · next dir hdir =>
    split at hq
    · simp at hq
    · next hne =>
      obtain ⟨rest, hrest, hname⟩ := Path.goesThrough_of_parent? hdir
      obtain ⟨more, hmore⟩ := Path.goesThrough_of_mem_ancestors hq
      obtain ⟨n, hn, hdot⟩ := hname (by simpa using hne)
      exact ⟨more ++ rest, hrest.trans hmore, n, List.mem_append_right more hn, hdot⟩
  · simp at hq

theorem makeParent_eq_self {d : Disk} {dir : Path} {folder n : String} (hfolder : IsName folder)
    (hn : IsName n) (hmade : d.makeDir (dir.join folder) = .error .alreadyExists) :
    (makeParent d ((dir.join folder).join n)).2 = d := by
  unfold makeParent
  rw [Path.parent?_join_join hfolder dir hn]
  simp only
  split
  · rfl
  · exact makeDirs_of_alreadyExists hmade

/-- What moving a file can do. Where the parents of the target are made and the target is free then,
what is found for the path goes to the target; or the parents are all that is new. -/
theorem moveFile_cases {d : Disk} (hd : d.IsTree) (source : Path) {target : Path}
    (hfree : (makeParent d target).2.isOccupied target = false) :
    (source? d source = none ∧ moveFile d source target = (.error .noSource, d)) ∨
    ∃ found, source? d source = some found ∧
      ((∃ cause, moveFile d source target = (.error (.failed cause), (makeParent d target).2)) ∨
      ∃ after old new, Relocated (makeParent d target).2 after found target old new ∧
        moveFile d source target = (.ok (), after)) := by
  have hgrown := (madeAt_makeParent d target).grown
  cases hsource : source? d source with
  | none => exact Or.inl ⟨rfl, by simp [moveFile, hsource]⟩
  | some found =>
    refine Or.inr ⟨found, rfl, ?_⟩
    cases hmake : makeParent d target with
    | mk result made =>
      rw [hmake] at hfree hgrown
      have hmade := hgrown.isTree hd
      cases result with
      | error e => exact Or.inl ⟨e, by simp [moveFile, hsource, hmake]⟩
      | ok u =>
        have hmove : moveFile d source target = renameOrCopy made found target := by
          simp [moveFile, hsource, hmake]
        rw [hmove, renameOrCopy]
        cases hrename : made.rename found target with
        | ok renamed =>
          obtain ⟨old, new, hreloc⟩ := relocated_of_rename hfree hmade hrename
          exact Or.inr ⟨renamed, old, new, hreloc, rfl⟩
        | error e =>
          simp only
          split
          · -- the parents are there now, and the copy starts from the same path
            have hagain := makeParent_again hmake
            cases hparent : makeParent made target with
            | mk result' made' =>
              rw [hparent] at hagain
              obtain rfl : made' = made := hagain
              cases result' with
              | error e' => exact Or.inl ⟨e', rfl⟩
              | ok u' =>
                simp only [source?_grown hd hgrown hsource, Option.getD_some]
                exact (copyAcross_of_rename_error hfree hmade hrename).symm
          · exact Or.inl ⟨e, rfl⟩

/-- On another volume a file is copied, and its source is taken away. -/
theorem moveFile_across {d copied removed : Disk} {source target : Path}
    (hsource : source? d source = some source) (hparent : makeParent d target = (.ok (), d))
    (hrename : d.rename source target = .error .crossesDevices)
    (hcopy : d.copyFile source target = .ok copied)
    (hremove : copied.removeFile source = .ok removed) :
    moveFile d source target = (.ok (), removed) := by
  simp [moveFile, hsource, hparent, renameOrCopy, hrename, DiskError.allowsCopy, copyAcross, hcopy,
    hremove]

/-- A file is moved from the path that is found for it, or nothing happens. -/
theorem moveFile_spec {d : Disk} (hd : d.IsTree) {dir : Path} {folder n : String}
    (hfolder : IsName folder) (hn : IsName n)
    (hmade : d.makeDir (dir.join folder) = .error .alreadyExists)
    (hfree : d.isOccupied ((dir.join folder).join n) = false) (source : Path) :
    match moveFile d source ((dir.join folder).join n) with
    | (.ok (), after) => ∃ found old new, source? d source = some found ∧
        Relocated d after found ((dir.join folder).join n) old new
    | (.error _, after) => after = d := by
  have hparent := makeParent_eq_self hfolder hn hmade
  have hcases := moveFile_cases hd source (hparent.symm ▸ hfree)
  rw [hparent] at hcases
  rcases hcases with
    ⟨-, hmove⟩ | ⟨found, hfound, ⟨cause, hmove⟩ | ⟨after, old, new, hreloc, hmove⟩⟩
  · rw [hmove]
  · rw [hmove]
  · rw [hmove]
    exact ⟨found, old, new, hfound, hreloc⟩

end SiteFolders.Move
