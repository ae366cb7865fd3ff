import SiteFolders.Proofs.Move.Phase
import SiteFolders.Proofs.Move.Plan

/-!
# Moving a file is all or nothing

Whatever paths a move is given, it takes one entry away, which stands where the target led to, or
it leaves every entry as it was; besides it makes directories that the target lacks
(`moveFile_allOrNothing`). The one exception is a link that is moved to another volume: it is gone,
and what stands there is a copy of the file that it led to.

The target has to be free when the directories have been made. For a path that does not go up this
is so if it was free before; `x/../b.css` leads nowhere at first and to another file as soon as `x`
is made (`moveFile_goes_up`).
-/

namespace SiteFolders.Move

open Disk

/-! ## The source -/

/-- An entry is what is moved for a path: what is at the path itself, or else a regular file of the
same directory whose name is the same up to letter case. -/
inductive IsSource (d : Disk) (p : Path) : Location → Entry → Prop
  | itself {old : Location} {e : Entry} (hloc : d.locate false p = .ok (old, e)) :
      IsSource d p old e
  | caseVariant {dir : Path} {name n : String} {home : Location} {mode : Nat} {e : Entry}
      (hnone : ∀ x, d.locate false p ≠ .ok x) (hdir : p.parent? = some dir)
      (hname : p.fileName? = some name) (hloc : d.locate true dir = .ok (home, .dir mode))
      (hmay : d.mayRead mode = true) (he : d.get? (n :: home) = some e)
      (hfile : e.isFile = true) (hsame : Text.lowercase n = Text.lowercase name) :
      IsSource d p (n :: home) e

/-- A case variant that is found is what is moved for a path at which nothing is. -/
theorem isSource_of_caseVariant? {d : Disk} (hd : d.IsTree) {p found : Path}
    (hfree : d.isOccupied p = false) (h : SiteFolders.Move.caseVariant? d p = some found) :
    ∃ dir home mode n e, found = dir.join n ∧ d.locate true dir = .ok (home, .dir mode) ∧
      d.get? (n :: home) = some e ∧ IsSource d p (n :: home) e := by
  obtain ⟨dir, name, home, mode, ⟨n, e⟩, hdir, hname, hloc, hmay, hfind, rfl⟩ :=
    caseVariant?_eq_some_iff.1 h
  obtain ⟨hmem, hfile⟩ := List.mem_filter.1 (List.mem_of_find?_eq_some hfind)
  have hget := hd.get?_of_mem (mem_children.1 hmem)
  have hsame : Text.lowercase n = Text.lowercase name := by simpa using List.find?_some hfind
  have hnone : ∀ x, d.locate false p ≠ .ok x := by
    intro x hx
    simp [isOccupied_iff_locate.2 ⟨x, hx⟩] at hfree
  exact ⟨dir, home, mode, n, e, rfl, hloc, hget,
    .caseVariant hnone hdir hname hloc hmay hget hfile hsame⟩

/-- Nothing is found for a path exactly where nothing is there to be moved. -/
theorem source?_eq_none_iff {d : Disk} (hd : d.IsTree) {p : Path} :
    source? d p = none ↔ ∀ old e, ¬ IsSource d p old e := by
  unfold source?
  constructor
  · intro h old e hsource
    split at h
    · simp at h
    · next hfree =>
      cases hsource with
      | itself hloc => exact hfree (isOccupied_iff_locate.2 ⟨_, hloc⟩)
      | @caseVariant dir name n home mode e _ hdir hname hloc hmay he hfile hsame =>
        -- the file that the search gives need not be this one, but it gives one
        have hmem : (n, e) ∈ (d.children home).filter (·.2.isFile) :=
          List.mem_filter.2 ⟨mem_children.2 (mem_of_get? he (by simp)), hfile⟩
        cases hfind : ((d.children home).filter (·.2.isFile)).find?
            (fun y => Text.lowercase y.1 == Text.lowercase name) with
        | none =>
          have hnot := List.find?_eq_none.1 hfind _ hmem
          simp [hsame] at hnot
        | some x =>
          have hsome := caseVariant?_eq_some_iff.2
            ⟨dir, name, home, mode, x, hdir, hname, hloc, hmay, hfind, rfl⟩
          simp [h] at hsome
  · intro hnone
    split
    · next hocc =>
      obtain ⟨⟨old, e⟩, hloc⟩ := isOccupied_iff_locate.1 hocc
      exact absurd (.itself hloc) (hnone old e)
    · next hfree =>
      cases hvariant : SiteFolders.Move.caseVariant? d p with
      | none => rfl
      | some found =>
        obtain ⟨-, home, -, n, e, -, -, -, hsource⟩ :=
          isSource_of_caseVariant? hd (Bool.eq_false_iff.2 hfree) hvariant
        exact absurd hsource (hnone (n :: home) e)

/-- What the path that is found leads to, once directories have been made, is the source. -/
theorem isSource_of_source? {d made : Disk} (hd : d.IsTree) (hgrown : d.Grown made)
    {p found : Path} (h : source? d p = some found) {old : Location} {e : Entry}
    (hleads : made.LeadsTo found old) (he : made.get? old = some e)
    (hslash : e.isDir = false → endsInSlash found = false) : IsSource d p old e := by
  unfold source? at h
  split at h
  · next hocc =>
    obtain rfl : p = found := by simpa using h
    obtain ⟨x, hx⟩ := isOccupied_iff_locate.1 hocc
    -- a directory may be written with a slash at its end, a file or a link may not
    have hloc : made.locate false p = .ok (old, e) := by
      cases e with
      | dir mode =>
        obtain ⟨dir, n, rfl, hlen, hreach⟩ := hleads
        exact locate_eq_ok_iff.2 ⟨hreach.resolve_dir hlen he false, he⟩
      | file mode bytes => exact hleads.locate (hslash rfl) he
      | link target => exact hleads.locate (hslash rfl) he
    rw [hgrown.locate hx, Except.ok.injEq] at hloc
    exact .itself (hloc ▸ hx)
  · next hfree =>
    obtain ⟨dir, home, mode, n, e', rfl, hloc, hget, hsource⟩ :=
      isSource_of_caseVariant? hd (Bool.eq_false_iff.2 hfree) h
    obtain rfl : old = n :: home :=
      (rootAt_of_locate (hgrown.locate hloc)).of_leadsTo_join (hd.isName_of_get? hget) hleads
    rw [hgrown.kept _ _ hget, Option.some.injEq] at he
    exact he ▸ hsource

/-! ## What a move does -/

/-- A link is moved for the path at which it is, for only regular files are found as case variants. -/
theorem found_eq_of_link {d made : Disk} (hd : d.IsTree) (hgrown : d.Grown made) {p found : Path}
    {old : Location} {target : String} (h : source? d p = some found)
    (hleads : made.LeadsTo found old) (hlink : made.get? old = some (.link target)) : found = p := by
  unfold source? at h
  split at h
  · exact (Option.some.inj h).symm
  · next hfree =>
    obtain ⟨dir, home, mode, n, e, rfl, hloc, hget, hsource⟩ :=
      isSource_of_caseVariant? hd (Bool.eq_false_iff.2 hfree) h
    obtain rfl : old = n :: home :=
      (rootAt_of_locate (hgrown.locate hloc)).of_leadsTo_join (hd.isName_of_get? hget) hleads
    obtain rfl := Option.some.inj ((hgrown.kept _ _ hget).symm.trans hlink)
    cases hsource with
    | itself hitself => exact absurd (isOccupied_iff_locate.2 ⟨_, hitself⟩) hfree
    | caseVariant _ _ _ _ _ _ hfile => simp [Entry.isFile] at hfile

/-- How a move may end: one entry has gone to the place that the target leads to, or if it is a link
a copy of what it led to may be there; or every entry is as it was. Whatever else is new is
a directory that was missing above the target. -/
inductive MovedOrNot (d : Disk) (source target : Path) : Except Trouble Unit × Disk → Prop
  | moved {made after : Disk} {old new : Location} {e : Entry} {gained : Multiset ByteArray}
      (hmade : MadeAt (parents target) d made) (hsource : IsSource d source old e)
      (htarget : made.LeadsTo target new) (hvacant : d.get? new = none)
      (harrived : Arrived made after source old new gained)
      (hreads : e.isFile = true → after.locate false target = .ok (new, e)) :
      MovedOrNot d source target (.ok (), after)
  | failed {trouble : Trouble} {after : Disk} (hmade : MadeAt (parents target) d after)
      (hfree : after.isOccupied target = false)
      (hmissing : trouble = .noSource ↔ ∀ old e, ¬ IsSource d source old e) :
      MovedOrNot d source target (.error trouble, after)

/-- What has gone from the path that is found has gone for the path that was given. -/
theorem arrived_of_source? {d made after : Disk} (hd : d.IsTree) (hgrown : d.Grown made)
    {source found : Path} (hfound : source? d source = some found) {old new : Location}
    (hleads : made.LeadsTo found old) {gained : Multiset ByteArray}
    (h : Arrived made after found old new gained) : Arrived made after source old new gained := by
  cases h with
  | itself hkind hcarried => exact .itself hkind hcarried
  | copy hfollowed =>
    obtain ⟨target, hlink⟩ := hfollowed.link
    obtain rfl := found_eq_of_link hd hgrown hfound hleads hlink
    exact .copy hfollowed

/-- A move is all or nothing, to a path that is free and stays so when the directories above it are
made. -/
theorem moveFile_allOrNothing {d : Disk} (hd : d.IsTree) (source : Path) {target : Path}
    (hfree : d.isOccupied target = false)
    (hup : ".." ∈ namesOf target.text → (makeParent d target).2.isOccupied target = false) :
    MovedOrNot d source target (moveFile d source target) := by
  have hmade := madeAt_makeParent d target
  -- without `..` in the path, making the parents cannot make the path lead anywhere else
  have hfree' : (makeParent d target).2.isOccupied target = false := by
    by_cases hdots : ".." ∈ namesOf target.text
    · exact hup hdots
    · exact not_isOccupied_makeParent hd hdots hfree
  -- nothing found, nothing moved, an entry gone
  rcases moveFile_cases hd source hfree' with
    ⟨hnone, hmove⟩ | ⟨found, hfound, ⟨cause, hmove⟩ | ⟨after, old, new, hreloc, hmove⟩⟩
  · rw [hmove]
    refine .failed (.refl _ d) hfree ?_
    simpa using (source?_eq_none_iff hd).1 hnone
  · rw [hmove]
    refine .failed hmade hfree' ?_
    have hsome : ¬ ∀ old e, ¬ IsSource d source old e := by
      rw [← source?_eq_none_iff hd, hfound]
      simp
    simpa using hsome
  · rw [hmove]
    have hd' := hmade.grown.isTree hd
    obtain ⟨e, he⟩ := Option.isSome_iff_exists.1 hreloc.canMove.source
    obtain ⟨gained, harrived, -⟩ := hreloc.arrived hd'
    have hfrom := isSource_of_source? hd hmade.grown hfound hreloc.source he
      fun hdir => (hreloc.slash e he hdir).1
    have hto := arrived_of_source? hd hmade.grown hfound hreloc.source harrived
    exact .moved hmade hfrom hreloc.target (hmade.grown.vacant hreloc.canMove.vacant) hto
      (hreloc.locate hd' he)

theorem moveFile_allOrNothing_of_linkedDisk : linkedDisk.IsTree ∧
    linkedDisk.isOccupied ⟨"/site/css/l.css"⟩ = false ∧ ".." ∉ namesOf "/site/css/l.css" ∧
    moveFile linkedDisk ⟨"/shm/l.css"⟩ ⟨"/site/css/l.css"⟩ = (.ok (), followedDisk) ∧
    MovedOrNot linkedDisk ⟨"/shm/l.css"⟩ ⟨"/site/css/l.css"⟩ (.ok (), followedDisk) := by
  have hd : linkedDisk.IsTree := by decide +kernel
  have hfree : linkedDisk.isOccupied ⟨"/site/css/l.css"⟩ = false := by decide +kernel
  have hup : ".." ∉ namesOf "/site/css/l.css" := by decide +kernel
  refine ⟨hd, hfree, hup, moveFile_linkedDisk, ?_⟩
  rw [← moveFile_linkedDisk]
  exact moveFile_allOrNothing hd ⟨"/shm/l.css"⟩ hfree fun h => absurd h hup

/-- A directory with two files and a directory. -/
def pairDisk : Disk where
  entries := [(["site"], .dir 0o755), (["a.css", "site"], .file 0o644 "body".toUTF8),
    (["b.css", "site"], .file 0o644 "page".toUTF8), (["css", "site"], .dir 0o755)]

/-- The same directory after `x` has been made in it. -/
def pairDiskWithX : Disk := pairDisk.put ["x", "site"] (.dir newDirMode)

theorem makeParent_pairDisk {target : Path} (h : target.parent? = some ⟨"/site/x/.."⟩) :
    makeParent pairDisk target = (.ok (), pairDiskWithX) := by
  have hancestors : (⟨"/site/x/.."⟩ : Path).ancestors =
      [⟨"/site/x/.."⟩, ⟨"/site/x"⟩, ⟨"/site"⟩, ⟨"/"⟩] := by decide +kernel
  have hmissing : pairDisk.makeDir ⟨"/site/x/.."⟩ = .error .notFound := rfl
  have hmade : pairDisk.makeDir ⟨"/site/x"⟩ = .ok pairDiskWithX := rfl
  have hthere : pairDiskWithX.makeDir ⟨"/site/x/.."⟩ = .error .alreadyExists := rfl
  have hdir : pairDiskWithX.isDir ⟨"/site/x/.."⟩ = true := by decide +kernel
  have hnonempty : "/site/x/..".isEmpty = false ∧ "/site/x".isEmpty = false := by decide +kernel
  simp [makeParent, h, makeDirs, hancestors, makeChain, hnonempty, hmissing, hmade, hthere, hdir]

/-- A path that goes up may lead nowhere before its directories are made, and to a file afterwards,
which is replaced; or to a directory, on which the move fails. And it may lead nowhere any more when
what it goes through has been moved. -/
theorem moveFile_goes_up : pairDisk.IsTree ∧
    (pairDisk.isOccupied ⟨"/site/x/../b.css"⟩ = false ∧
      pairDisk.get? ["b.css", "site"] = some (.file 0o644 "page".toUTF8) ∧
      ∃ after, moveFile pairDisk ⟨"/site/a.css"⟩ ⟨"/site/x/../b.css"⟩ = (.ok (), after) ∧
        after.get? ["b.css", "site"] = some (.file 0o644 "body".toUTF8)) ∧
    (pairDisk.isOccupied ⟨"/site/x/../x"⟩ = false ∧
      ∃ after, moveFile pairDisk ⟨"/site/a.css"⟩ ⟨"/site/x/../x"⟩ =
        (.error (.failed .isDirectory), after) ∧ after.isOccupied ⟨"/site/x/../x"⟩ = true) ∧
    (pairDisk.isOccupied ⟨"/site/css/../x"⟩ = false ∧
      ∃ after, moveFile pairDisk ⟨"/site/css"⟩ ⟨"/site/css/../x"⟩ = (.ok (), after) ∧
        after.isOccupied ⟨"/site/css/../x"⟩ = false) := by
  have hsource : source? pairDisk ⟨"/site/a.css"⟩ = some ⟨"/site/a.css"⟩ := rfl
  refine ⟨by decide +kernel, ⟨by decide +kernel, rfl,
    pairDiskWithX.moveTree ["a.css", "site"] ["b.css", "site"], ?_, rfl⟩,
    ⟨by decide +kernel, pairDiskWithX, ?_, by decide +kernel⟩,
    ⟨by decide +kernel, pairDisk.moveTree ["css", "site"] ["x", "site"], ?_, by decide +kernel⟩⟩
  · have hrename : pairDiskWithX.rename ⟨"/site/a.css"⟩ ⟨"/site/x/../b.css"⟩ =
        .ok (pairDiskWithX.moveTree ["a.css", "site"] ["b.css", "site"]) := rfl
    have hparent : makeParent pairDisk ⟨"/site/x/../b.css"⟩ = (.ok (), pairDiskWithX) :=
      makeParent_pairDisk (by decide +kernel)
    simp only [moveFile, hsource, hparent, renameOrCopy, hrename]
  · have hrename : pairDiskWithX.rename ⟨"/site/a.css"⟩ ⟨"/site/x/../x"⟩ =
        .error .isDirectory := rfl
    have hparent : makeParent pairDisk ⟨"/site/x/../x"⟩ = (.ok (), pairDiskWithX) :=
      makeParent_pairDisk (by decide +kernel)
    simp [moveFile, hsource, hparent, renameOrCopy, hrename, DiskError.allowsCopy]
  · have hfolder : source? pairDisk ⟨"/site/css"⟩ = some ⟨"/site/css"⟩ := rfl
    have hparent : makeParent pairDisk ⟨"/site/css/../x"⟩ = (.ok (), pairDisk) := rfl
    have hrename : pairDisk.rename ⟨"/site/css"⟩ ⟨"/site/css/../x"⟩ =
        .ok (pairDisk.moveTree ["css", "site"] ["x", "site"]) := rfl
    simp only [moveFile, hfolder, hparent, renameOrCopy, hrename]

end SiteFolders.Move
