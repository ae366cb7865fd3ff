import SiteFolders.Proofs.Move.Root

/-!
# What the move phase leaves alone

The move phase takes regular files directly in the root, and everything else stays where it was
(`Kept`). So the root itself stays, and what could be read there can be read still. No file loses its
bytes, and as no link is moved none is followed to another volume, so there are no more of them
either.
-/

namespace SiteFolders

open Disk Move

/-- Everything that is not a regular file directly in the directory is where it was, every link is one
that was there, and the files have the bytes that they had. -/
structure Kept (home : Location) (d d' : Disk) : Prop where
  privileged : d'.privileged = d.privileged
  isTree : d'.IsTree
  contents : d'.contents = d.contents
  ofLink : ∀ loc target, d'.get? loc = some (.link target) → d.get? loc = some (.link target)
  same : ∀ loc e, d.get? loc = some e → (e.isFile = true → ∀ n, loc ≠ n :: home) →
    d'.get? loc = some e

namespace Kept

variable {home : Location} {d d' : Disk}

theorem refl (hd : d.IsTree) : Kept home d d := ⟨rfl, hd, rfl, fun _ _ h => h, fun _ _ h _ => h⟩

theorem grown (h : Kept home d d') {d'' : Disk} (hgrown : d'.Grown d'') : Kept home d d'' :=
  ⟨hgrown.privileged.trans h.privileged, hgrown.isTree h.isTree, hgrown.contents.trans h.contents,
    fun loc target hlink => h.ofLink loc target (hgrown.of_not_dir hlink rfl),
    fun loc e he hloc => hgrown.kept loc e (h.same loc e he hloc)⟩

/-- The directory itself stays, and it is reached as before. -/
theorem isHome (h : Kept home d d') (hhome : IsHome d home) : IsHome d' home := by
  have hdir : ∀ above, d.holdsDir above = true → d'.holdsDir above = true := by
    intro above habove
    rcases holdsDir_iff.1 habove with ⟨mode, hmode⟩
    exact holdsDir_iff.2 ⟨mode, h.same _ _ hmode (by simp [Entry.isFile])⟩
  refine ⟨hdir home hhome.isDir, fun n above hs => ?_, hhome.checked⟩
  rcases hhome.isOpen n above hs with ⟨mode, hmode, hsearch⟩
  refine ⟨mode, h.same _ _ hmode (by simp [Entry.isFile]), ?_⟩
  rw [← hsearch]
  simp [maySearch, h.privileged]

end Kept

/-- A directory that can be read can be read still. -/
theorem Kept.readDir {home : Location} {d d' : Disk} (h : Kept home d d') (hd : d.IsTree)
    (hhome : IsHome d home) {entries : List (String × Entry)}
    (hread : d.readDir (Path.ofLocation home) = .ok entries) :
    d'.readDir (Path.ofLocation home) = .ok (d'.children home) := by
  rcases hhome.get? with ⟨mode, hmode⟩
  rw [hhome.readDir hd hmode] at hread
  split at hread
  · next hmay =>
    rw [(h.isHome hhome).readDir h.isTree (h.same _ _ hmode (by simp [Entry.isFile]))]
    have hmay' : d'.mayRead mode = true := by
      rw [← hmay]
      simp [mayRead, h.privileged]
    rw [if_pos hmay']
  · simp at hread

/-- A file that is planned in a directory is taken from there, under its own name or as a regular
file whose name is a case variant. -/
theorem taken_from_home {made : Disk} (hmade : made.IsTree) {home : Location}
    (hhome : IsHome made home) {p : Planned} (hn : IsName p.fileName)
    (hsource : p.source = (Path.ofLocation home).join p.fileName) {found : Path} {old : Location}
    (hfound : source? made p.source = some found) (hleads : made.LeadsTo found old) :
    old = p.fileName :: home ∨
      ∃ n, old = n :: home ∧ (made.get? old).any Entry.isFile = true ∧
        Text.lowercase n = Text.lowercase p.fileName := by
  unfold source? at hfound
  split at hfound
  · obtain rfl := Option.some.inj hfound
    rw [hsource] at hleads
    exact Or.inl ((hhome.rootAt hmade).of_leadsTo_join hn hleads)
  · right
    unfold caseVariant? at hfound
    rw [hsource] at hfound
    simp only [bind, Option.bind_eq_some_iff, pure, Option.some.injEq] at hfound
    rcases hfound with ⟨dir, hdir, name, hname, entries, hentries, ⟨n, e⟩, hfind, rfl⟩
    rw [hhome.parent?_join hmade hn, Option.some.injEq] at hdir
    rw [Path.fileName?_join hn, Option.some.injEq] at hname
    subst hdir hname
    rcases readDir_eq_ok_iff.1 (toOption_eq_some_iff.1 hentries) with ⟨loc, mode, hloc, -, rfl⟩
    rcases hhome.of_locate hmade hloc with ⟨rfl, -⟩
    have hentry := hmade.get?_of_mem (mem_children.1 (List.mem_of_find?_eq_some hfind))
    have hsame := List.find?_some hfind
    simp only [Bool.and_eq_true, beq_iff_eq] at hsame
    obtain rfl := (hhome.rootAt hmade).of_leadsTo_join (hmade.isName_of_get? hentry) hleads
    exact ⟨n, rfl, by simp [hentry, hsame.1], hsame.2⟩

section Phase

variable {home : Location} {d d' : Disk} (hd : d.IsTree) (hhome : IsHome d home)
include hd hhome

omit hhome in
/-- No link lies at the place that a planned file is taken from or below it. -/
theorem Kept.no_link_below {made : Disk} (hmade : Kept home d made) {p : Planned}
    (hp : PlannedIn d home p) {old : Location}
    (hold : old = p.fileName :: home ∨ ∃ n, old = n :: home ∧
      (made.get? old).any Entry.isFile = true ∧ Text.lowercase n = Text.lowercase p.fileName)
    (below : Location) (target : String) : made.get? (below ++ old) ≠ some (.link target) := by
  intro hlink
  rcases hold with rfl | ⟨n, rfl, hfile, -⟩
  · -- the link was there before the phase, when the planned file was
    have hwas := hmade.ofLink _ _ hlink
    simpa [Entry.isFile] using (hd.isFile_of_below_file hp.isFile hwas).2
  · simpa [Entry.isFile] using (hmade.isTree.isFile_of_below_file hfile hlink).2

/-- Taking a planned file leaves alone what is not a regular file of the directory. -/
theorem Kept.relocated {made after : Disk} (hmade : Kept home d made) {p : Planned}
    (hp : PlannedIn d home p) {found target : Path} {old new : Location}
    (hfound : source? made p.source = some found)
    (hreloc : Relocated made after found target old new) : Kept home d after := by
  have hold := taken_from_home hmade.isTree (hmade.isHome hhome) hp.isName hp.source hfound
    hreloc.source
  have hnolink := hmade.no_link_below hd hp hold
  obtain ⟨gained, harrived, hcontents⟩ := hreloc.arrived hmade.isTree
  cases harrived with
  | copy hfollowed =>
    obtain ⟨link, hlink⟩ := hfollowed.link
    exact absurd hlink (hnolink [] link)
  | itself _ hcarried =>
    refine ⟨hreloc.privileged.trans hmade.privileged, hreloc.isTree hmade.isTree,
      hcontents.trans ((add_zero _).trans hmade.contents), fun loc link hlink => ?_,
      fun loc e he hloc => ?_⟩
    · -- a link is neither at the new place nor at the old one
      by_cases hnew : new <:+ loc
      · obtain ⟨below, rfl⟩ := hnew
        rw [hcarried.arrived] at hlink
        exact absurd hlink (hnolink below link)
      · by_cases hleft : old <:+ loc
        · obtain ⟨below, rfl⟩ := hleft
          simp [hcarried.gone] at hlink
        · rw [hcarried.elsewhere loc hleft hnew] at hlink
          exact hmade.ofLink loc link hlink
    · have he' := hmade.same loc e he hloc
      refine hreloc.stays hmade.isTree he' ?_
      rintro ⟨below, rfl⟩
      -- what is taken is a regular file, before the phase or now, and nothing lies below a file
      rcases hold with rfl | ⟨n, rfl, hfile, -⟩
      · obtain ⟨rfl, hfile⟩ := hd.isFile_of_below_file hp.isFile he
        exact hloc hfile p.fileName rfl
      · obtain ⟨rfl, hfile⟩ := hmade.isTree.isFile_of_below_file hfile he'
        exact hloc hfile n rfl

/-- A step of the move phase leaves alone what is not a regular file of the directory. -/
theorem Kept.moveOne (h : Kept home d d') {p : Planned} (hp : PlannedIn d home p) :
    Kept home d (moveOne (Path.ofLocation home) p d').2 := by
  have hgrown := grown_madeFor (Path.ofLocation home) p d'
  have hcases := moveOne_cases h.isTree (Path.ofLocation home) hp.isName
  generalize madeFor (Path.ofLocation home) p d' = made at hgrown hcases
  have hmade := h.grown hgrown
  rcases hcases with ⟨e, hone⟩ | ⟨step, -, hone⟩ |
    ⟨k, target, found, old, new, after, -, hfound, hreloc, hone⟩ <;> rw [hone]
  · exact hmade
  · exact hmade
  · exact hmade.relocated hd hhome hp hfound hreloc

theorem Kept.execute {plans : List Planned} {d' : Disk} (h : Kept home d d')
    (hplans : ∀ p ∈ plans, PlannedIn d home p) :
    Kept home d (execute (Path.ofLocation home) plans d').2 := by
  have hstep : ∀ p rest d', (Kept home d d' ∧ ∀ q ∈ p :: rest, PlannedIn d home q) →
      Kept home d (Move.moveOne (Path.ofLocation home) p d').2 ∧ ∀ q ∈ rest, PlannedIn d home q :=
    fun p rest d' h => ⟨h.1.moveOne hd hhome (h.2 p (by simp)),
      fun q hq => h.2 q (List.mem_cons_of_mem _ hq)⟩
  obtain ⟨left, hkept, -⟩ := execute_keeps (Path.ofLocation home)
    (I := fun plans d' => Kept home d d' ∧ ∀ q ∈ plans, PlannedIn d home q) hstep ⟨h, hplans⟩
  exact hkept

end Phase

end SiteFolders
