import SiteFolders.Proofs.Move.Phase
import SiteFolders.Proofs.Move.Plan
import SiteFolders.Proofs.Path.Descent

/-!
# The root of a move phase

The root may be given by any path, with dots and links in it: all that a move phase needs is that
the path leads to a directory (`RootAt`), and it leads there as long as directories and links stay.
In that directory a step makes at most the folder of the planned file's category
(`RootAt.of_madeFor`), and takes the file to where the path of the folder leads to (`TakenTo`). That
is the folder itself, if it is no link (`RootAt.of_leadsTo_folder`).
-/

namespace SiteFolders.Move

open Disk

namespace RootAt

variable {d : Disk} {root : Path} {home : Location} (h : RootAt d root home)
include h

/-- The path of a directory leads there as soon as it is not too long. -/
theorem locate (hcheck : checkPath root = .ok ()) :
    ∃ mode, d.locate true root = .ok (home, .dir mode) := by
  obtain ⟨mode, hmode⟩ := holdsDir_iff.1 h.isDir
  refine ⟨mode, locate_eq_ok_iff.2 ⟨resolve_eq_ok_iff.2 ⟨hcheck, ?_, ?_⟩, hmode⟩⟩
  · rw [Bool.true_or]
    exact h.leads
  · intro loc heq _
    rw [← Place.entry.inj heq]
    exact h.isDir

/-- A target in a folder lies where the path of the folder leads to, and the root is searched for it.
If the folder is no link, this is the folder itself. -/
theorem of_leadsTo_folder {folder n : String} (hfolder : IsName folder) (hn : IsName n)
    {loc : Location} (hloc : d.LeadsTo ((root.join folder).join n) loc) :
    ∃ dir, loc = n :: dir ∧ RootAt d (root.join folder) dir ∧ d.Searchable home ∧
      checkPath ((root.join folder).join n) = .ok () ∧
      ((∀ e, d.get? (folder :: home) = some e → e.isLink = false) → dir = folder :: home) := by
  obtain ⟨dir, m, rfl, -, hreach⟩ := hloc
  obtain ⟨init, hinit, -⟩ := hreach.leads
  rw [namesOf_join hn] at hinit
  obtain rfl : n = m := by simpa using congrArg List.getLast? hinit
  obtain ⟨hcheck, ⟨mode, hmode, -⟩, hres⟩ := (Disk.reaches_join_iff hn).1 hreach
  have hroot : RootAt d (root.join folder) dir := ⟨holdsDir_iff.2 ⟨mode, hmode⟩, hres⟩
  rw [startOf_join hfolder, namesOf_join hfolder] at hres
  have happend := resolveFrom_append d true (List.cons_ne_nil folder []) linkLimit
    (startOf root.text d.workingDirectory) (namesOf root.text)
  rw [h.leads, hres] at happend
  obtain ⟨links, hlinks⟩ := happend
  obtain ⟨hsearch, hlen⟩ := of_resolveFrom_name hfolder hlinks.symm
  refine ⟨dir, rfl, hroot, hsearch, hcheck, fun hlink => ?_⟩
  have hleaf : (d.get? (folder :: home)).any Entry.isLink = false := by
    cases he : d.get? (folder :: home) with
    | none => rfl
    | some e => exact hlink e he
  rw [resolveFrom_name links hfolder hsearch hlen fun _ => hleaf] at hlinks
  split at hlinks
  · exact Place.entry.inj (Except.ok.inj hlinks)
  · simp at hlinks

/-! ## Folders -/

theorem makeDir_join_ne_notFound {n : String} (hn : IsName n) :
    d.makeDir (root.join n) ≠ .error .notFound := by
  obtain ⟨mode, hmode⟩ := holdsDir_iff.1 h.isDir
  have hempty : (root.join n).text.isEmpty = false := by
    simpa using Path.text_join_ne_empty hn _
  have hcheck : checkPath (root.join n) ≠ .error .notFound := by
    unfold checkPath
    split
    · simp
    · rw [hempty]
      simp only [Bool.false_eq_true, if_false]
      split <;> simp
  -- the parent is the root itself, which is there
  have hslot : d.slot (root.join n) ≠ .error .notFound := by
    unfold slot
    rw [namesOf_join hn, startOf_join hn]
    cases hc : checkPath (root.join n) with
    | error e => simpa [hc] using hcheck
    | ok u =>
      simp only [ok_bind, List.getLast?_concat, List.dropLast_concat, h.leads, hmode]
      split
      · simp
      · split <;> simp
  -- once the parent is found, whatever else fails has another reason
  unfold makeDir
  cases hs : d.slot (root.join n) with
  | error e => simpa [hs] using hslot
  | ok x =>
    rcases x with ⟨dir, name?⟩
    cases name? with
    | none => simp
    | some name =>
      simp only [ok_bind, entryIn]
      split
      · simp
      · simp only [ok_bind]
        split
        · simp
        · split <;> simp

/-- Making a directory in the root makes no other. -/
theorem makeDirs_join_cases {n : String} (hn : IsName n) :
    (d.makeDirs (root.join n)).2 = d ∨
      d.get? (n :: home) = none ∧
        (d.makeDirs (root.join n)).2 = d.put (n :: home) (.dir newDirMode) := by
  obtain ⟨parents, hparents⟩ := ancestors_eq_cons (root.join n)
  have hempty : (root.join n).text.isEmpty = false := by
    simpa using Path.text_join_ne_empty hn _
  simp only [makeDirs, hparents, makeChain, hempty, Bool.false_eq_true, if_false]
  split
  · next made hmade =>
    right
    obtain ⟨dir, m, hreach, hlen, hvacant, rfl⟩ := makeDir_eq_ok hmade
    have hloc := h.of_leadsTo_join hn ⟨dir, m, rfl, hlen, hreach⟩
    rw [hloc] at hvacant ⊢
    exact ⟨hvacant, rfl⟩
  · next hnotFound => exact absurd hnotFound (h.makeDir_join_ne_notFound hn)
  · left
    rfl

/-- What a step adds to the disk is the folder for its file. -/
theorem of_madeFor {p : Planned} {loc : Location} {e : Entry}
    (he : (madeFor root p d).get? loc = some e) :
    d.get? loc = some e ∨
      d.get? loc = none ∧ loc = p.category.folder :: home ∧ e = .dir newDirMode := by
  have hmade : madeFor root p d = (d.makeDirs (root.join p.category.folder)).2 := by
    unfold madeFor destination
    split <;> next h => rw [h]
  rw [hmade] at he
  rcases h.makeDirs_join_cases (isName_folder p.category) with heq | ⟨hnone, heq⟩
  · rw [heq] at he
    exact Or.inl he
  · rw [heq] at he
    by_cases hloc : loc = p.category.folder :: home
    · subst hloc
      rw [get?_put_self, Option.some.injEq] at he
      exact Or.inr ⟨hnone, rfl, he.symm⟩
    · rw [get?_put_of_ne _ _ hloc] at he
      exact Or.inl he

end RootAt

/-! ## Steps -/

/-- A file that is planned never is where it belongs, as it is not in a folder. -/
theorem moveOne_ne_stayed {root : Path} {p : Planned} (hn : IsName p.fileName)
    (hsource : p.source = root.join p.fileName) (d after : Disk) :
    moveOne root p d ≠ (.ok .stayed, after) := by
  intro h
  unfold moveOne at h
  cases hdest : destination d (root.join p.category.folder) p.fileName with
  | mk result made =>
    cases result with
    | error e => simp [hdest] at h
    | ok target =>
      obtain ⟨-, k, rfl, -⟩ := destination_eq_ok (isName_folder p.category) hn hdest
      simp only [hdest] at h
      split at h
      · next hsame =>
        have hcomponents := congrArg List.length (eq_of_beq hsame)
        rw [hsource, Path.components_join (isName_candidate hn k),
          Path.components_join (isName_folder p.category), Path.components_join hn] at hcomponents
        simp at hcomponents
      · split at h <;> simp at h

/-- A skip is reported under the path of the planned file. -/
theorem path_of_skipped {d after : Disk} {root : Path} {p : Planned} {s : Skip}
    (h : moveOne root p d = (.ok (.skipped s), after)) : s.path = p.source := by
  unfold moveOne at h
  simp only at h
  split at h
  · simp at h
  · split at h
    · simp at h
    · split at h
      · simp at h
      · have hskip := congrArg Prod.fst h
        simp only [Except.ok.injEq, Step.skipped.injEq] at hskip
        rw [← hskip]

/-- The place of a candidate for a planned file. -/
def Planned.place (p : Planned) (home : Location) (k : Nat) : Location :=
  candidate p.fileName k :: p.category.folder :: home

theorem Planned.place_ne (p : Planned) (home : Location) (k : Nat) (n : String) :
    p.place home k ≠ n :: home := by
  intro h
  have hlen := congrArg List.length h
  simp [place] at hlen

/-- A planned file has gone under some candidate to where the path of its folder leads to. That is
the folder itself, if it is no link. -/
structure TakenTo (root : Path) (home : Location) (p : Planned) (made after : Disk) (k : Nat)
    (dir : Location) : Prop where
  folder : RootAt made (root.join p.category.folder) dir
  eq_of_plain : (∀ e, made.get? (p.category.folder :: home) = some e → e.isLink = false) →
    dir = p.category.folder :: home
  relocated : Relocated made after p.source
    ((root.join p.category.folder).join (candidate p.fileName k)) (p.fileName :: home)
    (candidate p.fileName k :: dir)

/-- The path of the folder is shorter than that of the target. -/
theorem TakenTo.checked {root : Path} {home : Location} {p : Planned} {made after : Disk} {k : Nat}
    {dir : Location} (h : TakenTo root home p made after k dir)
    (hk : IsName (candidate p.fileName k)) : checkPath (root.join p.category.folder) = .ok () := by
  obtain ⟨_, _, -, -, hreach⟩ := h.relocated.target
  exact Path.checkPath_of_join (Path.text_join_ne_empty (isName_folder p.category) _) hk hreach.checked

/-- What a step does with a planned file that is there: either it makes at most the folder and skips
the file, or it takes the file itself to a candidate where the folder's path leads to. -/
theorem taken_of_moveOne {d after : Disk} {root : Path} {home : Location} {p : Planned}
    {step : Step} (hd : d.IsTree) (hroot : RootAt d root home) (hp : PlannedAt d root home p)
    (h : moveOne root p d = (.ok step, after)) :
    (∃ cause, step = .skipped ⟨p.source, cause⟩ ∧ after = madeFor root p d) ∨
    ∃ k dir, step = .moved ⟨p.fileName,
        Path.below root ((root.join p.category.folder).join (candidate p.fileName k)),
        (root.join p.category.folder).join (candidate p.fileName k)⟩ ∧
      (madeFor root p d).Searchable home ∧ TakenTo root home p (madeFor root p d) after k dir := by
  have hgrown := grown_madeFor root p d
  have hroot' := hroot.keeps hgrown.keeps
  obtain ⟨e, he, hfile⟩ := (Option.any_eq_true _ _).1 hp.isFile
  rcases moveOne_cases hd root hp.isName with ⟨e, hone⟩ | ⟨step', hstep, hone⟩ |
    ⟨k, target, found, old, new, after', rfl, hfound, hreloc, hone⟩
  · rw [h] at hone
    simp at hone
  · left
    obtain ⟨hsame, rfl⟩ := Prod.mk.inj (h.symm.trans hone)
    obtain rfl := Except.ok.inj hsame
    cases step with
    | moved file => exact absurd rfl (hstep file)
    | skipped s =>
      have hpath := path_of_skipped h
      exact ⟨s.cause, by rw [← hpath], rfl⟩
    | stayed => exact absurd h (moveOne_ne_stayed hp.isName hp.source d _)
  · right
    obtain ⟨hsame, rfl⟩ := Prod.mk.inj (h.symm.trans hone)
    obtain ⟨dir, rfl, hfolder, hsearch, hcheck, hdir⟩ := hroot'.of_leadsTo_folder
      (isName_folder p.category) (isName_candidate hp.isName k) hreloc.target
    -- the file is found under its own name, for the target has the longer path
    have hreach : (madeFor root p d).Reaches p.source home p.fileName := by
      rw [hp.source, hroot'.reaches_join_iff hp.isName]
      exact ⟨checkPath_of_candidate (isName_folder p.category) hp.isName hcheck, hsearch, rfl⟩
    have hocc : (madeFor root p d).isOccupied p.source = true := by
      have hslash : endsInSlash p.source = false := by
        rw [hp.source]
        exact endsInSlash_join hp.isName root
      rw [isOccupied_iff hslash hreach, hgrown.kept _ e he]
      exact ⟨hd.length_le_of_get? he, rfl⟩
    obtain rfl : found = p.source := by
      unfold source? at hfound
      rw [if_pos hocc] at hfound
      exact (Option.some.inj hfound).symm
    obtain rfl : old = p.fileName :: home := by
      have hold := hreloc.source
      rw [hp.source] at hold
      exact hroot'.of_leadsTo_join hp.isName hold
    exact ⟨k, dir, Except.ok.inj hsame, hsearch, ⟨hfolder, hdir, hreloc⟩⟩

/-- What a step leaves, also where it fails. -/
theorem disk_moveOne_cases {d : Disk} {root : Path} {home : Location} {p : Planned} (hd : d.IsTree)
    (hroot : RootAt d root home) (hp : PlannedAt d root home p) :
    (moveOne root p d).2 = madeFor root p d ∨
      ∃ k dir, TakenTo root home p (madeFor root p d) (moveOne root p d).2 k dir := by
  cases hone : moveOne root p d with
  | mk result after =>
    cases result with
    | ok step =>
      rcases taken_of_moveOne hd hroot hp hone with ⟨-, -, heq⟩ | ⟨k, dir, -, -, htaken⟩
      · exact Or.inl heq
      · exact Or.inr ⟨k, dir, htaken⟩
    | error e =>
      rcases moveOne_cases hd root hp.isName with ⟨e', heq⟩ | ⟨step, -, heq⟩ |
        ⟨k, target, found, old, new, x, -, -, -, heq⟩
      · exact Or.inl (Prod.mk.inj (hone.symm.trans heq)).2
      · simp [hone] at heq
      · simp [hone] at heq

/-- Where the root has no links below it, the folder's path leads to the folder. -/
theorem moveOne_of_planned {d after : Disk} {root : Path} {home : Location} {p : Planned}
    {step : Step} (hd : d.IsTree) (hroot : RootAt d root home) (hfree : d.LinkFree home)
    (hp : PlannedAt d root home p) (h : moveOne root p d = (.ok step, after)) :
    (∃ cause, step = .skipped ⟨p.source, cause⟩ ∧ after = madeFor root p d) ∨
    ∃ k target, target = (root.join p.category.folder).join (candidate p.fileName k) ∧
      step = .moved ⟨p.fileName, Path.below root target, target⟩ ∧
      (madeFor root p d).Searchable home ∧
      Relocated (madeFor root p d) after p.source target (p.fileName :: home)
        (p.place home k) := by
  have hlink : ∀ f, (madeFor root p d).get? (p.category.folder :: home) = some f →
      f.isLink = false := by
    intro f hf
    cases f with
    | file mode bytes => rfl
    | dir mode => rfl
    | link t => exact hfree _ _ (List.suffix_cons _ home) ((grown_madeFor root p d).of_not_dir hf rfl)
  rcases taken_of_moveOne hd hroot hp h with hskipped | ⟨k, dir, hstep, hsearch, htaken⟩
  · exact Or.inl hskipped
  · right
    obtain rfl := htaken.eq_of_plain hlink
    exact ⟨k, _, rfl, hstep, hsearch, htaken.relocated⟩

end SiteFolders.Move
