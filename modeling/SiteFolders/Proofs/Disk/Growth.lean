import SiteFolders.Proofs.Disk.Resolve

/-!
# Making directories

Making directories only adds to a disk: `Grown` says that what was there is still there, and that
whatever is new is an empty directory. This holds also where making a chain of directories stops
half way. And where it goes through, making the same directory again finds it there
(`makeDir_of_makeDirs`), so nothing changes any more.
-/

namespace SiteFolders.Disk

/-- Everything of `d` is in `d'`, and whatever else is there is a new directory. -/
structure Grown (d d' : Disk) : Prop where
  privileged : d'.privileged = d.privileged
  workingDirectory : d'.workingDirectory = d.workingDirectory
  kept : ∀ loc e, d.get? loc = some e → d'.get? loc = some e
  new : ∀ loc e, d.get? loc = none → d'.get? loc = some e → e = .dir newDirMode
  contents : d'.contents = d.contents
  isTree : d.IsTree → d'.IsTree

namespace Grown

theorem refl (d : Disk) : d.Grown d :=
  ⟨rfl, rfl, fun _ _ h => h, fun _ _ h h' => by simp [h] at h', rfl, id⟩

theorem trans {d d' d'' : Disk} (h : d.Grown d') (h' : d'.Grown d'') : d.Grown d'' where
  privileged := h'.privileged.trans h.privileged
  workingDirectory := h'.workingDirectory.trans h.workingDirectory
  kept := fun loc e he => h'.kept loc e (h.kept loc e he)
  new := by
    intro loc e hnone he
    cases hd' : d'.get? loc with
    | none => exact h'.new loc e hd' he
    | some e' =>
      have hkept := h'.kept loc e' hd'
      rw [he, Option.some.injEq] at hkept
      rw [hkept]
      exact h.new loc e' hnone hd'
  contents := h'.contents.trans h.contents
  isTree := fun ht => h'.isTree (h.isTree ht)

theorem keeps {d d' : Disk} (h : d.Grown d') : d.Keeps d' :=
  ⟨h.privileged, h.workingDirectory, fun loc e he _ => h.kept loc e he⟩

/-- What a path leads to in a disk it leads to in the grown disk. -/
theorem locate {d d' : Disk} (h : d.Grown d') {follow : Bool} {p : Path} {x : Location × Entry}
    (hx : d.locate follow p = .ok x) : d'.locate follow p = .ok x := by
  rcases x with ⟨loc, e⟩
  rcases locate_eq_ok_iff.1 hx with ⟨hres, hget⟩
  rcases resolve_eq_ok_iff.1 hres with ⟨hcheck, hfrom, hdir⟩
  have hget' := h.kept loc e hget
  refine locate_eq_ok_iff.2 ⟨resolve_eq_ok_iff.2 ⟨hcheck, ?_, fun loc' heq hs => ?_⟩, hget'⟩
  · rw [h.workingDirectory]
    exact h.keeps.resolveFrom hget hget' _ _ _ hfrom
  · exact h.keeps.holdsDir (hdir loc' heq hs)

theorem isOccupied {d d' : Disk} (h : d.Grown d') {p : Path} (hp : d.isOccupied p = true) :
    d'.isOccupied p = true := by
  rcases isOccupied_iff_locate.1 hp with ⟨x, hx⟩
  exact isOccupied_iff_locate.2 ⟨x, h.locate hx⟩

/-- A place that is vacant in the grown disk was vacant. -/
theorem vacant {d d' : Disk} (h : d.Grown d') {loc : Location} (hnone : d'.get? loc = none) :
    d.get? loc = none := by
  by_contra hsome
  obtain ⟨e, he⟩ := Option.ne_none_iff_exists'.1 hsome
  simp [h.kept loc e he] at hnone

/-- A file or link of the grown disk was there before. -/
theorem of_not_dir {d d' : Disk} (h : d.Grown d') {loc : Location} {e : Entry}
    (he : d'.get? loc = some e) (hdir : e.isDir = false) : d.get? loc = some e := by
  cases hd : d.get? loc with
  | none =>
    have hnew := h.new loc e hd he
    simp [hnew, Entry.isDir] at hdir
  | some e' =>
    have hkept := h.kept loc e' hd
    rwa [he, eq_comm] at hkept

end Grown

/-! ## One directory -/

theorem grown_put_dir {d : Disk} {dir : Location} {n : String} (hn : IsName n)
    (hlen : n.utf8ByteSize ≤ nameLimit) (hdir : d.holdsDir dir = true)
    (hvacant : d.get? (n :: dir) = none) :
    d.Grown (d.put (n :: dir) (.dir newDirMode)) where
  privileged := rfl
  workingDirectory := rfl
  kept := by
    intro loc e he
    by_cases heq : loc = n :: dir
    · rw [heq, hvacant] at he
      simp at he
    · rwa [get?_put_of_ne _ _ heq]
  new := by
    intro loc e hnone he
    by_cases heq : loc = n :: dir
    · rw [heq, get?_put_self, Option.some.injEq] at he
      exact he.symm
    · rw [get?_put_of_ne _ _ heq, hnone] at he
      simp at he
  contents := contents_put hvacant _ |>.trans (zero_add _)
  isTree := fun ht => ht.put hvacant ⟨hn, hlen, hdir⟩ _

/-- Making a directory puts it at the vacant name that the path reaches. -/
theorem makeDir_eq_ok {d made : Disk} {p : Path} (h : d.makeDir p = .ok made) :
    ∃ dir n, d.Reaches p dir n ∧ n.utf8ByteSize ≤ nameLimit ∧ d.get? (n :: dir) = none ∧
      made = d.put (n :: dir) (.dir newDirMode) := by
  obtain ⟨⟨dir, name?⟩, hslot, h⟩ := bind_eq_ok_iff.1 h
  cases name? with
  | none => simp at h
  | some n =>
    obtain ⟨found, hentry, h⟩ := bind_eq_ok_iff.1 h
    obtain ⟨hlen, rfl⟩ := entryIn_eq_ok_iff.1 hentry
    obtain ⟨hnone, h⟩ := ite_error_eq_ok_iff.1 h
    obtain ⟨-, h⟩ := ite_error_eq_ok_iff.1 h
    exact ⟨dir, n, reaches_of_slot hslot, hlen, by simpa using hnone, (Except.ok.inj h).symm⟩

theorem grown_of_makeDir {d made : Disk} {p : Path} (h : d.makeDir p = .ok made) :
    d.Grown made := by
  rcases makeDir_eq_ok h with ⟨dir, n, hreach, hlen, hvacant, rfl⟩
  exact grown_put_dir hreach.name hlen hreach.searchable.holdsDir hvacant

/-- No directory can be made at a name that is taken. -/
theorem makeDir_of_taken {d : Disk} {p : Path} {dir : Location} {n : String}
    (h : d.Reaches p dir n) (hlen : n.utf8ByteSize ≤ nameLimit)
    (htaken : (d.get? (n :: dir)).isSome) : d.makeDir p = .error .alreadyExists := by
  simp [makeDir, h.slot, entryIn_of_le hlen, htaken]

/-! ## Chains of directories -/

/-- The first directory of a chain is made last, if at all: where the parents have been made, or where
they are found. -/
theorem makeChain_cons_cases (p : Path) (parents : List Path) (d : Disk) :
    ∃ above, (above = d ∨ above = (makeChain parents d).2) ∧
      ((makeChain (p :: parents) d).2 = above ∨
        above.makeDir p = .ok (makeChain (p :: parents) d).2) := by
  simp only [makeChain]
  split
  · exact ⟨d, Or.inl rfl, Or.inl rfl⟩
  · split
    · next made hmade => exact ⟨d, Or.inl rfl, Or.inr hmade⟩
    · split
      · next e made hparents => exact ⟨made, Or.inr (by rw [hparents]), Or.inl rfl⟩
      · next made hparents =>
        refine ⟨made, Or.inr (by rw [hparents]), ?_⟩
        split
        · next done hdone => exact Or.inr hdone
        · exact Or.inl rfl
    · exact ⟨d, Or.inl rfl, Or.inl rfl⟩

theorem grown_makeChain : ∀ (ps : List Path) (d : Disk), d.Grown (makeChain ps d).2
  | [], d => Grown.refl d
  | p :: parents, d => by
    obtain ⟨above, habove, hlast⟩ := makeChain_cons_cases p parents d
    have hgrown : d.Grown above := by
      rcases habove with rfl | rfl
      · exact .refl _
      · exact grown_makeChain parents d
    rcases hlast with hsame | hmade
    · rwa [hsame]
    · exact hgrown.trans (grown_of_makeDir hmade)

/-- Making directories only adds directories, also where it fails. -/
theorem grown_makeDirs (d : Disk) (p : Path) : d.Grown (d.makeDirs p).2 :=
  grown_makeChain p.ancestors d

theorem ancestors_eq_cons (p : Path) : ∃ parents, p.ancestors = p :: parents := by
  unfold Path.ancestors
  cases p.text.length with
  | zero => exact ⟨[], rfl⟩
  | succ n => exact ⟨_, rfl⟩

/-- A path that leads to something reaches a name that is taken. -/
theorem taken_of_exists {d : Disk} {p : Path} {n : String}
    (hslash : endsInSlash p = false) (hlast : (namesOf p.text).getLast? = some n)
    (hn : IsName n) {loc : Location} (h : d.resolve true p = .ok (.entry loc)) :
    ∃ dir, d.Reaches p dir n ∧ n.utf8ByteSize ≤ nameLimit ∧ (d.get? (n :: dir)).isSome := by
  rcases reaches_of_resolve hlast hn h with ⟨dir, hreach, hlen⟩
  refine ⟨dir, hreach, hlen, ?_⟩
  cases hget : d.get? (n :: dir) with
  | some e => rfl
  | none =>
    have hvacant := hreach.resolve hslash hlen true (by simp [hget])
    rw [h, hget] at hvacant
    simp at hvacant

theorem makeDir_of_isDir {d : Disk} {p : Path} {n : String} (hn : IsName n)
    (h : d.isDir (p.join n) = true) : d.makeDir (p.join n) = .error .alreadyExists := by
  obtain ⟨loc, mode, hloc⟩ := isDir_iff_locate.1 h
  have hlast : (namesOf (p.join n).text).getLast? = some n := by simp [namesOf_join hn]
  obtain ⟨dir, hreach, hlen, htaken⟩ :=
    taken_of_exists (endsInSlash_join hn p) hlast hn (locate_eq_ok_iff.1 hloc).1
  exact makeDir_of_taken hreach hlen htaken

/-- The directory that a path reaches is there once it has been made. -/
theorem makeDir_of_makeDir {d made : Disk} {p : Path} (h : d.makeDir p = .ok made) :
    made.makeDir p = .error .alreadyExists := by
  rcases makeDir_eq_ok h with ⟨dir, n, hreach, hlen, hvacant, hmade⟩
  refine makeDir_of_taken ((grown_of_makeDir h).keeps.reaches hreach) hlen ?_
  rw [hmade, get?_put_self]
  rfl

theorem isDir_of_makeDir {d made : Disk} {p : Path} (h : d.makeDir p = .ok made) :
    made.isDir p = true := by
  have hkeeps := (grown_of_makeDir h).keeps
  obtain ⟨dir, n, hreach, hlen, -, rfl⟩ := makeDir_eq_ok h
  have hget := get?_put_self d n dir (.dir newDirMode)
  have hres := (hkeeps.reaches hreach).resolve_dir hlen hget true
  exact isDir_iff_locate.2 ⟨n :: dir, newDirMode, locate_eq_ok_iff.2 ⟨hres, hget⟩⟩

/-- A directory that has been made with its parents is there. -/
theorem isDir_of_makeDirs {d made : Disk} {p : Path} (hp : p.text ≠ "")
    (h : d.makeDirs p = (.ok (), made)) : made.isDir p = true := by
  rcases ancestors_eq_cons p with ⟨parents, hparents⟩
  have hempty : p.text.isEmpty = false := by simpa using hp
  simp only [makeDirs, hparents, makeChain, hempty, Bool.false_eq_true, if_false] at h
  split at h
  · next found hfound =>
    obtain rfl : found = made := by simpa using h
    exact isDir_of_makeDir hfound
  · -- made after its parents, or there already
    split at h
    · simp at h
    · split at h
      · next done hdone =>
        obtain rfl : done = made := by simpa using h
        exact isDir_of_makeDir hdone
      · split at h
        · next hdir =>
          simp only [Prod.mk.injEq, true_and] at h
          exact h ▸ hdir
        · simp at h
  · split at h
    · next hdir =>
      simp only [Prod.mk.injEq, true_and] at h
      exact h ▸ hdir
    · simp at h

/-- Once a directory has been made with its parents, making it again finds it there. -/
theorem makeDir_of_makeDirs {d made : Disk} {p : Path} {n : String} (hn : IsName n)
    (h : d.makeDirs (p.join n) = (.ok (), made)) :
    made.makeDir (p.join n) = .error .alreadyExists :=
  makeDir_of_isDir hn (isDir_of_makeDirs (Path.text_join_ne_empty hn p) h)

/-- Where a directory is there already, nothing is made. -/
theorem makeDirs_of_alreadyExists {d : Disk} {p : Path}
    (h : d.makeDir p = .error .alreadyExists) : (d.makeDirs p).2 = d := by
  rcases ancestors_eq_cons p with ⟨parents, hparents⟩
  simp only [makeDirs, hparents, makeChain, h]
  split <;> rfl

/-- A directory that is there already need not be made. -/
theorem makeDirs_of_isDir {d : Disk} {p : Path} (hdir : d.isDir p = true)
    (h : d.makeDir p = .error .alreadyExists) : d.makeDirs p = (.ok (), d) := by
  rcases ancestors_eq_cons p with ⟨parents, hparents⟩
  simp only [makeDirs, hparents, makeChain, h, hdir, if_true]
  split <;> rfl

end SiteFolders.Disk
