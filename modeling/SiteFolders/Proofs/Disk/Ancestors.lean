import SiteFolders.Proofs.Disk.Growth
import SiteFolders.Proofs.Path.Parents

/-!
# Missing ancestors

Making a directory with its parents makes nothing but directories, each at one of these paths where
nothing was before (`MadeAt`), and to make them again makes nothing (`makeChain_again`). What is
made on the way to a path is empty. So a free path stays free, unless it goes up on its way
(`not_isOccupied_makeChain`).
-/

namespace SiteFolders.Disk

/-! ## What is made -/

/-- Directories have been made, each at one of the paths, where nothing was before. -/
structure MadeAt (ps : List Path) (d made : Disk) : Prop where
  grown : d.Grown made
  missing : ∀ loc, d.get? loc = none → (made.get? loc).isSome →
    ∃ p ∈ ps, made.LeadsTo p loc ∧ d.isOccupied p = false

namespace MadeAt

theorem refl (ps : List Path) (d : Disk) : MadeAt ps d d :=
  ⟨.refl d, fun loc hnone hsome => by simp [hnone] at hsome⟩

theorem mono {ps qs : List Path} {d made : Disk} (h : MadeAt ps d made) (hsub : ps ⊆ qs) :
    MadeAt qs d made := by
  refine ⟨h.grown, fun loc hnone hsome => ?_⟩
  obtain ⟨p, hp, hloc⟩ := h.missing loc hnone hsome
  exact ⟨p, hsub hp, hloc⟩

/-- One more directory is made. -/
theorem makeDir {ps : List Path} {d made done : Disk} {p : Path} (h : MadeAt ps d made)
    (hp : made.makeDir p = .ok done) : MadeAt (p :: ps) d done := by
  have hgrown := grown_of_makeDir hp
  obtain ⟨dir, n, hreach, hlen, hvacant, rfl⟩ := makeDir_eq_ok hp
  refine ⟨h.grown.trans hgrown, fun loc hnone hsome => ?_⟩
  by_cases hloc : loc = n :: dir
  · refine ⟨p, List.mem_cons_self, ⟨dir, n, hloc, hlen, hgrown.keeps.reaches hreach⟩, ?_⟩
    -- what is there before all of this is there before the last step
    rw [Bool.eq_false_iff]
    intro hocc
    have hfree := hreach.not_isOccupied hlen hvacant
    rw [h.grown.isOccupied hocc] at hfree
    simp at hfree
  · rw [get?_put_of_ne _ _ hloc] at hsome
    obtain ⟨q, hq, hleads, hfree⟩ := h.missing loc hnone hsome
    exact ⟨q, List.mem_cons_of_mem _ hq, hgrown.keeps.leadsTo hleads, hfree⟩

/-- A directory that has just been made may be searched by its owner. -/
theorem searchable {ps : List Path} {d made : Disk} (h : MadeAt ps d made) {home : Location}
    (hold : d.holdsDir home = true → d.Searchable home) (hdir : made.holdsDir home = true) :
    made.Searchable home := by
  obtain ⟨mode, hmode⟩ := holdsDir_iff.1 hdir
  cases hget : d.get? home with
  | none =>
    obtain rfl : mode = newDirMode := by simpa using h.grown.new home _ hget hmode
    exact ⟨newDirMode, hmode, by simp [maySearch, newDirMode]⟩
  | some e =>
    have hsame := h.grown.kept home e hget
    rw [hmode, Option.some.injEq] at hsame
    exact h.grown.keeps.searchable (hold (holdsDir_iff.2 ⟨mode, hsame ▸ hget⟩))

end MadeAt

/-- A chain makes directories at its paths only, also where it stops half way. -/
theorem madeAt_makeChain : ∀ (ps : List Path) (d : Disk), MadeAt ps d (makeChain ps d).2
  | [], d => .refl [] d
  | p :: parents, d => by
    obtain ⟨above, habove, hlast⟩ := makeChain_cons_cases p parents d
    have hmade : MadeAt parents d above := by
      rcases habove with rfl | rfl
      · exact .refl parents _
      · exact madeAt_makeChain parents d
    rcases hlast with hsame | hdone
    · rw [hsame]
      exact hmade.mono (List.subset_cons_self p parents)
    · exact hmade.makeDir hdone

/-- Nothing is made where the first directory cannot be made, and the parents are not made either. -/
theorem makeChain_of_error {d : Disk} {p : Path} {parents : List Path} {e : DiskError}
    (h : d.makeDir p = .error e) (hparents : e = .notFound → (makeChain parents d).2 = d) :
    (makeChain (p :: parents) d).2 = d := by
  simp only [makeChain, h]
  split
  · rfl
  · split
    · next hok => simp at hok
    · next hnotFound =>
      have habove := hparents (Except.error.inj hnotFound)
      cases hchain : makeChain parents d with
      | mk result above =>
        rw [hchain] at habove
        obtain rfl : above = d := habove
        cases result with
        | error e' => rfl
        | ok u => simp [h]
    · rfl

/-- Making the same directories again makes nothing. -/
theorem makeChain_again : ∀ {ps : List Path} {d made : Disk},
    makeChain ps d = (.ok (), made) → (makeChain ps made).2 = made
  | [], _, _, _ => rfl
  | p :: parents, d, made, h => by
    by_cases hempty : p.text.isEmpty = true
    · simp [makeChain, hempty]
    · simp only [makeChain, if_neg hempty] at h
      -- either the directory is there now, or the same error comes back
      split at h
      · next found hfound =>
        obtain rfl : found = made := by simpa using h
        exact makeChain_of_error (makeDir_of_makeDir hfound) (by simp)
      · split at h
        · simp at h
        · next above hchain =>
          split at h
          · next done hdone =>
            obtain rfl : done = made := by simpa using h
            exact makeChain_of_error (makeDir_of_makeDir hdone) (by simp)
          · next e he =>
            obtain rfl : above = made := (Prod.mk.inj h).2
            exact makeChain_of_error he fun _ => makeChain_again hchain
      · next e hne he =>
        obtain rfl : d = made := (Prod.mk.inj h).2
        exact makeChain_of_error he fun hnotFound => absurd hnotFound hne

/-! ## Free paths stay free -/

/-- Names that do not go up and are not all dots lead to nothing in an empty directory. -/
theorem stepThrough_empty {d : Disk} {follow : Bool}
    {jump : Location → String → List String → Except DiskError Place} {here : Location}
    (hempty : ∀ n, d.get? (n :: here) = none) (loc : Location) :
    ∀ {ns : List String}, "" ∉ ns → ".." ∉ ns → (∃ n ∈ ns, n ≠ ".") →
      d.stepThrough follow jump here ns ≠ .ok (.entry loc)
  | [], _, _, hname => by simp at hname
  | n :: ns, hempties, hup, hname => by
    intro h
    obtain ⟨-, hpasses⟩ := stepThrough_cons_eq_ok_iff.1 h
    cases hpasses with
    | slash => simp at hempties
    | dot hrest =>
      exact stepThrough_empty hempty loc (fun hmem => hempties (List.mem_cons_of_mem _ hmem))
        (fun hmem => hup (List.mem_cons_of_mem _ hmem)) (by simpa using hname) hrest
    | dots => simp at hup
    | vacant _ _ _ hplace => cases hplace
    | last _ hget | link _ hget | entry _ hget => simp [hempty] at hget

/-- A directory that is made on the way to a path has nothing in it yet. -/
theorem not_isOccupied_of_makeDir {d made : Disk} (hd : d.IsTree) {p q : Path} {rest : List String}
    (hrest : p.GoesThrough q rest) (hup : ".." ∉ rest) (hname : ∃ n ∈ rest, n ≠ ".")
    (h : d.makeDir q = .ok made) : made.isOccupied p = false := by
  have hkeeps := (grown_of_makeDir h).keeps
  obtain ⟨dir, n, hreach, hlen, hvacant, rfl⟩ := makeDir_eq_ok h
  have hempty : ∀ m, (d.put (n :: dir) (.dir newDirMode)).get? (m :: n :: dir) = none := by
    intro m
    have hne : m :: n :: dir ≠ n :: dir := fun heq => absurd (congrArg List.length heq) (by simp)
    rw [get?_put_of_ne _ _ hne]
    exact hd.get?_below_vacant hvacant [m]
  rw [Bool.eq_false_iff, ne_eq, isOccupied_iff_locate]
  rintro ⟨⟨loc, e⟩, hloc⟩
  obtain ⟨-, hfrom, -⟩ := resolve_eq_ok_iff.1 (locate_eq_ok_iff.1 hloc).1
  have hne : rest ≠ [] := by
    rintro rfl
    simp at hname
  have hdir := (hkeeps.reaches hreach).resolveFrom hlen true (by simp [Entry.isLink])
  simp only [get?_put_self, Option.isSome_some, if_true] at hdir
  -- resolving the path goes on from the new directory, where the rest leads to nothing
  have happend := resolveFrom_append (d.put (n :: dir) (.dir newDirMode))
    (false || endsInSlash p) hne linkLimit (startOf q.text d.workingDirectory) (namesOf q.text)
  have hwork : d.workingDirectory = (d.put (n :: dir) (.dir newDirMode)).workingDirectory := rfl
  rw [hwork, hdir, ← hrest.names, ← hrest.startOf, hfrom] at happend
  obtain ⟨links, hlinks⟩ := happend
  have hempties : "" ∉ rest := fun hmem =>
    empty_notMem_namesOf p.text (hrest.names ▸ List.mem_append_right _ hmem)
  cases links <;> exact stepThrough_empty hempty loc hempties hup hname hlinks.symm

/-- A free path stays free when directories are made on the way to it, if it does not go up. -/
theorem not_isOccupied_makeChain {p : Path} (hup : ".." ∉ namesOf p.text) :
    ∀ {ps : List Path} {d : Disk}, d.IsTree →
      (∀ q ∈ ps, ∃ rest, p.GoesThrough q rest ∧ ∃ n ∈ rest, n ≠ ".") →
      d.isOccupied p = false → (makeChain ps d).2.isOccupied p = false
  | [], d, _, _, hfree => hfree
  | q :: parents, d, hd, hps, hfree => by
    obtain ⟨rest, hrest, hname⟩ := hps q (by simp)
    have hdown : ".." ∉ rest := by
      intro hmem
      exact hup (by rw [hrest.names]; exact List.mem_append_right _ hmem)
    obtain ⟨above, habove, hlast⟩ := makeChain_cons_cases q parents d
    have hstill : above.IsTree ∧ above.isOccupied p = false := by
      rcases habove with rfl | rfl
      · exact ⟨hd, hfree⟩
      · exact ⟨(grown_makeChain parents d).isTree hd, not_isOccupied_makeChain hup hd
          (fun r hr => hps r (List.mem_cons_of_mem _ hr)) hfree⟩
    rcases hlast with hsame | hmade
    · rw [hsame]
      exact hstill.2
    · exact not_isOccupied_of_makeDir hstill.1 hrest hdown hname hmade

end SiteFolders.Disk
