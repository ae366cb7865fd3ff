import SiteFolders.Proofs.Move.Root

/-!
# The outcome of a move phase

Where a phase goes through, every planned file is either moved or skipped. What has happened then is
said once for a phase of any length (`Outcome`): one step has it (`outcome_moveOne`), and two phases
one after the other have it together (`Outcome.append`), as long as the second one takes other files
than the first. A folder may be made under the name of a file that was moved before, so the name of
a moved file need not be free (`execute_takenName`).
-/

namespace SiteFolders.Move

open Disk

/-- A recorded file has come to a place in its folder as it was, and the place was vacant. -/
structure MovedTo (d last : Disk) (root : Path) (home : Location) (p : Planned)
    (m : Reference.Moved) (k : Nat) : Prop where
  oldName : m.oldName = p.fileName
  target : m.target = (root.join p.category.folder).join (candidate p.fileName k)
  leads : last.LeadsTo m.target (p.place home k)
  vacant : d.get? (p.place home k) = none
  isFile : (d.get? (p.fileName :: home)).any Entry.isFile = true
  same : last.get? (p.place home k) = d.get? (p.fileName :: home)

/-- Targets that take the same steps lead to the same place. -/
theorem place_eq_of_same {root : Path} {p q : Planned} {j k : Nat} (hp : IsName p.fileName)
    (hq : IsName q.fileName)
    (h : ((root.join p.category.folder).join (candidate p.fileName j)).same
      ((root.join q.category.folder).join (candidate q.fileName k)) = true)
    (home : Location) : p.place home j = q.place home k := by
  have hcomponents := eq_of_beq h
  rw [Path.components_join (isName_candidate hp j), Path.components_join (isName_candidate hq k),
    Path.components_join (isName_folder _), Path.components_join (isName_folder _)] at hcomponents
  simp only [List.append_assoc, List.append_cancel_left_eq, List.cons_append, List.nil_append,
    List.cons.injEq, Component.name.injEq, and_true] at hcomponents
  rw [Planned.place, Planned.place, hcomponents.1, hcomponents.2]

/-- What a phase has done that went through. -/
structure Outcome (d last : Disk) (root : Path) (home : Location) (plans : List Planned)
    (r : Result) : Prop where
  isTree : last.IsTree
  keeps : d.Keeps last
  perm : (r.moved.map (fun m => root.join m.oldName) ++ r.skipped.map Skip.path).Perm
    (plans.map Planned.source)
  moved : ∀ m ∈ r.moved, ∃ p ∈ plans, ∃ k, MovedTo d last root home p m k
  distinct : r.moved.Pairwise fun m n => m.target.same n.target = false
  /-- Everything that is not moved stays. -/
  kept : ∀ loc e, d.get? loc = some e → (∀ m ∈ r.moved, loc ≠ m.oldName :: home) →
    last.get? loc = some e
  /-- What is there has stayed, or is a moved file, or is a folder of a planned file. -/
  origin : ∀ loc e, last.get? loc = some e →
    (d.get? loc = some e ∧ ∀ m ∈ r.moved, loc ≠ m.oldName :: home) ∨
    (∃ m ∈ r.moved, last.LeadsTo m.target loc ∧ d.get? (m.oldName :: home) = some e) ∨
    ∃ p ∈ plans, loc = p.category.folder :: home ∧ e = .dir newDirMode

/-- What lies in a folder stays in a phase: only files of the root itself are moved. -/
theorem Outcome.kept_inFolder {d last : Disk} {root : Path} {home : Location} {plans : List Planned}
    {r : Result} (h : Outcome d last root home plans r) {p : Planned} {k : Nat} {e : Entry}
    (he : d.get? (p.place home k) = some e) : last.get? (p.place home k) = some e :=
  h.kept _ e he fun m _ => p.place_ne home k m.oldName

/-! ## One step -/

section Step

variable {d : Disk} {root : Path} {home : Location} {p : Planned} (hd : d.IsTree)
  (hroot : RootAt d root home)
include hd hroot

/-- Where a file is skipped, at most its folder is new. -/
theorem outcome_skipped (cause : Trouble) :
    Outcome d (madeFor root p d) root home [p] (({} : Result).add (.skipped ⟨p.source, cause⟩)) := by
  have hgrown := grown_madeFor root p d
  constructor
  · exact hgrown.isTree hd
  · exact hgrown.keeps
  · simp [Result.add]
  · simp [Result.add]
  · simp [Result.add]
  · intro loc e he _
    exact hgrown.kept loc e he
  · intro loc e he
    rcases hroot.of_madeFor he with hold | ⟨-, hloc, hdir⟩
    · exact Or.inl ⟨hold, by simp [Result.add]⟩
    · exact Or.inr (Or.inr ⟨p, by simp, hloc, hdir⟩)

/-- Where a file is moved, it changes its place, which was vacant, after its folder was made. -/
theorem outcome_relocated (hp : PlannedAt d root home p) {after : Disk} {k : Nat} {target : Path}
    (htarget : target = (root.join p.category.folder).join (candidate p.fileName k))
    (hreloc : Relocated (madeFor root p d) after p.source target (p.fileName :: home)
      (p.place home k)) :
    Outcome d after root home [p]
      (({} : Result).add (.moved ⟨p.fileName, Path.below root target, target⟩)) := by
  have hgrown := grown_madeFor root p d
  have hmade := hgrown.isTree hd
  obtain ⟨e, he, hfile⟩ := (Option.any_eq_true _ _).1 hp.isFile
  have he' := hgrown.kept _ e he
  have hget := hreloc.get?_eq hmade he' hfile
  have hkeeps := hreloc.keeps hmade he' hfile
  have hleads := hkeeps.leadsTo hreloc.target
  constructor
  · exact hreloc.isTree hmade
  · exact hgrown.keeps.trans hkeeps
  · simp [Result.add, hp.source]
  · intro m hm
    obtain rfl : m = _ := by simpa [Result.add] using hm
    have hvacant := hgrown.vacant hreloc.canMove.vacant
    refine ⟨p, by simp, k, rfl, htarget, hleads, hvacant, hp.isFile, ?_⟩
    rw [hget, he]
    exact if_pos rfl
  · simp [Result.add]
  · intro loc f hf hloc
    exact hreloc.kept hmade he' hfile (hgrown.kept loc f hf) (hloc _ List.mem_cons_self)
  · intro loc f hf
    rw [hget] at hf
    split at hf
    · -- the place of the moved file
      next heq =>
      obtain rfl := Option.some.inj hf
      refine Or.inr (Or.inl ⟨_, List.mem_cons_self, ?_, he⟩)
      rwa [heq]
    · split at hf
      · -- the place that it has left
        simp at hf
      · next hne =>
        -- any other place is as it was when the folder had been made
        rcases hroot.of_madeFor hf with hold | ⟨-, hloc, hdir⟩
        · exact Or.inl ⟨hold, by simpa [Result.add] using hne⟩
        · exact Or.inr (Or.inr ⟨p, by simp, hloc, hdir⟩)

/-- What a step has done to its planned file. -/
theorem outcome_moveOne (hfree : d.LinkFree home) (hp : PlannedAt d root home p) {after : Disk}
    {step : Step} (h : moveOne root p d = (.ok step, after)) :
    Outcome d after root home [p] (({} : Result).add step) := by
  rcases moveOne_of_planned hd hroot hfree hp h with
    ⟨cause, rfl, rfl⟩ | ⟨k, target, htarget, rfl, -, hreloc⟩
  · exact outcome_skipped hd hroot cause
  · exact outcome_relocated hd hroot hp htarget hreloc

end Step

/-! ## A phase -/

section Append

variable {d mid last : Disk} {root : Path} {home : Location} {ps qs : List Planned}
  {r r' : Result} {p q : Planned} {m m' : Reference.Moved} {j k : Nat}

/-- A file that has been moved stays in its folder in a later phase. -/
theorem MovedTo.before_phase (hmoved : MovedTo d mid root home p m k)
    (h' : Outcome mid last root home qs r') : MovedTo d last root home p m k where
  oldName := hmoved.oldName
  target := hmoved.target
  leads := h'.keeps.leadsTo hmoved.leads
  vacant := hmoved.vacant
  isFile := hmoved.isFile
  same := by
    obtain ⟨e, he, -⟩ := (Option.any_eq_true _ _).1 hmoved.isFile
    rw [he]
    exact h'.kept_inFolder (hmoved.same.trans he)

/-- A file that a phase leaves where it is can be moved in a later phase. -/
theorem MovedTo.after_phase (hmoved : MovedTo mid last root home q m k)
    (h : Outcome d mid root home ps r)
    (hsource : mid.get? (q.fileName :: home) = d.get? (q.fileName :: home)) :
    MovedTo d last root home q m k where
  oldName := hmoved.oldName
  target := hmoved.target
  leads := hmoved.leads
  vacant := by
    cases hplace : d.get? (q.place home k) with
    | none => rfl
    | some e => simpa [hmoved.vacant] using h.kept_inFolder hplace
  isFile := hsource ▸ hmoved.isFile
  same := hmoved.same.trans hsource

/-- The place of a moved file is taken when a file of a later phase finds its own place vacant. -/
theorem MovedTo.same_eq_false (hmoved : MovedTo d mid root home p m j)
    (hmoved' : MovedTo mid last root home q m' k) (hp : IsName p.fileName)
    (hq : IsName q.fileName) : m.target.same m'.target = false := by
  by_contra hsame
  rw [Bool.not_eq_false, hmoved.target, hmoved'.target] at hsame
  have hplace := place_eq_of_same hp hq hsame home
  obtain ⟨e, he, -⟩ := (Option.any_eq_true _ _).1 hmoved.isFile
  have htaken := hmoved.same.trans he
  rw [hplace, hmoved'.vacant] at htaken
  simp at htaken

variable (h : Outcome d mid root home ps r) (h' : Outcome mid last root home qs r')
  (hqs : ∀ q ∈ qs, PlannedAt d root home q)
  (hne : ∀ p ∈ ps, ∀ q ∈ qs, p.fileName ≠ q.fileName)
include h hqs hne

/-- The files of a later phase are where they were. -/
theorem Outcome.get?_source (hq : q ∈ qs) :
    mid.get? (q.fileName :: home) = d.get? (q.fileName :: home) := by
  obtain ⟨e, he, -⟩ := (Option.any_eq_true _ _).1 (hqs q hq).isFile
  rw [he]
  refine h.kept _ e he fun m hm heq => ?_
  obtain ⟨p, hp, k, hmoved⟩ := h.moved m hm
  exact hne p hp q hq (hmoved.oldName.symm.trans (List.cons.inj heq).1.symm)

include h'

/-- What there is after both phases was there before, or came in one of them. -/
theorem Outcome.origin_append {loc : Location} {e : Entry} (he : last.get? loc = some e) :
    (d.get? loc = some e ∧ ∀ m ∈ r.moved ++ r'.moved, loc ≠ m.oldName :: home) ∨
    (∃ m ∈ r.moved ++ r'.moved, last.LeadsTo m.target loc ∧
      d.get? (m.oldName :: home) = some e) ∨
    ∃ p ∈ ps ++ qs, loc = p.category.folder :: home ∧ e = .dir newDirMode := by
  rcases h'.origin loc e he with ⟨hmid, hother'⟩ | ⟨m, hm, hleads, hold⟩ | ⟨q, hq, hfolder⟩
  · -- the second phase has found it there
    rcases h.origin loc e hmid with ⟨hd, hother⟩ | ⟨m, hm, hleads, hold⟩ | ⟨p, hp, hfolder⟩
    · exact Or.inl ⟨hd, List.forall_mem_append.2 ⟨hother, hother'⟩⟩
    · exact Or.inr (Or.inl ⟨m, List.mem_append_left _ hm, h'.keeps.leadsTo hleads, hold⟩)
    · exact Or.inr (Or.inr ⟨p, List.mem_append_left _ hp, hfolder⟩)
  · -- the second phase has moved it, from where it was before both
    obtain ⟨q, hq, k, hmoved⟩ := h'.moved m hm
    rw [hmoved.oldName, h.get?_source hqs hne hq, ← hmoved.oldName] at hold
    exact Or.inr (Or.inl ⟨m, List.mem_append_right _ hm, hleads, hold⟩)
  · -- the second phase has made it
    exact Or.inr (Or.inr ⟨q, List.mem_append_right _ hq, hfolder⟩)

/-- A phase after a phase. -/
theorem Outcome.append (hps : ∀ p ∈ ps, IsName p.fileName) :
    Outcome d last root home (ps ++ qs) ⟨r.moved ++ r'.moved, r.skipped ++ r'.skipped⟩ := by
  constructor
  · exact h'.isTree
  · exact h.keeps.trans h'.keeps
  · -- moved and skipped names of both phases, brought in the order of the plans
    have hperm := h.perm.append h'.perm
    rw [← List.map_append] at hperm
    refine List.Perm.trans ?_ hperm
    simp only [List.map_append, List.append_assoc]
    refine List.Perm.append_left _ ?_
    rw [← List.append_assoc, ← List.append_assoc]
    exact List.Perm.append_right _ List.perm_append_comm
  · -- a move of the first phase is still in place after the second one, and one of the second phase
    -- had its file at the same place before the first
    intro m hm
    rcases List.mem_append.1 hm with hm | hm
    · obtain ⟨p, hp, k, hmoved⟩ := h.moved m hm
      exact ⟨p, List.mem_append_left _ hp, k, hmoved.before_phase h'⟩
    · obtain ⟨q, hq, k, hmoved⟩ := h'.moved m hm
      have hsource := h.get?_source hqs hne hq
      exact ⟨q, List.mem_append_right _ hq, k, hmoved.after_phase h hsource⟩
  · refine List.pairwise_append.2 ⟨h.distinct, h'.distinct, fun m hm m' hm' => ?_⟩
    obtain ⟨p, hp, j, hmoved⟩ := h.moved m hm
    obtain ⟨q, hq, k, hmoved'⟩ := h'.moved m' hm'
    exact hmoved.same_eq_false hmoved' (hps p hp) (hqs q hq).isName
  · intro loc e he hloc
    refine h'.kept loc e (h.kept loc e he fun m hm => ?_) fun m hm => ?_
    · exact hloc m (List.mem_append_left _ hm)
    · exact hloc m (List.mem_append_right _ hm)
  · intro loc e he
    exact h.origin_append h' hqs hne he

end Append

/-- A phase brings no links into a directory that has none. -/
theorem Outcome.linkFree {d last : Disk} {root : Path} {home : Location} {plans : List Planned}
    {r : Result} (h : Outcome d last root home plans r) (hfree : d.LinkFree home) :
    last.LinkFree home := by
  intro loc e hloc he
  rcases h.origin loc e he with ⟨hd, -⟩ | ⟨m, hm, -, hold⟩ | ⟨p, -, -, rfl⟩
  · exact hfree loc e hloc hd
  · exact hfree _ e (List.suffix_cons m.oldName home) hold
  · rfl

/-- What a phase has done that went through. -/
theorem outcome_execute {root : Path} {home : Location} : ∀ {plans : List Planned} {d last : Disk}
    {r : Result}, d.IsTree → RootAt d root home → d.LinkFree home →
    (∀ p ∈ plans, PlannedAt d root home p) → (plans.map Planned.fileName).Nodup →
    execute root plans d = (.ok r, last) → Outcome d last root home plans r
  | [], d, last, r, hd, _, _, _, _, h => by
    obtain ⟨hr, rfl⟩ := Prod.mk.inj h
    obtain rfl := Except.ok.inj hr
    exact ⟨hd, .refl d, by simp, by simp, by simp, fun _ _ he _ => he,
      fun _ _ he => Or.inl ⟨he, by simp⟩⟩
  | p :: rest, d, last, r, hd, hroot, hfree, hplans, hnodup, h => by
    have hp := hplans p (by simp)
    obtain ⟨hnot, hnodup⟩ := List.nodup_cons.1 hnodup
    obtain ⟨step, mid, r', hone, hrest, rfl⟩ := execute_cons_eq_ok_iff.1 h
    have hstep := outcome_moveOne hd hroot hfree hp hone
    have hqs : ∀ q ∈ rest, PlannedAt d root home q := fun q hq =>
      hplans q (List.mem_cons_of_mem _ hq)
    have hne : ∀ q ∈ [p], ∀ q' ∈ rest, q.fileName ≠ q'.fileName := by
      intro q hq q' hq' heq
      obtain rfl := List.mem_singleton.1 hq
      exact hnot (heq ▸ List.mem_map_of_mem hq')
    -- the move takes another file, so the rest is planned on the disk that it leaves behind
    have hmid : ∀ q ∈ rest, PlannedAt mid root home q := by
      intro q hq
      have hqd := hqs q hq
      refine ⟨hqd.source, hqd.isName, ?_⟩
      rw [hstep.get?_source hqs hne hq]
      exact hqd.isFile
    have hphase := outcome_execute hstep.isTree (hroot.keeps hstep.keeps)
      (hstep.linkFree hfree) hmid hnodup hrest
    have hboth := hstep.append hphase hqs hne fun q hq => by
      rw [List.mem_singleton.1 hq]
      exact hp.isName
    cases step <;> exact hboth

/-! ## Planned files and what becomes of them -/

section Planned

variable {d last : Disk} {root : Path} {home : Location} {plans : List Planned} {r : Result}

theorem nodup_source (hplans : ∀ p ∈ plans, PlannedAt d root home p)
    (hnodup : (plans.map Planned.fileName).Nodup) : (plans.map Planned.source).Nodup := by
  refine List.pairwise_map.2 ((List.pairwise_map.1 hnodup).imp_of_mem ?_)
  intro p q hp hq hne hsame
  rw [(hplans p hp).source, (hplans q hq).source] at hsame
  have hnames := congrArg (fun x => Path.fileName? x) hsame
  simp only [Path.fileName?_join (hplans p hp).isName, Path.fileName?_join (hplans q hq).isName,
    Option.some.injEq] at hnames
  exact hne hnames

/-- The target of a record leads to the place in the folder. -/
theorem MovedTo.locate {m : Reference.Moved} {p : Planned} {k : Nat} {e : Entry}
    (hmoved : MovedTo d last root home p m k) (hn : IsName p.fileName)
    (he : d.get? (p.fileName :: home) = some e) :
    last.locate false m.target = .ok (p.place home k, e) := by
  have hslash : endsInSlash m.target = false := by
    rw [hmoved.target]
    exact endsInSlash_join (isName_candidate hn k) _
  exact hmoved.leads.locate hslash (hmoved.same.trans he)

variable (h : Outcome d last root home plans r)
include h

/-- Under the name of a moved file there is nothing any more, unless a folder bears that name. -/
theorem Outcome.left {m : Reference.Moved} (hm : m ∈ r.moved) :
    last.get? (m.oldName :: home) = none ∨
      ∃ p ∈ plans, p.category.folder = m.oldName ∧
        last.get? (m.oldName :: home) = some (.dir newDirMode) := by
  cases hget : last.get? (m.oldName :: home) with
  | none => exact Or.inl rfl
  | some e =>
    right
    rcases h.origin _ e hget with ⟨-, hother⟩ | ⟨m', hm', hleads, -⟩ | ⟨p, hp, hfolder, rfl⟩
    · exact absurd rfl (hother m hm)
    · -- moved files are in folders
      obtain ⟨p, -, k, hmoved⟩ := h.moved m' hm'
      exact absurd (hmoved.leads.unique hleads) (p.place_ne home k m.oldName)
    · exact ⟨p, hp, (List.cons.inj hfolder).1.symm, rfl⟩

/-- A skipped file is where it was. -/
theorem Outcome.stays (hplans : ∀ p ∈ plans, PlannedAt d root home p)
    (hnodup : (plans.map Planned.source).Nodup) {s : Skip} (hs : s ∈ r.skipped) :
    ∃ p ∈ plans, s.path = p.source ∧
      last.get? (p.fileName :: home) = d.get? (p.fileName :: home) := by
  have hmem : s.path ∈ plans.map Planned.source :=
    h.perm.subset (List.mem_append_right _ (List.mem_map_of_mem hs))
  obtain ⟨p, hp, hpath⟩ := List.mem_map.1 hmem
  obtain ⟨e, he, -⟩ := (Option.any_eq_true _ _).1 (hplans p hp).isFile
  refine ⟨p, hp, hpath.symm, ?_⟩
  rw [he]
  refine h.kept _ e he fun m hm heq => ?_
  -- no planned file is both moved and skipped
  have hdisjoint := List.disjoint_of_nodup_append (h.perm.nodup_iff.2 hnodup)
  have hsource : root.join m.oldName = s.path := by
    rw [← hpath, (hplans p hp).source, (List.cons.inj heq).1]
  exact hdisjoint (List.mem_map.2 ⟨m, hm, hsource⟩) (List.mem_map_of_mem hs)

end Planned

/-- The state after a move phase that went through, for a root without links and any classifier and
exclusion rules. Every planned file is moved or skipped, and not both. A moved file is in the folder
of its category as it was, at a path of its own, and under its old name there is nothing or the
folder of a category. A skipped file is where it was. All other entries are where they were, and
what else there is are folders of categories. -/
theorem execute_outcome {d last : Disk} (hd : d.IsTree) {root : Path} {home : Location} {mode : Nat}
    (hroot : d.locate true root = .ok (home, .dir mode)) (hfree : d.LinkFree home)
    {classifier : Classifier} {exclusion : Exclusion} {plans : List Planned} {r : Result}
    (hplan : plan d root classifier exclusion = .ok plans)
    (h : execute root plans d = (.ok r, last)) :
    Outcome d last root home plans r ∧ (plans.map Planned.source).Nodup ∧
    (∀ m ∈ r.moved, ∃ c k e, classifier.classify m.oldName = some c ∧
      d.get? (m.oldName :: home) = some e ∧ e.isFile = true ∧
      last.locate false m.target = .ok (candidate m.oldName k :: c.folder :: home, e) ∧
      (last.get? (m.oldName :: home) = none ∨ ∃ p ∈ plans, p.category.folder = m.oldName ∧
        last.get? (m.oldName :: home) = some (.dir newDirMode))) ∧
    (∀ s ∈ r.skipped, ∃ p ∈ plans, s.path = p.source ∧ ∃ e,
      d.get? (p.fileName :: home) = some e ∧ e.isFile = true ∧
      last.get? (p.fileName :: home) = some e) := by
  obtain ⟨hspec, hnodup⟩ := plan_spec hd hroot hplan
  have hplans : ∀ p ∈ plans, PlannedAt d root home p := fun p hp => (hspec p hp).1
  have hout := outcome_execute hd (rootAt_of_locate hroot) hfree hplans hnodup h
  have hsources := nodup_source hplans hnodup
  refine ⟨hout, hsources, ?_, ?_⟩
  · intro m hm
    obtain ⟨p, hp, k, hmoved⟩ := hout.moved m hm
    obtain ⟨e, he, hfile⟩ := (Option.any_eq_true _ _).1 hmoved.isFile
    have hleft := hout.left hm
    have hlocate := hmoved.locate (hplans p hp).isName he
    rw [hmoved.oldName] at hleft ⊢
    exact ⟨p.category, k, e, (hspec p hp).2, he, hfile, hlocate, hleft⟩
  · intro s hs
    obtain ⟨p, hp, hpath, hsame⟩ := hout.stays hplans hsources hs
    obtain ⟨e, he, hfile⟩ := (Option.any_eq_true _ _).1 (hplans p hp).isFile
    exact ⟨p, hp, hpath, e, he, hfile, hsame.trans he⟩

/-- A project of an ordinary user: one file has the name of a folder, one belongs in a folder that may
not be changed, and one in a folder on another volume. -/
def lockedDisk : Disk where
  entries := [(["site"], .dir 0o755), (["css", "site"], .file 0o644 "plain".toUTF8),
    (["d.css", "site"], .file 0o644 "body".toUTF8), (["img", "site"], .dir 0o555),
    (["m.png", "site"], .file 0o644 "pixels".toUTF8),
    (["v.mp4", "site"], .file 0o644 "frames".toUTF8), (["video", "site"], .dir 0o755)]
  mounts := [["video", "site"]]
  privileged := false

/-- The plans for the project. -/
def lockedPlans : List Planned :=
  [⟨⟨"/site/css"⟩, "css", .files⟩, ⟨⟨"/site/d.css"⟩, "d.css", .css⟩,
    ⟨⟨"/site/m.png"⟩, "m.png", .img⟩, ⟨⟨"/site/v.mp4"⟩, "v.mp4", .video⟩]

/-- What becomes of them. -/
def lockedResult : Result where
  moved := [⟨"css", "files/css", ⟨"/site/files/css"⟩⟩, ⟨"d.css", "css/d.css", ⟨"/site/css/d.css"⟩⟩,
    ⟨"v.mp4", "video/v.mp4", ⟨"/site/video/v.mp4"⟩⟩]
  skipped := [⟨⟨"/site/m.png"⟩, .failed .denied⟩]

theorem plan_lockedDisk : plan lockedDisk ⟨"/site"⟩ .standard {} = .ok lockedPlans := by
  have hloc : lockedDisk.locate true ⟨"/site"⟩ = .ok (["site"], .dir 0o755) := rfl
  have hread : lockedDisk.readDir ⟨"/site"⟩ =
      .ok [("css", .file 0o644 "plain".toUTF8), ("d.css", .file 0o644 "body".toUTF8),
        ("img", .dir 0o555), ("m.png", .file 0o644 "pixels".toUTF8),
        ("v.mp4", .file 0o644 "frames".toUTF8), ("video", .dir 0o755)] :=
    readDir_of_sorted hloc rfl rfl (by decide +kernel)
  have hplans : ([("css", .file 0o644 "plain".toUTF8), ("d.css", .file 0o644 "body".toUTF8),
      ("img", .dir 0o555), ("m.png", .file 0o644 "pixels".toUTF8),
      ("v.mp4", .file 0o644 "frames".toUTF8), ("video", .dir 0o755)] :
      List (String × Entry)).filterMap (planFor? ⟨"/site"⟩ .standard {}) = lockedPlans := by
    decide +kernel
  simp only [plan, hread, planEntries, hplans]
  rw [List.mergeSort_of_pairwise (by decide +kernel)]

/-- A phase with records to show has gone through with them. -/
theorem execute_eq_of_records {root : Path} {plans : List Planned} {d : Disk}
    {moved : List Reference.Moved} {skipped : List Skip}
    (h : (execute root plans d).1.toOption.map (fun r => (r.moved, r.skipped)) =
      some (moved, skipped)) :
    execute root plans d = (.ok ⟨moved, skipped⟩, (execute root plans d).2) := by
  generalize execute root plans d = run at h
  obtain ⟨result, last⟩ := run
  cases result with
  | error e => simp at h
  | ok r =>
    simp only [toOption_ok, Option.map_some, Option.some.injEq, Prod.mk.injEq] at h
    obtain ⟨rfl, rfl⟩ := h
    rfl

theorem execute_lockedDisk : ∃ last, execute ⟨"/site"⟩ lockedPlans lockedDisk =
    (.ok lockedResult, last) ∧ (last.get? ["css", "site"]).any Entry.isDir = true :=
  ⟨_, execute_eq_of_records (by decide +kernel), by decide +kernel⟩

/-- Three files of the project are moved, one of them to another volume, and the one that may not be
brought into its folder stays. -/
theorem execute_outcome_of_lockedFolder :
    lockedDisk.IsTree ∧ lockedDisk.LinkFree ["site"] ∧
    plan lockedDisk ⟨"/site"⟩ .standard {} = .ok lockedPlans ∧
    ∃ last, execute ⟨"/site"⟩ lockedPlans lockedDisk = (.ok lockedResult, last) ∧
      Outcome lockedDisk last ⟨"/site"⟩ ["site"] lockedPlans lockedResult := by
  have hd : lockedDisk.IsTree := by decide +kernel
  have hroot : lockedDisk.locate true ⟨"/site"⟩ = .ok (["site"], .dir 0o755) := rfl
  have hfree : lockedDisk.LinkFree ["site"] := linkFree_of_entries (by decide +kernel) _
  obtain ⟨last, hrun, -⟩ := execute_lockedDisk
  exact ⟨hd, hfree, plan_lockedDisk, last, hrun,
    (execute_outcome hd hroot hfree plan_lockedDisk hrun).1⟩

/-- The name of a moved file can be taken again: the folder for a later file bears it. -/
theorem execute_takenName : lockedDisk.IsTree ∧ lockedDisk.LinkFree ["site"] ∧
    plan lockedDisk ⟨"/site"⟩ .standard {} = .ok lockedPlans ∧
    (∃ m ∈ lockedResult.moved, m.oldName = "css") ∧
    ∃ last, execute ⟨"/site"⟩ lockedPlans lockedDisk = (.ok lockedResult, last) ∧
      (last.get? ["css", "site"]).isSome := by
  obtain ⟨last, hrun, hdir⟩ := execute_lockedDisk
  refine ⟨by decide +kernel, linkFree_of_entries (by decide +kernel) _, plan_lockedDisk, ?_,
    last, hrun, Option.isSome_of_any hdir⟩
  exact ⟨⟨"css", "files/css", ⟨"/site/files/css"⟩⟩, by simp [lockedResult], rfl⟩

end SiteFolders.Move
