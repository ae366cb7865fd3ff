import SiteFolders.Move.Plan
import SiteFolders.Proofs.Disk.Locations
import SiteFolders.Proofs.Move.File

/-!
# What a plan holds

A plan for the canonical path of a directory holds regular files of that directory, each of them
once, with the path that leads to it.
-/

namespace SiteFolders.Move

open Disk

/-- A path that leads to a directory. -/
structure RootAt (d : Disk) (root : Path) (home : Location) : Prop where
  isDir : d.holdsDir home = true
  leads : d.resolveFrom true linkLimit (startOf root.text d.workingDirectory) (namesOf root.text) =
    .ok (.entry home)

theorem rootAt_of_locate {d : Disk} {root : Path} {home : Location} {mode : Nat}
    (h : d.locate true root = .ok (home, .dir mode)) : RootAt d root home := by
  obtain ⟨hres, hget⟩ := locate_eq_ok_iff.1 h
  obtain ⟨-, hleads, -⟩ := resolve_eq_ok_iff.1 hres
  exact ⟨holdsDir_iff.2 ⟨mode, hget⟩, by simpa using hleads⟩

namespace RootAt

variable {d : Disk} {root : Path} {home : Location} (h : RootAt d root home)
include h

theorem keeps {d' : Disk} (hkeeps : d.Keeps d') : RootAt d' root home := by
  obtain ⟨mode, hmode⟩ := holdsDir_iff.1 h.isDir
  refine ⟨hkeeps.holdsDir h.isDir, ?_⟩
  rw [hkeeps.workingDirectory]
  exact hkeeps.resolveFrom hmode (hkeeps.entry home _ hmode rfl) _ _ _ h.leads

/-- A name in the root is reached there. -/
theorem reaches_join_iff {n : String} (hn : IsName n) {dir : Location} :
    d.Reaches (root.join n) dir n ↔
      checkPath (root.join n) = .ok () ∧ d.Searchable home ∧ dir = home := by
  rw [Disk.reaches_join_iff hn, h.leads, Except.ok.injEq, Place.entry.injEq]
  constructor
  · rintro ⟨hcheck, hsearch, rfl⟩
    exact ⟨hcheck, hsearch, rfl⟩
  · rintro ⟨hcheck, hsearch, rfl⟩
    exact ⟨hcheck, hsearch, rfl⟩

theorem of_leadsTo_join {n : String} (hn : IsName n) {loc : Location}
    (hloc : d.LeadsTo (root.join n) loc) : loc = n :: home := by
  obtain ⟨dir, m, rfl, -, hreach⟩ := hloc
  obtain ⟨init, hinit, -⟩ := hreach.leads
  rw [namesOf_join hn] at hinit
  obtain rfl : n = m := by simpa using congrArg List.getLast? hinit
  rw [((h.reaches_join_iff hn).1 hreach).2.2]

end RootAt

/-- Everything that a plan needs to know about the directory that it is for. -/
structure IsHome (d : Disk) (home : Location) : Prop where
  isDir : d.holdsDir home = true
  isOpen : d.Open home
  checked : checkPath (Path.ofLocation home) = .ok ()

namespace IsHome

variable {d : Disk} {home : Location} (h : IsHome d home) (hd : d.IsTree)
include h

theorem get? : ∃ mode, d.get? home = some (.dir mode) := holdsDir_iff.1 h.isDir

theorem keeps {d' : Disk} (hkeeps : d.Keeps d') : IsHome d' home :=
  ⟨hkeeps.holdsDir h.isDir, hkeeps.isOpen h.isOpen, h.checked⟩

include hd

theorem isName : ∀ n ∈ home, IsName n := by
  rcases h.get? with ⟨mode, hmode⟩
  exact hd.isName_of_mem (by simp [hmode])

theorem locate (follow : Bool) {mode : Nat} (hmode : d.get? home = some (.dir mode)) :
    d.locate follow (Path.ofLocation home) = .ok (home, .dir mode) :=
  (locate_ofLocation_iff hd hmode rfl follow).2 ⟨h.checked, h.isOpen, rfl⟩

theorem of_locate {follow : Bool} {x : Location × Entry}
    (hx : d.locate follow (Path.ofLocation home) = .ok x) : x.1 = home ∧ x.2.isDir = true := by
  rcases h.get? with ⟨mode, hmode⟩
  rw [h.locate hd follow hmode, Except.ok.injEq] at hx
  rw [← hx]
  exact ⟨rfl, rfl⟩

theorem readDir {mode : Nat} (hmode : d.get? home = some (.dir mode)) :
    d.readDir (Path.ofLocation home) =
      if d.mayRead mode = true then .ok (d.children home) else .error .denied := by
  simp only [Disk.readDir, h.locate hd true hmode, ok_bind]
  rfl

theorem rootAt : RootAt d (Path.ofLocation home) home := by
  obtain ⟨mode, hmode⟩ := h.get?
  exact rootAt_of_locate (h.locate hd true hmode)

theorem parent?_join {n : String} (hn : IsName n) :
    ((Path.ofLocation home).join n).parent? = some (Path.ofLocation home) := by
  rw [← Path.ofLocation_cons hn (h.isName hd)]
  exact Path.parent?_ofLocation_cons hn (h.isName hd)

end IsHome

/-- What holds of every file in a plan for a directory. -/
structure PlannedIn (d : Disk) (home : Location) (p : Planned) : Prop where
  source : p.source = (Path.ofLocation home).join p.fileName
  isName : IsName p.fileName
  isFile : (d.get? (p.fileName :: home)).any Entry.isFile = true
  no_dot : p.fileName.toList.head? ≠ some '.'

/-- An entry is planned if it is a regular file that is admitted and has a category. -/
theorem planFor?_eq_some_iff {root : Path} {classifier : Classifier} {exclusion : Exclusion}
    {x : String × Entry} {p : Planned} :
    planFor? root classifier exclusion x = some p ↔
      x.2.isFile = true ∧ exclusion.admits (root.join x.1) = true ∧
        ∃ category, classifier.classify x.1 = some category ∧
          p = ⟨root.join x.1, x.1, category⟩ := by
  simp only [planFor?, Bool.and_eq_true]
  split
  · next h =>
    rw [Option.map_eq_some_iff]
    simp only [h, true_and, eq_comm]
  · next h => simp [← and_assoc, h]

theorem fileName_of_planFor? {root : Path} {classifier : Classifier} {exclusion : Exclusion}
    {x : String × Entry} {p : Planned} (h : planFor? root classifier exclusion x = some p) :
    p.fileName = x.1 := by
  obtain ⟨-, -, category, -, rfl⟩ := planFor?_eq_some_iff.1 h
  rfl

/-- Dot files are in no category. -/
theorem no_dot_of_classify {classifier : Classifier} {name : String} {category : Category}
    (h : classifier.classify name = some category) : name.toList.head? ≠ some '.' := by
  intro hdot
  have hstays : classifier.stays name = true := by simp [Classifier.stays, hdot]
  simp [Classifier.classify_of_stays hstays] at h

/-- A planned file that is in the directory to which the root leads. -/
structure PlannedAt (d : Disk) (root : Path) (home : Location) (p : Planned) : Prop where
  source : p.source = root.join p.fileName
  isName : IsName p.fileName
  isFile : (d.get? (p.fileName :: home)).any Entry.isFile = true

theorem PlannedIn.plannedAt {d : Disk} {home : Location} {p : Planned} (h : PlannedIn d home p) :
    PlannedAt d (Path.ofLocation home) home p := ⟨h.source, h.isName, h.isFile⟩

/-- A plan holds what is planned for the entries of the directory. -/
theorem mem_plan_iff {d : Disk} (hd : d.IsTree) {root : Path} {home : Location} {mode : Nat}
    (hroot : d.locate true root = .ok (home, .dir mode)) {classifier : Classifier}
    {exclusion : Exclusion} {plans : List Planned}
    (h : plan d root classifier exclusion = .ok plans) {p : Planned} :
    p ∈ plans ↔ ∃ n e, d.get? (n :: home) = some e ∧
      planFor? root classifier exclusion (n, e) = some p := by
  unfold plan at h
  cases hread : d.readDir root with
  | error e => simp [hread] at h
  | ok entries =>
    simp only [hread, Except.ok.injEq] at h
    obtain ⟨loc, mode', hloc, -, rfl⟩ := readDir_eq_ok_iff.1 hread
    obtain ⟨rfl, -⟩ : home = loc ∧ _ := Prod.mk.inj (Except.ok.inj (hroot.symm.trans hloc))
    rw [← h, planEntries, List.mem_mergeSort, List.mem_filterMap]
    constructor
    · rintro ⟨⟨n, e⟩, hx, hplan⟩
      exact ⟨n, e, hd.get?_of_mem (mem_children.1 hx), hplan⟩
    · rintro ⟨n, e, he, hplan⟩
      exact ⟨(n, e), mem_children.2 (mem_of_get? he (by simp)), hplan⟩

/-- A plan holds files of the root with their categories, each of them once. -/
theorem plan_spec {d : Disk} (hd : d.IsTree) {root : Path} {home : Location} {mode : Nat}
    (hroot : d.locate true root = .ok (home, .dir mode)) {classifier : Classifier}
    {exclusion : Exclusion} {plans : List Planned}
    (h : plan d root classifier exclusion = .ok plans) :
    (∀ p ∈ plans, PlannedAt d root home p ∧ classifier.classify p.fileName = some p.category) ∧
      (plans.map Planned.fileName).Nodup := by
  constructor
  · intro p hp
    obtain ⟨n, e, he, hplan⟩ := (mem_plan_iff hd hroot h).1 hp
    obtain ⟨hfile, -, category, hclassify, rfl⟩ := planFor?_eq_some_iff.1 hplan
    exact ⟨⟨rfl, hd.isName_of_get? he, by simpa [he] using hfile⟩, hclassify⟩
  · unfold plan at h
    cases hread : d.readDir root with
    | error e => simp [hread] at h
    | ok entries =>
      simp only [hread, Except.ok.injEq] at h
      obtain ⟨loc, mode', -, -, rfl⟩ := readDir_eq_ok_iff.1 hread
      rw [← h]
      refine List.pairwise_map.2 ((List.mergeSort_perm _ _).pairwise_iff (fun h => h.symm) |>.2 ?_)
      refine List.pairwise_filterMap.2 ((pairwise_children hd loc).imp fun hne p hp q hq => ?_)
      rwa [← fileName_of_planFor? hp, ← fileName_of_planFor? hq] at hne

theorem plan_eq_ok {d : Disk} (hd : d.IsTree) {home : Location} (hhome : IsHome d home)
    {classifier : Classifier} {exclusion : Exclusion} {plans : List Planned}
    (h : plan d (Path.ofLocation home) classifier exclusion = .ok plans) :
    (∀ p ∈ plans, PlannedIn d home p) ∧ (plans.map Planned.fileName).Nodup ∧
      ∃ entries, d.readDir (Path.ofLocation home) = .ok entries := by
  obtain ⟨mode, hmode⟩ := hhome.get?
  obtain ⟨hplans, hnodup⟩ := plan_spec hd (hhome.locate hd true hmode) h
  refine ⟨?_, hnodup, ?_⟩
  · intro p hp
    obtain ⟨⟨hsource, hname, hfile⟩, hclassify⟩ := hplans p hp
    exact ⟨hsource, hname, hfile, no_dot_of_classify hclassify⟩
  · unfold plan at h
    cases hread : d.readDir (Path.ofLocation home) with
    | error e => simp [hread] at h
    | ok entries => exact ⟨entries, rfl⟩

end SiteFolders.Move
