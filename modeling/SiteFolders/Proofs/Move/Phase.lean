import SiteFolders.Move.Phase
import SiteFolders.Proofs.Move.Destination
import SiteFolders.Proofs.Move.File

/-!
# The move phase overwrites and loses nothing

What one step can do is said once (`moveOne_cases`): it moves an entry to a place that is vacant,
or it adds nothing but directories. So every step makes a tree of a tree and loses no bytes of any
file, and by induction the whole phase does. There are more bytes than before only where a link has
come to another volume, which is followed there (`Gained`, `execute_copies_link`).
-/

namespace SiteFolders.Move

open Disk

theorem isName_folder (c : Category) : IsName c.folder := by
  cases c <;> decide

/-! ## One step -/

/-- Between two disks an entry has gone from `old` to `new`. Nothing was at the new place, and every
other entry is where it was. -/
structure Moved (d after : Disk) (source target : Path) (old new : Location)
    (gained : Multiset ByteArray) : Prop where
  free : d.isOccupied target = false
  vacant : d.get? new = none
  /-- The places are those that the paths lead to once the folder is there, and what has come is the
  entry itself, or for a link on another volume a copy of what it led to. -/
  leads : ∃ made found, d.Grown made ∧ source? made source = some found ∧
    made.LeadsTo found old ∧ made.LeadsTo target new ∧ Arrived made after found old new gained
  apart : ¬ old <:+ new
  arrived : gained = 0 →
    ∀ below e, d.get? (below ++ old) = some e → after.get? (below ++ new) = some e
  left : ∀ below, after.get? (below ++ old) = none
  others : ∀ loc e, d.get? loc = some e → ¬ old <:+ loc → after.get? loc = some e
  reads : ∀ e, d.get? old = some e → e.isFile = true → after.locate false target = .ok (new, e)
  contents : after.contents = d.contents + gained

/-- What a path leads to once directories have been made, it led to before if it led anywhere; so
a path to a place that is vacant then was free. -/
theorem free_of_leadsTo {d made : Disk} (hgrown : d.Grown made) {target : Path} {new : Location}
    (hslash : endsInSlash target = false) (htarget : made.LeadsTo target new)
    (hvacant : d.get? new = none) : d.isOccupied target = false := by
  by_contra hocc
  simp only [Bool.not_eq_false] at hocc
  rcases htarget with ⟨dir, n, rfl, hlen, hreach⟩
  obtain ⟨⟨loc, e⟩, hloc⟩ := isOccupied_iff_locate.1 hocc
  have hlast : (namesOf target.text).getLast? = some n := by
    rcases hreach.leads with ⟨init, hinit, -⟩
    simp [hinit]
  obtain ⟨dir', hreach', -⟩ :=
    reaches_of_resolve hlast hreach.name (locate_eq_ok_iff.1 hloc).1
  rcases (hgrown.keeps.reaches hreach').unique hreach with ⟨rfl, -⟩
  rcases (locate_false_eq_ok_iff hslash hreach').1 hloc with ⟨-, rfl, he⟩
  simp [hvacant] at he

/-- A move on a disk to which directories were added is a move on the disk as it was before. -/
theorem moved_of_relocated {d made after : Disk} (hd : d.IsTree) (hgrown : d.Grown made)
    {source found target : Path} {old new : Location} (hslash : endsInSlash target = false)
    (hfound : source? made source = some found) (h : Relocated made after found target old new) :
    ∃ gained, Moved d after source target old new gained := by
  have hmade := hgrown.isTree hd
  have hvacant : d.get? new = none := hgrown.vacant h.canMove.vacant
  obtain ⟨gained, harrived, hcontents⟩ := h.arrived hmade
  refine ⟨gained, free_of_leadsTo hgrown hslash h.target hvacant, hvacant,
    ⟨made, found, hgrown, hfound, h.source, h.target, harrived⟩, h.canMove.apart, ?_, h.left hmade,
    ?_, ?_, ?_⟩
  · rintro hnone below e he
    cases harrived with
    | itself _ hcarried =>
      rw [hcarried.arrived]
      exact hgrown.kept _ e he
    | copy => simp at hnone
  · intro loc e he hold
    exact h.stays hmade (hgrown.kept loc e he) hold
  · intro e he hfile
    exact h.locate hmade (hgrown.kept old e he) hfile
  · rw [hcontents, hgrown.contents]

/-- The disk of a step once the folder for the file is there. -/
def madeFor (root : Path) (p : Planned) (d : Disk) : Disk :=
  (destination d (root.join p.category.folder) p.fileName).2

theorem grown_madeFor (root : Path) (p : Planned) (d : Disk) : d.Grown (madeFor root p d) :=
  grown_destination d _ _

/-- What one step does: it cannot make the folder, or it leaves it at that, or it moves an entry
to a candidate that is vacant. -/
theorem moveOne_cases {d : Disk} (hd : d.IsTree) (root : Path) {p : Planned}
    (hp : IsName p.fileName) :
    (∃ e, moveOne root p d =
      (.error (.folderNotMade (root.join p.category.folder) e), madeFor root p d)) ∨
    (∃ step, (∀ file, step ≠ .moved file) ∧ moveOne root p d = (.ok step, madeFor root p d)) ∨
    (∃ k target found old new after,
      target = (root.join p.category.folder).join (candidate p.fileName k) ∧
      source? (madeFor root p d) p.source = some found ∧
      Relocated (madeFor root p d) after found target old new ∧
      moveOne root p d = (.ok (.moved ⟨p.fileName, Path.below root target, target⟩), after)) := by
  have hfolder := isName_folder p.category
  have hgrown := grown_madeFor root p d
  unfold moveOne madeFor at *
  cases hdest : destination d (root.join p.category.folder) p.fileName with
  | mk result made =>
    rw [hdest] at hgrown
    cases result with
    | error e => exact Or.inl ⟨e, by simp only [hdest]⟩
    | ok target =>
      right
      rcases destination_eq_ok hfolder hp hdest with ⟨hmade, k, rfl, hfree⟩
      have hk := isName_candidate hp k
      by_cases hsame : ((root.join p.category.folder).join (candidate p.fileName k)).same p.source
      · exact Or.inl ⟨.stayed, by simp, by simp only [hdest, hsame, if_true]⟩
      · -- the file is moved on the disk that has its folder
        have hspec := moveFile_spec (hgrown.isTree hd) hfolder hk hmade hfree p.source
        cases hmove : moveFile made p.source ((root.join p.category.folder).join
            (candidate p.fileName k)) with
        | mk moved after =>
          rw [hmove] at hspec
          cases moved with
          | error trouble =>
            obtain rfl : after = made := hspec
            refine Or.inl ⟨.skipped ⟨p.source, trouble⟩, by simp, ?_⟩
            simp only [hdest, if_neg hsame, hmove]
          | ok u =>
            rcases hspec with ⟨found, old, new, hfound, hreloc⟩
            refine Or.inr ⟨k, _, found, old, new, after, rfl, hfound, hreloc, ?_⟩
            simp only [hdest, if_neg hsame, hmove]

/-- A step records a move where a destination is found and the file goes there. -/
theorem moveOne_eq_moved {d made after : Disk} {root target : Path} {p : Planned}
    (hdest : destination d (root.join p.category.folder) p.fileName = (.ok target, made))
    (hother : target.same p.source = false)
    (hmove : moveFile made p.source target = (.ok (), after)) :
    moveOne root p d = (.ok (.moved ⟨p.fileName, Path.below root target, target⟩), after) := by
  simp [moveOne, hdest, hother, hmove]

/-- A step makes a tree of a tree. -/
theorem isTree_moveOne {d : Disk} (hd : d.IsTree) (root : Path) {p : Planned}
    (hp : IsName p.fileName) : (moveOne root p d).2.IsTree := by
  have hmade := (grown_madeFor root p d).isTree hd
  rcases moveOne_cases hd root hp with ⟨e, hone⟩ | ⟨step, -, hone⟩ |
    ⟨k, target, found, old, new, after, -, -, hreloc, hone⟩ <;> simp only [hone]
  · exact hmade
  · exact hmade
  · exact hreloc.isTree hmade

/-- A step that records a move finds nothing at the destination and leaves every other entry where
it is; every other step, also one that ends the phase, leaves all entries where they are. -/
theorem moved_or_grown_of_moveOne {d after : Disk} (hd : d.IsTree) {root : Path} {p : Planned}
    (hp : IsName p.fileName) {result : Except RunError Step}
    (h : moveOne root p d = (result, after)) :
    (∀ file, result = .ok (.moved file) →
      ∃ old new gained, Moved d after p.source file.target old new gained) ∧
    ((∀ file, result ≠ .ok (.moved file)) → d.Grown after) := by
  have hgrown := grown_madeFor root p d
  rcases moveOne_cases hd root hp with ⟨e, hone⟩ | ⟨step, hstep, hone⟩ |
    ⟨k, target, found, old, new, after', htarget, hfound, hreloc, hone⟩
  all_goals
    rw [hone, Prod.mk.injEq] at h
    rcases h with ⟨rfl, rfl⟩
  · exact ⟨fun file h => by simp at h, fun _ => hgrown⟩
  · exact ⟨fun file h => absurd (Except.ok.inj h) (hstep file), fun _ => hgrown⟩
  · refine ⟨fun file h => ?_, fun hno => absurd rfl (hno _)⟩
    obtain rfl := Step.moved.inj (Except.ok.inj h)
    have hslash : endsInSlash target = false := by
      rw [htarget]
      exact endsInSlash_join (isName_candidate hp k) _
    exact ⟨old, new, moved_of_relocated hd hgrown hslash hfound hreloc⟩

/-! ## The whole phase -/

section Cons

variable {root : Path} {p : Planned} {rest : List Planned} {d last : Disk}

/-- A phase goes through if its first step does and then the rest. -/
theorem execute_cons_eq_ok_iff {r : Result} :
    execute root (p :: rest) d = (.ok r, last) ↔ ∃ step mid r', moveOne root p d = (.ok step, mid) ∧
      execute root rest mid = (.ok r', last) ∧ r = r'.add step := by
  rw [execute]
  rcases moveOne root p d with ⟨e | step, mid⟩
  · simp
  · cases hrest : execute root rest mid with
    | mk result last' => cases result <;> simp [hrest, and_comm, eq_comm]

/-- A phase ends early if its first step fails, or a later one. -/
theorem execute_cons_eq_error_iff {e : RunError} :
    execute root (p :: rest) d = (.error e, last) ↔ moveOne root p d = (.error e, last) ∨
      ∃ step mid, moveOne root p d = (.ok step, mid) ∧ execute root rest mid = (.error e, last) := by
  rw [execute]
  rcases moveOne root p d with ⟨e' | step, mid⟩
  · simp
  · cases hrest : execute root rest mid with
    | mk result last' => cases result <;> simp [hrest]

theorem disk_execute_of_error {e : RunError} (h : moveOne root p d = (.error e, last)) :
    (execute root (p :: rest) d).2 = last := by
  rw [execute, h]

theorem disk_execute_of_ok {step : Step} {mid : Disk} (h : moveOne root p d = (.ok step, mid)) :
    (execute root (p :: rest) d).2 = (execute root rest mid).2 := by
  rw [execute, h]
  cases hrest : execute root rest mid with
  | mk result last => cases result <;> simp [hrest]

end Cons

/-- What every step keeps is kept by a phase, also by one that ends early. -/
theorem execute_keeps (root : Path) {I : List Planned → Disk → Prop}
    (hstep : ∀ p rest d, I (p :: rest) d → I rest (moveOne root p d).2) :
    ∀ {plans : List Planned} {d : Disk}, I plans d → ∃ left, I left (execute root plans d).2
  | [], d, h => ⟨[], h⟩
  | p :: rest, d, h => by
    have hone := hstep p rest d h
    cases hmove : moveOne root p d with
    | mk result mid =>
      rw [hmove] at hone
      cases result with
      | error e =>
        rw [disk_execute_of_error hmove]
        exact ⟨rest, hone⟩
      | ok step =>
        rw [disk_execute_of_ok hmove]
        exact execute_keeps root hstep hone

theorem isTree_execute (root : Path) {plans : List Planned} {d : Disk} (hd : d.IsTree)
    (hplans : ∀ p ∈ plans, IsName p.fileName) : (execute root plans d).2.IsTree := by
  have hstep : ∀ p rest last, ((∀ q ∈ p :: rest, IsName q.fileName) ∧ last.IsTree) →
      (∀ q ∈ rest, IsName q.fileName) ∧ (moveOne root p last).2.IsTree :=
    fun p rest last ⟨hnames, hlast⟩ => ⟨fun q hq => hnames q (List.mem_cons_of_mem _ hq),
      isTree_moveOne hlast root (hnames p (by simp))⟩
  obtain ⟨left, -, hkept⟩ := execute_keeps root
    (I := fun plans last => (∀ q ∈ plans, IsName q.fileName) ∧ last.IsTree) hstep ⟨hplans, hd⟩
  exact hkept

/-- The bytes that there are more of after a phase: those of each step that records a move. -/
inductive Gained (root : Path) : List Planned → Disk → Multiset ByteArray → Prop
  | nil {d : Disk} : Gained root [] d 0
  | ended {p : Planned} {rest : List Planned} {d mid : Disk} {e : RunError}
      (h : moveOne root p d = (.error e, mid)) : Gained root (p :: rest) d 0
  | unmoved {p : Planned} {rest : List Planned} {d mid : Disk} {step : Step}
      {gained : Multiset ByteArray} (h : moveOne root p d = (.ok step, mid))
      (hstep : ∀ file, step ≠ .moved file) (hrest : Gained root rest mid gained) :
      Gained root (p :: rest) d gained
  | moved {p : Planned} {rest : List Planned} {d mid : Disk} {file : Reference.Moved} {old new : Location}
      {more gained : Multiset ByteArray} (h : moveOne root p d = (.ok (.moved file), mid))
      (hmoved : Moved d mid p.source file.target old new more)
      (hrest : Gained root rest mid gained) : Gained root (p :: rest) d (more + gained)

/-- A phase adds what its steps add. -/
theorem gained_execute (root : Path) : ∀ {plans : List Planned} {d : Disk}, d.IsTree →
    (∀ p ∈ plans, IsName p.fileName) → ∃ gained, Gained root plans d gained ∧
      (execute root plans d).2.contents = d.contents + gained
  | [], d, _, _ => ⟨0, .nil, (add_zero _).symm⟩
  | p :: rest, d, hd, hplans => by
    have hmid := isTree_moveOne hd root (hplans p (by simp))
    have hrest : ∀ q ∈ rest, IsName q.fileName := fun q hq => hplans q (List.mem_cons_of_mem _ hq)
    cases hone : moveOne root p d with
    | mk result mid =>
      rw [hone] at hmid
      obtain ⟨hmoved, hgrown⟩ := moved_or_grown_of_moveOne hd (hplans p (by simp)) hone
      cases result with
      | error e =>
        refine ⟨0, .ended hone, ?_⟩
        rw [disk_execute_of_error hone, add_zero, (hgrown (by simp)).contents]
      | ok step =>
        obtain ⟨gained, hgained, hcontents⟩ := gained_execute root hmid hrest
        rw [disk_execute_of_ok hone, hcontents]
        by_cases hstep : ∃ file, step = .moved file
        · obtain ⟨file, rfl⟩ := hstep
          obtain ⟨old, new, more, hmove⟩ := hmoved file rfl
          exact ⟨more + gained, .moved hone hmove hgained, by rw [hmove.contents, add_assoc]⟩
        · rw [not_exists] at hstep
          refine ⟨gained, .unmoved hone hstep hgained, ?_⟩
          rw [(hgrown fun file h => hstep file (Except.ok.inj h)).contents]

/-- No step of the move phase overwrites anything, whatever moved before it: a step that records
a move finds nothing at the destination and leaves every other entry where it is, and every other
step leaves all entries where they are. So no file loses its bytes in the whole phase, and what there
is more of has come with links that were moved to another volume. -/
theorem execute_overwrites_nothing {d : Disk} (hd : d.IsTree) (root : Path)
    {plans : List Planned} (hplans : ∀ p ∈ plans, IsName p.fileName) :
    (∀ done p rest r here result after, plans = done ++ p :: rest →
      execute root done d = (.ok r, here) → moveOne root p here = (result, after) →
        (∀ file, result = .ok (.moved file) →
          ∃ old new gained, Moved here after p.source file.target old new gained) ∧
        ((∀ file, result ≠ .ok (.moved file)) → here.Grown after)) ∧
    ∃ gained, Gained root plans d gained ∧
      (execute root plans d).2.contents = d.contents + gained := by
  refine ⟨?_, gained_execute root hd hplans⟩
  rintro done p rest r here result after rfl hdone hone
  have hhere : here.IsTree := by
    have hnames : ∀ q ∈ done, IsName q.fileName := fun q hq => hplans q (List.mem_append_left _ hq)
    have htree := isTree_execute root hd hnames
    rwa [hdone] at htree
  exact moved_or_grown_of_moveOne hhere (hplans p (by simp)) hone

/-- A disk where a file is to be moved to another volume, and its name is taken in the folder
there. -/
def collidingDisk : Disk where
  entries := [(["site"], .dir 0o755), (["a.css", "site"], .file 0o644 "new".toUTF8),
    (["css", "site"], .dir 0o755), (["a.css", "css", "site"], .file 0o644 "old".toUTF8)]
  mounts := [["css", "site"]]

/-- The plan for the file that collides. -/
def collidingPlan : Planned := ⟨⟨"/site/a.css"⟩, "a.css", .css⟩

/-- The disk once the file has moved. -/
def collidedDisk : Disk :=
  (collidingDisk.put ["a-1.css", "css", "site"] (.file 0o644 "new".toUTF8)).erase ["a.css", "site"]

theorem moveOne_collidingDisk : moveOne ⟨"/site"⟩ collidingPlan collidingDisk =
    (.ok (.moved ⟨"a.css", "css/a-1.css", ⟨"/site/css/a-1.css"⟩⟩), collidedDisk) := by
  have hother : Path.same ⟨"/site/css/a-1.css"⟩ ⟨"/site/a.css"⟩ = false := by decide +kernel
  have hcopy : collidingDisk.copyFile ⟨"/site/a.css"⟩ ⟨"/site/css/a-1.css"⟩ =
      .ok (collidingDisk.put ["a-1.css", "css", "site"] (.file 0o644 "new".toUTF8)) := rfl
  have hmove : moveFile collidingDisk ⟨"/site/a.css"⟩ ⟨"/site/css/a-1.css"⟩ =
      (.ok (), collidedDisk) := moveFile_across rfl rfl rfl hcopy rfl
  have hbelow : Path.below ⟨"/site"⟩ ⟨"/site/css/a-1.css"⟩ = "css/a-1.css" := by decide +kernel
  rw [← hbelow]
  exact moveOne_eq_moved rfl hother hmove

/-- The file goes to the next candidate, and the file whose name it has stays. -/
theorem execute_overwrites_nothing_on_collision :
    collidingDisk.IsTree ∧ (∀ p ∈ [collidingPlan], IsName p.fileName) ∧
    (∃ old new gained, Moved collidingDisk collidedDisk collidingPlan.source
      ⟨"/site/css/a-1.css"⟩ old new gained) ∧
    ∃ gained, Gained ⟨"/site"⟩ [collidingPlan] collidingDisk gained ∧
      (execute ⟨"/site"⟩ [collidingPlan] collidingDisk).2.contents =
        collidingDisk.contents + gained := by
  have hd : collidingDisk.IsTree := by decide +kernel
  have hplans : ∀ p ∈ [collidingPlan], IsName p.fileName := by decide
  obtain ⟨hsteps, hcontents⟩ := execute_overwrites_nothing hd ⟨"/site"⟩ hplans
  have hone := hsteps [] collidingPlan [] {} _ _ _ rfl rfl moveOne_collidingDisk
  exact ⟨hd, hplans, hone.1 _ rfl, hcontents⟩

/-- A disk with a second volume, on which a link stands beside the file that it leads to. -/
def linkedDisk : Disk where
  entries := [(["site"], .dir 0o755), (["css", "site"], .dir 0o755), (["shm"], .dir 0o755),
    (["real.css", "shm"], .file 0o644 "body".toUTF8), (["l.css", "shm"], .link "real.css")]
  mounts := [["shm"]]

/-- The plan for the link. -/
def linkPlan : Planned := ⟨⟨"/shm/l.css"⟩, "l.css", .css⟩

/-- The disk once the link has moved. -/
def followedDisk : Disk :=
  (linkedDisk.put ["l.css", "css", "site"] (.file 0o644 "body".toUTF8)).erase
    ["l.css", "shm"]

theorem moveFile_linkedDisk :
    moveFile linkedDisk ⟨"/shm/l.css"⟩ ⟨"/site/css/l.css"⟩ = (.ok (), followedDisk) := by
  have hcopy : linkedDisk.copyFile ⟨"/shm/l.css"⟩ ⟨"/site/css/l.css"⟩ =
      .ok (linkedDisk.put ["l.css", "css", "site"] (.file 0o644 "body".toUTF8)) := rfl
  exact moveFile_across rfl rfl rfl hcopy rfl

theorem moveOne_linkedDisk : moveOne ⟨"/site"⟩ linkPlan linkedDisk =
    (.ok (.moved ⟨"l.css", "css/l.css", ⟨"/site/css/l.css"⟩⟩), followedDisk) := by
  have hother : Path.same ⟨"/site/css/l.css"⟩ ⟨"/shm/l.css"⟩ = false := by decide +kernel
  have hbelow : Path.below ⟨"/site"⟩ ⟨"/site/css/l.css"⟩ = "css/l.css" := by decide +kernel
  rw [← hbelow]
  exact moveOne_eq_moved rfl hother moveFile_linkedDisk

/-- A link that is moved to another volume is followed, so there is one file more than before. -/
theorem execute_copies_link : linkedDisk.IsTree ∧ (∀ p ∈ [linkPlan], IsName p.fileName) ∧
    execute ⟨"/site"⟩ [linkPlan] linkedDisk =
      (.ok ⟨[⟨"l.css", "css/l.css", ⟨"/site/css/l.css"⟩⟩], []⟩, followedDisk) ∧
    linkedDisk.get? ["l.css", "shm"] = some (.link "real.css") ∧
    followedDisk.get? ["l.css", "css", "site"] = some (.file 0o644 "body".toUTF8) ∧
    followedDisk.contents ≠ linkedDisk.contents := by
  have hexec : execute ⟨"/site"⟩ [linkPlan] linkedDisk =
      (.ok ⟨[⟨"l.css", "css/l.css", ⟨"/site/css/l.css"⟩⟩], []⟩, followedDisk) := by
    simp only [execute, moveOne_linkedDisk]
    rfl
  refine ⟨by decide +kernel, by decide, hexec, rfl, rfl, fun hcontents => ?_⟩
  have hcard := congrArg Multiset.card hcontents
  simp [contents, followedDisk, linkedDisk, Disk.erase, Disk.put,
    Entry.contents] at hcard

end SiteFolders.Move
