import SiteFolders.Proofs.Move.Kept
import SiteFolders.Proofs.Path.Descent

/-!
# Where the move phase writes

A step takes a planned file to where the path of its folder leads to. That is the folder itself, or
the folder is a link, and then the file goes to wherever the link leads. Nothing else comes to a new
place but new folders, so all that a move phase brings out of the root are planned files, through
linked folders (`brought_execute`).
-/

namespace SiteFolders.Move

open Disk

/-- The folder of a category is a link, and the path of the folder leads to this directory. -/
structure LinkedFolder (d last : Disk) (home : Location) (c : Category) (dir : Location) : Prop where
  isLink : ∃ target, d.get? (c.folder :: home) = some (.link target)
  leads : ∃ mode, last.locate true ((Path.ofLocation home).join c.folder) = .ok (dir, .dir mode)

/-- A regular file of the root has come to a place in a folder, or to where a linked folder leads. -/
def BroughtTo (d last : Disk) (home loc : Location) (e : Entry) : Prop :=
  ∃ (n : String) (k : Nat) (c : Category) (dir : Location), loc = candidate n k :: dir ∧
    d.get? (n :: home) = some e ∧ e.isFile = true ∧
      (dir = c.folder :: home ∨ LinkedFolder d last home c dir)

/-- What a move phase has done so far: directories and links are where they were, and what is at
a new place is a folder of the root or a file that came from there. -/
structure Brought (home : Location) (d last : Disk) : Prop where
  isTree : last.IsTree
  keeps : d.Keeps last
  origin : ∀ loc e, last.get? loc = some e → d.get? loc = some e ∨
    (∃ c : Category, loc = c.folder :: home ∧ e = .dir newDirMode) ∨ BroughtTo d last home loc e

/-- Where a linked folder has led, it leads as long as directories and links stay. -/
theorem LinkedFolder.keeps {d last last' : Disk} {home : Location} {c : Category} {dir : Location}
    (h : LinkedFolder d last home c dir) (hkeeps : last.Keeps last') :
    LinkedFolder d last' home c dir := by
  rcases h.leads with ⟨mode, hmode⟩
  have hcheck := (resolve_eq_ok_iff.1 (locate_eq_ok_iff.1 hmode).1).1
  exact ⟨h.isLink, ((rootAt_of_locate hmode).keeps hkeeps).locate hcheck⟩

theorem BroughtTo.keeps {d last last' : Disk} {home loc : Location} {e : Entry}
    (h : BroughtTo d last home loc e) (hkeeps : last.Keeps last') : BroughtTo d last' home loc e := by
  rcases h with ⟨n, k, c, dir, hloc, he, hfile, hdir⟩
  exact ⟨n, k, c, dir, hloc, he, hfile, hdir.imp_right fun hlinked => hlinked.keeps hkeeps⟩

namespace Brought

variable {home : Location} {d d' : Disk}

theorem refl (home : Location) (hd : d.IsTree) : Brought home d d :=
  ⟨hd, .refl d, fun _ _ he => Or.inl he⟩

theorem isHome (h : Brought home d d') (hhome : IsHome d home) : IsHome d' home :=
  hhome.keeps h.keeps

/-- Making the folder for a file. -/
theorem made (h : Brought home d d') (hhome : IsHome d home) (p : Planned) :
    Brought home d (madeFor (Path.ofLocation home) p d') := by
  have hgrown := grown_madeFor (Path.ofLocation home) p d'
  refine ⟨hgrown.isTree h.isTree, h.keeps.trans hgrown.keeps, fun loc e he => ?_⟩
  rcases ((h.isHome hhome).rootAt h.isTree).of_madeFor he with hold | ⟨-, hloc, hdir⟩
  · rcases h.origin loc e hold with hbefore | hfolder | hbrought
    · exact Or.inl hbefore
    · exact Or.inr (Or.inl hfolder)
    · exact Or.inr (Or.inr (hbrought.keeps hgrown.keeps))
  · exact Or.inr (Or.inl ⟨p.category, hloc, hdir⟩)

/-- A link that is there now was there before. -/
theorem of_link (h : Brought home d d') {loc : Location} {target : String}
    (hlink : d'.get? loc = some (.link target)) : d.get? loc = some (.link target) := by
  rcases h.origin loc _ hlink with hbefore | ⟨c, -, hdir⟩ | ⟨n, k, c, dir, -, -, hfile, -⟩
  · exact hbefore
  · simp at hdir
  · simp [Entry.isFile] at hfile

/-- Where a folder is no directory of its own it is a link, which was there before. -/
theorem linkedFolder (h : Brought home d d') {c : Category} {dir : Location}
    (hcheck : checkPath ((Path.ofLocation home).join c.folder) = .ok ())
    (hfolder : RootAt d' ((Path.ofLocation home).join c.folder) dir)
    (hdir : (∀ e, d'.get? (c.folder :: home) = some e → e.isLink = false) → dir = c.folder :: home) :
    dir = c.folder :: home ∨ LinkedFolder d d' home c dir := by
  by_cases hplain : ∀ e, d'.get? (c.folder :: home) = some e → e.isLink = false
  · exact Or.inl (hdir hplain)
  · simp only [not_forall] at hplain
    obtain ⟨link, hget, hislink⟩ := hplain
    obtain ⟨target, rfl⟩ : ∃ target, link = .link target := by
      cases link <;> simp_all [Entry.isLink]
    exact Or.inr ⟨⟨target, h.of_link hget⟩, hfolder.locate hcheck⟩

/-- Taking a planned file to where the path of its folder leads to. -/
theorem relocated (h : Brought home d d') {p : Planned} (hp : PlannedIn d home p)
    (hsame : d'.get? (p.fileName :: home) = d.get? (p.fileName :: home)) {after : Disk} {k : Nat}
    {dir : Location} (htaken : TakenTo (Path.ofLocation home) home p d' after k dir) :
    Brought home d after := by
  obtain ⟨e, he, hfile⟩ := (Option.any_eq_true _ _).1 hp.isFile
  have he' := hsame.trans he
  have hreloc := htaken.relocated
  have hkeeps := hreloc.keeps h.isTree he' hfile
  have hcheck := htaken.checked (isName_candidate hp.isName k)
  have hlinked := h.linkedFolder hcheck htaken.folder htaken.eq_of_plain
  have hbrought : BroughtTo d after home (candidate p.fileName k :: dir) e :=
    ⟨p.fileName, k, p.category, dir, rfl, he, hfile, hlinked.imp_right fun h => h.keeps hkeeps⟩
  refine ⟨hreloc.isTree h.isTree, h.keeps.trans hkeeps, fun loc f hf => ?_⟩
  rw [hreloc.get?_eq h.isTree he' hfile] at hf
  split at hf
  · next hnew =>
    obtain rfl := Option.some.inj hf
    rw [hnew]
    exact Or.inr (Or.inr hbrought)
  · split at hf
    · simp at hf
    · rcases h.origin loc f hf with hbefore | hnew | hother
      · exact Or.inl hbefore
      · exact Or.inr (Or.inl hnew)
      · exact Or.inr (Or.inr (hother.keeps hkeeps))

/-- A step takes its own file, and leaves the other planned files where they are. -/
theorem moveOne (h : Brought home d d') (hhome : IsHome d home) {p : Planned}
    (hp : PlannedIn d home p)
    (hsame : d'.get? (p.fileName :: home) = d.get? (p.fileName :: home)) :
    Brought home d (moveOne (Path.ofLocation home) p d').2 ∧ ∀ n e, n ≠ p.fileName →
      d'.get? (n :: home) = some e → (moveOne (Path.ofLocation home) p d').2.get? (n :: home) = some e := by
  have hgrown := grown_madeFor (Path.ofLocation home) p d'
  have hmade := h.made hhome p
  have hroot := (h.isHome hhome).rootAt h.isTree
  have hplace : PlannedAt d' (Path.ofLocation home) home p :=
    ⟨hp.source, hp.isName, by rw [hsame]; exact hp.isFile⟩
  rcases disk_moveOne_cases h.isTree hroot hplace with hafter | ⟨k, dir, htaken⟩
  · rw [hafter]
    exact ⟨hmade, fun n e _ he => hgrown.kept _ e he⟩
  · obtain ⟨f, hf, hfile⟩ := (Option.any_eq_true _ _).1 hp.isFile
    have hf' := hgrown.kept _ f (hsame.trans hf)
    refine ⟨hmade.relocated hp (hf'.trans hf.symm) htaken, fun n e hne he => ?_⟩
    exact htaken.relocated.kept hmade.isTree hf' hfile (hgrown.kept _ e he)
      fun heq => hne (List.cons.inj heq).1

end Brought

/-- A phase is under way: what has been brought so far, and the files that are still to be moved are
where they were. -/
structure Bringing (home : Location) (d : Disk) (plans : List Planned) (d' : Disk) : Prop where
  brought : Brought home d d'
  planned : ∀ p ∈ plans, PlannedIn d home p
  nodup : (plans.map Planned.fileName).Nodup
  same : ∀ p ∈ plans, d'.get? (p.fileName :: home) = d.get? (p.fileName :: home)

theorem Bringing.moveOne {home : Location} {d d' : Disk} (hhome : IsHome d home) {p : Planned}
    {rest : List Planned} (h : Bringing home d (p :: rest) d') :
    Bringing home d rest (moveOne (Path.ofLocation home) p d').2 := by
  obtain ⟨hnot, hnodup⟩ := List.nodup_cons.1 h.nodup
  have hplans : ∀ q ∈ rest, PlannedIn d home q := fun q hq => h.planned q (List.mem_cons_of_mem _ hq)
  obtain ⟨hone, hothers⟩ := h.brought.moveOne hhome (h.planned p (by simp)) (h.same p (by simp))
  refine ⟨hone, hplans, hnodup, fun q hq => ?_⟩
  obtain ⟨e, he, -⟩ := (Option.any_eq_true _ _).1 (hplans q hq).isFile
  have hne : q.fileName ≠ p.fileName := fun heq => hnot (heq ▸ List.mem_map_of_mem hq)
  rw [he]
  exact hothers _ e hne ((h.same q (List.mem_cons_of_mem _ hq)).trans he)

/-- A move phase brings planned files to places in their folders, or to where linked folders lead. -/
theorem brought_execute {home : Location} {d : Disk} (hhome : IsHome d home) {plans : List Planned}
    {d' : Disk} (h : Bringing home d plans d') :
    Brought home d (execute (Path.ofLocation home) plans d').2 := by
  obtain ⟨left, hleft⟩ := execute_keeps (Path.ofLocation home) (I := Bringing home d)
    (fun _ _ _ h => h.moveOne hhome) h
  exact hleft.brought

end SiteFolders.Move
