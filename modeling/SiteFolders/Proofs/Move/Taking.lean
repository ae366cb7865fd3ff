import SiteFolders.Proofs.Move.Kept

/-!
# Where the move phase takes files

In a directory without links, a step that skips nothing takes the planned file itself to a candidate
in its folder (`took_of_moveOne`). Over a whole phase every planned file has come to its new place
as it was, and every other file has stayed (`Settled`).
-/

namespace SiteFolders.Move

open Disk

/-- A regular file has gone from one place to another, and nothing else has happened but that
directories may have been made. -/
structure Took (d after : Disk) (old new : Location) : Prop where
  isTree : after.IsTree
  vacant : d.get? new = none
  arrived : after.get? new = d.get? old
  kept : ∀ loc e, d.get? loc = some e → loc ≠ old → after.get? loc = some e
  keeps : d.Keeps after
  origin : ∀ loc e, after.get? loc = some e → e.isDir = false →
    loc = new ∨ loc ≠ old ∧ d.get? loc = some e
  checked : checkPath (Path.ofLocation new) = .ok ()
  isOpen : after.Open new

namespace Took

variable {d after : Disk} {old new home : Location} (h : Took d after old new)
include h

theorem isHome (hhome : IsHome d home) : IsHome after home :=
  ⟨h.keeps.holdsDir hhome.isDir, h.keeps.isOpen hhome.isOpen, hhome.checked⟩

theorem linkFree (hfree : d.LinkFree home) {e : Entry} (he : d.get? old = some e)
    (hfile : e.isFile = true) : after.LinkFree home := by
  intro loc e' hloc he'
  cases e' with
  | file mode bytes => rfl
  | dir mode => rfl
  | link target =>
    rcases h.origin loc _ he' rfl with rfl | ⟨-, hd⟩
    · rw [h.arrived, he, Option.some.injEq] at he'
      simp [he', Entry.isFile] at hfile
    · exact hfree loc _ hloc hd

end Took

/-- The move of a regular file on a disk to which directories were added. -/
theorem took_of_relocated {d made after : Disk} (hd : d.IsTree) (hgrown : d.Grown made)
    {found target : Path} {old new : Location} {e : Entry} (he : d.get? old = some e)
    (hfile : e.isFile = true) (h : Relocated made after found target old new)
    (hchecked : checkPath (Path.ofLocation new) = .ok ()) (hopen : made.Open new) :
    Took d after old new := by
  have hmade := hgrown.isTree hd
  have he' := hgrown.kept old e he
  have hget := h.get?_eq hmade he' hfile
  have hkeeps := h.keeps hmade he' hfile
  constructor
  · exact h.isTree hmade
  · exact hgrown.vacant h.canMove.vacant
  · rw [hget, if_pos rfl, he]
  · intro loc f hf hne
    exact h.kept hmade he' hfile (hgrown.kept loc f hf) hne
  · exact hgrown.keeps.trans hkeeps
  · intro loc f hf hdir
    rw [hget] at hf
    split at hf
    · next heq => exact Or.inl heq
    · split at hf
      · simp at hf
      · next hne => exact Or.inr ⟨hne, hgrown.of_not_dir hf hdir⟩
  · exact hchecked
  · exact hkeeps.isOpen hopen

/-- What a step does that skips nothing. -/
theorem took_of_moveOne {d after : Disk} {home : Location} {p : Planned} {step : Step}
    (hd : d.IsTree) (hhome : IsHome d home) (hfree : d.LinkFree home) (hp : PlannedIn d home p)
    (h : moveOne (Path.ofLocation home) p d = (.ok step, after))
    (hskip : ∀ s, step ≠ .skipped s) :
    ∃ k relative, step = .moved ⟨p.fileName, relative,
        Path.ofLocation (candidate p.fileName k :: p.category.folder :: home)⟩ ∧
      Took d after (p.fileName :: home) (candidate p.fileName k :: p.category.folder :: home) := by
  have hgrown := grown_madeFor (Path.ofLocation home) p d
  have hhome' : IsHome (madeFor (Path.ofLocation home) p d) home :=
    ⟨hgrown.keeps.holdsDir hhome.isDir, hgrown.keeps.isOpen hhome.isOpen, hhome.checked⟩
  rcases moveOne_of_planned hd (hhome.rootAt hd) hfree hp.plannedAt h with
    ⟨cause, rfl, -⟩ | ⟨k, target, rfl, rfl, hsearch, hreloc⟩
  · exact absurd rfl (hskip _)
  · obtain ⟨e, he, hfile⟩ := (Option.any_eq_true _ _).1 hp.isFile
    have hfolder := isName_folder p.category
    have hk := isName_candidate hp.isName k
    have htarget : Path.ofLocation (candidate p.fileName k :: p.category.folder :: home) =
        ((Path.ofLocation home).join p.category.folder).join (candidate p.fileName k) := by
      have hnames : ∀ n ∈ p.category.folder :: home, IsName n := by
        intro n hn
        rcases List.mem_cons.1 hn with rfl | hn
        · exact hfolder
        · exact hhome.isName hd n hn
      rw [Path.ofLocation_cons hk hnames,
        Path.ofLocation_cons hfolder fun n hn => hhome.isName hd n hn]
    obtain ⟨dir, n, hcons, -, hreach⟩ := hreloc.target
    obtain ⟨rfl, rfl⟩ := List.cons.inj hcons
    refine ⟨k, _, by rw [htarget], took_of_relocated hd hgrown he hfile hreloc ?_ ?_⟩
    · rw [htarget]
      exact hreach.checked
    · exact open_cons.2 ⟨hreach.searchable, open_cons.2 ⟨hsearch, hhome'.isOpen⟩⟩

/-! ## The whole phase -/

/-- A recorded file has come to a place as it was, and can be found there. -/
structure ArrivedAt (d last : Disk) (home : Location) (m : Reference.Moved) (loc : Location) :
    Prop where
  target : m.target = Path.ofLocation loc
  isFile : (d.get? (m.oldName :: home)).any Entry.isFile = true
  same : last.get? loc = d.get? (m.oldName :: home)
  checked : checkPath (Path.ofLocation loc) = .ok ()
  isOpen : last.Open loc

/-- What a move phase that skips nothing has done: every planned file has come to a place in its
folder as it was, and every other file has stayed. -/
structure Settled (d last : Disk) (home : Location) (plans : List Planned)
    (moved : List Reference.Moved) : Prop where
  isTree : last.IsTree
  isHome : IsHome last home
  linkFree : last.LinkFree home
  keeps : d.Keeps last
  names : moved.map Reference.Moved.oldName = plans.map Planned.fileName
  arrived : ∀ m ∈ moved, ∃ (k : Nat) (c : Category),
    ArrivedAt d last home m (candidate m.oldName k :: c.folder :: home)
  origin : ∀ loc e, last.get? loc = some e → e.isFile = true →
    (∃ m ∈ moved, m.target = Path.ofLocation loc ∧ d.get? (m.oldName :: home) = some e) ∨
      d.get? loc = some e

/-- A step in front of a phase. -/
theorem Settled.cons {d after last : Disk} {home : Location} {p : Planned} {rest : List Planned}
    {moved : List Reference.Moved} {k : Nat} {relative : String} (hp : PlannedIn d home p)
    (htook : Took d after (p.fileName :: home)
      (candidate p.fileName k :: p.category.folder :: home))
    (hkept : Kept home after last) (h : Settled after last home rest moved) :
    Settled d last home (p :: rest) (⟨p.fileName, relative,
      Path.ofLocation (candidate p.fileName k :: p.category.folder :: home)⟩ :: moved) := by
  rcases (Option.any_eq_true _ _).1 hp.isFile with ⟨e, he, hfile⟩
  -- a file that the rest of the phase takes was there before the step, for it is not in a folder
  have hbefore : ∀ m ∈ moved, ∀ e, after.get? (m.oldName :: home) = some e → e.isFile = true →
      d.get? (m.oldName :: home) = some e := by
    intro m hm f hf hffile
    rcases htook.origin _ f hf (isDir_of_isFile hffile) with heq | ⟨-, hd⟩
    · have hlen := congrArg List.length heq
      simp at hlen
    · exact hd
  refine ⟨h.isTree, h.isHome, h.linkFree, htook.keeps.trans h.keeps, by simp [h.names],
    fun m hm => ?_, fun loc f hf hffile => ?_⟩
  · rcases List.mem_cons.1 hm with rfl | hm
    · refine ⟨k, p.category, rfl, hp.isFile, ?_, htook.checked, h.keeps.isOpen htook.isOpen⟩
      rw [he]
      refine hkept.same _ _ (htook.arrived.trans he) fun _ n heq => ?_
      have hlen := congrArg List.length heq
      simp at hlen
    · rcases h.arrived m hm with ⟨k', c, harrived⟩
      rcases (Option.any_eq_true _ _).1 harrived.isFile with ⟨f, hf, hffile⟩
      have hf' := hbefore m hm f hf hffile
      exact ⟨k', c, harrived.target, by simp [hf', hffile], by rw [harrived.same, hf, hf'],
        harrived.checked, harrived.isOpen⟩
  · rcases h.origin loc f hf hffile with ⟨m, hm, htarget, hmf⟩ | hafter
    · exact Or.inl ⟨m, by simp [hm], htarget, hbefore m hm f hmf hffile⟩
    · rcases htook.origin loc f hafter (isDir_of_isFile hffile) with rfl | ⟨-, hd⟩
      · exact Or.inl ⟨_, List.mem_cons_self, rfl, by rw [← htook.arrived, hafter]⟩
      · exact Or.inr hd

/-- What a move phase does that skips nothing. -/
theorem settled_of_execute {home : Location} : ∀ {plans : List Planned} {d last : Disk} {r : Result},
    d.IsTree → IsHome d home → d.LinkFree home → (∀ p ∈ plans, PlannedIn d home p) →
    (plans.map Planned.fileName).Nodup →
    execute (Path.ofLocation home) plans d = (.ok r, last) → r.skipped = [] →
    Settled d last home plans r.moved
  | [], d, last, r, hd, hhome, hfree, _, _, h, _ => by
    rcases Prod.mk.inj h with ⟨hr, rfl⟩
    obtain rfl := Except.ok.inj hr
    exact ⟨hd, hhome, hfree, .refl d, rfl, by simp, fun _ _ he _ => Or.inr he⟩
  | p :: rest, d, last, r, hd, hhome, hfree, hplans, hnodup, h, hskip => by
    have hp := hplans p (by simp)
    rcases List.nodup_cons.1 hnodup with ⟨hnot, hnodup⟩
    obtain ⟨step, after, r', hone, hrest, rfl⟩ := execute_cons_eq_ok_iff.1 h
    have hskip' : (∀ s, step ≠ .skipped s) ∧ r'.skipped = [] := by
      cases step <;> simp_all [Result.add]
    obtain ⟨k, relative, rfl, htook⟩ := took_of_moveOne hd hhome hfree hp hone hskip'.1
    rcases (Option.any_eq_true _ _).1 hp.isFile with ⟨e, he, hfile⟩
    have hafter := htook.isHome hhome
    -- the move takes another file, so those that are left are planned as before
    have hplans' : ∀ q ∈ rest, PlannedIn after home q := by
      intro q hq
      have hqd := hplans q (List.mem_cons_of_mem _ hq)
      rcases (Option.any_eq_true _ _).1 hqd.isFile with ⟨f, hf, hffile⟩
      have hne : q.fileName :: home ≠ p.fileName :: home := fun heq =>
        hnot ((List.cons.inj heq).1 ▸ List.mem_map_of_mem hq)
      exact ⟨hqd.source, hqd.isName, by simp [htook.kept _ _ hf hne, hffile], hqd.no_dot⟩
    have hrefl : Kept home after after := .refl htook.isTree
    have hkept := hrefl.execute htook.isTree hafter hplans'
    rw [hrest] at hkept
    exact Settled.cons hp htook hkept (settled_of_execute htook.isTree hafter
      (htook.linkFree hfree he hfile) hplans' hnodup hrest hskip'.2)

end SiteFolders.Move
