import SiteFolders.Proofs.Disk.Changes

/-!
# Where an entry goes

An entry that is moved is renamed on its volume, or it is copied to another volume and taken away
(`Relocated`). A regular file comes to its new place as it is in both cases. A link is followed by
the copy, so on another volume there is a regular file with the bytes of what the link led to. What
has come is said once for both cases (`Relocated.arrived`), together with the bytes that there are
more of than before, and so is what has stayed.
-/

namespace SiteFolders.Move

open Disk

/-- What stands for an entry where it has been copied to. -/
inductive CopyOf (d : Disk) (source : Path) : Entry → Entry → Prop
  | file (mode : Nat) (bytes : ByteArray) : CopyOf d source (.file mode bytes) (.file mode bytes)
  | link {target : String} {loc : Location} {mode : Nat} {bytes : ByteArray}
      (hloc : d.locate true source = .ok (loc, .file mode bytes)) :
      CopyOf d source (.link target) (.file mode bytes)

/-- How the entry at `old` comes to `new`. -/
inductive Carry (d : Disk) (source : Path) (old new : Location) : Disk → Prop
  | renamed (hsame : d.volume old.tail = d.volume new.tail) :
      Carry d source old new (d.moveTree old new)
  | copied {e copy : Entry} (he : d.get? old = some e) (hcopy : CopyOf d source e copy)
      (hmount : d.isMount old = false) (hcrosses : d.volume old.tail ≠ d.volume new.tail) :
      Carry d source old new ((d.put new copy).erase old)

/-- The entry at `source` has gone to `target`, and nothing else has happened. -/
structure Relocated (d after : Disk) (source target : Path) (old new : Location) : Prop where
  canMove : d.CanMove old new
  carry : Carry d source old new after
  /-- Only a directory is named with a slash after it. -/
  slash : ∀ e, d.get? old = some e → e.isDir = false →
    endsInSlash source = false ∧ endsInSlash target = false
  source : d.LeadsTo source old
  target : d.LeadsTo target new

/-! ## What has come -/

/-- The entry at `old` has gone to `new`, with all that lies below it, and everything else has
stayed. -/
structure Carried (d after : Disk) (old new : Location) : Prop where
  arrived : ∀ below, after.get? (below ++ new) = d.get? (below ++ old)
  gone : ∀ below, after.get? (below ++ old) = none
  elsewhere : ∀ loc, ¬ old <:+ loc → ¬ new <:+ loc → after.get? loc = d.get? loc

/-- The link at `old` is gone, at `new` on another volume there is a regular file with the bytes of
the one that the link led to, and everything else has stayed. -/
structure Followed (d after : Disk) (source : Path) (old new : Location) (bytes : ByteArray) :
    Prop where
  link : ∃ target, d.get? old = some (.link target)
  crosses : d.volume old.tail ≠ d.volume new.tail
  copy : ∃ loc mode, d.locate true source = .ok (loc, .file mode bytes) ∧
    after.get? new = some (.file mode bytes)
  gone : after.get? old = none
  elsewhere : ∀ loc, loc ≠ old → loc ≠ new → after.get? loc = d.get? loc

/-- What has come to `new` for the entry at `old`, and the bytes that there are more of than
before. -/
inductive Arrived (d after : Disk) (source : Path) (old new : Location) :
    Multiset ByteArray → Prop
  | itself (hkind : d.volume old.tail = d.volume new.tail ∨ (d.get? old).any Entry.isFile = true)
      (hcarried : Carried d after old new) : Arrived d after source old new 0
  | copy {bytes : ByteArray} (hfollowed : Followed d after source old new bytes) :
      Arrived d after source old new {bytes}

theorem carried_moveTree {d : Disk} (hd : d.IsTree) {old new : Location} (hcan : d.CanMove old new) :
    Carried d (d.moveTree old new) old new :=
  ⟨hcan.get?_below_new hd, hcan.get?_below_old hd, fun _ => hcan.get?_elsewhere⟩

/-- A leaf has nothing below it, so it is carried if it is put at the new place and taken away at the
old one. -/
theorem carried_erase_put {d : Disk} (hd : d.IsTree) {old new : Location} (hcan : d.CanMove old new)
    {e : Entry} (he : d.get? old = some e) (hleaf : e.isDir = false) :
    Carried d ((d.put new e).erase old) old new := by
  have hget := hcan.get?_moveTree hd he hleaf
  have hmoved := carried_moveTree hd hcan
  constructor
  · intro below
    rw [hcan.get?_erase_put, ← hget, hmoved.arrived]
  · intro below
    rw [hcan.get?_erase_put, ← hget, hmoved.gone]
  · intro loc hold hnew
    rw [hcan.get?_erase_put, ← hget, hmoved.elsewhere loc hold hnew]

theorem CopyOf.isDir {d : Disk} {source : Path} {e copy : Entry} (h : CopyOf d source e copy) :
    e.isDir = false := by
  cases h <;> rfl

namespace Relocated

variable {d after : Disk} {source target : Path} {old new : Location}
  (h : Relocated d after source target old new)
include h

theorem privileged : after.privileged = d.privileged := by
  cases h.carry <;> rfl

theorem workingDirectory : after.workingDirectory = d.workingDirectory := by
  cases h.carry <;> rfl

variable (hd : d.IsTree)
include hd

theorem isTree : after.IsTree := by
  cases h.carry with
  | renamed => exact h.canMove.isTree_moveTree hd
  | copied he hcopy hmount => exact h.canMove.isTree_erase_put hd he hcopy.isDir hmount _

/-- What has come is the entry, or a copy of what a link led to, and its bytes are those that there
are more of. -/
theorem arrived : ∃ gained, Arrived d after source old new gained ∧
    after.contents = d.contents + gained := by
  have hcan := h.canMove
  cases h.carry with
  | renamed hsame =>
    refine ⟨0, .itself (.inl hsame) (carried_moveTree hd hcan), ?_⟩
    rw [hcan.contents_moveTree, add_zero]
  | copied he hcopy hmount hcrosses =>
    have hbytes := hcan.contents_erase_put hd he
    cases hcopy with
    | file mode bytes =>
      refine ⟨0, .itself (.inr (by simp [he, Entry.isFile])) (carried_erase_put hd hcan he rfl), ?_⟩
      rw [add_zero]
      exact add_left_cancel (hbytes _)
    | @link link loc mode bytes hloc =>
      have hget := hcan.get?_erase_put (.file mode bytes)
      refine ⟨{bytes}, .copy ⟨⟨link, he⟩, hcrosses, ⟨loc, mode, hloc, ?_⟩, ?_, ?_⟩, ?_⟩
      · rw [hget, if_pos rfl]
      · rw [hget, if_neg hcan.ne, if_pos rfl]
      · intro other hold hnew
        rw [hget, if_neg hnew, if_neg hold]
      · rw [add_comm]
        exact (zero_add _).symm.trans (hbytes _)

/-- What is not moved stays where it is. -/
theorem stays {loc : Location} {e : Entry} (he : d.get? loc = some e) (hold : ¬ old <:+ loc) :
    after.get? loc = some e := by
  cases h.carry with
  | renamed => exact h.canMove.get?_kept hd he hold
  | copied =>
    have hnew : loc ≠ new := by
      rintro rfl
      simp [h.canMove.vacant] at he
    have hne : loc ≠ old := fun heq => hold (heq ▸ List.suffix_rfl)
    rw [h.canMove.get?_erase_put, if_neg hnew, if_neg hne, he]

/-- Nothing is left at the old place and below it. -/
theorem left (below : Location) : after.get? (below ++ old) = none := by
  cases h.carry with
  | renamed => exact h.canMove.get?_below_old hd below
  | copied he hcopy =>
    have hgone := (carried_erase_put hd h.canMove he hcopy.isDir).gone below
    have hnew : below ++ old ≠ new := fun heq => h.canMove.apart ⟨below, heq⟩
    rw [h.canMove.get?_erase_put, if_neg hnew] at hgone ⊢
    exact hgone

variable {e : Entry} (he : d.get? old = some e) (hfile : e.isFile = true)
include he hfile

/-- What the places hold after a regular file has been moved. -/
theorem get?_eq (loc : Location) : after.get? loc =
    if loc = new then some e else if loc = old then none else d.get? loc := by
  cases h.carry with
  | renamed => exact h.canMove.get?_moveTree hd he (isDir_of_isFile hfile) loc
  | copied hf hcopy =>
    obtain rfl := Option.some.inj (he.symm.trans hf)
    cases hcopy with
    | file => exact h.canMove.get?_erase_put _ loc
    | link => simp [Entry.isFile] at hfile

theorem kept {loc : Location} {f : Entry} (hf : d.get? loc = some f) (hne : loc ≠ old) :
    after.get? loc = some f := by
  have hnew : loc ≠ new := by
    rintro rfl
    simp [h.canMove.vacant] at hf
  rw [h.get?_eq hd he hfile, if_neg hnew, if_neg hne, hf]

/-- Moving a regular file leaves all directories and links where they are. -/
theorem keeps : d.Keeps after := by
  refine ⟨h.privileged, h.workingDirectory, fun loc f hf hnot => h.kept hd he hfile hf ?_⟩
  rintro rfl
  obtain rfl := Option.some.inj (he.symm.trans hf)
  simp [hfile] at hnot

/-- A regular file is found at its new place. -/
theorem locate : after.locate false target = .ok (new, e) := by
  have hslash := (h.slash e he (isDir_of_isFile hfile)).2
  refine ((h.keeps hd he hfile).leadsTo h.target).locate hslash ?_
  rw [h.get?_eq hd he hfile, if_pos rfl]

end Relocated

end SiteFolders.Move
