import SiteFolders.Proofs.Disk.Rewriting
import SiteFolders.Proofs.Listing.Glob
import SiteFolders.Proofs.Listing.Walk
import SiteFolders.Run

/-!
# What a listing holds

Either way to list a directory names regular files below it by their places, and none of them twice
(`lists_of_list`). This holds whether there are links or not: a walk does not follow them, and what
matches through one is dropped.
-/

namespace SiteFolders.Listing

open Disk Move

/-- The paths are those of different places below a directory, which hold regular files. -/
def Lists (d : Disk) (home : Location) (ps : List Path) : Prop :=
  ∃ locs : List Location, ps = locs.map Path.ofLocation ∧ locs.Nodup ∧
    ∀ loc ∈ locs, home <:+ loc ∧ (d.get? loc).any Entry.isFile = true

namespace Lists

variable {d : Disk} {home : Location} {ps : List Path}

theorem exists_place (h : Lists d home ps) {p : Path} (hp : p ∈ ps) :
    ∃ loc e, p = Path.ofLocation loc ∧ home <:+ loc ∧ d.get? loc = some e ∧ e.isFile = true := by
  obtain ⟨locs, rfl, -, hlocs⟩ := h
  obtain ⟨loc, hloc, rfl⟩ := List.mem_map.1 hp
  obtain ⟨hbelow, hfile⟩ := hlocs loc hloc
  obtain ⟨e, he, hfile⟩ := (Option.any_eq_true _ _).1 hfile
  exact ⟨loc, e, rfl, hbelow, he, hfile⟩

theorem unaliased (hd : d.IsTree) (h : Lists d home ps) : d.Unaliased ps := by
  obtain ⟨locs, rfl, hnodup, hlocs⟩ := h
  refine unaliased_ofLocation hd hnodup fun loc hloc => ?_
  obtain ⟨e, he, hfile⟩ := (Option.any_eq_true _ _).1 (hlocs loc hloc).2
  exact ⟨e, he, isLink_of_isFile hfile⟩

/-- A listed path leads to its own place. -/
theorem eq_ofLocation (hd : d.IsTree) (h : Lists d home ps) {p : Path} (hp : p ∈ ps)
    {loc : Location} (hloc : d.location? p = some loc) : p = Path.ofLocation loc ∧ home <:+ loc := by
  obtain ⟨place, e, rfl, hbelow, he, hfile⟩ := h.exists_place hp
  obtain rfl := eq_of_location?_ofLocation hd he (isLink_of_isFile hfile) hloc
  exact ⟨rfl, hbelow⟩

/-- Different paths that go down from the directory to regular files. -/
theorem of_descend (hd : d.IsTree) (hnodup : ps.Nodup)
    (h : ∀ p ∈ ps, ∃ below, p = (Path.ofLocation home).descend below ∧
      (d.get? (below ++ home)).any Entry.isFile = true) : Lists d home ps := by
  induction ps with
  | nil => exact ⟨[], rfl, .nil, by simp⟩
  | cons p ps ih =>
    rcases List.nodup_cons.1 hnodup with ⟨hp, hps⟩
    rcases ih hps fun q hq => h q (List.mem_cons_of_mem p hq) with ⟨locs, rfl, hlocs, hbelow⟩
    rcases h p (by simp) with ⟨below, rfl, hfile⟩
    have hnames := hd.isName_of_mem (Option.isSome_of_any hfile)
    rw [← Path.ofLocation_append hnames] at hp ⊢
    refine ⟨(below ++ home) :: locs, rfl, ?_, ?_⟩
    · refine List.nodup_cons.2 ⟨fun hmem => hp (List.mem_map_of_mem hmem), hlocs⟩
    · intro loc hloc
      rcases List.mem_cons.1 hloc with rfl | hloc
      · exact ⟨List.suffix_append below home, hfile⟩
      · exact hbelow loc hloc

end Lists

/-- A directory that is listed can be read. -/
theorem exists_readDir_of_list {d : Disk} {lister : Lister} {skipped : List String} {root : Path}
    {mode : Nat} (hstat : ∀ e, d.lstat root = .ok e → e = .dir mode) {listing : Listing}
    (h : lister.list skipped d root = .ok listing) : ∃ entries, d.readDir root = .ok entries := by
  cases hread : d.readDir root with
  | ok entries => exact ⟨entries, rfl⟩
  | error e =>
    cases lister with
    | glob => simp [Lister.list, glob, hread] at h
    | walk =>
      cases hlstat : d.lstat root with
      | error e => simp [Lister.list, walk, hlstat] at h
      | ok found =>
        rw [hstat found hlstat] at hlstat
        simp [Lister.list, walk, hread, hlstat] at h

/-- Either listing of a directory names regular files below it, none of them twice and none in a
directory of a skipped name. -/
theorem listable_of_list {d : Disk} (hd : d.IsTree) (lister : Lister) (skipped : List String)
    {home : Location} {mode : Nat} (hhome : d.get? home = some (.dir mode)) {listing : Listing}
    (h : lister.list skipped d (Path.ofLocation home) = .ok listing) :
    listing.files.Nodup ∧ ∀ p ∈ listing.files, ∃ below,
      p = (Path.ofLocation home).descend below ∧ Listable d skipped home below := by
  have hlocate := fun follow x => @locate_ofLocation_iff d hd home _ hhome rfl follow x
  have hstat : ∀ e, d.lstat (Path.ofLocation home) = .ok e → e = .dir mode := by
    intro e he
    obtain ⟨loc, hloc⟩ := lstat_eq_ok_iff.1 he
    exact (Prod.mk.inj ((hlocate false _).1 hloc).2.2).2
  rcases exists_readDir_of_list hstat h with ⟨entries, hread⟩
  have hroot : d.locate true (Path.ofLocation home) = .ok (home, .dir mode) := by
    rcases readDir_eq_ok_iff.1 hread with ⟨loc, mode', hloc, -⟩
    rw [hloc, ((hlocate true _).1 hloc).2.2]
  cases lister with
  | walk =>
    rcases walk_spec hd skipped hroot hread with ⟨walked, hwalk, hnodup, hwalked, -⟩
    obtain rfl := Except.ok.inj (hwalk.symm.trans h)
    refine ⟨hnodup, fun p hp => ?_⟩
    rcases hwalked.files p hp with ⟨n, dirs, hpath, hfile, hkept, -⟩
    rw [List.append_nil] at hpath hfile
    exact ⟨n :: dirs, hpath, hfile, hkept⟩
  | glob =>
    refine ⟨nodup_files_glob hd hread h, fun p hp => ?_⟩
    rcases of_mem_files_glob hd hroot hread h hp with ⟨below, hpath, hnames, -, hkept, hfile, -⟩
    -- the path of a location is joined anew to itself
    rw [matchedRoot_ofLocation (hd.isName_of_mem (by simp [hhome] : (d.get? home).isSome))] at hpath
    refine ⟨below, hpath, hfile, fun s hs hmem => hkept (isDropped_inside hnames hmem hs)⟩

theorem lists_of_list {d : Disk} (hd : d.IsTree) (lister : Lister) (skipped : List String)
    {home : Location} {mode : Nat} (hhome : d.get? home = some (.dir mode)) {listing : Listing}
    (h : lister.list skipped d (Path.ofLocation home) = .ok listing) :
    Lists d home listing.files := by
  obtain ⟨hnodup, hfiles⟩ := listable_of_list hd lister skipped hhome h
  refine .of_descend hd hnodup fun p hp => ?_
  obtain ⟨below, hpath, hlistable⟩ := hfiles p hp
  exact ⟨below, hpath, hlistable.isFile⟩

/-- A listed file lies in no directory of a skipped name. -/
theorem not_skipped_of_list {d : Disk} (hd : d.IsTree) (lister : Lister) (skipped : List String)
    {home : Location} {mode : Nat} (hhome : d.get? home = some (.dir mode)) {listing : Listing}
    (h : lister.list skipped d (Path.ofLocation home) = .ok listing) (below : Location)
    (hnames : ∀ n ∈ below ++ home, IsName n)
    (hlisted : Path.ofLocation (below ++ home) ∈ listing.files) : ∀ s ∈ below.tail, s ∉ skipped := by
  obtain ⟨below', hpath, hlistable⟩ := (listable_of_list hd lister skipped hhome h).2 _ hlisted
  have hnames' := hd.isName_of_mem (Option.isSome_of_any hlistable.isFile)
  rw [← Path.ofLocation_append hnames'] at hpath
  obtain rfl := List.append_cancel_right (Path.ofLocation_inj hnames hnames' hpath)
  exact hlistable.kept

end SiteFolders.Listing
