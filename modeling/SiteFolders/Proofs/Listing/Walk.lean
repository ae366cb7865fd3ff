import SiteFolders.Listing.Walk
import SiteFolders.Proofs.Listing.Below

/-!
# What a walk lists

A walk goes down into every directory that it can read and that has no skipped name, and it takes
files by the type that the directory gives for them. So each file it lists lies in a directory that
was read (`walked_listBelow`), and where it does not list a file, the first directory on the way
that could not be read is among the places that it reports (`listBelow_complete`).
-/

namespace SiteFolders.Listing

open Disk Move

/-! ## One entry -/

/-- What a walk lists for one entry of a directory. -/
def listEntry (d : Disk) (skipped : List String) (depth : Nat) (dir : Path)
    (x : String × Entry) : Listing :=
  match x.2 with
  | .file _ _ => .file (dir.join x.1)
  | .dir _ => if skipped.contains x.1 then {} else listBelow d skipped depth (dir.join x.1)
  | .link _ => {}

theorem listEntries_eq_concat (d : Disk) (skipped : List String) (depth : Nat) (dir : Path)
    (entries : List (String × Entry)) :
    listEntries d skipped depth dir entries =
      concat (entries.map (listEntry d skipped depth dir)) := by
  induction entries with
  | nil => rw [listEntries]; rfl
  | cons x rest ih =>
    rcases x with ⟨name, e⟩
    rw [List.map_cons]
    cases e with
    | file mode bytes => rw [listEntries, ih]; rfl
    | link target => rw [listEntries, ih]; rfl
    | dir mode => rw [listEntries, ih]; rfl

/-! ## What is listed is there -/

/-- What a walk of the directory at `below` lists: files in directories that were read, and
directories that could not be read, none of them skipped nor in a skipped one. -/
structure Walked (d : Disk) (skipped : List String) (root : Path) (home below : Location)
    (listing : Listing) : Prop where
  files : ∀ p ∈ listing.files, ∃ n dirs, p = root.descend (n :: (dirs ++ below)) ∧
    (d.get? (n :: (dirs ++ below) ++ home)).any Entry.isFile = true ∧ (∀ s ∈ dirs, s ∉ skipped) ∧
    ∃ entries, d.readDir (root.descend (dirs ++ below)) = .ok entries
  unreadable : ∀ s ∈ listing.unreadable, ∃ dirs e,
    s = ⟨root.descend (dirs ++ below), .walking (root.descend (dirs ++ below)) e⟩ ∧
    d.holdsDir (dirs ++ below ++ home) = true ∧ (∀ m ∈ dirs, m ∉ skipped) ∧
    d.readDir (root.descend (dirs ++ below)) = .error e

namespace Walked

variable {d : Disk} {skipped : List String} {root : Path} {home below : Location}

theorem empty : Walked d skipped root home below {} :=
  ⟨by simp, by simp⟩

theorem concat {parts : List Listing} (h : ∀ part ∈ parts, Walked d skipped root home below part) :
    Walked d skipped root home below (Listing.concat parts) := by
  constructor
  · intro p hp
    obtain ⟨part, hpart, hp⟩ := mem_files_concat.1 hp
    exact (h part hpart).files p hp
  · intro s hs
    obtain ⟨part, hpart, hs⟩ := mem_unreadable_concat.1 hs
    exact (h part hpart).unreadable s hs

/-- A walk of a directory of no skipped name is part of a walk of the directory that it is in. -/
theorem of_entry {m : String} {listing : Listing} (hm : m ∉ skipped)
    (h : Walked d skipped root home (m :: below) listing) :
    Walked d skipped root home below listing := by
  have hsplit : ∀ dirs : Location, (dirs ++ [m]) ++ below = dirs ++ m :: below := by simp
  have hkept : ∀ {dirs : Location}, (∀ s ∈ dirs, s ∉ skipped) → ∀ s ∈ dirs ++ [m], s ∉ skipped :=
    fun hdirs => List.forall_mem_append.2 ⟨hdirs, by simpa using hm⟩
  constructor
  · intro p hp
    obtain ⟨n, dirs, hpath, hfile, hdirs, hread⟩ := h.files p hp
    rw [← hsplit] at hpath hfile hread
    exact ⟨n, dirs ++ [m], hpath, hfile, hkept hdirs, hread⟩
  · intro s hs
    obtain ⟨dirs, e, heq, hdir, hdirs, hread⟩ := h.unreadable s hs
    rw [← hsplit] at heq hdir hread
    exact ⟨dirs ++ [m], e, heq, hdir, hkept hdirs, hread⟩

end Walked

section

variable {d : Disk} (hd : d.IsTree) (skipped : List String) {root : Path} {home : Location}
  {mode : Nat} (hroot : d.locate true root = .ok (home, .dir mode))
include hd hroot

/-- A walk of the entries of a directory that was read, if it goes right in the directories below. -/
theorem walked_listEntries {depth : Nat} {below : Location} {mode : Nat}
    (hmode : d.get? (below ++ home) = some (.dir mode)) {entries : List (String × Entry)}
    (hread : d.readDir (root.descend below) = .ok entries)
    (hbelow : ∀ m mode, d.get? (m :: (below ++ home)) = some (.dir mode) →
      Walked d skipped root home (m :: below)
        (listBelow d skipped depth (root.descend (m :: below)))) :
    Walked d skipped root home below
      (listEntries d skipped depth (root.descend below) entries) := by
  rw [listEntries_eq_concat]
  refine .concat fun part hpart => ?_
  rcases List.mem_map.1 hpart with ⟨⟨m, e⟩, hx, rfl⟩
  have he : d.get? (m :: (below ++ home)) = some e := (mem_readDir_iff hd hroot hmode hread).1 hx
  cases e with
  | link target => exact .empty
  | file fileMode bytes =>
    constructor
    · intro p hp
      obtain rfl : p = (root.descend below).join m := by simpa [listEntry, Listing.file] using hp
      refine ⟨m, [], rfl, ?_, by simp, entries, hread⟩
      simp only [List.nil_append, List.cons_append, he]
      rfl
    · simp [listEntry, Listing.file]
  | dir dirMode =>
    simp only [listEntry]
    split
    · exact .empty
    · next hkept => exact (hbelow m dirMode he).of_entry (by simpa using hkept)

theorem walked_listBelow (depth : Nat) : ∀ {below : Location} {mode : Nat},
    d.get? (below ++ home) = some (.dir mode) →
    Walked d skipped root home below (listBelow d skipped depth (root.descend below)) := by
  induction depth with
  | zero =>
    intro below mode _
    rw [listBelow]
    exact ⟨by simp, by simp⟩
  | succ depth ih =>
    intro below mode hmode
    rw [listBelow]
    cases hread : d.readDir (root.descend below) with
    | ok entries =>
      exact walked_listEntries hd skipped hroot hmode hread fun m mode hm => ih hm
    | error e =>
      constructor
      · simp [Listing.trouble]
      · intro s hs
        obtain rfl : s = ⟨root.descend below, .walking (root.descend below) e⟩ := by
          simpa [Listing.trouble] using hs
        exact ⟨[], e, rfl, holdsDir_iff.2 ⟨mode, hmode⟩, by simp, hread⟩

/-! ## What is there is listed -/

/-- Either the walk lists the path, or it reports a directory on the way. -/
def ListsOrReports (root : Path) (below dirs : Location) (n : String) (listing : Listing) : Prop :=
  root.descend (n :: (dirs ++ below)) ∈ listing.files ∨
    ∃ above, above <:+ dirs ∧ ∃ s ∈ listing.unreadable, s.path = root.descend (above ++ below)

omit hd hroot in
/-- What a directory lists or reports is listed or reported with the directory above it. -/
theorem ListsOrReports.of_entry {m n : String} {below dirs : Location} {listing : Listing}
    {listings : List Listing} (hmem : listing ∈ listings)
    (h : ListsOrReports root (m :: below) dirs n listing) :
    ListsOrReports root below (dirs ++ [m]) n (concat listings) := by
  have hsplit : ∀ names : Location, (names ++ [m]) ++ below = names ++ m :: below := by simp
  rcases h with hlisted | ⟨above, habove, s, hs, hpath⟩
  · left
    rw [hsplit]
    exact mem_files_concat.2 ⟨_, hmem, hlisted⟩
  · right
    refine ⟨above ++ [m], ?_, s, mem_unreadable_concat.2 ⟨_, hmem, hs⟩, ?_⟩
    · rcases habove with ⟨more, rfl⟩
      exact ⟨more, by simp⟩
    · rw [hpath, hsplit]

theorem listEntries_complete {depth : Nat} {below : Location} {mode : Nat}
    (hmode : d.get? (below ++ home) = some (.dir mode)) {entries : List (String × Entry)}
    (hread : d.readDir (root.descend below) = .ok entries)
    (hbelow : ∀ (m n : String) (dirs : Location), dirs.length < depth →
      (d.get? (n :: (dirs ++ m :: below) ++ home)).any Entry.isFile = true →
      (∀ s ∈ dirs, s ∉ skipped) →
      ListsOrReports root (m :: below) dirs n
        (listBelow d skipped depth (root.descend (m :: below))))
    {n : String} {dirs : Location} (hdepth : dirs.length ≤ depth)
    (hfile : (d.get? (n :: (dirs ++ below) ++ home)).any Entry.isFile = true)
    (hkept : ∀ s ∈ dirs, s ∉ skipped) :
    ListsOrReports root below dirs n
      (listEntries d skipped depth (root.descend below) entries) := by
  have hchild : ∀ {m : String} {e : Entry}, d.get? (m :: (below ++ home)) = some e →
      listEntry d skipped depth (root.descend below) (m, e) ∈
        entries.map (listEntry d skipped depth (root.descend below)) := by
    intro m e he
    exact List.mem_map_of_mem ((mem_readDir_iff hd hroot hmode hread).2 he)
  rcases (Option.any_eq_true _ _).1 hfile with ⟨e, he, hefile⟩
  rw [listEntries_eq_concat]
  rcases List.eq_nil_or_concat dirs with rfl | ⟨dirs, m, rfl⟩
  · left
    refine mem_files_concat.2 ⟨_, hchild he, ?_⟩
    cases e with
    | file mode bytes => simp [listEntry, Listing.file, Path.descend]
    | dir mode => simp [Entry.isFile] at hefile
    | link target => simp [Entry.isFile] at hefile
  · rw [List.concat_eq_append] at *
    have hsplit : (dirs ++ [m]) ++ below = dirs ++ m :: below := by simp
    rw [hsplit] at hfile he
    -- the outermost of the directories is an entry of the one that was read
    obtain ⟨dirMode, hdir⟩ : ∃ dirMode, d.get? (m :: (below ++ home)) = some (.dir dirMode) := by
      have hplace : n :: (dirs ++ m :: below) ++ home = (n :: dirs) ++ m :: (below ++ home) := by
        simp
      rw [hplace] at he
      exact hd.dir_above (List.cons_ne_nil n dirs) (by rw [he]; rfl)
    have hm : skipped.contains m = false := by
      have hnot := hkept m (by simp)
      simpa using hnot
    have hlength : dirs.length < depth := by
      simp only [List.length_append, List.length_cons, List.length_nil] at hdepth
      omega
    have hentry := hchild hdir
    rw [listEntry] at hentry
    simp only [hm, Bool.false_eq_true, if_false] at hentry
    exact (hbelow m n dirs hlength hfile fun s hs => hkept s (by simp [hs])).of_entry hentry

theorem listBelow_complete (depth : Nat) : ∀ {below dirs : Location} {n : String},
    dirs.length < depth →
    (d.get? (n :: (dirs ++ below) ++ home)).any Entry.isFile = true → (∀ s ∈ dirs, s ∉ skipped) →
    ListsOrReports root below dirs n (listBelow d skipped depth (root.descend below)) := by
  induction depth with
  | zero =>
    intro below dirs n hdepth
    exact absurd hdepth (by simp)
  | succ depth ih =>
    intro below dirs n hdepth hfile hkept
    obtain ⟨mode, hmode⟩ : ∃ mode, d.get? (below ++ home) = some (.dir mode) := by
      have hplace : n :: (dirs ++ below) ++ home = (n :: dirs) ++ (below ++ home) := by simp
      rw [hplace] at hfile
      exact hd.dir_above (List.cons_ne_nil n dirs) (Option.isSome_of_any hfile)
    rw [listBelow]
    cases hread : d.readDir (root.descend below) with
    | error e =>
      right
      exact ⟨[], List.nil_suffix, ⟨root.descend below, .walking (root.descend below) e⟩,
        by simp [Listing.trouble], by simp⟩
    | ok entries =>
      refine listEntries_complete hd skipped hroot hmode hread ?_ (by omega) hfile hkept
      intro m n dirs hlength hfile hkept
      exact ih hlength hfile hkept

/-! ## Nothing is listed twice -/

theorem nodup_listEntries {depth : Nat} {below : Location} {mode : Nat}
    (hmode : d.get? (below ++ home) = some (.dir mode)) {entries : List (String × Entry)}
    (hread : d.readDir (root.descend below) = .ok entries)
    (hbelow : ∀ m mode, d.get? (m :: (below ++ home)) = some (.dir mode) →
      (listBelow d skipped depth (root.descend (m :: below))).files.Nodup) :
    (listEntries d skipped depth (root.descend below) entries).files.Nodup := by
  rw [listEntries_eq_concat, files_concat_map]
  -- each entry lists paths below itself, and no two entries have the same name
  refine nodup_flatMap root below (names_of_readDir hd hread).2 fun x hx => ?_
  rcases x with ⟨m, e⟩
  have he : d.get? (m :: (below ++ home)) = some e := (mem_readDir_iff hd hroot hmode hread).1 hx
  cases e with
  | link target => simp [listEntry]
  | file fileMode bytes =>
    constructor
    · simp [listEntry, Listing.file]
    · intro p hp
      obtain rfl : p = (root.descend below).join m := by simpa [listEntry, Listing.file] using hp
      have hsome : (d.get? ((m :: below) ++ home)).isSome := by simp [he]
      exact ⟨m :: below, rfl, List.suffix_rfl, hd.isName_below hsome⟩
  | dir dirMode =>
    simp only [listEntry]
    split
    · simp
    · constructor
      · exact hbelow m dirMode he
      · intro p hp
        have he' : d.get? (m :: below ++ home) = some (.dir dirMode) := he
        rcases (walked_listBelow hd skipped hroot depth he').files p hp with ⟨n, dirs, hp', hfile, -⟩
        exact ⟨n :: (dirs ++ m :: below), hp', ⟨n :: dirs, by simp⟩,
          hd.isName_below (Option.isSome_of_any hfile)⟩

theorem nodup_listBelow (depth : Nat) : ∀ {below : Location} {mode : Nat},
    d.get? (below ++ home) = some (.dir mode) →
    (listBelow d skipped depth (root.descend below)).files.Nodup := by
  induction depth with
  | zero =>
    intro below mode _
    rw [listBelow]
    exact List.nodup_nil
  | succ depth ih =>
    intro below mode hmode
    rw [listBelow]
    cases hread : d.readDir (root.descend below) with
    | error e => exact List.nodup_nil
    | ok entries => exact nodup_listEntries hd skipped hroot hmode hread fun m mode hm => ih hm

/-! ## The whole walk -/

omit hd in
theorem walk_eq {entries : List (String × Entry)} (hread : d.readDir root = .ok entries) :
    walk skipped d root = .ok (listEntries d skipped d.entries.length root entries) := by
  have hstat : d.stat root = .ok (.dir mode) := stat_eq_ok_iff.2 ⟨home, hroot⟩
  rcases lstat_of_locate hroot with ⟨e, he, hfound⟩
  unfold walk
  simp only [hread, he, hstat]
  cases e with
  | file fileMode bytes => simp [Entry.isLink] at hfound
  | dir dirMode => rfl
  | link target => rfl

/-- A walk of a root that can be read lists files below it, none of them twice; a file that it does
not list has a directory above it that is reported. -/
theorem walk_spec {entries : List (String × Entry)} (hread : d.readDir root = .ok entries) :
    ∃ listing, walk skipped d root = .ok listing ∧ listing.files.Nodup ∧
      Walked d skipped root home [] listing ∧
      ∀ n dirs, Listable d skipped home (n :: dirs) → ListsOrReports root [] dirs n listing := by
  have hhome : d.get? ([] ++ home) = some (.dir mode) := (locate_eq_ok_iff.1 hroot).2
  have hread' : d.readDir (root.descend []) = .ok entries := hread
  refine ⟨_, walk_eq skipped hroot hread, ?_, ?_, ?_⟩
  · exact nodup_listEntries hd skipped hroot hhome hread'
      fun m mode hm => nodup_listBelow hd skipped hroot _ hm
  · exact walked_listEntries hd skipped hroot hhome hread'
      fun m mode hm => walked_listBelow hd skipped hroot _ hm
  · intro n dirs hlistable
    have hfile : (d.get? (n :: (dirs ++ []) ++ home)).any Entry.isFile = true := by
      simpa using hlistable.isFile
    have hlength := hd.length_le_entries (Option.isSome_of_any hfile)
    simp only [List.append_nil, List.length_append, List.length_cons] at hlength
    refine listEntries_complete hd skipped hroot hhome hread' ?_ (by omega) hfile hlistable.kept
    intro m n dirs hdepth hfile hkept
    exact listBelow_complete hd skipped hroot _ hdepth hfile hkept

end

end SiteFolders.Listing
