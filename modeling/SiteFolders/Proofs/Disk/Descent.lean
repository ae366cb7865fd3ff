import SiteFolders.Proofs.Move.Plan
import SiteFolders.Proofs.Path.Descent
import Mathlib.Data.List.Perm.Subperm

/-!
# Resolving paths that go down

The root of a listing may be any path that leads to a directory. What lies below that directory is
reached by joining names to the root: such a path leads to its place if every directory on the way
may be searched (`OpenBelow`) and the path is not too long, and it leads nowhere otherwise
(`locate_descend_iff`).
-/

namespace SiteFolders.Disk

open Move (RootAt)

/-- Every directory on the way down to a place may be searched. -/
def OpenBelow (d : Disk) (home below : Location) : Prop :=
  ∀ n dir, (n :: dir) <:+ below → d.Searchable (dir ++ home)

theorem openBelow_nil (d : Disk) (home : Location) : d.OpenBelow home [] := by
  intro n dir h
  exact absurd h.length_le (by simp)

theorem openBelow_cons {d : Disk} {home dir : Location} {n : String} :
    d.OpenBelow home (n :: dir) ↔ d.Searchable (dir ++ home) ∧ d.OpenBelow home dir := by
  constructor
  · intro h
    exact ⟨h n dir List.suffix_rfl, fun m above hs => h m above (hs.trans (List.suffix_cons n dir))⟩
  · rintro ⟨hdir, hopen⟩ m above hs
    rcases List.suffix_cons_iff.1 hs with heq | hs
    · rcases List.cons.inj heq with ⟨rfl, rfl⟩
      exact hdir
    · exact hopen m above hs

theorem OpenBelow.of_suffix {d : Disk} {home above below : Location} (h : d.OpenBelow home below)
    (hs : above <:+ below) : d.OpenBelow home above :=
  fun n dir hdir => h n dir (hdir.trans hs)

section

variable {d : Disk} (hd : d.IsTree) {root : Path} {home : Location} (hroot : RootAt d root home)
include hd

theorem IsTree.isName_below {below : Location} (h : (d.get? (below ++ home)).isSome) :
    ∀ n ∈ below, IsName n :=
  fun n hn => hd.isName_of_mem h n (List.mem_append_left home hn)

/-- What holds an entry is a directory. -/
theorem IsTree.dir_of_get? {n : String} {dir : Location} {e : Entry}
    (he : d.get? (n :: dir) = some e) : ∃ mode, d.get? dir = some (.dir mode) :=
  holdsDir_iff.1 (hd.holdsDir_of_get? he)

/-- What lies above an entry is a directory. -/
theorem IsTree.dir_above {more above : Location} (hne : more ≠ [])
    (h : (d.get? (more ++ above)).isSome) : ∃ mode, d.get? above = some (.dir mode) := by
  refine holdsDir_iff.1 (hd.holdsDir_of_suffix h (List.suffix_append more above) ?_)
  intro heq
  exact hne (by simpa using congrArg List.length heq)

include hroot

/-- The names of a path that goes down through open directories lead to its place. -/
theorem resolveFrom_descend {below : Location} {e : Entry} (he : d.get? (below ++ home) = some e)
    (hlink : e.isLink = false) (hopen : d.OpenBelow home below) :
    d.resolveFrom true linkLimit (startOf (root.descend below).text d.workingDirectory)
      (namesOf (root.descend below).text) = .ok (.entry (below ++ home)) := by
  induction below generalizing e with
  | nil => exact hroot.leads
  | cons n below ih =>
    rcases openBelow_cons.1 hopen with ⟨hsearch, hopen⟩
    rcases hd.dir_of_get? he with ⟨mode, hmode⟩
    have hn := hd.isName_of_get? he
    have hlen := hd.length_le_of_get? he
    rw [Path.descend, namesOf_join hn, startOf_join hn]
    have happend := resolveFrom_append d true (List.cons_ne_nil n []) linkLimit
      (startOf (root.descend below).text d.workingDirectory) (namesOf (root.descend below).text)
    rw [ih hmode rfl hopen] at happend
    rcases happend with ⟨links, hlinks⟩
    rw [hlinks]
    have he' : d.get? (n :: (below ++ home)) = some e := he
    rw [resolveFrom_name links hn hsearch hlen fun _ => by simp [he', hlink], he']
    rfl

/-- Where these names lead anywhere, the directories on the way are open. -/
theorem openBelow_of_resolveFrom {below : Location} {mode : Nat}
    (hmode : d.get? (below ++ home) = some (.dir mode)) {place : Place}
    (h : d.resolveFrom true linkLimit (startOf (root.descend below).text d.workingDirectory)
      (namesOf (root.descend below).text) = .ok place) :
    d.OpenBelow home below ∧ place = .entry (below ++ home) := by
  have hopen : d.OpenBelow home below := by
    induction below generalizing mode place with
    | nil => exact openBelow_nil d home
    | cons n below ih =>
      rcases hd.dir_of_get? hmode with ⟨mode', hmode'⟩
      have hn := hd.isName_of_get? hmode
      rw [Path.descend, namesOf_join hn, startOf_join hn] at h
      have happend := resolveFrom_append d true (List.cons_ne_nil n []) linkLimit
        (startOf (root.descend below).text d.workingDirectory) (namesOf (root.descend below).text)
      rw [h] at happend
      -- the names before the last one lead to the directory, so it is open
      cases hdir : d.resolveFrom true linkLimit
          (startOf (root.descend below).text d.workingDirectory)
          (namesOf (root.descend below).text) with
      | error e => simp [hdir, Continues] at happend
      | ok place' =>
        have hopen := ih hmode' hdir
        have hplace := resolveFrom_descend hd hroot hmode' rfl hopen
        rw [hdir] at hplace happend
        rw [Except.ok.inj hplace] at happend
        rcases happend with ⟨links, hlinks⟩
        exact openBelow_cons.2 ⟨(of_resolveFrom_name hn hlinks.symm).1, hopen⟩
  refine ⟨hopen, ?_⟩
  rw [resolveFrom_descend hd hroot hmode rfl hopen] at h
  exact (Except.ok.inj h).symm

/-- What a path that goes down from the root leads to. -/
theorem locate_descend_iff {n : String} {below : Location} {e : Entry}
    (he : d.get? (n :: (below ++ home)) = some e) {follow : Bool}
    (hlink : follow = true → e.isLink = false) {x : Location × Entry} :
    d.locate follow (root.descend (n :: below)) = .ok x ↔
      checkPath (root.descend (n :: below)) = .ok () ∧ d.OpenBelow home (n :: below) ∧
        x = (n :: (below ++ home), e) := by
  rcases x with ⟨loc, e'⟩
  have hn := hd.isName_of_get? he
  have hlen := hd.length_le_of_get? he
  rcases hd.dir_of_get? he with ⟨mode, hmode⟩
  have hslash : endsInSlash (root.descend (n :: below)) = false := endsInSlash_join hn _
  have hlast : (namesOf (root.descend (n :: below)).text).getLast? = some n := by
    rw [Path.descend, namesOf_join hn]
    simp
  have hlink' : follow = true → (d.get? (n :: (below ++ home))).any Entry.isLink = false := by
    intro hfollow
    simp [he, hlink hfollow]
  rw [locate_eq_ok_iff]
  constructor
  · rintro ⟨hres, hget⟩
    -- the last name is reached in some directory, and the names before it lead down to one place
    rcases reaches_of_resolve hlast hn hres with ⟨dir, hreach, -⟩
    rcases (Disk.reaches_join_iff hn).1 hreach with ⟨hcheck, hsearch, hleads⟩
    rcases openBelow_of_resolveFrom hd hroot hmode hleads with ⟨hopen, hdir⟩
    obtain rfl : dir = below ++ home := by simpa using hdir
    rw [hreach.resolve hslash hlen follow hlink', he] at hres
    obtain rfl : n :: (below ++ home) = loc := by simpa using hres
    rw [he] at hget
    exact ⟨hcheck, openBelow_cons.2 ⟨hsearch, hopen⟩, by simpa [eq_comm] using hget⟩
  · rintro ⟨hcheck, hopen, hx⟩
    rcases openBelow_cons.1 hopen with ⟨hsearch, hopen⟩
    have hreach : d.Reaches (root.descend (n :: below)) (below ++ home) n :=
      (Disk.reaches_join_iff hn).2 ⟨hcheck, hsearch, resolveFrom_descend hd hroot hmode rfl hopen⟩
    rcases Prod.mk.inj hx with ⟨rfl, rfl⟩
    refine ⟨?_, he⟩
    rw [hreach.resolve hslash hlen follow hlink', he]
    rfl

end

/-! ## Reading directories -/

/-- A place lies no deeper than the disk has entries, for everything above it is one. -/
theorem IsTree.length_le_entries {d : Disk} (hd : d.IsTree) {loc : Location}
    (h : (d.get? loc).isSome) : loc.length ≤ d.entries.length := by
  have hnodup : ((List.range loc.length).map loc.drop).Nodup := by
    refine List.Nodup.map_on ?_ List.nodup_range
    intro i hi j hj heq
    have hlen := congrArg List.length heq
    simp only [List.mem_range] at hi hj
    simp only [List.length_drop] at hlen
    omega
  have hsubset : (List.range loc.length).map loc.drop ⊆ d.entries.map Prod.fst := by
    intro above habove
    rcases List.mem_map.1 habove with ⟨i, hi, rfl⟩
    have hne : loc.drop i ≠ [] := by simpa using List.mem_range.1 hi
    have hsome : (d.get? (loc.drop i)).isSome := by
      by_cases heq : loc.drop i = loc
      · rwa [heq]
      · have hdir := hd.holdsDir_of_suffix h (List.drop_suffix i loc) heq
        rcases holdsDir_iff.1 hdir with ⟨mode, hmode⟩
        simp [hmode]
    rcases Option.isSome_iff_exists.1 hsome with ⟨e, he⟩
    exact List.mem_map_of_mem (mem_of_get? he hne)
  have hle := (List.subperm_of_subset hnodup hsubset).length_le
  simpa using hle

section

variable {d : Disk} (hd : d.IsTree) {root : Path} {home : Location} {mode : Nat}
  (hroot : d.locate true root = .ok (home, .dir mode))
include hd hroot

/-- What following a path down to a directory gives. -/
theorem locate_dir_iff {below : Location} {mode : Nat}
    (hmode : d.get? (below ++ home) = some (.dir mode)) {x : Location × Entry} :
    d.locate true (root.descend below) = .ok x ↔
      checkPath (root.descend below) = .ok () ∧ d.OpenBelow home below ∧
        x = (below ++ home, .dir mode) := by
  cases below with
  | cons n below => exact locate_descend_iff hd (Move.rootAt_of_locate hroot) hmode fun _ => rfl
  | nil =>
    rcases locate_eq_ok_iff.1 hroot with ⟨hres, hget⟩
    rcases resolve_eq_ok_iff.1 hres with ⟨hcheck, -, -⟩
    simp only [List.nil_append] at hmode ⊢
    rw [hget] at hmode
    rw [Path.descend, hroot, Option.some.inj hmode]
    simp [hcheck, openBelow_nil, eq_comm]

/-- Which directories below the root can be read, and what is read there. -/
theorem readDir_descend_iff {below : Location} {mode : Nat}
    (hmode : d.get? (below ++ home) = some (.dir mode)) {entries : List (String × Entry)} :
    d.readDir (root.descend below) = .ok entries ↔
      checkPath (root.descend below) = .ok () ∧ d.OpenBelow home below ∧ d.mayRead mode = true ∧
        entries = d.children (below ++ home) := by
  rw [readDir_eq_ok_iff]
  constructor
  · rintro ⟨loc, mode', hloc, hread, rfl⟩
    obtain ⟨hcheck, hopen, hx⟩ := (locate_dir_iff hd hroot hmode).1 hloc
    obtain ⟨rfl, hmode'⟩ := Prod.mk.inj hx
    obtain rfl := Entry.dir.inj hmode'
    exact ⟨hcheck, hopen, hread, rfl⟩
  · rintro ⟨hcheck, hopen, hread, rfl⟩
    exact ⟨_, _, (locate_dir_iff hd hroot hmode).2 ⟨hcheck, hopen, rfl⟩, hread, rfl⟩

end

end SiteFolders.Disk
