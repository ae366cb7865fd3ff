import SiteFolders.Listing.Basic
import SiteFolders.Proofs.Disk.Descent
import SiteFolders.Proofs.Move.Plan
import Mathlib.Data.List.Nodup

/-!
# Files below a root

Whatever path leads to the root of a listing, a file below it is listed under the path that goes
down from the root by its names. This module says which files a listing is to hold (`Listable`), and
when a list of such paths holds each of them once (`Covers`).
-/

namespace SiteFolders.Listing

open Disk

/-- A regular file below a directory that lies in no directory of a skipped name. Its names are
given from the file outwards. -/
structure Listable (d : Disk) (skipped : List String) (home below : Location) : Prop where
  isFile : (d.get? (below ++ home)).any Entry.isFile = true
  kept : ∀ s ∈ below.tail, s ∉ skipped

/-- The paths are those of the places below a root of which `listed` is true, each of them once. Two
paths are the same if they take the same steps. -/
structure Covers (root : Path) (listed : Location → Prop) (files : List Path) : Prop where
  once : files.Pairwise fun p q => p.same q = false
  sound : ∀ p ∈ files, ∃ below, listed below ∧ p.same (root.descend below) = true
  complete : ∀ below, listed below → ∃ p ∈ files, p.same (root.descend below) = true

/-- The path goes down from the root, first to a given place and then further. -/
def LiesBelow (root : Path) (below : Location) (p : Path) : Prop :=
  ∃ place, p = root.descend place ∧ below <:+ place ∧ ∀ n ∈ place, IsName n

/-- A place does not lie below two names of one directory. -/
theorem eq_of_below {m n : String} {dir loc : Location} (hm : (m :: dir) <:+ loc)
    (hn : (n :: dir) <:+ loc) : m = n := by
  have hsuffix := List.suffix_of_suffix_length_le hm hn (by simp)
  exact (List.cons.inj (hsuffix.eq_of_length (by simp))).1

/-- What is listed for each entry of a directory is listed once, if the entries differ. -/
theorem nodup_flatMap (root : Path) (below : Location) {f : String × Entry → List Path}
    {entries : List (String × Entry)} (hnames : entries.Pairwise fun x y => x.1 ≠ y.1)
    (hf : ∀ x ∈ entries, (f x).Nodup ∧ ∀ p ∈ f x, LiesBelow root (x.1 :: below) p) :
    (entries.flatMap f).Nodup := by
  refine List.nodup_flatMap.2 ⟨fun x hx => (hf x hx).1, ?_⟩
  refine hnames.imp_of_mem ?_
  intro x y hx hy hne p hpx hpy
  rcases (hf x hx).2 p hpx with ⟨a, rfl, hxa, ha⟩
  rcases (hf y hy).2 _ hpy with ⟨b, hp, hyb, hb⟩
  have hab : a = b := Path.descend_inj ha hb (congrArg Path.components hp)
  subst hab
  exact hne (eq_of_below hxa hyb)

/-- Paths that take the same steps go down to the same paths. -/
theorem same_descend {root root' : Path} (hroot : root'.components = root.components)
    {below : Location} (hbelow : ∀ n ∈ below, IsName n) :
    (root'.descend below).same (root.descend below) = true := by
  rw [Path.same, Path.components_descend hbelow, Path.components_descend hbelow, hroot]
  simp

/-- A list of different paths that go down from a root covers what they lead to. -/
theorem covers_of_nodup {root root' : Path} (hroot : root'.components = root.components)
    {listed : Location → Prop} {files : List Path} (hnodup : files.Nodup)
    (hnames : ∀ below, listed below → ∀ n ∈ below, IsName n)
    (hmem : ∀ p, p ∈ files ↔ ∃ below, listed below ∧ p = root'.descend below) :
    Covers root listed files := by
  have hsame : ∀ below, listed below → (root'.descend below).same (root.descend below) = true :=
    fun below hbelow => same_descend hroot (hnames below hbelow)
  constructor
  · refine hnodup.imp_of_mem ?_
    intro p q hp hq hne
    rcases (hmem p).1 hp with ⟨a, ha, rfl⟩
    rcases (hmem q).1 hq with ⟨b, hb, rfl⟩
    rw [Path.same, beq_eq_false_iff_ne]
    intro heq
    exact hne (congrArg root'.descend (Path.descend_inj (hnames a ha) (hnames b hb) heq))
  · intro p hp
    rcases (hmem p).1 hp with ⟨below, hbelow, rfl⟩
    exact ⟨below, hbelow, hsame below hbelow⟩
  · intro below hbelow
    exact ⟨root'.descend below, (hmem _).2 ⟨below, hbelow, rfl⟩, hsame below hbelow⟩

/-- What is read in a directory below the root are the entries at the places right below it. -/
theorem mem_readDir_iff {d : Disk} (hd : d.IsTree) {root : Path} {home : Location} {mode : Nat}
    (hroot : d.locate true root = .ok (home, .dir mode)) {below : Location} {dirMode : Nat}
    (hdir : d.get? (below ++ home) = some (.dir dirMode)) {entries : List (String × Entry)}
    (hread : d.readDir (root.descend below) = .ok entries) {x : String × Entry} :
    x ∈ entries ↔ d.get? (x.1 :: (below ++ home)) = some x.2 := by
  rw [((readDir_descend_iff hd hroot hdir).1 hread).2.2.2, Move.mem_children]
  exact ⟨hd.get?_of_mem, fun hget => mem_of_get? hget (by simp)⟩

/-! ## Listings of several parts -/

theorem mem_files_concat {parts : List Listing} {p : Path} :
    p ∈ (concat parts).files ↔ ∃ part ∈ parts, p ∈ part.files := by
  induction parts with
  | nil => simp [concat]
  | cons part parts ih =>
    have hfiles : (concat (part :: parts)).files = part.files ++ (concat parts).files := rfl
    simp [hfiles, ih]

theorem files_concat_map {α : Type} (f : α → Listing) (xs : List α) :
    (concat (xs.map f)).files = xs.flatMap fun x => (f x).files := by
  induction xs with
  | nil => rfl
  | cons x xs ih =>
    rw [List.flatMap_cons, ← ih]
    rfl

theorem mem_unreadable_concat {parts : List Listing} {s : Skip} :
    s ∈ (concat parts).unreadable ↔ ∃ part ∈ parts, s ∈ part.unreadable := by
  induction parts with
  | nil => simp [concat]
  | cons part parts ih =>
    have hskips : (concat (part :: parts)).unreadable =
        part.unreadable ++ (concat parts).unreadable := rfl
    simp [hskips, ih]

end SiteFolders.Listing
