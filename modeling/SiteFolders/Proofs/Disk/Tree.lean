import SiteFolders.Disk.Operations
import SiteFolders.Proofs.Path.Names
import Mathlib.Algebra.BigOperators.Group.List.Basic
import Mathlib.Algebra.Order.Group.Multiset
import Mathlib.Data.List.Nodup

/-!
# Trees of entries

The table of a disk can hold what no file system does: two entries at one place, or an entry below
a place that is no directory. `Disk.IsTree` rules these out. In a tree everything above an entry is
a directory, so nothing lies below a vacant place, and moving an entry to a vacant place is
a renaming of locations: `get?_moveTree_below_new` and its companions say what every location holds
afterwards, and `contents_moveTree` says that no file has lost its bytes. What lies at one place only
can also be put at a vacant place and be taken away at the old one (`get?_erase_put`), and then it
need not be the same entry: `contents_erase_put` says which bytes are there afterwards.
-/

namespace SiteFolders

namespace Disk

theorem isDir_of_isFile {e : Entry} (h : e.isFile = true) : e.isDir = false := by
  cases e <;> simp_all [Entry.isFile, Entry.isDir]

theorem isLink_of_isFile {e : Entry} (h : e.isFile = true) : e.isLink = false := by
  cases e <;> simp_all [Entry.isFile, Entry.isLink]

/-- True of locations that are a name in a directory of the disk. -/
def Hosts (d : Disk) : Location → Prop
  | [] => False
  | name :: dir => IsName name ∧ name.utf8ByteSize ≤ nameLimit ∧ d.holdsDir dir = true

instance (d : Disk) : ∀ loc, Decidable (d.Hosts loc)
  | [] => inferInstanceAs (Decidable False)
  | _ :: _ => inferInstanceAs (Decidable (_ ∧ _ ∧ _))

/-- Every entry has a place of its own, which is a name in a directory, no longer than names may
be; and volumes are mounted where something is. -/
structure IsTree (d : Disk) : Prop where
  nodup : (d.entries.map Prod.fst).Nodup
  hosted : ∀ x ∈ d.entries, d.Hosts x.1
  mounted : ∀ loc ∈ d.mounts, (d.get? loc).isSome

instance (d : Disk) : Decidable d.IsTree :=
  decidable_of_iff ((d.entries.map Prod.fst).Nodup ∧ (∀ x ∈ d.entries, d.Hosts x.1) ∧
      ∀ loc ∈ d.mounts, (d.get? loc).isSome)
    ⟨fun ⟨h1, h2, h3⟩ => ⟨h1, h2, h3⟩, fun ⟨h1, h2, h3⟩ => ⟨h1, h2, h3⟩⟩

end Disk

/-- The bytes of an entry, if it is a regular file. -/
def Entry.contents : Entry → Multiset ByteArray
  | .file _ bytes => {bytes}
  | _ => 0

namespace Disk

/-- The bytes of the regular files. -/
def contents (d : Disk) : Multiset ByteArray := (d.entries.map fun x => x.2.contents).sum

/-! ## Look-ups and the table -/

theorem get?_eq_lookup {loc : Location} (hne : loc ≠ []) (d : Disk) :
    d.get? loc = d.entries.lookup loc := by
  cases loc with
  | nil => exact absurd rfl hne
  | cons name dir => rfl

theorem mem_of_get? {d : Disk} {loc : Location} {e : Entry} (h : d.get? loc = some e)
    (hne : loc ≠ []) : (loc, e) ∈ d.entries := by
  cases loc with
  | nil => exact absurd rfl hne
  | cons name dir =>
    rcases List.lookup_eq_some_iff.1 h with ⟨before, after, heq, -⟩
    rw [heq]
    simp

theorem get?_eq_none_iff {d : Disk} {loc : Location} :
    d.get? loc = none ↔ loc ≠ [] ∧ ∀ x ∈ d.entries, x.1 ≠ loc := by
  cases loc with
  | nil => simp
  | cons name dir =>
    simp only [get?, List.lookup_eq_none_iff, bne_iff_ne, ne_eq, reduceCtorEq,
      not_false_eq_true, true_and]
    exact ⟨fun h x hx he => h x hx he.symm, fun h x hx he => h x hx he.symm⟩

theorem holdsDir_iff {d : Disk} {loc : Location} :
    d.holdsDir loc = true ↔ ∃ mode, d.get? loc = some (.dir mode) := by
  unfold holdsDir
  cases d.get? loc with
  | none => simp
  | some e => cases e <;> simp [Entry.isDir]

namespace IsTree

variable {d : Disk} (hd : d.IsTree)
include hd

theorem get?_of_mem {loc : Location} {e : Entry} (h : (loc, e) ∈ d.entries) :
    d.get? loc = some e := by
  have hhost := hd.hosted _ h
  cases loc with
  | nil => exact absurd hhost id
  | cons name dir =>
    rcases List.append_of_mem h with ⟨before, after, heq⟩
    refine List.lookup_eq_some_iff.2 ⟨before, after, heq, ?_⟩
    intro p hp
    have hnd := hd.nodup
    rw [heq, List.map_append, List.map_cons, List.nodup_append] at hnd
    have hne := hnd.2.2 p.1 (List.mem_map_of_mem hp) (name :: dir) (by simp)
    simpa using fun he => hne he.symm

theorem hosts_of_get? {loc : Location} {e : Entry} (h : d.get? loc = some e) (hne : loc ≠ []) :
    d.Hosts loc :=
  hd.hosted _ (mem_of_get? h hne)

/-- What holds an entry is a directory. -/
theorem holdsDir_of_get? {name : String} {dir : Location} {e : Entry}
    (h : d.get? (name :: dir) = some e) : d.holdsDir dir = true :=
  (hd.hosts_of_get? h (by simp)).2.2

theorem isName_of_get? {name : String} {dir : Location} {e : Entry}
    (h : d.get? (name :: dir) = some e) : IsName name :=
  (hd.hosts_of_get? h (by simp)).1

theorem length_le_of_get? {name : String} {dir : Location} {e : Entry}
    (h : d.get? (name :: dir) = some e) : name.utf8ByteSize ≤ nameLimit :=
  (hd.hosts_of_get? h (by simp)).2.1

/-- Everything above an entry is a directory. -/
theorem holdsDir_of_suffix {above loc : Location} (h : (d.get? loc).isSome)
    (hs : above <:+ loc) (hne : above ≠ loc) : d.holdsDir above = true := by
  induction loc with
  | nil => exact absurd (List.suffix_nil.1 hs) hne
  | cons name dir ih =>
    rcases Option.isSome_iff_exists.1 h with ⟨e, he⟩
    have hdir := hd.holdsDir_of_get? he
    rcases List.suffix_cons_iff.1 hs with rfl | hs
    · exact absurd rfl hne
    · by_cases heq : above = dir
      · rwa [heq]
      · have hsome : (d.get? dir).isSome := by
          unfold holdsDir at hdir
          cases hg : d.get? dir with
          | none => simp [hg] at hdir
          | some e' => rfl
        exact ih hsome hs heq

/-- Nothing lies below a vacant place. -/
theorem get?_below_vacant {new : Location} (hnew : d.get? new = none) (below : Location) :
    d.get? (below ++ new) = none := by
  by_contra hne
  have hsome : (d.get? (below ++ new)).isSome := Option.isSome_iff_ne_none.2 hne
  cases below with
  | nil => exact hne hnew
  | cons name rest =>
    have hdir := hd.holdsDir_of_suffix hsome (List.suffix_append _ new)
      (fun h => by
        have hlen := congrArg List.length h
        simp only [List.length_append, List.length_cons] at hlen
        omega)
    simp [holdsDir, hnew] at hdir

/-- What lies below an entry that is no directory is nothing. -/
theorem get?_below_leaf {loc : Location} {e : Entry} (h : d.get? loc = some e)
    (he : e.isDir = false) {below : Location} (hne : below ≠ []) :
    d.get? (below ++ loc) = none := by
  by_contra hsome
  have hdir := hd.holdsDir_of_suffix (Option.isSome_iff_ne_none.2 hsome)
    (List.suffix_append below loc)
    (fun hl => hne (by simpa using congrArg List.length hl))
  simp [holdsDir, h, he] at hdir

/-- What is there does not lie below a vacant place. -/
theorem not_suffix_of_vacant {new loc : Location} (hnew : d.get? new = none)
    (hloc : (d.get? loc).isSome) : ¬ new <:+ loc := by
  rintro ⟨below, rfl⟩
  simp [hd.get?_below_vacant hnew] at hloc

/-- What lies at a leaf or below it is the leaf. -/
theorem eq_nil_of_below_leaf {loc below : Location} {e : Entry} (h : d.get? loc = some e)
    (he : e.isDir = false) (hsome : (d.get? (below ++ loc)).isSome) : below = [] := by
  by_contra hne
  simp [hd.get?_below_leaf h he hne] at hsome

theorem isFile_of_below_file {loc below : Location} {e : Entry}
    (h : (d.get? loc).any Entry.isFile = true) (he : d.get? (below ++ loc) = some e) :
    below = [] ∧ e.isFile = true := by
  obtain ⟨f, hf, hfile⟩ := (Option.any_eq_true _ _).1 h
  obtain rfl := hd.eq_nil_of_below_leaf hf (isDir_of_isFile hfile) (Option.isSome_of_eq_some he)
  obtain rfl := Option.some.inj (hf.symm.trans he)
  exact ⟨rfl, hfile⟩

end IsTree

/-- Where nothing is, nothing is mounted. -/
theorem IsTree.isMount_of_vacant {d : Disk} (hd : d.IsTree) {loc : Location}
    (h : d.get? loc = none) : d.isMount loc = false := by
  rw [isMount, Bool.eq_false_iff, ne_eq, List.contains_iff_mem]
  intro hmem
  simpa [h] using hd.mounted loc hmem

/-! ## Adding an entry -/

section Put

variable {d : Disk} {new : Location} (h : d.get? new = none)
include h

theorem filter_of_vacant : d.entries.filter (fun x => x.1 != new) = d.entries :=
  List.filter_eq_self.2 fun x hx => by simpa using (get?_eq_none_iff.1 h).2 x hx

theorem erase_put_vacant (e : Entry) : (d.put new e).erase new = d := by
  simp [put, erase, filter_of_vacant h]

theorem contents_put (e : Entry) : (d.put new e).contents = e.contents + d.contents := by
  simp [contents, put, filter_of_vacant h]

/-- What is there stays when an entry comes to a vacant place. -/
theorem get?_put_vacant (e : Entry) {loc : Location} {f : Entry} (hf : d.get? loc = some f) :
    (d.put new e).get? loc = some f := by
  have hne : loc ≠ new := by
    rintro rfl
    simp [h] at hf
  rwa [get?_put_of_ne _ _ hne]

/-- An entry at a vacant place of a directory makes a tree again. -/
theorem IsTree.put (hd : d.IsTree) (hosts : d.Hosts new) (e : Entry) : (d.put new e).IsTree := by
  have hkeep : ∀ loc, d.Hosts loc → (d.put new e).Hosts loc := by
    intro loc hloc
    cases loc with
    | nil => exact hloc
    | cons n dir =>
      obtain ⟨mode, hmode⟩ := holdsDir_iff.1 hloc.2.2
      exact ⟨hloc.1, hloc.2.1, holdsDir_iff.2 ⟨mode, get?_put_vacant h e hmode⟩⟩
  constructor
  · simp only [Disk.put, filter_of_vacant h, List.map_cons, List.nodup_cons]
    refine ⟨fun hmem => ?_, hd.nodup⟩
    obtain ⟨x, hx, hxl⟩ := List.mem_map.1 hmem
    exact (get?_eq_none_iff.1 h).2 x hx hxl
  · intro x hx
    simp only [Disk.put, filter_of_vacant h, List.mem_cons] at hx
    rcases hx with rfl | hx
    · exact hkeep _ hosts
    · exact hkeep _ (hd.hosted x hx)
  · intro loc hloc
    obtain ⟨f, hf⟩ := Option.isSome_iff_exists.1 (hd.mounted loc hloc)
    exact Option.isSome_of_eq_some (get?_put_vacant h e hf)

end Put

/-! ## Taking an entry away -/

section Erase

variable {d : Disk} (hd : d.IsTree) {loc : Location} {e : Entry} (he : d.get? loc = some e)
include hd he

/-- The bytes of an entry are those that are gone without it. -/
theorem contents_erase (hne : loc ≠ []) : e.contents + (d.erase loc).contents = d.contents := by
  have hperm : ((loc, e) :: (d.erase loc).entries).Perm d.entries := by
    have hnodup : d.entries.Nodup := hd.nodup.of_map _
    refine (List.perm_ext_iff_of_nodup ?_ hnodup).2 fun x => ?_
    · exact List.nodup_cons.2 ⟨by simp [erase], hnodup.filter _⟩
    · -- the only entry at the place is this one
      have hmem := mem_of_get? he hne
      simp only [erase, List.mem_cons, List.mem_filter, bne_iff_ne, ne_eq]
      constructor
      · rintro (rfl | ⟨hx, -⟩)
        · exact hmem
        · exact hx
      · intro hx
        by_cases heq : x.1 = loc
        · have hget := hd.get?_of_mem hx
          rw [heq, he, Option.some.injEq] at hget
          exact Or.inl (Prod.ext heq hget.symm)
        · exact Or.inr ⟨hx, heq⟩
  exact (hperm.map fun x => x.2.contents).sum_eq

/-- A tree without one of its leaves is a tree, unless something is mounted on the leaf. -/
theorem IsTree.erase (hleaf : e.isDir = false) (hmount : d.isMount loc = false) :
    (d.erase loc).IsTree := by
  constructor
  · exact hd.nodup.sublist (List.filter_sublist.map _)
  · intro x hx
    have hhost := hd.hosted x (List.mem_filter.1 hx).1
    obtain ⟨l, f⟩ := x
    cases l with
    | nil => exact hhost
    | cons n dir =>
      obtain ⟨mode, hmode⟩ := holdsDir_iff.1 hhost.2.2
      have hne : dir ≠ loc := by
        rintro rfl
        obtain rfl := Option.some.inj (he.symm.trans hmode)
        simp [Entry.isDir] at hleaf
      exact ⟨hhost.1, hhost.2.1, holdsDir_iff.2 ⟨mode, by rwa [get?_erase_of_ne _ hne]⟩⟩
  · intro m hm
    have hne : m ≠ loc := by
      rintro rfl
      exact absurd (List.contains_iff_mem.2 hm) (Bool.eq_false_iff.1 hmount)
    rw [get?_erase_of_ne _ hne]
    exact hd.mounted m hm

end Erase

/-! ## Moving an entry -/

/-- A table whose keys are renamed is looked up by the old key. -/
theorem lookup_map_key {f : Location → Location} {loc was : Location} :
    ∀ {entries : List (Location × Entry)}, (∀ x ∈ entries, f x.1 = loc ↔ x.1 = was) →
      (entries.map fun x => (f x.1, x.2)).lookup loc = entries.lookup was
  | [], _ => rfl
  | (l, e) :: rest, h => by
    have ih := lookup_map_key fun x hx => h x (List.mem_cons_of_mem _ hx)
    have hl := h (l, e) (by simp)
    simp only at hl
    by_cases heq : l = was
    · have hloc : (loc == f l) = true := by simpa using (hl.2 heq).symm
      simp [List.lookup_cons, heq ▸ hloc, heq]
    · have hloc : (loc == f l) = false := beq_false_of_ne fun h => heq (hl.1 h.symm)
      have hwas : (was == l) = false := beq_false_of_ne fun h => heq h.symm
      simp only [List.map_cons, List.lookup_cons, hloc, hwas]
      exact ih

theorem relocate_below (old new below : Location) : relocate old new (below ++ old) = below ++ new := by
  have hs : old.isSuffixOf (below ++ old) = true :=
    List.isSuffixOf_iff_suffix.2 (List.suffix_append below old)
  simp [relocate, hs]

theorem relocate_of_not_suffix {old loc : Location} (h : ¬ old <:+ loc) (new : Location) :
    relocate old new loc = loc := by
  have hs : ¬ old.isSuffixOf loc = true := fun hs => h (List.isSuffixOf_iff_suffix.1 hs)
  simp [relocate, hs]

/-- The entry at `old` can be moved to `new`: there is one, `new` is a vacant name in a directory,
and `new` does not lie below `old`. -/
structure CanMove (d : Disk) (old new : Location) : Prop where
  old_ne : old ≠ []
  source : (d.get? old).isSome
  vacant : d.get? new = none
  hosted : d.Hosts new
  apart : ¬ old <:+ new

namespace CanMove

variable {d : Disk} {old new : Location} (hm : d.CanMove old new) (hd : d.IsTree)
include hm

theorem new_ne : new ≠ [] := fun h => by simpa [h] using hm.vacant

theorem erase_new : (d.erase new).entries = d.entries := filter_of_vacant hm.vacant

/-- Everywhere else a move changes nothing. -/
theorem get?_elsewhere {loc : Location} (hold : ¬ old <:+ loc) (hnew : ¬ new <:+ loc) :
    (d.moveTree old new).get? loc = d.get? loc := by
  have hkey : ∀ x ∈ d.entries, relocate old new x.1 = loc ↔ x.1 = loc := by
    intro x hx
    by_cases hs : old <:+ x.1
    · rcases hs with ⟨b, hb⟩
      rw [← hb, relocate_below]
      exact ⟨fun h => absurd ⟨b, h⟩ hnew, fun h => absurd ⟨b, h⟩ hold⟩
    · rw [relocate_of_not_suffix hs]
  cases loc with
  | nil => rfl
  | cons name dir =>
    simp only [get?, moveTree, hm.erase_new]
    exact lookup_map_key hkey

/-- A move keeps the bytes of all files. -/
theorem contents_moveTree : (d.moveTree old new).contents = d.contents := by
  simp only [contents, moveTree, hm.erase_new, List.map_map]
  rfl

include hd

theorem not_below_new {x : Location × Entry} (hx : x ∈ d.entries) : ¬ new <:+ x.1 :=
  hd.not_suffix_of_vacant hm.vacant (Option.isSome_of_eq_some (hd.get?_of_mem hx))

theorem new_not_above_old : ¬ new <:+ old := hd.not_suffix_of_vacant hm.vacant hm.source

/-- What is not moved stays where it is. -/
theorem get?_kept {loc : Location} {e : Entry} (he : d.get? loc = some e) (hold : ¬ old <:+ loc) :
    (d.moveTree old new).get? loc = some e := by
  have hnew := hd.not_suffix_of_vacant hm.vacant (Option.isSome_of_eq_some he)
  rw [hm.get?_elsewhere hold hnew, he]

/-- The new place and all below it hold what the old place and all below it held. -/
theorem get?_below_new (below : Location) :
    (d.moveTree old new).get? (below ++ new) = d.get? (below ++ old) := by
  have hkey : ∀ x ∈ d.entries, relocate old new x.1 = below ++ new ↔ x.1 = below ++ old := by
    intro x hx
    constructor
    · intro h
      by_cases hs : old <:+ x.1
      · rcases hs with ⟨b, hb⟩
        rw [← hb, relocate_below] at h
        rw [← hb, List.append_cancel_right h]
      · rw [relocate_of_not_suffix hs] at h
        exact absurd ⟨below, h.symm⟩ (hm.not_below_new hd hx)
    · intro h
      rw [h, relocate_below]
  have hne : below ++ new ≠ [] := fun h => hm.new_ne (List.append_eq_nil_iff.1 h).2
  have hne' : below ++ old ≠ [] := fun h => hm.old_ne (List.append_eq_nil_iff.1 h).2
  rw [get?_eq_lookup hne, get?_eq_lookup hne']
  simp only [moveTree, hm.erase_new]
  exact lookup_map_key hkey

/-- Nothing is left at the old place and below it. -/
theorem get?_below_old (below : Location) :
    (d.moveTree old new).get? (below ++ old) = none := by
  have hnew : ¬ new <:+ below ++ old := by
    rintro ⟨b, hb⟩
    rcases List.suffix_or_suffix_of_suffix ⟨b, hb⟩ (List.suffix_append below old) with h | h
    · exact hm.new_not_above_old hd h
    · exact hm.apart h
  refine get?_eq_none_iff.2 ⟨fun h => hm.old_ne (List.append_eq_nil_iff.1 h).2, ?_⟩
  intro x hx heq
  simp only [moveTree, hm.erase_new, List.mem_map] at hx
  rcases hx with ⟨y, -, rfl⟩
  by_cases hs : old <:+ y.1
  · rcases hs with ⟨b, hb⟩
    rw [← hb, relocate_below] at heq
    exact hnew ⟨b, heq⟩
  · rw [relocate_of_not_suffix hs] at heq
    exact hs ⟨below, heq.symm⟩

/-- Moving an entry with nothing below it changes two places. -/
theorem get?_moveTree {e : Entry} (he : d.get? old = some e) (hleaf : e.isDir = false)
    (loc : Location) : (d.moveTree old new).get? loc =
      if loc = new then some e else if loc = old then none else d.get? loc := by
  by_cases hnew : new <:+ loc
  · obtain ⟨below, rfl⟩ := hnew
    rw [hm.get?_below_new hd]
    cases below with
    | nil => simp [he]
    | cons n rest =>
      -- neither place has anything below it
      have hne : n :: rest ++ new ≠ new := by
        intro h
        have hlen := congrArg List.length h
        simp only [List.length_append, List.length_cons] at hlen
        omega
      rw [hd.get?_below_leaf he hleaf (by simp), if_neg hne, hd.get?_below_vacant hm.vacant]
      simp
  · have hne : loc ≠ new := fun h => hnew (h ▸ List.suffix_rfl)
    rw [if_neg hne]
    by_cases hold : old <:+ loc
    · obtain ⟨below, rfl⟩ := hold
      rw [hm.get?_below_old hd]
      cases below with
      | nil => simp
      | cons n rest =>
        rw [hd.get?_below_leaf he hleaf (by simp)]
        simp
    · have hne' : loc ≠ old := fun h => hold (h ▸ List.suffix_rfl)
      rw [hm.get?_elsewhere hold hnew, if_neg hne']

/-- Different entries have different places after a move. -/
theorem relocate_inj {x y : Location × Entry} (hx : x ∈ d.entries) (hy : y ∈ d.entries)
    (h : relocate old new x.1 = relocate old new y.1) : x.1 = y.1 := by
  by_cases hsx : old <:+ x.1 <;> by_cases hsy : old <:+ y.1
  · -- both are moved
    obtain ⟨b, hb⟩ := hsx
    obtain ⟨c, hc⟩ := hsy
    rw [← hb, ← hc, relocate_below, relocate_below] at h
    rw [← hb, ← hc, List.append_cancel_right h]
  · obtain ⟨b, hb⟩ := hsx
    rw [← hb, relocate_below, relocate_of_not_suffix hsy] at h
    exact absurd ⟨b, h⟩ (hm.not_below_new hd hy)
  · obtain ⟨c, hc⟩ := hsy
    rw [← hc, relocate_below, relocate_of_not_suffix hsx] at h
    exact absurd ⟨c, h.symm⟩ (hm.not_below_new hd hx)
  · -- neither is moved
    rwa [relocate_of_not_suffix hsx, relocate_of_not_suffix hsy] at h

theorem nodup_moveTree : ((d.moveTree old new).entries.map (·.1)).Nodup := by
  simp only [moveTree, hm.erase_new, List.map_map]
  refine (List.nodup_map_iff_inj_on (hd.nodup.of_map _)).2 ?_
  intro x hx y hy h
  have hkey := hm.relocate_inj hd hx hy h
  have hx' : d.get? x.1 = some x.2 := hd.get?_of_mem hx
  rw [hkey, hd.get?_of_mem hy] at hx'
  exact Prod.ext hkey (Option.some.inj hx').symm

/-- A place in a directory that is not moved is still in a directory. -/
theorem hosts_moveTree {name : String} {dir : Location} (h : d.Hosts (name :: dir))
    (hold : ¬ old <:+ dir) : (d.moveTree old new).Hosts (name :: dir) := by
  obtain ⟨hname, hlength, hdir⟩ := h
  have hnew : ¬ new <:+ dir := by
    rintro ⟨b, rfl⟩
    simp [holdsDir, hd.get?_below_vacant hm.vacant] at hdir
  exact ⟨hname, hlength, by rwa [holdsDir, hm.get?_elsewhere hold hnew]⟩

/-- What is mounted below an entry is mounted below its new place. -/
theorem mounted_moveTree : ∀ loc ∈ (d.moveTree old new).mounts,
    ((d.moveTree old new).get? loc).isSome := by
  intro loc hloc
  obtain ⟨was, hwas, rfl⟩ := List.mem_map.1 hloc
  obtain ⟨e, he⟩ := Option.isSome_iff_exists.1 (hd.mounted was hwas)
  by_cases hs : old <:+ was
  · obtain ⟨below, rfl⟩ := hs
    rw [relocate_below, hm.get?_below_new hd, he]
    rfl
  · rw [relocate_of_not_suffix hs, hm.get?_kept hd he hs]
    rfl

/-- A move makes a tree of a tree. -/
theorem isTree_moveTree : (d.moveTree old new).IsTree := by
  refine ⟨hm.nodup_moveTree hd, ?_, hm.mounted_moveTree hd⟩
  intro x hx
  simp only [moveTree, hm.erase_new, List.mem_map] at hx
  obtain ⟨⟨loc, e⟩, hy, rfl⟩ := hx
  have hhost := hd.hosted _ hy
  by_cases hs : old <:+ loc
  · obtain ⟨below, rfl⟩ := hs
    rw [relocate_below]
    cases below with
    | nil =>
      -- the moved entry itself
      obtain ⟨name, dir, rfl⟩ := List.exists_cons_of_ne_nil hm.new_ne
      exact hm.hosts_moveTree hd hm.hosted fun h => hm.apart (h.trans (List.suffix_cons name dir))
    | cons name rest =>
      -- what lies below it has the same directory as before
      refine ⟨hhost.1, hhost.2.1, ?_⟩
      change ((d.moveTree old new).get? (rest ++ new)).any Entry.isDir = true
      rw [hm.get?_below_new hd]
      exact hhost.2.2
  · rw [relocate_of_not_suffix hs]
    cases loc with
    | nil => exact hhost
    | cons name dir =>
      exact hm.hosts_moveTree hd hhost fun h => hs (h.trans (List.suffix_cons name dir))

/-! ### Something else in its place -/

variable {e : Entry} (he : d.get? old = some e) (hleaf : e.isDir = false)

omit hd in
theorem ne : old ≠ new := fun h => hm.apart (h ▸ List.suffix_rfl)

omit hd in
theorem put_get?_old (he : d.get? old = some e) (c : Entry) : (d.put new c).get? old = some e :=
  get?_put_vacant hm.vacant c he

omit hd in
/-- Where a new entry is put and the old one is taken away, two places have changed. -/
theorem get?_erase_put (c : Entry) (loc : Location) : ((d.put new c).erase old).get? loc =
    if loc = new then some c else if loc = old then none else d.get? loc := by
  obtain ⟨m, fromDir, rfl⟩ := List.exists_cons_of_ne_nil hm.old_ne
  obtain ⟨n, toDir, rfl⟩ := List.exists_cons_of_ne_nil hm.new_ne
  split
  · next hnew => rw [hnew, get?_erase_of_ne _ hm.ne.symm, get?_put_self]
  · next hnew =>
    split
    · next hold => rw [hold, get?_erase_self]
    · next hold => rw [get?_erase_of_ne _ hold, get?_put_of_ne _ _ hnew]

include he

/-- The bytes of the old entry are gone, and those of the new one have come. -/
theorem contents_erase_put (c : Entry) :
    e.contents + ((d.put new c).erase old).contents = c.contents + d.contents := by
  rw [contents_erase (hd.put hm.vacant hm.hosted c) (hm.put_get?_old he c) hm.old_ne,
    contents_put hm.vacant]

include hleaf

theorem isTree_erase_put (hmount : d.isMount old = false) (c : Entry) :
    ((d.put new c).erase old).IsTree :=
  (hd.put hm.vacant hm.hosted c).erase (hm.put_get?_old he c) hleaf hmount

end CanMove

end Disk

end SiteFolders
