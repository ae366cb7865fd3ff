import SiteFolders.Proofs.Disk.Resolve
import SiteFolders.Disk.Operations

/-!
# Paths of entries

The path of a location goes through the names of the location. If it leads to anything, then every
directory on the way lets the process through (`Open`) and it leads to that very location; and no
path that is followed to its end leads to a link. So the canonical path of a directory leads to it
as long as the directories above it stay.
-/

namespace SiteFolders.Disk

theorem IsTree.isName_of_mem {d : Disk} (hd : d.IsTree) {loc : Location}
    (h : (d.get? loc).isSome) : ∀ n ∈ loc, IsName n := by
  induction loc with
  | nil => simp
  | cons m dir ih =>
    rcases Option.isSome_iff_exists.1 h with ⟨e, he⟩
    rcases holdsDir_iff.1 (hd.holdsDir_of_get? he) with ⟨mode, hmode⟩
    intro n hn
    rcases List.mem_cons.1 hn with rfl | hn
    · exact hd.isName_of_get? he
    · exact ih (by simp [hmode]) n hn

/-- Every directory on the way to a location may be searched. -/
def Open (d : Disk) (loc : Location) : Prop := ∀ n dir, (n :: dir) <:+ loc → d.Searchable dir

theorem open_cons {d : Disk} {n : String} {dir : Location} :
    d.Open (n :: dir) ↔ d.Searchable dir ∧ d.Open dir := by
  constructor
  · intro h
    exact ⟨h n dir List.suffix_rfl, fun m above hs => h m above (hs.trans (List.suffix_cons n dir))⟩
  · rintro ⟨hdir, hopen⟩ m above hs
    rcases List.suffix_cons_iff.1 hs with heq | hs
    · rcases List.cons.inj heq with ⟨rfl, rfl⟩
      exact hdir
    · exact hopen m above hs

namespace Keeps

variable {d d' : Disk} (h : d.Keeps d') {loc : Location}
include h

theorem isOpen (hopen : d.Open loc) : d'.Open loc :=
  fun n above hs => h.searchable (hopen n above hs)

/-- The way to an entry that was there before was open if it is open now. -/
theorem isOpen_of (hd : d.IsTree) (hloc : (d.get? loc).isSome) (hopen : d'.Open loc) :
    d.Open loc := by
  intro n above hs
  have hne : above ≠ loc := by
    rintro rfl
    exact absurd hs.length_le (by simp)
  obtain ⟨mode, hmode⟩ :=
    holdsDir_iff.1 (hd.holdsDir_of_suffix hloc ((List.suffix_cons n above).trans hs) hne)
  rcases hopen n above hs with ⟨mode', hmode', hsearch⟩
  rw [h.entry above _ hmode rfl, Option.some.injEq, Entry.dir.injEq] at hmode'
  refine ⟨mode, hmode, ?_⟩
  rw [← h.maySearch, hmode', hsearch]

end Keeps

/-! ## Resolving the names of a location -/

section Names

variable {d : Disk} (hd : d.IsTree)
include hd

theorem resolveFrom_location {loc : Location} {e : Entry} (he : d.get? loc = some e)
    (hlink : e.isLink = false) (hopen : d.Open loc) (links : Nat) (follow : Bool) :
    d.resolveFrom follow links [] loc.reverse = .ok (.entry loc) := by
  induction loc generalizing e follow with
  | nil => cases links <;> rfl
  | cons n dir ih =>
    rcases open_cons.1 hopen with ⟨hsearch, hopen⟩
    rcases id hsearch with ⟨mode, hmode, -⟩
    have happend := resolveFrom_append d follow (List.cons_ne_nil n []) links [] dir.reverse
    rw [ih hmode rfl hopen true] at happend
    rcases happend with ⟨links', hlinks⟩
    rw [List.reverse_cons, hlinks]
    rw [resolveFrom_name links' (hd.isName_of_get? he) hsearch (hd.length_le_of_get? he)
      fun _ => by simp [he, hlink], he]
    rfl

theorem of_resolveFrom_location {loc : Location} {e : Entry} (he : d.get? loc = some e)
    (hlink : e.isLink = false) {links : Nat} {follow : Bool} {place : Place}
    (h : d.resolveFrom follow links [] loc.reverse = .ok place) :
    d.Open loc ∧ place = .entry loc := by
  have hopen : d.Open loc := by
    clear hlink
    induction loc generalizing e follow place with
    | nil => intro n dir hs; simp at hs
    | cons n dir ih =>
      rcases holdsDir_iff.1 (hd.holdsDir_of_get? he) with ⟨mode, hmode⟩
      have happend := resolveFrom_append d follow (List.cons_ne_nil n []) links [] dir.reverse
      rw [List.reverse_cons] at h
      rw [h] at happend
      -- the names before the last one lead to the directory, so it is open
      cases hdir : d.resolveFrom true links [] dir.reverse with
      | error e' => simp [hdir, Continues] at happend
      | ok place' =>
        have hopen := ih hmode hdir
        rw [hdir] at happend
        have hplace : place' = .entry dir := by
          rw [resolveFrom_location hd hmode rfl hopen links true] at hdir
          simpa [eq_comm] using hdir
        rw [hplace] at happend
        rcases happend with ⟨links', hlinks⟩
        have hsearch := (of_resolveFrom_name (hd.isName_of_get? he) hlinks.symm).1
        exact open_cons.2 ⟨hsearch, hopen⟩
  refine ⟨hopen, ?_⟩
  rw [resolveFrom_location hd he hlink hopen links follow] at h
  simpa [eq_comm] using h

/-! ## Locating the path of a location -/

theorem locate_ofLocation_iff {loc : Location} {e : Entry} (he : d.get? loc = some e)
    (hlink : e.isLink = false) (follow : Bool) {x : Location × Entry} :
    d.locate follow (Path.ofLocation loc) = .ok x ↔
      checkPath (Path.ofLocation loc) = .ok () ∧ d.Open loc ∧ x = (loc, e) := by
  rcases x with ⟨loc', e'⟩
  have hnames := hd.isName_of_mem (by simp [he] : (d.get? loc).isSome)
  rw [locate_eq_ok_iff, resolve_eq_ok_iff, Path.namesOf_ofLocation hnames,
    Path.startOf_ofLocation]
  constructor
  · rintro ⟨⟨hcheck, hres, -⟩, hget⟩
    rcases of_resolveFrom_location hd he hlink hres with ⟨hopen, heq⟩
    obtain rfl : loc' = loc := by simpa using heq
    rw [he] at hget
    exact ⟨hcheck, hopen, by simpa [eq_comm] using hget⟩
  · rintro ⟨hcheck, hopen, hx⟩
    rcases Prod.mk.inj hx with ⟨rfl, rfl⟩
    refine ⟨⟨hcheck, resolveFrom_location hd he hlink hopen _ _, ?_⟩, he⟩
    -- a path made of names never ends in a slash, except the root
    rintro loc hloc hslash
    obtain rfl := Place.entry.inj hloc
    cases loc' with
    | nil => rfl
    | cons n dir =>
      rw [Path.ofLocation_cons (hnames n (by simp)) fun m hm => hnames m (List.mem_cons_of_mem _ hm),
        endsInSlash_join (hnames n (by simp))] at hslash
      simp at hslash

/-- Following a path to its end never leads to a link. -/
theorem not_link_of_stepThrough {jump : Location → String → List String → Except DiskError Place}
    {loc : Location} (hjump : ∀ here target rest, d.holdsDir here = true →
      jump here target rest = .ok (.entry loc) → (d.get? loc).any Entry.isLink = false) :
    ∀ (ns : List String) (here : Location), (ns = [] → (d.get? here).any Entry.isLink = false) →
      d.stepThrough true jump here ns = .ok (.entry loc) →
      (d.get? loc).any Entry.isLink = false
  | [], here, hhere, h => by
    simp only [stepThrough, Except.ok.injEq, Place.entry.injEq] at h
    rw [← h]
    exact hhere rfl
  | name :: rest, here, hhere, h => by
    have ih := not_link_of_stepThrough hjump rest
    obtain ⟨⟨hdir, -⟩, hpasses⟩ := stepThrough_cons_eq_ok_iff.1 h
    obtain ⟨mode, hmode⟩ := holdsDir_iff.1 hdir
    cases hpasses with
    | slash hrest | dot hrest => exact ih here (fun _ => by simp [hmode, Entry.isLink]) hrest
    | dots hrest =>
      -- what lies above a directory is a directory
      refine ih here.tail (fun _ => ?_) hrest
      cases here with
      | nil => rfl
      | cons n dir =>
        obtain ⟨mode', hmode'⟩ := holdsDir_iff.1 (hd.holdsDir_of_get? hmode)
        simp [hmode', Entry.isLink]
    | vacant _ _ _ hplace => cases hplace
    | last _ _ _ hfollow => cases hfollow
    | link _ _ _ hj => exact hjump here _ rest hdir hj
    | entry _ hget hlink hrest => exact ih _ (fun _ => by simp [hget, hlink]) hrest

theorem not_link_of_resolveFrom {loc : Location} :
    ∀ (links : Nat) (here : Location) (ns : List String),
      (ns = [] → (d.get? here).any Entry.isLink = false) →
      d.resolveFrom true links here ns = .ok (.entry loc) →
      (d.get? loc).any Entry.isLink = false
  | 0, here, ns, hhere, h => not_link_of_stepThrough hd (by simp) ns here hhere h
  | links + 1, here, ns, hhere, h => by
    refine not_link_of_stepThrough hd (fun here target rest hdir hjump => ?_) ns here hhere h
    refine not_link_of_resolveFrom links _ _ (fun _ => ?_) hjump
    unfold startOf
    split
    · rfl
    · rcases holdsDir_iff.1 hdir with ⟨mode, hmode⟩
      simp [hmode, Entry.isLink]

end Names

/-- Only slashes go through no names. -/
theorem startOf_of_namesOf_eq_nil {text : String} (hne : text ≠ "") (h : namesOf text = [])
    (here : Location) : startOf text here = [] := by
  unfold startOf
  cases hchars : text.toList with
  | nil => exact absurd (String.toList_eq_nil_iff.1 hchars) hne
  | cons c cs =>
    by_cases hc : c = '/'
    · simp [hc]
    · -- a text that starts with anything else starts with a name
      rcases List.exists_cons_of_ne_nil (List.splitOn_ne_nil '/' cs) with ⟨first, others, hrest⟩
      have hslash : (c == '/') = false := by simpa using hc
      have hsegs : Path.segmentsOf text =
          String.ofList (c :: first) :: others.map String.ofList := by
        simp [Path.segmentsOf, hchars, List.splitOn_cons_eq_if_modifyHead, hrest, hslash]
      simp [namesOf, hsegs] at h

section Locate

variable {d : Disk} (hd : d.IsTree)
include hd

theorem not_link_of_locate {p : Path} {loc : Location} {e : Entry}
    (h : d.locate true p = .ok (loc, e)) : e.isLink = false := by
  rcases locate_eq_ok_iff.1 h with ⟨hres, hget⟩
  rcases resolve_eq_ok_iff.1 hres with ⟨hcheck, hfrom, -⟩
  have hne : p.text ≠ "" := by
    rintro hempty
    simp [checkPath, hempty] at hcheck
  have hlink := not_link_of_resolveFrom hd linkLimit _ _ (fun hnil => by
    rw [startOf_of_namesOf_eq_nil hne hnil]
    rfl) hfrom
  simpa [hget] using hlink

/-- The canonical path of a directory leads to it. -/
theorem canonical_eq_ok {p root : Path} (h : d.canonical p = .ok root) (hdir : d.isDir root = true) :
    ∃ loc mode, d.locate true p = .ok (loc, .dir mode) ∧ root = Path.ofLocation loc ∧
      d.get? loc = some (.dir mode) ∧ d.Open loc ∧ checkPath root = .ok () := by
  obtain ⟨⟨loc, e⟩, hloc, rfl⟩ := map_eq_ok_iff.1 h
  obtain ⟨loc', mode, hroot⟩ := isDir_iff_locate.1 hdir
  have hget := (locate_eq_ok_iff.1 hloc).2
  obtain ⟨hcheck, hopen, heq⟩ :=
    (locate_ofLocation_iff hd hget (not_link_of_locate hd hloc) true).1 hroot
  obtain ⟨rfl, rfl⟩ := Prod.mk.inj heq
  exact ⟨loc', mode, hloc, rfl, hget, hopen, hcheck⟩

end Locate

/-! ## Directories without links -/

/-- There are no links below a directory. -/
def LinkFree (d : Disk) (home : Location) : Prop :=
  ∀ loc e, home <:+ loc → d.get? loc = some e → e.isLink = false

theorem linkFree_of_entries {d : Disk} (h : ∀ x ∈ d.entries, x.2.isLink = false)
    (home : Location) : d.LinkFree home := by
  intro loc e _ he
  by_cases hne : loc = []
  · subst hne
    obtain rfl : Entry.dir newDirMode = e := by simpa using he
    rfl
  · exact h _ (mem_of_get? he hne)

end SiteFolders.Disk
