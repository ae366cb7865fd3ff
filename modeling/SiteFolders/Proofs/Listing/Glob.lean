import SiteFolders.Listing.Glob
import SiteFolders.Proofs.Listing.Below
import SiteFolders.Proofs.Listing.Skipping
import Mathlib.Data.List.Infix

/-!
# What matching lists

Matching goes through links as well, and it looks again at everything that matches: at the place
itself and at each directory above it. What is left are the files below the root that are reached
without a link (`isPlainFile_inside_iff`), and they are listed if they can be looked at (`Visible`):
if the directories on the way may be searched and the path is not too long. Where such a file is not
listed, a directory above it could not be read (`matches_complete`).
-/

namespace SiteFolders.Listing

open Disk Move

/-! ## What matches -/

theorem matchedRoot_ofLocation {home : Location} (hnames : ∀ n ∈ home, IsName n) :
    matchedRoot (Path.ofLocation home) = Path.ofLocation home := by
  by_cases hne : home = []
  · subst hne
    simp [matchedRoot, Path.ofLocation, Path.segmentsOf_slash, Path.join]
  · have hfold : ∀ {loc : Location}, (∀ n ∈ loc, IsName n) →
        loc.reverse.foldl Path.join ⟨"/"⟩ = Path.ofLocation loc := by
      intro loc hloc
      induction loc with
      | nil => simp [Path.ofLocation]
      | cons n dir ih =>
        have hdir : ∀ m ∈ dir, IsName m := fun m hm => hloc m (List.mem_cons_of_mem _ hm)
        rw [Path.ofLocation_cons (hloc n (by simp)) hdir, ← ih hdir]
        simp
    rw [matchedRoot, Path.segmentsOf_ofLocation hne hnames]
    exact hfold hnames

/-- The paths of a matching that are not there because they could not be read. -/
def matched (xs : List (Path × Option DiskError)) : List Path :=
  (xs.filter (·.2.isNone)).map (·.1)

theorem matched_flatMap {α : Type} (as : List α) (f : α → List (Path × Option DiskError)) :
    matched (as.flatMap f) = as.flatMap fun a => matched (f a) := by
  simp [matched, List.filter_flatMap, List.map_flatMap]

/-- A listing of parts that hold at most what matches has no other files. -/
theorem sublist_files_concat {f : Path × Option DiskError → Listing}
    (hf : ∀ x, (f x).files = [] ∨ x.2.isNone = true ∧ (f x).files = [x.1]) :
    ∀ xs : List (Path × Option DiskError), (concat (xs.map f)).files.Sublist (matched xs)
  | [] => .slnil
  | x :: xs => by
    have ih := sublist_files_concat hf xs
    have hfiles : (concat ((x :: xs).map f)).files = (f x).files ++ (concat (xs.map f)).files := rfl
    rw [hfiles]
    rcases hf x with hnone | ⟨hnone, hone⟩
    · rw [hnone, List.nil_append, matched, List.filter_cons]
      split
      · exact (ih.trans (List.sublist_cons_self x.1 _))
      · exact ih
    · rw [hone, matched, List.filter_cons, if_pos hnone]
      exact ih.cons_cons x.1

/-! ## Looking at places -/

/-- A place below a root can be looked at by the path that goes down to it. -/
structure Visible (d : Disk) (root : Path) (home below : Location) : Prop where
  checked : checkPath (root.descend below) = .ok ()
  opened : d.OpenBelow home below

section

variable {d : Disk} (hd : d.IsTree) {root : Path} {home : Location} {mode : Nat}
  (hroot : d.locate true root = .ok (home, .dir mode))

section

include hroot

theorem text_ne_empty_of_locate : root.text ≠ "" := by
  rcases locate_eq_ok_iff.1 hroot with ⟨hres, -⟩
  rcases resolve_eq_ok_iff.1 hres with ⟨hcheck, -, -⟩
  exact (checkPath_eq_ok_iff.1 hcheck).2.1

/-- The root with its segments joined anew leads to the same directory. -/
theorem locate_matchedRoot : d.locate true (matchedRoot root) = .ok (home, .dir mode) := by
  have htidies := Path.tidies_matchedRoot (text_ne_empty_of_locate hroot)
  rcases locate_eq_ok_iff.1 hroot with ⟨hres, hget⟩
  rcases resolve_eq_ok_iff.1 hres with ⟨hcheck, hfrom, -⟩
  refine locate_eq_ok_iff.2 ⟨resolve_eq_ok_iff.2 ⟨?_, ?_, ?_⟩, hget⟩
  · have hnone : ∀ n ∈ ([] : Location), IsName n := by simp
    have hcheck' : checkPath (root.descend []) = .ok () := by rwa [Path.descend]
    have hchecked := htidies.checkPath_descend hnone hcheck'
    rwa [Path.descend] at hchecked
  · rw [Bool.true_or] at hfrom
    rw [Bool.true_or, htidies.startOf_eq, htidies.namesOf_eq, hfrom]
  · intro loc heq _
    rw [← Place.entry.inj heq]
    exact holdsDir_iff.2 ⟨mode, hget⟩

end

include hd hroot

theorem visible_of_suffix {more below : Location} (hsome : (d.get? (more ++ below ++ home)).isSome)
    (h : Visible d root home (more ++ below)) : Visible d root home below := by
  constructor
  · exact Path.checkPath_of_descend (text_ne_empty_of_locate hroot) (hd.isName_below hsome) h.checked
  · exact h.opened.of_suffix (List.suffix_append more below)

/-- What is found at the place itself of an entry. -/
theorem lstat_descend_iff {n : String} {below : Location} {e : Entry}
    (he : d.get? (n :: (below ++ home)) = some e) {e' : Entry} :
    d.lstat (root.descend (n :: below)) = .ok e' ↔
      Visible d root home (n :: below) ∧ e' = e := by
  have hlocate := fun x =>
    @locate_descend_iff d hd root home (rootAt_of_locate hroot) n below e he false (by simp) x
  rw [lstat_eq_ok_iff]
  constructor
  · rintro ⟨loc, hloc⟩
    obtain ⟨hcheck, hopen, hx⟩ := (hlocate _).1 hloc
    exact ⟨⟨hcheck, hopen⟩, (Prod.mk.inj hx).2⟩
  · rintro ⟨⟨hcheck, hopen⟩, rfl⟩
    exact ⟨_, (hlocate _).2 ⟨hcheck, hopen, rfl⟩⟩

/-- What is found below a place that is no link is an entry of the directory there. -/
theorem get?_of_lstat {n : String} {below : Location} {e₀ e : Entry}
    (he₀ : d.get? (below ++ home) = some e₀) (hlink : e₀.isLink = false)
    (hopen : d.OpenBelow home below) (hn : IsName n)
    (h : d.lstat (root.descend (n :: below)) = .ok e) :
    d.get? (n :: (below ++ home)) = some e ∧ Visible d root home (n :: below) := by
  have hlast : (namesOf (root.descend (n :: below)).text).getLast? = some n := by
    rw [Path.descend, namesOf_join hn]
    simp
  obtain ⟨loc, hloc⟩ := lstat_eq_ok_iff.1 h
  rcases reaches_of_resolve hlast hn (locate_eq_ok_iff.1 hloc).1 with ⟨dir, hreach, -⟩
  rcases (Disk.reaches_join_iff hn).1 hreach with ⟨hcheck, hsearch, hleads⟩
  -- the names before the last one lead to the place above
  rw [resolveFrom_descend hd (rootAt_of_locate hroot) he₀ hlink hopen] at hleads
  obtain rfl : below ++ home = dir := by simpa using hleads
  obtain ⟨-, rfl, hget⟩ := (locate_false_eq_ok_iff (endsInSlash_join hn _) hreach).1 hloc
  exact ⟨hget, hcheck, openBelow_cons.2 ⟨hsearch, hopen⟩⟩

/-- Where everything on the way is there and is no link, the names lead down to their place. -/
theorem place_of_lstat {below : Location} (hbelow : ∀ n ∈ below, IsName n)
    (hplain : ∀ above, above <:+ below → above ≠ [] →
      (d.lstat (root.descend above)).toOption.any (fun e => !e.isLink) = true) :
    ∃ e, d.get? (below ++ home) = some e ∧ e.isLink = false ∧ d.OpenBelow home below := by
  induction below with
  | nil => exact ⟨.dir mode, (locate_eq_ok_iff.1 hroot).2, rfl, openBelow_nil d home⟩
  | cons n below ih =>
    have hbelow' : ∀ m ∈ below, IsName m := fun m hm => hbelow m (List.mem_cons_of_mem _ hm)
    rcases ih hbelow' fun above hs hne => hplain above (hs.trans (List.suffix_cons n below)) hne with
      ⟨e₀, he₀, hlink₀, hopen⟩
    have hself := hplain (n :: below) List.suffix_rfl (by simp)
    obtain ⟨e, hstat, hlink⟩ := any_toOption_eq_true_iff.1 hself
    rcases get?_of_lstat hd hroot he₀ hlink₀ hopen (hbelow n (by simp)) hstat with ⟨he, hvisible⟩
    exact ⟨e, he, by simpa using hlink, hvisible.opened⟩

omit hd hroot in
/-- The test of the directories on the way to a place, in terms of their names. -/
theorem all_ancestors_inside_iff {n : String} {below : Location}
    (hbelow : ∀ m ∈ n :: below, IsName m) :
    ((Path.inside (n :: below)).ancestors.drop 1).all (fun dir => dir.text.isEmpty ||
        (d.lstat (root.join dir.text)).toOption.any fun e => !e.isLink) = true ↔
      ∀ above, above <:+ below → above ≠ [] →
        (d.lstat (root.descend above)).toOption.any (fun e => !e.isLink) = true := by
  have habove : ∀ above, above <:+ below → ∀ m ∈ above, IsName m :=
    fun above hs m hm => hbelow m (List.mem_cons_of_mem n (hs.subset hm))
  rw [Path.ancestors_inside hbelow, List.tails, List.map_cons, List.drop_one, List.tail_cons,
    List.all_map, List.all_eq_true]
  constructor
  · intro h above hs hne
    have hone := h above ((List.mem_tails _ _).2 hs)
    have htext := Path.text_inside_ne_empty (habove above hs) hne
    rw [Function.comp_apply, Path.join_inside (habove above hs) hne] at hone
    simpa [htext] using hone
  · intro h above hs
    rw [Function.comp_apply]
    by_cases hnil : above = []
    · -- the root itself stands for no name and is not looked at
      simp [hnil, Path.inside, Path.descend]
    · have hs := (List.mem_tails _ _).1 hs
      rw [Path.join_inside (habove above hs) hnil]
      simp [h above hs hnil]

/-- The directories on the way to an entry that can be looked at are found, and they are no links. -/
theorem lstat_above {n : String} {below : Location} {e : Entry}
    (he : d.get? (n :: (below ++ home)) = some e) (hvisible : Visible d root home (n :: below))
    {above : Location} (hs : above <:+ below) (hnil : above ≠ []) :
    (d.lstat (root.descend above)).toOption.any (fun e => !e.isLink) = true := by
  rcases hs with ⟨more, rfl⟩
  rcases List.exists_cons_of_ne_nil hnil with ⟨m, above, rfl⟩
  have hsome : (d.get? ((n :: more) ++ (m :: above) ++ home)).isSome := by
    have hplace : (n :: more) ++ (m :: above) ++ home = n :: (more ++ m :: above ++ home) := rfl
    rw [hplace, he]
    rfl
  have hvisible' := visible_of_suffix hd hroot hsome hvisible
  rw [List.append_assoc] at hsome
  rcases hd.dir_above (List.cons_ne_nil n more) hsome with ⟨mode', hmode'⟩
  rw [(lstat_descend_iff hd hroot hmode').2 ⟨hvisible', rfl⟩]
  rfl

/-- A place is taken for a file that was reached without a link exactly if there is a file by these
names below the root and it can be looked at. -/
theorem isPlainFile_inside_iff {below : Location} (hbelow : ∀ n ∈ below, IsName n)
    (hne : below ≠ []) : isPlainFile d root (Path.inside below) = true ↔
      (d.get? (below ++ home)).any Entry.isFile = true ∧ Visible d root home below := by
  rcases List.exists_cons_of_ne_nil hne with ⟨n, below, rfl⟩
  have hnames : ∀ m ∈ below, IsName m := fun m hm => hbelow m (List.mem_cons_of_mem _ hm)
  rw [isPlainFile, Bool.and_eq_true, all_ancestors_inside_iff hbelow, Path.join_inside hbelow hne]
  constructor
  · rintro ⟨hfile, hplain⟩
    -- nothing on the way is a link, so what is found is what lies at the place
    rcases place_of_lstat hd hroot hnames hplain with ⟨e₀, he₀, hlink, hopen⟩
    obtain ⟨e, hstat, hefile⟩ := any_toOption_eq_true_iff.1 hfile
    rcases get?_of_lstat hd hroot he₀ hlink hopen (hbelow n (by simp)) hstat with ⟨he, hvisible⟩
    refine ⟨?_, hvisible⟩
    rw [List.cons_append, he]
    exact hefile
  · rintro ⟨hfile, hvisible⟩
    rcases (Option.any_eq_true _ _).1 hfile with ⟨e, he, hefile⟩
    refine ⟨?_, fun above hs hnil => lstat_above hd hroot he hvisible hs hnil⟩
    exact any_toOption_eq_true_iff.2 ⟨e, (lstat_descend_iff hd hroot he).2 ⟨hvisible, rfl⟩, hefile⟩

/-! ## Matching from a place downwards -/

omit hd hroot in
/-- What matches below a directory lies below it, by names; a place that could not be read is
reported with the error. -/
theorem of_mem_matches (hd : d.IsTree) (depth : Nat) : ∀ {below : Location}
    {x : Path × Option DiskError}, x ∈ matches? d depth (root.descend below) →
      ∃ more, x.1 = root.descend (more ++ below) ∧ (∀ n ∈ more, IsName n) ∧
        (x.2 = none → more ≠ []) ∧ ∀ e, x.2 = some e → d.readDir x.1 = .error e := by
  induction depth with
  | zero =>
    intro below x hx
    simp [matches?] at hx
  | succ depth ih =>
    intro below x hx
    rw [matches?] at hx
    cases hread : d.readDir (root.descend below) with
    | error e =>
      simp only [hread, List.mem_singleton] at hx
      subst hx
      exact ⟨[], rfl, by simp, by simp, by simp [hread]⟩
    | ok entries =>
      simp only [hread, List.mem_flatMap, List.mem_cons] at hx
      rcases hx with ⟨⟨n, e⟩, hentry, hx⟩
      have hn : ∀ m ∈ [n], IsName m := by simpa using (names_of_readDir hd hread).1 _ hentry
      rcases hx with rfl | hx
      · -- the entry itself
        exact ⟨[n], rfl, hn, by simp, by simp⟩
      · -- what lies in the entry, which is then a directory
        split at hx
        · rcases @ih (n :: below) x hx with ⟨more, hpath, hmore, -, herror⟩
          exact ⟨more ++ [n], by simp [hpath], List.forall_mem_append.2 ⟨hmore, hn⟩, by simp, herror⟩
        · simp at hx

omit hd hroot in
/-- What matches below a place has more names than the place. -/
theorem of_mem_matched (hd : d.IsTree) {depth : Nat} {place : Location}
    (hplace : ∀ n ∈ place, IsName n) {p : Path}
    (hp : p ∈ matched (matches? d depth (root.descend place))) :
    ∃ more, more ≠ [] ∧ p = root.descend (more ++ place) ∧ ∀ n ∈ more ++ place, IsName n := by
  obtain ⟨x, hx, rfl⟩ := List.mem_map.1 hp
  obtain ⟨hx, hnone⟩ := List.mem_filter.1 hx
  obtain ⟨more, hpath, hmore, hne, -⟩ := of_mem_matches hd depth hx
  exact ⟨more, hne (by simpa using hnone), hpath, List.forall_mem_append.2 ⟨hmore, hplace⟩⟩

/-- What matches at an entry of a directory: the entry, and what lies in it. -/
def matchesAt (d : Disk) (depth : Nat) (p : Path) : List (Path × Option DiskError) :=
  (p, none) :: if d.isDir p then matches? d depth p else []

omit hd hroot in
theorem matches?_succ {depth : Nat} {dir : Path} {entries : List (String × Entry)}
    (hread : d.readDir dir = .ok entries) :
    matches? d (depth + 1) dir = entries.flatMap fun x => matchesAt d depth (dir.join x.1) := by
  rw [matches?, hread]
  rfl

omit hd hroot in
theorem matched_matchesAt (depth : Nat) (p : Path) : matched (matchesAt d depth p) =
    p :: if d.isDir p then matched (matches? d depth p) else [] := by
  unfold matchesAt
  split <;> simp [matched]

omit hroot in
theorem nodup_matchesAt {depth : Nat} {place : Location} (hplace : ∀ n ∈ place, IsName n)
    (hnodup : (matched (matches? d depth (root.descend place))).Nodup) :
    (matched (matchesAt d depth (root.descend place))).Nodup := by
  rw [matched_matchesAt]
  split
  · refine List.nodup_cons.2 ⟨fun hmem => ?_, hnodup⟩
    obtain ⟨more, hne, hpath, hnames⟩ := of_mem_matched hd hplace hmem
    have heq := Path.descend_inj hplace hnames (congrArg Path.components hpath)
    exact hne (List.self_eq_append_left.1 heq)
  · simp

omit hroot in
theorem liesBelow_of_mem_matchesAt {depth : Nat} {place : Location} (hplace : ∀ n ∈ place, IsName n)
    {p : Path} (hp : p ∈ matched (matchesAt d depth (root.descend place))) :
    LiesBelow root place p := by
  rw [matched_matchesAt] at hp
  rcases List.mem_cons.1 hp with rfl | hp
  · exact ⟨place, rfl, List.suffix_rfl, hplace⟩
  · split at hp
    · obtain ⟨more, -, hpath, hnames⟩ := of_mem_matched hd hplace hp
      exact ⟨more ++ place, hpath, List.suffix_append more place, hnames⟩
    · simp at hp

omit hroot in
/-- Nothing matches twice. -/
theorem nodup_matched (depth : Nat) : ∀ {below : Location}, (∀ n ∈ below, IsName n) →
    (matched (matches? d depth (root.descend below))).Nodup := by
  induction depth with
  | zero =>
    intro below _
    simp [matches?, matched]
  | succ depth ih =>
    intro below hbelow
    cases hread : d.readDir (root.descend below) with
    | error e => simp [matches?, hread, matched]
    | ok entries =>
      rw [matches?_succ hread, matched_flatMap]
      obtain ⟨hnames, hdiffer⟩ := names_of_readDir hd hread
      refine nodup_flatMap root below hdiffer fun x hx => ?_
      have hplace : ∀ n ∈ x.1 :: below, IsName n := List.forall_mem_cons.2 ⟨hnames x hx, hbelow⟩
      exact ⟨nodup_matchesAt hd hplace (ih hplace),
        fun p hp => liesBelow_of_mem_matchesAt hd hplace hp⟩

/-- Either a place below matches, or a place above it could not be read. -/
def MatchesOrReports (root : Path) (below more : Location) (xs : List (Path × Option DiskError)) :
    Prop :=
  (root.descend (more ++ below), none) ∈ xs ∨ ∃ above, above <:+ more ∧ above ≠ more ∧
    ∃ e, (root.descend (above ++ below), some e) ∈ xs

omit hd hroot in
theorem MatchesOrReports.of_entry {m : String} {below more : Location}
    {xs ys : List (Path × Option DiskError)} (h : MatchesOrReports root (m :: below) more xs)
    (hsub : xs ⊆ ys) : MatchesOrReports root below (more ++ [m]) ys := by
  have hsplit : ∀ names : Location, (names ++ [m]) ++ below = names ++ m :: below := by simp
  rcases h with hin | ⟨above, habove, hne, e, hin⟩
  · left
    rw [hsplit]
    exact hsub hin
  · right
    refine ⟨above ++ [m], ?_, fun heq => hne (List.append_cancel_right heq), e, ?_⟩
    · rcases habove with ⟨rest, rfl⟩
      exact ⟨rest, by simp⟩
    · rw [hsplit]
      exact hsub hin

theorem isDir_descend {below : Location} {dirMode : Nat}
    (hdir : d.get? (below ++ home) = some (.dir dirMode)) (hvisible : Visible d root home below) :
    d.isDir (root.descend below) = true := by
  exact isDir_iff_locate.2
    ⟨_, _, (locate_dir_iff hd hroot hdir).2 ⟨hvisible.checked, hvisible.opened, rfl⟩⟩

/-- An entry below a directory that can be looked at matches, unless a directory on the way could
not be read. -/
theorem matches_complete (depth : Nat) : ∀ {below more : Location}, more ≠ [] →
    more.length ≤ depth → (d.get? (more ++ below ++ home)).isSome →
    Visible d root home (more ++ below) →
    MatchesOrReports root below more (matches? d depth (root.descend below)) := by
  induction depth with
  | zero =>
    intro below more hne hlen
    exact absurd (List.length_pos_iff.2 hne) (by omega)
  | succ depth ih =>
    intro below more hne hlen hsome hvisible
    cases hread : d.readDir (root.descend below) with
    | error e =>
      right
      exact ⟨[], List.nil_suffix, fun h => hne h.symm, e, by simp [matches?, hread]⟩
    | ok entries =>
      obtain ⟨dirMode, hdir⟩ := hd.dir_above hne (List.append_assoc more below home ▸ hsome)
      rw [matches?_succ hread]
      -- the outermost of the names is that of an entry
      obtain ⟨more, m, rfl⟩ := (List.eq_nil_or_concat more).resolve_left hne
      rw [List.concat_eq_append] at *
      have hsplit : (more ++ [m]) ++ below = more ++ m :: below := by simp
      rw [hsplit] at hsome hvisible
      have hentry : ∀ {e : Entry}, d.get? (m :: below ++ home) = some e →
          matchesAt d depth (root.descend (m :: below)) ⊆
            entries.flatMap fun x => matchesAt d depth ((root.descend below).join x.1) := by
        intro e he x hx
        exact List.mem_flatMap.2 ⟨(m, e), (mem_readDir_iff hd hroot hdir hread).2 he, hx⟩
      by_cases hmore : more = []
      · -- the place is that of the entry, which matches
        subst hmore
        obtain ⟨e, he⟩ := Option.isSome_iff_exists.1 hsome
        exact Or.inl (hentry he List.mem_cons_self)
      · -- the entry is a directory that matching goes into
        obtain ⟨entryMode, he⟩ := hd.dir_above hmore (List.append_assoc more _ home ▸ hsome)
        have hisDir := isDir_descend hd hroot he (visible_of_suffix hd hroot hsome hvisible)
        have hdown : matches? d depth (root.descend (m :: below)) ⊆
            matchesAt d depth (root.descend (m :: below)) := by
          rw [matchesAt, if_pos hisDir]
          exact List.subset_cons_self _ _
        simp only [List.length_append, List.length_singleton] at hlen
        exact (ih hmore (by omega) hsome hvisible).of_entry (List.Subset.trans hdown (hentry he))

/-! ## What is listed of what matches -/

/-- What is listed for one match: the place itself if it is a file, or the error. -/
def listMatch (d : Disk) (skipped : List String) (root : Path) (x : Path × Option DiskError) :
    Listing :=
  let relative := (Path.stripPrefix? root x.1).getD x.1
  if isDropped skipped relative then {}
  else match x.2 with
  | some e => .trouble x.1 (.matching e)
  | none => if isPlainFile d root relative then .file x.1 else {}

omit hd hroot in
theorem glob_eq (skipped : List String) {entries : List (String × Entry)}
    (hread : d.readDir root = .ok entries) : glob skipped d root = .ok (concat
      ((matches? d (depthOf d) (matchedRoot root)).map (listMatch d skipped root))) := by
  unfold glob
  rw [hread]
  rfl

omit hd hroot in
theorem files_listMatch (d : Disk) (skipped : List String) (root : Path)
    (x : Path × Option DiskError) : (listMatch d skipped root x).files = [] ∨
      x.2.isNone = true ∧ (listMatch d skipped root x).files = [x.1] := by
  unfold listMatch
  dsimp only
  split
  · exact Or.inl rfl
  · split
    · exact Or.inl rfl
    · next hnone =>
      split
      · exact Or.inr ⟨by simp [hnone], rfl⟩
      · exact Or.inl rfl

omit hroot in
/-- Nothing is listed twice. -/
theorem nodup_files_glob {skipped : List String} {entries : List (String × Entry)}
    (hread : d.readDir root = .ok entries) {listing : Listing}
    (hglob : glob skipped d root = .ok listing) : listing.files.Nodup := by
  rw [glob_eq skipped hread, Except.ok.injEq] at hglob
  rw [← hglob]
  refine List.Nodup.sublist (sublist_files_concat (files_listMatch d skipped root) _) ?_
  have hnone : ∀ n ∈ ([] : Location), IsName n := by simp
  have hnodup := @nodup_matched d hd (matchedRoot root) (depthOf d) [] hnone
  rwa [Path.descend] at hnodup

variable {skipped : List String} (hskipped : ∀ s ∈ skipped, '/' ∉ s.toList)

omit hd in
/-- What is listed for a match below the root depends on its names. -/
theorem listMatch_descend {below : Location} (hbelow : ∀ n ∈ below, IsName n)
    (error : Option DiskError) :
    listMatch d skipped root ((matchedRoot root).descend below, error) =
      if isDropped skipped (Path.inside below) then {}
      else match error with
      | some e => .trouble ((matchedRoot root).descend below) (.matching e)
      | none =>
        if isPlainFile d root (Path.inside below) then .file ((matchedRoot root).descend below)
        else {} := by
  have hne := text_ne_empty_of_locate hroot
  have hstrip := Path.stripPrefix?_descend hbelow hne (Path.tidies_matchedRoot hne).components_eq
  simp only [listMatch, hstrip, Option.getD_some]

theorem mem_files_listMatch (skipped : List String) {below : Location}
    (hbelow : ∀ n ∈ below, IsName n) (hne : below ≠ []) {p : Path} :
    p ∈ (listMatch d skipped root ((matchedRoot root).descend below, none)).files ↔
      p = (matchedRoot root).descend below ∧ ¬ isDropped skipped (Path.inside below) = true ∧
        (d.get? (below ++ home)).any Entry.isFile = true ∧ Visible d root home below := by
  rw [listMatch_descend hroot hbelow, ← isPlainFile_inside_iff hd hroot hbelow hne]
  constructor
  · intro hp
    split at hp
    · simp at hp
    · next hkept =>
      simp only at hp
      split at hp
      · next hfile => exact ⟨by simpa [Listing.file] using hp, hkept, hfile⟩
      · simp at hp
  · rintro ⟨rfl, hkept, hfile⟩
    rw [if_neg hkept]
    simp [hfile, Listing.file]

omit hd hroot in
/-- The root as it stands in front of what matches can be read if the root can be. -/
theorem readDir_matchedRoot {entries : List (String × Entry)} (hread : d.readDir root = .ok entries) :
    d.readDir (matchedRoot root) = .ok entries := by
  obtain ⟨loc, mode', hloc, hmay, rfl⟩ := readDir_eq_ok_iff.1 hread
  exact readDir_eq_ok_iff.2 ⟨loc, mode', locate_matchedRoot hloc, hmay, rfl⟩

omit hroot in
/-- What matches lies below the root, the places included that could not be read. -/
theorem of_mem_matches_root {entries : List (String × Entry)} (hread : d.readDir root = .ok entries)
    {depth : Nat} {x : Path × Option DiskError} (hx : x ∈ matches? d depth (matchedRoot root)) :
    ∃ below, x = ((matchedRoot root).descend below, x.2) ∧ (∀ n ∈ below, IsName n) ∧ below ≠ [] ∧
      ∀ e, x.2 = some e → d.readDir ((matchedRoot root).descend below) = .error e := by
  have hx' : x ∈ matches? d depth ((matchedRoot root).descend []) := by rwa [Path.descend]
  obtain ⟨below, hpath, hnames, hne, herror⟩ := of_mem_matches hd _ hx'
  rw [List.append_nil] at hpath
  rw [hpath] at herror
  refine ⟨below, by rw [← hpath], hnames, ?_, herror⟩
  cases hx2 : x.2 with
  | none => exact hne hx2
  | some e =>
    rintro rfl
    have hroot_error : d.readDir (matchedRoot root) = .error e := herror e hx2
    rw [readDir_matchedRoot hread] at hroot_error
    cases hroot_error

/-- What is listed is a match. -/
theorem of_mem_files_glob {entries : List (String × Entry)} (hread : d.readDir root = .ok entries)
    {listing : Listing} (hglob : glob skipped d root = .ok listing) {p : Path}
    (hp : p ∈ listing.files) : ∃ below, p = (matchedRoot root).descend below ∧
      (∀ n ∈ below, IsName n) ∧ below ≠ [] ∧ ¬ isDropped skipped (Path.inside below) = true ∧
        (d.get? (below ++ home)).any Entry.isFile = true ∧ Visible d root home below := by
  rw [glob_eq skipped hread, Except.ok.injEq] at hglob
  rw [← hglob] at hp
  rcases mem_files_concat.1 hp with ⟨part, hpart, hp⟩
  rcases List.mem_map.1 hpart with ⟨x, hx, rfl⟩
  rcases of_mem_matches_root hd hread hx with ⟨below, heq, hnames, hne, -⟩
  rcases files_listMatch d skipped root x with hnil | ⟨hnone, -⟩
  · simp [hnil] at hp
  · rw [heq, Option.isNone_iff_eq_none.1 hnone] at hp
    rcases (mem_files_listMatch hd hroot skipped hnames hne).1 hp with ⟨hp, hrest⟩
    exact ⟨below, hp, hnames, hne, hrest⟩

include hskipped

/-- What a listing by matching holds: files that can be looked at, and places that could not be
read, none of them in a skipped directory. -/
structure Matched (d : Disk) (skipped : List String) (root : Path) (home : Location)
    (listing : Listing) : Prop where
  files : ∀ p ∈ listing.files, ∃ below, p = (matchedRoot root).descend below ∧
    Listable d skipped home below ∧ Visible d root home below
  unreadable : ∀ s ∈ listing.unreadable, ∃ below e,
    s = ⟨(matchedRoot root).descend below, .matching e⟩ ∧ (∀ n ∈ below, IsName n) ∧
    (∀ m ∈ below.tail, m ∉ skipped) ∧ d.readDir ((matchedRoot root).descend below) = .error e

/-- What is reported could not be read, and it lies in no skipped directory. -/
theorem of_mem_unreadable_glob {entries : List (String × Entry)}
    (hread : d.readDir root = .ok entries) {listing : Listing}
    (hglob : glob skipped d root = .ok listing) {s : Skip} (hs : s ∈ listing.unreadable) :
    ∃ below e, s = ⟨(matchedRoot root).descend below, .matching e⟩ ∧ (∀ n ∈ below, IsName n) ∧
      (∀ m ∈ below.tail, m ∉ skipped) ∧
      d.readDir ((matchedRoot root).descend below) = .error e := by
  rw [glob_eq skipped hread, Except.ok.injEq] at hglob
  rw [← hglob] at hs
  rcases mem_unreadable_concat.1 hs with ⟨part, hpart, hs⟩
  rcases List.mem_map.1 hpart with ⟨x, hx, rfl⟩
  rcases of_mem_matches_root hd hread hx with ⟨below, heq, hnames, hne, herror⟩
  rw [heq, listMatch_descend hroot hnames] at hs
  split at hs
  · simp at hs
  · next hkept =>
    rw [isDropped_inside_iff hskipped hnames hne] at hkept
    cases hx2 : x.2 with
    | none =>
      -- a match that was read is either listed or left out, but never reported
      simp only [hx2] at hs
      split at hs <;> simp [Listing.file] at hs
    | some e =>
      simp only [hx2, Listing.trouble, List.mem_singleton] at hs
      refine ⟨below, e, hs, hnames, ?_, herror e hx2⟩
      intro m hm hmem
      exact hkept ⟨m, hmem, hm⟩

omit hroot hskipped in
/-- No file lies deeper than matching goes. -/
theorem length_le_depthOf {below : Location} (hsome : (d.get? (below ++ home)).isSome) :
    below.length ≤ depthOf d := by
  have hle := hd.length_le_entries hsome
  simp only [List.length_append] at hle
  unfold depthOf linkLimit
  omega

omit hd hskipped in
theorem Visible.matchedRoot {below : Location} (hnames : ∀ n ∈ below, IsName n)
    (h : Visible d root home below) : Visible d (matchedRoot root) home below :=
  ⟨(Path.tidies_matchedRoot (text_ne_empty_of_locate hroot)).checkPath_descend hnames h.checked,
    h.opened⟩

/-- A file that can be looked at is listed, unless a directory above it is reported. -/
theorem glob_complete {entries : List (String × Entry)} (hread : d.readDir root = .ok entries)
    {listing : Listing} (hglob : glob skipped d root = .ok listing) {below : Location}
    (hlistable : Listable d skipped home below) (hvisible : Visible d root home below) :
    (matchedRoot root).descend below ∈ listing.files ∨ ∃ above, above <:+ below.tail ∧
      ∃ s ∈ listing.unreadable, s.path = (matchedRoot root).descend above := by
  rw [glob_eq skipped hread, Except.ok.injEq] at hglob
  subst hglob
  have hfile := hlistable.isFile
  have hsome := Option.isSome_of_any hfile
  have hnames := hd.isName_below hsome
  have hne : below ≠ [] := by
    rintro rfl
    rw [List.nil_append, (locate_eq_ok_iff.1 hroot).2] at hfile
    simp [Entry.isFile] at hfile
  have hcomplete := @matches_complete d hd (matchedRoot root) home mode (locate_matchedRoot hroot)
    (depthOf d) [] below hne (length_le_depthOf hd hsome) (by simpa using hsome)
    (by simpa using hvisible.matchedRoot hroot hnames)
  simp only [MatchesOrReports, List.append_nil, Path.descend] at hcomplete
  rcases hcomplete with hin | ⟨above, habove, hne', e, hin⟩
  · left
    refine mem_files_concat.2 ⟨_, List.mem_map_of_mem hin, ?_⟩
    refine (mem_files_listMatch hd hroot skipped hnames hne).2 ⟨rfl, ?_, hfile, hvisible⟩
    rw [isDropped_inside_iff hskipped hnames hne]
    rintro ⟨s, hmem, hs⟩
    exact hlistable.kept s hs hmem
  · right
    -- what could not be read lies strictly above the file, and strictly below the root
    have htail : above <:+ below.tail := by
      rcases List.exists_cons_of_ne_nil hne with ⟨n, dirs, rfl⟩
      exact (List.suffix_cons_iff.1 habove).resolve_left hne'
    have hnames' : ∀ n ∈ above, IsName n := fun n hn => hnames n (habove.subset hn)
    have habove_ne : above ≠ [] := by
      rintro rfl
      rcases of_mem_matches_root hd hread hin with ⟨place, heq, hplace, hplace_ne, -⟩
      have hcomponents := congrArg Path.components (Prod.mk.inj heq).1
      exact hplace_ne (Path.descend_inj hnames' hplace hcomponents).symm
    refine ⟨above, htail, ⟨(matchedRoot root).descend above, .matching e⟩, ?_, rfl⟩
    refine mem_unreadable_concat.2 ⟨_, List.mem_map_of_mem hin, ?_⟩
    rw [listMatch_descend hroot hnames', if_neg]
    · simp [Listing.trouble]
    · rw [isDropped_inside_iff hskipped hnames' habove_ne]
      rintro ⟨s, hmem, hs⟩
      exact hlistable.kept s (htail.subset (List.mem_of_mem_tail hs)) hmem

/-- Matching below a root that can be read lists files that can be looked at, none of them twice;
where it does not list such a file, a directory above it is reported. -/
theorem glob_spec {entries : List (String × Entry)} (hread : d.readDir root = .ok entries) :
    ∃ listing, glob skipped d root = .ok listing ∧ listing.files.Nodup ∧
      Matched d skipped root home listing ∧
      ∀ below, Listable d skipped home below → Visible d root home below →
        (matchedRoot root).descend below ∈ listing.files ∨
          ∃ above, above <:+ below.tail ∧
            ∃ s ∈ listing.unreadable, s.path = (matchedRoot root).descend above := by
  have hglob := glob_eq skipped hread
  refine ⟨_, hglob, nodup_files_glob hd hread hglob, ⟨?_, ?_⟩, ?_⟩
  · intro p hp
    rcases of_mem_files_glob hd hroot hread hglob hp with
      ⟨below, hpath, hnames, hne, hkept, hfile, hvisible⟩
    refine ⟨below, hpath, ⟨hfile, fun s hs hmem => hkept ?_⟩, hvisible⟩
    rw [isDropped_inside_iff hskipped hnames hne]
    exact ⟨s, hmem, hs⟩
  · intro s hs
    exact of_mem_unreadable_glob hd hroot hskipped hread hglob hs
  · intro below hlistable hvisible
    exact glob_complete hd hroot hskipped hread hglob hlistable hvisible

end

end SiteFolders.Listing
