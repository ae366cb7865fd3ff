import SiteFolders.Proofs.Listing.Glob
import SiteFolders.Proofs.Listing.Walk

/-!
# Both listings side by side

Where every directory can be read and searched, walking and matching list the same files, each of
them once: those below the root that are reached without a link and lie in no skipped directory.
They differ only on paths that are too long. A walk takes the type of an entry from its directory, so
it lists a file if the path of its directory still works; matching looks the file itself up
(`walk_glob_agree`).

Where directories cannot be read, both report a directory above every file that they leave out
(`listings_account`), but matching does so only for files that it can look up.
-/

namespace SiteFolders.Listing

open Disk Move

/-- Every directory from a place downwards can be read and searched. -/
def OpenFrom (d : Disk) (home : Location) : Prop :=
  ∀ below mode, d.get? (below ++ home) = some (.dir mode) →
    d.mayRead mode = true ∧ d.maySearch mode = true

theorem OpenFrom.openBelow {d : Disk} {home : Location} (h : OpenFrom d home) (hd : d.IsTree)
    {below : Location} (hsome : (d.get? (below ++ home)).isSome) : d.OpenBelow home below := by
  intro n dir hdir
  rcases hdir with ⟨more, rfl⟩
  have hplace : more ++ n :: dir ++ home = (more ++ [n]) ++ (dir ++ home) := by simp
  rw [hplace] at hsome
  rcases hd.dir_above (by simp) hsome with ⟨mode, hmode⟩
  exact ⟨mode, hmode, (h dir mode hmode).2⟩

/-- The listing holds the file at a place, or reports a directory above it. -/
def AccountsFor (root : Path) (listing : Listing) (below : Location) : Prop :=
  (∃ p ∈ listing.files, p.same (root.descend below) = true) ∨
    ∃ above, above <:+ below ∧ ∃ s ∈ listing.unreadable, s.path.same (root.descend above) = true

section

variable {d : Disk} (hd : d.IsTree) {root : Path} {home : Location} {mode : Nat}
  (hroot : d.locate true root = .ok (home, .dir mode)) {skipped : List String}
include hd hroot

omit hd in
theorem readDir_root (hread : d.mayRead mode = true) : ∃ entries, d.readDir root = .ok entries :=
  ⟨d.children home, readDir_eq_ok_iff.2 ⟨home, mode, hroot, hread, rfl⟩⟩

theorem Listable.names {below : Location} (h : Listable d skipped home below) :
    (∀ n ∈ below, IsName n) ∧ below ≠ [] := by
  constructor
  · exact hd.isName_below (Option.isSome_of_any h.isFile)
  · rintro rfl
    have hfile := h.isFile
    rw [List.nil_append, (locate_eq_ok_iff.1 hroot).2] at hfile
    simp [Entry.isFile] at hfile

/-! ## Where everything can be read -/

section

variable (hopen : OpenFrom d home)
include hopen

/-- A directory above an entry can be read if its path is not too long. -/
theorem readDir_above {more above : Location} (hne : more ≠ [])
    (hsome : (d.get? (more ++ above ++ home)).isSome)
    (hcheck : checkPath (root.descend above) = .ok ()) :
    d.readDir (root.descend above) = .ok (d.children (above ++ home)) := by
  rw [List.append_assoc] at hsome
  rcases hd.dir_above hne hsome with ⟨dirMode, hdirMode⟩
  refine (readDir_descend_iff hd hroot hdirMode).2 ⟨hcheck, ?_, (hopen _ _ hdirMode).1, rfl⟩
  exact hopen.openBelow hd (by rw [hdirMode]; rfl)

/-- A walk lists every file if the path of its directory still works. -/
theorem covers_walk (skipped : List String) : ∃ listing, walk skipped d root = .ok listing ∧
    Covers root (fun below => Listable d skipped home below ∧
      checkPath (root.descend below.tail) = .ok ()) listing.files := by
  have hhome : d.get? ([] ++ home) = some (.dir mode) := (locate_eq_ok_iff.1 hroot).2
  rcases readDir_root hroot (hopen [] mode hhome).1 with ⟨entries, hread⟩
  rcases walk_spec hd skipped hroot hread with ⟨listing, hwalk, hnodup, hwalked, hcomplete⟩
  refine ⟨listing, hwalk, covers_of_nodup rfl hnodup ?_ ?_⟩
  · intro below hlisted
    exact (hlisted.1.names hd hroot).1
  intro p
  constructor
  · intro hp
    rcases hwalked.files p hp with ⟨n, dirs, hpath, hfile, hkept, entries', hread'⟩
    rw [List.append_nil] at hpath hfile hread'
    have hfile' : (d.get? ((n :: dirs) ++ home)).any Entry.isFile = true := hfile
    rcases Option.isSome_iff_exists.1 (Option.isSome_of_any hfile) with ⟨e, he⟩
    rcases hd.dir_of_get? he with ⟨dirMode, hdir⟩
    refine ⟨n :: dirs, ⟨⟨hfile', hkept⟩, ?_⟩, hpath⟩
    exact ((readDir_descend_iff hd hroot hdir).1 hread').1
  · rintro ⟨below, ⟨hlistable, hcheck⟩, rfl⟩
    rcases hlistable.names hd hroot with ⟨hnames, hne⟩
    rcases List.exists_cons_of_ne_nil hne with ⟨n, dirs, rfl⟩
    rw [List.tail_cons] at hcheck
    rcases hcomplete n dirs hlistable with hlisted | ⟨above, habove, s, hs, hpath⟩
    · simpa using hlisted
    · -- no directory above the file is reported, since each of them can be read
      rcases hwalked.unreadable s hs with ⟨dirs', e, rfl, hdir, -, herror⟩
      simp only [List.append_nil] at hpath hdir herror
      rcases habove with ⟨more, rfl⟩
      have hnames' : ∀ m ∈ more ++ above, IsName m := fun m hm => hnames m (List.mem_cons_of_mem n hm)
      rcases holdsDir_iff.1 hdir with ⟨dirMode, hdirMode⟩
      have hsame : dirs' = above := by
        refine Path.descend_inj (hd.isName_below (by rw [hdirMode]; rfl)) ?_
          (congrArg Path.components hpath)
        exact fun m hm => hnames' m (List.mem_append_right more hm)
      subst hsame
      have hread' := readDir_above hd hroot hopen (List.cons_ne_nil n more)
        (Option.isSome_of_any hlistable.isFile)
        (Path.checkPath_of_descend (text_ne_empty_of_locate hroot) hnames' hcheck)
      rw [hread'] at herror
      cases herror

/-- Matching lists every file whose own path still works. -/
theorem covers_glob (hskipped : ∀ s ∈ skipped, '/' ∉ s.toList) :
    ∃ listing, glob skipped d root = .ok listing ∧
      Covers root (fun below => Listable d skipped home below ∧
        checkPath (root.descend below) = .ok ()) listing.files := by
  have hhome : d.get? ([] ++ home) = some (.dir mode) := (locate_eq_ok_iff.1 hroot).2
  have htidies := Path.tidies_matchedRoot (text_ne_empty_of_locate hroot)
  rcases readDir_root hroot (hopen [] mode hhome).1 with ⟨entries, hread⟩
  rcases glob_spec hd hroot hskipped hread with ⟨listing, hglob, hnodup, hmatched, hcomplete⟩
  refine ⟨listing, hglob, covers_of_nodup htidies.components_eq hnodup ?_ ?_⟩
  · intro below hlisted
    exact (hlisted.1.names hd hroot).1
  intro p
  constructor
  · intro hp
    rcases hmatched.files p hp with ⟨below, hpath, hlistable, hvisible⟩
    exact ⟨below, ⟨hlistable, hvisible.checked⟩, hpath⟩
  · rintro ⟨below, ⟨hlistable, hcheck⟩, rfl⟩
    have hsome := Option.isSome_of_any hlistable.isFile
    have hvisible : Visible d root home below := ⟨hcheck, hopen.openBelow hd hsome⟩
    rcases hlistable.names hd hroot with ⟨hnames, hne⟩
    rcases hcomplete below hlistable hvisible with hlisted | ⟨above, habove, s, hs, hpath⟩
    · exact hlisted
    · -- nothing above the file is unreadable: the directory would be open, and its path is shorter
      rcases hmatched.unreadable s hs with ⟨place, e, rfl, hplace, -, herror⟩
      rcases List.exists_cons_of_ne_nil hne with ⟨n, dirs, rfl⟩
      rcases habove with ⟨more, hmore⟩
      rw [List.tail_cons] at hmore
      subst hmore
      have hsame : place = above := by
        refine Path.descend_inj hplace ?_ (congrArg Path.components hpath)
        exact fun m hm => hnames m (List.mem_cons_of_mem n (List.mem_append_right more hm))
      subst hsame
      have hcons : n :: (more ++ place) = (n :: more) ++ place := rfl
      rw [hcons] at hcheck hnames
      have hcheck' := Path.checkPath_of_descend (text_ne_empty_of_locate hroot) hnames hcheck
      have hread' := readDir_above hd (locate_matchedRoot hroot) hopen (List.cons_ne_nil n more) hsome
        (htidies.checkPath_descend hplace hcheck')
      rw [hread'] at herror
      cases herror

/-- Where every directory can be read and searched, both listings hold the files that are reached
without a link and lie in no skipped directory, each of them once, as far as the paths are not too
long: of the file itself in one case, of its directory in the other. -/
theorem walk_glob_agree (hskipped : ∀ s ∈ skipped, s ≠ "" ∧ '/' ∉ s.toList) :
    ∃ walked matched, walk skipped d root = .ok walked ∧ glob skipped d root = .ok matched ∧
      Covers root (fun below => Listable d skipped home below ∧
        checkPath (root.descend below.tail) = .ok ()) walked.files ∧
      Covers root (fun below => Listable d skipped home below ∧
        checkPath (root.descend below) = .ok ()) matched.files ∧
      ((∀ below, Listable d skipped home below → checkPath (root.descend below) = .ok ()) →
        Covers root (Listable d skipped home) walked.files ∧
          Covers root (Listable d skipped home) matched.files) := by
  rcases covers_walk hd hroot hopen skipped with ⟨walked, hwalk, hwalked⟩
  rcases covers_glob hd hroot hopen fun s hs => (hskipped s hs).2 with ⟨matched, hglob, hmatched⟩
  refine ⟨walked, matched, hwalk, hglob, hwalked, hmatched, fun hshort => ?_⟩
  have hshort' : ∀ below, Listable d skipped home below →
      checkPath (root.descend below.tail) = .ok () := by
    intro below hlistable
    rcases hlistable.names hd hroot with ⟨hnames, hne⟩
    rcases List.exists_cons_of_ne_nil hne with ⟨n, dirs, rfl⟩
    have hcheck := hshort _ hlistable
    have hcons : n :: dirs = [n] ++ dirs := rfl
    rw [hcons] at hcheck hnames
    exact Path.checkPath_of_descend (text_ne_empty_of_locate hroot) hnames hcheck
  constructor
  · have heq : (fun below => Listable d skipped home below ∧
        checkPath (root.descend below.tail) = .ok ()) = Listable d skipped home := by
      funext below
      exact propext ⟨fun h => h.1, fun h => ⟨h, hshort' below h⟩⟩
    rwa [heq] at hwalked
  · have heq : (fun below => Listable d skipped home below ∧
        checkPath (root.descend below) = .ok ()) = Listable d skipped home := by
      funext below
      exact propext ⟨fun h => h.1, fun h => ⟨h, hshort below h⟩⟩
    rwa [heq] at hmatched

end

end

/-- A project with links to a directory, to a file and back to a directory above, and with a skipped
name on a directory and on a file. -/
def linkedDisk : Disk where
  entries := [(["site"], .dir 0o755), (["a.html", "site"], .file 0o644 "text".toUTF8),
    (["cache", "site"], .dir 0o755), (["b.css", "cache", "site"], .file 0o644 "body".toUTF8),
    (["pages", "site"], .dir 0o755), (["cache", "pages", "site"], .file 0o644 "plain".toUTF8),
    (["more", "site"], .link "pages"), (["old.html", "site"], .link "a.html"),
    (["up", "pages", "site"], .link "..")]
  privileged := false

/-- Links of all kinds make no difference to the listings. -/
theorem walk_glob_agree_of_linkedDisk : ∃ walked matched,
    walk ["cache"] linkedDisk ⟨"/site"⟩ = .ok walked ∧
    glob ["cache"] linkedDisk ⟨"/site"⟩ = .ok matched ∧
    Covers ⟨"/site"⟩ (Listable linkedDisk ["cache"] ["site"]) walked.files ∧
    Covers ⟨"/site"⟩ (Listable linkedDisk ["cache"] ["site"]) matched.files := by
  have hd : linkedDisk.IsTree := by decide +kernel
  have hroot : linkedDisk.locate true ⟨"/site"⟩ = .ok (["site"], .dir 0o755) := rfl
  have hentry : ∀ {below : Location} {e : Entry}, linkedDisk.get? (below ++ ["site"]) = some e →
      (below ++ ["site"], e) ∈ linkedDisk.entries := fun he => mem_of_get? he (by simp)
  have hopen : OpenFrom linkedDisk ["site"] := by
    intro below mode hmode
    have hmodes : ∀ x ∈ linkedDisk.entries, x.2.isDir = true →
        linkedDisk.mayRead x.2.mode = true ∧ linkedDisk.maySearch x.2.mode = true := by
      decide +kernel
    exact hmodes _ (hentry hmode) rfl
  have hshort : ∀ below, Listable linkedDisk ["cache"] ["site"] below →
      checkPath ((Path.mk "/site").descend below) = .ok () := by
    intro below hlistable
    have hpaths : ∀ x ∈ linkedDisk.entries,
        checkPath ((Path.mk "/site").descend x.1.dropLast) = .ok () := by
      decide +kernel
    rcases Option.isSome_iff_exists.1 (Option.isSome_of_any hlistable.isFile) with ⟨e, he⟩
    simpa using hpaths _ (hentry he)
  obtain ⟨walked, matched, hwalk, hglob, -, -, hboth⟩ :=
    walk_glob_agree hd hroot hopen (by decide : ∀ s ∈ ["cache"], s ≠ "" ∧ '/' ∉ s.toList)
  exact ⟨walked, matched, hwalk, hglob, hboth hshort⟩

/-- The root of a project as a path in which many slashes follow its name. -/
def slashedRoot : Nat → Path
  | 0 => ⟨"/site"⟩
  | n + 1 => ⟨(slashedRoot n).text ++ "/"⟩

theorem size_slashedRoot (n : Nat) : (slashedRoot n).text.utf8ByteSize = n + 5 := by
  have hslash : "/".utf8ByteSize = 1 := rfl
  induction n with
  | zero => rfl
  | succ n ih =>
    rw [slashedRoot, String.utf8ByteSize_append, ih, hslash]

theorem chars_slashedRoot (n : Nat) :
    (slashedRoot n).text.toList.head? = some '/' ∧ '\x00' ∉ (slashedRoot n).text.toList := by
  induction n with
  | zero => decide +kernel
  | succ n ih =>
    rcases ih with ⟨hhead, hzero⟩
    rw [slashedRoot, String.toList_append]
    constructor
    · simp [List.head?_append, hhead]
    · simpa using hzero

theorem namesOf_slashedRoot (n : Nat) : namesOf (slashedRoot n).text = ["site"] := by
  induction n with
  | zero => decide +kernel
  | succ n ih =>
    have htext : (slashedRoot (n + 1)).text = (slashedRoot n).text ++ "/" ++ "" := by
      simp [slashedRoot]
    rw [namesOf] at ih
    rw [namesOf, htext, Path.segmentsOf_append_slash, Path.segmentsOf_empty, List.filter_append, ih]
    simp

/-- A project of one file. -/
def plainDisk : Disk where
  entries := [(["site"], .dir 0o755), (["a.css", "site"], .file 0o644 "body".toUTF8)]
  privileged := false

theorem locate_slashedRoot :
    plainDisk.locate true (slashedRoot 4090) = .ok (["site"], .dir 0o755) := by
  have hcheck : checkPath (slashedRoot 4090) = .ok () := by
    have hsize := size_slashedRoot 4090
    refine checkPath_eq_ok_iff.2 ⟨(chars_slashedRoot 4090).2, ?_, ?_⟩
    · intro hempty
      rw [hempty] at hsize
      simp at hsize
    · rw [hsize, pathLimit]
  refine locate_eq_ok_iff.2 ⟨resolve_eq_ok_iff.2 ⟨hcheck, ?_, ?_⟩, rfl⟩
  · rw [Bool.true_or, startOf, if_pos (chars_slashedRoot 4090).1, namesOf_slashedRoot]
    rfl
  · intro loc hloc _
    rw [← Place.entry.inj hloc]
    rfl

/-- A walk lists the file, and matching finds its path too long. -/
theorem walk_glob_differ : plainDisk.IsTree ∧ OpenFrom plainDisk ["site"] ∧
    plainDisk.locate true (slashedRoot 4090) = .ok (["site"], .dir 0o755) ∧
    Listable plainDisk [] ["site"] ["a.css"] ∧
    ∃ walked matched, walk [] plainDisk (slashedRoot 4090) = .ok walked ∧
      glob [] plainDisk (slashedRoot 4090) = .ok matched ∧
      (∃ p ∈ walked.files, p.same ((slashedRoot 4090).descend ["a.css"]) = true) ∧
      matched.files = [] := by
  have hd : plainDisk.IsTree := by decide +kernel
  have hentry : ∀ {below : Location} {e : Entry}, plainDisk.get? (below ++ ["site"]) = some e →
      (below ++ ["site"], e) ∈ plainDisk.entries := fun he => mem_of_get? he (by simp)
  have hopen : OpenFrom plainDisk ["site"] := by
    intro below mode hmode
    have hmodes : ∀ x ∈ plainDisk.entries, x.2.isDir = true →
        plainDisk.mayRead x.2.mode = true ∧ plainDisk.maySearch x.2.mode = true := by
      decide +kernel
    exact hmodes _ (hentry hmode) rfl
  have hlistable : Listable plainDisk [] ["site"] ["a.css"] := ⟨by decide +kernel, by simp⟩
  obtain ⟨walked, hwalk, hwalked⟩ := covers_walk hd locate_slashedRoot hopen []
  obtain ⟨matched, hglob, hmatched⟩ := covers_glob hd locate_slashedRoot hopen
    (by simp : ∀ s ∈ ([] : List String), '/' ∉ s.toList)
  have hcheck : checkPath (slashedRoot 4090) = .ok () :=
    (resolve_eq_ok_iff.1 (locate_eq_ok_iff.1 locate_slashedRoot).1).1
  refine ⟨hd, hopen, locate_slashedRoot, hlistable, walked, matched, hwalk, hglob, ?_, ?_⟩
  · refine hwalked.complete ["a.css"] ⟨hlistable, ?_⟩
    rw [List.tail_cons, Path.descend]
    exact hcheck
  · refine List.eq_nil_iff_forall_not_mem.2 fun p hp => ?_
    rcases hmatched.sound p hp with ⟨below, ⟨hlisted, hshort⟩, -⟩
    have hbelow : below = ["a.css"] := by
      rcases (Option.any_eq_true _ _).1 hlisted.isFile with ⟨e, he, hfile⟩
      have honly : ∀ x ∈ plainDisk.entries, x.2.isFile = true → x.1.dropLast = ["a.css"] := by
        decide +kernel
      simpa using honly _ (hentry he) hfile
    subst hbelow
    have hname : IsName "a.css" := by decide +kernel
    have hsize := size_slashedRoot 4090
    have hbytes : "a.css".utf8ByteSize = 5 := by decide +kernel
    -- the path of the file is over the limit whether or not a slash is put before its name
    have hlong := (checkPath_eq_ok_iff.1 hshort).2.2
    rcases Path.join_cases hname (slashedRoot 4090) with ⟨hempty, -⟩ | ⟨t, ht, hj⟩ | ⟨-, -, hj⟩
    · rw [hempty] at hsize
      simp at hsize
    · rw [ht] at hsize
      rw [Path.descend, Path.descend, hj, String.utf8ByteSize_append, hsize, hbytes, pathLimit] at hlong
      omega
    · rw [Path.descend, Path.descend, hj, String.utf8ByteSize_append, String.utf8ByteSize_append,
        hsize, hbytes, pathLimit] at hlong
      omega

section

variable {d : Disk} (hd : d.IsTree) {root : Path} {home : Location} {mode : Nat}
  (hroot : d.locate true root = .ok (home, .dir mode)) {skipped : List String}
include hd hroot

/-! ## Where something cannot be read -/

/-- A listing of a root that can be read leaves nothing out in silence: either it holds a file that
lies in no skipped directory, or it reports a directory above it, and it reports nothing that a skipped
directory holds. This is so of a walk without a condition. Matching looks the file itself up and drops it
where that fails, and it reports a skipped directory that cannot be read. -/
theorem listings_account (hread : d.mayRead mode = true)
    (hskipped : ∀ s ∈ skipped, '/' ∉ s.toList) :
    ∃ walked matched, walk skipped d root = .ok walked ∧ glob skipped d root = .ok matched ∧
      (∀ below, Listable d skipped home below → AccountsFor root walked below) ∧
      (∀ s ∈ walked.unreadable, ∃ dirs, s.path = root.descend dirs ∧
        ∀ n ∈ dirs, IsName n ∧ n ∉ skipped) ∧
      (∀ below, Listable d skipped home below → (∃ e, d.lstat (root.descend below) = .ok e) →
        AccountsFor root matched below) ∧
      ∀ s ∈ matched.unreadable, ∃ dirs, s.path.same (root.descend dirs) = true ∧
        (∀ n ∈ dirs, IsName n) ∧ ∀ n ∈ dirs.tail, n ∉ skipped := by
  have htidies := Path.tidies_matchedRoot (text_ne_empty_of_locate hroot)
  rcases readDir_root hroot hread with ⟨entries, hentries⟩
  rcases walk_spec hd skipped hroot hentries with ⟨walked, hwalk, -, hwalked, hwalk_complete⟩
  rcases glob_spec hd hroot hskipped hentries with ⟨matched, hglob, -, hmatched, hglob_complete⟩
  refine ⟨walked, matched, hwalk, hglob, ?_, ?_, ?_, ?_⟩
  · -- a walk accounts for every file
    intro below hlistable
    rcases hlistable.names hd hroot with ⟨-, hne⟩
    rcases List.exists_cons_of_ne_nil hne with ⟨n, dirs, rfl⟩
    rcases hwalk_complete n dirs hlistable with hlisted | ⟨above, habove, s, hs, hpath⟩
    · left
      exact ⟨_, hlisted, by simp [Path.same]⟩
    · right
      refine ⟨above, habove.trans (List.suffix_cons n dirs), s, hs, ?_⟩
      simp [hpath, Path.same]
  · -- and reports only directories that it went into
    intro s hs
    rcases hwalked.unreadable s hs with ⟨dirs, e, rfl, hdir, hkept, -⟩
    rcases holdsDir_iff.1 hdir with ⟨dirMode, hdirMode⟩
    have hnames := hd.isName_below (by rw [hdirMode]; rfl)
    refine ⟨dirs ++ [], rfl, ?_⟩
    intro n hn
    exact ⟨hnames n hn, hkept n (by simpa using hn)⟩
  · -- matching accounts for a file that it can look at
    rintro below hlistable ⟨e, hstat⟩
    rcases hlistable.names hd hroot with ⟨hnames, hne⟩
    rcases List.exists_cons_of_ne_nil hne with ⟨n, dirs, rfl⟩
    rcases Option.isSome_iff_exists.1 (Option.isSome_of_any hlistable.isFile) with ⟨e', he'⟩
    have hvisible := ((lstat_descend_iff hd hroot he').1 hstat).1
    rcases hglob_complete _ hlistable hvisible with hlisted | ⟨above, habove, s, hs, hpath⟩
    · left
      exact ⟨_, hlisted, same_descend htidies.components_eq hnames⟩
    · right
      have hsuffix : above <:+ n :: dirs := habove.trans (List.suffix_cons n dirs)
      refine ⟨above, hsuffix, s, hs, ?_⟩
      rw [hpath]
      exact same_descend htidies.components_eq fun m hm => hnames m (hsuffix.subset hm)
  · -- and reports what it met below no skipped directory
    intro s hs
    rcases hmatched.unreadable s hs with ⟨dirs, e, rfl, hnames, hkept, -⟩
    exact ⟨dirs, same_descend htidies.components_eq hnames, hnames, hkept⟩

end

/-- A project of an ordinary user with a directory that can be read but not searched, and a skipped
one that cannot be read. -/
def barredDisk : Disk where
  entries := [(["site"], .dir 0o755), (["a.css", "site"], .file 0o644 "body".toUTF8),
    (["cache", "site"], .dir 0), (["pages", "site"], .dir 0o400),
    (["index.html", "pages", "site"], .file 0o644 "text".toUTF8)]
  privileged := false

theorem locate_barredDisk : barredDisk.locate true ⟨"/site"⟩ = .ok (["site"], .dir 0o755) := rfl

theorem listable_barredDisk : Listable barredDisk ["cache"] ["site"] ["index.html", "pages"] :=
  ⟨by decide +kernel, by decide⟩

/-- A walk takes the file in the directory that cannot be searched as that directory gives it. -/
theorem listings_account_of_barredDisk : ∃ walked matched,
    walk ["cache"] barredDisk ⟨"/site"⟩ = .ok walked ∧
    glob ["cache"] barredDisk ⟨"/site"⟩ = .ok matched ∧
    AccountsFor ⟨"/site"⟩ walked ["index.html", "pages"] ∧
    AccountsFor ⟨"/site"⟩ matched ["a.css"] := by
  have hd : barredDisk.IsTree := by decide +kernel
  have hlistable : Listable barredDisk ["cache"] ["site"] ["a.css"] := ⟨by decide +kernel, by decide⟩
  have hstat : barredDisk.lstat ⟨"/site/a.css"⟩ = .ok (.file 0o644 "body".toUTF8) := rfl
  obtain ⟨walked, matched, hwalk, hglob, hwalked, -, hmatched, -⟩ :=
    listings_account hd locate_barredDisk (by decide) (by decide : ∀ s ∈ ["cache"], '/' ∉ s.toList)
  refine ⟨walked, matched, hwalk, hglob, hwalked _ listable_barredDisk, ?_⟩
  apply hmatched _ hlistable
  exact ⟨_, hstat⟩

theorem glob_barredDisk : glob ["cache"] barredDisk ⟨"/site"⟩ =
    .ok ⟨[⟨"/site/a.css"⟩], [⟨⟨"/site/cache"⟩, .matching .denied⟩]⟩ := by
  have hsite : barredDisk.readDir ⟨"/site"⟩ = .ok [("a.css", .file 0o644 "body".toUTF8),
      ("cache", .dir 0), ("pages", .dir 0o400)] :=
    readDir_of_sorted locate_barredDisk rfl rfl (by decide +kernel)
  have hloc : barredDisk.locate true ⟨"/site/pages"⟩ = .ok (["pages", "site"], .dir 0o400) := rfl
  have hpages : barredDisk.readDir ⟨"/site/pages"⟩ =
      .ok [("index.html", .file 0o644 "text".toUTF8)] :=
    readDir_of_sorted hloc rfl rfl (by decide +kernel)
  have hcache : barredDisk.readDir ⟨"/site/cache"⟩ = .error .denied := rfl
  have hroot : matchedRoot ⟨"/site"⟩ = ⟨"/site"⟩ := by decide +kernel
  have hdepth : depthOf barredDisk = 252 := rfl
  have hjoin : (Path.mk "/site").join "a.css" = ⟨"/site/a.css"⟩ ∧
      (Path.mk "/site").join "cache" = ⟨"/site/cache"⟩ ∧
      (Path.mk "/site").join "pages" = ⟨"/site/pages"⟩ ∧
      (Path.mk "/site/pages").join "index.html" = ⟨"/site/pages/index.html"⟩ := by
    decide +kernel
  have hdir : barredDisk.isDir ⟨"/site/a.css"⟩ = false ∧
      barredDisk.isDir ⟨"/site/cache"⟩ = true ∧ barredDisk.isDir ⟨"/site/pages"⟩ = true ∧
      barredDisk.isDir ⟨"/site/pages/index.html"⟩ = false := by
    decide +kernel
  -- a directory that cannot be read is matched and then reported
  have hbelow : matches? barredDisk 251 ⟨"/site/cache"⟩ = [(⟨"/site/cache"⟩, some .denied)] ∧
      matches? barredDisk 251 ⟨"/site/pages"⟩ = [(⟨"/site/pages/index.html"⟩, none)] := by
    constructor
    · rw [matches?, hcache]
    · rw [matches?, hpages]
      simp [hjoin, hdir]
  have hmatches : matches? barredDisk 252 ⟨"/site"⟩ = [(⟨"/site/a.css"⟩, none),
      (⟨"/site/cache"⟩, none), (⟨"/site/cache"⟩, some .denied), (⟨"/site/pages"⟩, none),
      (⟨"/site/pages/index.html"⟩, none)] := by
    rw [matches?, hsite]
    simp [hjoin, hdir, hbelow]
  rw [glob_eq _ hsite, hdepth, hroot, hmatches]
  rfl

/-- Matching says nothing of the file in the directory that cannot be searched, and it reports the
skipped directory. -/
theorem glob_leavesOut : barredDisk.IsTree ∧ barredDisk.LinkFree ["site"] ∧
    barredDisk.locate true ⟨"/site"⟩ = .ok (["site"], .dir 0o755) ∧
    Listable barredDisk ["cache"] ["site"] ["index.html", "pages"] ∧
    ∃ matched, glob ["cache"] barredDisk ⟨"/site"⟩ = .ok matched ∧
      ¬ AccountsFor ⟨"/site"⟩ matched ["index.html", "pages"] ∧
      ∃ s ∈ matched.unreadable, s.path = ⟨"/site/cache"⟩ := by
  refine ⟨by decide +kernel, linkFree_of_entries (by decide +kernel) _, locate_barredDisk,
    listable_barredDisk, _, glob_barredDisk, ?_, by simp⟩
  rintro (⟨p, hp, hsame⟩ | ⟨above, habove, s, hs, hsame⟩)
  · rw [List.mem_singleton.1 hp] at hsame
    exact absurd hsame (by decide +kernel)
  · rw [List.mem_singleton.1 hs] at hsame
    have hcases : above ∈ (["index.html", "pages"] : Location).tails := (List.mem_tails _ _).2 habove
    have hdiffer : ∀ above ∈ (["index.html", "pages"] : Location).tails,
        (Path.mk "/site/cache").same ((Path.mk "/site").descend above) = false := by
      decide +kernel
    rw [hdiffer above hcases] at hsame
    cases hsame

end SiteFolders.Listing
