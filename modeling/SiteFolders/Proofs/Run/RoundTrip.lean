import SiteFolders.Proofs.Listing.Files
import SiteFolders.Proofs.Move.Taking
import SiteFolders.Proofs.Path.Relative
import SiteFolders.Proofs.Reference.PlainNames
import SiteFolders.Proofs.Reference.Updates
import SiteFolders.Proofs.Run.Atomicity

/-!
# References after a run

A run that skips nothing and fails nowhere takes every planned file to a new place and then updates
each listed text once, as it was read before. So wherever a text named a file that has moved, it now
holds a reference which leads from its own directory to the new place of that file, also if the text
has moved itself (`organize_references`).
-/

namespace SiteFolders

open Disk Move Regex
open SiteFolders.Reference
open SiteFolders.Text (Spelled)

/-! ## Phases of a run -/

/-- The state of the disk between the moves of a run and its updates, and what is listed then. -/
structure Phases (o : RunSetup) (d : Disk) (report : Report) (between : Disk) (listing : Listing) :
    Prop where
  moves : ∃ plans moves, Move.plan d report.root o.classifier o.exclusion = .ok plans ∧
    Move.execute report.root plans d = (.ok moves, between) ∧
    moves.moved = report.moved ∧ moves.skipped = report.skipped
  listed : o.list between report.root = .ok listing

/-- The updates of a run. -/
structure Updates (o : RunSetup) (report : Report) (between last : Disk) (listing : Listing) :
    Prop where
  result : ∃ summary, (Reference.updateFiles o.references report.moved listing.files between).result =
    .ok summary ∧ report.failures = listing.unreadable ++ summary.failed
  disk : last = (Reference.updateFiles o.references report.moved listing.files between).disk

/-- Updates change nothing but the bytes of regular files. -/
theorem Updates.keepsTree {o : RunSetup} {report : Report} {between last : Disk} {listing : Listing}
    (h : Updates o report between last listing) :
    between.SameTree last ∧ (between.IsTree → last.IsTree) := by
  rw [h.disk]
  exact keepsTree_updateEach o.references report.moved _ between

/-- What a run has gone through that ends well: the moves, and then the updates unless nothing has
moved. -/
theorem moves_of_organize {o : RunSetup} {root : Path} {d : Disk} {report : Report}
    (h : (organize o root d).result = .ok report) :
    resolvedRoot d root = .ok report.root ∧ ∃ plans moves between,
      Move.plan d report.root o.classifier o.exclusion = .ok plans ∧
      Move.execute report.root plans d = (.ok moves, between) ∧
      moves.moved = report.moved ∧ moves.skipped = report.skipped ∧
      (report.moved = [] ∧ (organize o root d).disk = between ∨
        ∃ listing, o.list between report.root = .ok listing ∧
          Updates o report between (organize o root d).disk listing) := by
  rw [organize_result] at h
  rw [organize_disk]
  simp only [runPhases] at h ⊢
  cases hroot : resolvedRoot d root with
  | error e => simp [hroot] at h
  | ok canonical =>
    simp only [hroot] at h ⊢
    cases hplan : Move.plan d canonical o.classifier o.exclusion with
    | error e => simp [hplan] at h
    | ok plans =>
      simp only [hplan] at h ⊢
      cases hexec : Move.execute canonical plans d with
      | mk result between =>
        cases result with
        | error e => simp [hexec] at h
        | ok moves =>
          simp only [hexec, afterMoves] at h ⊢
          split at h
          · next hnone =>
            obtain rfl := Except.ok.inj h
            rw [if_pos hnone]
            exact ⟨rfl, plans, moves, between, hplan, hexec, rfl, rfl,
              Or.inl ⟨List.isEmpty_iff.1 hnone, rfl⟩⟩
          · next hsome =>
            rw [if_neg hsome]
            cases hlist : o.list between canonical with
            | error e => simp [hlist] at h
            | ok listing =>
              simp only [hlist, updateReferences] at h ⊢
              cases hupdate : (Reference.updateFiles o.references moves.moved listing.files
                  between).result with
              | error e => simp [hupdate] at h
              | ok summary =>
                simp only [hupdate, Except.ok.injEq] at h ⊢
                subst h
                exact ⟨rfl, plans, moves, between, hplan, hexec, rfl, rfl,
                  Or.inr ⟨listing, hlist, ⟨summary, hupdate, rfl⟩, rfl⟩⟩

/-- A run that gets through all phases ends well, with what the phases have given. -/
theorem organize_of_phases {o : RunSetup} {root canonical : Path} {d between : Disk}
    {plans : List Planned} {moves : Move.Result} {listing : Listing} {summary : Reference.Summary}
    (hroot : resolvedRoot d root = .ok canonical)
    (hplan : Move.plan d canonical o.classifier o.exclusion = .ok plans)
    (hexec : Move.execute canonical plans d = (.ok moves, between)) (hmoved : moves.moved ≠ [])
    (hlist : o.list between canonical = .ok listing)
    (hupdate : (Reference.updateFiles o.references moves.moved listing.files between).result =
      .ok summary) :
    ∃ report, (organize o root d).result = .ok report ∧ report.moved = moves.moved ∧
      report.skipped = moves.skipped ∧ report.failures = listing.unreadable ++ summary.failed ∧
      (organize o root d).disk =
        (Reference.updateFiles o.references moves.moved listing.files between).disk := by
  have hnone : ¬ moves.moved.isEmpty = true := fun h => hmoved (List.isEmpty_iff.1 h)
  rw [organize_result, organize_disk]
  simp only [runPhases, hroot, hplan, hexec, afterMoves, hlist, updateReferences, hupdate]
  rw [if_neg hnone]
  exact ⟨_, rfl, rfl, rfl, rfl, rfl⟩

/-- A run that has moved files has gone through all phases. -/
theorem phases_of_organize {o : RunSetup} {root : Path} {d : Disk} {report : Report}
    (h : (organize o root d).result = .ok report) (hmoved : report.moved ≠ []) :
    resolvedRoot d root = .ok report.root ∧ ∃ between listing,
      Phases o d report between listing ∧
      Updates o report between (organize o root d).disk listing := by
  obtain ⟨hroot, plans, moves, between, hplan, hexec, hmoves, hskipped, hafter⟩ :=
    moves_of_organize h
  rcases hafter with ⟨hnone, -⟩ | ⟨listing, hlist, hupdates⟩
  · exact absurd hnone hmoved
  · exact ⟨hroot, between, listing, ⟨⟨plans, moves, hplan, hexec, hmoves, hskipped⟩, hlist⟩,
      hupdates⟩

/-! ## Texts before a run -/

/-- The path that a file had before a run. -/
def pathBefore (root : Path) (moved : List Moved) (p : Path) : Path :=
  match moved.find? fun m => m.target = p with
  | some m => root.join m.oldName
  | none => p

section

variable {d between : Disk} (hd : d.IsTree) {home : Location} {plans : List Planned}
  {moved : List Moved} (h : Settled d between home plans moved)
include hd h

/-- What is read from a file after the moves was read from it before, where it was then. -/
theorem readText_pathBefore {loc : Location} {e : Entry} (he : between.get? loc = some e)
    (hfile : e.isFile = true) {text : String}
    (htext : between.readText (Path.ofLocation loc) = .ok text) :
    d.readText (pathBefore (Path.ofLocation home) moved (Path.ofLocation loc)) = .ok text := by
  have hlink := isLink_of_isFile hfile
  have hnames := h.isTree.isName_of_mem (by simp [he] : (between.get? loc).isSome)
  unfold pathBefore
  cases hfind : moved.find? fun m => m.target = Path.ofLocation loc with
  | none =>
    -- no move has brought the file here, so it was here before
    rcases h.origin loc e he hfile with ⟨m, hm, htarget, -⟩ | hold
    · simpa [htarget] using List.find?_eq_none.1 hfind m hm
    · rcases (readText_ofLocation_iff h.isTree he hlink).1 htext with ⟨hcheck, hopen, -⟩
      exact readText_of_keeps hd h.isTree h.keeps hold he hlink hcheck hopen htext
  | some m =>
    -- a move has brought it, and the path before is the one it was planned at
    rcases h.arrived m (List.mem_of_find?_eq_some hfind) with ⟨k, c, harrived⟩
    have hnew : (between.get? (candidate m.oldName k :: c.folder :: home)).isSome := by
      rw [harrived.same]
      exact Option.isSome_of_any harrived.isFile
    have htarget : m.target = Path.ofLocation loc := by simpa using List.find?_some hfind
    rw [harrived.target] at htarget
    obtain rfl := Path.ofLocation_inj (h.isTree.isName_of_mem hnew) hnames htarget
    have hold := harrived.same.symm.trans he
    have hname := hd.isName_of_get? hold
    have hhome := h.isHome.isName h.isTree
    have hcheck := harrived.checked
    rw [Path.ofLocation_cons (hnames _ (by simp)) fun n hn => hnames n (List.mem_cons_of_mem _ hn),
      Path.ofLocation_cons (hnames _ (by simp)) hhome] at hcheck
    -- the path before is no longer than the one it has now, which is allowed
    have hcheck' := checkPath_of_candidate (hnames _ (by simp)) hname hcheck
    rcases open_cons.1 harrived.isOpen with ⟨-, hfolder⟩
    dsimp only
    rw [← Path.ofLocation_cons hname hhome] at hcheck' ⊢
    exact readText_of_keeps hd h.isTree h.keeps hold he hlink hcheck'
      (open_cons.2 (open_cons.1 hfolder)) htext

end

/-! ## References that lead back -/

theorem toNat_lt_of_isPlain {name : String} (h : IsPlain name) : ∀ c ∈ name.toList, c.toNat < 0x80 := by
  intro c hc
  have := (h c hc).toNat_cases
  omega

section

variable {d between : Disk} {home : Location} {plans : List Planned} {moved : List Moved}
  (h : Settled d between home plans moved) (hplans : ∀ p ∈ plans, PlannedIn d home p)
  (hplain : ∀ n, (d.get? (n :: home)).any Entry.isFile = true → IsPlain n)
include h hplans hplain

theorem isOrdinary_of_settled : ∀ m ∈ moved, IsOrdinary m.oldName := by
  intro m hm
  have hname : m.oldName ∈ plans.map Planned.fileName := by
    rw [← h.names]
    exact List.mem_map_of_mem hm
  rcases List.mem_map.1 hname with ⟨p, hp, hname⟩
  have hplanned := hplans p hp
  rw [← hname]
  exact ⟨hplain _ hplanned.isFile, hplanned.isName.ne_empty, hplanned.no_dot⟩

omit hplans in
/-- Names that differ in more than letter case are not spelled like each other. -/
theorem pairwise_not_spelled (hnodup : (plans.map Planned.fileName).Nodup)
    (hdiffer : ∀ m n, (d.get? (m :: home)).any Entry.isFile = true →
      (d.get? (n :: home)).any Entry.isFile = true → Text.lowercase m = Text.lowercase n → m = n) :
    moved.Pairwise fun a b => ¬ Spelled a.oldName.toList b.oldName.toList := by
  rw [← h.names] at hnodup
  refine (List.pairwise_map.1 hnodup).imp_of_mem fun {a b} ha hb hne hspelled => hne ?_
  rcases h.arrived a ha with ⟨_, _, harrived⟩
  rcases h.arrived b hb with ⟨_, _, harrived'⟩
  exact hdiffer _ _ harrived.isFile harrived'.isFile (hspelled.lowercase_eq
    (toNat_lt_of_isPlain (hplain _ harrived.isFile))
    (toNat_lt_of_isPlain (hplain _ harrived'.isFile)))

/-- An update of a text below the directory turns a former name after leading segments into a
reference that leads from the directory of the text to the file. -/
theorem turns_update_of_settled (loose : Bool)
    (hdiff : moved.Pairwise fun a b => ¬ Spelled a.oldName.toList b.oldName.toList)
    {n : String} {below : Location} {e : Entry} (he : between.get? (n :: (below ++ home)) = some e)
    {m : Moved} (hm : m ∈ moved) {kw ld : List Char} {q : Char} (hkey : Key kw) (hq : IsQuote q)
    (hld : Matches lead ld) :
    Turns kw q (· = ld ++ m.oldName.toList) (· = m.reference (Path.ofLocation (below ++ home)))
        (fun text => (update loose moved (Path.ofLocation (below ++ home)) text).text) ∧
      Path.resolve (Path.ofLocation (below ++ home))
        (String.ofList (m.reference (Path.ofLocation (below ++ home)))) = m.target.components := by
  have hordinary := isOrdinary_of_settled h hplans hplain
  rcases h.arrived m hm with ⟨k, c, harrived⟩
  have hcandidate := (hordinary m hm).candidate k
  have hfolder := isOrdinary_folder c
  obtain ⟨f, hf, hfile⟩ : ∃ f, between.get? (candidate m.oldName k :: c.folder :: home) = some f ∧
      f.isFile = true := by
    rw [harrived.same]
    simpa [Option.any_eq_true] using harrived.isFile
  have hbelow : ∀ s ∈ below, IsName s := by
    intro s hs
    exact h.isTree.isName_of_mem (by simp [he] : (between.get? (n :: (below ++ home))).isSome) s
      (by simp [hs])
  -- nothing lies below a file, so the text does not
  have hapart : ¬ (candidate m.oldName k :: c.folder :: home) <:+ below ++ home := by
    rintro ⟨more, hmore⟩
    have hleaf := h.isTree.get?_below_leaf hf (isDir_of_isFile hfile) (List.cons_ne_nil n more)
    rw [List.cons_append, hmore, he] at hleaf
    simp at hleaf
  have hbackslash : '\\' ∉ c.folder.toList ++ (candidate m.oldName k).toList := by
    rw [List.mem_append]
    rintro (hmem | hmem)
    · exact absurd (hfolder.plain _ hmem) (by decide)
    · exact absurd (hcandidate.plain _ hmem) (by decide)
  have hhome := h.isHome.isName h.isTree
  obtain ⟨ups, rest, hreference, hrest, hresolve⟩ := Path.reference_folder hhome hbelow
    (isName_folder c) (h.isTree.isName_of_get? hf) hapart hbackslash
  rw [← harrived.target] at hreference hresolve
  refine ⟨turns_update_of_ordinary loose hkey hq hm hordinary hdiff hld hfolder hreference hrest, ?_⟩
  rwa [Moved.reference, String.ofList_toList]

end

/-- Wherever the text held an attribute with the former name of a moved file after leading segments,
it now holds one with a reference that leads from the directory to the file's new place. The
attribute is the one before the quote from which on the text has been updated as if it stood
alone. -/
def LeadsBack (loose : Bool) (moved : List Moved) (dir : Path) (before after : String) : Prop :=
  ∀ m ∈ moved, ∀ (kw ld pre post : List Char) (q : Char), Key kw → IsQuote q → Matches lead ld →
    before.toList = withAttribute pre kw q (ld ++ m.oldName.toList) (q :: post) →
    ∃ pre' post' reference, (update loose moved dir (q :: post)).text = q :: post' ∧
      after.toList = withAttribute pre' kw q reference (q :: post') ∧
      Path.resolve dir (String.ofList reference) = m.target.components

section

variable {d between last : Disk} {home : Location} {plans : List Planned}
  {report : Report} (h : Settled d between home plans report.moved)
  {o : RunSetup} {listing : Listing} (hupdates : Updates o report between last listing)
  (hlists : Listing.Lists between home listing.files) (hfailures : report.failures = [])
include h hupdates hlists hfailures

/-- The updates of a run change each text that is listed once, and no other file. -/
theorem texts_of_updates : between.SameTree last ∧ last.IsTree ∧
    ∀ p ∈ listing.files, p.isText = true → ∃ loc e text, p = Path.ofLocation loc ∧ home <:+ loc ∧
      between.get? loc = some e ∧ e.isFile = true ∧ between.readText p = .ok text ∧
      last.readText p = .ok (updatedText o.references.looseMentions report.moved p text) := by
  rcases hupdates.result with ⟨summary, hresult, hfailed⟩
  have hnone : summary.failed = [] := by
    rw [hfailures] at hfailed
    exact (List.append_eq_nil_iff.1 hfailed.symm).2
  have hu := (hlists.unaliased h.isTree).filter Path.isText
  obtain ⟨heach, hgood⟩ := updateEach_good hu hresult hnone
  obtain ⟨hsame, htree⟩ := hupdates.keepsTree
  refine ⟨hsame, htree h.isTree, fun p hp htext => ?_⟩
  have hmem : p ∈ listing.files.filter Path.isText := List.mem_filter.2 ⟨hp, htext⟩
  obtain ⟨x, hx⟩ := hgood p hmem
  obtain ⟨text, hread, hupdated⟩ := heach.readText hu hmem hx
  obtain ⟨loc, e, hpath, hbelow, he, hfile⟩ := hlists.exists_place hp
  rw [hupdates.disk]
  exact ⟨loc, e, text, hpath, hbelow, he, hfile, hread, hupdated⟩

end

/-- The update of a file below the directory. -/
theorem leadsBack_updatedText {d between : Disk} {home : Location} {plans : List Planned}
    {moved : List Moved} (h : Settled d between home plans moved)
    (hplans : ∀ p ∈ plans, PlannedIn d home p)
    (hplain : ∀ n, (d.get? (n :: home)).any Entry.isFile = true → IsPlain n)
    (hdiff : moved.Pairwise fun a b => ¬ Spelled a.oldName.toList b.oldName.toList) (loose : Bool)
    {loc : Location} (hbelow : home <:+ loc) {e : Entry} (he : between.get? loc = some e)
    (hfile : e.isFile = true) (text : String) :
    ∃ dir, (Path.ofLocation loc).parent? = some dir ∧
      LeadsBack loose moved dir text (updatedText loose moved (Path.ofLocation loc) text) := by
  rcases h.isHome.get? with ⟨mode, hmode⟩
  have hne : home ≠ loc := by
    rintro rfl
    rw [hmode, Option.some.injEq] at he
    simp [← he, Entry.isFile] at hfile
  obtain ⟨n, dir, rfl⟩ : ∃ n dir, loc = n :: dir := by
    cases loc with
    | nil => exact absurd (List.suffix_nil.1 hbelow) hne
    | cons n dir => exact ⟨n, dir, rfl⟩
  rcases (List.suffix_cons_iff.1 hbelow).resolve_left hne with ⟨below, rfl⟩
  have hnames := h.isTree.isName_of_mem (by simp [he] : (between.get? (n :: (below ++ home))).isSome)
  have hparent := Path.parent?_ofLocation_cons (hnames n (by simp)) fun s hs =>
    hnames s (List.mem_cons_of_mem n hs)
  refine ⟨_, hparent, fun m hm kw ld pre post q hkey hq hld hbefore => ?_⟩
  obtain ⟨hturns, hresolve⟩ :=
    turns_update_of_settled h hplans hplain loose hdiff he hm hkey hq hld
  rcases hturns _ rfl pre post with ⟨pre', value, post', rfl, hpost, hafter⟩
  refine ⟨pre', post', _, hpost, ?_, hresolve⟩
  rw [updatedText, hparent, Option.getD_some, String.toList_ofList, hbefore]
  exact hafter

/-! ## The whole run -/

/-- What has arrived is found at its new place after the updates. -/
theorem stat_of_arrivedAt {d between last : Disk} (hlast : last.IsTree)
    (h : between.SameTree last) {home loc : Location} {m : Moved}
    (harrived : ArrivedAt d between home m loc) :
    (last.stat m.target).toOption.any Entry.isFile = true := by
  obtain ⟨e, he, hfile⟩ : ∃ e, between.get? loc = some e ∧ e.isFile = true := by
    rw [harrived.same]
    simpa [Option.any_eq_true] using harrived.isFile
  rcases h.isFile he hfile with ⟨e', he', hfile'⟩
  have hlink := isLink_of_isFile hfile'
  have hlocate := (locate_ofLocation_iff hlast he' hlink true).2
    ⟨harrived.checked, h.keeps.isOpen harrived.isOpen, rfl⟩
  rw [harrived.target]
  exact any_toOption_eq_true_iff.2 ⟨e', stat_eq_ok_iff.2 ⟨loc, hlocate⟩, hfile'⟩

/-- In a project without links whose regular files have plain names at its root, different in more
than letter case, a run that skips nothing and fails nowhere takes each recorded file to its place,
and all listed texts lead there: wherever one of them named the file before, as it was read where it
was then, it now has a reference to the file's new place. -/
theorem organize_references {d : Disk} (hd : d.IsTree) {o : RunSetup} {lister : Lister}
    {skipped : List String} (hlist : o.list = lister.list skipped) {root : Path} {home : Location}
    {top : Entry} (hroot : d.locate true root = .ok (home, top)) (hfree : d.LinkFree home)
    (hplain : ∀ n, (d.get? (n :: home)).any Entry.isFile = true → IsPlain n)
    (hdiffer : ∀ m n, (d.get? (m :: home)).any Entry.isFile = true →
      (d.get? (n :: home)).any Entry.isFile = true → Text.lowercase m = Text.lowercase n → m = n)
    {report : Report} (hrun : (organize o root d).result = .ok report)
    (hskipped : report.skipped = []) (hfailures : report.failures = []) :
    (∀ m ∈ report.moved,
      ((organize o root d).disk.stat m.target).toOption.any Entry.isFile = true) ∧
    (report.moved ≠ [] → ∃ between listing, Phases o d report between listing ∧
      ∀ p ∈ listing.files, p.isText = true → ∃ dir before after, p.parent? = some dir ∧
        d.readText (pathBefore report.root report.moved p) = .ok before ∧
        (organize o root d).disk.readText p = .ok after ∧
        LeadsBack o.references.looseMentions report.moved dir before after) := by
  by_cases hmoved : report.moved = []
  · simp [hmoved]
  rcases phases_of_organize hrun hmoved with ⟨hresolved, between, listing, hphases, hupdates⟩
  obtain ⟨heq, hhome⟩ := isHome_of_resolvedRoot hd hroot hresolved
  rcases hphases.moves with ⟨plans, moves, hplan, hexec, hmoves, hskips⟩
  rw [heq] at hplan hexec
  rcases plan_eq_ok hd hhome hplan with ⟨hplans, hnodup, -⟩
  have hsettled := settled_of_execute hd hhome hfree hplans hnodup hexec
    (hskips.trans hskipped)
  rw [hmoves] at hsettled
  have hlisted := hphases.listed
  rw [hlist, heq] at hlisted
  rcases hsettled.isHome.get? with ⟨mode, hmode⟩
  have hlists := Listing.lists_of_list hsettled.isTree lister skipped hmode hlisted
  -- no two of the recorded names are the same in another letter case
  have hdiff := pairwise_not_spelled hsettled hplain hnodup hdiffer
  rcases texts_of_updates hsettled hupdates hlists hfailures with ⟨hsame, hlast, htexts⟩
  refine ⟨fun m hm => ?_, fun _ => ⟨between, listing, hphases, fun p hp htext => ?_⟩⟩
  · rcases hsettled.arrived m hm with ⟨k, c, harrived⟩
    exact stat_of_arrivedAt hlast hsame harrived
  · rcases htexts p hp htext with ⟨loc, e, text, rfl, hbelow, he, hfile, hread, hupdated⟩
    obtain ⟨dir, hparent, hback⟩ := leadsBack_updatedText hsettled hplans hplain hdiff
      o.references.looseMentions hbelow he hfile text
    refine ⟨dir, text, _, hparent, ?_, hupdated, hback⟩
    rw [heq]
    exact readText_pathBefore hd hsettled he hfile hread

/-! ## A stylesheet that gives way to another one -/

/-- A project in which a stylesheet has to give way to another one. -/
def styledDisk : Disk where
  entries := [(["site"], .dir 0o755), (["a.css", "site"], .file 0o644 "new".toUTF8),
    (["css", "site"], .dir 0o755), (["a.css", "css", "site"], .file 0o644 "old".toUTF8),
    (["page.html", "css", "site"], .file 0o644 "<link href=\"../a.css\">".toUTF8)]

/-- The plans for the project. -/
def styledPlans : List Planned := [⟨⟨"/site/a.css"⟩, "a.css", .css⟩]

/-- The file that moves. -/
def styledMoved : List Moved := [⟨"a.css", "css/a-1.css", ⟨"/site/css/a-1.css"⟩⟩]

/-- The project after the move. -/
def styledBetween : Disk where
  entries := [(["site"], .dir 0o755), (["a-1.css", "css", "site"], .file 0o644 "new".toUTF8),
    (["css", "site"], .dir 0o755), (["a.css", "css", "site"], .file 0o644 "old".toUTF8),
    (["page.html", "css", "site"], .file 0o644 "<link href=\"../a.css\">".toUTF8)]

/-- What is listed then. -/
def styledPaths : List Path :=
  [⟨"/site/css/a-1.css"⟩, ⟨"/site/css/a.css"⟩, ⟨"/site/css/page.html"⟩]

theorem plan_styledDisk : Move.plan styledDisk ⟨"/site"⟩ .standard {} = .ok styledPlans := by
  have hloc : styledDisk.locate true ⟨"/site"⟩ = .ok (["site"], .dir 0o755) := rfl
  have hread : styledDisk.readDir ⟨"/site"⟩ =
      .ok [("a.css", .file 0o644 "new".toUTF8), ("css", .dir 0o755)] :=
    readDir_of_sorted hloc rfl rfl (by decide +kernel)
  have hplans : ([("a.css", .file 0o644 "new".toUTF8), ("css", .dir 0o755)] :
      List (String × Entry)).filterMap (planFor? ⟨"/site"⟩ .standard {}) = styledPlans := by
    decide +kernel
  simp only [Move.plan, hread, planEntries, hplans]
  rw [List.mergeSort_of_pairwise (by decide +kernel)]

theorem walk_styledBetween : Listing.walk standardSkippedDirs styledBetween ⟨"/site"⟩ =
    .ok ⟨styledPaths, []⟩ := by
  have hloc : styledBetween.locate true ⟨"/site"⟩ = .ok (["site"], .dir 0o755) := rfl
  have hsite : styledBetween.readDir ⟨"/site"⟩ = .ok [("css", .dir 0o755)] :=
    readDir_of_sorted hloc rfl rfl (by decide +kernel)
  have hloc' : styledBetween.locate true ⟨"/site/css"⟩ = .ok (["css", "site"], .dir 0o755) := rfl
  have hcss : styledBetween.readDir ⟨"/site/css"⟩ = .ok [("a-1.css", .file 0o644 "new".toUTF8),
      ("a.css", .file 0o644 "old".toUTF8),
      ("page.html", .file 0o644 "<link href=\"../a.css\">".toUTF8)] :=
    readDir_of_sorted hloc' rfl rfl (by decide +kernel)
  have hlstat : styledBetween.lstat ⟨"/site"⟩ = .ok (.dir 0o755) := rfl
  have hjoin : (Path.mk "/site").join "css" = ⟨"/site/css"⟩ := by decide +kernel
  have hskip : standardSkippedDirs.contains "css" = false := by decide +kernel
  have hdepth : styledBetween.entries.length = 5 := rfl
  simp only [Listing.walk, hlstat, hsite, hdepth, Listing.listEntries, hskip, hjoin,
    Listing.listBelow, hcss]
  rfl

theorem execute_styledDisk : Move.execute ⟨"/site"⟩ styledPlans styledDisk =
    (.ok ⟨styledMoved, []⟩, styledBetween) := rfl

theorem organize_styledDisk : ∃ report, (organize {} ⟨"/site"⟩ styledDisk).result = .ok report ∧
    report.moved = styledMoved ∧ report.skipped = [] ∧ report.failures = [] := by
  have hroot : resolvedRoot styledDisk ⟨"/site"⟩ = .ok ⟨"/site"⟩ := rfl
  have hupdate : (Reference.updateFiles {} styledMoved styledPaths styledBetween).result.toOption.any
      (fun s => s.failed.isEmpty) = true := by decide +kernel
  obtain ⟨summary, hresult, hfailed⟩ := any_toOption_eq_true_iff.1 hupdate
  obtain ⟨report, hrun, hmoved, hskipped, hfailures, -⟩ := organize_of_phases (o := {}) hroot
    plan_styledDisk execute_styledDisk (by simp [styledMoved]) walk_styledBetween hresult
  refine ⟨report, hrun, hmoved, hskipped, ?_⟩
  rw [hfailures]
  simpa using hfailed

theorem fileName_styledDisk {n : String}
    (h : (styledDisk.get? (n :: ["site"])).any Entry.isFile = true) : n = "a.css" := by
  rcases (Option.any_eq_true _ _).1 h with ⟨e, he, hfile⟩
  have hmem := mem_of_get? he (by simp)
  simp only [styledDisk, List.mem_cons, Prod.mk.injEq, List.cons.injEq] at hmem
  rcases hmem with ⟨⟨-, h⟩, -⟩ | ⟨⟨rfl, -⟩, -⟩ | ⟨-, rfl⟩ | ⟨⟨-, h, -⟩, -⟩ | ⟨⟨-, h, -⟩, -⟩ | h
  · simp at h
  · rfl
  · simp [Entry.isFile] at hfile
  · simp at h
  · simp at h
  · simp at h

theorem organize_references_of_taken_name :
    ∃ report, (organize {} ⟨"/site"⟩ styledDisk).result = .ok report ∧
      report.moved = styledMoved ∧
      (∀ m ∈ report.moved, ((organize {} ⟨"/site"⟩ styledDisk).disk.stat m.target).toOption.any
        Entry.isFile = true) ∧
      (report.moved ≠ [] → ∃ between listing, Phases {} styledDisk report between listing ∧
        ∀ p ∈ listing.files, p.isText = true → ∃ dir before after, p.parent? = some dir ∧
          styledDisk.readText (pathBefore report.root report.moved p) = .ok before ∧
          (organize {} ⟨"/site"⟩ styledDisk).disk.readText p = .ok after ∧
          LeadsBack true report.moved dir before after) := by
  rcases organize_styledDisk with ⟨report, hrun, hmoved, hskipped, hfailures⟩
  have htree : styledDisk.IsTree := by decide +kernel
  have hlist : ({} : RunSetup).list = Lister.walk.list standardSkippedDirs := rfl
  have hroot : styledDisk.locate true ⟨"/site"⟩ = .ok (["site"], .dir 0o755) := rfl
  have hfree : styledDisk.LinkFree ["site"] := linkFree_of_entries (by decide +kernel) _
  have hplain : IsPlain "a.css" := by decide
  refine ⟨report, hrun, hmoved, organize_references htree hlist hroot hfree (fun n hn => ?_)
    (fun m n hm hn _ => ?_) hrun hskipped hfailures⟩
  · rwa [fileName_styledDisk hn]
  · rw [fileName_styledDisk hm, fileName_styledDisk hn]

end SiteFolders
