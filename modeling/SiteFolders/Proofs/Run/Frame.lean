import SiteFolders.Proofs.Listing.Files
import SiteFolders.Proofs.Move.Outcome
import SiteFolders.Proofs.Reference.Updates
import SiteFolders.Proofs.Run.RoundTrip
import SiteFolders.Proofs.Settings.Staying
import Mathlib.Data.List.Pairwise

/-!
# The frame of a run

A run writes in each of its phases, and each phase can end the run early. What it leaves is described
by where the entries of the disk have gone (`Framed`): the moves take planned files to the folders of
their categories, also if they end early (`framed_execute`), and the updates give listed texts other
bytes where they are (`Framed.updated`). The rest of the disk stays, and so do the files that the
settings keep at the root, the directories of skipped names and what is no text (`organize_frame`).
-/

namespace SiteFolders

open Disk Move
open SiteFolders.Reference

/-- What may become of an entry that is at a location after the moves: it stays as it is, or it is a
listed text file and its text is updated. -/
inductive Becomes (loose : Bool) (moved : List Moved) (listed : List Path) (loc : Location) :
    Entry → Entry → Prop
  | same (e : Entry) : Becomes loose moved listed loc e e
  | updated (mode : Nat) (text : String) (hlisted : Path.ofLocation loc ∈ listed)
      (htext : (Path.ofLocation loc).isText = true) :
      Becomes loose moved listed loc (.file mode text.toUTF8)
        (.file mode (updatedText loose moved (Path.ofLocation loc) text).toUTF8)

/-- What is no text stays as it is. -/
theorem Becomes.eq_of_no_text {loose : Bool} {moved : List Moved} {listed : List Path}
    {loc : Location} {mode : Nat} {bytes : ByteArray} {e : Entry}
    (h : Becomes loose moved listed loc (.file mode bytes) e)
    (hbytes : String.fromUTF8? bytes = none) : e = .file mode bytes := by
  cases h with
  | same => rfl
  | updated _ text =>
    rw [fromUTF8?_toUTF8] at hbytes
    simp at hbytes

/-- Where nothing is listed, everything stays as it is. -/
theorem Becomes.eq_of_nil {loose : Bool} {moved : List Moved} {loc : Location} {e e' : Entry}
    (h : Becomes loose moved [] loc e e') : e = e' := by
  cases h with
  | same => rfl
  | updated _ _ hlisted => simp at hlisted

/-- Where the entries of a disk are on another one, and what has become of them: planned files may
be in the folders of their categories, and everything else is where it was. What else there is are
new folders. -/
structure Framed (loose : Bool) (d last : Disk) (home : Location) (plans : List Planned)
    (moved : List Moved) (listed : List Path) (go : Location → Location) : Prop where
  isTree : last.IsTree
  keeps : d.Keeps last
  goes : ∀ loc, go loc = loc ∨
    ∃ p ∈ plans, ∃ k, loc = p.fileName :: home ∧ go loc = p.place home k
  recorded : ∀ m ∈ moved, last.LeadsTo m.target (go (m.oldName :: home))
  unrecorded : ∀ loc, (∀ m ∈ moved, loc ≠ m.oldName :: home) → go loc = loc
  injective : ∀ loc loc', (d.get? loc).isSome → (d.get? loc').isSome → go loc = go loc' → loc = loc'
  arrived : ∀ loc e, d.get? loc = some e →
    ∃ e', last.get? (go loc) = some e' ∧ Becomes loose moved listed (go loc) e e'
  origin : ∀ loc e', last.get? loc = some e' →
    (∃ old e, d.get? old = some e ∧ go old = loc ∧ Becomes loose moved listed loc e e') ∨
      ∃ p ∈ plans, loc = p.category.folder :: home ∧ e' = .dir newDirMode

variable {loose : Bool} {d between last : Disk} {home : Location} {plans : List Planned}
  {moved : List Moved} {listed : List Path} {go : Location → Location}

theorem Framed.refl (loose : Bool) (hd : d.IsTree) (home : Location) (plans : List Planned)
    (listed : List Path) : Framed loose d d home plans [] listed id where
  isTree := hd
  keeps := .refl d
  goes := fun _ => Or.inl rfl
  recorded := by simp
  unrecorded := fun _ _ => rfl
  injective := fun _ _ _ _ h => h
  arrived := fun _ e he => ⟨e, he, .same e⟩
  origin := fun loc e he => Or.inl ⟨loc, e, he, rfl, .same e⟩

/-! ## The moves -/

section Moves

variable {root : Path} {r : Move.Result}

/-- One record is made of a planned file. -/
theorem eq_of_oldName (h : Move.Outcome d between root home plans r)
    (hplans : ∀ p ∈ plans, PlannedAt d root home p) (hnodup : (plans.map Planned.fileName).Nodup)
    {m m' : Reference.Moved} (hm : m ∈ r.moved) (hm' : m' ∈ r.moved)
    (hname : m.oldName = m'.oldName) : m = m' := by
  have hsources := (h.perm.nodup_iff.2 (nodup_source hplans hnodup)).of_append_left
  exact List.inj_on_of_nodup_map hsources hm hm' (by rw [hname])

/-- Records of which the targets lead to one place are the same. -/
theorem eq_of_place (h : Move.Outcome d between root home plans r) {m m' : Reference.Moved}
    (hm : m ∈ r.moved) (hm' : m' ∈ r.moved) {p p' : Planned} {k k' : Nat}
    (hmoved : MovedTo d between root home p m k) (hmoved' : MovedTo d between root home p' m' k')
    (hplace : p.place home k = p'.place home k') : m = m' := by
  by_contra hne
  have hsymm : Std.Symm fun m n : Reference.Moved => m.target.same n.target = false := by
    refine ⟨fun a b hab => ?_⟩
    rwa [Path.same, Bool.beq_comm]
  have hdiffer := h.distinct.forall hm hm' hne
  obtain ⟨hcandidate, hfolder⟩ : candidate p.fileName k = candidate p'.fileName k' ∧
      p.category.folder = p'.category.folder := by
    simpa [Planned.place] using hplace
  rw [hmoved.target, hmoved'.target, hcandidate, hfolder] at hdiffer
  simp [Path.same] at hdiffer

/-- The places that the recorded files have got. -/
def Places (d between : Disk) (root : Path) (home : Location) (plans : List Planned)
    (moved : List Reference.Moved) (place : Reference.Moved → Location) : Prop :=
  ∀ m ∈ moved, ∃ p ∈ plans, ∃ k, place m = p.place home k ∧ MovedTo d between root home p m k

theorem exists_places (h : Move.Outcome d between root home plans r) :
    ∃ place, Places d between root home plans r.moved place := by
  have hplace : ∀ m ∈ r.moved, ∃ place, ∃ p ∈ plans, ∃ k, place = p.place home k ∧
      MovedTo d between root home p m k := by
    intro m hm
    obtain ⟨p, hp, k, hmoved⟩ := h.moved m hm
    exact ⟨_, p, hp, k, rfl, hmoved⟩
  choose! place hplace using hplace
  exact ⟨place, hplace⟩

/-- Where an entry is when each recorded file has gone to its place. -/
def gone (home : Location) (place : Reference.Moved → Location) (moved : List Reference.Moved)
    (loc : Location) : Location :=
  ((moved.find? fun m => loc = m.oldName :: home).map place).getD loc

variable {place : Reference.Moved → Location}

theorem gone_of_ne {loc : Location} (h : ∀ m ∈ moved, loc ≠ m.oldName :: home) :
    gone home place moved loc = loc := by
  have hnone : (moved.find? fun m => loc = m.oldName :: home) = none := by
    simpa using h
  rw [gone, hnone, Option.map_none, Option.getD_none]

theorem gone_of_mem {m : Reference.Moved} (hm : m ∈ moved)
    (hunique : ∀ m' ∈ moved, m.oldName = m'.oldName → m = m') :
    gone home place moved (m.oldName :: home) = place m := by
  rw [gone]
  cases hfind : moved.find? fun m' => m.oldName :: home = m'.oldName :: home with
  | none => simpa using List.find?_eq_none.1 hfind m hm
  | some m' =>
    have hname : m.oldName = m'.oldName := by simpa using List.find?_some hfind
    rw [hunique m' (List.mem_of_find?_eq_some hfind) hname, Option.map_some, Option.getD_some]

/-- An entry is that of a recorded file, which has gone to its place, or it stays. -/
theorem gone_cases (h : Move.Outcome d between root home plans r)
    (hplans : ∀ p ∈ plans, PlannedAt d root home p) (hnodup : (plans.map Planned.fileName).Nodup)
    (hplaces : Places d between root home plans r.moved place) (loc : Location) :
    (∃ m ∈ r.moved, ∃ p ∈ plans, ∃ k, loc = m.oldName :: home ∧
        gone home place r.moved loc = p.place home k ∧ MovedTo d between root home p m k) ∨
      (∀ m ∈ r.moved, loc ≠ m.oldName :: home) ∧ gone home place r.moved loc = loc := by
  by_cases hloc : ∃ m ∈ r.moved, loc = m.oldName :: home
  · obtain ⟨m, hm, rfl⟩ := hloc
    obtain ⟨p, hp, k, hk, hmoved⟩ := hplaces m hm
    have hgoes : gone home place r.moved (m.oldName :: home) = place m :=
      gone_of_mem hm fun m' hm' => eq_of_oldName h hplans hnodup hm hm'
    exact Or.inl ⟨m, hm, p, hp, k, rfl, hgoes.trans hk, hmoved⟩
  · push Not at hloc
    exact Or.inr ⟨hloc, gone_of_ne hloc⟩

/-- No two entries have gone to one location: places were vacant, and they differ. -/
theorem gone_injective (h : Move.Outcome d between root home plans r)
    (hplans : ∀ p ∈ plans, PlannedAt d root home p) (hnodup : (plans.map Planned.fileName).Nodup)
    (hplaces : Places d between root home plans r.moved place) {loc loc' : Location}
    (hloc : (d.get? loc).isSome) (hloc' : (d.get? loc').isSome)
    (heq : gone home place r.moved loc = gone home place r.moved loc') : loc = loc' := by
  rcases gone_cases h hplans hnodup hplaces loc with
      ⟨m, hm, p, -, k, rfl, hgoes, hmoved⟩ | ⟨-, hstays⟩ <;>
    rcases gone_cases h hplans hnodup hplaces loc' with
      ⟨m', hm', p', -, k', rfl, hgoes', hmoved'⟩ | ⟨-, hstays'⟩
  · rw [eq_of_place h hm hm' hmoved hmoved' (by rw [← hgoes, ← hgoes', heq])]
  · rw [← hstays', ← heq, hgoes, hmoved.vacant] at hloc'
    simp at hloc'
  · rw [← hstays, heq, hgoes', hmoved'.vacant] at hloc
    simp at hloc
  · rwa [hstays, hstays'] at heq

/-- A move phase that goes through takes each recorded file to where its target leads. -/
theorem framed_of_outcome (loose : Bool) (h : Move.Outcome d between root home plans r)
    (hplans : ∀ p ∈ plans, PlannedAt d root home p) (hnodup : (plans.map Planned.fileName).Nodup) :
    ∃ go, Framed loose d between home plans r.moved [] go := by
  obtain ⟨place, hplaces⟩ := exists_places h
  have hcases := gone_cases h hplans hnodup hplaces
  -- a name is recorded once, so the place found for it is that of its own move
  have hgoes : ∀ m ∈ r.moved,
      between.LeadsTo m.target (gone home place r.moved (m.oldName :: home)) := by
    intro m hm
    rcases hcases (m.oldName :: home) with ⟨m', hm', p, -, k, hname, hgo, hmoved⟩ | ⟨hother, -⟩
    · obtain rfl : m = m' :=
        eq_of_oldName h hplans hnodup hm hm' (List.cons.inj hname).1
      rw [hgo]
      exact hmoved.leads
    · exact absurd rfl (hother m hm)
  refine ⟨gone home place r.moved, h.isTree, h.keeps, fun loc => ?_, hgoes,
    fun loc => gone_of_ne, fun loc loc' => gone_injective h hplans hnodup hplaces,
    fun loc e he => ?_, fun loc e he => ?_⟩
  · rcases hcases loc with ⟨m, -, p, hp, k, rfl, hgo, hmoved⟩ | ⟨-, hstays⟩
    · exact Or.inr ⟨p, hp, k, by rw [hmoved.oldName], hgo⟩
    · exact Or.inl hstays
  · refine ⟨e, ?_, .same e⟩
    rcases hcases loc with ⟨m, -, p, -, k, rfl, hgo, hmoved⟩ | ⟨hother, hstays⟩
    · rw [hgo, hmoved.same, ← hmoved.oldName, he]
    · rw [hstays]
      exact h.kept loc e he hother
  · rcases h.origin loc e he with ⟨hold, hother⟩ | ⟨m, hm, hleads, hold⟩ | hfolder
    · exact Or.inl ⟨loc, e, hold, gone_of_ne hother, .same e⟩
    · exact Or.inl ⟨m.oldName :: home, e, hold, (hgoes m hm).unique hleads, .same e⟩
    · exact Or.inr hfolder

/-- The folder that is made for one more file. -/
theorem Framed.made {here : Disk} {done : List Planned} {p : Planned}
    (h : Framed loose d here home done moved [] go) (hroot : RootAt here root home)
    (hdone : ∀ q ∈ done, q ∈ plans) (hp : p ∈ plans) :
    Framed loose d (madeFor root p here) home plans moved [] go := by
  have hgrown := grown_madeFor root p here
  refine ⟨hgrown.isTree h.isTree, h.keeps.trans hgrown.keeps, fun loc => ?_,
    fun m hm => hgrown.keeps.leadsTo (h.recorded m hm), h.unrecorded, h.injective,
    fun loc e he => ?_, fun loc e he => ?_⟩
  · rcases h.goes loc with hsame | ⟨q, hq, k, hloc, hgo⟩
    · exact Or.inl hsame
    · exact Or.inr ⟨q, hdone q hq, k, hloc, hgo⟩
  · obtain ⟨e', he', hbecomes⟩ := h.arrived loc e he
    exact ⟨e', hgrown.kept _ e' he', hbecomes⟩
  · rcases hroot.of_madeFor he with hold | ⟨-, hloc, hdir⟩
    · rcases h.origin loc e hold with hcame | ⟨q, hq, hfolder⟩
      · exact Or.inl hcame
      · exact Or.inr ⟨q, hdone q hq, hfolder⟩
    · exact Or.inr ⟨p, hp, hloc, hdir⟩

/-- What a move phase leaves, also one that ends early. -/
theorem framed_execute (loose : Bool) (hd : d.IsTree) (hroot : RootAt d root home)
    (hfree : d.LinkFree home) (hplans : ∀ p ∈ plans, PlannedAt d root home p)
    (hnodup : (plans.map Planned.fileName).Nodup) :
    ∃ moved go, Framed loose d (Move.execute root plans d).2 home plans moved [] go ∧
      ∀ r, (Move.execute root plans d).1 = .ok r → r.moved = moved := by
  cases hexec : Move.execute root plans d with
  | mk result after =>
    cases result with
    | ok r =>
      have hout := outcome_execute hd hroot hfree hplans hnodup hexec
      obtain ⟨go, hgo⟩ := framed_of_outcome loose hout hplans hnodup
      exact ⟨r.moved, go, hgo, fun r' h => by rw [Except.ok.inj h]⟩
    | error e =>
      -- the plans before the one whose folder cannot be made have gone through
      obtain ⟨done, p, rest, r, here, cause, rfl, hdone, -, rfl⟩ :=
        execute_eq_error hd (fun p hp => (hplans p hp).isName) hexec
      have hplans' : ∀ q ∈ done, PlannedAt d root home q :=
        fun q hq => hplans q (List.mem_append_left _ hq)
      have hnodup' : (done.map Planned.fileName).Nodup := by
        rw [List.map_append] at hnodup
        exact hnodup.of_append_left
      have hout := outcome_execute hd hroot hfree hplans' hnodup' hdone
      obtain ⟨go, hgo⟩ := framed_of_outcome loose hout hplans' hnodup'
      refine ⟨r.moved, go, hgo.made (hroot.keeps hout.keeps) ?_ (by simp), by simp⟩
      exact fun q hq => List.mem_append_left _ hq

end Moves

/-! ## The updates -/

/-- An update of listed files gives texts among them their updated texts and leaves everything else
as it is. -/
theorem becomes_updateFiles (o : Reference.Options) (moved : List Reference.Moved) {files : List Path}
    (hd : d.IsTree) (hlists : Listing.Lists d home files) {loc : Location} {e : Entry}
    (he : d.get? loc = some e) :
    ∃ e', (updateFiles o moved files d).disk.get? loc = some e' ∧
      Becomes o.looseMentions moved files loc e e' := by
  -- listed paths lead to different files, so each of them fares as it would by itself
  obtain ⟨done, hdone, heach⟩ :=
    exists_eachUpdated o moved ((hlists.unaliased hd).filter Path.isText)
  rw [updateFiles]
  by_cases hwritten : ∃ p ∈ done, fate o.looseMentions moved d p = .ok true ∧
      d.location? p = some loc
  · obtain ⟨p, hp, hfate, hplace⟩ := hwritten
    obtain ⟨place, hrewritten⟩ := heach.rewritten p hp hfate
    obtain rfl : place = loc := Option.some.inj (hrewritten.location?.symm.trans hplace)
    obtain ⟨hlisted, htext⟩ := List.mem_filter.1 (hdone.subset hp)
    obtain ⟨rfl, -⟩ := hlists.eq_ofLocation hd hlisted hplace
    obtain ⟨mode, bytes, text, hlocate, -, hbytes, -, hget⟩ := hrewritten
    obtain rfl : e = .file mode bytes := Option.some.inj (he.symm.trans (locate_eq_ok_iff.1 hlocate).2)
    rw [← toUTF8_of_fromUTF8? hbytes]
    exact ⟨_, hget, .updated mode text hlisted htext⟩
  · push Not at hwritten
    refine ⟨e, ?_, .same e⟩
    rw [heach.kept loc fun p hp hfate => hwritten p hp hfate, he]

theorem Framed.updated (h : Framed loose d between home plans moved [] go)
    (hsame : between.SameTree last) (hlast : last.IsTree)
    (hbecomes : ∀ loc e, between.get? loc = some e →
      ∃ e', last.get? loc = some e' ∧ Becomes loose moved listed loc e e') :
    Framed loose d last home plans moved listed go := by
  refine ⟨hlast, h.keeps.trans hsame.keeps, h.goes, fun m hm => hsame.keeps.leadsTo (h.recorded m hm),
    h.unrecorded, h.injective, fun loc e he => ?_, fun loc e' he' => ?_⟩
  · obtain ⟨e', he', hsame'⟩ := h.arrived loc e he
    obtain rfl := hsame'.eq_of_nil
    exact hbecomes _ e he'
  · obtain ⟨e, he⟩ := Option.isSome_iff_exists.1 ((hsame.isSome loc).symm.trans (by rw [he']; rfl))
    obtain ⟨e'', he'', hnow⟩ := hbecomes loc e he
    obtain rfl : e'' = e' := Option.some.inj (he''.symm.trans he')
    rcases h.origin loc e he with ⟨old, e₀, hold, hgo, hsame'⟩ | ⟨p, hp, hloc, rfl⟩
    · obtain rfl := hsame'.eq_of_nil
      exact Or.inl ⟨old, e₀, hold, hgo, hnow⟩
    · cases hnow with
      | same => exact Or.inr ⟨p, hp, hloc, rfl⟩

/-! ## The whole run -/

theorem afterMoves_moved {o : RunSetup} {root : Path} {moves : Move.Result} {report : Report}
    (h : (afterMoves o root moves d).result = .ok report) : report.moved = moves.moved := by
  unfold afterMoves at h
  dsimp only at h
  split at h
  · rw [← Except.ok.inj h]
  · cases hlisting : o.list d root with
    | error e => simp [hlisting] at h
    | ok listing =>
      simp only [hlisting, updateReferences] at h
      split at h
      · simp at h
      · rw [← Except.ok.inj h]

/-- What a run has listed: nothing, or what its listing names after the moves. -/
def ListedAfter (o : RunSetup) (d : Disk) (home : Location) (plans : List Planned)
    (moved : List Reference.Moved) (listed : List Path) : Prop :=
  listed = [] ∨ ∃ r between listing,
    Move.execute (Path.ofLocation home) plans d = (.ok r, between) ∧ r.moved = moved ∧
      o.list between (Path.ofLocation home) = .ok listing ∧ listing.files = listed

/-- No listed file lies in a directory of a skipped name. -/
def SparesSkipped (skipped : List String) (home : Location) (listed : List Path) : Prop :=
  ∀ below, (∀ n ∈ below ++ home, IsName n) → Path.ofLocation (below ++ home) ∈ listed →
    ∀ s ∈ below.tail, s ∉ skipped

theorem sparesSkipped_nil (skipped : List String) (home : Location) :
    SparesSkipped skipped home [] := by
  simp [SparesSkipped]

/-- What follows the moves updates what is listed then, or nothing. -/
theorem framed_afterMoves {o : RunSetup} {lister : Lister} {skipped : List String}
    (hlist : o.list = lister.list skipped) {r : Move.Result} (hhome : IsHome between home)
    (h : Framed o.references.looseMentions d between home plans r.moved [] go) :
    ∃ listed, Framed o.references.looseMentions d
        (afterMoves o (Path.ofLocation home) r between).disk home plans r.moved listed go ∧
      (listed = [] ∨ ∃ listing,
        o.list between (Path.ofLocation home) = .ok listing ∧ listing.files = listed) ∧
      SparesSkipped skipped home listed := by
  rcases afterMoves_disk o (Path.ofLocation home) r between with hsame | ⟨listing, hlisting, hdisk⟩
  · exact ⟨[], by rwa [hsame], Or.inl rfl, sparesSkipped_nil skipped home⟩
  · obtain ⟨mode, hmode⟩ := hhome.get?
    have hwalked : lister.list skipped between (Path.ofLocation home) = .ok listing :=
      hlist ▸ hlisting
    refine ⟨listing.files, ?_, Or.inr ⟨listing, hlisting, rfl⟩,
      Listing.not_skipped_of_list h.isTree lister skipped hmode hwalked⟩
    have hlists := Listing.lists_of_list h.isTree lister skipped hmode hwalked
    obtain ⟨htree, hlast⟩ := keepsTree_updateEach o.references r.moved
      (listing.files.filter Path.isText) between
    rw [hdisk]
    exact h.updated htree (hlast h.isTree)
      fun loc e he => becomes_updateFiles o.references r.moved h.isTree hlists he

/-- What a run leaves, however it ends. -/
theorem framed_organize {o : RunSetup} {lister : Lister} {skipped : List String} (hd : d.IsTree)
    (hlist : o.list = lister.list skipped) {root : Path} {top : Entry}
    (hroot : d.locate true root = .ok (home, top)) (hfree : d.LinkFree home) :
    ∃ moved listed go, Framed o.references.looseMentions d (organize o root d).disk home
        ((plannedMoves o root d).toOption.getD []) moved listed go ∧
      ListedAfter o d home ((plannedMoves o root d).toOption.getD []) moved listed ∧
      (∀ report, (organize o root d).result = .ok report → report.moved = moved) ∧
      SparesSkipped skipped home listed := by
  have hspares := sparesSkipped_nil skipped home
  rw [organize_disk, organize_result]
  unfold runPhases plannedMoves
  -- the phases in turn, and for each of them what is left if the run ends there
  cases hresolved : resolvedRoot d root with
  | error e => exact ⟨[], [], id, .refl _ hd home _ _, Or.inl rfl, by simp, hspares⟩
  | ok canonical =>
    obtain ⟨rfl, hhome⟩ := isHome_of_resolvedRoot hd hroot hresolved
    dsimp only
    cases hplan : Move.plan d (Path.ofLocation home) o.classifier o.exclusion with
    | error e => exact ⟨[], [], id, .refl _ hd home _ _, Or.inl rfl, by simp, hspares⟩
    | ok plans =>
      obtain ⟨hplanned, hnodup, -⟩ := plan_eq_ok hd hhome hplan
      obtain ⟨moved, go, hframed, hmoved⟩ := framed_execute o.references.looseMentions hd
        (hhome.rootAt hd) hfree (fun p hp => (hplanned p hp).plannedAt) hnodup
      simp only [toOption_ok, Option.getD_some]
      cases hexec : Move.execute (Path.ofLocation home) plans d with
      | mk result between =>
        rw [hexec] at hframed hmoved
        cases result with
        | error e => exact ⟨moved, [], go, hframed, Or.inl rfl, by simp, hspares⟩
        | ok r =>
          obtain rfl := hmoved r rfl
          obtain ⟨listed, hupdated, hlisted, hskipped⟩ :=
            framed_afterMoves hlist (hhome.keeps hframed.keeps) hframed
          refine ⟨r.moved, listed, go, hupdated, ?_, fun report => afterMoves_moved, hskipped⟩
          rcases hlisted with hnil | ⟨listing, hlisting, hfiles⟩
          · exact Or.inl hnil
          · exact Or.inr ⟨r, between, listing, hexec, rfl, hlisting, hfiles⟩

/-- What is at the location of no planned file stays there. -/
theorem Framed.go_eq_self (h : Framed loose d last home plans moved listed go) {loc : Location}
    (hloc : ∀ p ∈ plans, loc ≠ p.fileName :: home) : go loc = loc := by
  rcases h.goes loc with hsame | ⟨p, hp, -, heq, -⟩
  · exact hsame
  · exact absurd heq (hloc p hp)

/-- What is in a directory of a skipped name stays as it is: planned files are in the root itself, and
nothing in such a directory is listed. -/
theorem Framed.get?_of_skipped (h : Framed loose d last home plans moved listed go) (hd : d.IsTree)
    {skipped : List String} (hspares : SparesSkipped skipped home listed) {n dir : String}
    {below : Location} (hdir : dir ∈ below) (hskipped : dir ∈ skipped) {e : Entry}
    (he : d.get? (n :: (below ++ home)) = some e) :
    last.get? (n :: (below ++ home)) = some e := by
  have hstays : go (n :: (below ++ home)) = n :: (below ++ home) := by
    refine h.go_eq_self fun p _ heq => ?_
    obtain rfl : below = [] := by simpa using (List.cons.inj heq).2
    simp at hdir
  obtain ⟨e', he', hbecomes⟩ := h.arrived _ e he
  rw [hstays] at he' hbecomes
  cases hbecomes with
  | same => exact he'
  | updated mode text hin htext =>
    have hnames := hd.isName_of_mem (by simp [he] : (d.get? ((n :: below) ++ home)).isSome)
    exact absurd hskipped (hspares (n :: below) hnames hin dir hdir)

/-- A planned file has no name that the settings keep at the root. -/
theorem not_keptAtRoot_of_planned {s : Settings} {o : RunSetup} (hs : RunSetup.ofSettings s = .ok o)
    (hd : d.IsTree) {root : Path} {top : Entry} (hroot : d.locate true root = .ok (home, top))
    {p : Planned} (hp : p ∈ (plannedMoves o root d).toOption.getD []) :
    ¬ KeptAtRoot s (Path.ofLocation home) p.fileName := by
  intro hkept
  unfold plannedMoves at hp
  cases hresolved : resolvedRoot d root with
  | error e => simp [hresolved] at hp
  | ok canonical =>
    obtain ⟨rfl, hhome⟩ := isHome_of_resolvedRoot hd hroot hresolved
    simp only [hresolved] at hp
    cases hplan : Move.plan d (Path.ofLocation home) o.classifier o.exclusion with
    | error e => simp [hplan] at hp
    | ok plans =>
      simp only [hplan, toOption_ok, Option.getD_some] at hp
      obtain ⟨mode, hmode⟩ := hhome.get?
      obtain ⟨n, e, -, hplanned⟩ := (mem_plan_iff hd (hhome.locate hd true hmode) hplan).1 hp
      rw [fileName_of_planFor? hplanned] at hkept
      rw [planFor?_of_keptAtRoot hs hkept e] at hplanned
      simp at hplanned

/-- However a run ends in a project without links, what it leaves differs from what was there only in
that planned files are in the folders of their categories, that folders of categories were made, and
that listed texts were updated. No file leaves the root that the settings keep there, nothing changes
in a directory below the root that has a skipped name, and bytes that are no text stay. A run whose
root leads nowhere changes nothing. -/
theorem organize_frame {s : Settings} {o : RunSetup} (hs : RunSetup.ofSettings s = .ok o)
    {d : Disk} (hd : d.IsTree) (root : Path) :
    (∀ e, d.locate true root = .error e → (organize o root d).disk = d) ∧
    ∀ home top, d.locate true root = .ok (home, top) → d.LinkFree home →
      let last := (organize o root d).disk
      let plans := (plannedMoves o root d).toOption.getD []
      ∃ moved listed go, Framed s.looseMentions d last home plans moved listed go ∧
        ListedAfter o d home plans moved listed ∧
        (∀ report, (organize o root d).result = .ok report → report.moved = moved) ∧
        (∀ n, KeptAtRoot s (Path.ofLocation home) n → go (n :: home) = n :: home) ∧
        (∀ n below e, (∃ dir ∈ below, dir ∈ s.skippedDirs) →
          d.get? (n :: (below ++ home)) = some e → last.get? (n :: (below ++ home)) = some e) ∧
        ∀ loc mode bytes, d.get? loc = some (.file mode bytes) → String.fromUTF8? bytes = none →
          last.get? (go loc) = some (.file mode bytes) := by
  obtain ⟨-, -, hlist, hreferences⟩ := ofSettings_eq_ok hs
  constructor
  · intro e he
    rw [organize_disk, runPhases_of_missing he]
  intro home top hroot hfree last plans
  obtain ⟨moved, listed, go, hframed, hlisted, hreport, hskipped⟩ :=
    framed_organize hd hlist hroot hfree
  rw [hreferences] at hframed
  refine ⟨moved, listed, go, hframed, hlisted, hreport, fun n hkept => ?_,
    fun n below e hdir he => ?_, fun loc mode bytes he hbytes => ?_⟩
  · refine hframed.go_eq_self fun p hp heq => ?_
    obtain rfl : n = p.fileName := (List.cons.inj heq).1
    exact not_keptAtRoot_of_planned hs hd hroot hp hkept
  · obtain ⟨dir, hmem, hdir⟩ := hdir
    exact hframed.get?_of_skipped hd hskipped hmem hdir he
  · obtain ⟨e', he', hbecomes⟩ := hframed.arrived loc _ he
    rwa [hbecomes.eq_of_no_text hbytes] at he'

/-- With the settings of an empty file, all that has gone elsewhere in the project is the stylesheet. -/
theorem organize_frame_of_styledDisk : RunSetup.ofSettings {} = .ok {} ∧ ∃ listed go,
    Framed true styledDisk (organize {} ⟨"/site"⟩ styledDisk).disk ["site"]
      ((plannedMoves {} ⟨"/site"⟩ styledDisk).toOption.getD []) styledMoved listed go ∧
    ∀ loc, loc ≠ ["a.css", "site"] → go loc = loc := by
  have hs : RunSetup.ofSettings {} = .ok {} := rfl
  have hroot : styledDisk.locate true ⟨"/site"⟩ = .ok (["site"], .dir 0o755) := rfl
  have hfree : styledDisk.LinkFree ["site"] := linkFree_of_entries (by decide +kernel) _
  obtain ⟨report, hrun, hmoved, -⟩ := organize_styledDisk
  obtain ⟨moved, listed, go, hframed, -, hreport, -⟩ :=
    (organize_frame hs (by decide +kernel) ⟨"/site"⟩).2 _ _ hroot hfree
  obtain rfl : styledMoved = moved := hmoved.symm.trans (hreport report hrun)
  refine ⟨hs, listed, go, hframed, fun loc hloc => hframed.unrecorded loc fun m hm => ?_⟩
  obtain rfl := List.mem_singleton.1 hm
  exact hloc

end SiteFolders
