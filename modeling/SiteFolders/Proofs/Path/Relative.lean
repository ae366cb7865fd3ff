import SiteFolders.Proofs.Path.Names

/-!
# Relative paths lead back

A path from one directory to another goes up as often as the first one lies below what both have in
common and then down by names (`stepsAfter_names`). Followed step by step from the first directory
it leads to the second one again, and what it is followed from is the text as it is written
(`resolve_relative`).
-/

namespace SiteFolders

namespace Path

/-! ## Following steps -/

/-- Where a step leads from a place. Two dots at the root lead nowhere else. -/
def enter (here : List Component) : Component → List Component
  | .root => [.root]
  | .here => here
  | .up => if here.getLast? = some .root then here else here.dropLast
  | .name s => here ++ [.name s]

/-- Where a reference leads from a directory, by its text alone. -/
def resolve (dir : Path) (reference : String) : List Component :=
  (components ⟨reference⟩).foldl enter dir.components

theorem foldl_enter_names (here : List Component) (ns : List String) :
    (ns.map Component.name).foldl enter here = here ++ ns.map Component.name := by
  induction ns generalizing here with
  | nil => simp
  | cons n ns ih => simp [enter, ih]

theorem foldl_enter_up (here : List Component) (ns : List String) :
    (List.replicate ns.length Component.up).foldl enter (here ++ ns.map Component.name) = here := by
  induction ns using List.reverseRecOn with
  | nil => simp
  | append_singleton ns n ih =>
    have hlast : (here ++ (ns ++ [n]).map Component.name).getLast? = some (.name n) := by simp
    have hdrop : (here ++ (ns ++ [n]).map Component.name).dropLast =
        here ++ ns.map Component.name := by
      rw [List.map_append, ← List.append_assoc]
      exact List.dropLast_concat
    rw [List.length_append, List.length_singleton, List.replicate_succ, List.foldl_cons, enter,
      if_neg (by rw [hlast]; simp), hdrop, ih]

/-! ## Steps between two places -/

/-- What both places begin with takes no step. -/
theorem stepsAfter_append (same target base : List Component) :
    stepsAfter (same ++ target) (same ++ base) false = stepsAfter target base false := by
  induction same with
  | nil => rfl
  | cons c same ih => simp [stepsAfter, ih]

/-- To the start one goes up step by step. -/
theorem stepsAfter_nil (base : List Component) (moved : Bool) :
    stepsAfter [] base moved = some (List.replicate base.length .up) := by
  induction base generalizing moved with
  | nil => rfl
  | cons c base ih => simp [stepsAfter, ih, List.replicate_succ]

/-- From names to names one goes up from below what they have in common, and down from there. From
below the target one only goes up. -/
theorem stepsAfter_names (target base : List String) :
    ∃ same target' base', target = same ++ target' ∧ base = same ++ base' ∧
      (target <+: base → target' = []) ∧
      stepsAfter (target.map Component.name) (base.map Component.name) false =
        some (List.replicate base'.length .up ++ target'.map Component.name) := by
  induction target generalizing base with
  | nil => exact ⟨[], [], base, rfl, rfl, fun _ => rfl, by simp [stepsAfter_nil]⟩
  | cons t target ih =>
    cases base with
    | nil => exact ⟨[], t :: target, [], rfl, rfl, by simp, by simp [stepsAfter]⟩
    | cons b base =>
      by_cases hsame : t = b
      · subst hsame
        rcases ih base with ⟨same, target', base', rfl, rfl, habove, hsteps⟩
        exact ⟨t :: same, target', base', rfl, rfl,
          fun h => habove (List.cons_prefix_cons.1 h).2, by simpa [stepsAfter] using hsteps⟩
      · refine ⟨[], t :: target, b :: base, rfl, rfl,
          fun h => absurd (List.cons_prefix_cons.1 h).1 hsame, ?_⟩
        simp [stepsAfter, hsame, List.replicate_succ, Function.comp_def]

/-! ## Steps as a text -/

/-- The text of steps up and then down by names. -/
def stepText (ups : Nat) (ns : List String) : String :=
  "/".intercalate (List.replicate ups ".." ++ ns)

theorem components_stepText {ups : Nat} {ns : List String} (hns : ∀ n ∈ ns, IsName n) :
    components ⟨stepText ups ns⟩ = List.replicate ups .up ++ ns.map .name := by
  by_cases hempty : List.replicate ups ".." ++ ns = []
  · -- where there is nothing to do, nothing is written
    obtain ⟨hups, rfl⟩ := List.append_eq_nil_iff.1 hempty
    obtain rfl := (List.replicate_eq_nil_iff _).1 hups
    simp [stepText, components, pieces, segmentsOf_empty, Component.ofSegment?]
  have hne : List.replicate ups ".." ++ ns ≠ [] := hempty
  have hslash : ∀ s ∈ List.replicate ups ".." ++ ns, '/' ∉ s.toList := by
    intro s hs
    rcases List.mem_append.1 hs with hs | hs
    · rw [List.eq_of_mem_replicate hs]
      decide
    · exact (hns s hs).no_slash
  have hstep : ∀ s ∈ List.replicate ups ".." ++ ns, s ≠ "" ∧ s ≠ "." := by
    intro s hs
    rcases List.mem_append.1 hs with hs | hs
    · rw [List.eq_of_mem_replicate hs]
      decide
    · exact ⟨(hns s hs).ne_empty, (hns s hs).ne_dot⟩
  have hsegs : segmentsOf (Path.mk (stepText ups ns)).text = List.replicate ups ".." ++ ns :=
    segmentsOf_intercalate hne hslash
  have hall : (List.replicate ups ".." ++ ns).filterMap Component.ofSegment? =
      List.replicate ups .up ++ ns.map .name := by
    rw [List.filterMap_append]
    congr 1
    · simp [Component.ofSegment?]
    · rw [← List.filterMap_eq_map]
      exact List.filterMap_congr fun n hn => (hns n hn).ofSegment?
  rcases List.exists_cons_of_ne_nil hne with ⟨first, rest, hlist⟩
  rw [hlist] at hsegs hall
  have hfirst := hstep first (by rw [hlist]; simp)
  rw [components, pieces_of_segmentsOf hsegs, ← hall]
  simp [hfirst.1, hfirst.2, List.filterMap_map, List.filterMap_cons]

theorem intercalate_text_steps (ups : Nat) (ns : List String) :
    "/".intercalate ((List.replicate ups Component.up ++ ns.map Component.name).map
      Component.text) = stepText ups ns := by
  simp [stepText, Component.text, Function.comp_def]

/-- Steps up over the last names of a place and then down by other names. -/
theorem resolve_stepText {dir : Path} {here : List Component} {base ns : List String}
    (hdir : dir.components = here ++ base.map .name) (hns : ∀ n ∈ ns, IsName n) :
    resolve dir (stepText base.length ns) = here ++ ns.map .name := by
  rw [resolve, components_stepText hns, hdir, List.foldl_append, foldl_enter_up, foldl_enter_names]

/-- Between two places that go on by names from one place, what both have in common is not part of
the way, and from below the target the way only goes up. -/
theorem relativeTo?_of_components {dir file : Path} (habsolute : file.isAbsolute = dir.isAbsolute)
    {here : List Component} {target base : List String}
    (hfile : file.components = here ++ target.map .name)
    (hdir : dir.components = here ++ base.map .name) :
    ∃ same target' base', target = same ++ target' ∧ base = same ++ base' ∧
      (target <+: base → target' = []) ∧
      relativeTo? dir file = some ⟨stepText base'.length target'⟩ := by
  obtain ⟨same, target', base', hsame, hsame', habove, hsteps⟩ := stepsAfter_names target base
  refine ⟨same, target', base', hsame, hsame', habove, ?_⟩
  rw [relativeTo?, if_pos habsolute, hfile, hdir, stepsAfter_append, hsteps, Option.map_some,
    intercalate_text_steps]

/-! ## References below a directory -/

theorem isAbsolute_ofLocation (loc : Location) : (ofLocation loc).isAbsolute = true := by
  simp [isAbsolute, ofLocation]

theorem text_ofLocation_ne_empty (loc : Location) : (ofLocation loc).text ≠ "" := by
  intro hempty
  have habsolute := isAbsolute_ofLocation loc
  simp [isAbsolute, hempty] at habsolute

theorem withSlashes_of_no_backslash {text : String} (h : '\\' ∉ text.toList) :
    withSlashes text = text := by
  have hid : text.toList.map (fun c => if c = '\\' then '/' else c) = text.toList := by
    refine (List.map_congr_left fun c hc => ?_).trans (List.map_id _)
    rw [if_neg (by rintro rfl; exact h hc)]
    rfl
  rw [withSlashes, hid, String.ofList_toList]

theorem withSlashes_append (a b : String) :
    withSlashes (a ++ b) = withSlashes a ++ withSlashes b := by
  simp [withSlashes]

theorem no_backslash_withSlashes (text : String) : '\\' ∉ (withSlashes text).toList := by
  rw [withSlashes, String.toList_ofList, List.mem_map]
  rintro ⟨c, -, hc⟩
  split at hc
  · simp at hc
  · next hne => exact hne hc

theorem toList_stepText (ups : Nat) {ns : List String} (hne : ns ≠ []) :
    (stepText ups ns).toList =
      (List.replicate ups "../".toList).flatten ++ ("/".intercalate ns).toList := by
  induction ups with
  | zero => simp [stepText]
  | succ ups ih =>
    have hstep : stepText (ups + 1) ns = ".." ++ "/" ++ stepText ups ns :=
      String.intercalate_cons_of_ne_nil (List.append_ne_nil_of_right_ne_nil _ hne)
    rw [hstep, List.replicate_succ, List.flatten_cons, List.append_assoc, ← ih]
    simp

section

variable {home below : Location} {folder file : String} (hhome : ∀ n ∈ home, IsName n)
  (hbelow : ∀ n ∈ below, IsName n) (hfolder : IsName folder) (hfile : IsName file)
  (hapart : ¬ (file :: folder :: home) <:+ below ++ home)
include hhome hbelow hfolder hfile hapart

omit hhome hbelow hfolder hfile in
/-- The file does not lie above the directory, so at least its own name is part of the way. -/
theorem folder_names_left {same ns base : List String} (hns : [folder, file] = same ++ ns)
    (hbase : below.reverse = same ++ base) : ns = [file] ∨ ns = [folder, file] := by
  rcases same with _ | ⟨s, _ | ⟨t, same⟩⟩
  · exact Or.inr hns.symm
  · exact Or.inl (List.cons.inj hns).2.symm
  · obtain ⟨rfl, rfl, hnil⟩ : folder = s ∧ file = t ∧ [] = same ++ ns := by simpa using hns
    obtain ⟨rfl, rfl⟩ := List.append_eq_nil_iff.1 hnil.symm
    refine absurd ⟨base.reverse, ?_⟩ hapart
    have hrev := congrArg List.reverse hbase
    simp only [List.reverse_reverse, List.reverse_append] at hrev
    rw [hrev]
    simp

/-- From below a directory to a file in a folder of it one goes up, and then down to the folder and
the file or only to the file. -/
theorem relativeTo?_folder :
    ∃ base ns, relativeTo? (ofLocation (below ++ home)) (ofLocation (file :: folder :: home)) =
        some ⟨stepText base ns⟩ ∧ (ns = [file] ∨ ns = [folder, file]) ∧
      resolve (ofLocation (below ++ home)) (stepText base ns) =
        (ofLocation (file :: folder :: home)).components := by
  have hdir : ∀ n ∈ below ++ home, IsName n := List.forall_mem_append.2 ⟨hbelow, hhome⟩
  have hloc : ∀ n ∈ file :: folder :: home, IsName n :=
    List.forall_mem_cons.2 ⟨hfile, List.forall_mem_cons.2 ⟨hfolder, hhome⟩⟩
  -- both go on by names from the directory
  have hdir_steps : (ofLocation (below ++ home)).components =
      (.root :: home.reverse.map .name) ++ below.reverse.map .name := by
    rw [components_ofLocation hdir]
    simp
  have hloc_steps : (ofLocation (file :: folder :: home)).components =
      (.root :: home.reverse.map .name) ++ [folder, file].map .name := by
    rw [components_ofLocation hloc]
    simp
  have habsolute : (ofLocation (file :: folder :: home)).isAbsolute =
      (ofLocation (below ++ home)).isAbsolute := by
    rw [isAbsolute_ofLocation, isAbsolute_ofLocation]
  obtain ⟨same, ns, base, hns, hbase, -, hrelative⟩ :=
    relativeTo?_of_components habsolute hloc_steps hdir_steps
  have hcases := folder_names_left hapart hns hbase
  have hnames : ∀ n ∈ ns, IsName n := by
    rcases hcases with rfl | rfl <;> simp [hfile, hfolder]
  refine ⟨base.length, ns, hrelative, hcases, ?_⟩
  rw [hbase, List.map_append, ← List.append_assoc] at hdir_steps
  rw [resolve_stepText hdir_steps hnames, hloc_steps, hns, List.map_append, List.append_assoc]

/-- The reference to the file is made of steps up and of the names of the folder and the file or of
the file alone, with a slash for every backslash. -/
theorem reference_eq_withSlashes :
    ∃ ups ns, reference (ofLocation (below ++ home)) (ofLocation (file :: folder :: home)) =
        withSlashes (stepText ups ns) ∧ (ns = [file] ∨ ns = [folder, file]) ∧
      resolve (ofLocation (below ++ home)) (stepText ups ns) =
        (ofLocation (file :: folder :: home)).components := by
  obtain ⟨ups, ns, hrelative, hns, hresolve⟩ :=
    relativeTo?_folder hhome hbelow hfolder hfile hapart
  refine ⟨ups, ns, ?_, hns, hresolve⟩
  rw [reference, hrelative, Option.getD_some]

/-- Without backslashes, the reference is as the names are, and leads to the file. -/
theorem reference_folder (hbackslash : '\\' ∉ folder.toList ++ file.toList) :
    ∃ ups n, (reference (ofLocation (below ++ home)) (ofLocation (file :: folder :: home))).toList =
        (List.replicate ups "../".toList).flatten ++ n ∧
      (n = file.toList ∨ n = folder.toList ++ '/' :: file.toList) ∧
      resolve (ofLocation (below ++ home))
        (reference (ofLocation (below ++ home)) (ofLocation (file :: folder :: home))) =
          (ofLocation (file :: folder :: home)).components := by
  obtain ⟨ups, ns, hreference, hns, hresolve⟩ :=
    reference_eq_withSlashes hhome hbelow hfolder hfile hapart
  have hn : ∃ n, ("/".intercalate ns).toList = n ∧
      (n = file.toList ∨ n = folder.toList ++ '/' :: file.toList) := by
    rcases hns with rfl | rfl
    · exact ⟨_, rfl, Or.inl (by simp)⟩
    · exact ⟨_, rfl, Or.inr (by simp)⟩
  rcases hn with ⟨n, hn, hcases⟩
  have hne : ns ≠ [] := by rcases hns with rfl | rfl <;> simp
  have htext := toList_stepText ups hne
  rw [hn] at htext
  -- steps up have no backslash, and neither have the names
  have hslashes : withSlashes (stepText ups ns) = stepText ups ns := by
    refine withSlashes_of_no_backslash ?_
    rw [List.mem_append, not_or] at hbackslash
    rw [htext, List.mem_append, not_or]
    constructor
    · intro hmem
      rcases List.mem_flatten.1 hmem with ⟨step, hstep, hmem⟩
      rw [List.eq_of_mem_replicate hstep] at hmem
      exact absurd hmem (by decide)
    · rcases hcases with rfl | rfl
      · exact hbackslash.2
      · simp [hbackslash.1, hbackslash.2]
  rw [hreference, hslashes]
  exact ⟨ups, n, htext, hcases, hresolve⟩

end

/-! ## Between two places below a directory -/

/-- A path with names joined to it one after another. -/
def joinAll (p : Path) (ns : List String) : Path := ns.foldl join p

theorem components_joinAll {ns : List String} (hns : ∀ n ∈ ns, IsName n) (p : Path) :
    (p.joinAll ns).components = p.components ++ ns.map .name := by
  induction ns generalizing p with
  | nil => simp [joinAll]
  | cons n ns ih =>
    have hn := hns n (by simp)
    rw [joinAll, List.foldl_cons, ← joinAll, ih (fun m hm => hns m (List.mem_cons_of_mem _ hm)),
      components_join hn]
    simp

/-- Segments that are joined to a path add the steps they stand for. -/
theorem components_joinAll_segments {ss : List String} (hss : ∀ s ∈ ss, '/' ∉ s.toList) {p : Path}
    (hp : p.text ≠ "") :
    (p.joinAll ss).components = p.components ++ ss.filterMap Component.ofSegment? := by
  induction ss generalizing p with
  | nil => simp [joinAll]
  | cons s ss ih =>
    have hs := hss s (by simp)
    rw [joinAll, List.foldl_cons, ← joinAll, ih (fun t ht => hss t (List.mem_cons_of_mem _ ht))
      (text_join_segment_ne_empty hs hp), components_join_segment hs hp]
    cases hc : Component.ofSegment? s <;> simp [hc]

theorem isAbsolute_join {n : String} (hn : IsName n) (p : Path) :
    (p.join n).isAbsolute = p.isAbsolute := by
  rcases join_cases hn p with ⟨hempty, hjoin⟩ | ⟨t, htext, hjoin⟩ | ⟨hempty, -, hjoin⟩
  · have hhead := hn.head?_ne_slash
    simp [isAbsolute, hjoin, hempty, hhead]
  · simp [isAbsolute, hjoin, htext]
  · obtain ⟨c, cs, htext⟩ :=
      List.exists_cons_of_ne_nil fun h => hempty (String.toList_eq_nil_iff.1 h)
    simp [isAbsolute, hjoin, htext]

theorem isAbsolute_joinAll {ns : List String} (hns : ∀ n ∈ ns, IsName n) (p : Path) :
    (p.joinAll ns).isAbsolute = p.isAbsolute := by
  induction ns generalizing p with
  | nil => rfl
  | cons n ns ih =>
    rw [joinAll, List.foldl_cons, ← joinAll, ih (fun m hm => hns m (List.mem_cons_of_mem _ hm)),
      isAbsolute_join (hns n (by simp))]

/-- Between two places below one directory, what both have in common is not part of the way, and from
below the target the way only goes up. -/
theorem relativeTo?_joinAll {target base : List String} (htarget : ∀ n ∈ target, IsName n)
    (hbase : ∀ n ∈ base, IsName n) (p : Path) :
    ∃ same target' base', target = same ++ target' ∧ base = same ++ base' ∧
      (target <+: base → target' = []) ∧
      relativeTo? (p.joinAll base) (p.joinAll target) = some ⟨stepText base'.length target'⟩ := by
  refine relativeTo?_of_components ?_ (components_joinAll htarget p) (components_joinAll hbase p)
  rw [isAbsolute_joinAll htarget, isAbsolute_joinAll hbase]

theorem mem_toList_intercalate {c : Char} {ns : List String}
    (h : c ∈ ("/".intercalate ns).toList) : c = '/' ∨ ∃ n ∈ ns, c ∈ n.toList := by
  induction ns with
  | nil => simp at h
  | cons n ns ih =>
    cases ns with
    | nil => exact Or.inr ⟨n, by simp, by simpa using h⟩
    | cons m ns =>
      rw [String.intercalate_cons_of_ne_nil (List.cons_ne_nil m ns), String.toList_append,
        String.toList_append, List.mem_append, List.mem_append] at h
      rcases h with (h | h) | h
      · exact Or.inr ⟨n, by simp, h⟩
      · exact Or.inl (by simpa using h)
      · rcases ih h with hslash | ⟨k, hk, hmem⟩
        · exact Or.inl hslash
        · exact Or.inr ⟨k, List.mem_cons_of_mem n hk, hmem⟩

theorem mem_toList_intercalate_of_mem {c : Char} {n : String} (hc : c ∈ n.toList)
    {ns : List String} (hn : n ∈ ns) : c ∈ ("/".intercalate ns).toList := by
  induction ns with
  | nil => simp at hn
  | cons m ns ih =>
    cases ns with
    | nil =>
      obtain rfl := List.mem_singleton.1 hn
      simpa using hc
    | cons k ns =>
      rw [String.intercalate_cons_of_ne_nil (List.cons_ne_nil k ns), String.toList_append,
        String.toList_append, List.mem_append, List.mem_append]
      rcases List.mem_cons.1 hn with rfl | hn
      · exact Or.inl (Or.inl hc)
      · exact Or.inr (ih hn)

/-- The segments of a text have no other characters than the text. -/
theorem mem_of_mem_segmentsOf {text s : String} {c : Char} (hs : s ∈ segmentsOf text)
    (hc : c ∈ s.toList) : c ∈ text.toList := by
  rw [← intercalate_segmentsOf text]
  exact mem_toList_intercalate_of_mem hc hs

/-- Steps are as they are written where no name holds a backslash. -/
theorem withSlashes_stepText {ns : List String} (hns : ∀ n ∈ ns, '\\' ∉ n.toList) (ups : Nat) :
    withSlashes (stepText ups ns) = stepText ups ns := by
  refine withSlashes_of_no_backslash fun hmem => ?_
  rcases mem_toList_intercalate hmem with hslash | ⟨n, hn, hmem⟩
  · exact absurd hslash (by decide)
  · rcases List.mem_append.1 hn with hn | hn
    · rw [List.eq_of_mem_replicate hn] at hmem
      exact absurd hmem (by decide)
    · exact hns n hn hmem

/-- Steps up only. -/
theorem toList_stepText_succ (ups : Nat) :
    (stepText (ups + 1) []).toList = (List.replicate ups "../".toList).flatten ++ "..".toList := by
  have hsplit : stepText (ups + 1) [] = stepText ups [".."] := by
    rw [stepText, stepText, List.append_nil, List.replicate_succ']
  rw [hsplit, toList_stepText ups (by simp)]
  simp

end Path

end SiteFolders
