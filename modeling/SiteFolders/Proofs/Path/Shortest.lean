import SiteFolders.Proofs.Path.Parents
import SiteFolders.Proofs.Path.Relative

/-!
# The shortest way from one path to another

Two places share the steps that both begin with (`shared`). The reference from a directory to a
target goes up once for every step of the directory beyond these, and then down by what is left of
the target, so it leads to the target, and it is the only one of its kind (`reference_shortest`).

That no other reference is shorter is seen from how far two places lie apart, which is what has to be
gone up and what has to be gone down: one step brings a place nearer by no more than one
(`apart_enter`).
-/

namespace SiteFolders.Path

/-! ## Steps that are shared -/

/-- The steps that two places have in common, from the start. -/
def shared : List Component → List Component → List Component
  | a :: as, b :: bs => if a = b then a :: shared as bs else []
  | _, _ => []

theorem shared_prefix_left (a b : List Component) : shared a b <+: a := by
  induction a generalizing b with
  | nil => simp [shared]
  | cons x a ih =>
    cases b with
    | nil => simp [shared]
    | cons y b =>
      unfold shared
      split
      · exact List.cons_prefix_cons.2 ⟨rfl, ih b⟩
      · exact List.nil_prefix

theorem shared_prefix_right (a b : List Component) : shared a b <+: b := by
  induction a generalizing b with
  | nil => simp [shared]
  | cons x a ih =>
    cases b with
    | nil => simp [shared]
    | cons y b =>
      unfold shared
      split
      · next hxy => exact List.cons_prefix_cons.2 ⟨hxy, ih b⟩
      · exact List.nil_prefix

/-- What is shared is the longest prefix of both. -/
theorem prefix_shared_iff {p a b : List Component} :
    p <+: shared a b ↔ p <+: a ∧ p <+: b := by
  constructor
  · intro h
    exact ⟨h.trans (shared_prefix_left a b), h.trans (shared_prefix_right a b)⟩
  · rintro ⟨ha, hb⟩
    induction p generalizing a b with
    | nil => exact List.nil_prefix
    | cons c p ih =>
      obtain ⟨as, rfl⟩ := ha
      obtain ⟨bs, rfl⟩ := hb
      simp only [List.cons_append, shared, if_true]
      exact List.cons_prefix_cons.2 ⟨rfl, ih (List.prefix_append p as) (List.prefix_append p bs)⟩

theorem length_shared_le (a b : List Component) :
    (shared a b).length ≤ a.length ∧ (shared a b).length ≤ b.length :=
  ⟨(shared_prefix_left a b).length_le, (shared_prefix_right a b).length_le⟩

/-- One more step shares no less, and at most one step more. -/
theorem length_shared_concat (a b : List Component) (c : Component) :
    (shared a b).length ≤ (shared (a ++ [c]) b).length ∧
      (shared (a ++ [c]) b).length ≤ (shared a b).length + 1 := by
  constructor
  · refine (prefix_shared_iff.2 ⟨?_, shared_prefix_right a b⟩).length_le
    exact (shared_prefix_left a b).trans (List.prefix_append a [c])
  · -- without its last step, what is shared after the step was shared before it
    have hleft : (shared (a ++ [c]) b).dropLast <+: a := by
      refine List.prefix_of_prefix_length_le
        ((List.dropLast_prefix _).trans (shared_prefix_left (a ++ [c]) b))
        (List.prefix_append a [c]) ?_
      have hle := (length_shared_le (a ++ [c]) b).1
      rw [List.length_append, List.length_singleton] at hle
      rw [List.length_dropLast]
      omega
    have hright : (shared (a ++ [c]) b).dropLast <+: b :=
      (List.dropLast_prefix _).trans (shared_prefix_right (a ++ [c]) b)
    have hle := (prefix_shared_iff.2 ⟨hleft, hright⟩).length_le
    rw [List.length_dropLast] at hle
    omega

/-! ## How far places lie apart -/

/-- The number of steps up and down from one place to another. -/
def apart (a b : List Component) : Nat :=
  (a.length - (shared a b).length) + (b.length - (shared a b).length)

/-- A place is no way apart from itself. -/
theorem apart_self (a : List Component) : apart a a = 0 := by
  have hle := (prefix_shared_iff.2 ⟨List.prefix_refl a, List.prefix_refl a⟩).length_le
  unfold apart
  omega

theorem apart_concat (a b : List Component) (c : Component) :
    apart a b ≤ apart (a ++ [c]) b + 1 ∧ apart (a ++ [c]) b ≤ apart a b + 1 := by
  have hshared := length_shared_concat a b c
  have hle := length_shared_le a b
  have hle' := length_shared_le (a ++ [c]) b
  unfold apart
  rw [List.length_append, List.length_singleton] at *
  omega

/-- One step of a relative path brings a place nearer by one at most. -/
theorem apart_enter {c : Component} (hc : c ≠ .root) (here target : List Component) :
    apart here target ≤ apart (enter here c) target + 1 := by
  cases c with
  | root => exact absurd rfl hc
  | here => exact Nat.le_succ _
  | name s => exact (apart_concat here target (.name s)).1
  | up =>
    simp only [enter]
    split
    · exact Nat.le_succ _
    · rcases List.eq_nil_or_concat' here with rfl | ⟨above, last, rfl⟩
      · exact Nat.le_succ _
      · rw [List.dropLast_concat]
        exact (apart_concat above target last).2

/-- To get somewhere takes as many steps as it lies apart. -/
theorem apart_le_length {steps : List Component} (hroot : Component.root ∉ steps)
    {here target : List Component} (htarget : steps.foldl enter here = target) :
    apart here target ≤ steps.length := by
  induction steps generalizing here with
  | nil =>
    obtain rfl : here = target := htarget
    exact (apart_self here).le
  | cons c steps ih =>
    rw [List.mem_cons, not_or] at hroot
    have hstep := apart_enter (Ne.symm hroot.1) here target
    have hrest := ih hroot.2 htarget
    rw [List.length_cons]
    omega

/-! ## The steps of a reference -/

/-- From a place that is told by names alone one goes up to what is shared, and down from there. -/
theorem stepsAfter_shared {target base : List Component}
    (hbase : ∀ c ∈ base, c ≠ .here ∧ c ≠ .up) :
    stepsAfter target base false =
      some (List.replicate (base.length - (shared base target).length) .up ++
        target.drop (shared base target).length) := by
  induction target generalizing base with
  | nil =>
    rw [stepsAfter_nil]
    cases base <;> simp [shared]
  | cons t target ih =>
    cases base with
    | nil => simp [stepsAfter, shared]
    | cons b base =>
      obtain ⟨⟨hhere, hup⟩, hrest⟩ := List.forall_mem_cons.1 hbase
      by_cases hsame : t = b
      · subst hsame
        simpa [stepsAfter, shared] using ih hrest
      · have hsame' : b ≠ t := fun h => hsame h.symm
        simp [stepsAfter, shared, hsame, hsame', hhere, hup, List.replicate_succ]

/-- An absolute path without steps up; single dots are no steps of an absolute path at all. -/
structure IsStraight (p : Path) : Prop where
  absolute : p.isAbsolute = true
  no_up : Component.up ∉ p.components

theorem filterMap_ofSegment? {segs : List String} (hslash : ∀ s ∈ segs, '/' ∉ s.toList)
    (hup : Component.up ∉ segs.filterMap Component.ofSegment?) :
    ∃ ns : List String, segs.filterMap Component.ofSegment? = ns.map .name ∧
      ∀ n ∈ ns, IsName n ∧ n ∈ segs := by
  induction segs with
  | nil => exact ⟨[], rfl, by simp⟩
  | cons s segs ih =>
    have hslash' : ∀ t ∈ segs, '/' ∉ t.toList := fun t ht => hslash t (List.mem_cons_of_mem s ht)
    -- empty segments and dots are no steps, and two dots are left out by assumption
    by_cases hnone : s = "" ∨ s = "."
    · have hs : Component.ofSegment? s = none := by simp [Component.ofSegment?, hnone]
      rw [List.filterMap_cons_none hs] at hup ⊢
      obtain ⟨ns, hns, hnames⟩ := ih hslash' hup
      exact ⟨ns, hns, fun n hn => ⟨(hnames n hn).1, List.mem_cons_of_mem s (hnames n hn).2⟩⟩
    · by_cases hdots : s = ".."
      · refine absurd ?_ hup
        simp [hdots, Component.ofSegment?]
      · rw [not_or] at hnone
        have hname : IsName s := ⟨hnone.1, hslash s List.mem_cons_self, hnone.2, hdots⟩
        rw [List.filterMap_cons_some hname.ofSegment?, List.mem_cons, not_or] at hup
        obtain ⟨ns, hns, hnames⟩ := ih hslash' hup.2
        refine ⟨s :: ns, ?_, ?_⟩
        · rw [List.filterMap_cons_some hname.ofSegment?, hns, List.map_cons]
        · intro n hn
          rcases List.mem_cons.1 hn with rfl | hn
          · exact ⟨hname, List.mem_cons_self⟩
          · exact ⟨(hnames n hn).1, List.mem_cons_of_mem s (hnames n hn).2⟩

/-- A straight path goes from the root directory through the names that are written in it. -/
theorem IsStraight.exists_names {p : Path} (h : p.IsStraight) :
    ∃ ns : List String, p.components = .root :: ns.map .name ∧
      ∀ n ∈ ns, IsName n ∧ n ∈ segmentsOf p.text := by
  obtain ⟨rest, hpieces⟩ := isAbsolute_iff.1 h.absolute
  obtain ⟨first, segs, hsegs⟩ := List.exists_cons_of_ne_nil (segmentsOf_ne_nil p.text)
  have hrest : rest = segs.map fun s => (Component.ofSegment? s, s) := by
    rw [pieces_of_segmentsOf hsegs] at hpieces
    exact (List.cons.inj hpieces).2.symm
  have hsteps : p.components = .root :: segs.filterMap Component.ofSegment? := by
    simp [components, hpieces, hrest, List.filterMap_map]
  have hslash : ∀ s ∈ segs, '/' ∉ s.toList := by
    intro s hs
    have hmem : s ∈ segmentsOf p.text := by
      rw [hsegs]
      exact List.mem_cons_of_mem first hs
    exact no_slash_of_mem_segmentsOf hmem
  have hup : Component.up ∉ segs.filterMap Component.ofSegment? := by
    intro hmem
    refine h.no_up ?_
    rw [hsteps]
    exact List.mem_cons_of_mem _ hmem
  obtain ⟨ns, hns, hnames⟩ := filterMap_ofSegment? hslash hup
  refine ⟨ns, by rw [hsteps, hns], fun n hn => ⟨(hnames n hn).1, ?_⟩⟩
  rw [hsegs]
  exact List.mem_cons_of_mem first (hnames n hn).2

/-- A text that does not start with a slash has no step to the root directory. -/
theorem root_notMem_components {p : Path} (h : p.isAbsolute = false) :
    Component.root ∉ p.components := by
  intro hmem
  obtain ⟨first, segs, hsegs⟩ := List.exists_cons_of_ne_nil (segmentsOf_ne_nil p.text)
  have hpieces := pieces_of_segmentsOf hsegs
  obtain ⟨x, hx, hroot⟩ := List.mem_filterMap.1 hmem
  rw [hpieces] at hx
  rcases List.mem_cons.1 hx with rfl | hx
  · -- only the first piece can be the root directory, and then the path is absolute
    have habsolute : p.isAbsolute = true := by
      refine isAbsolute_iff.2 ⟨segs.map fun s => (Component.ofSegment? s, s), ?_⟩
      by_cases hfirst : first = "" ∧ segs ≠ []
      · rw [hpieces, if_pos hfirst, hfirst.1]
      · simp only [if_neg hfirst] at hroot
        split at hroot
        · simp at hroot
        · exact absurd hroot (ofSegment?_ne_root first)
    rw [h] at habsolute
    simp at habsolute
  · obtain ⟨s, -, rfl⟩ := List.mem_map.1 hx
    exact ofSegment?_ne_root s hroot

/-- Two straight paths are what they share and then names; those of the target are written in it. -/
theorem IsStraight.exists_rest {dir target : Path} (hdir : dir.IsStraight)
    (htarget : target.IsStraight) :
    ∃ away on : List String,
      dir.components = shared dir.components target.components ++ away.map .name ∧
      target.components = shared dir.components target.components ++ on.map .name ∧
      ∀ n ∈ on, IsName n ∧ n ∈ segmentsOf target.text := by
  obtain ⟨ds, hds, -⟩ := hdir.exists_names
  obtain ⟨ts, hts, hnames⟩ := htarget.exists_names
  have hleft := List.prefix_iff_eq_take.1 (shared_prefix_left dir.components target.components)
  have hright := List.prefix_iff_eq_take.1 (shared_prefix_right dir.components target.components)
  -- both begin at the root directory, so what is not shared are names
  obtain ⟨k, hk⟩ : ∃ k, (shared dir.components target.components).length = k + 1 :=
    ⟨_, by rw [hds, hts, shared, if_pos rfl, List.length_cons]⟩
  rw [hk] at hleft hright
  refine ⟨ds.drop k, ts.drop k, ?_, ?_, fun n hn => hnames n (List.mem_of_mem_drop hn)⟩
  · have hdrop : dir.components.drop (k + 1) = (ds.drop k).map .name := by
      rw [hds, List.drop_succ_cons, List.map_drop]
    rw [← hdrop, hleft, List.take_append_drop]
  · have hdrop : target.components.drop (k + 1) = (ts.drop k).map .name := by
      rw [hts, List.drop_succ_cons, List.map_drop]
    rw [← hdrop, hright, List.take_append_drop]

section

variable {dir target : Path} (hdir : dir.IsStraight) (htarget : target.IsStraight)
  (hbackslash : '\\' ∉ target.text.toList)
include hdir htarget hbackslash

/-- The steps of a reference: up to what the directory shares with the target, and down from there by
names. -/
theorem exists_components_reference :
    ∃ away on : List String,
      dir.components = shared dir.components target.components ++ away.map .name ∧
      target.components = shared dir.components target.components ++ on.map .name ∧
      components ⟨reference dir target⟩ = List.replicate away.length .up ++ on.map .name := by
  obtain ⟨away, on, haway, hon, hnames⟩ := hdir.exists_rest htarget
  refine ⟨away, on, haway, hon, ?_⟩
  have hbase : ∀ c ∈ dir.components, c ≠ .here ∧ c ≠ .up := by
    obtain ⟨ds, hds, -⟩ := hdir.exists_names
    rw [hds]
    simp
  -- as many steps up as the directory has names of its own, then the names of the target
  have hsteps : stepsAfter target.components dir.components false =
      some (List.replicate away.length .up ++ on.map .name) := by
    rw [stepsAfter_shared hbase]
    have hlength := congrArg List.length haway
    rw [List.length_append, List.length_map] at hlength
    have hdrop := congrArg (List.drop (shared dir.components target.components).length) hon
    rw [List.drop_left] at hdrop
    have hups : dir.components.length - (shared dir.components target.components).length =
        away.length := by omega
    rw [hdrop, hups]
  -- the text has a segment for each step
  have htext : reference dir target = stepText away.length on := by
    have hplain : ∀ n ∈ on, '\\' ∉ n.toList :=
      fun n hn hc => hbackslash (mem_of_mem_segmentsOf (hnames n hn).2 hc)
    rw [reference, relativeTo?, if_pos (by rw [hdir.absolute, htarget.absolute]), hsteps,
      Option.map_some, Option.getD_some, intercalate_text_steps, withSlashes_stepText hplain]
  rw [htext, components_stepText fun n hn => (hnames n hn).1]

/-- The reference leads to the target. -/
theorem resolve_reference : resolve dir (reference dir target) = target.components := by
  obtain ⟨away, on, haway, hon, hreference⟩ :=
    exists_components_reference hdir htarget hbackslash
  rw [resolve, hreference, List.foldl_append]
  conv_lhs => rw [haway]
  rw [foldl_enter_up, foldl_enter_names, ← hon]

/-- The reference has as many steps as the target lies apart from the directory. -/
theorem length_components_reference :
    (components ⟨reference dir target⟩).length = apart dir.components target.components := by
  obtain ⟨away, on, haway, hon, hreference⟩ :=
    exists_components_reference hdir htarget hbackslash
  have hlength := congrArg List.length haway
  have hlength' := congrArg List.length hon
  rw [List.length_append, List.length_map] at hlength hlength'
  rw [hreference, List.length_append, List.length_replicate, List.length_map]
  unfold apart
  omega

end

/-- The reference from a directory to a target leads to the target. It goes up exactly as often as the
directory has steps beyond the longest start that it shares with the target, and then down by names,
and no relative text that leads to the target takes fewer steps. Different targets have different
references. -/
theorem reference_shortest {dir target : Path} (hdir : dir.IsStraight) (htarget : target.IsStraight)
    (hbackslash : '\\' ∉ target.text.toList) :
    resolve dir (reference dir target) = target.components ∧
    (∃ names : List String, components ⟨reference dir target⟩ =
      List.replicate (dir.components.length - (shared dir.components target.components).length) .up ++
        names.map .name) ∧
    (∀ text : String, (⟨text⟩ : Path).isAbsolute = false → resolve dir text = target.components →
      (components ⟨reference dir target⟩).length ≤ (components ⟨text⟩).length) ∧
    ∀ other : Path, other.IsStraight → '\\' ∉ other.text.toList →
      reference dir other = reference dir target → other.same target = true := by
  refine ⟨resolve_reference hdir htarget hbackslash, ?_, ?_, ?_⟩
  · obtain ⟨away, on, haway, -, hreference⟩ :=
      exists_components_reference hdir htarget hbackslash
    have hlength := congrArg List.length haway
    rw [List.length_append, List.length_map] at hlength
    have hups : dir.components.length - (shared dir.components target.components).length =
        away.length := by omega
    exact ⟨on, by rw [hreference, hups]⟩
  · intro text hrelative hleads
    rw [length_components_reference hdir htarget hbackslash]
    exact apart_le_length (root_notMem_components hrelative) hleads
  · intro other hother hplain hsame
    have hleads := resolve_reference hdir hother hplain
    rw [hsame, resolve_reference hdir htarget hbackslash] at hleads
    simp [same, hleads]

/-- From an old page to a picture there is no shorter way than to the top of the site and down again,
however the two paths are written. -/
theorem reference_shortest_of_picture :
    (⟨"/site/pages//old/"⟩ : Path).IsStraight ∧ (⟨"/site/./img/logo.png"⟩ : Path).IsStraight ∧
    resolve ⟨"/site/pages//old/"⟩ "../../img/logo.png" =
      [.root, .name "site", .name "img", .name "logo.png"] ∧
    ∀ text : String, (⟨text⟩ : Path).isAbsolute = false →
      resolve ⟨"/site/pages//old/"⟩ text = [.root, .name "site", .name "img", .name "logo.png"] →
      4 ≤ (components ⟨text⟩).length := by
  have hdir : (⟨"/site/pages//old/"⟩ : Path).IsStraight := ⟨by decide +kernel, by decide +kernel⟩
  have htarget : (⟨"/site/./img/logo.png"⟩ : Path).IsStraight :=
    ⟨by decide +kernel, by decide +kernel⟩
  have hreference : reference ⟨"/site/pages//old/"⟩ ⟨"/site/./img/logo.png"⟩ =
      "../../img/logo.png" := by decide +kernel
  have hcomponents : (⟨"/site/./img/logo.png"⟩ : Path).components =
      [.root, .name "site", .name "img", .name "logo.png"] := by decide +kernel
  have hlength : (components ⟨"../../img/logo.png"⟩).length = 4 := by decide +kernel
  obtain ⟨hleads, -, hshortest, -⟩ := reference_shortest hdir htarget (by decide +kernel)
  rw [hreference, hcomponents] at hleads hshortest
  rw [hlength] at hshortest
  exact ⟨hdir, htarget, hleads, hshortest⟩

end SiteFolders.Path
