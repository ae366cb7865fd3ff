import SiteFolders.Listing.Glob
import SiteFolders.Proofs.Path.Names

/-!
# Going down from a path

What lies below a directory has a path that joins its names, one after another, to a path of the
directory (`Path.descend`), and another one as seen from the directory (`Path.inside`).
Stripping the directory from the first gives the second (`stripPrefix?_descend`), and joining the
second to the directory gives the first (`join_inside`).

Before it matches anything, a listing joins the segments of its root anew. The new root takes the
same steps as the old one and is no longer (`tidies_matchedRoot`).
-/

namespace SiteFolders

namespace Path

/-- The path of what lies at `below` in the directory that `root` leads to. The names are given from
the entry outwards, as in a location. -/
def descend (root : Path) : Location → Path
  | [] => root
  | n :: below => (root.descend below).join n

/-- The path of what lies at `below` as seen from the directory. -/
def inside (below : Location) : Path := descend ⟨""⟩ below

/-! ## Steps and names -/

section

variable {below : Location} (hbelow : ∀ n ∈ below, IsName n) (root : Path)
include hbelow

theorem components_descend :
    (root.descend below).components = root.components ++ below.reverse.map .name := by
  induction below with
  | nil => simp [descend]
  | cons n below ih =>
    have ih := ih fun m hm => hbelow m (List.mem_cons_of_mem _ hm)
    rw [descend, components_join (hbelow n (by simp)), ih]
    simp

end

/-- Different names lead down to different paths. -/
theorem descend_inj {root : Path} {a b : Location} (ha : ∀ n ∈ a, IsName n)
    (hb : ∀ n ∈ b, IsName n) (h : (root.descend a).components = (root.descend b).components) :
    a = b := by
  rw [components_descend ha, components_descend hb, List.append_cancel_left_eq] at h
  have hname : Function.Injective Component.name := fun _ _ heq => Component.name.inj heq
  exact List.reverse_inj.1 (List.map_injective_iff.2 hname h)

theorem ofLocation_append {home below : Location} (h : ∀ n ∈ below ++ home, IsName n) :
    ofLocation (below ++ home) = (ofLocation home).descend below := by
  induction below with
  | nil => rfl
  | cons n below ih =>
    have hbelow : ∀ m ∈ below ++ home, IsName m := fun m hm => h m (List.mem_cons_of_mem _ hm)
    rw [List.cons_append, ofLocation_cons (h n (by simp)) hbelow, ih hbelow]
    rfl

/-! ## Texts -/

theorem inside_cons {n : String} {below : Location} :
    inside (n :: below) = (inside below).join n := rfl

theorem inside_single {n : String} (hn : IsName n) : inside [n] = ⟨n⟩ := by
  simp [inside, descend, join, hn.head?_ne_slash]

theorem text_inside_ne_empty {below : Location} (hbelow : ∀ n ∈ below, IsName n)
    (hne : below ≠ []) : (inside below).text ≠ "" := by
  cases below with
  | nil => exact absurd rfl hne
  | cons n below => exact text_join_ne_empty (hbelow n (by simp)) _

theorem head?_inside {below : Location} (hbelow : ∀ n ∈ below, IsName n) :
    (inside below).text.toList.head? ≠ some '/' := by
  induction below with
  | nil => simp [inside, descend]
  | cons n below ih =>
    have hn := hbelow n (by simp)
    cases below with
    | nil =>
      rw [inside_single hn]
      exact hn.head?_ne_slash
    | cons m below =>
      have hm := hbelow m (by simp)
      have ih := ih fun k hk => hbelow k (List.mem_cons_of_mem _ hk)
      have hne := text_join_ne_empty hm (inside below)
      rw [inside_cons, inside_cons, text_join_join hm hn, ← inside_cons]
      rw [← inside_cons] at hne
      rcases List.exists_cons_of_ne_nil (fun h => hne (String.toList_eq_nil_iff.1 h)) with ⟨c, cs, hc⟩
      simpa [hc] using ih

/-- Seen from the directory and joined to it, a place has the path that leads down to it. -/
theorem join_inside {below : Location} (hbelow : ∀ n ∈ below, IsName n) (hne : below ≠ [])
    (root : Path) : root.join (inside below).text = root.descend below := by
  -- every join that is not absolute puts one and the same text before what is joined
  rcases exists_start root with ⟨start, hstart⟩
  induction below with
  | nil => exact absurd rfl hne
  | cons n below ih =>
    have hn := hbelow n (by simp)
    cases below with
    | nil =>
      rw [inside_single hn]
      rfl
    | cons m below =>
      have hm := hbelow m (by simp)
      have hbelow' : ∀ k ∈ m :: below, IsName k := fun k hk => hbelow k (List.mem_cons_of_mem _ hk)
      have ih := ih hbelow' (by simp)
      rw [hstart _ (head?_inside hbelow')] at ih
      rw [hstart _ (head?_inside hbelow), descend, descend]
      have htext := congrArg Path.text ih
      have hjoin : ((root.descend below).join m).text = start ++ (inside (m :: below)).text :=
        htext.symm
      -- both sides end in the same two names, and the shorter paths are equal by induction
      have hwhole := text_join_join hm hn (root.descend below)
      rw [hjoin] at hwhole
      have hinside : (inside (n :: m :: below)).text = (inside (m :: below)).text ++ "/" ++ n :=
        text_join_join hm hn (inside below)
      rw [hinside]
      have heq : ((root.descend below).join m).join n = ⟨start ++ (inside (m :: below)).text ++ "/" ++ n⟩ := by
        rw [← hwhole]
      rw [heq]
      simp [String.append_assoc]

theorem segmentsOf_inside {below : Location} (hbelow : ∀ n ∈ below, IsName n) (hne : below ≠ []) :
    segmentsOf (inside below).text = below.reverse := by
  induction below with
  | nil => exact absurd rfl hne
  | cons n below ih =>
    have hn := hbelow n (by simp)
    cases below with
    | nil =>
      rw [inside_single hn]
      exact segmentsOf_of_no_slash hn.no_slash
    | cons m below =>
      have ih := ih (fun k hk => hbelow k (List.mem_cons_of_mem _ hk)) (by simp)
      have htext : (inside (n :: m :: below)).text = (inside (m :: below)).text ++ "/" ++ n :=
        text_join_join (hbelow m (by simp)) hn _
      rw [htext, segmentsOf_append_slash, ih, segmentsOf_of_no_slash hn.no_slash]
      simp

/-! ## Parents of a place as seen from the directory -/

theorem parent?_inside {n : String} {below : Location} (h : ∀ m ∈ n :: below, IsName m) :
    (inside (n :: below)).parent? = some (inside below) := by
  rw [inside_cons, parent?_join (h n (by simp))]
  cases below with
  | nil =>
    simp [inside, descend, pieces, segmentsOf_empty, trimEnd, ofPieces, Component.ofSegment?]
  | cons m below => rw [inside_cons, ofPieces_trimEnd_join (h m (by simp))]

theorem length_le_inside {below : Location} (hbelow : ∀ n ∈ below, IsName n) :
    below.length ≤ (inside below).text.length := by
  induction below with
  | nil => simp
  | cons n below ih =>
    have ih := ih fun m hm => hbelow m (List.mem_cons_of_mem _ hm)
    have hn := hbelow n (by simp)
    have hpos : 1 ≤ n.length := by
      have hne := List.length_pos_iff.2 hn.toList_ne_nil
      rwa [String.length_toList] at hne
    rw [inside_cons]
    rcases join_cases hn (inside below) with ⟨hempty, h⟩ | ⟨t, ht, h⟩ | ⟨-, -, h⟩
    · rw [hempty] at ih
      rw [h]
      simp only [List.length_cons, String.length_empty] at ih ⊢
      omega
    · rw [ht] at ih
      rw [h]
      simp only [List.length_cons, String.length_append] at ih ⊢
      omega
    · rw [h]
      simp only [List.length_cons, String.length_append] at ih ⊢
      omega

/-- The ancestors of a place are those that its last names are left off. -/
theorem ancestors_inside {below : Location} (hbelow : ∀ n ∈ below, IsName n) :
    (inside below).ancestors = below.tails.map inside := by
  have hwithin : ∀ fuel, below.length ≤ fuel →
      ancestorsWithin fuel (inside below) = below.tails.map inside := by
    induction below with
    | nil =>
      intro fuel _
      have hparent : (inside []).parent? = none := by
        simp [inside, descend, parent?, pieces, segmentsOf_empty, trimEnd, Component.ofSegment?]
      cases fuel <;> simp [ancestorsWithin, hparent]
    | cons n below ih =>
      intro fuel hfuel
      have ih := ih fun m hm => hbelow m (List.mem_cons_of_mem _ hm)
      cases fuel with
      | zero => simp at hfuel
      | succ fuel =>
        rw [ancestorsWithin, parent?_inside hbelow]
        simp only [List.length_cons, Nat.add_le_add_iff_right] at hfuel
        simp [ih fuel hfuel]
  exact hwithin _ (length_le_inside hbelow)

/-- A path can be asked for if a longer one can be. -/
theorem checkPath_of_join {p : Path} {n : String} (hne : p.text ≠ "") (hn : IsName n)
    (h : Disk.checkPath (p.join n) = .ok ()) : Disk.checkPath p = .ok () := by
  rcases Disk.checkPath_eq_ok_iff.1 h with ⟨hzero, -, hsize⟩
  have htext : ∃ rest, (p.join n).text = p.text ++ rest := by
    rcases join_cases hn p with ⟨hempty, -⟩ | ⟨t, ht, hj⟩ | ⟨-, -, hj⟩
    · exact absurd hempty hne
    · exact ⟨n, by rw [hj, ht]⟩
    · exact ⟨"/" ++ n, by rw [hj, String.append_assoc]⟩
  rcases htext with ⟨rest, htext⟩
  rw [htext] at hzero hsize
  simp only [String.toList_append, List.mem_append, not_or] at hzero
  simp only [String.utf8ByteSize_append] at hsize
  exact Disk.checkPath_eq_ok_iff.2 ⟨hzero.1, hne, by omega⟩

/-- A path that leads down can be checked as far as a path on the way. -/
theorem checkPath_of_descend {root : Path} (hroot : root.text ≠ "") {more below : Location}
    (hbelow : ∀ n ∈ more ++ below, IsName n)
    (h : Disk.checkPath (root.descend (more ++ below)) = .ok ()) :
    Disk.checkPath (root.descend below) = .ok () := by
  induction more with
  | nil => exact h
  | cons n more ih =>
    have hne : (root.descend (more ++ below)).text ≠ "" := by
      cases hmore : more ++ below with
      | nil => exact hroot
      | cons m rest => exact text_join_ne_empty (hbelow m (by simp [hmore])) _
    exact ih (fun m hm => hbelow m (List.mem_cons_of_mem _ hm))
      (checkPath_of_join hne (hbelow n (by simp)) h)

/-! ## Leaving the directory off -/

theorem components_ne_nil {p : Path} (h : p.text ≠ "") : p.components ≠ [] := by
  rcases List.exists_cons_of_ne_nil (segmentsOf_ne_nil p.text) with ⟨first, rest, hsegs⟩
  have htext := intercalate_segmentsOf p.text
  rw [hsegs] at htext
  have hroot : first = "" → rest ≠ [] := by
    rintro rfl rfl
    exact h (by simpa using htext.symm)
  rw [components, pieces_of_segmentsOf hsegs]
  by_cases hempty : first = ""
  · simp [hempty, hroot hempty]
  · by_cases hdot : first = "."
    · simp [hdot]
    · by_cases hdots : first = ".." <;> simp [hempty, hdot, hdots, Component.ofSegment?]

/-- Dropping the steps of the first pieces leaves the others, after pieces that stand for no step. -/
theorem dropSteps_append (init rest : List Piece) :
    ∃ blank : List Piece, (∀ x ∈ blank, x.1 = none) ∧
      dropSteps (init.filterMap (·.1)) (init ++ rest) = some (blank ++ rest) := by
  induction init with
  | nil => exact ⟨[], by simp, by simp [dropSteps]⟩
  | cons x init ih =>
    rcases ih with ⟨blank, hblank, hdrop⟩
    rcases x with ⟨step, s⟩
    cases step with
    | some c => exact ⟨blank, hblank, by simp [dropSteps, hdrop]⟩
    | none =>
      cases hsteps : init.filterMap (·.1) with
      | nil =>
        refine ⟨(none, s) :: init, ?_, by simp [hsteps, dropSteps]⟩
        intro x hx
        rcases List.mem_cons.1 hx with rfl | hx
        · rfl
        · exact List.filterMap_eq_nil_iff.1 hsteps x hx
      | cons c cs =>
        rw [hsteps] at hdrop
        exact ⟨blank, hblank, by simp [hsteps, dropSteps, hdrop]⟩

/-- The pieces of a place as seen from a directory above it. -/
def namePieces (below : Location) : List Piece :=
  below.reverse.map fun n => (some (.name n), n)

theorem pieces_descend {below : Location} (hbelow : ∀ n ∈ below, IsName n) (hne : below ≠ [])
    (root : Path) : ∃ init, root.components = init.filterMap (·.1) ∧
      (root.descend below).pieces = init ++ namePieces below := by
  unfold namePieces
  induction below with
  | nil => exact absurd rfl hne
  | cons n below ih =>
    have hn := hbelow n (by simp)
    have hbelow' : ∀ m ∈ below, IsName m := fun m hm => hbelow m (List.mem_cons_of_mem _ hm)
    obtain ⟨init, hjoin, hp⟩ := pieces_join hn (root.descend below)
    rw [descend, hjoin]
    cases below with
    | nil =>
      refine ⟨init, ?_, by simp⟩
      rcases hp with hp | hp <;>
      · rw [descend] at hp
        simp [components, hp]
    | cons m below =>
      rcases ih hbelow' (by simp) with ⟨init', hsteps, hpieces⟩
      refine ⟨init', hsteps, ?_⟩
      -- the last piece is a name, so it is not the empty one after a slash
      rcases hp with hp | hp
      · rw [← hp, hpieces]
        simp
      · rw [hpieces] at hp
        have hlast := congrArg List.getLast? hp
        simp [List.getLast?_append, List.getLast?_cons] at hlast

/-- Only pieces that stand for no step are trimmed. -/
theorem trim_namePieces (below : Location) {blank : List Piece} (hblank : ∀ x ∈ blank, x.1 = none) :
    trimEnd (trimStart (blank ++ namePieces below)) = namePieces below := by
  have hstart : trimStart (blank ++ namePieces below) = namePieces below := by
    rw [trimStart, List.dropWhile_append_of_pos fun x hx => by simp [hblank x hx], namePieces]
    cases below.reverse <;> simp
  have hreverse : (namePieces below).reverse = below.map fun n => (some (.name n), n) := by
    rw [namePieces, ← List.map_reverse, List.reverse_reverse]
  rw [hstart, trimEnd, hreverse]
  cases below <;> simp [namePieces]

theorem ofPieces_namePieces {below : Location} (hbelow : ∀ n ∈ below, IsName n) :
    ofPieces (namePieces below) = inside below := by
  cases below with
  | nil => simp [namePieces, ofPieces, inside, descend]
  | cons n below =>
    have hsegs := intercalate_segmentsOf (inside (n :: below)).text
    rw [segmentsOf_inside hbelow (by simp)] at hsegs
    unfold ofPieces
    split
    · next s h =>
      have hmem : (some Component.root, s) ∈ namePieces (n :: below) := by
        rw [h]
        simp
      simp [namePieces] at hmem
    · have hid : ((fun x : Piece => x.2) ∘ fun n => (some (Component.name n), n)) = id := rfl
      rw [namePieces, List.map_map, hid, List.map_id, hsegs]

/-- What is left of a path below a directory is its place as seen from there. -/
theorem stripPrefix?_descend {below : Location} (hbelow : ∀ n ∈ below, IsName n)
    {root root' : Path} (hroot : root.text ≠ "") (hsame : root'.components = root.components) :
    stripPrefix? root (root'.descend below) = some (inside below) := by
  obtain ⟨init, hsteps, hpieces⟩ : ∃ init, root.components = init.filterMap (·.1) ∧
      (root'.descend below).pieces = init ++ namePieces below := by
    cases below with
    | nil => exact ⟨root'.pieces, by rw [← hsame]; rfl, by simp [descend, namePieces]⟩
    | cons n below =>
      obtain ⟨init, hsteps, hpieces⟩ := pieces_descend hbelow (by simp) root'
      exact ⟨init, hsame.symm.trans hsteps, hpieces⟩
  obtain ⟨blank, hblank, hdrop⟩ := dropSteps_append init (namePieces below)
  unfold stripPrefix?
  split
  · next h => exact absurd h (components_ne_nil hroot)
  · rw [hsteps, hpieces, hdrop, Option.map_some, trim_namePieces below hblank,
      ofPieces_namePieces hbelow]

/-! ## Joining the segments anew -/

/-- The second path is the first one, with fewer slashes where several follow each other. -/
structure Tidies (p q : Path) : Prop where
  segments : ∃ first rest rest', segmentsOf p.text = first :: rest ∧
    segmentsOf q.text = first :: rest' ∧ rest'.filter (· != "") = rest.filter (· != "") ∧
    (rest' = [] ↔ rest = [])
  head : q.text.toList.head? = p.text.toList.head?
  size : q.text.utf8ByteSize ≤ p.text.utf8ByteSize
  chars : q.text.toList ⊆ p.text.toList
  slash : p.text.toList.getLast? = some '/' → q.text.toList.getLast? = some '/'

namespace Tidies

theorem refl (p : Path) : Tidies p p := by
  rcases List.exists_cons_of_ne_nil (segmentsOf_ne_nil p.text) with ⟨first, rest, h⟩
  exact ⟨⟨first, rest, rest, h, h, rfl, Iff.rfl⟩, rfl, le_rfl, List.Subset.refl _, id⟩

theorem trans {p q r : Path} (h : Tidies p q) (h' : Tidies q r) : Tidies p r := by
  obtain ⟨first, rest, mid, hp, hq, hfilter, hnil⟩ := h.segments
  obtain ⟨first', mid', rest', hq', hr, hfilter', hnil'⟩ := h'.segments
  obtain ⟨rfl, rfl⟩ := List.cons.inj (hq.symm.trans hq')
  refine ⟨⟨first, rest, rest', hp, hr, hfilter'.trans hfilter, hnil'.trans hnil⟩,
    h'.head.trans h.head, h'.size.trans h.size, ?_, fun hlast => h'.slash (h.slash hlast)⟩
  exact List.Subset.trans h'.chars h.chars

theorem text_ne_empty {p q : Path} (h : Tidies p q) (hp : p.text ≠ "") : q.text ≠ "" := by
  intro hq
  rcases List.exists_cons_of_ne_nil (fun h => hp (String.toList_eq_nil_iff.1 h)) with ⟨c, cs, hc⟩
  have hhead := h.head
  simp [hq, hc] at hhead

/-- A slash that follows another one is left out. -/
theorem of_double_slash (t s : String) : Tidies ⟨t ++ "/" ++ "/" ++ s⟩ ⟨t ++ "/" ++ s⟩ := by
  obtain ⟨first, mid, hmid⟩ := List.exists_cons_of_ne_nil (segmentsOf_ne_nil t)
  have htwo : segmentsOf (t ++ "/" ++ "/" ++ s) = first :: (mid ++ "" :: segmentsOf s) := by
    rw [← String.append_empty (s := t ++ "/"), segmentsOf_append_slash, segmentsOf_append_slash,
      segmentsOf_empty, hmid]
    simp
  have hone : segmentsOf (t ++ "/" ++ s) = first :: (mid ++ segmentsOf s) := by
    rw [segmentsOf_append_slash, hmid]
    rfl
  refine ⟨⟨first, _, _, htwo, hone, by simp, by simp [segmentsOf_ne_nil]⟩, ?_, ?_, ?_, ?_⟩
  · simp [List.head?_append]
  · simp only [String.utf8ByteSize_append]
    omega
  · intro c hc
    simp only [String.toList_append, List.mem_append] at hc ⊢
    tauto
  · simp [List.getLast?_append]

/-- What follows a slash stays as it is. -/
theorem append_slash {p q : Path} (h : Tidies p q) (s : String) :
    Tidies ⟨p.text ++ "/" ++ s⟩ ⟨q.text ++ "/" ++ s⟩ := by
  obtain ⟨first, rest, rest', hp, hq, hfilter, hnil⟩ := h.segments
  refine ⟨⟨first, rest ++ segmentsOf s, rest' ++ segmentsOf s, ?_, ?_, ?_, ?_⟩, ?_, ?_, ?_, ?_⟩
  · rw [segmentsOf_append_slash, hp]
    rfl
  · rw [segmentsOf_append_slash, hq]
    rfl
  · simp only [List.filter_append, hfilter]
  · simp [segmentsOf_ne_nil]
  · simp [List.head?_append, h.head]
  · have hsize := h.size
    simp only [String.utf8ByteSize_append]
    omega
  · intro c hc
    simp only [String.toList_append, List.mem_append] at hc ⊢
    exact hc.imp_left (Or.imp_left fun hmem => h.chars hmem)
  · simp [List.getLast?_append]

/-- One more segment. -/
theorem join {p q : Path} (h : Tidies p q) (hq : q.text ≠ "") {s : String}
    (hs : '/' ∉ s.toList) : Tidies ⟨p.text ++ "/" ++ s⟩ (q.join s) := by
  have hrel : s.toList.head? ≠ some '/' := fun h => hs (List.mem_of_mem_head? h)
  by_cases hlast : q.text.toList.getLast? = some '/'
  · -- joining does not write a second slash
    obtain ⟨init, hinit⟩ := List.getLast?_eq_some_iff.1 hlast
    have htext : q.text = String.ofList init ++ "/" := by
      apply String.toList_inj.1
      rw [hinit, String.toList_append, String.toList_ofList]
      rfl
    have htwo := h.append_slash s
    rw [htext] at htwo
    rw [Path.join, if_neg hrel, if_pos (Or.inr hlast), htext]
    exact htwo.trans (of_double_slash _ s)
  · have hqempty : q.text.isEmpty = false := by simpa using hq
    rw [Path.join, if_neg hrel, if_neg (by simp [hqempty, hlast])]
    exact h.append_slash s

theorem foldl_join {segs : List String} (hsegs : ∀ s ∈ segs, '/' ∉ s.toList) :
    ∀ {p q : Path}, Tidies p q → q.text ≠ "" →
      Tidies ⟨"/".intercalate (p.text :: segs)⟩ (segs.foldl Path.join q) := by
  induction segs with
  | nil =>
    intro p q h _
    simpa using h
  | cons s segs ih =>
    intro p q h hq
    have hone := h.join hq (hsegs s (by simp))
    have hrest := ih (fun t ht => hsegs t (List.mem_cons_of_mem _ ht)) hone
      (hone.text_ne_empty (by simp))
    have htext : "/".intercalate (p.text :: s :: segs) =
        "/".intercalate ((p.text ++ "/" ++ s) :: segs) := by
      cases segs <;> simp [String.append_assoc]
    rw [htext, List.foldl_cons]
    exact hrest

variable {p q : Path} (h : Tidies p q)
include h

theorem components_eq : q.components = p.components := by
  rcases h.segments with ⟨first, rest, rest', hp, hq, hfilter, hnil⟩
  have hsteps : ∀ segs : List String, segs.filterMap Component.ofSegment? =
      (segs.filter (· != "")).filterMap Component.ofSegment? := by
    intro segs
    induction segs with
    | nil => rfl
    | cons s segs ih =>
      by_cases hs : s = ""
      · simp [hs, ih, Component.ofSegment?]
      · have hkeep : (s != "") = true := by simpa using hs
        rw [List.filter_cons, if_pos hkeep, List.filterMap_cons, List.filterMap_cons, ih]
  have hmap : ∀ segs : List String, (segs.map fun s => (Component.ofSegment? s, s)).filterMap
      (·.1) = segs.filterMap Component.ofSegment? := by
    intro segs
    rw [List.filterMap_map]
    rfl
  rw [components, components, pieces_of_segmentsOf hp, pieces_of_segmentsOf hq,
    List.filterMap_cons, List.filterMap_cons, hmap, hmap, hsteps rest', hsteps rest, hfilter]
  simp only [ne_eq, hnil]

theorem namesOf_eq : Disk.namesOf q.text = Disk.namesOf p.text := by
  rcases h.segments with ⟨first, rest, rest', hp, hq, hfilter, -⟩
  simp only [Disk.namesOf, hp, hq, List.filter_cons, hfilter]

theorem startOf_eq (here : Location) : Disk.startOf q.text here = Disk.startOf p.text here := by
  rw [Disk.startOf, Disk.startOf, h.head]

/-- A relative path joined to the tidied path is no longer, and has no other characters. -/
theorem join_relative {t : String} (ht : t.toList.head? ≠ some '/') :
    (q.join t).text.utf8ByteSize ≤ (p.join t).text.utf8ByteSize ∧
      (q.join t).text.toList ⊆ (p.join t).text.toList := by
  have hsize := h.size
  -- the tidied path needs a slash before the names only where the path itself does
  have hends : (p.text.isEmpty = true ∨ p.text.toList.getLast? = some '/') →
      q.text.isEmpty = true ∨ q.text.toList.getLast? = some '/' := by
    rintro (hempty | hlast)
    · left
      have hhead := h.head
      simp only [String.isEmpty_iff] at hempty ⊢
      rw [hempty] at hhead
      exact String.toList_eq_nil_iff.1 (by simpa using hhead)
    · exact Or.inr (h.slash hlast)
  simp only [Path.join, if_neg ht]
  by_cases hend : q.text.isEmpty = true ∨ q.text.toList.getLast? = some '/'
  · rw [if_pos hend]
    constructor
    · split <;> simp only [String.utf8ByteSize_append] <;> omega
    · intro c hc
      simp only [String.toList_append, List.mem_append] at hc
      rcases hc with hc | hc
      · split <;> simp [h.chars hc]
      · split <;> simp [hc]
  · rw [if_neg hend, if_neg fun hp => hend (hends hp)]
    constructor
    · simp only [String.utf8ByteSize_append]
      omega
    · intro c hc
      simp only [String.toList_append, List.mem_append] at hc ⊢
      exact hc.imp_left (Or.imp_left fun hmem => h.chars hmem)

/-- Paths that go down from the tidied path are no longer. -/
theorem checkPath_descend {below : Location} (hbelow : ∀ n ∈ below, IsName n)
    (hcheck : Disk.checkPath (p.descend below) = .ok ()) :
    Disk.checkPath (q.descend below) = .ok () := by
  rcases Disk.checkPath_eq_ok_iff.1 hcheck with ⟨hzero, hne, hsize⟩
  refine Disk.checkPath_eq_ok_iff.2 ?_
  cases below with
  | nil => exact ⟨fun hmem => hzero (h.chars hmem), h.text_ne_empty hne, h.size.trans hsize⟩
  | cons n below =>
    have hne' : (q.descend (n :: below)).text ≠ "" := text_join_ne_empty (hbelow n (by simp)) _
    rw [← join_inside hbelow (by simp)] at hzero hsize hne' ⊢
    obtain ⟨hle, hsub⟩ := h.join_relative (head?_inside hbelow)
    exact ⟨fun hmem => hzero (hsub hmem), hne', hle.trans hsize⟩

end Tidies

/-- The root with its segments joined anew. -/
theorem tidies_matchedRoot {root : Path} (hroot : root.text ≠ "") :
    Tidies root (Listing.matchedRoot root) := by
  have hslash : ∀ s ∈ segmentsOf root.text, '/' ∉ s.toList := fun s => no_slash_of_mem_segmentsOf
  have htext := intercalate_segmentsOf root.text
  unfold Listing.matchedRoot
  split
  · next rest hsegs =>
      -- an absolute root: the first segment is empty and stands for the slash
    rw [hsegs] at hslash htext
    cases rest with
    | nil => exact absurd (by simpa using htext.symm) hroot
    | cons s rest =>
      have hstart : Path.join ⟨"/"⟩ s = ⟨"/" ++ s⟩ := by
        have hrel : s.toList.head? ≠ some '/' :=
          fun h => hslash s (by simp) (List.mem_of_mem_head? h)
        simp [Path.join, hrel]
      have hfold := (Tidies.refl ⟨"/" ++ s⟩).foldl_join
        (fun t ht => hslash t (List.mem_cons_of_mem _ (List.mem_cons_of_mem _ ht)))
        (by simp)
      have hwhole : "/".intercalate (("/" ++ s) :: rest) = root.text := by
        rw [← htext]
        cases rest <;> simp [String.append_assoc]
      rw [hwhole] at hfold
      rw [List.foldl_cons, hstart]
      exact hfold
  · next hsegs =>
    rcases List.exists_cons_of_ne_nil (segmentsOf_ne_nil root.text) with ⟨first, rest, hfirst⟩
    rw [hfirst] at hslash htext
    have hne : first ≠ "" := by
      rintro rfl
      exact hsegs rest hfirst
    have hstart : Path.join ⟨""⟩ first = ⟨first⟩ := by
      have hrel : first.toList.head? ≠ some '/' :=
        fun h => hslash first (by simp) (List.mem_of_mem_head? h)
      simp [Path.join, hrel]
    have hfold := (Tidies.refl ⟨first⟩).foldl_join
      (fun t ht => hslash t (List.mem_cons_of_mem _ ht)) hne
    rw [htext] at hfold
    rw [hfirst, List.foldl_cons, hstart]
    exact hfold

end Path

end SiteFolders
