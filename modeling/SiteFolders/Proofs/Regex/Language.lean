import SiteFolders.Regex.Basic
import Mathlib.Logic.Relation

/-!
# What expressions match

`Regex.Matches` says which texts an expression without zero-width tests matches. The matcher lists
the length of a prefix exactly if the expression matches the prefix (`mem_lengths_iff`). For
a star this rests on the walk over the places that its rounds reach: the places that the walk has
left are closed under rounds (`visit_closed`), so everything that can be reached is among them.
-/

namespace SiteFolders.Regex

/-- The texts that an expression matches; zero-width tests match none here. -/
inductive Matches : Regex → List Char → Prop where
  | empty : Matches .empty []
  | one {p c} (h : p c = true) : Matches (.one p) [c]
  | seq {a b s t} (ha : Matches a s) (hb : Matches b t) : Matches (.seq a b) (s ++ t)
  | left {a b s} (h : Matches a s) : Matches (.alt a b) s
  | right {a b s} (h : Matches b s) : Matches (.alt a b) s
  | done {a} : Matches (.star a) []
  | round {a s t} (ha : Matches a s) (ht : Matches (.star a) t) : Matches (.star a) (s ++ t)

/-- True of expressions without zero-width tests. -/
def EdgeFree : Regex → Prop
  | .empty => True
  | .one _ => True
  | .seq a b => a.EdgeFree ∧ b.EdgeFree
  | .alt a b => a.EdgeFree ∧ b.EdgeFree
  | .star a => a.EdgeFree
  | .edge _ => False

instance instDecidableEdgeFree : ∀ r : Regex, Decidable r.EdgeFree
  | .empty => inferInstanceAs (Decidable True)
  | .one _ => inferInstanceAs (Decidable True)
  | .seq a b =>
    have := instDecidableEdgeFree a
    have := instDecidableEdgeFree b
    inferInstanceAs (Decidable (a.EdgeFree ∧ b.EdgeFree))
  | .alt a b =>
    have := instDecidableEdgeFree a
    have := instDecidableEdgeFree b
    inferInstanceAs (Decidable (a.EdgeFree ∧ b.EdgeFree))
  | .star a => instDecidableEdgeFree a
  | .edge _ => inferInstanceAs (Decidable False)

/-! ## Reading matches -/

theorem matches_empty_iff {s : List Char} : Matches .empty s ↔ s = [] :=
  ⟨fun h => by cases h; rfl, fun h => h ▸ .empty⟩

theorem matches_one_iff {p : Char → Bool} {s : List Char} :
    Matches (.one p) s ↔ ∃ c, s = [c] ∧ p c = true :=
  ⟨fun h => by cases h with | one h => exact ⟨_, rfl, h⟩, fun ⟨_, hs, h⟩ => hs ▸ .one h⟩

theorem matches_seq_iff {a b : Regex} {s : List Char} :
    Matches (.seq a b) s ↔ ∃ u v, s = u ++ v ∧ Matches a u ∧ Matches b v :=
  ⟨fun h => by cases h with | seq ha hb => exact ⟨_, _, rfl, ha, hb⟩,
    fun ⟨_, _, hs, ha, hb⟩ => hs ▸ .seq ha hb⟩

theorem matches_alt_iff {a b : Regex} {s : List Char} :
    Matches (.alt a b) s ↔ Matches a s ∨ Matches b s := by
  constructor
  · intro h
    cases h with
    | left h => exact Or.inl h
    | right h => exact Or.inr h
  · rintro (h | h)
    · exact .left h
    · exact .right h

theorem matches_opt_iff {a : Regex} {s : List Char} :
    Matches (opt a) s ↔ Matches a s ∨ s = [] := by
  rw [opt, matches_alt_iff, matches_empty_iff]

/-- What holds of every round holds of the whole, if it carries over to longer texts. -/
theorem forall_mem_of_matches_star {a : Regex} {P : Char → Prop}
    (ha : ∀ s, Matches a s → ∀ c ∈ s, P c) {s : List Char} (h : Matches (.star a) s) :
    ∀ c ∈ s, P c := by
  generalize hr : Regex.star a = r at h
  induction h with
  | done => simp
  | round hround _ _ ih =>
    obtain rfl := Regex.star.inj hr
    intro c hc
    rcases List.mem_append.1 hc with hc | hc
    · exact ha _ hround c hc
    · exact ih rfl c hc
  | _ => cases hr

theorem star_snoc {a : Regex} {s t : List Char} (hs : Matches (.star a) s) (ht : Matches a t) :
    Matches (.star a) (s ++ t) := by
  generalize hr : Regex.star a = r at hs
  induction hs with
  | done =>
    obtain rfl := Regex.star.inj hr
    simpa using Matches.round ht .done
  | round hround _ _ ih =>
    obtain rfl := Regex.star.inj hr
    rw [List.append_assoc]
    exact .round hround (ih rfl)
  | _ => cases hr

/-! ## The walk of a star -/

section Walk

variable {step : Nat → List Nat}

/-- Rounds that go up lead from one place to another. -/
abbrev Reaches (step : Nat → List Nat) : Nat → Nat → Prop :=
  Relation.ReflTransGen fun n m => m ∈ step n ∧ n < m

theorem mem_foldl_visit {fuel : Nat} {from? : Nat → Nat → Prop}
    (hvisit : ∀ seen n m, m ∈ visit step fuel seen n → m ∈ seen ∨ from? n m) :
    ∀ (ns : List Nat) (seen : List Nat) (m : Nat), m ∈ ns.foldl (visit step fuel) seen →
      m ∈ seen ∨ ∃ n ∈ ns, from? n m
  | [], seen, m, h => Or.inl h
  | n :: ns, seen, m, h => by
    rcases mem_foldl_visit hvisit ns _ m h with h | ⟨k, hk, h⟩
    · rcases hvisit seen n m h with h | h
      · exact Or.inl h
      · exact Or.inr ⟨n, by simp, h⟩
    · exact Or.inr ⟨k, List.mem_cons_of_mem _ hk, h⟩

/-- The walk only enters places that can be reached. -/
theorem reaches_of_mem_visit : ∀ (fuel : Nat) (seen : List Nat) (n m : Nat),
    m ∈ visit step fuel seen n → m ∈ seen ∨ Reaches step n m
  | 0, seen, n, m, h => by
    unfold visit at h
    split at h
    · exact Or.inl h
    · rcases List.mem_cons.1 h with rfl | h
      · exact Or.inr .refl
      · exact Or.inl h
  | fuel + 1, seen, n, m, h => by
    unfold visit at h
    split at h
    · exact Or.inl h
    · rcases List.mem_cons.1 h with rfl | h
      · exact Or.inr .refl
      · rcases mem_foldl_visit (reaches_of_mem_visit fuel) _ _ m h with h | ⟨k, hk, h⟩
        · exact Or.inl h
        · simp only [List.mem_filter, decide_eq_true_eq] at hk
          exact Or.inr (.head hk h)

/-- What a walk leaves behind: all that was seen, and with every new place all that a round from
there reaches. -/
structure Leaves (step : Nat → List Nat) (seen out : List Nat) : Prop where
  kept : ∀ m ∈ seen, m ∈ out
  closed : ∀ n ∈ out, n ∉ seen → ∀ m ∈ step n, n < m → m ∈ out

theorem Leaves.trans {seen mid out : List Nat} (h : Leaves step seen mid)
    (h' : Leaves step mid out) : Leaves step seen out := by
  refine ⟨fun m hm => h'.kept m (h.kept m hm), fun n hn hseen m hm hlt => ?_⟩
  by_cases hmid : n ∈ mid
  · exact h'.kept m (h.closed n hmid hseen m hm hlt)
  · exact h'.closed n hn hmid m hm hlt

theorem foldl_visit_closed {fuel limit : Nat}
    (hvisit : ∀ seen n, n ≤ limit → limit - n ≤ fuel →
      Leaves step seen (visit step fuel seen n) ∧ n ∈ visit step fuel seen n) :
    ∀ (ns : List Nat) (seen : List Nat), (∀ n ∈ ns, n ≤ limit ∧ limit - n ≤ fuel) →
      Leaves step seen (ns.foldl (visit step fuel) seen) ∧
        ∀ n ∈ ns, n ∈ ns.foldl (visit step fuel) seen
  | [], seen, _ => ⟨⟨fun _ h => h, fun n hn hseen => absurd hn hseen⟩, by simp⟩
  | n :: ns, seen, hns => by
    rcases hns n (by simp) with ⟨hn, hfuel⟩
    rcases hvisit seen n hn hfuel with ⟨hleaves, hmem⟩
    obtain ⟨hrest, hall⟩ := foldl_visit_closed hvisit ns (visit step fuel seen n)
      fun k hk => hns k (List.mem_cons_of_mem _ hk)
    refine ⟨hleaves.trans hrest, fun k hk => ?_⟩
    rcases List.mem_cons.1 hk with rfl | hk
    · exact hrest.kept k hmem
    · exact hall k hk

/-- With enough fuel for the places above it, the walk from a place leaves a closed set. -/
theorem visit_closed {limit : Nat} (hstep : ∀ n ≤ limit, ∀ m ∈ step n, m ≤ limit) :
    ∀ (fuel : Nat) (seen : List Nat) (n : Nat), n ≤ limit → limit - n ≤ fuel →
      Leaves step seen (visit step fuel seen n) ∧ n ∈ visit step fuel seen n
  | 0, seen, n, hn, hfuel => by
    unfold visit
    split
    · next hseen =>
      exact ⟨⟨fun _ h => h, fun n hn hseen => absurd hn hseen⟩, by simpa using hseen⟩
    · refine ⟨⟨fun m hm => List.mem_cons_of_mem _ hm, fun k hk hseen m hm hlt => ?_⟩, by simp⟩
      rcases List.mem_cons.1 hk with rfl | hk
      · have := hstep k hn m hm
        omega
      · exact absurd hk hseen
  | fuel + 1, seen, n, hn, hfuel => by
    unfold visit
    split
    · next hseen =>
      exact ⟨⟨fun _ h => h, fun n hn hseen => absurd hn hseen⟩, by simpa using hseen⟩
    · -- what comes next lies above, and one less unit of fuel is enough for it
      have hnext : ∀ m ∈ (step n).filter (n < ·), m ≤ limit ∧ limit - m ≤ fuel := by
        intro m hm
        simp only [List.mem_filter, decide_eq_true_eq] at hm
        have := hstep n hn m hm.1
        omega
      obtain ⟨hleaves, hall⟩ :=
        foldl_visit_closed (visit_closed hstep fuel) _ seen hnext
      refine ⟨⟨fun m hm => List.mem_cons_of_mem _ (hleaves.kept m hm),
        fun k hk hseen m hm hlt => List.mem_cons_of_mem _ ?_⟩, by simp⟩
      rcases List.mem_cons.1 hk with rfl | hk
      · exact hall m (List.mem_filter.2 ⟨hm, by simpa using hlt⟩)
      · exact hleaves.closed k hk hseen m hm hlt

/-- The closure lists what rounds reach from the start, no more and no less. -/
theorem mem_closure_iff {limit : Nat} (hstep : ∀ n ≤ limit, ∀ m ∈ step n, m ≤ limit) {m : Nat} :
    m ∈ closure step limit ↔ Reaches step 0 m := by
  rw [closure, List.mem_reverse]
  constructor
  · intro h
    simpa using reaches_of_mem_visit limit [] 0 m h
  · intro h
    rcases visit_closed hstep limit [] 0 (Nat.zero_le _) (by omega) with ⟨hleaves, hmem⟩
    induction h with
    | refl => exact hmem
    | tail _ hround ih => exact hleaves.closed _ ih (by simp) _ hround.1 hround.2

end Walk

/-! ## Lengths -/

theorem mem_foldl_distinct : ∀ (ns kept : List Nat) (n : Nat),
    n ∈ ns.foldl (fun kept n => if kept.contains n then kept else n :: kept) kept ↔
      n ∈ kept ∨ n ∈ ns
  | [], kept, n => by simp
  | m :: ns, kept, n => by
    rw [List.foldl_cons, mem_foldl_distinct ns]
    split
    · next h =>
      have hm : m ∈ kept := by simpa using h
      constructor
      · rintro (h | h)
        · exact Or.inl h
        · exact Or.inr (List.mem_cons_of_mem _ h)
      · rintro (h | h)
        · exact Or.inl h
        · rcases List.mem_cons.1 h with rfl | h
          · exact Or.inl hm
          · exact Or.inr h
    · simp only [List.mem_cons]
      rw [or_assoc, or_left_comm]

theorem mem_distinct {ns : List Nat} {n : Nat} : n ∈ distinct ns ↔ n ∈ ns := by
  rw [distinct, List.mem_reverse, mem_foldl_distinct]
  simp

theorem mem_lengths_one {p : Char → Bool} {before : Option Char} {rest : List Char} {n : Nat} :
    n ∈ (one p).lengths before rest ↔ ∃ c t, rest = c :: t ∧ p c = true ∧ n = 1 := by
  cases rest with
  | nil => simp [lengths]
  | cons c t => by_cases hc : p c = true <;> simp [lengths, hc]

theorem mem_lengths_seq {a b : Regex} {before : Option Char} {rest : List Char} {n : Nat} :
    n ∈ (seq a b).lengths before rest ↔ ∃ k ∈ a.lengths before rest,
      ∃ l ∈ b.lengths (charBefore before rest k) (rest.drop k), n = k + l := by
  simp only [lengths, mem_distinct, List.mem_flatMap, List.mem_map, eq_comm]

theorem mem_lengths_alt {a b : Regex} {before : Option Char} {rest : List Char} {n : Nat} :
    n ∈ (alt a b).lengths before rest ↔ n ∈ a.lengths before rest ∨ n ∈ b.lengths before rest := by
  rw [lengths, mem_distinct, List.mem_append]

theorem mem_lengths_edge {p : Option Char → Option Char → Bool} {before : Option Char}
    {rest : List Char} {n : Nat} :
    n ∈ (edge p).lengths before rest ↔ n = 0 ∧ p before rest.head? = true := by
  by_cases hp : p before rest.head? = true <;> simp [lengths, hp]

/-- The places in a text that a round from a place leads to. -/
def rounds (a : Regex) (before : Option Char) (rest : List Char) (n : Nat) : List Nat :=
  (a.lengths (charBefore before rest n) (rest.drop n)).map (n + ·)

/-- A round does not lead out of a text in which the body finds its matches. -/
theorem le_length_of_mem_rounds {a : Regex} (ha : ∀ {before : Option Char} {rest : List Char} {n : Nat},
      n ∈ a.lengths before rest → n ≤ rest.length) {before : Option Char} {rest : List Char} :
    ∀ k ≤ rest.length, ∀ m ∈ a.rounds before rest k, m ≤ rest.length := by
  intro k hk m hm
  obtain ⟨l, hl, rfl⟩ := List.mem_map.1 hm
  have hle := ha hl
  rw [List.length_drop] at hle
  omega

theorem le_length_of_mem_lengths : ∀ (r : Regex) {before : Option Char} {rest : List Char} {n : Nat},
    n ∈ r.lengths before rest → n ≤ rest.length
  | .empty, before, rest, n, h => by
    obtain rfl := List.mem_singleton.1 h
    exact Nat.zero_le _
  | .one p, before, rest, n, h => by
    obtain ⟨c, t, rfl, -, rfl⟩ := mem_lengths_one.1 h
    simp
  | .seq a b, before, rest, n, h => by
    obtain ⟨k, hk, l, hl, rfl⟩ := mem_lengths_seq.1 h
    have hle := le_length_of_mem_lengths a hk
    have hle' := le_length_of_mem_lengths b hl
    rw [List.length_drop] at hle'
    omega
  | .alt a b, before, rest, n, h => by
    rcases mem_lengths_alt.1 h with h | h
    · exact le_length_of_mem_lengths a h
    · exact le_length_of_mem_lengths b h
  | .star a, before, rest, n, h => by
    have hrounds := @le_length_of_mem_rounds a (le_length_of_mem_lengths a) before rest
    replace h := (mem_closure_iff hrounds).1 h
    induction h with
    | refl => exact Nat.zero_le _
    | tail _ hround ih => exact hrounds _ ih _ hround.1
  | .edge p, before, rest, n, h => by
    obtain ⟨rfl, -⟩ := mem_lengths_edge.1 h
    exact Nat.zero_le _

theorem rounds_le_length {a : Regex} {before : Option Char} {rest : List Char} :
    ∀ k ≤ rest.length, ∀ m ∈ a.rounds before rest k, m ≤ rest.length :=
  le_length_of_mem_rounds (le_length_of_mem_lengths a)

/-- A star finds the places that its rounds lead to from the start. -/
theorem mem_lengths_star {a : Regex} {before : Option Char} {rest : List Char} {n : Nat} :
    n ∈ (star a).lengths before rest ↔ Reaches (a.rounds before rest) 0 n :=
  mem_closure_iff rounds_le_length

/-! ## Rounds -/

section Rounds

variable {a : Regex} {before : Option Char}
  (ha : ∀ {before : Option Char} {rest : List Char} {n : Nat},
    n ∈ a.lengths before rest ↔ ∃ s t, rest = s ++ t ∧ s.length = n ∧ Matches a s)
include ha

/-- A round leads over a text that the body matches. -/
theorem mem_rounds_iff {front back : List Char} {m : Nat} :
    m ∈ a.rounds before (front ++ back) front.length ↔
      ∃ s t, back = s ++ t ∧ m = (front ++ s).length ∧ Matches a s := by
  rw [rounds, List.drop_left, List.mem_map]
  simp only [ha, List.length_append]
  constructor
  · rintro ⟨_, ⟨s, t, hback, rfl, hs⟩, rfl⟩
    exact ⟨s, t, hback, rfl, hs⟩
  · rintro ⟨s, t, hback, rfl, hs⟩
    exact ⟨_, ⟨s, t, hback, rfl, hs⟩, rfl⟩

theorem matches_star_of_reaches {rest : List Char} {n : Nat}
    (h : Reaches (a.rounds before rest) 0 n) :
    ∃ s t, rest = s ++ t ∧ s.length = n ∧ Matches (.star a) s := by
  induction h with
  | refl => exact ⟨[], rest, rfl, rfl, .done⟩
  | tail _ hround ih =>
    obtain ⟨s, t, rfl, rfl, hs⟩ := ih
    obtain ⟨u, v, rfl, rfl, hu⟩ := (mem_rounds_iff ha).1 hround.1
    exact ⟨s ++ u, v, (List.append_assoc s u v).symm, rfl, star_snoc hs hu⟩

theorem reaches_of_matches_star {s : List Char} (h : Matches (.star a) s) :
    ∀ front back : List Char,
      Reaches (a.rounds before (front ++ s ++ back)) front.length (front ++ s).length := by
  generalize hr : Regex.star a = r at h
  induction h with
  | done =>
    intro front back
    rw [List.append_nil]
  | @round a' u v hu _ _ ih =>
    obtain rfl := Regex.star.inj hr
    intro front back
    have hv := ih rfl (front ++ u) back
    simp only [List.append_assoc] at hv ⊢
    by_cases hnil : u = []
    · -- rounds that match nothing are left out of the walk
      simpa [hnil] using hv
    · have hpos := List.length_pos_iff.2 hnil
      refine .head ⟨(mem_rounds_iff ha).2 ⟨u, v ++ back, rfl, rfl, hu⟩, ?_⟩ hv
      rw [List.length_append]
      omega
  | _ => cases hr

end Rounds

/-- The matcher lists the length of a prefix exactly if the expression matches the prefix. -/
theorem mem_lengths_iff : ∀ {r : Regex}, r.EdgeFree → ∀ {before : Option Char} {rest : List Char}
    {n : Nat}, n ∈ r.lengths before rest ↔ ∃ s t, rest = s ++ t ∧ s.length = n ∧ Matches r s
  | .empty, _, before, rest, n => by
    simp only [lengths, List.mem_singleton, matches_empty_iff]
    constructor
    · rintro rfl
      exact ⟨[], rest, rfl, rfl, rfl⟩
    · rintro ⟨s, t, -, rfl, rfl⟩
      rfl
  | .one p, _, before, rest, n => by
    simp only [mem_lengths_one, matches_one_iff]
    constructor
    · rintro ⟨c, t, rfl, hc, rfl⟩
      exact ⟨[c], t, rfl, rfl, c, rfl, hc⟩
    · rintro ⟨_, t, rfl, rfl, c, rfl, hc⟩
      exact ⟨c, t, rfl, hc, rfl⟩
  | .seq a b, hr, before, rest, n => by
    simp only [mem_lengths_seq, mem_lengths_iff hr.1, mem_lengths_iff hr.2, matches_seq_iff]
    constructor
    · rintro ⟨_, ⟨s, t, rfl, rfl, hs⟩, _, ⟨u, v, huv, rfl, hu⟩, rfl⟩
      rw [List.drop_left] at huv
      exact ⟨s ++ u, v, by rw [huv, List.append_assoc], by simp, s, u, rfl, hs, hu⟩
    · rintro ⟨_, t, rfl, rfl, u, v, rfl, hu, hv⟩
      exact ⟨u.length, ⟨u, v ++ t, by simp, rfl, hu⟩, v.length, ⟨v, t, by simp, rfl, hv⟩, by simp⟩
  | .alt a b, hr, before, rest, n => by
    simp only [mem_lengths_alt, mem_lengths_iff hr.1, mem_lengths_iff hr.2, matches_alt_iff]
    constructor
    · rintro (⟨s, t, h, hn, hs⟩ | ⟨s, t, h, hn, hs⟩)
      · exact ⟨s, t, h, hn, Or.inl hs⟩
      · exact ⟨s, t, h, hn, Or.inr hs⟩
    · rintro ⟨s, t, h, hn, hs | hs⟩
      · exact Or.inl ⟨s, t, h, hn, hs⟩
      · exact Or.inr ⟨s, t, h, hn, hs⟩
  | .star a, hr, before, rest, n => by
    have ha := @mem_lengths_iff a hr
    rw [mem_lengths_star]
    constructor
    · exact matches_star_of_reaches ha
    · rintro ⟨s, t, rfl, rfl, hs⟩
      exact reaches_of_matches_star ha hs [] t

/-- A prefix that the expression matches is found. -/
theorem mem_lengths_of_matches {r : Regex} (hr : r.EdgeFree) {before : Option Char}
    {s t : List Char} (h : Matches r s) : s.length ∈ r.lengths before (s ++ t) :=
  (mem_lengths_iff hr).2 ⟨s, t, rfl, rfl, h⟩

end SiteFolders.Regex
