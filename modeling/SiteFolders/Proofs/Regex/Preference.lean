import SiteFolders.Proofs.Regex.Language
import Mathlib.Data.List.Nodup

/-!
# Preference by length

A leftmost-first search takes the first length that the matcher lists. For expressions whose lengths
fall (`Falls`) this is the longest one, so that the choice can be told from what the expression
matches.

The lengths of a star fall if rounds that come later lead to nothing new above what rounds before
them reach (`Orderly`). The walk of the star then enters places from the top down
(`visit_rising`).
-/

namespace SiteFolders.Regex

/-! ## The order of a walk -/

section Walk

variable {step : Nat → List Nat}

theorem Reaches.le {n m : Nat} (h : Reaches step n m) : n ≤ m := by
  induction h with
  | refl => exact Nat.le_refl n
  | tail _ hround ih => exact Nat.le_trans ih (Nat.le_of_lt hround.2)

/-- Rounds that go up from a place come in an order in which a later one leads to nothing new above
what those before it reach. -/
def Orderly (step : Nat → List Nat) : Prop :=
  ∀ n before k after, (step n).filter (n < ·) = before ++ k :: after → ∀ x m,
    (∃ j ∈ before, Reaches step j x) → Reaches step k m → x ≤ m → ∃ j ∈ before, Reaches step j m

/-- One round at most from each place is orderly. -/
theorem orderly_of_length_le_one (h : ∀ n, (step n).length ≤ 1) : Orderly step := by
  rintro n before k after hrounds x m ⟨j, hj, -⟩
  have hlen := Nat.le_trans (List.length_filter_le (n < ·) (step n)) (h n)
  rw [hrounds, List.length_append, List.length_cons] at hlen
  have hpos := List.length_pos_of_mem hj
  omega

/-- What has been seen holds everything that a place reaches at or above it. -/
def Upper (step : Nat → List Nat) (seen : List Nat) (n : Nat) : Prop :=
  ∀ x ∈ seen, ∀ m, Reaches step n m → x ≤ m → m ∈ seen

theorem Leaves.mem_of_reaches {seen out : List Nat} {n m : Nat} (h : Leaves step seen out)
    (hupper : Upper step seen n) (hn : n ∈ out) (hm : Reaches step n m) : m ∈ out := by
  induction hm with
  | refl => exact hn
  | @tail k m hk hround ih =>
    by_cases hseen : k ∈ seen
    · exact h.kept m (hupper k hseen m (hk.tail hround) (Nat.le_of_lt hround.2))
    · exact h.closed k ih hseen m hround.1 hround.2

/-- What is left by a walk over the first rounds from a place. -/
structure Walked (step : Nat → List Nat) (seen done out : List Nat) : Prop where
  rising : out.Pairwise (· < ·)
  kept : ∀ m ∈ seen, m ∈ out
  found : ∀ m ∈ out, m ∈ seen ∨ ∃ k ∈ done, Reaches step k m
  all : ∀ k ∈ done, ∀ m, Reaches step k m → m ∈ out

theorem Walked.nil {seen : List Nat} (h : seen.Pairwise (· < ·)) : Walked step seen [] seen where
  rising := h
  kept _ hm := hm
  found _ hm := Or.inl hm
  all := by simp

variable (hstep : Orderly step) {limit : Nat} (hlimit : ∀ n ≤ limit, ∀ m ∈ step n, m ≤ limit)
include hstep hlimit

/-- Walks over the rounds from a place, one after another. -/
theorem walked_foldl {fuel n : Nat} {seen : List Nat} (hupper : Upper step seen n) (hn : n ≤ limit)
    (hfuel : limit - n ≤ fuel + 1)
    (hvisit : ∀ out k, k ≤ limit → limit - k ≤ fuel → out.Pairwise (· < ·) → Upper step out k →
      (visit step fuel out k).Pairwise (· < ·)) :
    ∀ (rest done out : List Nat), (step n).filter (n < ·) = done ++ rest →
      Walked step seen done out → Walked step seen (done ++ rest) (rest.foldl (visit step fuel) out)
  | [], done, out, _, h => by simpa using h
  | k :: rest, done, out, hrounds, h => by
    have hround : k ∈ step n ∧ n < k := by
      have hmem : k ∈ (step n).filter (n < ·) := by simp [hrounds]
      simpa using hmem
    have hk : k ≤ limit := hlimit n hn k hround.1
    have hkfuel : limit - k ≤ fuel := by omega
    -- what the walk has entered so far and lies above `k` is entered again from it: either it was
    -- there before, or an earlier round led to it
    have hkupper : Upper step out k := by
      intro x hx m hm hle
      rcases h.found x hx with hseen | hdone
      · exact h.kept m (hupper x hseen m (.head hround hm) hle)
      · obtain ⟨j, hj, hreaches⟩ := hstep n done k rest hrounds x m hdone hm hle
        exact h.all j hj m hreaches
    obtain ⟨hleaves, hmem⟩ := visit_closed hlimit fuel out k hk hkfuel
    -- the walk from `k` enters what can be reached from it and nothing else
    have hwalked : Walked step seen (done ++ [k]) (visit step fuel out k) := by
      refine ⟨hvisit out k hk hkfuel h.rising hkupper, fun m hm => hleaves.kept m (h.kept m hm),
        fun m hm => ?_, fun j hj m hm => ?_⟩
      · rcases reaches_of_mem_visit fuel out k m hm with hout | hreaches
        · rcases h.found m hout with hseen | ⟨j, hj, hreaches⟩
          · exact Or.inl hseen
          · exact Or.inr ⟨j, List.mem_append_left _ hj, hreaches⟩
        · exact Or.inr ⟨k, by simp, hreaches⟩
      · rcases List.mem_append.1 hj with hj | hj
        · exact hleaves.kept m (h.all j hj m hm)
        · obtain rfl := List.mem_singleton.1 hj
          exact hleaves.mem_of_reaches hkupper hmem hm
    have hrest := walked_foldl hupper hn hfuel hvisit rest (done ++ [k]) (visit step fuel out k)
      (by rw [hrounds, List.append_assoc]; rfl) hwalked
    rwa [List.append_assoc] at hrest

/-- An orderly walk puts every place below those that it has entered before. -/
theorem visit_rising : ∀ (fuel : Nat) (seen : List Nat) (n : Nat), n ≤ limit → limit - n ≤ fuel →
    seen.Pairwise (· < ·) → Upper step seen n → (visit step fuel seen n).Pairwise (· < ·)
  | 0, seen, n, hn, _, hseen, hupper => by
    unfold visit
    split
    · exact hseen
    · next hnew =>
      refine List.pairwise_cons.2 ⟨fun x hx => ?_, hseen⟩
      -- a place below would have been entered before, and this one with it
      refine Nat.lt_of_not_le fun hle => hnew ?_
      simpa using hupper x hx n .refl hle
  | fuel + 1, seen, n, hn, hfuel, hseen, hupper => by
    unfold visit
    split
    · exact hseen
    · next hnew =>
      have hwalked := walked_foldl hstep hlimit hupper hn hfuel
        (visit_rising fuel) _ [] seen rfl (.nil hseen)
      refine List.pairwise_cons.2 ⟨fun x hx => ?_, hwalked.rising⟩
      rcases hwalked.found x hx with hold | ⟨k, hk, hreaches⟩
      · refine Nat.lt_of_not_le fun hle => hnew ?_
        simpa using hupper x hold n .refl hle
      · have hlt : n < k := by simpa using (List.mem_filter.1 hk).2
        exact Nat.lt_of_lt_of_le hlt hreaches.le

/-- The closure of orderly rounds falls. -/
theorem closure_falling : (closure step limit).Pairwise (· > ·) := by
  rw [closure, List.pairwise_reverse]
  exact visit_rising hstep hlimit limit [] 0 (Nat.zero_le _) (by omega) .nil (by simp [Upper])

end Walk

/-! ## Each length once -/

theorem nodup_foldl_distinct : ∀ (ns kept : List Nat), kept.Nodup →
    (ns.foldl (fun kept n => if kept.contains n then kept else n :: kept) kept).Nodup
  | [], kept, h => h
  | n :: ns, kept, h => by
    rw [List.foldl_cons]
    refine nodup_foldl_distinct ns _ ?_
    split
    · exact h
    · next hnew => exact List.nodup_cons.2 ⟨by simpa using hnew, h⟩

theorem nodup_distinct (ns : List Nat) : (distinct ns).Nodup := by
  rw [distinct, List.nodup_reverse]
  exact nodup_foldl_distinct ns [] List.nodup_nil

theorem foldl_distinct_of_nodup : ∀ (ns kept : List Nat), (kept.reverse ++ ns).Nodup →
    ns.foldl (fun kept n => if kept.contains n then kept else n :: kept) kept = ns.reverse ++ kept
  | [], kept, _ => rfl
  | n :: ns, kept, h => by
    have hnew : kept.contains n = false := by
      have hdisjoint := (List.nodup_append.1 h).2.2
      rw [Bool.eq_false_iff]
      intro hmem
      exact hdisjoint n (by simpa using hmem) n (by simp) rfl
    rw [List.foldl_cons, hnew, if_neg (by simp), foldl_distinct_of_nodup ns (n :: kept) (by simpa using h)]
    simp

theorem distinct_of_nodup {ns : List Nat} (h : ns.Nodup) : distinct ns = ns := by
  rw [distinct, foldl_distinct_of_nodup ns [] (by simpa using h)]
  simp

theorem nodup_foldl_visit {step : Nat → List Nat} {fuel : Nat}
    (hvisit : ∀ seen n, seen.Nodup → (visit step fuel seen n).Nodup) :
    ∀ (ns seen : List Nat), seen.Nodup → (ns.foldl (visit step fuel) seen).Nodup
  | [], _, h => h
  | n :: ns, seen, h => nodup_foldl_visit hvisit ns _ (hvisit seen n h)

/-- A walk enters no place twice: rounds go up, so none comes back to the place it starts at. -/
theorem nodup_visit {step : Nat → List Nat} : ∀ (fuel : Nat) (seen : List Nat) (n : Nat),
    seen.Nodup → (visit step fuel seen n).Nodup
  | 0, seen, n, h => by
    unfold visit
    split
    · exact h
    · next hnew => exact List.nodup_cons.2 ⟨by simpa using hnew, h⟩
  | fuel + 1, seen, n, h => by
    unfold visit
    split
    · exact h
    · next hnew =>
      refine List.nodup_cons.2 ⟨fun hmem => ?_, nodup_foldl_visit (nodup_visit fuel) _ _ h⟩
      rcases mem_foldl_visit (reaches_of_mem_visit fuel) _ _ n hmem with hold | ⟨k, hk, hreaches⟩
      · exact hnew (by simpa using hold)
      · have hlt : n < k := by simpa using (List.mem_filter.1 hk).2
        exact absurd hreaches.le (Nat.not_le.2 hlt)

/-- The matcher lists no length twice. -/
theorem nodup_lengths (r : Regex) (before : Option Char) (rest : List Char) :
    (r.lengths before rest).Nodup := by
  cases r with
  | empty => simp [lengths]
  | one p =>
    cases rest with
    | nil => simp [lengths]
    | cons c rest =>
      simp only [lengths]
      split <;> simp
  | seq a b => exact nodup_distinct _
  | alt a b => exact nodup_distinct _
  | star a => exact List.nodup_reverse.2 (nodup_visit _ _ _ List.nodup_nil)
  | edge p =>
    simp only [lengths]
    split <;> simp

/-! ## Falling lengths -/

/-- The lengths that the matcher lists fall, so the first one is the longest. -/
def Falls (r : Regex) : Prop :=
  ∀ before rest, (r.lengths before rest).Pairwise (· > ·)

theorem falls_star {a : Regex} (h : ∀ before rest, Orderly (a.rounds before rest)) :
    Falls (.star a) :=
  fun before rest => closure_falling (h before rest) rounds_le_length

/-- Lists that fall are left as they are. -/
theorem distinct_of_falling {ns : List Nat} (h : ns.Pairwise (· > ·)) : distinct ns = ns :=
  distinct_of_nodup (h.imp fun hlt => Nat.ne_of_gt hlt)

theorem Falls.alt {a b : Regex} (ha : a.Falls) (hb : b.Falls)
    (h : ∀ before rest, ∀ n ∈ a.lengths before rest, ∀ m ∈ b.lengths before rest, m < n) :
    Falls (.alt a b) := by
  intro before rest
  have hfalls : (a.lengths before rest ++ b.lengths before rest).Pairwise (· > ·) :=
    List.pairwise_append.2 ⟨ha before rest, hb before rest, h before rest⟩
  rw [lengths, distinct_of_falling hfalls]
  exact hfalls

/-- The lengths of a sequence fall if no second part reaches from one length of the first part to
the next. -/
theorem Falls.seq {a b : Regex} (ha : a.Falls) (hb : b.Falls)
    (h : ∀ before rest, ∀ n ∈ a.lengths before rest, ∀ m ∈ a.lengths before rest, m < n →
      ∀ l ∈ b.lengths (charBefore before rest m) (rest.drop m), m + l < n) :
    Falls (.seq a b) := by
  intro before rest
  have hfalls : ((a.lengths before rest).flatMap fun n =>
      (b.lengths (charBefore before rest n) (rest.drop n)).map (n + ·)).Pairwise (· > ·) := by
    refine List.pairwise_flatMap.2 ⟨fun n _ => ?_, ?_⟩
    · exact List.pairwise_map.2 ((hb _ _).imp fun hlt => Nat.add_lt_add_left hlt n)
    · refine (ha before rest).imp_of_mem fun {n m} hn hm hlt => ?_
      simp only [List.mem_map]
      rintro _ ⟨k, -, rfl⟩ _ ⟨l, hl, rfl⟩
      have := h before rest n hn m hm hlt l hl
      omega
  rw [lengths, distinct_of_falling hfalls]
  exact hfalls

/-! ## What matches start with -/

/-- Every match starts with a character of a kind. -/
def Starts (P : Char → Prop) (r : Regex) : Prop :=
  ∀ s, Matches r s → ∃ c s', s = c :: s' ∧ P c

theorem matches_star_one_iff {p : Char → Bool} {s : List Char} :
    Matches (.star (.one p)) s ↔ ∀ c ∈ s, p c = true := by
  constructor
  · refine forall_mem_of_matches_star fun t ht c hc => ?_
    obtain ⟨k, rfl, hk⟩ := matches_one_iff.1 ht
    rwa [List.mem_singleton.1 hc]
  · intro h
    induction s with
    | nil => exact .done
    | cons c s ih => exact .round (.one (h c (by simp))) (ih fun k hk => h k (List.mem_cons_of_mem _ hk))

theorem matches_seq_assoc {a b c : Regex} {s : List Char} :
    Matches (.seq (.seq a b) c) s ↔ Matches (.seq a (.seq b c)) s := by
  simp only [matches_seq_iff]
  constructor
  · rintro ⟨_, w, rfl, ⟨u, v, rfl, hu, hv⟩, hw⟩
    exact ⟨u, v ++ w, by simp, hu, v, w, rfl, hv, hw⟩
  · rintro ⟨u, _, rfl, hu, v, w, rfl, hv, hw⟩
    exact ⟨u ++ v, w, by simp, ⟨u, v, rfl, hu, hv⟩, hw⟩

theorem Starts.mono {P Q : Char → Prop} {r : Regex} (h : r.Starts P) (hPQ : ∀ c, P c → Q c) :
    r.Starts Q := by
  intro s hs
  obtain ⟨c, s', rfl, hc⟩ := h s hs
  exact ⟨c, s', rfl, hPQ c hc⟩

theorem starts_one (p : Char → Bool) : Starts (fun c => p c = true) (.one p) := by
  intro s hs
  obtain ⟨c, rfl, hc⟩ := matches_one_iff.1 hs
  exact ⟨c, [], rfl, hc⟩

theorem Starts.seq {P : Char → Prop} {a : Regex} (h : a.Starts P) (b : Regex) :
    Starts P (.seq a b) := by
  intro s hs
  obtain ⟨u, v, rfl, hu, -⟩ := matches_seq_iff.1 hs
  obtain ⟨c, u', rfl, hc⟩ := h u hu
  exact ⟨c, u' ++ v, rfl, hc⟩

theorem Starts.opt_seq {P : Char → Prop} {a b : Regex} (ha : a.Starts P) (hb : b.Starts P) :
    Starts P (.seq (opt a) b) := by
  intro s hs
  obtain ⟨u, v, rfl, hu, hv⟩ := matches_seq_iff.1 hs
  rcases matches_opt_iff.1 hu with hu | rfl
  · exact ha.seq b _ (.seq hu hv)
  · exact hb v hv

theorem Starts.star_one_seq {p : Char → Bool} {Q : Char → Prop} {b : Regex} (hb : b.Starts Q) :
    Starts (fun c => p c = true ∨ Q c) (.seq (.star (.one p)) b) := by
  intro s hs
  obtain ⟨u, v, rfl, hu, hv⟩ := matches_seq_iff.1 hs
  cases u with
  | nil =>
    obtain ⟨c, w, rfl, hc⟩ := hb v hv
    exact ⟨c, w, rfl, Or.inr hc⟩
  | cons c u => exact ⟨c, u ++ v, rfl, Or.inl (matches_star_one_iff.1 hu c (by simp))⟩

theorem starts_literal (same : Char → Char → Bool) (c : Char) (w : List Char) :
    Starts (fun k => same c k = true) (literal same (c :: w)) :=
  (starts_one (same c)).seq _

/-! ## Expressions that match one prefix -/

/-- No text has two prefixes that match. -/
def Deterministic (r : Regex) : Prop :=
  ∀ s t s' t', Matches r s → Matches r s' → s ++ t = s' ++ t' → s = s'

theorem Deterministic.length_lengths_le {r : Regex} (h : r.Deterministic) (hr : r.EdgeFree)
    (before : Option Char) (rest : List Char) : (r.lengths before rest).length ≤ 1 := by
  match hlist : r.lengths before rest with
  | [] => simp
  | [n] => simp
  | n :: m :: others =>
    have hn : n ∈ r.lengths before rest := by simp [hlist]
    have hm : m ∈ r.lengths before rest := by simp [hlist]
    obtain ⟨s, t, rfl, rfl, hs⟩ := (mem_lengths_iff hr).1 hn
    obtain ⟨s', t', htext, rfl, hs'⟩ := (mem_lengths_iff hr).1 hm
    obtain rfl := h s t s' t' hs hs' htext
    have hnodup := nodup_lengths r before (s ++ t)
    rw [hlist] at hnodup
    simp at hnodup

theorem pairwise_of_length_le_one {α : Type} {R : α → α → Prop} {xs : List α} (h : xs.length ≤ 1) :
    xs.Pairwise R := by
  match xs with
  | [] => exact .nil
  | [x] => exact List.pairwise_singleton R x
  | x :: y :: rest => simp at h

theorem Deterministic.falls {r : Regex} (h : r.Deterministic) (hr : r.EdgeFree) : r.Falls :=
  fun before rest => pairwise_of_length_le_one (h.length_lengths_le hr before rest)

theorem deterministic_empty : Deterministic .empty := by
  intro s t s' t' hs hs' _
  rw [matches_empty_iff.1 hs, matches_empty_iff.1 hs']

theorem deterministic_one (p : Char → Bool) : Deterministic (.one p) := by
  intro s t s' t' hs hs' htext
  obtain ⟨c, rfl, -⟩ := matches_one_iff.1 hs
  obtain ⟨c', rfl, -⟩ := matches_one_iff.1 hs'
  rw [(List.cons.inj htext).1]

theorem Deterministic.seq {a b : Regex} (ha : a.Deterministic) (hb : b.Deterministic) :
    Deterministic (.seq a b) := by
  intro s t s' t' hs hs' htext
  obtain ⟨u, v, rfl, hu, hv⟩ := matches_seq_iff.1 hs
  obtain ⟨u', v', rfl, hu', hv'⟩ := matches_seq_iff.1 hs'
  rw [List.append_assoc, List.append_assoc] at htext
  obtain rfl := ha u _ u' _ hu hu' htext
  rw [hb v t v' t' hv hv' (List.append_cancel_left htext)]

theorem deterministic_literal (same : Char → Char → Bool) (w : List Char) :
    Deterministic (literal same w) := by
  induction w with
  | nil => exact deterministic_empty
  | cons c w ih => exact (deterministic_one _).seq ih

theorem Deterministic.congr {a b : Regex} (hb : b.Deterministic)
    (h : ∀ s, Matches a s ↔ Matches b s) : a.Deterministic :=
  fun s t s' t' hs hs' => hb s t s' t' ((h s).1 hs) ((h s').1 hs')

/-- A run of characters of a kind ends where a character of another kind has to follow. -/
theorem Deterministic.star_one_seq {p : Char → Bool} {b : Regex} (hb : b.Deterministic)
    (hstarts : b.Starts fun c => p c = false) : Deterministic (.seq (.star (.one p)) b) := by
  -- where one run is longer, its next character is both of the kind and not
  have hrun : ∀ (u u' v v' : List Char), (∀ c ∈ u, p c = true) → (∀ c ∈ u', p c = true) →
      (∃ c w, v = c :: w ∧ p c = false) → (∃ c w, v' = c :: w ∧ p c = false) → u ++ v = u' ++ v' →
      u = u' := by
    rintro u u' _ _ hu hu' ⟨c, w, rfl, hc⟩ ⟨c', w', rfl, hc'⟩ htext
    rcases List.append_eq_append_iff.1 htext with ⟨x, rfl, hx⟩ | ⟨x, rfl, hx⟩
    · cases x with
      | nil => simp
      | cons k x =>
        obtain ⟨rfl, -⟩ := List.cons.inj hx
        simp [hu' c (by simp)] at hc
    · cases x with
      | nil => simp
      | cons k x =>
        obtain ⟨rfl, -⟩ := List.cons.inj hx
        simp [hu c' (by simp)] at hc'
  intro s t s' t' hs hs' htext
  obtain ⟨u, v, rfl, hu, hv⟩ := matches_seq_iff.1 hs
  obtain ⟨u', v', rfl, hu', hv'⟩ := matches_seq_iff.1 hs'
  rw [List.append_assoc, List.append_assoc] at htext
  obtain ⟨c, w, rfl, hc⟩ := hstarts v hv
  obtain ⟨c', w', rfl, hc'⟩ := hstarts v' hv'
  obtain rfl := hrun u u' _ _ (matches_star_one_iff.1 hu) (matches_star_one_iff.1 hu')
    ⟨c, w ++ t, rfl, hc⟩ ⟨c', w' ++ t', rfl, hc'⟩ htext
  rw [hb _ t _ t' hv hv' (List.append_cancel_left htext)]

theorem Deterministic.plus_one_seq {p : Char → Bool} {b : Regex} (hb : b.Deterministic)
    (hstarts : b.Starts fun c => p c = false) : Deterministic (.seq (plus (.one p)) b) :=
  ((deterministic_one p).seq (hb.star_one_seq hstarts)).congr fun _ => matches_seq_assoc

/-- An alternative is decided by the first character where its branches start differently. -/
theorem Deterministic.alt {P Q : Char → Prop} {a b : Regex} (ha : a.Deterministic)
    (hb : b.Deterministic) (hP : a.Starts P) (hQ : b.Starts Q) (hdisjoint : ∀ c, P c → ¬ Q c) :
    Deterministic (.alt a b) := by
  have hdiffer : ∀ s t s' t', Matches a s → Matches b s' → s ++ t ≠ s' ++ t' := by
    intro s t s' t' hs hs' htext
    obtain ⟨c, u, rfl, hc⟩ := hP s hs
    obtain ⟨c', u', rfl, hc'⟩ := hQ s' hs'
    obtain ⟨rfl, -⟩ := List.cons.inj htext
    exact hdisjoint c hc hc'
  intro s t s' t' hs hs' htext
  rcases matches_alt_iff.1 hs with hs | hs
  · rcases matches_alt_iff.1 hs' with hs' | hs'
    · exact ha s t s' t' hs hs' htext
    · exact absurd htext (hdiffer s t s' t' hs hs')
  · rcases matches_alt_iff.1 hs' with hs' | hs'
    · exact absurd htext.symm (hdiffer s' t' s t hs' hs)
    · exact hb s t s' t' hs hs' htext

/-- What is left out or not in front of an expression is decided by the first character. -/
theorem Deterministic.opt_seq {P Q : Char → Prop} {a b : Regex} (ha : Deterministic (.seq a b))
    (hb : b.Deterministic) (hP : a.Starts P) (hQ : b.Starts Q) (hdisjoint : ∀ c, P c → ¬ Q c) :
    Deterministic (.seq (opt a) b) := by
  refine Deterministic.congr (b := .alt (.seq a b) b) ?_ fun s => ?_
  · exact ha.alt hb (hP.seq b) hQ hdisjoint
  · simp only [matches_alt_iff, matches_seq_iff, matches_opt_iff]
    constructor
    · rintro ⟨u, v, rfl, hu | rfl, hv⟩
      · exact Or.inl ⟨u, v, rfl, hu, hv⟩
      · exact Or.inr hv
    · rintro (⟨u, v, rfl, hu, hv⟩ | hs)
      · exact ⟨u, v, rfl, Or.inl hu, hv⟩
      · exact ⟨[], s, rfl, Or.inr rfl, hs⟩

theorem Deterministic.falls_seq {a b : Regex} (ha : a.Deterministic) (hr : a.EdgeFree)
    (hb : b.Falls) : Falls (.seq a b) := by
  refine (ha.falls hr).seq hb fun before rest n hn m hm hlt => ?_
  obtain ⟨s, t, rfl, rfl, hs⟩ := (mem_lengths_iff hr).1 hn
  obtain ⟨s', t', htext, rfl, hs'⟩ := (mem_lengths_iff hr).1 hm
  rw [ha s t s' t' hs hs' htext] at hlt
  exact absurd hlt (Nat.lt_irrefl _)

/-- More characters of a kind are preferred. -/
theorem falls_star_one (p : Char → Bool) : Falls (.star (.one p)) :=
  falls_star fun before rest => orderly_of_length_le_one fun n => by
    rw [rounds, List.length_map]
    exact (deterministic_one p).length_lengths_le trivial _ _

end SiteFolders.Regex
