import Mathlib.Data.List.Induction
import SiteFolders.Proofs.Regex.Preference

/-!
# Equivalent expressions

Two expressions are equivalent if they list the same lengths in the same order at every place
(`Same`). Sequences may be nested as one likes and the empty expression may be left out
(`same_seq_assoc`, `same_empty_seq`, `same_seq_empty`), so an expression is its factors one after
another (`same_factors`), and two expressions with the same factors are equivalent
(`same_of_factors_eq`).
-/

namespace SiteFolders.Regex

/-! ## Each number at its first place -/

theorem distinct_append_singleton (ns : List Nat) (n : Nat) :
    distinct (ns ++ [n]) = if n ∈ ns then distinct ns else distinct ns ++ [n] := by
  have hmem := mem_foldl_distinct ns [] n
  simp only [List.not_mem_nil, false_or] at hmem
  simp only [distinct, List.foldl_append, List.foldl_cons, List.foldl_nil, List.contains_iff_mem] at hmem ⊢
  split
  · next h => rw [if_pos (hmem.1 h)]
  · next h => rw [if_neg fun hn => h (hmem.2 hn), List.reverse_cons]

theorem distinct_append_of_subset {ns ms : List Nat} (h : ∀ m ∈ ms, m ∈ ns) :
    distinct (ns ++ ms) = distinct ns := by
  induction ms using List.reverseRecOn with
  | nil => rw [List.append_nil]
  | append_singleton ms m ih =>
    have hm : m ∈ ns ++ ms := List.mem_append_left _ (h m (by simp))
    rw [← List.append_assoc, distinct_append_singleton, if_pos hm]
    exact ih fun k hk => h k (List.mem_append_left _ hk)

theorem distinct_append_congr {ns ns' ms : List Nat} (h : distinct ns = distinct ns') :
    distinct (ns ++ ms) = distinct (ns' ++ ms) := by
  have h := congrArg List.reverse h
  simp only [distinct, List.reverse_reverse] at h
  simp only [distinct, List.foldl_append, h]

theorem distinct_append_distinct (ns ms : List Nat) :
    distinct (ns ++ distinct ms) = distinct (ns ++ ms) := by
  induction ms using List.reverseRecOn with
  | nil => rfl
  | append_singleton ms m ih =>
    have hmem : m ∈ ns ++ distinct ms ↔ m ∈ ns ++ ms := by
      simp only [List.mem_append, mem_distinct]
    rw [distinct_append_singleton, ← List.append_assoc ns ms, distinct_append_singleton]
    split
    · next hm => rw [ih, if_pos (List.mem_append_right _ hm)]
    · rw [← List.append_assoc, distinct_append_singleton, ih, ite_congr (propext hmem) (fun _ => rfl)
        (fun _ => rfl)]

theorem distinct_flatMap_distinct (ns : List Nat) (f : Nat → List Nat) :
    distinct (ns.flatMap fun n => distinct (f n)) = distinct (ns.flatMap f) := by
  induction ns using List.reverseRecOn with
  | nil => rfl
  | append_singleton ns n ih =>
    simp only [List.flatMap_append, List.flatMap_cons, List.flatMap_nil, List.append_nil]
    rw [distinct_append_distinct, distinct_append_congr ih]

theorem flatMap_distinct (ns : List Nat) (f : Nat → List Nat) :
    distinct ((distinct ns).flatMap f) = distinct (ns.flatMap f) := by
  induction ns using List.reverseRecOn with
  | nil => rfl
  | append_singleton ns n ih =>
    rw [distinct_append_singleton, List.flatMap_append, List.flatMap_singleton]
    split
    · next hn =>
      have hsubset : ∀ m ∈ f n, m ∈ ns.flatMap f := fun m hm => List.mem_flatMap.2 ⟨n, hn, hm⟩
      rw [ih, distinct_append_of_subset hsubset]
    · rw [List.flatMap_append, List.flatMap_singleton, distinct_append_congr ih]

theorem map_add_distinct (k : Nat) (ns : List Nat) :
    (distinct ns).map (k + ·) = distinct (ns.map (k + ·)) := by
  induction ns using List.reverseRecOn with
  | nil => rfl
  | append_singleton ns n ih =>
    have hmem : k + n ∈ ns.map (k + ·) ↔ n ∈ ns := by simp
    rw [List.map_append, List.map_singleton, distinct_append_singleton, distinct_append_singleton,
      ← ih, ite_congr (propext hmem) (fun _ => rfl) (fun _ => rfl)]
    split
    · rfl
    · rw [List.map_append, List.map_singleton]

theorem head?_distinct (ns : List Nat) : (distinct ns).head? = ns.head? := by
  induction ns using List.reverseRecOn with
  | nil => rfl
  | append_singleton ns n ih =>
    rw [distinct_append_singleton]
    split
    · next hn => rw [ih, List.head?_append_of_ne_nil _ (List.ne_nil_of_mem hn)]
    · rw [List.head?_append, List.head?_append, ih]

/-! ## Laws of sequences -/

/-- Expressions that list the same lengths in the same order at every place. -/
def Same (a b : Regex) : Prop := ∀ before rest, a.lengths before rest = b.lengths before rest

variable {a b c d : Regex}

theorem Same.refl (a : Regex) : Same a a := fun _ _ => rfl

theorem Same.symm (h : Same a b) : Same b a := fun before rest => (h before rest).symm

theorem Same.trans (h : Same a b) (h' : Same b c) : Same a c :=
  fun before rest => (h before rest).trans (h' before rest)

theorem Same.seq (hab : Same a b) (hcd : Same c d) : Same (.seq a c) (.seq b d) := by
  intro before rest
  simp only [lengths, hab before rest, hcd (charBefore before rest _)]

theorem Same.alt (hab : Same a b) (hcd : Same c d) : Same (.alt a c) (.alt b d) := by
  intro before rest
  simp only [lengths, hab before rest, hcd before rest]

theorem Same.star (hab : Same a b) : Same (.star a) (.star b) := by
  intro before rest
  simp only [lengths, hab (charBefore before rest _)]

theorem same_empty_seq (a : Regex) : Same (.seq .empty a) a := by
  intro before rest
  simp only [lengths, List.flatMap_singleton, charBefore, List.drop_zero, Nat.zero_add, List.map_id']
  exact distinct_of_nodup (nodup_lengths a before rest)

theorem same_seq_empty (a : Regex) : Same (.seq a .empty) a := by
  intro before rest
  simp only [lengths, List.map_singleton, Nat.add_zero, List.flatMap_singleton']
  exact distinct_of_nodup (nodup_lengths a before rest)

/-- The character in front of a place is the same whether one goes there at once or in two steps. -/
theorem charBefore_charBefore (before : Option Char) (rest : List Char) (n k : Nat) :
    charBefore (charBefore before rest n) (rest.drop n) k = charBefore before rest (n + k) := by
  cases k with
  | zero => rfl
  | succ k =>
    rw [← Nat.add_assoc]
    simp only [charBefore, List.getElem?_drop]

theorem same_seq_assoc (a b c : Regex) : Same (.seq (.seq a b) c) (.seq a (.seq b c)) := by
  intro before rest
  simp only [lengths, flatMap_distinct, map_add_distinct, distinct_flatMap_distinct, List.flatMap_assoc,
    List.map_flatMap, List.flatMap_map, List.map_map, charBefore_charBefore, List.drop_drop,
    Function.comp_def, Nat.add_assoc]

/-- Without zero-width tests, the character in front of a place does not matter. -/
theorem lengths_eq_none : ∀ {r : Regex}, r.EdgeFree → ∀ (before : Option Char) (rest : List Char),
    r.lengths before rest = r.lengths none rest
  | .empty, _, _, _ => rfl
  | .one _, _, _, [] => rfl
  | .one _, _, _, _ :: _ => rfl
  | .seq a b, h, before, rest => by
    simp only [lengths]
    rw [lengths_eq_none h.1 before]
    congr 1
    refine List.flatMap_congr fun n _ => ?_
    rw [lengths_eq_none h.2 (charBefore before rest n), lengths_eq_none h.2 (charBefore none rest n)]
  | .alt a b, h, before, rest => by
    simp only [lengths]
    rw [lengths_eq_none h.1 before, lengths_eq_none h.2 before]
  | .star a, h, before, rest => by
    simp only [lengths]
    congr 1
    funext n
    rw [lengths_eq_none (r := a) h (charBefore before rest n),
      lengths_eq_none (r := a) h (charBefore none rest n)]

/-! ## Factors -/

/-- What an expression puts one after another, down to single characters and whole choices and
repetitions, with the same done inside of these. -/
def factors : Regex → List Regex
  | .empty => []
  | .one p => [.one p]
  | .seq a b => a.factors ++ b.factors
  | .alt a b => [.alt (concat a.factors) (concat b.factors)]
  | .star a => [.star (concat a.factors)]
  | .edge p => [.edge p]

theorem same_foldl_seq : ∀ (rs : List Regex) (r : Regex),
    Same (rs.foldl .seq r) (.seq r (concat rs))
  | [], r => (same_seq_empty r).symm
  | s :: rs, r => by
    rw [List.foldl_cons]
    have hinner : Same (.seq r (.seq s (concat rs))) (.seq r (concat (s :: rs))) :=
      (Same.refl r).seq (same_foldl_seq rs s).symm
    exact ((same_foldl_seq rs (.seq r s)).trans (same_seq_assoc r s (concat rs))).trans hinner

theorem same_concat_cons (r : Regex) (rs : List Regex) :
    Same (concat (r :: rs)) (.seq r (concat rs)) := same_foldl_seq rs r

theorem same_concat_append : ∀ rs ss : List Regex,
    Same (concat (rs ++ ss)) (.seq (concat rs) (concat ss))
  | [], ss => (same_empty_seq _).symm
  | r :: rs, ss => by
    have hrest := (Same.refl r).seq (same_concat_append rs ss)
    have hfront := (same_concat_cons r rs).seq (Same.refl (concat ss))
    exact (same_concat_cons r (rs ++ ss)).trans
      (hrest.trans ((same_seq_assoc r _ _).symm.trans hfront.symm))

/-- An expression is its factors one after another. -/
theorem same_factors : ∀ r : Regex, Same (concat r.factors) r
  | .empty => .refl _
  | .one _ => .refl _
  | .edge _ => .refl _
  | .seq a b => (same_concat_append _ _).trans ((same_factors a).seq (same_factors b))
  | .alt a b => (same_factors a).alt (same_factors b)
  | .star a => (same_factors a).star

theorem same_of_factors_eq (h : a.factors = b.factors) : Same a b :=
  (same_factors a).symm.trans (h ▸ same_factors b)

@[simp] theorem factors_concat (rs : List Regex) : (concat rs).factors = rs.flatMap factors := by
  have hfold : ∀ (rs : List Regex) (r : Regex),
      (rs.foldl .seq r).factors = r.factors ++ rs.flatMap factors := by
    intro rs
    induction rs with
    | nil => simp
    | cons s rs ih => simp [ih, factors]
  cases rs with
  | nil => rfl
  | cons r rs => rw [concat, hfold, List.flatMap_cons]

@[simp] theorem factors_literal (same : Char → Char → Bool) (w : List Char) :
    (literal same w).factors = w.map fun c => .one (same c) := by
  induction w with
  | nil => rfl
  | cons c w ih => simp [literal, factors, ih]

end SiteFolders.Regex
