import SiteFolders.Proofs.Path.Descent
import SiteFolders.Proofs.Regex.Language

/-!
# Skipped directories

The wildcard for what lies in directories of a name accepts the paths that have the name as
a component before the last (`accepts_insideOf`), whatever characters the name holds. So matching
drops a place if a directory on the way to it has a skipped name, and the place itself may bear the
name (`isDropped_inside_iff`).
-/

namespace SiteFolders

open Regex

namespace Wildcard

/-! ## Reading the wildcard -/

/-- The token of a character that is written so that it matches only itself. -/
def literalToken (c : Char) : Token :=
  if c = '?' ∨ c = '*' ∨ c = '[' ∨ c = ']' then .among [⟨c, c⟩] else .char c

theorem readTokens_special {c : Char} (hc : c = '?' ∨ c = '*' ∨ c = '[' ∨ c = ']') (fuel : Nat)
    (before : Option Char) (rest : List Char) :
    readTokens (fuel + 1) before ('[' :: c :: ']' :: rest) =
      (readTokens fuel (some ']') rest).map (.among [⟨c, c⟩] :: ·) := by
  have hset : readSet? (c :: ']' :: rest) = some (.among [⟨c, c⟩], rest) := by
    rcases hc with rfl | rfl | rfl | rfl <;> simp [readSet?, spans]
  rw [readTokens]
  · simp only [hset, bind, Option.bind_some]
    cases readTokens fuel (some ']') rest <;> rfl

theorem readTokens_char {c : Char} (hc : ¬ (c = '?' ∨ c = '*' ∨ c = '[' ∨ c = ']')) (fuel : Nat)
    (before : Option Char) (rest : List Char) :
    readTokens (fuel + 1) before (c :: rest) =
      (readTokens fuel (some c) rest).map (.char c :: ·) := by
  simp only [not_or] at hc
  rw [readTokens]
  all_goals simp_all

/-- An escaped text is read as the tokens of its characters. -/
theorem readTokens_escape {rest : List Char} {tokens : List Token}
    (hrest : ∀ fuel before, rest.length < fuel → readTokens fuel before rest = some tokens) :
    ∀ (cs : List Char) (fuel : Nat) (before : Option Char), (escape cs ++ rest).length < fuel →
      readTokens fuel before (escape cs ++ rest) = some (cs.map literalToken ++ tokens)
  | [], fuel, before, hfuel => hrest fuel before hfuel
  | c :: cs, 0, _, hfuel => by simp at hfuel
  | c :: cs, fuel + 1, before, hfuel => by
    have ih := readTokens_escape hrest cs fuel
    by_cases hc : c = '?' ∨ c = '*' ∨ c = '[' ∨ c = ']'
    · have htext : escape (c :: cs) ++ rest = '[' :: c :: ']' :: (escape cs ++ rest) := by
        simp [escape, hc]
      rw [htext] at hfuel ⊢
      simp only [List.length_cons] at hfuel
      rw [readTokens_special hc, ih (some ']') (by omega)]
      simp [literalToken, hc]
    · have htext : escape (c :: cs) ++ rest = c :: (escape cs ++ rest) := by
        simp [escape, hc]
      rw [htext] at hfuel ⊢
      simp only [List.length_cons] at hfuel
      rw [readTokens_char hc, ih (some c) (by omega)]
      simp [literalToken, hc]

end Wildcard

open Wildcard

namespace Listing

theorem insideOf?_eq (name : String) : insideOf? name =
    some ⟨.components :: (name.toList.map literalToken ++ [.char '/', .components])⟩ := by
  have hrest : ∀ fuel before, ['/', '*', '*'].length < fuel →
      readTokens fuel before ['/', '*', '*'] = some [.char '/', .components] := by
    intro fuel before hfuel
    obtain ⟨k, rfl⟩ := Nat.exists_eq_add_of_lt hfuel
    have hslash : ¬ ('/' = '?' ∨ '/' = '*' ∨ '/' = '[' ∨ '/' = ']') := by decide
    have hfuel' : ['/', '*', '*'].length + k + 1 = k + 2 + 1 + 1 := by
      simp only [List.length_cons, List.length_nil]
      omega
    rw [hfuel', readTokens_char hslash]
    simp [readTokens]
  have htext : ("**/" ++ String.ofList (escape name.toList) ++ "/**").toList =
      '*' :: '*' :: '/' :: (escape name.toList ++ ['/', '*', '*']) := by
    simp
  have hread := readTokens_escape hrest name.toList ((escape name.toList).length + 3 + 1 + 1 + 1)
    (some '/') (by simp)
  rw [insideOf?, parse?, htext]
  simp [readTokens, hread]

end Listing

/-! ## What it accepts -/

namespace Wildcard

/-- Any number of characters of any kind. -/
theorem mem_lengths_anything {before : Option Char} {rest : List Char} {n : Nat} :
    n ∈ (Regex.star (.one fun _ => true)).lengths before rest ↔ n ≤ rest.length := by
  have hany : ∀ s : List Char, Matches (.star (.one fun _ => true)) s := by
    intro s
    induction s with
    | nil => exact .done
    | cons c s ih =>
      have hone : Matches (.one fun _ => true) [c] := .one rfl
      exact .round hone ih
  constructor
  · exact le_length_of_mem_lengths _
  · intro hn
    have hfree : (Regex.star (.one fun _ => true)).EdgeFree := trivial
    rw [mem_lengths_iff hfree]
    exact ⟨rest.take n, rest.drop n, (List.take_append_drop n rest).symm,
      List.length_take_of_le hn, hany _⟩

/-- Two stars match nothing, everything that is left, or a text that ends in a slash. -/
theorem mem_lengths_components {before : Option Char} {rest : List Char} {n : Nat} :
    n ∈ (Token.regex true .components).lengths before rest ↔
      n = 0 ∨ n = rest.length ∨ ∃ s t, rest = s ++ '/' :: t ∧ n = s.length + 1 := by
  -- the three branches: up to a slash, everything that is left, nothing at all
  have hslash : n ∈ (Regex.seq (.star (.one fun _ => true)) (.one (· == '/'))).lengths before rest ↔
      ∃ s t, rest = s ++ '/' :: t ∧ n = s.length + 1 := by
    simp only [mem_lengths_seq, mem_lengths_anything, mem_lengths_one, beq_iff_eq]
    constructor
    · rintro ⟨k, hk, l, ⟨c, t, hdrop, rfl, rfl⟩, rfl⟩
      refine ⟨rest.take k, t, ?_, by rw [List.length_take_of_le hk]⟩
      rw [← hdrop, List.take_append_drop]
    · rintro ⟨s, t, rfl, rfl⟩
      exact ⟨s.length, by simp, 1, ⟨'/', t, by simp, rfl, rfl⟩, rfl⟩
  have hend : n ∈ (Regex.seq (.star (.one fun _ => true)) (.edge fun _ after =>
      after.isNone)).lengths before rest ↔ n = rest.length := by
    simp only [mem_lengths_seq, mem_lengths_anything, mem_lengths_edge, List.head?_drop,
      Option.isNone_iff_eq_none, List.getElem?_eq_none_iff]
    constructor
    · rintro ⟨k, hk, l, ⟨rfl, hle⟩, rfl⟩
      omega
    · rintro rfl
      exact ⟨rest.length, le_rfl, 0, ⟨rfl, le_rfl⟩, rfl⟩
  have hnone : n ∈ Regex.empty.lengths before rest ↔ n = 0 := by simp [lengths]
  rw [Token.regex, mem_lengths_alt, mem_lengths_alt, hslash, hend, hnone]
  rw [or_comm (a := n = rest.length)]

theorem regex_literalToken {c : Char} (hc : c ≠ '/') :
    ∃ p : Char → Bool, (literalToken c).regex true = .one p ∧ ∀ d, p d = true ↔ d = c := by
  unfold literalToken
  split
  · refine ⟨_, rfl, fun d => ?_⟩
    simp only [Span.has, List.any_cons, List.any_nil, Bool.or_false, Bool.and_eq_true,
      Bool.not_eq_true', beq_eq_false_iff_ne, decide_eq_true_eq, Bool.true_and]
    constructor
    · rintro ⟨-, hle, hge⟩
      exact Char.le_antisymm hge hle
    · rintro rfl
      exact ⟨hc, Char.le_refl _, Char.le_refl _⟩
  · exact ⟨_, rfl, fun d => by simp⟩

/-- After an expression the tokens of a text match this text. -/
theorem mem_lengths_literal {before : Option Char} {rest : List Char} {n : Nat} :
    ∀ {name : List Char}, '/' ∉ name → ∀ r : Regex,
      (n ∈ ((name.map fun c => (literalToken c).regex true).foldl .seq r).lengths before rest ↔
        ∃ k ∈ r.lengths before rest, n = k + name.length ∧ name <+: rest.drop k)
  | [], _, r => by simp
  | c :: name, hslash, r => by
    simp only [List.mem_cons, not_or] at hslash
    have hc : c ≠ '/' := fun h => hslash.1 h.symm
    rcases regex_literalToken hc with ⟨p, hregex, hp⟩
    rw [List.map_cons, List.foldl_cons, mem_lengths_literal hslash.2, hregex]
    simp only [mem_lengths_seq, mem_lengths_one, hp]
    constructor
    · rintro ⟨k, ⟨j, hj, l, ⟨d, t, hdrop, rfl, rfl⟩, rfl⟩, rfl, hname⟩
      refine ⟨j, hj, by simp only [List.length_cons]; omega, ?_⟩
      rw [← List.drop_drop, hdrop] at hname
      rw [hdrop]
      exact List.prefix_cons_inj d |>.2 hname
    · rintro ⟨j, hj, rfl, t, hname⟩
      refine ⟨j + 1, ⟨j, hj, 1, ⟨c, name ++ t, hname.symm, rfl, rfl⟩, rfl⟩, ?_, ?_⟩
      · simp only [List.length_cons]
        omega
      · rw [← List.drop_drop, ← hname]
        exact List.prefix_append name t

/-- The wildcard accepts a text in which the name and a slash stand at the start or after a slash. -/
theorem accepts_iff {name : String} (hslash : '/' ∉ name.toList) {text : List Char} :
    accepts ⟨.components :: (name.toList.map literalToken ++ [.char '/', .components])⟩ true text =
      true ↔ ∃ s t, text = s ++ (name.toList ++ '/' :: t) ∧ (s = [] ∨ s.getLast? = some '/') := by
  -- only the stars before and behind the name are read as more than themselves
  have hregex : regex true ⟨.components :: (name.toList.map literalToken ++ [.char '/', .components])⟩ =
      .seq (.seq ((name.toList.map fun c => (literalToken c).regex true).foldl .seq
        (Token.regex true .components)) (.one (· == '/'))) (Token.regex true .components) := by
    simp [regex, concat, Token.regex, Function.comp_def]
  rw [accepts, hregex, matchesAll, List.contains_iff_mem]
  simp only [mem_lengths_seq, mem_lengths_literal hslash, mem_lengths_one, beq_iff_eq]
  constructor
  · rintro ⟨m, ⟨n, ⟨k, hk, rfl, hname⟩, l, ⟨c, t, hdrop, rfl, rfl⟩, rfl⟩, -⟩
    obtain ⟨u, hu⟩ := hname
    have ht : u = '/' :: t := by
      rw [← List.drop_drop, ← hu, List.drop_left] at hdrop
      exact hdrop
    rw [ht] at hu
    refine ⟨text.take k, t, by rw [hu, List.take_append_drop], ?_⟩
    -- what the first star has taken stands before the name; it cannot have taken everything, as the
    -- name and a slash are still to come
    rcases mem_lengths_components.1 hk with rfl | rfl | ⟨s, t', rfl, rfl⟩
    · exact Or.inl (List.take_zero)
    · simp at hu
    · right
      have hcut : s ++ '/' :: t' = (s ++ ['/']) ++ t' := by simp
      have hlen : s.length + 1 = (s ++ ['/']).length := by simp
      rw [hcut, hlen, List.take_left]
      simp
  · rintro ⟨s, t, rfl, hs⟩
    -- the first star takes `s`, the last one everything behind the slash
    refine ⟨s.length + name.toList.length + 1, ⟨s.length + name.toList.length, ⟨s.length, ?_, rfl, ?_⟩,
      1, ⟨'/', t, ?_, rfl, rfl⟩, rfl⟩, t.length, ?_, ?_⟩
    · rw [mem_lengths_components]
      rcases hs with rfl | hs
      · exact Or.inl rfl
      · rcases List.getLast?_eq_some_iff.1 hs with ⟨init, rfl⟩
        exact Or.inr (Or.inr ⟨init, name.toList ++ '/' :: t, by simp, by simp⟩)
    · rw [List.drop_left]
      exact List.prefix_append _ _
    · rw [← List.drop_drop, List.drop_left, List.drop_left]
    · rw [mem_lengths_components]
      right; left
      simp only [List.length_drop, List.length_append, List.length_cons]
      omega
    · simp only [List.length_append, List.length_cons]
      omega

end Wildcard

namespace Listing

theorem mem_tail_iff {name : String} {below : Location} :
    name ∈ below.tail ↔ ∃ as bs, below.reverse = as ++ name :: bs ∧ bs ≠ [] := by
  constructor
  · intro h
    cases below with
    | nil => simp at h
    | cons n below =>
      rcases List.append_of_mem h with ⟨a, b, hab⟩
      refine ⟨b.reverse, a.reverse ++ [n], ?_, by simp⟩
      rw [List.tail_cons] at hab
      simp [hab]
  · rintro ⟨as, bs, hrev, hne⟩
    have hbelow : below = bs.reverse ++ name :: as.reverse := by
      rw [← List.reverse_reverse below, hrev]
      simp
    rw [hbelow, List.tail_append_of_ne_nil (by simpa using hne)]
    simp

/-- A path of names is accepted exactly if one of the names before the last is the one that the
wildcard was made for. -/
theorem accepts_inside_iff {name : String} (hname : '/' ∉ name.toList) {below : Location}
    (hbelow : ∀ n ∈ below, IsName n) (hne : below ≠ []) {w : Wildcard} (hw : insideOf? name = some w) :
    w.accepts true (Path.inside below).text.toList = true ↔ name ∈ below.tail := by
  rw [insideOf?_eq, Option.some.injEq] at hw
  rw [← hw, accepts_iff hname, mem_tail_iff]
  have hsegs := Path.segmentsOf_inside hbelow hne
  have hsingle := Path.segmentsOf_of_no_slash hname
  -- a text is cut at its slashes in one way only, so the names of the path stand between them
  constructor
  · rintro ⟨s, t, htext, hs⟩
    have hwhole : (Path.inside below).text =
        String.ofList s ++ (name ++ "/" ++ String.ofList t) := by
      apply String.toList_inj.1
      simp [htext]
    rw [hwhole] at hsegs
    rcases hs with rfl | hs
    · refine ⟨[], Path.segmentsOf (String.ofList t), ?_, Path.segmentsOf_ne_nil _⟩
      rw [← hsegs, String.ofList_nil, String.empty_append, Path.segmentsOf_append_slash, hsingle]
      rfl
    · rcases List.getLast?_eq_some_iff.1 hs with ⟨init, rfl⟩
      refine ⟨Path.segmentsOf (String.ofList init), Path.segmentsOf (String.ofList t), ?_,
        Path.segmentsOf_ne_nil _⟩
      have hslash : String.ofList (init ++ ['/']) = String.ofList init ++ "/" := by
        apply String.toList_inj.1
        simp
      rw [← hsegs, hslash, Path.segmentsOf_append_slash, Path.segmentsOf_append_slash, hsingle]
      rfl
  · rintro ⟨as, bs, hrev, hbs⟩
    have htext := Path.intercalate_segmentsOf (Path.inside below).text
    have hcons : "/".intercalate (name :: bs) = name ++ "/" ++ "/".intercalate bs := by
      rw [String.intercalate_cons_of_ne_nil hbs]
    rw [hsegs, hrev] at htext
    by_cases has : as = []
    · subst has
      rw [List.nil_append, hcons] at htext
      exact ⟨[], ("/".intercalate bs).toList, by simp [← htext], Or.inl rfl⟩
    · rw [String.intercalate_append_of_ne_nil has (by simp), hcons] at htext
      exact ⟨("/".intercalate as).toList ++ ['/'], ("/".intercalate bs).toList, by simp [← htext],
        Or.inr (by simp)⟩

/-- Matching drops what a directory of a skipped name holds. -/
theorem isDropped_inside {skipped : List String} {below : Location} (hbelow : ∀ n ∈ below, IsName n)
    {s : String} (hs : s ∈ skipped) (hmem : s ∈ below.tail) :
    isDropped skipped (Path.inside below) = true := by
  have hname := hbelow s (List.mem_of_mem_tail hmem)
  have hne : below ≠ [] := by
    rintro rfl
    simp at hmem
  rw [isDropped, List.any_eq_true]
  refine ⟨_, List.mem_filterMap.2 ⟨s, hs, insideOf?_eq s⟩, ?_⟩
  exact (accepts_inside_iff hname.no_slash hbelow hne (insideOf?_eq s)).2 hmem

/-- Matching drops what a directory of a skipped name holds, and nothing else. -/
theorem isDropped_inside_iff {skipped : List String} (hskipped : ∀ s ∈ skipped, '/' ∉ s.toList)
    {below : Location} (hbelow : ∀ n ∈ below, IsName n) (hne : below ≠ []) :
    isDropped skipped (Path.inside below) = true ↔ ∃ s ∈ skipped, s ∈ below.tail := by
  constructor
  · rw [isDropped, List.any_eq_true]
    rintro ⟨w, hw, haccepts⟩
    rcases List.mem_filterMap.1 hw with ⟨s, hs, hw⟩
    exact ⟨s, hs, (accepts_inside_iff (hskipped s hs) hbelow hne hw).1 haccepts⟩
  · rintro ⟨s, hs, hmem⟩
    exact isDropped_inside hbelow hs hmem

end Listing

end SiteFolders
