import SiteFolders.Reference.Pass

/-!
# Replacing mentions

A text is cut from left to right into mentions and characters that stand between them
(`cut`), and replacing is writing each mention anew and each character as it was. Cutting loses
nothing: the pieces put together are the text (`text_cut`).
-/

namespace SiteFolders.Reference

/-- A part of a text: a mention together with its characters, or a single other character. -/
inductive Piece where
  | kept (c : Char)
  | mention (hit : Hit) (text : List Char)

/-- The characters of a piece. -/
def Piece.text : Piece → List Char
  | .kept c => [c]
  | .mention _ text => text

/-- Cuts a text into mentions and other characters. A mention takes at least one character. -/
def cut (find : List Char → Option Hit) : List Char → List Piece
  | [] => []
  | c :: rest =>
    match find (c :: rest) with
    | none => .kept c :: cut find rest
    | some hit =>
      .mention hit (c :: rest.take (hit.length - 1)) :: cut find (rest.drop (hit.length - 1))
termination_by text => text.length
decreasing_by
  · simp
  · simp only [List.length_drop, List.length_cons]
    omega

/-- The pieces of a text put together are the text. -/
theorem text_cut (find : List Char → Option Hit) (text : List Char) :
    (cut find text).flatMap Piece.text = text := by
  fun_induction cut find text with
  | case1 => rfl
  | case2 c rest _ ih => simp [Piece.text, ih]
  | case3 c rest hit _ ih => simp [Piece.text, ih, List.take_append_drop]

/-- A mention written anew. -/
def Style.render (style : Style) (hit : Hit) (reference : List Char) : List Char :=
  match style with
  | .delimited => hit.opening ++ reference ++ hit.closing
  | .call => hit.opening ++ ['(', '"'] ++ reference ++ ['"', ')']
  | .statement => hit.opening ++ [' ', '"'] ++ reference ++ ['"']

/-- A piece with its mention written anew. -/
def Piece.write (style : Style) (reference : List Char) : Piece → List Char
  | .kept c => [c]
  | .mention hit _ => style.render hit reference

/-- True of mentions. -/
def Piece.isMention : Piece → Bool
  | .kept _ => false
  | .mention _ _ => true

/-- The text with every mention of `name` that the pass finds written anew; `none` if there is
no mention. -/
def Pass.replace? (pass : Pass) (name reference : List Char) (text : List Char) :
    Option (List Char) :=
  let pieces := cut (pass.mention? name) text
  if pieces.any Piece.isMention then some (pieces.flatMap (Piece.write pass.style reference))
  else none

/-! ## Listing mentions -/

/-- A mention and where it stands, counted in UTF-8 bytes. -/
structure Occurrence where
  start : Nat
  stop : Nat
  hit : Hit

/-- The length of a text in UTF-8 bytes. -/
def byteLength (text : List Char) : Nat := text.foldr (fun c n => c.utf8Size + n) 0

/-- The mentions among pieces that start at an offset. -/
def occurrencesFrom : Nat → List Piece → List Occurrence
  | _, [] => []
  | offset, piece :: rest =>
    let stop := offset + byteLength piece.text
    match piece with
    | .kept _ => occurrencesFrom stop rest
    | .mention hit _ => ⟨offset, stop, hit⟩ :: occurrencesFrom stop rest

/-- All mentions of `name` in a text from left to right, whatever follows them. -/
def Pass.occurrences (pass : Pass) (name : List Char) (text : List Char) : List Occurrence :=
  occurrencesFrom 0 (cut (pass.firstHit? name) text)

end SiteFolders.Reference
