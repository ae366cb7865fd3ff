import SiteFolders.Reference.Pass
import SiteFolders.Regex.Parser

/-!
# Written forms of passes

A pass is written as an expression by filling its template in for a file name: first the expression
for leading segments and then the name, escaped, in the places that the template has for them
(`Pass.source`). The expression is read with the flags of the pass (`Pass.read`).
-/

namespace SiteFolders.Reference

open Regex

/-- The expression for leading segments as it is written. -/
def leadSource : List Char := "(?:\\./?|\\.\\./)*".toList

/-- Puts `new` in the place of every `marker`, after `skip` characters that are left out. What is
put in is not searched again. -/
def fill (marker new : List Char) : (skip : Nat) → List Char → List Char
  | _, [] => []
  | skip + 1, _ :: rest => fill marker new skip rest
  | 0, c :: rest =>
    if marker.isPrefixOf (c :: rest) then new ++ fill marker new (marker.length - 1) rest
    else c :: fill marker new 0 rest

/-- The place for the leading segments in a template. -/
def leadMarker : List Char := '\x7b' :: "lead\x7d".toList

/-- The place for the file name in a template. -/
def nameMarker : List Char := '\x7b' :: "name\x7d".toList

/-- The written form of a pass for a file name. -/
def Pass.source (pass : Pass) (name : List Char) : List Char :=
  fill nameMarker (escaped name) 0 (fill leadMarker leadSource 0 pass.template.toList)

/-- How a pass has its written form read. -/
def Pass.flags (pass : Pass) : Flags := { ignoreCase := pass.ignoreCase }

/-- Reads an expression as a pass does, the limit on its size aside. -/
def Pass.read (pass : Pass) (source : List Char) : Except Fault Part :=
  Progress.read (source.length + 1) { flags := pass.flags } source

end SiteFolders.Reference
