/-! Accents written as a mark and a letter. -/
namespace Quire.Accent

/-- Rows of a mark, a letter, and the letter with the mark in lower and in upper case. -/
def table : List (Char × Char × Char × Char) :=
  [('\'', 'a', 'á', 'Á'), ('\'', 'e', 'é', 'É'), ('\'', 'i', 'í', 'Í'), ('\'', 'o', 'ó', 'Ó'),
   ('\'', 'u', 'ú', 'Ú'), ('\'', 'y', 'ý', 'Ý'), ('\'', 'c', 'ć', 'Ć'), ('\'', 'n', 'ń', 'Ń'),
   ('"', 'a', 'ä', 'Ä'), ('"', 'e', 'ë', 'Ë'), ('"', 'i', 'ï', 'Ï'), ('"', 'o', 'ö', 'Ö'),
   ('"', 'u', 'ü', 'Ü'), ('"', 'y', 'ÿ', 'Ÿ'),
   ('\x60', 'a', 'à', 'À'), ('\x60', 'e', 'è', 'È'), ('\x60', 'i', 'ì', 'Ì'),
   ('\x60', 'o', 'ò', 'Ò'), ('\x60', 'u', 'ù', 'Ù'),
   ('=', 'a', 'ā', 'Ā'), ('=', 'e', 'ē', 'Ē'), ('=', 'i', 'ī', 'Ī'), ('=', 'o', 'ō', 'Ō'),
   ('=', 'u', 'ū', 'Ū'),
   ('~', 'a', 'ã', 'Ã'), ('~', 'n', 'ñ', 'Ñ'), ('~', 'o', 'õ', 'Õ')]

def compose? (mark base : Char) : Option Char :=
  (table.find? fun (m, b, _) => m == mark && b == base.toLower).map fun (_, _, lower, upper) =>
    if base.isUpper then upper else lower

def braced? (body : List Char) : Option Char :=
  if body = ['\\', 'i'] then some 'i' else
    match body with
    | [c] => some c
    | _ => none

/-- The letter after an accent mark, with the number of characters it takes: alone in braces, as
a dotless i that no letter follows, or bare. -/
def argument? (cs : List Char) : Option (Char × Nat) :=
  match cs with
  | '\x7b' :: rest =>
    let body := rest.takeWhile (· != '\x7d')
    if body.length < rest.length then (braced? body).map (·, body.length + 2) else none
  | '\\' :: 'i' :: rest => if (rest.head?.map Char.isAlpha).getD false then none else some ('i', 2)
  | c :: _ => some (c, 1)
  | [] => none

def decode? : List Char → Option (Char × Nat)
  | [] => none
  | mark :: rest => do
    let (base, used) ← argument? rest
    let c ← compose? mark base
    some (c, used + 1)

end Quire.Accent
