import Mathlib.Data.List.Basic

namespace Tdb.Library

-- The tables of the Unicode character database that lower-casing consults.
structure CaseTables where
  lower : Char → List Char
  cased : Char → Bool
  caseIgnorable : Char → Bool

namespace CaseTables

variable (tables : CaseTables)

def caseIgnorableThenCased (chars : List Char) : Bool :=
  match chars.dropWhile tables.caseIgnorable with
  | c :: _ => tables.cased c
  | [] => false

-- Σ becomes ς at the end of a word and σ elsewhere (the Final_Sigma condition).
def lowerSigma (seen rest : List Char) : Char :=
  if tables.caseIgnorableThenCased seen && !tables.caseIgnorableThenCased rest then 'ς' else 'σ'

-- `seen` holds the characters before, the last one first.
def lowerFrom (seen : List Char) : List Char → List Char
  | [] => []
  | c :: rest =>
      (if c = 'Σ' then [tables.lowerSigma seen rest] else tables.lower c) ++
        lowerFrom (c :: seen) rest

-- `str::to_lowercase`, and `toLowerCase` of JavaScript.
def toLowercase (text : String) : String :=
  String.ofList (tables.lowerFrom [] text.toList)

@[simp] theorem toLowercase_empty : tables.toLowercase "" = "" := rfl

end CaseTables

-- The part of the tables that is about ASCII.
def CaseTables.ascii : CaseTables where
  lower c := [c.toLower]
  cased c := c.isAlpha
  caseIgnorable c := c = '\'' || c = '.' || c = ':' || c = '^'

end Tdb.Library
