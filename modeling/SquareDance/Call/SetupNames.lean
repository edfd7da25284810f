/-
# The setups that definitions name

A definition says in which setup its people start and in which they end, by
number.  `StartSetup.table` lists the starting setups with the number of entries
that a definition gives for each, `EndSetup.table` the ending ones.  A setup that
starts with "p" is the one without it, turned.  An empty name marks a number that
is no longer in use: it stays taken, but no word names it.
-/

import SquareDance.Vocabulary

namespace SquareDance

namespace StartSetup

/-- The starting setups and their numbers of entries. -/
def table : List (String × Nat) :=
  [("nothing", 0), ("1x1", 1), ("1x2", 2), ("2x1", 2), ("1x3", 3), ("3x1", 3), ("2x2", 4),
   ("dmd", 4), ("pmd", 4), ("star", 4), ("trngl", 6), ("ptrngl", 6), ("trngl4", 8),
   ("ptrngl4", 8), ("beehive", 10), ("pbeehive", 10), ("vee", 10), ("pvee", 10), ("trngl8", 16),
   ("ptrngl8", 16), ("linebox", 8), ("plinebox", 8), ("linejbox", 8), ("plinejbox", 8),
   ("linevbox", 8), ("plinevbox", 8), ("lineybox", 8), ("plineybox", 8), ("linefbox", 8),
   ("plinefbox", 8), ("bone6", 6), ("pbone6", 6), ("short6", 6), ("pshort6", 6), ("1x2dmd", 6),
   ("p1x2dmd", 6), ("2x1dmd", 6), ("p2x1dmd", 6), ("wingedstar6", 6), ("pwingedstar6", 6),
   ("qtag", 8), ("pqtag", 8), ("bone", 8), ("pbone", 8), ("rigger", 8), ("prigger", 8),
   ("3x3", 9), ("2stars", 8), ("p2stars", 8), ("spindle", 8), ("pspindle", 8), ("hrglass", 8),
   ("phrglass", 8), ("dhrglass", 8), ("pdhrglass", 8), ("crosswave", 8), ("pcrosswave", 8),
   ("1x4", 4), ("4x1", 4), ("1x8", 8), ("8x1", 8), ("2x4", 8), ("4x2", 8), ("2x3", 6),
   ("3x2", 6), ("2x5", 10), ("5x2", 10), ("d2x5", 10), ("d5x2", 10), ("wqtag", 10),
   ("pwqtag", 10), ("deep2x1dmd", 10), ("pdeep2x1dmd", 10), ("whrglass", 10), ("pwhrglass", 10),
   ("1x5", 5), ("5x1", 5), ("1x6", 6), ("6x1", 6), ("3x4", 12), ("4x3", 12), ("2x6", 12),
   ("6x2", 12), ("2x7", 14), ("7x2", 14), ("d2x7", 14), ("d7x2", 14), ("2x9", 18), ("9x2", 18),
   ("d3x4", 12), ("d4x3", 12), ("d4x5", 20), ("d5x4", 20), ("spindle12", 10), ("pspindle12", 10),
   ("2x8", 16), ("8x2", 16), ("4x4", 16), ("1x10", 10), ("10x1", 10), ("1x12", 12), ("12x1", 12),
   ("1x14", 14), ("14x1", 14), ("1x16", 16), ("16x1", 16), ("c1phan", 16), ("galaxy", 8),
   ("3x6", 18), ("6x3", 18), ("3x8", 24), ("8x3", 24), ("4x5", 20), ("5x4", 20), ("4x6", 24),
   ("6x4", 24), ("2x10", 20), ("10x2", 20), ("2x12", 24), ("12x2", 24), ("deepqtg", 12),
   ("pdeepqtg", 12), ("deepbiqtg", 16), ("pdeepbigqtg", 16), ("widerigger", 12),
   ("pwiderigger", 12), ("rigger12", 12), ("prigger12", 12), ("deepxwv", 12), ("pdeepxwv", 12),
   ("3oqtg", 20), ("p3oqtg", 20), ("thar", 8), ("alamo", 8), ("ptpd", 8), ("pptpd", 8),
   ("1x3dmd", 8), ("p1x3dmd", 8), ("3x1dmd", 8), ("p3x1dmd", 8), ("3dmd", 12), ("p3dmd", 12),
   ("4dmd", 16), ("p4dmd", 16), ("3ptpd", 12), ("p3ptpd", 12), ("4ptpd", 16), ("p4ptpd", 16),
   ("hqtag", 16), ("phqtag", 16), ("hsqtag", 12), ("phsqtag", 12), ("wingedstar", 8),
   ("pwingedstar", 8), ("3x23", 8), ("p3x23", 8), ("3x43", 10), ("p3x43", 10), ("3x223", 10),
   ("p3x223", 10), ("5x25", 12), ("p5x25", 12), ("5x45", 14), ("p5x45", 14), ("5h45", 15),
   ("p5h45", 15), ("2x3232", 12), ("p2x3232", 12), ("3mdmd", 12), ("p3mdmd", 12), ("3mptpd", 12),
   ("p3mptpd", 12), ("4mdmd", 16), ("p4mdmd", 16), ("4mptpd", 16), ("p4mptpd", 16),
   ("1x4dmd", 10), ("p1x4dmd", 10), ("bigh", 12), ("pbigh", 12), ("bigx", 12), ("pbigx", 12),
   ("bigbigh", 16), ("pbigbigh", 16), ("bigbigx", 16), ("pbigbigx", 16), ("bigrig", 12),
   ("pbigrig", 12), ("bighrgl", 12), ("pbighrgl", 12), ("bigdhrgl", 12), ("pbigdhrgl", 12),
   ("bigbone", 12), ("pbigbone", 12), ("dblbone6", 12), ("pdblbone6", 12), ("bigdmd", 12),
   ("pbigdmd", 12), ("bigptpd", 12), ("pbigptpd", 12), ("5x1dmd", 12), ("p5x1dmd", 12),
   ("1x5dmd", 12), ("p1x5dmd", 12), ("big3dmd", 18), ("pbig3dmd", 18), ("big4dmd", 24),
   ("pbig4dmd", 24), ("dblxwave", 16), ("pdblxwave", 16), ("dblspindle", 16),
   ("pdblspindle", 16), ("dblbone", 16), ("pdblbone", 16), ("dblrig", 16), ("pdblrig", 16)]

/-- The number of a starting setup. -/
def index? (word : String) : Option Nat := table.findIdx? (·.1 == word)

/-- How many entries a definition gives for a starting setup. -/
def entryCount? (index : Nat) : Option Nat := table[index]?.map (·.2)

end StartSetup

namespace EndSetup

/-- The ending setups. -/
def table : Vocabulary :=
  ["nothing", "1x1", "1x2", "1x3", "2x2", "1x4", "dmd", "star", "trngl", "trngl4", "beehive",
   "vee", "bone6", "short6", "1x5", "1x6", "2x3", "1x2dmd", "2x1dmd", "wingedstar6", "1x3p1dmd",
   "3p1x1dmd", "qtag", "bone", "1x8", "littlestars", "2stars", "1x3dmd", "3x1dmd", "spindle",
   "hrglass", "dhrglass", "hyperglass", "crosswave", "2x4", "2x5", "d2x5", "", "", "", "", "",
   "", "", "", "", "", "pgdmdcw", "pgdmdccw", "1x4dmd", "wqtag", "deep2x1dmd", "whrglass",
   "rigger", "3x3", "3x4", "2x6", "2x7", "d2x5", "2x9", "d3x4", "d4x5", "spindle12", "", "1p5x4",
   "", "", "", "", "2x8", "4x4", "1x10", "1x12", "1x14", "1x16", "c1phan", "bigblob", "ptpd",
   "3dmd", "4dmd", "3ptpd", "4ptpd", "trngl8", "4p2x1dmd", "plinepdmd", "plinedmd", "linepdmd",
   "linedmd", "linebox", "linejbox", "linevbox", "lineybox", "linefbox", "dbltrgngl4", "boxdmd",
   "boxpdmd", "dmdpdmd", "hsqtag", "dmdlndmd", "hqtag", "wingedstar", "wingedstar12",
   "wingedstar16", "barredstar", "barredstar12", "barredstar16", "galaxy", "bigh", "bigx", "3x6",
   "3x8", "4x5", "4x6", "2x10", "2x12", "deepqtg", "deepbigqtg", "widerigger", "rigger12",
   "deepxwv", "3oqtg", "thar", "alamo", "", "", "", "", "", "", "", "", "x1x8", "", "", "", "",
   "", "", "", "", "3x23", "3x43", "3x223", "5x25", "5x45", "5h45", "2x3232", "3mdmd", "3mptpd",
   "4mdmd", "4mptpd", "bigbigh", "bigbigx", "bigrig", "bighrgl", "bigdhrgl", "bigbone",
   "dblbone6", "bigdmd", "bigptpd", "5x1dmd", "1x5dmd", "big3dmd", "big4dmd", "dblxwave",
   "dblspindle", "dblbone", "dblrig", "", "normal_concentric"]

/-- The number of an ending setup. -/
def index? (word : String) : Option Nat := table.index? word

/-- A number of the table, in use or not. -/
def isIndex (index : Nat) : Bool := index < table.length

/-- The ending setup in which centers and ends stand in setups of their own. -/
def concentricIndex : Nat := 169

/-- The position is that of the concentric setup. -/
theorem concentricIndex_eq : table[concentricIndex]? = some "normal_concentric" := rfl

end EndSetup
end SquareDance
