/-
# Designators

A designator says who is to do a call: "the boys", "the lead centers", "the near
line".  `Designator.all` fixes their order.  Those before "the 2x3" may be drawn
at random when a search for a resolve needs one.
-/

namespace SquareDance

/-- How many people an ordinal designator takes. -/
inductive SmallCount where
  | one
  | two
  | three
  | four
  deriving DecidableEq, Inhabited

namespace SmallCount

/-- The count as a number. -/
def toNat : SmallCount → Nat
  | one => 1
  | two => 2
  | three => 3
  | four => 4

/-- The word for the count. -/
def name : SmallCount → String
  | one => "one"
  | two => "two"
  | three => "three"
  | four => "four"

end SmallCount

/-- The end of a row from which an ordinal designator counts. -/
inductive RowEnd where
  | first
  | last
  | leftmost
  | rightmost
  deriving DecidableEq, Inhabited

namespace RowEnd

/-- The word for the end. -/
def name : RowEnd → String
  | first => "first"
  | last => "last"
  | leftmost => "leftmost"
  | rightmost => "rightmost"

/-- First and last count along the facing, leftmost and rightmost across it. -/
def isAlong : RowEnd → Bool
  | first | last => true
  | leftmost | rightmost => false

end RowEnd

/-- A way to cut a 2x4 in two. -/
inductive HalfPart where
  | line
  | column
  | box
  deriving DecidableEq, Inhabited

/-- The word for what the half is of. -/
def HalfPart.name : HalfPart → String
  | line => "line"
  | column => "column"
  | box => "box"

/-- A side of the hall, as the caller sees it. -/
inductive HallSide where
  | near
  | far
  | left
  | right
  deriving DecidableEq, Inhabited

/-- The word for the side. -/
def HallSide.name : HallSide → String
  | near => "near"
  | far => "far"
  | left => "left"
  | right => "right"

/-- A wall of the hall. -/
inductive Wall where
  | front
  | back
  | left
  | right
  deriving DecidableEq, Inhabited

/-- The word for the wall. -/
def Wall.name : Wall → String
  | front => "front"
  | back => "back"
  | left => "left"
  | right => "right"

/-- A part of a setup that has a shape of its own. -/
inductive InnerShape where
  | grid2x3
  | diamond
  | line
  | column
  deriving DecidableEq, Inhabited

/-- The word for the shape. -/
def InnerShape.name : InnerShape → String
  | grid2x3 => "the2x3"
  | diamond => "thediamond"
  | line => "theline"
  | column => "thecolumn"

/-- Triangles, told apart by where they stand or what they are based on. -/
inductive Triangles where
  | inside
  | outside
  | inpoint
  | outpoint
  | beaupoint
  | bellepoint
  | waveBased
  | tandemBased
  | anyoneBased
  deriving DecidableEq, Inhabited

/-- The word for the triangles. -/
def Triangles.name : Triangles → String
  | inside => "inside_tgl"
  | outside => "outside_tgl"
  | inpoint => "inpoint_tgl"
  | outpoint => "outpoint_tgl"
  | beaupoint => "beaupoint_tgl"
  | bellepoint => "bellepoint_tgl"
  | waveBased => "wave_base_tgl"
  | tandemBased => "tand_base_tgl"
  | anyoneBased => "anyone_base_tgl"

/-- Who is to do a call.  Couples are counted from zero. -/
inductive Designator where
  | boys
  | girls
  | heads
  | sides
  | headCorners
  | sideCorners
  | headBoys
  | headGirls
  | sideBoys
  | sideGirls
  | centers
  | ends
  | leads
  | trailers
  | leadBeaus
  | leadBelles
  | leadEnds
  | leadCenters
  | trailBeaus
  | trailBelles
  | trailEnds
  | trailCenters
  | endBoys
  | endGirls
  | centerBoys
  | centerGirls
  | beaus
  | belles
  | center2
  | veryCenters
  | center6
  | outer2
  | veryEnds
  | outer6
  | ctrDmd
  | ctr1x4
  | ctr1x6
  | outer1x3s
  | center4
  | centerWave
  | centerLine
  | centerCol
  | centerBox
  | centerWaveOf6
  | centerLineOf6
  | centerColOf6
  | outerPairs
  | ordinal (side : RowEnd) (count : SmallCount)
  | headliners
  | sideliners
  | thoseFacing
  | everyone
  | all
  | nobody
  | the (shape : InnerShape)
  | half (part : HalfPart) (side : HallSide)
  | facing (wall : Wall)
  | boy (couple : Fin 4)
  | girl (couple : Fin 4)
  | couple (couple : Fin 4)
  /-- A couple and the next one. -/
  | couples (first : Fin 4)
  | someGroup
  | mysticBeaus
  | mysticBelles
  | notCtrDmd
  | triangles (kind : Triangles)
  deriving DecidableEq, Inhabited

/-- Why nothing can be said about who is meant. -/
inductive DesignatorError where
  /-- The designator has no meaning for this shape or person. -/
  | illegalDesignator
  /-- The formation does not carry enough evidence to decide. -/
  | cannotDetermine
  /-- The designator needs to know how the formation stands in the hall. -/
  | rotationImprecise
  /-- A number is outside the range that the question accepts. -/
  | numberOutOfRange (n : UInt32)
  deriving DecidableEq, Inhabited

/-- What is wrong, as text. -/
def DesignatorError.message : DesignatorError → String
  | illegalDesignator => "this designator can't be used here"
  | cannotDetermine => "can't decide who are selected"
  | rotationImprecise => "can't do this when the setup's orientation is imprecise"
  | numberOutOfRange n => "number " ++ toString n.toNat ++ " is out of range here"

namespace Designator

/-- The designators that a search for a resolve may draw. -/
def resolveEligible : List Designator :=
  [boys, girls, heads, sides, headCorners, sideCorners, headBoys, headGirls, sideBoys, sideGirls,
   centers, ends, leads, trailers, leadBeaus, leadBelles, leadEnds, leadCenters,
   trailBeaus, trailBelles, trailEnds, trailCenters, endBoys, endGirls, centerBoys, centerGirls,
   beaus, belles, center2, veryCenters, center6, outer2, veryEnds, outer6,
   ctrDmd, ctr1x4, ctr1x6, outer1x3s, center4, centerWave, centerLine, centerCol, centerBox,
   centerWaveOf6, centerLineOf6, centerColOf6, outerPairs,
   ordinal .first .one, ordinal .last .one, ordinal .first .two, ordinal .last .two,
   ordinal .first .three, ordinal .last .three, ordinal .first .four, ordinal .last .four,
   ordinal .leftmost .one, ordinal .rightmost .one, ordinal .leftmost .two,
   ordinal .rightmost .two, ordinal .leftmost .three, ordinal .rightmost .three,
   ordinal .leftmost .four, ordinal .rightmost .four,
   headliners, sideliners, thoseFacing, everyone, all, nobody]

/-- Every designator, in order. -/
def list : List Designator :=
  resolveEligible ++
  [the .grid2x3, the .diamond, the .line, the .column,
   half .line .near, half .line .far, half .line .left, half .line .right,
   half .column .near, half .column .far, half .column .left, half .column .right,
   half .box .near, half .box .far, half .box .left, half .box .right,
   facing .front, facing .back, facing .left, facing .right,
   boy 0, girl 0, couple 0, boy 1, girl 1, couple 1, boy 2, girl 2, couple 2,
   boy 3, girl 3, couple 3, couples 0, couples 1, couples 2, couples 3,
   someGroup, mysticBeaus, mysticBelles, notCtrDmd,
   triangles .inside, triangles .outside, triangles .inpoint, triangles .outpoint,
   triangles .beaupoint, triangles .bellepoint, triangles .waveBased, triangles .tandemBased,
   triangles .anyoneBased]

/-- The written name of a designator. -/
def name : Designator → String
  | boys => "boys"
  | girls => "girls"
  | heads => "heads"
  | sides => "sides"
  | headCorners => "headcorners"
  | sideCorners => "sidecorners"
  | headBoys => "headboys"
  | headGirls => "headgirls"
  | sideBoys => "sideboys"
  | sideGirls => "sidegirls"
  | centers => "centers"
  | ends => "ends"
  | leads => "leads"
  | trailers => "trailers"
  | leadBeaus => "lead_beaus"
  | leadBelles => "lead_belles"
  | leadEnds => "lead_ends"
  | leadCenters => "lead_ctrs"
  | trailBeaus => "trail_beaus"
  | trailBelles => "trail_belles"
  | trailEnds => "trail_ends"
  | trailCenters => "trail_ctrs"
  | endBoys => "end_boys"
  | endGirls => "end_girls"
  | centerBoys => "center_boys"
  | centerGirls => "center_girls"
  | beaus => "beaus"
  | belles => "belles"
  | center2 => "center2"
  | veryCenters => "verycenters"
  | center6 => "center6"
  | outer2 => "outer2"
  | veryEnds => "veryends"
  | outer6 => "outer6"
  | ctrDmd => "ctrdmd"
  | ctr1x4 => "ctr_1x4"
  | ctr1x6 => "ctr_1x6"
  | outer1x3s => "outer1x3s"
  | center4 => "center4"
  | centerWave => "center_wave"
  | centerLine => "center_line"
  | centerCol => "center_col"
  | centerBox => "center_box"
  | centerWaveOf6 => "center_wave_of_6"
  | centerLineOf6 => "center_line_of_6"
  | centerColOf6 => "center_col_of_6"
  | outerPairs => "outerpairs"
  | ordinal side count => side.name ++ count.name
  | headliners => "headliners"
  | sideliners => "sideliners"
  | thoseFacing => "thosefacing"
  | everyone => "everyone"
  | all => "all"
  | nobody => "none"
  | the shape => shape.name
  | half part side => side.name ++ part.name
  | facing wall => "facing" ++ wall.name
  | boy c => "boy" ++ toString (c.val + 1)
  | girl c => "girl" ++ toString (c.val + 1)
  | couple c => "cpl" ++ toString (c.val + 1)
  | couples c => "cpls" ++ toString (c.val + 1) ++ "_" ++ toString ((c + 1).val + 1)
  | someGroup => "some"
  | mysticBeaus => "mysticbeaus"
  | mysticBelles => "mysticbelles"
  | notCtrDmd => "notctrdmd"
  | triangles kind => kind.name

/-- The designator with a given written name. -/
def ofName? (s : String) : Option Designator :=
  list.find? (·.name == s)

/-- The position of a designator in the order. -/
def index (d : Designator) : Nat := list.idxOf d

/-- The designator at a position of the order. -/
def ofIndex? (i : Nat) : Option Designator := list[i]?

/-- Every designator is listed. -/
theorem mem_list (d : Designator) : d ∈ list := by
  cases d with
  | ordinal side count => cases side <;> cases count <;> decide
  | half part side => cases part <;> cases side <;> decide
  | the shape => cases shape <;> decide
  | facing wall => cases wall <;> decide
  | triangles kind => cases kind <;> decide
  | boy c | girl c | couple c | couples c => revert c; decide
  | _ => decide

/-- **A designator is found at its index.** -/
@[simp] theorem ofIndex?_index (d : Designator) : ofIndex? d.index = some d := by
  have h := List.idxOf_lt_length_of_mem (mem_list d)
  rw [ofIndex?, index, List.getElem?_eq_getElem h, List.getElem_idxOf]

/-- A search for a resolve may draw it. -/
def isResolveEligible (d : Designator) : Bool := resolveEligible.contains d

/-- Its meaning is fixed by the slot alone, so that an empty slot can be judged. -/
def isPositional : Designator → Bool
  | centers | ends | center2 | outer6 | veryCenters | center6 | outer2 | veryEnds | ctrDmd
  | ctr1x4 | ctr1x6 | outer1x3s | center4 | centerWave | centerLine | centerCol
  | centerWaveOf6 | centerLineOf6 | centerColOf6 | centerBox | outerPairs => true
  | _ => false

/-- It names half of a 2x4 by where it stands in the hall. -/
def isHalf : Designator → Bool
  | half _ _ => true
  | _ => false

/-- It names triangles by their shape. -/
def isTriangles : Designator → Bool
  | triangles _ => true
  | _ => false

/-- It names dancers by the number of their couple. -/
def isUnsymmetrical : Designator → Bool
  | boy _ | girl _ | couple _ | couples _ => true
  | _ => false

/-- It picks people by their facing or standing relative to the hall. -/
def needsPreciseRotation : Designator → Bool
  | headliners | sideliners | facing _ | half _ _ => true
  | _ => false

/-- It picks everyone, whoever is there. -/
def isEveryone : Designator → Bool
  | all | everyone => true
  | _ => false

end Designator
end SquareDance
