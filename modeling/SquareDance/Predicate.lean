/-
# Predicates

A definition of a call may ask a yes-or-no question about each person, by name:
"if select", "if 2x2_miniwave".  A predicate is such a question.  What it may
look at is part of its kind:

* a `DesignatorTest` looks at the call's designator;
* a `PlaceTest` looks at the formation alone;
* a direction test looks at the call's direction;
* a base test looks at the call's first number.

`Predicate.all` fixes the order in which a call book refers to them, those about
the designator first.
-/

import SquareDance.CallDirection
import SquareDance.Designator
import SquareDance.Dancer

namespace SquareDance

/-- A sense of turning. -/
inductive Spin where
  | clockwise
  | counterclockwise
  deriving DecidableEq, Inhabited

namespace Spin

/-- Both senses. -/
def all : List Spin := [clockwise, counterclockwise]

/-- The word for a sense of turning in a text. -/
def name : Spin → String
  | clockwise => "cw"
  | counterclockwise => "ccw"

/-- The roll that turns this way. -/
def roll : Spin → Roll
  | clockwise => .right
  | counterclockwise => .left

/-- The slide that carries the body this way: clockwise to the left. -/
def slide : Spin → Slide
  | clockwise => .left
  | counterclockwise => .right

end Spin

/-- A question about a person that the call's designator decides. -/
inductive DesignatorTest where
  | select
  | unselect
  | selectNearSelect
  | selectNearUnselect
  | unselectNearSelect
  | unselectNearUnselect
  | selectOnceRemovedFromSelect
  | selectOnceRemovedFromUnselect
  | unselectOnceRemovedFromSelect
  /-- As `selectNearSelect`, but an empty neighbouring slot counts as selected. -/
  | selectNearSelectOrPhantom
  /-- The slots of the two people add up to `n`. -/
  | sum (n : Nat)
  /-- The person `n` slots on is selected. -/
  | plus (n : Nat)
  /-- The person `n` slots on is live and selected. -/
  | realPlus (n : Nat)
  | selectAndRoll (spin : Spin)
  deriving DecidableEq, Inhabited

/-- What a lateral pair looks like. -/
inductive PairFacing where
  | miniwave
  | couple
  deriving DecidableEq, Inhabited

namespace PairFacing

/-- Both looks of a pair. -/
def all : List PairFacing := [miniwave, couple]

/-- The word for the look of a pair in a text. -/
def name : PairFacing → String
  | miniwave => "miniwave"
  | couple => "couple"

/-- How the two people of the pair face in relation to each other. -/
def relation : PairFacing → Direction.Relation
  | miniwave => .opposite
  | couple => .same

end PairFacing

/-- The box across which a neighbour is looked for. -/
inductive BoxSpan where
  | box2x2
  | box2x4
  deriving DecidableEq, Inhabited

namespace BoxSpan

/-- Both boxes. -/
def all : List BoxSpan := [box2x2, box2x4]

/-- The word for a box in a text. -/
def name : BoxSpan → String
  | box2x2 => "2x2"
  | box2x4 => "2x4"

end BoxSpan

/-- How a person in front or behind faces. -/
inductive NeighborRelation where
  | tandem
  | antitandem
  | facing
  deriving DecidableEq, Inhabited

namespace NeighborRelation

/-- All ways to face, in their order. -/
def all : List NeighborRelation := [tandem, antitandem, facing]

/-- The word for a neighbour in a text. -/
def name : NeighborRelation → String
  | tandem => "tandem_with_someone"
  | antitandem => "antitandem"
  | facing => "facing_someone"

end NeighborRelation

/-- How a row of people is seen. -/
inductive Ranks where
  | lines
  | columns
  deriving DecidableEq, Inhabited

namespace Ranks

/-- Both ways to see a row. -/
def all : List Ranks := [lines, columns]

/-- The word for the rows of people in a text. -/
def name : Ranks → String
  | lines => "lines"
  | columns => "columns"

end Ranks

/-- With whom a person in a line or column is compared. -/
inductive RankPartner where
  /-- The adjacent person of the same line or column. -/
  | beside
  /-- One place over in the other line. -/
  | magic
  /-- Two places along in the same line. -/
  | onceRemoved
  /-- Directly across in the other line. -/
  | across
  deriving DecidableEq, Inhabited

/-- All partners, in their order. -/
def RankPartner.all : List RankPartner := [beside, magic, onceRemoved, across]

/-- How a cast is danced. -/
inductive CastMode where
  | normal
  | pushy
  /-- Normal, and said to be so where there is a doubt. -/
  | normalOrWarn
  /-- Normal where there is a doubt. -/
  | normalOrNoWarn
  deriving DecidableEq, Inhabited

namespace CastMode

/-- All ways to dance a cast, in their order. -/
def all : List CastMode := [normal, pushy, normalOrWarn, normalOrNoWarn]

/-- The word for a cast in a text. -/
def name : CastMode → String
  | normal => "cast_normal"
  | pushy => "cast_pushy"
  | normalOrWarn => "cast_normal_or_warn"
  | normalOrNoWarn => "cast_normal_or_nowarn"

end CastMode

/-- The two parts that one person of a row may have in a recycle-like call. -/
inductive JudgePart where
  | judge
  | socker
  deriving DecidableEq, Inhabited

/-- The word for a part in a text. -/
def JudgePart.name : JudgePart → String
  | judge => "judge"
  | socker => "socker"

/-- A hand. -/
inductive Hand where
  | right
  | left
  deriving DecidableEq, Inhabited

/-- The word for a hand in a text. -/
def Hand.name : Hand → String
  | right => "right"
  | left => "left"

/-- Where the base of the square is, seen from the person's own spot. -/
inductive BaseSpot where
  | across
  | right
  | here
  | left
  deriving DecidableEq, Inhabited

namespace BaseSpot

/-- All spots, in their order. -/
def all : List BaseSpot := [across, right, here, left]

/-- The word for a spot in a text. -/
def name : BaseSpot → String
  | across => "across"
  | right => "right"
  | here => "here"
  | left => "left"

/-- How many quarters of the square away base is, counted from across. -/
def quarters : BaseSpot → Nat
  | across => 0
  | right => 1
  | here => 2
  | left => 3

end BaseSpot

/-- A question about a person that the formation alone decides. -/
inductive PlaceTest where
  | always
  /-- The slot `n` on is occupied. -/
  | realPlus (n : Nat)
  /-- The slot that adds up to `n` with this one is occupied. -/
  | realSum (n : Nat)
  /-- The lateral neighbour faces as told; `suspect` warns of a suspect call. -/
  | lateralPair (facing : PairFacing) (suspect : Bool)
  | neighbor (span : BoxSpan) (relation : NeighborRelation)
  /-- The partner in a line or column faces the same way, or the opposite way. -/
  | rankPair (ranks : Ranks) (partner : RankPartner) (same : Bool)
  /-- The person once removed in a row of four faces as told. -/
  | lineOnceRemoved (facing : PairFacing)
  | interlockedCast
  | cast (mode : CastMode)
  | judge (part : JudgePart) (hand : Hand)
  /-- The gender; `slideThru` warns of a slide thru from the right hand. -/
  | gender (g : Gender) (slideThru : Bool)
  | rollIs (spin : Spin)
  | slideOrRollIs (spin : Spin)
  | withOtherSex (g : Gender)
  | facingOtherSex (g : Gender)
  | lateralToSex (same : Bool)
  /-- Exactly `n` live people follow in the same half of the setup. -/
  | countClockwise (n : Nat)
  /-- The centers of every diamond are in a miniwave of this hand. -/
  | diamondCenters (hand : Hand)
  deriving DecidableEq, Inhabited

/-- A yes-or-no question about one person of a formation. -/
inductive Predicate where
  | designated (test : DesignatorTest)
  | place (test : PlaceTest)
  | direction (wanted : CallDirection)
  | onBase (spot : BaseSpot)
  deriving DecidableEq, Inhabited

namespace DesignatorTest

/-- The tests that the call language can name, in order. -/
def all : List DesignatorTest :=
  [select, unselect, selectNearSelect, selectNearUnselect, unselectNearSelect,
   unselectNearUnselect, selectOnceRemovedFromSelect, selectOnceRemovedFromUnselect,
   unselectOnceRemovedFromSelect, selectNearSelectOrPhantom] ++
  [5, 8, 9, 11, 13, 15].map sum ++
  (List.range' 1 12).map plus ++
  (List.range' 1 11).map realPlus ++
  Spin.all.map selectAndRoll

/-- The name of a test about the designator in a text. -/
def name : DesignatorTest → String
  | select => "select"
  | unselect => "unselect"
  | selectNearSelect => "select_near_select"
  | selectNearUnselect => "select_near_unselect"
  | unselectNearSelect => "unselect_near_select"
  | unselectNearUnselect => "unselect_near_unselect"
  | selectOnceRemovedFromSelect => "select_once_rem_from_select"
  | selectOnceRemovedFromUnselect => "select_once_rem_from_unselect"
  | unselectOnceRemovedFromSelect => "unselect_once_rem_from_select"
  | selectNearSelectOrPhantom => "select_near_select_or_phantom"
  | sum n => "person_select_sum" ++ toString n
  | plus n => "person_select_plus" ++ toString n
  | realPlus n => "person_select_real_plus" ++ toString n
  | selectAndRoll spin => "select_and_roll_is_" ++ spin.name

end DesignatorTest

namespace PlaceTest

/-- The tests about the shape of a formation, in order. -/
def ofShape : List PlaceTest :=
  [always] ++
  (List.range' 1 19).map realPlus ++
  [5, 8, 9, 11, 13, 24].map realSum ++
  [false, true].flatMap (fun suspect => PairFacing.all.map (lateralPair · suspect)) ++
  BoxSpan.all.flatMap (fun span => NeighborRelation.all.map (neighbor span)) ++
  Ranks.all.flatMap (fun ranks => RankPartner.all.flatMap fun partner =>
    [false, true].map (rankPair ranks partner)) ++
  PairFacing.all.map lineOnceRemoved ++
  [interlockedCast] ++
  CastMode.all.map cast ++
  [judge .judge .right, judge .judge .left, judge .socker .right, judge .socker .left] ++
  (List.range 4).map countClockwise ++
  [diamondCenters .right, diamondCenters .left]

/-- The tests about the people in it, in order. -/
def ofPeople : List PlaceTest :=
  [gender .boy false, gender .girl false, gender .boy true, gender .girl true] ++
  Spin.all.map rollIs ++
  Spin.all.map slideOrRollIs ++
  [withOtherSex .boy, withOtherSex .girl, facingOtherSex .boy, facingOtherSex .girl,
   lateralToSex true, lateralToSex false]

/-- The kind of pair that a comparison in ranks asks for.  Lines compare sideways
with the person beside, columns with the person across. -/
def rankPairName (ranks : Ranks) (partner : RankPartner) (same : Bool) : String :=
  let sideways := (ranks == .lines) != (partner == .across)
  match sideways, same with
  | true, true => "couple"
  | true, false => "miniwave"
  | false, true => "tandem"
  | false, false => "antitandem"

/-- The name of a test of a place in a text. -/
def name : PlaceTest → String
  | always => "always"
  | realPlus n => "person_real_plus" ++ toString n
  | realSum n => "person_real_sum" ++ toString n
  | lateralPair facing false => "2x2_" ++ facing.name
  | lateralPair facing true => "2x2_" ++ facing.name ++ "_nocycle_wheel"
  | neighbor span relation => span.name ++ "_" ++ relation.name
  | rankPair ranks partner same =>
    let kind := match partner with
      | .magic => "magic_"
      | .onceRemoved => "once_rem_"
      | .beside | .across => ""
    ranks.name ++ "_" ++ kind ++ rankPairName ranks partner same
  | lineOnceRemoved facing => "x14_once_rem_" ++ facing.name
  | interlockedCast => "intlk_cast_normal_or_warn"
  | cast mode => mode.name
  | judge part hand => part.name ++ "_is_" ++ hand.name
  | gender g false => g.noun ++ "p"
  | gender g true => g.noun ++ "p_rh_slide_thru"
  | rollIs spin => "roll_is_" ++ spin.name
  | slideOrRollIs spin => "slide_or_roll_is_" ++ spin.name
  | withOtherSex g => "x12_" ++ g.noun ++ "_with_" ++ g.opposite.noun
  | facingOtherSex g => "x22_" ++ g.noun ++ "_facing_" ++ g.opposite.noun
  | lateralToSex true => "lateral_to_same_sex"
  | lateralToSex false => "lateral_to_opposite_sex"
  | countClockwise 0 => "zero_cw_people"
  | countClockwise 1 => "one_cw_person"
  | countClockwise 2 => "two_cw_people"
  | countClockwise 3 => "three_cw_people"
  | countClockwise n => toString n ++ "_cw_people"
  | diamondCenters .right => "dmd_ctrs_rh"
  | diamondCenters .left => "dmd_ctrs_lh"

end PlaceTest

namespace Predicate

/-- Every predicate that the call language can name, in database order. -/
def all : List Predicate :=
  DesignatorTest.all.map designated ++
  PlaceTest.ofShape.map place ++
  PlaceTest.ofPeople.map place ++
  [CallDirection.left, .right, .inward, .outward, .back, .zigzag, .zagzig, .zigzig, .zagzag,
    .noDirection].map direction ++
  BaseSpot.all.map onBase

/-- The name of a predicate. -/
def name : Predicate → String
  | designated test => test.name
  | place test => test.name
  | direction .noDirection => "no_dir_p"
  | direction .theMusic => "the_music_p"
  | direction d => d.name ++ "p"
  | onBase spot => "base_is_" ++ spot.name

/-- The listed predicate with a given name. -/
def ofName? (s : String) : Option Predicate :=
  all.find? (·.name == s)

/-- The number that follows a stem in a name. -/
def numberAfter? (stem s : String) : Option Nat := (s.dropPrefix? stem).bind (·.toNat?)

/-- The predicate with a given name, also one that the call language cannot name: one
with another number, or about the music. -/
def ofAnyName? (s : String) : Option Predicate :=
  ofName? s
    <|> (if s = "the_music_p" then some (direction .theMusic) else none)
    <|> (numberAfter? "person_select_plus" s).map (fun n => designated (.plus n))
    <|> (numberAfter? "person_select_real_plus" s).map (fun n => designated (.realPlus n))
    <|> (numberAfter? "person_select_sum" s).map (fun n => designated (.sum n))
    <|> (numberAfter? "person_real_plus" s).map (fun n => place (.realPlus n))
    <|> (numberAfter? "person_real_sum" s).map (fun n => place (.realSum n))
    <|> ((s.dropSuffix? "_cw_people").bind (·.toNat?)).map fun n => place (.countClockwise n)

/-- The position of a predicate in `Predicate.all`, if it is listed. -/
def index? (p : Predicate) : Option Nat := all.idxOf? p

/-- The predicate at a position of `Predicate.all`. -/
def ofIndex? (i : Nat) : Option Predicate := all[i]?

/-- It looks at the call's designator. -/
def needsDesignator : Predicate → Bool
  | designated _ => true
  | _ => false

/-- It looks at the call's direction. -/
def needsDirection : Predicate → Bool
  | direction _ => true
  | _ => false

end Predicate
end SquareDance
