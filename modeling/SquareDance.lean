import SquareDance.Direction
import SquareDance.Role
import SquareDance.Dancer
import SquareDance.Dancer.Packed
import SquareDance.Setup
import SquareDance.Formation
import SquareDance.Formation.Roles
import SquareDance.Designator
import SquareDance.Designator.Subject
import SquareDance.Designator.Shape
import SquareDance.Designator.Ordinal
import SquareDance.Designator.Half
import SquareDance.Designator.Some
import SquareDance.Designator.Picks
import SquareDance.Level
import SquareDance.CallDirection
import SquareDance.Predicate
import SquareDance.Predicate.Verdict
import SquareDance.Predicate.Place
import SquareDance.Predicate.Evaluate
import SquareDance.Vocabulary
import SquareDance.Call.SetupNames
import SquareDance.Call.Qualifier
import SquareDance.Call.Schema
import SquareDance.Call.Heritable
import SquareDance.Call.Destination
import SquareDance.Call.Spelling
import SquareDance.Text.Utf8
import SquareDance.Call
import SquareDance.Consumer
import SquareDance.CallBook.Bytes
import SquareDance.CallBook.Reader
import SquareDance.CallBook.Load
import SquareDance.CallText.Place
import SquareDance.CallText.Token
import SquareDance.Call.Flags
import SquareDance.CallText.Words
import SquareDance.CallText.Tags
import SquareDance.CallText.Problem
import SquareDance.CallText.Parser
import SquareDance.CallText.FlagWords
import SquareDance.CallText.Modifiers
import SquareDance.CallText.Arrays
import SquareDance.CallText.Definition
import SquareDance.CallText.Compile
import SquareDance.Search
import SquareDance.Search.Stage
import SquareDance.Search.Goal
import SquareDance.Search.Catalog
import SquareDance.Search.Odometer
import SquareDance.Search.Calls
import SquareDance.Search.Blanks
import SquareDance.Search.Candidate
import SquareDance.Text.Hex
import SquareDance.Dancer.Shorthand
import SquareDance.Command
import SquareDance.Main
import SquareDance.Proofs.Consumer
import SquareDance.Proofs.Bits
import SquareDance.Proofs.CallBook.Words
import SquareDance.Proofs.CallBook.WellFormed
import SquareDance.Proofs.CallBook.ReadBack
import SquareDance.Proofs.CallBook.ReadBack.Arrays
import SquareDance.Proofs.CallBook.RoundTrip
import SquareDance.Proofs.CallBook.Loaded
import SquareDance.Proofs.CallBook.Rewriting
import SquareDance.Proofs.CallText.Tags
import SquareDance.Proofs.CallText.Reading
import SquareDance.Proofs.CallText.Entries
import SquareDance.Proofs.CallText.Arrays
import SquareDance.Proofs.CallText.Sound
import SquareDance.Proofs.Search.Cycle
import SquareDance.Proofs.Search.Combinations
import SquareDance.Proofs.Search.Wheels
import SquareDance.Proofs.Search.Filling
import SquareDance.Proofs.Search.Attempts
import SquareDance.Proofs.Search.Coverage
import SquareDance.Proofs.CallBook.SelfDelimiting
import SquareDance.Proofs.CallBook.Room
import SquareDance.Proofs.CallText.Compiled
import SquareDance.Proofs.CallText.TagWords
import SquareDance.Proofs.CallText.TagRecord
import SquareDance.Proofs.CallText.Skimming
import SquareDance.Proofs.CallText.QuietParsers
import SquareDance.Proofs.CallText.Mentions
import SquareDance.Proofs.CallText.TagClosure
import SquareDance.Proofs.Search.Effort
import SquareDance.Proofs.Search.Ending
import SquareDance.Proofs.Search.Choices
import SquareDance.Proofs.Search.OddNumbers
import SquareDance.Proofs.Search.Safety
import SquareDance.Proofs.CallText.Heard
import SquareDance.Proofs.CallText.Layout
import SquareDance.Proofs.CallText.Printing
import SquareDance.Proofs.Formation.DerivedRoles
import SquareDance.Proofs.Formation.Turning
import SquareDance.Proofs.Formation.Words
import SquareDance.Proofs.Formation.WordBits
import SquareDance.Proofs.Designator.SomeGroups
import SquareDance.Proofs.Designator.Subjects
import SquareDance.Proofs.Designator.Ordinals
import SquareDance.Proofs.Designator.HalfTurn
import SquareDance.Proofs.Predicate.FacingSomeone
import SquareDance.Proofs.CallBook.Confined
import SquareDance.Proofs.CallBook.Faithful
import SquareDance.Proofs.CallText.TagPlaces
import SquareDance.Proofs.CallText.Continuing
import SquareDance.Proofs.CallText.Lexing
import SquareDance.Proofs.CallText.Joined
import SquareDance.Proofs.CallText.LayoutFree
import SquareDance.Proofs.Formation.Consistency
import SquareDance.Proofs.Designator.Phantoms
import SquareDance.Proofs.Designator.Families
import SquareDance.Proofs.Designator.GroupSizes
import SquareDance.Proofs.Predicate.Declared
import SquareDance.Proofs.Predicate.Near
import SquareDance.Proofs.Dancer.Packing
import SquareDance.Proofs.Designator.Totality
import SquareDance.Proofs.Predicate.Inquiry
import SquareDance.Proofs.Search.Hashing
import SquareDance.Proofs.Search.Sorting
import SquareDance.Proofs.Search.TaggerNumbers
import SquareDance.Proofs.Search.ConceptHashes
import SquareDance.Proofs.CallText.TagHistory
import SquareDance.Proofs.Call.Spelling
import SquareDance.Proofs.Call.Destination
import SquareDance.Proofs.CallText.Telling
import SquareDance.Proofs.CallText.Stops
import SquareDance.Proofs.CallText.Pointing
import SquareDance.Proofs.CallText.Passages
import SquareDance.Proofs.CallText.Bracketed
import SquareDance.Proofs.CallText.Clauses
import SquareDance.Proofs.CallText.ArrayBlocks
import SquareDance.Proofs.CallText.MergedKeys
import SquareDance.Proofs.CallText.ModifierOrder
import SquareDance.Proofs.CallText.FlagFields
