import Geotile.Area.Algebra
import Geotile.Area.Basic
import Geotile.Area.Optimise
import Geotile.Area.Ring
import Geotile.Area.Split
import Geotile.CommandLine.Arguments
import Geotile.CommandLine.Command
import Geotile.Grid
import Geotile.Heading
import Geotile.Ini
import Geotile.Main
import Geotile.Number.Arsinh
import Geotile.Number.Binary64
import Geotile.Number.Fixed
import Geotile.Number.Reader
import Geotile.Number.Shortest
import Geotile.Packed
import Geotile.Position
import Geotile.Quadrant
import Geotile.Report.Json
import Geotile.Report.Lookup
import Geotile.Report.Track
import Geotile.Settings.Basic
import Geotile.Settings.Reader
import Geotile.Text.Blank
import Geotile.Text.CaseTable
import Geotile.Text.LowerCase
import Geotile.Text.Split
import Geotile.Tile.Basic
import Geotile.Tile.Cell
import Geotile.Tile.Descend
import Geotile.Tile.Neighbour
import Geotile.Tile.Text
import Geotile.Topic
import Geotile.Tracker
import Geotile.Proofs.Containment
import Geotile.Proofs.Canonical
import Geotile.Proofs.SmallestForm
import Geotile.Proofs.Indices
import Geotile.Proofs.Moves
import Geotile.Proofs.Touching
import Geotile.Proofs.Borders
import Geotile.Proofs.Rings
import Geotile.Proofs.Following
import Geotile.Proofs.Differences
import Geotile.Proofs.Changes
import Geotile.Proofs.Digits
import Geotile.Proofs.Topics
import Geotile.Proofs.Matching
import Geotile.Proofs.Subscriptions
import Geotile.Proofs.Cutting
import Geotile.Proofs.Editing
import Geotile.Proofs.Accepted
import Geotile.Proofs.CoveredOnce
import Geotile.Proofs.FewestMembers
import Geotile.Raw.Checked
import Geotile.Raw.Path
import Geotile.Raw.Members
import Geotile.Proofs.RawWords
import Geotile.Proofs.RawReading
import Geotile.Proofs.RawPaths
import Geotile.Proofs.RawMembers
import Geotile.Proofs.RawOptimise
import Geotile.Proofs.Sessions
import Geotile.Proofs.DigitOrder
import Geotile.Proofs.Pending
import Geotile.Proofs.CommonPart
import Geotile.Proofs.Exactness
import Geotile.Proofs.Cells
import Geotile.Proofs.Blocks
import Geotile.Proofs.Interest
import Geotile.Proofs.Splitting
import Geotile.Proofs.Written
import Geotile.Proofs.DoubleOrder
import Geotile.Proofs.Thresholds
import Geotile.Proofs.AcceptedDepths
import Geotile.Proofs.Scanning
import Geotile.Proofs.Rounds
import Geotile.Proofs.Nesting
import Geotile.Proofs.Rounding
import Geotile.Proofs.Quanta
import Geotile.Proofs.Wrapping
