import ClassListing.Text.Split
import ClassListing.Text.Lines
import ClassListing.Text.Utf8
import ClassListing.Text.CodePage437
import ClassListing.Text.Blank
import ClassListing.Text.Quoted
import ClassListing.Decimal.Shortest
import ClassListing.Modifiers.Text
import ClassListing.Member
import ClassListing.ClassRecord
import ClassListing.Json.Text
import ClassListing.ClassRecord.Json
import ClassListing.Error
import ClassListing.Filter.Definition
import ClassListing.Filter.Member
import ClassListing.Filter.Name
import ClassListing.Cursor.Expression
import ClassListing.Host
import ClassListing.Archive
import ClassListing.ClassPath
import ClassListing.Source
import ClassListing.Renderer.Lines
import ClassListing.Pattern
import ClassListing.CommandLine.Listing
import ClassListing.Run
import ClassListing.Main
import ClassListing.Proofs.Cursor.Meaning
import ClassListing.Proofs.Cursor.Removal
import ClassListing.Proofs.Listing.Result
import ClassListing.Proofs.Renderer.Calls
import ClassListing.Proofs.Renderer.Text
import ClassListing.Proofs.Catalog.History
import ClassListing.Proofs.ClassRecord.Checking
import ClassListing.Proofs.Filter.Identity
import ClassListing.Proofs.Renderer.Formats
import ClassListing.Proofs.Catalog.Listing
import ClassListing.Proofs.Json.Reading
import ClassListing.Proofs.Modifiers.Text
import ClassListing.Proofs.ClassRecord.RoundTrip
import ClassListing.Proofs.Text.Pieces
import ClassListing.Proofs.Modifiers.Words
import ClassListing.Proofs.Renderer.Signatures
import ClassListing.Proofs.Renderer.Details
import ClassListing.Proofs.Host.Agreement
import ClassListing.Proofs.Host.Keeping
import ClassListing.Proofs.Listing.Completion
import ClassListing.Proofs.Listing.Mirror
import ClassListing.Proofs.CommandLine.Preparation
import ClassListing.Proofs.CommandLine.Inputs
import ClassListing.Proofs.Text.Lines
import ClassListing.Proofs.ClassPath.Paths
import ClassListing.Proofs.CommandLine.Options
import ClassListing.Proofs.CommandLine.Boot
import ClassListing.Proofs.Text.Csv
import ClassListing.Proofs.Renderer.Rows
import ClassListing.Proofs.ClassPath.Names
import ClassListing.Proofs.Filter.Composition
import ClassListing.Proofs.Filter.Sharing
import ClassListing.Proofs.Disk.Elsewhere
import ClassListing.Proofs.Disk.Creating
import ClassListing.Proofs.Listing.Destination
import ClassListing.Proofs.CommandLine.Terminal
import ClassListing.Proofs.CommandLine.Destinations
import ClassListing.Proofs.Renderer.Kinds
import ClassListing.Proofs.Renderer.Visibility
import ClassListing.Proofs.Cursor.Lookahead
import ClassListing.Proofs.ClassPath.Scanning
import ClassListing.Proofs.Listing.ClassFiles
import ClassListing.Proofs.ClassRecord.Layouts
import ClassListing.Proofs.Sink.Phases
import ClassListing.Proofs.Source.LineFiles
import ClassListing.Proofs.ClassPath.BootPaths
import ClassListing.Proofs.Cursor.Editing
import ClassListing.Proofs.Modifiers.Legend
