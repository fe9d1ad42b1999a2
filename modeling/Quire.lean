import Quire.Bibliography
import Quire.Book
import Quire.Citation
import Quire.CommandLine
import Quire.Labels.Record
import Quire.Main
import Quire.Node.Options
import Quire.Node.Parse
import Quire.Settings
import Quire.Walk
import Quire.Proofs.Node.Nesting
import Quire.Proofs.Table.Sheet
import Quire.Proofs.Token.Slice
import Quire.Proofs.Node.Frames
import Quire.Proofs.Node.Place
import Quire.Proofs.Node.Reparse
import Quire.Proofs.Walk.Account
import Quire.Proofs.Walk.Notes
import Quire.Proofs.Walk.Course
import Quire.Proofs.Prose.Outcome
import Quire.Proofs.Walk.Abreast
import Quire.Proofs.Walk.Handlers
import Quire.Proofs.Node.Plain
import Quire.Proofs.Prose.Plain
import Quire.Proofs.Table.Grid
import Quire.Proofs.Table.Source
import Quire.Proofs.Walk.Frame
import Quire.Proofs.Walk.Grid
import Quire.Proofs.Walk.Independence
import Quire.Proofs.Token.Spelling
import Quire.Proofs.Node.Written
import Quire.Proofs.Labels.Outline
import Quire.Proofs.Walk.Flow
import Quire.Proofs.Walk.Anchor
import Quire.Proofs.Walk.Whole
import Quire.Proofs.Walk.Cell
import Quire.Proofs.Labels.Inclusion
import Quire.Proofs.Book.Expansion
import Quire.Proofs.Disk.Folders
import Quire.Proofs.Asset.Publishing
import Quire.Proofs.Asset.Naming
import Quire.Proofs.Book.Pages
import Quire.Proofs.Flavor.Tags
import Quire.Proofs.Prose.Tags
import Quire.Proofs.Walk.Spot
import Quire.Proofs.Walk.Nest
import Quire.Proofs.Flavor.Escape
import Quire.Proofs.Walk.Verbatim
import Quire.Proofs.Walk.Template
import Quire.Proofs.Prose.Escaped
import Quire.Proofs.Node.Escaped
import Quire.Proofs.Walk.Escaped
import Quire.Proofs.Token.Tiling
import Quire.Proofs.Book.Links
import Quire.Proofs.Walk.Paragraphs
import Quire.Proofs.Walk.LineEnds
import Quire.Proofs.Token.Failure
import Quire.Proofs.Prose.Markup
import Quire.Proofs.Prose.Settled
import Quire.Proofs.Options.Written
import Quire.Proofs.Options.Comment
import Quire.Proofs.Braces
import Quire.Proofs.Verbs.Placeholders
import Quire.Proofs.Bibliography.Listed
import Quire.Proofs.Bibliography.Comment
import Quire.Proofs.Table.Declaration
import Quire.Proofs.Table.Bytes
import Quire.Proofs.Node.Items
import Quire.Proofs.Numbering
import Quire.Proofs.Walk.Report
import Quire.Proofs.Walk.Alternation
import Quire.Proofs.Walk.Transparent
import Quire.Proofs.Walk.Color
import Quire.Proofs.Flavor.Dirtree
import Quire.Proofs.Example.Columns
import Quire.Proofs.Walk.Address
import Quire.Proofs.Flavor.Fence
