import TileConsole.Bytes
import TileConsole.Cartridge
import TileConsole.Command.Build
import TileConsole.Command.Flags
import TileConsole.Command.Outcome
import TileConsole.Command.Play
import TileConsole.Disassembly
import TileConsole.Machine.Basic
import TileConsole.Machine.Screen
import TileConsole.Machine.Tick
import TileConsole.Main
import TileConsole.Numeral
import TileConsole.Operation
import TileConsole.Path
import TileConsole.Picture.Basic
import TileConsole.Picture.Bitmap
import TileConsole.Picture.Color
import TileConsole.Picture.Load
import TileConsole.Picture.Palette
import TileConsole.Picture.Png
import TileConsole.Picture.Tiles
import TileConsole.Program.Basic
import TileConsole.Program.Listing
import TileConsole.Proofs.Build
import TileConsole.Proofs.Bytes
import TileConsole.Proofs.Cartridge
import TileConsole.Proofs.Cartridge.Format
import TileConsole.Proofs.Disassembly
import TileConsole.Proofs.Machine.Bounds
import TileConsole.Proofs.Machine.Decoding
import TileConsole.Proofs.Machine.Drawing
import TileConsole.Proofs.Machine.Effects
import TileConsole.Proofs.Machine.FaultLines
import TileConsole.Proofs.Machine.Fetch
import TileConsole.Proofs.Machine.Frames
import TileConsole.Proofs.Machine.Graphics
import TileConsole.Proofs.Machine.Loaded
import TileConsole.Proofs.Machine.Lockstep
import TileConsole.Proofs.Machine.Progress
import TileConsole.Proofs.Machine.Replay
import TileConsole.Proofs.Machine.Requests
import TileConsole.Proofs.Machine.Safety
import TileConsole.Proofs.Machine.SourceMachine
import TileConsole.Proofs.Machine.TileWalk
import TileConsole.Proofs.Numeral
import TileConsole.Proofs.Picture.Cropping
import TileConsole.Proofs.Picture.Loading
import TileConsole.Proofs.Picture.Nearest
import TileConsole.Proofs.Picture.PackedForm
import TileConsole.Proofs.Picture.Packing
import TileConsole.Proofs.Picture.PartialTiles
import TileConsole.Proofs.Picture.Ranking
import TileConsole.Proofs.Picture.Showing
import TileConsole.Proofs.Program.Entries
import TileConsole.Proofs.Program.Listing
import TileConsole.Proofs.Program.Location
import TileConsole.Proofs.Source.Agreement
import TileConsole.Proofs.Source.CanonicalText
import TileConsole.Proofs.Source.Concatenation
import TileConsole.Proofs.Source.Edits
import TileConsole.Proofs.Source.Encoding
import TileConsole.Proofs.Source.Flaws
import TileConsole.Proofs.Source.Layout
import TileConsole.Proofs.Source.LineEdits
import TileConsole.Proofs.Source.Lines
import TileConsole.Proofs.Source.Meaning
import TileConsole.Proofs.Source.Numbering
import TileConsole.Proofs.Source.Offsets
import TileConsole.Proofs.Source.PartialEncoding
import TileConsole.Proofs.Source.Reassembly
import TileConsole.Proofs.Source.Renaming
import TileConsole.Proofs.Source.Rereading
import TileConsole.Proofs.Source.Spelling
import TileConsole.Proofs.Source.Statements
import TileConsole.Proofs.Source.Strictness
import TileConsole.Proofs.Storage
import TileConsole.Proofs.Text
import TileConsole.Proofs.Text.Decoding
import TileConsole.Proofs.Text.Spacing
import TileConsole.Proofs.Text.UpperCase
import TileConsole.Proofs.Text.Utf8
import TileConsole.Proofs.Visit
import TileConsole.Source.Assembly
import TileConsole.Source.Encoding
import TileConsole.Source.Fault
import TileConsole.Source.Labels
import TileConsole.Source.Layout
import TileConsole.Source.Line
import TileConsole.Storage
import TileConsole.Stream
import TileConsole.Text.Basic
import TileConsole.Text.Blank
import TileConsole.Text.Printable
import TileConsole.Text.Quoted
import TileConsole.Text.UpperCase
import TileConsole.Visit
