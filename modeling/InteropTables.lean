import InteropTables.Assembly.Basic
import InteropTables.Assembly.Describe
import InteropTables.Assembly.Descriptor
import InteropTables.Assembly.Load
import InteropTables.Assembly.MethodLists
import InteropTables.Assembly.Nesting
import InteropTables.Bytes
import InteropTables.CommandLine.Arguments
import InteropTables.CommandLine.Inputs
import InteropTables.CommandLine.Run
import InteropTables.CommandLine.Usage
import InteropTables.Event
import InteropTables.Fault
import InteropTables.FileTree
import InteropTables.Generation
import InteropTables.Image
import InteropTables.Interop.Artifact
import InteropTables.Interop.CType
import InteropTables.Interop.Findings
import InteropTables.Interop.Identifier
import InteropTables.Interop.ImportTables
import InteropTables.Interop.NativeModules
import InteropTables.Interop.Trampolines
import InteropTables.Main
import InteropTables.Metadata.Cells
import InteropTables.Metadata.CodedIndex
import InteropTables.Metadata.File
import InteropTables.Metadata.Heap
import InteropTables.Metadata.Root
import InteropTables.Metadata.Row
import InteropTables.Metadata.RuntimeHeader
import InteropTables.Metadata.Schema
import InteropTables.Metadata.Table
import InteropTables.Metadata.TableId
import InteropTables.Metadata.TableSizes
import InteropTables.Metadata.TableStream
import InteropTables.Proofs.Assembly.Attributes
import InteropTables.Proofs.Assembly.Described
import InteropTables.Proofs.Assembly.Imports
import InteropTables.Proofs.Assembly.Indirection
import InteropTables.Proofs.Assembly.KnownTypes
import InteropTables.Proofs.Assembly.Laid
import InteropTables.Proofs.Assembly.LoadBack
import InteropTables.Proofs.Assembly.LoadedNames
import InteropTables.Proofs.Assembly.MemberTypes
import InteropTables.Proofs.Assembly.MethodLists
import InteropTables.Proofs.Assembly.Methods
import InteropTables.Proofs.Assembly.NameLengths
import InteropTables.Proofs.Assembly.Names
import InteropTables.Proofs.Assembly.NamingRoom
import InteropTables.Proofs.Assembly.NestedNames
import InteropTables.Proofs.Assembly.Outline
import InteropTables.Proofs.Assembly.Ownership
import InteropTables.Proofs.Assembly.TypePaths
import InteropTables.Proofs.Assembly.Unfolding
import InteropTables.Proofs.Blocks
import InteropTables.Proofs.CText.Lexemes
import InteropTables.Proofs.CText.Lines
import InteropTables.Proofs.CText.Pieces
import InteropTables.Proofs.Compressed
import InteropTables.Proofs.Exact
import InteropTables.Proofs.Files
import InteropTables.Proofs.FolderSearch
import InteropTables.Proofs.Generation.Ends
import InteropTables.Proofs.Generation.Run
import InteropTables.Proofs.HeapContents
import InteropTables.Proofs.Heaps
import InteropTables.Proofs.Inputs
import InteropTables.Proofs.Interop.CallOrder
import InteropTables.Proofs.Interop.Declarations
import InteropTables.Proofs.Interop.Emission
import InteropTables.Proofs.Interop.Indifference
import InteropTables.Proofs.Interop.Markers
import InteropTables.Proofs.Interop.Outcomes
import InteropTables.Proofs.Interop.Partition
import InteropTables.Proofs.Interop.Prototypes
import InteropTables.Proofs.Interop.ReadDeclarations
import InteropTables.Proofs.Interop.ReadTrampolines
import InteropTables.Proofs.Interop.Redundancy
import InteropTables.Proofs.Interop.Rendering
import InteropTables.Proofs.Interop.Scanning
import InteropTables.Proofs.Interop.Symbols
import InteropTables.Proofs.Interop.TrampolineLines
import InteropTables.Proofs.Interop.TrampolineText
import InteropTables.Proofs.Interop.Void
import InteropTables.Proofs.Lists
import InteropTables.Proofs.Machine.Blocks
import InteropTables.Proofs.Machine.Headers
import InteropTables.Proofs.Machine.Heaps
import InteropTables.Proofs.Machine.Load
import InteropTables.Proofs.Machine.Names
import InteropTables.Proofs.Machine.Parser
import InteropTables.Proofs.Machine.Rows
import InteropTables.Proofs.Machine.Run
import InteropTables.Proofs.Machine.Scan
import InteropTables.Proofs.Machine.Signature
import InteropTables.Proofs.Machine.Sizes
import InteropTables.Proofs.Machine.Streams
import InteropTables.Proofs.Machine.Tables
import InteropTables.Proofs.Metadata.CodedColumns
import InteropTables.Proofs.Metadata.Directory
import InteropTables.Proofs.Metadata.DirectoryWalk
import InteropTables.Proofs.Metadata.Entries
import InteropTables.Proofs.Metadata.Layout
import InteropTables.Proofs.Metadata.OtherRows
import InteropTables.Proofs.Metadata.Pointers
import InteropTables.Proofs.Metadata.Root
import InteropTables.Proofs.Metadata.RowBytes
import InteropTables.Proofs.Metadata.RowReaders
import InteropTables.Proofs.Metadata.Rows
import InteropTables.Proofs.Metadata.TableWalk
import InteropTables.Proofs.PackedNumbers
import InteropTables.Proofs.Paths
import InteropTables.Proofs.Signature.Chains
import InteropTables.Proofs.Signature.Code
import InteropTables.Proofs.Signature.Exact
import InteropTables.Proofs.Signature.Extent
import InteropTables.Proofs.Signature.Levels
import InteropTables.Proofs.Signature.Positions
import InteropTables.Proofs.Signature.ReadBack
import InteropTables.Proofs.Steps
import InteropTables.Proofs.TextOrder
import InteropTables.Proofs.TypeTokens
import InteropTables.Reader
import InteropTables.Signature.Decode
import InteropTables.Signature.Types
import InteropTables.Text.Breaking
import InteropTables.Text.CharRanges
import InteropTables.Text.Columns
import InteropTables.Text.Grapheme.Basic
import InteropTables.Text.Grapheme.Marks
import InteropTables.Text.Hexadecimal
import InteropTables.Text.Json
import InteropTables.Text.Lossy
import InteropTables.Text.Path
import InteropTables.Text.Width.Emoji
import InteropTables.Text.Width.Marks
import InteropTables.Text.Width.Sequence
import InteropTables.Text.Width.Wide
import InteropTables.Token
import InteropTables.Workspace
