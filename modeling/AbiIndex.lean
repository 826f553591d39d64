import AbiIndex.Abi.ArrayLength
import AbiIndex.Abi.Canonical
import AbiIndex.Abi.Record
import AbiIndex.Abi.Registry
import AbiIndex.Abi.Resolution
import AbiIndex.Abi.Signature
import AbiIndex.Abi.TypeError
import AbiIndex.Calendar
import AbiIndex.Collision
import AbiIndex.Command.Arguments
import AbiIndex.Command.Help
import AbiIndex.Command.Option
import AbiIndex.Command.Run
import AbiIndex.Config.Load
import AbiIndex.Config.Settings
import AbiIndex.Diagnostic
import AbiIndex.Digest.Hex
import AbiIndex.Digest.Keccak
import AbiIndex.Digest.Sha256
import AbiIndex.Export.Csv
import AbiIndex.Export.Document
import AbiIndex.Export.Format
import AbiIndex.Export.Markdown
import AbiIndex.Export.PlainText
import AbiIndex.Export.Run
import AbiIndex.Export.View
import AbiIndex.Graph
import AbiIndex.Json.Printer
import AbiIndex.Json.Value
import AbiIndex.Log
import AbiIndex.Main
import AbiIndex.Number.DigitLimit
import AbiIndex.Number.Double
import AbiIndex.Number.Shortest
import AbiIndex.Project.Discovery
import AbiIndex.Project.Info
import AbiIndex.Project.Marker
import AbiIndex.Scan.Cache
import AbiIndex.Scan.Result
import AbiIndex.Scan.Run
import AbiIndex.Scan.Session
import AbiIndex.Scan.SourceFile
import AbiIndex.Service
import AbiIndex.Service.Target
import AbiIndex.Source.Category
import AbiIndex.Source.Declaration
import AbiIndex.Source.Delimited
import AbiIndex.Source.Elementary
import AbiIndex.Source.Header
import AbiIndex.Source.Lexeme
import AbiIndex.Source.Malformed
import AbiIndex.Source.Member
import AbiIndex.Source.Natspec
import AbiIndex.Source.Parameter
import AbiIndex.Source.SourceText
import AbiIndex.Source.Token
import AbiIndex.Source.TypeRef
import AbiIndex.Source.TypeRef.Reader
import AbiIndex.Source.Unit
import AbiIndex.Text.Blank
import AbiIndex.Text.Case
import AbiIndex.Text.CharSet
import AbiIndex.Text.Digit
import AbiIndex.Text.Identifier
import AbiIndex.Text.Integer
import AbiIndex.Text.Lines
import AbiIndex.Text.Order
import AbiIndex.Text.Quoted
import AbiIndex.Text.Utf8
import AbiIndex.Text.Word
import AbiIndex.Timestamp
import AbiIndex.Toml.Document
import AbiIndex.Toml.Scalar
import AbiIndex.Toml.Value
import AbiIndex.Tree.FileTree
import AbiIndex.Tree.Node
import AbiIndex.Tree.Path
import AbiIndex.UnknownName
import AbiIndex.Yaml.Document
import AbiIndex.Yaml.Fault
import AbiIndex.Yaml.Meaning
import AbiIndex.Yaml.Node
import AbiIndex.Yaml.Scalar
import AbiIndex.Yaml.Tag
import AbiIndex.Yaml.Text
import AbiIndex.Yaml.Token
import AbiIndex.Yaml.Tokenizer
import AbiIndex.Yaml.Value
import AbiIndex.Proofs.CanonicalForm
import AbiIndex.Proofs.Delimiting
import AbiIndex.Proofs.Grammar
import AbiIndex.Proofs.ReaderEquations
import AbiIndex.Proofs.TypeReading
import AbiIndex.Proofs.HeaderReading
import AbiIndex.Proofs.DeclarationReading
import AbiIndex.Proofs.RoundTrip
import AbiIndex.Proofs.ProjectOverlap
import AbiIndex.Proofs.CacheSoundness
import AbiIndex.Proofs.Interleaving
import AbiIndex.Proofs.ScanStages
import AbiIndex.Proofs.UndisturbedScan
import AbiIndex.Proofs.CacheTransparency
import AbiIndex.Proofs.FaithfulStore
import AbiIndex.Proofs.PartialResult
import AbiIndex.Proofs.PlaceErasure
import AbiIndex.Proofs.CommentInvisibility
import AbiIndex.Proofs.Provenance
import AbiIndex.Proofs.TypeGrammar
import AbiIndex.Proofs.SignedRecords
import AbiIndex.Proofs.Containment
import AbiIndex.Proofs.DeclarationOrder
import AbiIndex.Proofs.ScopeWalk
import AbiIndex.Proofs.ReaderLocality
import AbiIndex.Proofs.FaultIsolation
import AbiIndex.Proofs.ScopeDepth
import AbiIndex.Proofs.StoppedScan
import AbiIndex.Proofs.StoppedInterleaving
import AbiIndex.Proofs.Scheduling
import AbiIndex.Proofs.DepthFirst
import AbiIndex.Proofs.Inheritance
import AbiIndex.Proofs.StopModes
import AbiIndex.Proofs.NestedWalks
import AbiIndex.Proofs.DirectoryLookup
import AbiIndex.Proofs.ListFacts
import AbiIndex.Proofs.ProjectLabels
import AbiIndex.Proofs.Combination
import AbiIndex.Proofs.SeparateScans
import AbiIndex.Proofs.EndlessExpansion
import AbiIndex.Proofs.DeclarationAccounts
import AbiIndex.Proofs.RecordCopies
import AbiIndex.Proofs.SelectorCollisions
import AbiIndex.Proofs.NameLookup
import AbiIndex.Proofs.BadFiles
import AbiIndex.Proofs.DepthMatching
import AbiIndex.Proofs.FunctionParts
import AbiIndex.Proofs.FunctionHeaders
import AbiIndex.Proofs.Spelling
import AbiIndex.Proofs.TypePrinting
import AbiIndex.Proofs.StoreHistory
import AbiIndex.Proofs.OpenEnds
import AbiIndex.Proofs.TokenPlaces
import AbiIndex.Proofs.LengthTexts
import AbiIndex.Proofs.BracketLengths
import AbiIndex.Proofs.ListingOrder
import AbiIndex.Proofs.MarkedDirectories
import AbiIndex.Proofs.SourceListing
import AbiIndex.Proofs.MarkerAgreement
import AbiIndex.Proofs.OwnSources
import AbiIndex.Proofs.SearchFailures
import AbiIndex.Proofs.TestFiles
import AbiIndex.Proofs.JsonReading
import AbiIndex.Proofs.ExportedRecords
import AbiIndex.Proofs.TreeChanges
import AbiIndex.Proofs.ExportRuns
import AbiIndex.Proofs.Partners
import AbiIndex.Proofs.SourceBytes
import AbiIndex.Proofs.Trimming
import AbiIndex.Proofs.DocStyles
import AbiIndex.Proofs.DocTags
import AbiIndex.Proofs.ConstructRanges
import AbiIndex.Proofs.DocGaps
