import SchemaMigration.Calendar.Date
import SchemaMigration.Calendar.Timestamp
import SchemaMigration.Cli.Arguments
import SchemaMigration.Cli.Command
import SchemaMigration.Cli.Help
import SchemaMigration.Cli.Report
import SchemaMigration.Cli.Run
import SchemaMigration.Ddl.Compile
import SchemaMigration.Ddl.Statement
import SchemaMigration.Dialect
import SchemaMigration.Diff.Change
import SchemaMigration.Diff.Detect
import SchemaMigration.Error
import SchemaMigration.Files.Directory
import SchemaMigration.Files.Path
import SchemaMigration.Files.Tree
import SchemaMigration.Host
import SchemaMigration.Json.Basic
import SchemaMigration.Json.Decode
import SchemaMigration.Json.Reader
import SchemaMigration.Log
import SchemaMigration.Migration.Basic
import SchemaMigration.Migration.Execution
import SchemaMigration.Migration.Planner
import SchemaMigration.Migration.Reconcile
import SchemaMigration.Migration.Runner
import SchemaMigration.Migration.Selection
import SchemaMigration.Naming
import SchemaMigration.Number.Binary64
import SchemaMigration.Number.Extended
import SchemaMigration.Number.Reader
import SchemaMigration.Number.Shortest
import SchemaMigration.Program
import SchemaMigration.RecordTable
import SchemaMigration.Reversible
import SchemaMigration.Schema.Column
import SchemaMigration.Schema.ColumnType
import SchemaMigration.Schema.Document
import SchemaMigration.Schema.Key
import SchemaMigration.Schema.Table
import SchemaMigration.Script.BoundValue
import SchemaMigration.Script.Document
import SchemaMigration.Script.Placeholder
import SchemaMigration.Script.Statement
import SchemaMigration.Session
import SchemaMigration.Store.Address
import SchemaMigration.Store.Basic
import SchemaMigration.Store.Cell
import SchemaMigration.Store.Command
import SchemaMigration.Store.Reader
import SchemaMigration.Store.Table
import SchemaMigration.Store.Token
import SchemaMigration.Template.Basic
import SchemaMigration.Template.Expr
import SchemaMigration.Template.Migration
import SchemaMigration.Text.Ascii
import SchemaMigration.Text.Blank
import SchemaMigration.Text.Debug
import SchemaMigration.Text.Quoted
import SchemaMigration.Text.Upper
import SchemaMigration.Text.Utf8
import SchemaMigration.Workspace
import SchemaMigration.World
import SchemaMigration.Yaml.Cursor
import SchemaMigration.Yaml.Node
import SchemaMigration.Yaml.Plain
import SchemaMigration.Yaml.Scalar
import SchemaMigration.Yaml.Token
import SchemaMigration.Yaml.Value
import SchemaMigration.Main
import SchemaMigration.Proofs.Keyed
import SchemaMigration.Proofs.KeyedChanges
import SchemaMigration.Proofs.ObjectMaps
import SchemaMigration.Proofs.RoundTrip
import SchemaMigration.Proofs.Equivalence
import SchemaMigration.Proofs.Replay
import SchemaMigration.Proofs.ExactDiff
import SchemaMigration.Proofs.UpToDate
import SchemaMigration.Proofs.Prepared
import SchemaMigration.Proofs.ShortestDecimal
import SchemaMigration.Proofs.ServerTokens
import SchemaMigration.Proofs.ServerLiterals
import SchemaMigration.Proofs.StatementParts
import SchemaMigration.Proofs.FilledStatements
import SchemaMigration.Proofs.StoredDown
import SchemaMigration.Proofs.Inversion
import SchemaMigration.Proofs.CharacterSets
import SchemaMigration.Proofs.PrimaryKeys
import SchemaMigration.Proofs.UniqueReading
import SchemaMigration.Proofs.ColumnClauses
import SchemaMigration.Proofs.ColumnReading
import SchemaMigration.Proofs.SealedTexts
import SchemaMigration.Proofs.SealedStatements
import SchemaMigration.Proofs.Scanning
import SchemaMigration.Proofs.StandardTemplate
import SchemaMigration.Proofs.MigrationTokens
import SchemaMigration.Proofs.GeneratedScript
import SchemaMigration.Proofs.Runs
import SchemaMigration.Proofs.Site
import SchemaMigration.Proofs.Steps
import SchemaMigration.Proofs.RecordHistory
import SchemaMigration.Proofs.Requests
import SchemaMigration.Proofs.Listings
import SchemaMigration.Proofs.Plans
import SchemaMigration.Proofs.Deployments
import SchemaMigration.Proofs.Progress
import SchemaMigration.Proofs.LiveRuns
import SchemaMigration.Proofs.DryRuns
import SchemaMigration.Proofs.Agreement
import SchemaMigration.Proofs.SmoothRuns
import SchemaMigration.Proofs.Batches
import SchemaMigration.Proofs.Reconciliation
import SchemaMigration.Proofs.Collations
import SchemaMigration.Proofs.JsonReading
import SchemaMigration.Proofs.Octets
import SchemaMigration.Proofs.SchemaDocuments
import SchemaMigration.Proofs.QuotedScalars
import SchemaMigration.Proofs.NewFiles
import SchemaMigration.Proofs.PlannedFiles
import SchemaMigration.Proofs.DropOrder
import SchemaMigration.Proofs.CreatedTables
import SchemaMigration.Proofs.Interleavings
import SchemaMigration.Proofs.ConcurrentReverts
import SchemaMigration.Proofs.NewListings
import SchemaMigration.Proofs.RemovedFiles
import SchemaMigration.Proofs.NewDirectories
import SchemaMigration.Proofs.Plannings
import SchemaMigration.Proofs.ConcurrentPlanning
import SchemaMigration.Proofs.InertLiterals
import SchemaMigration.Proofs.PreparedOrder
import SchemaMigration.Proofs.KeyReading
import SchemaMigration.Proofs.VisibleChanges
import SchemaMigration.Proofs.CalendarOrder
import SchemaMigration.Proofs.NameOrder
import SchemaMigration.Proofs.FreeNames
import SchemaMigration.Proofs.CreationOrder
import SchemaMigration.Proofs.UnboundNames
import SchemaMigration.Proofs.DocumentPaths
import SchemaMigration.Proofs.RoundedIntegers
import SchemaMigration.Proofs.BoundIntegers
import SchemaMigration.Proofs.PlaceholderGrammar
import SchemaMigration.Proofs.BindErrors
import SchemaMigration.Proofs.QuoteReading
