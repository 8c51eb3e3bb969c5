import Usages.Cli.Arguments
import Usages.Cli.Report
import Usages.Cli.Run
import Usages.Cli.Style
import Usages.Config.Basic
import Usages.Config.File
import Usages.Config.Json
import Usages.Config.Text
import Usages.Config.Yaml
import Usages.Disk
import Usages.Failure
import Usages.Filter
import Usages.Find
import Usages.Glob
import Usages.Json.Basic
import Usages.Json.Reader
import Usages.Json.Writer
import Usages.Language
import Usages.Locate
import Usages.Location
import Usages.Main
import Usages.OpenDocuments
import Usages.OsError
import Usages.Partition
import Usages.Path
import Usages.Project
import Usages.Proofs.Word
import Usages.Server.Basic
import Usages.Server.Lookup
import Usages.Server.Params
import Usages.Server.Render
import Usages.Server.Step
import Usages.Source
import Usages.Text.Alphabetic
import Usages.Text.Char
import Usages.Text.Lines
import Usages.Text.Mark
import Usages.Text.Number
import Usages.Text.Units
import Usages.Text.Utf8
import Usages.Text.Word
import Usages.Tree
import Usages.Uri
import Usages.View
import Usages.Workspace
import Usages.WriteRule
import Usages.Yaml.Cursor
import Usages.Yaml.Node
import Usages.Yaml.Scalar
import Usages.Yaml.Token
import Usages.Yaml.Writer
import Usages.Proofs.Lines
import Usages.Proofs.Locate
import Usages.Proofs.Find
import Usages.Proofs.Disk
import Usages.Proofs.Glob
import Usages.Proofs.Discover
import Usages.Proofs.WriteRule
import Usages.Proofs.Toggle
import Usages.Proofs.Session
import Usages.Proofs.Uri
import Usages.Proofs.Tree
import Usages.Proofs.References
import Usages.Proofs.Json
import Usages.Proofs.Yaml.Cursor
import Usages.Proofs.Yaml.Scalar
import Usages.Proofs.Yaml.Block
import Usages.Proofs.Yaml.Token
import Usages.Proofs.Yaml.Mapping
import Usages.Proofs.Contents
import Usages.Proofs.Write
import Usages.Proofs.Reload
import Usages.Proofs.Shared
import Usages.Proofs.Margin
import Usages.Proofs.Entries
import Usages.Proofs.Preview
import Usages.Proofs.Indentation
import Usages.Proofs.Save
import Usages.Proofs.Unsaved
import Usages.Proofs.Refinement
import Usages.Proofs.Loaded
import Usages.Proofs.Mutators
import Usages.Proofs.ClientRange
import Usages.Proofs.Snapshot
import Usages.Proofs.Requests
import Usages.Proofs.Grouping
import Usages.Proofs.WholeNames
import Usages.Proofs.ExtraNames
import Usages.Proofs.DefaultExcludes
import Usages.Proofs.Highlight
import Usages.Proofs.Rendering
import Usages.Proofs.Cursor
import Usages.Proofs.LineStarts
import Usages.Proofs.Workspaces
import Usages.Proofs.Nearest
import Usages.Proofs.Boundaries
