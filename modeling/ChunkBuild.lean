import ChunkBuild.Build
import ChunkBuild.Chunk.Definition
import ChunkBuild.Chunk.Registry
import ChunkBuild.CommandLine.Arguments
import ChunkBuild.CommandLine.Commands
import ChunkBuild.CommandLine.Grammar
import ChunkBuild.CommandLine.Terminal
import ChunkBuild.Compiler.Options
import ChunkBuild.Compiler.Run
import ChunkBuild.Config.ArgumentForm
import ChunkBuild.Config.Arguments
import ChunkBuild.Config.Checked
import ChunkBuild.Config.Environment
import ChunkBuild.Config.IntegerText
import ChunkBuild.Config.Layers
import ChunkBuild.Config.Merge
import ChunkBuild.Config.Misfit
import ChunkBuild.Config.Settings
import ChunkBuild.Config.Surroundings
import ChunkBuild.Config.VariableFile
import ChunkBuild.Descriptor
import ChunkBuild.Failure
import ChunkBuild.Fields
import ChunkBuild.Graph
import ChunkBuild.Host.Basic
import ChunkBuild.Host.FileTree
import ChunkBuild.Host.Files
import ChunkBuild.Host.Programs
import ChunkBuild.Item
import ChunkBuild.Json.Printer
import ChunkBuild.Json.Reader
import ChunkBuild.Json.Value
import ChunkBuild.Main
import ChunkBuild.Number.Binary64
import ChunkBuild.Number.Shortest
import ChunkBuild.Path
import ChunkBuild.Proofs.Build.Confined
import ChunkBuild.Proofs.Build.Copies
import ChunkBuild.Proofs.Build.Inside
import ChunkBuild.Proofs.Build.Loading
import ChunkBuild.Proofs.Build.Outputs
import ChunkBuild.Proofs.Build.Plan
import ChunkBuild.Proofs.Build.Staging
import ChunkBuild.Proofs.Chunk.Acceptance
import ChunkBuild.Proofs.Chunk.Alias
import ChunkBuild.Proofs.Chunk.Record
import ChunkBuild.Proofs.Chunk.Registry
import ChunkBuild.Proofs.Compiler.Command
import ChunkBuild.Proofs.Config.Checked
import ChunkBuild.Proofs.Config.Declared
import ChunkBuild.Proofs.Config.Failures
import ChunkBuild.Proofs.Config.Files
import ChunkBuild.Proofs.Config.InPlace
import ChunkBuild.Proofs.Config.Keys
import ChunkBuild.Proofs.Config.Layers
import ChunkBuild.Proofs.Config.Merge
import ChunkBuild.Proofs.Config.Plain
import ChunkBuild.Proofs.Config.Shown
import ChunkBuild.Proofs.Config.Snapshot
import ChunkBuild.Proofs.Config.Surroundings
import ChunkBuild.Proofs.Config.Touching
import ChunkBuild.Proofs.Descriptor
import ChunkBuild.Proofs.Descriptor.Grammar
import ChunkBuild.Proofs.Fields
import ChunkBuild.Proofs.Graph.Binding
import ChunkBuild.Proofs.Graph.First
import ChunkBuild.Proofs.Graph.Order
import ChunkBuild.Proofs.Graph.Printed
import ChunkBuild.Proofs.Graph.Renaming
import ChunkBuild.Proofs.Host.Absent
import ChunkBuild.Proofs.Host.FileTree
import ChunkBuild.Proofs.Host.Files
import ChunkBuild.Proofs.Host.Frame
import ChunkBuild.Proofs.Host.Jobs
import ChunkBuild.Proofs.Host.Looking
import ChunkBuild.Proofs.Host.Moving
import ChunkBuild.Proofs.Host.Places
import ChunkBuild.Proofs.Host.Spared
import ChunkBuild.Proofs.Host.Subtree
import ChunkBuild.Proofs.Item
import ChunkBuild.Proofs.Json.Content
import ChunkBuild.Proofs.Json.Decimal
import ChunkBuild.Proofs.Json.Depth
import ChunkBuild.Proofs.Json.Integer
import ChunkBuild.Proofs.Json.Kept
import ChunkBuild.Proofs.Json.LineEnds
import ChunkBuild.Proofs.Json.Literal
import ChunkBuild.Proofs.Json.Quoted
import ChunkBuild.Proofs.Json.ReadBack
import ChunkBuild.Proofs.Json.Reads
import ChunkBuild.Proofs.Json.Spelled
import ChunkBuild.Proofs.Number.Rounding
import ChunkBuild.Proofs.Number.Shortest
import ChunkBuild.Proofs.Path
import ChunkBuild.Proofs.Path.Below
import ChunkBuild.Proofs.Path.Normal
import ChunkBuild.Proofs.Provider.Assembled
import ChunkBuild.Proofs.Provider.History
import ChunkBuild.Proofs.Resolver.Alike
import ChunkBuild.Proofs.Resolver.Fallback
import ChunkBuild.Proofs.Resolver.Gate
import ChunkBuild.Proofs.Resolver.Kept
import ChunkBuild.Proofs.Resolver.Relative
import ChunkBuild.Proofs.Resolver.Runs
import ChunkBuild.Proofs.Resolver.Version
import ChunkBuild.Proofs.Results
import ChunkBuild.Proofs.Source.Area
import ChunkBuild.Proofs.Source.Below
import ChunkBuild.Proofs.Source.Block
import ChunkBuild.Proofs.Source.Breaks
import ChunkBuild.Proofs.Source.Cut
import ChunkBuild.Proofs.Source.Flatten
import ChunkBuild.Proofs.Source.License
import ChunkBuild.Proofs.Source.MapContent
import ChunkBuild.Proofs.Source.Once
import ChunkBuild.Proofs.Source.Restored
import ChunkBuild.Proofs.Source.Stripped
import ChunkBuild.Proofs.Text.Integer
import ChunkBuild.Proofs.Text.Lettered
import ChunkBuild.Proofs.Text.Letters
import ChunkBuild.Proofs.Text.Lines
import ChunkBuild.Proofs.Text.Numeral
import ChunkBuild.Proofs.Text.Occurrence
import ChunkBuild.Proofs.Text.Pieces
import ChunkBuild.Proofs.Text.SystemText
import ChunkBuild.Proofs.Text.Utf8
import ChunkBuild.Proofs.Text.Whole
import ChunkBuild.Proofs.Wrapper
import ChunkBuild.Proofs.Wrapper.Parameters
import ChunkBuild.Proofs.Wrapper.Placeholder
import ChunkBuild.Provider.Container
import ChunkBuild.Provider.Create
import ChunkBuild.Provider.Project
import ChunkBuild.Report
import ChunkBuild.Resolver.Calculator
import ChunkBuild.Resolver.Compute
import ChunkBuild.Source.Flatten
import ChunkBuild.Source.License
import ChunkBuild.Source.Map
import ChunkBuild.Source.Transform
import ChunkBuild.Text.Characters
import ChunkBuild.Text.Encoding
import ChunkBuild.Text.Half
import ChunkBuild.Text.IdentifierTable
import ChunkBuild.Text.Integer
import ChunkBuild.Text.Pieces
import ChunkBuild.Text.UnprintableTable
import ChunkBuild.Text.Utf8
import ChunkBuild.Text.Words
import ChunkBuild.Wrapper
import ChunkBuild.Yaml.Content
import ChunkBuild.Yaml.Cursor
import ChunkBuild.Yaml.Moment
import ChunkBuild.Yaml.Node
import ChunkBuild.Yaml.Scalar
import ChunkBuild.Yaml.Text
import ChunkBuild.Yaml.Token
