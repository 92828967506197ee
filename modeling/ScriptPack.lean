import ScriptPack.ByteSize
import ScriptPack.Cache.Basic
import ScriptPack.Cache.Document
import ScriptPack.Cache.Eviction
import ScriptPack.Cache.Find
import ScriptPack.Cache.Keep
import ScriptPack.Cache.Naming
import ScriptPack.Cache.Records
import ScriptPack.Cache.Signature
import ScriptPack.Cache.Store
import ScriptPack.CommandLine.Commands
import ScriptPack.CommandLine.Engine
import ScriptPack.CommandLine.Usage
import ScriptPack.Config.Load
import ScriptPack.Config.Module
import ScriptPack.Config.Resolve
import ScriptPack.Diagnostics.Columns
import ScriptPack.Diagnostics.Console
import ScriptPack.Diagnostics.Log
import ScriptPack.Diagnostics.Trace
import ScriptPack.Diagnostics.Warning
import ScriptPack.Digest.Sha256
import ScriptPack.Discovery.Bundled
import ScriptPack.Discovery.Discoverer
import ScriptPack.Discovery.Interpreter
import ScriptPack.Discovery.Resolver
import ScriptPack.Discovery.Scan
import ScriptPack.Discovery.SearchPath
import ScriptPack.Discovery.Submodules
import ScriptPack.Failure
import ScriptPack.FileSystem.Copy
import ScriptPack.FileSystem.Lookup
import ScriptPack.FileSystem.Node
import ScriptPack.FileSystem.Operations
import ScriptPack.FileSystem.Size
import ScriptPack.Json.Read
import ScriptPack.Json.Value
import ScriptPack.Json.Write
import ScriptPack.Main
import ScriptPack.Number.Binary64
import ScriptPack.Number.Decimal
import ScriptPack.Packaging.Arguments
import ScriptPack.Packaging.Delivery
import ScriptPack.Packaging.Package
import ScriptPack.Path
import ScriptPack.Python.Automaton
import ScriptPack.Python.Grammar
import ScriptPack.Python.Import
import ScriptPack.Python.ImportTree
import ScriptPack.Python.Layout
import ScriptPack.Python.Lexer
import ScriptPack.Python.LinePatterns
import ScriptPack.Python.Recognizer
import ScriptPack.Python.Symbol
import ScriptPack.Python.Tree
import ScriptPack.Settings
import ScriptPack.Text.Blank
import ScriptPack.Text.Identifier
import ScriptPack.Text.Ranges
import ScriptPack.Text.Split
import ScriptPack.Text.Utf16
import ScriptPack.Text.Utf8
import ScriptPack.Text.Word
import ScriptPack.Time.Calendar
import ScriptPack.Time.DateText
import ScriptPack.Time.Timestamp
import ScriptPack.World
import ScriptPack.Proofs.Effect
import ScriptPack.Proofs.FileSystem.Tree
import ScriptPack.Proofs.FileSystem.Walk
import ScriptPack.Proofs.Cache.Atomicity
import ScriptPack.Proofs.Cache.Separation
import ScriptPack.Proofs.Cache.Clearing
import ScriptPack.Proofs.Cache.Confinement
import ScriptPack.Proofs.Cache.Eviction
import ScriptPack.Proofs.Cache.Finding
import ScriptPack.Proofs.Cache.Inventory
import ScriptPack.Proofs.Cache.Recovery
import ScriptPack.Proofs.Cache.Rewriting
import ScriptPack.Proofs.Cache.Refusal
import ScriptPack.Proofs.Cache.SafeIds
import ScriptPack.Proofs.Cache.Sharing
import ScriptPack.Proofs.Cache.Stopping
import ScriptPack.Proofs.Cache.Survival
import ScriptPack.Proofs.Cache.Trimming
import ScriptPack.Proofs.Discovery.Growing
import ScriptPack.Proofs.Discovery.Remembering
import ScriptPack.Proofs.Discovery.Verifying
import ScriptPack.Proofs.Packaging.Asking
import ScriptPack.Proofs.Packaging.Delivering
import ScriptPack.Proofs.Packaging.Provenance
import ScriptPack.Proofs.Packaging.Redelivery
import ScriptPack.Proofs.Cache.Halting
import ScriptPack.Proofs.Cache.Healing
import ScriptPack.Proofs.Cache.States
import ScriptPack.Proofs.Packaging.Reuse
import ScriptPack.Proofs.Python.Patterns
import ScriptPack.Proofs.Python.ImportLines
import ScriptPack.Proofs.Config.Settling
import ScriptPack.Proofs.Python.ModuleNames
