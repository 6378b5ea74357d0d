import Colloquy.CommandLine
import Colloquy.Loop.Log
import Colloquy.Main
import Colloquy.Proofs.Schema.Pico
import Colloquy.Proofs.Template.Markers
import Colloquy.Rehearsal.Script
import Colloquy.Proofs.Loop.Storage
import Colloquy.Proofs.Loop.Budget
import Colloquy.Proofs.Schema.References
import Colloquy.Proofs.Schema.Limit
import Colloquy.Proofs.Schema.Reading
import Colloquy.Proofs.Schema.Rows
import Colloquy.Proofs.Schema.Kinds
import Colloquy.Proofs.Schema.PassThrough
import Colloquy.Proofs.Template.Derivation
import Colloquy.Proofs.Template.Calls
import Colloquy.Proofs.Template.Expansion
import Colloquy.Proofs.Template.Scopes
import Colloquy.Proofs.Schema.Levels
import Colloquy.Proofs.Schema.Missing
import Colloquy.Proofs.Schema.Optional
import Colloquy.Proofs.Schema.Properties
import Colloquy.Proofs.Schema.Inference
import Colloquy.Proofs.Schema.Stability
import Colloquy.Proofs.Loop.Protocol
import Colloquy.Proofs.Loop.Validation
import Colloquy.Proofs.Loop.Rejection
import Colloquy.Proofs.Loop.Answering
import Colloquy.Proofs.Loop.Invocations
import Colloquy.Proofs.Independence
import Colloquy.Proofs.Loop.Completion
import Colloquy.Proofs.Prompt.Caching
import Colloquy.Proofs.Prompt.Naming
import Colloquy.Proofs.Prompt.Example
import Colloquy.Proofs.Registry
import Colloquy.Proofs.Assembly.Placement
import Colloquy.Proofs.Assembly.History
import Colloquy.Proofs.Template.Trimming
import Colloquy.Proofs.Template.Faults
import Colloquy.Proofs.Template.Quoting
import Colloquy.Proofs.Output
import Colloquy.Proofs.FileTree
import Colloquy.Proofs.Marker.Lossless
import Colloquy.Proofs.Prompt.Fences
import Colloquy.Proofs.Prompt.Folder
import Colloquy.Proofs.Schema.Glossary
