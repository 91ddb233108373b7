import BehaviorTree.Agent.Basic
import BehaviorTree.Agent.Evaluate
import BehaviorTree.Agent.Execute
import BehaviorTree.Agent.Play
import BehaviorTree.Agent.Update
import BehaviorTree.Arguments
import BehaviorTree.Blueprint.Basic
import BehaviorTree.Blueprint.Build
import BehaviorTree.Cache
import BehaviorTree.Decimal.Binary
import BehaviorTree.Decimal.Shortest
import BehaviorTree.Decimal.Whole
import BehaviorTree.Diagnostic
import BehaviorTree.Directory
import BehaviorTree.Game
import BehaviorTree.Identity
import BehaviorTree.Inspect
import BehaviorTree.Json.Codec
import BehaviorTree.Json.Text
import BehaviorTree.Main
import BehaviorTree.Proofs.Accord
import BehaviorTree.Proofs.Activation
import BehaviorTree.Proofs.Attachment
import BehaviorTree.Proofs.Beside
import BehaviorTree.Proofs.Blocked
import BehaviorTree.Proofs.Boxes
import BehaviorTree.Proofs.ByteOrder
import BehaviorTree.Proofs.Caching
import BehaviorTree.Proofs.Chronicle
import BehaviorTree.Proofs.CompactJson
import BehaviorTree.Proofs.Countdown
import BehaviorTree.Proofs.Course
import BehaviorTree.Proofs.CurrentAction
import BehaviorTree.Proofs.Discretion
import BehaviorTree.Proofs.DocumentArguments
import BehaviorTree.Proofs.Drift
import BehaviorTree.Proofs.Duality
import BehaviorTree.Proofs.Entries
import BehaviorTree.Proofs.Execution
import BehaviorTree.Proofs.FastPath
import BehaviorTree.Proofs.Flags
import BehaviorTree.Proofs.Flattening
import BehaviorTree.Proofs.FreshEntry
import BehaviorTree.Proofs.Graft
import BehaviorTree.Proofs.Inverters
import BehaviorTree.Proofs.LeafRun
import BehaviorTree.Proofs.Likeness
import BehaviorTree.Proofs.Limits
import BehaviorTree.Proofs.Linking
import BehaviorTree.Proofs.LoadOrder
import BehaviorTree.Proofs.Loading
import BehaviorTree.Proofs.Locality
import BehaviorTree.Proofs.Manner
import BehaviorTree.Proofs.Membership
import BehaviorTree.Proofs.MustComplete
import BehaviorTree.Proofs.Nameless
import BehaviorTree.Proofs.Narrowing
import BehaviorTree.Proofs.Negation
import BehaviorTree.Proofs.Numbering
import BehaviorTree.Proofs.Numerals
import BehaviorTree.Proofs.OneChild
import BehaviorTree.Proofs.Outlines
import BehaviorTree.Proofs.Pairing
import BehaviorTree.Proofs.Passage
import BehaviorTree.Proofs.Pathway
import BehaviorTree.Proofs.Postorder
import BehaviorTree.Proofs.Reach
import BehaviorTree.Proofs.Recording
import BehaviorTree.Proofs.Reference
import BehaviorTree.Proofs.Registration
import BehaviorTree.Proofs.Relaxed
import BehaviorTree.Proofs.Reloading
import BehaviorTree.Proofs.Renamed
import BehaviorTree.Proofs.Replacement
import BehaviorTree.Proofs.Report
import BehaviorTree.Proofs.Resumption
import BehaviorTree.Proofs.Run
import BehaviorTree.Proofs.Running
import BehaviorTree.Proofs.Seam
import BehaviorTree.Proofs.Skeletons
import BehaviorTree.Proofs.Solo
import BehaviorTree.Proofs.StoreCalls
import BehaviorTree.Proofs.Subtree
import BehaviorTree.Proofs.Succession
import BehaviorTree.Proofs.Surroundings
import BehaviorTree.Proofs.Survey
import BehaviorTree.Proofs.Trail
import BehaviorTree.Proofs.Ungated
import BehaviorTree.Proofs.Visits
import BehaviorTree.Proofs.Works
import BehaviorTree.Proofs.Zones
import BehaviorTree.Registry
import BehaviorTree.Rehearsal
import BehaviorTree.Simulation.CommandLine
import BehaviorTree.Simulation.Config
import BehaviorTree.Simulation.Demo
import BehaviorTree.Simulation.Folder
import BehaviorTree.Simulation.Path
import BehaviorTree.Simulation.Run
import BehaviorTree.Sketch
import BehaviorTree.Status
import BehaviorTree.Store
import BehaviorTree.Table
import BehaviorTree.Text.Blank
import BehaviorTree.Text.Printable
import BehaviorTree.Text.Quoted
import BehaviorTree.Trace
import BehaviorTree.Tree.Assembly
import BehaviorTree.Tree.Condition
import BehaviorTree.Tree.Node
import BehaviorTree.Tree.Outline
import BehaviorTree.Workbench.Agents
import BehaviorTree.Workbench.Basic
import BehaviorTree.Workbench.Part
import BehaviorTree.Workbench.Scratch
import BehaviorTree.Workbench.Trees
import BehaviorTree.Yaml.Cursor
import BehaviorTree.Yaml.Decoder
import BehaviorTree.Yaml.Document
import BehaviorTree.Yaml.Element
import BehaviorTree.Yaml.Plain
import BehaviorTree.Yaml.Printer
import BehaviorTree.Yaml.Scalar
import BehaviorTree.Yaml.Tag
import BehaviorTree.Yaml.Token
import BehaviorTree.Yaml.Value
import BehaviorTree.Zone
