import Netlab.Text.Blank
import Netlab.Topology.Validation
import Netlab.Topology.Encode
import Netlab.Topology.Decode
import Netlab.Value.Block
import Netlab.Script.Render
import Netlab.Yaml.Plain
import Netlab.Yaml.Quoted
import Netlab.Yaml.Block
import Netlab.Topology.LongNames
import Netlab.Yaml.View
import Netlab.Sample
import Netlab.Topology.Parse
import Netlab.Topology.LegacyKey
import Netlab.Main
import Netlab.Proofs.Diagnostics
import Netlab.Proofs.Distinct
import Netlab.Proofs.Collections
import Netlab.Proofs.Policy
import Netlab.Proofs.Creation
import Netlab.Proofs.Host.Effect
import Netlab.Proofs.Host.Walk
import Netlab.Proofs.Host.Devices
import Netlab.Proofs.Topology.Names
import Netlab.Proofs.Text.Bytes
import Netlab.Proofs.Wiring.Keys
import Netlab.Proofs.Reading
import Netlab.Proofs.Shell.Reader
import Netlab.Proofs.Wiring.Block
import Netlab.Proofs.Wiring.Step
import Netlab.Proofs.Phases
import Netlab.Proofs.Images
import Netlab.Proofs.Isolation
import Netlab.Proofs.Host.Blocks
import Netlab.Proofs.Order
import Netlab.Proofs.Pruning
import Netlab.Proofs.Topology.Reordered
import Netlab.Proofs.Topology.Records
import Netlab.Proofs.Topology.Presentation
import Netlab.Proofs.Wiring.Links
import Netlab.Proofs.Wiring.Account
import Netlab.Proofs.Wiring.Realised
import Netlab.Proofs.Wiring.Addresses
import Netlab.Proofs.Wiring.Handles
import Netlab.Proofs.Wiring.HostEnds
import Netlab.Proofs.Wiring.Attachments
import Netlab.Proofs.Script.Text
import Netlab.Proofs.Mount
import Netlab.Proofs.Teardown
import Netlab.Proofs.Exec
import Netlab.Proofs.Composites
import Netlab.Proofs.Preflight
import Netlab.Proofs.Json.Reader
import Netlab.Proofs.Script.Json
import Netlab.Proofs.Files
import Netlab.Proofs.Output
import Netlab.Proofs.Topology.Faults
import Netlab.Proofs.Grammar
import Netlab.Proofs.Topology.LongNames
import Netlab.Proofs.Removal
import Netlab.Proofs.Yaml.Outline
import Netlab.Proofs.Yaml.Scalars
import Netlab.Proofs.Yaml.Gaps
import Netlab.Proofs.Yaml.Nest
import Netlab.Proofs.Yaml.Steps
import Netlab.Proofs.Yaml.Lines
import Netlab.Proofs.Yaml.Blocks
import Netlab.Proofs.Yaml.Nodes
import Netlab.Proofs.Topology.LegacyWords
import Netlab.Proofs.Topology.LegacyLines
import Netlab.Proofs.Topology.LegacyPlaces
import Netlab.Proofs.Topology.LegacyKey
