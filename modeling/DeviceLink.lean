import DeviceLink.Command.Directory
import DeviceLink.Ir.Builder
import DeviceLink.Main
import DeviceLink.Proofs.Abi
import DeviceLink.Proofs.Isolation
import DeviceLink.Proofs.Loading
import DeviceLink.Proofs.Nesting
import DeviceLink.Proofs.Build
import DeviceLink.Proofs.Described
import DeviceLink.Proofs.Stability
import DeviceLink.Proofs.Dispatch
import DeviceLink.Proofs.Entries
import DeviceLink.Proofs.Order
import DeviceLink.Proofs.Designated
import DeviceLink.Proofs.Declared
import DeviceLink.Proofs.Rules
import DeviceLink.Proofs.Origins
import DeviceLink.Proofs.Flows
import DeviceLink.Proofs.References
import DeviceLink.Proofs.Scope
import DeviceLink.Proofs.Extension
import DeviceLink.Proofs.Unused
import DeviceLink.Proofs.Answers
import DeviceLink.Proofs.DepthFirst
import DeviceLink.Proofs.Numbering
import DeviceLink.Proofs.Swapped
import DeviceLink.Proofs.Damaged
import DeviceLink.Proofs.Indexes
import DeviceLink.Proofs.Roots
import DeviceLink.Proofs.Conversion
import DeviceLink.Proofs.Memo
import DeviceLink.Proofs.Reporting
import DeviceLink.Proofs.Manifest
import DeviceLink.Proofs.Traversal
import DeviceLink.Proofs.Builder
