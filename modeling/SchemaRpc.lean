import SchemaRpc.Link
import SchemaRpc.Message.Display
import SchemaRpc.Proofs.Message.Completion
import SchemaRpc.Proofs.Message.Editing
import SchemaRpc.Proofs.Message.Naming
import SchemaRpc.Proofs.Message.Packing
import SchemaRpc.Proofs.Message.Truncation
import SchemaRpc.Proofs.Message.WideIntegers
import SchemaRpc.Proofs.Services.Lossless
import SchemaRpc.Proofs.Stub
import SchemaRpc.Proofs.Timestamp.Flooring
import SchemaRpc.Proofs.Transport.Allocation
import SchemaRpc.Proofs.Transport.Answering
import SchemaRpc.Proofs.Transport.Buffered
import SchemaRpc.Proofs.Transport.EndToEnd
import SchemaRpc.Proofs.Transport.Endings
import SchemaRpc.Proofs.Transport.Oversize
import SchemaRpc.Proofs.Transport.Permits
import SchemaRpc.Proofs.Transport.Pipeline
import SchemaRpc.Proofs.Transport.Refusal
import SchemaRpc.Proofs.Wire.Cursors
import SchemaRpc.Proofs.Wire.VarintLength
import SchemaRpc.SafeInt.Json
import SchemaRpc.Services.Backend
import SchemaRpc.Simulation.Scripted
import SchemaRpc.Simulation.Sending
