import ScriptGraph.Definition.Document
import ScriptGraph.Machine.BasicHost
import ScriptGraph.Program.Listing
import ScriptGraph.Session.Action
import ScriptGraph.Store
import ScriptGraph.Proofs.Compilation.Renaming
import ScriptGraph.Proofs.Compilation.Refinement
import ScriptGraph.Proofs.Session.Acyclic
import ScriptGraph.Proofs.Session.Valid
import ScriptGraph.Proofs.Session.Coherence
import ScriptGraph.Proofs.Session.Events
import ScriptGraph.Proofs.Session.Entries
import ScriptGraph.Proofs.Session.Names
import ScriptGraph.Proofs.Session.Copied
import ScriptGraph.Proofs.Program.Artifact
import ScriptGraph.Proofs.Snapshot.Compilable
import ScriptGraph.Proofs.Session.Settled
import ScriptGraph.Proofs.Asset.RoundTrip
import ScriptGraph.Proofs.Machine.Recording
import ScriptGraph.Proofs.Machine.Blacklist
import ScriptGraph.Proofs.Layout.Keys
import ScriptGraph.Proofs.Session.Guard
import ScriptGraph.Proofs.Snapshot.Reported
import ScriptGraph.Proofs.Compilation.Visiting
import ScriptGraph.Proofs.Compilation.Repeated
import ScriptGraph.Proofs.Machine.Assembled
import ScriptGraph.Proofs.Lowering.Emission
import ScriptGraph.Proofs.Compilation.Typed
import ScriptGraph.Proofs.Compilation.Unambiguous
import ScriptGraph.Proofs.Compilation.EntryPoints
import ScriptGraph.Proofs.Compilation.Dead
import ScriptGraph.Proofs.Session.Selected
import ScriptGraph.Proofs.Session.Pasted
import ScriptGraph.Proofs.Catalog.Overloads
import ScriptGraph.Proofs.Session.Reserved
import ScriptGraph.Proofs.Snapshot.Accesses
import ScriptGraph.Proofs.Session.Removal
import ScriptGraph.Proofs.HeapLayout.Allocations
import ScriptGraph.Proofs.Compilation.Constants
import ScriptGraph.Proofs.Catalog.Prefixes
