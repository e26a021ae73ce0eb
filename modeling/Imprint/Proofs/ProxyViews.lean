import Imprint.Capability
import Imprint.Proofs.AttributeReading
import Imprint.Proofs.TextKeys
/-! # The views of a proxy

A proxy can be listed, counted, asked whether it has a name, and asked for the value of a name.  Listing goes
through the names that the data root tells of, while the others read the root under the one name. -/
set_option autoImplicit false
namespace Imprint
open Imprint.Action Value

/-- What a data root has under a name: the key of a mapping, or the public attribute of an object. -/
def Offers (store : Store) (root : Value) (name : String) (value : Value) : Prop :=
  match root with
  | .null => False
  | .dict cell => (textEntries (store.entries cell)).lookup name = some value
  | root => "_".isPrefixOf name = false ∧ (runOn (root.attribute? name) store).1 = .ok (some value)

namespace Proxy

variable {proxy : Proxy} {store : Store}

/-! ## The data root -/

theorem nodup_eraseDups : (names : List String) → names.eraseDups.Nodup
  | [] => List.nodup_nil
  | name :: rest => by
      rw [List.eraseDups_cons]
      have shorter := List.length_filter_le (fun other => !other == name) rest
      apply List.nodup_cons.mpr
      constructor
      · simp
      · exact nodup_eraseDups _
  termination_by names => names.length
  decreasing_by
    simp only [List.length_cons]
    omega

end Proxy
end Imprint
