import Imprint.Fault

set_option autoImplicit false

/-!
# Consoles

What a command tells goes to a console, message by message.  A console can refuse a message, for instance
because its encoding lacks a letter of it.  Nothing of such a message is shown, and its fault ends what the
command is about.
-/

namespace Imprint.Command

/-- A console: the fault with which it refuses a message behind those that it has shown, if it does. -/
structure Console where
  refusal? : List String → String → Option Fault

namespace Console

/-- A console that shows every message. -/
def unlimited : Console :=
  ⟨fun _ _ => none⟩

/-- A console with the letters of the basic Latin alphabet alone. -/
def ascii : Console :=
  ⟨fun _ message => (Text.encodingTrouble? "ascii" "ordinal not in range(128)" (128 ≤ ·)
    (message.toList.map Char.toNat)).map Fault.unencodable⟩

/-- Tells messages behind those that have been shown, up to the first one that is refused.  The result is what
has been shown then, and the fault. -/
def tell (console : Console) : List String → List String → List String × Option Fault
  | shown, [] => (shown, none)
  | shown, message :: rest =>
      match console.refusal? shown message with
      | some fault => (shown, some fault)
      | none => console.tell (shown ++ [message]) rest

end Console

end Imprint.Command
