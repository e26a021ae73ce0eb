import Imprint.Command.Switch

set_option autoImplicit false

/-!
# Requests

A request is what the words of a command line ask for: a template, data, and what the switches say.
Words are taken from left to right.  Plain words fill the places of the template and the data; what is
left over is reported at the end, after places that are still empty.
-/

namespace Imprint.Command

/-- What is asked for. -/
structure Request where
  template : String
  /-- The name of the file with the data; there is none if only a separator stands for it. -/
  data : Option String
  output : Option String
  configuration : Option String
  lenient : Bool
  leaveEmpty : Bool
  unresolvedDefault : Option String
  nullDefault : Option String
  lineBreak : Option String
  verbose : Bool
deriving DecidableEq, Repr, Inhabited

/-- Why there is no request: help is asked for, or something is wrong. -/
inductive Stop where
  | help
  | refused (refusal : Refusal)
deriving DecidableEq, Repr, Inhabited

/-- A request while its words are taken. -/
structure Draft where
  /-- Plain words for the template and the data. -/
  places : List (Option String)
  /-- Words that are left over, last one first. -/
  leftOver : List String
  request : Request
deriving Repr, Inhabited

/-! ## Switches -/

/-- What a word with switches says: the switches, the value of the last one if it is in the word, and
letters that name no switch. -/
structure Cluster where
  switches : List Switch
  value : Option String
  unknown : Option String
deriving DecidableEq, Repr, Inhabited

/-- Reads what follows a switch in a word. -/
def readCluster (switch : Switch) : List Char → Except Refusal Cluster
  | [] => .ok ⟨[switch], none, none⟩
  | letter :: rest =>
      if switch.takesValue then
        .ok ⟨[switch], some (String.ofList (if letter = '=' then rest else letter :: rest)), none⟩
      else if letter = '=' then .error (.ignoredValue switch (String.ofList rest))
      else if letter = '-' then .error (.ignoredValue switch (String.ofList (letter :: rest)))
      else
        match Switch.ofSpelling? (String.ofList ['-', letter]) with
        | none => .ok ⟨[switch], none, some (String.ofList ('-' :: letter :: rest))⟩
        | some next => do
            let cluster ← readCluster next rest
            return { cluster with switches := switch :: cluster.switches }

/-- Whether the value of the last switch is expected in the next word. -/
def Cluster.wantsValue (cluster : Cluster) : Bool :=
  cluster.value.isNone && cluster.unknown.isNone &&
    (cluster.switches.getLast?.map Switch.takesValue) == some true

namespace Request

/-- The request in front of all switches. -/
def start : Request :=
  ⟨"", none, none, none, false, false, none, none, none, false⟩

/-- Refuses a switch beside another one. -/
def refuseBeside (switch other : Switch) (present : Bool) : Except Stop Unit :=
  if present then .error (.refused (.conflict switch other)) else .ok ()

/-- The request with one more switch. -/
def withSwitch (request : Request) (switch : Switch) (value : String) : Except Stop Request := do
  match switch with
  | .help => .error .help
  | .output => return { request with output := some value }
  | .configuration => return { request with configuration := some value }
  | .lenient => return { request with lenient := true }
  | .leaveEmpty =>
      refuseBeside .leaveEmpty .unresolvedDefault request.unresolvedDefault.isSome
      return { request with leaveEmpty := true }
  | .unresolvedDefault =>
      refuseBeside .unresolvedDefault .leaveEmpty request.leaveEmpty
      return { request with unresolvedDefault := some value }
  | .nullDefault => return { request with nullDefault := some value }
  | .lineBreak => return { request with lineBreak := some value }
  | .verbose => return { request with verbose := true }

/-- The request with some more switches; a value belongs to those that take one. -/
def withSwitches (request : Request) (value : String) : List Switch → Except Stop Request
  | [] => .ok request
  | switch :: rest => do
      let request ← request.withSwitch switch value
      request.withSwitches value rest

end Request

/-! ## Words -/

namespace Draft

/-- Nothing has been taken yet. -/
def start : Draft := ⟨[], [], .start⟩

/-- Whether a place is empty. -/
def hasRoom (draft : Draft) : Bool :=
  draft.places.length < 2

/-- A word for the next place. -/
def fill (draft : Draft) (word : Option String) : Draft :=
  { draft with places := draft.places ++ [word] }

/-- A word that is left over. -/
def leave (draft : Draft) (word : String) : Draft :=
  { draft with leftOver := word :: draft.leftOver }

/-- The draft with the switches of a word. -/
def withCluster (draft : Draft) (cluster : Cluster) (value : String) : Except Stop Draft := do
  let draft := match cluster.unknown with
    | some word => draft.leave word
    | none => draft
  let request ← draft.request.withSwitches value cluster.switches
  return { draft with request }

/-- Takes the words of a command line.  A separator belongs to the plain word that fills a place in
front of it or behind it; what looks like one more separator stands for no word at all, unless the
separator belongs to it. -/
def take : List Word → Draft → Except Stop Draft
  | [], draft => .ok draft
  | .plain text :: .separator :: rest, draft =>
      if draft.hasRoom then take rest (draft.fill (some text))
      else take rest ((draft.leave text).leave "--")
  | .plain text :: rest, draft =>
      if draft.hasRoom then take rest (draft.fill (if text = "--" then none else some text))
      else take rest (draft.leave text)
  | .separator :: .plain text :: rest, draft =>
      if draft.hasRoom then take rest (draft.fill (some text))
      else take rest ((draft.leave "--").leave text)
  | .separator :: rest, draft => take rest (draft.leave "--")
  | .unknown text :: rest, draft => take rest (draft.leave text)
  | .switch switch attached :: rest, draft => do
      let cluster ← (readCluster switch attached).mapError Stop.refused
      if cluster.wantsValue then
        match rest with
        | .plain value :: rest => take rest (← draft.withCluster cluster value)
        | _ => .error (.refused (.missingValue (cluster.switches.getLastD switch)))
      else take rest (← draft.withCluster cluster (cluster.value.getD ""))

/-- The request, if all places are filled and nothing is left over. -/
def finish (draft : Draft) : Except Stop Request :=
  match draft.places with
  | template :: data :: _ =>
      if draft.leftOver.isEmpty then
        .ok { draft.request with template := template.getD "", data }
      else .error (.refused (.unknown draft.leftOver.reverse))
  | places => .error (.refused (.missing (["template", "context_json"].drop places.length)))

end Draft

/-- The request that the words of a command line make. -/
def Request.ofWords (words : List String) : Except Stop Request := do
  let words ← (Word.readAll words).mapError Stop.refused
  let draft ← Draft.take words .start
  draft.finish

end Imprint.Command
