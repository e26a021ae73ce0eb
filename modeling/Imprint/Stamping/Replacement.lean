import Imprint.Render
import Imprint.Stamping.Delimiters
import Imprint.Stamping.Directive

set_option autoImplicit false

/-!
# Replacing values

A replacer goes through the tokens of a paragraph from left to right, evaluates each, and puts the
rendered value into its place.  What happens to a token that cannot be evaluated, or whose value is
null, is a matter of policy.  At the end a placeholder for line breaks is replaced as well.
-/

namespace Imprint

open Xml Document

/-- Where the run properties of new runs come from. -/
inductive ReplacementStyle where
  /-- The mark of the paragraph. -/
  | paragraph
  /-- The run in which the replaced text starts. -/
  | token
deriving DecidableEq, Repr, Inhabited

namespace ReplacementStyle

/-- The style with a name. -/
def ofName? : String → Option ReplacementStyle
  | "paragraph" => some paragraph
  | "token" => some token
  | _ => none

/-- The style that a value names. -/
def ofValue? : Value → Option ReplacementStyle
  | .text name => ofName? name
  | _ => none

/-- The run properties for what takes the place of a text in a paragraph. -/
def properties (style : ReplacementStyle) (paragraph : Node) (wanted : List Char) : Option Node :=
  match style with
  | .paragraph => markProperties paragraph
  | token => propertiesAt paragraph wanted

end ReplacementStyle

/-- How values are replaced. -/
structure Replacer where
  renderers : Renderers
  delimiters : Delimiters
  /-- Whether the first token that cannot be evaluated ends the run. -/
  failing : Bool
  /-- Whether such tokens are removed. -/
  leaveEmpty : Bool
  /-- Whether such tokens are replaced by `unresolvedDefault`. -/
  replaceUnresolved : Bool
  unresolvedDefault : Value
  /-- Whether null values are rendered as `nullDefault`; otherwise their tokens stay. -/
  replaceNull : Bool
  nullDefault : Value
  /-- The text that stands for a line break, unless it counts as false. -/
  lineBreak : Value
  style : ReplacementStyle
  verbose : Bool
deriving Inhabited

namespace Replacer

/-- The replacer without any option set. -/
def standard : Replacer where
  renderers := .standard (.text standardPattern)
  delimiters := .ofScanner .values
  failing := true
  leaveEmpty := false
  replaceUnresolved := false
  unresolvedDefault := .null
  replaceNull := false
  nullDefault := .null
  lineBreak := .null
  style := .paragraph
  verbose := false

/-- The options of a replacer as they are given. -/
structure Options where
  failing : Value
  leaveEmpty : Value
  replaceUnresolved : Value
  unresolvedDefault : Value
  replaceNull : Value
  nullDefault : Value
  lineBreak : Value
  style : Value
  verbose : Value
deriving Inhabited

/-- The options that hold where none are given. -/
def Options.standard : Options where
  failing := .bool true
  leaveEmpty := .bool false
  replaceUnresolved := .bool false
  unresolvedDefault := .null
  replaceNull := .bool false
  nullDefault := .null
  lineBreak := .null
  style := .text "paragraph"
  verbose := .bool false

/-- Makes a replacer, if its options do not exclude each other. -/
def make (renderers : Renderers) (delimiters : Delimiters) (options : Options) : Heap Replacer := do
  let leaveEmpty ← options.leaveEmpty.truth
  let replaceUnresolved ← options.replaceUnresolved.truth
  if leaveEmpty && replaceUnresolved then
    throw (.valueError ("leave_empty_on_expression_error and replace_unresolved_expressions " ++
      "are mutually exclusive"))
  match ReplacementStyle.ofValue? options.style with
  | none => throw (.valueError (String.ofList
      ("Unknown replacement_style: ".toList ++ (← options.style.shown))))
  | some style => return {
      renderers, delimiters, style, leaveEmpty, replaceUnresolved
      failing := ← options.failing.truth
      unresolvedDefault := options.unresolvedDefault
      replaceNull := ← options.replaceNull.truth
      nullDefault := options.nullDefault
      lineBreak := options.lineBreak
      verbose := ← options.verbose.truth }

/-- The paragraph with content in place of the first occurrence of a text, which may be missing. -/
def replaceIn (replacer : Replacer) (paragraph : Node) (wanted : List Char) (content : Value) :
    Heap Node := do
  let run ← toRun content (replacer.style.properties paragraph wanted)
  return (replaceText? paragraph (Reading.ofParagraph paragraph) wanted run).getD paragraph

/-- The paragraph with a line break in place of the first occurrence of a text, if there is one. -/
def breakLine? (replacer : Replacer) (wanted : List Char) (paragraph : Node) : Option Node :=
  let properties := replacer.style.properties paragraph wanted
  replaceText? paragraph (Reading.ofParagraph paragraph) wanted (some (createBreakRun properties))

/-- The paragraph with line breaks in place of a text, as long as it occurs.  A line break reads as a letter
itself, so there may be no end to it; then there is no result. -/
def breakLines (replacer : Replacer) (wanted : List Char) (paragraph : Node) : Option Node :=
  match replacer.breakLine? wanted paragraph with
  | none => some paragraph
  | some broken => replacer |>.breakLines wanted broken
partial_fixpoint

end Replacer

namespace Engine

/-- Puts content in place of the first occurrence of a text in a paragraph. -/
def replace (replacer : Replacer) (paragraph : Nat) (wanted : List Char) (content : Value) :
    Engine Unit := do
  let changed ← replacer.replaceIn (← node paragraph) wanted content
  changeForest fun forest => forest.edit paragraph fun _ => changed

/-- Replaces the placeholder for line breaks in a paragraph. -/
def replaceLineBreaks (replacer : Replacer) (paragraph : Nat) : Engine Unit := do
  match replacer.lineBreak with
  | .text wanted =>
      match replacer.breakLines wanted.toList (← node paragraph) with
      | some broken => changeForest fun forest => forest.edit paragraph fun _ => broken
      | none => throw .endless
  | .unpaired _ => return ()
  | other => throw (.typeError
      ("'in <string>' requires string as left operand, not " ++ other.shortTypeName))

/-- Renders the value of a token and puts it into its place. -/
def replaceValue (replacer : Replacer) (paragraph : Nat) (token : List Char) (renderer : Renderer)
    (value : Value) : Engine Unit := do
  replace replacer paragraph token (← renderer.render value)
  if replacer.verbose then
    let preview := Text.preview (← value.plain) Text.previewLength
    say ("  [Replaced] '".toList ++ token ++ "' with ".toList ++ renderer.label.toList ++
      " (".toList ++ preview ++ [')'])

/-- Replaces the token of a value; a null value has its own policy. -/
def replaceResolved (replacer : Replacer) (paragraph : Nat) (token : List Char) (value : Value) :
    Engine Unit := do
  match value with
  | .null =>
      if replacer.replaceNull then
        replaceValue replacer paragraph token replacer.renderers.default replacer.nullDefault
      else if replacer.verbose then
        say ("  [Skip] '".toList ++ token ++ "' resolved to None, left in place".toList)
  | other => replaceValue replacer paragraph token (replacer.renderers.ofValue other) other

/-- Applies the policy for a token that could not be evaluated. -/
def replaceUnresolved (replacer : Replacer) (paragraph : Nat) (token : List Char) : Engine Unit := do
  if replacer.leaveEmpty then replace replacer paragraph token .null
  else if replacer.replaceUnresolved then
    replace replacer paragraph token replacer.unresolvedDefault

/-- What became of an attempt to evaluate an expression. -/
inductive Outcome where
  | resolved (value : Value)
  | unresolved (expression reason : String)
deriving Inhabited

/-- Evaluates an expression; that it cannot be resolved is an outcome unless it has to end the run.
`event` is what is noted about the attempt, which succeeds or does not. -/
def attempt (failing : Bool) (context : Context) (expression : String) (event : Bool → Event) :
    Engine Outcome := do
  try
    let value ← resolve context expression
    note (event true)
    pure (.resolved value)
  catch fault =>
    note (event false)
    match fault with
    | .unresolved expression reason =>
        if failing then throw fault else pure (.unresolved expression reason)
    | other => throw other

/-- Replaces one token of a paragraph. -/
def replaceToken (replacer : Replacer) (source : Nat → Engine Context) (paragraph : Nat)
    (token : List Char) : Engine Unit := do
  let context ← source paragraph
  let expression := String.ofList (replacer.delimiters.strip token)
  match ← attempt replacer.failing context expression (.value paragraph expression) with
  | .resolved value => replaceResolved replacer paragraph token value
  | .unresolved expression reason =>
      recordError expression reason "value expression"
      replaceUnresolved replacer paragraph token

/-- Replaces the values of a paragraph; `source` gives the context for each token. -/
def resolveParagraph (replacer : Replacer) (source : Nat → Engine Context) (paragraph : Nat) :
    Engine Unit := do
  changeSession fun session => { session with resolved := addOnce paragraph session.resolved }
  let tokens ← replacer.delimiters.tokens (paragraphText (← node paragraph))
  tokens.forM (replaceToken replacer source paragraph)
  if ← replacer.lineBreak.truth then replaceLineBreaks replacer paragraph

/-- Replaces the values of all paragraphs that have not been gone through in this session. -/
def resolveDocument (replacer : Replacer) (source : Nat → Engine Context) : Engine Unit := do
  let roots := (← world).template.roots
  visit forest
    (fun paragraph => do
      if !(← world).session.resolved.contains paragraph then
        resolveParagraph replacer source paragraph)
    (fun _ _ => return ())
    roots

end Engine

end Imprint
