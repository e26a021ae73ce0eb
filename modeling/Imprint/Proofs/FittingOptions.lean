import Imprint.Proofs.Action
import Imprint.Stamping.Stamper

/-! # Options that fit

An option is a switch, a text, or a text that may be missing.  Options that fit their kinds are refused for what they
say or not at all, and what they are refused with is an error of values.  A stamper can be made from options that are
not refused, and nothing goes wrong later because one of them is used as a text. -/
set_option autoImplicit false
namespace Imprint
open Imprint.Action Xml Document

/-! ## Kinds of options -/

namespace Value

/-- Values that texts of data are read as. -/
inductive IsData : Value → Prop where
  | null : IsData .null
  | bool (truth : Bool) : IsData (.bool truth)
  | int (number : Int) : IsData (.int number)
  | float (number : Float) : IsData (.float number)
  | text (content : String) : IsData (.text content)
  | list (cell : Nat) : IsData (.list cell)
  | dict (cell : Nat) : IsData (.dict cell)

/-- Texts, and what stands for a missing one. -/
inductive IsOptionalText : Value → Prop where
  | missing : IsOptionalText .null
  | text (content : String) : IsOptionalText (.text content)

end Value

/-- What an option may be. -/
inductive OptionKind where
  | switch
  | text
  | optionalText

/-- Whether a value is of a kind. -/
def OptionKind.Admits : OptionKind → Value → Prop
  | switch, value => value.IsData
  | text, value => ∃ content, value = .text content
  | optionalText, value => value.IsOptionalText

/-- The kind of an option. -/
def optionKind (name : String) : OptionKind :=
  if ["unresolved_expressions_default", "null_values_default", "line_break_placeholder"].contains name then
    .optionalText
  else if ["replacement_style", "variable_prefix", "variable_suffix", "processor_prefix", "processor_suffix",
    "date_format"].contains name then .text
  else .switch

namespace Configuration

/-- The law of the options: each of them is set alone. -/
theorem options_lawful : ∀ option ∈ options, ∀ other ∈ options,
    ∀ (value : Value) (configuration : Configuration), other.value (option.set value configuration) =
      if other.name = option.name then value else other.value configuration := by
  intro option member other memberToo value configuration
  simp only [options, List.mem_cons, List.not_mem_nil, or_false] at member memberToo
  rcases member with rfl | rfl | rfl | rfl | rfl | rfl | rfl | rfl | rfl | rfl | rfl | rfl | rfl | rfl <;>
    rcases memberToo with rfl | rfl | rfl | rfl | rfl | rfl | rfl | rfl | rfl | rfl | rfl | rfl | rfl | rfl <;> rfl

/-- Every option is of its kind. -/
def Proper (configuration : Configuration) : Prop :=
  ∀ option ∈ options, (optionKind option.name).Admits (option.value configuration)

theorem standard_proper : standard.Proper := by
  intro option member
  simp only [options, List.mem_cons, List.not_mem_nil, or_false] at member
  rcases member with rfl | rfl | rfl | rfl | rfl | rfl | rfl | rfl | rfl | rfl | rfl | rfl | rfl | rfl
  all_goals first
    | exact .bool _
    | exact .missing
    | exact ⟨_, rfl⟩

theorem Proper.set {configuration : Configuration} (proper : configuration.Proper) {name : String} {value : Value}
    (fits : (optionKind name).Admits value) : (configuration.set name value).Proper := by
  unfold Configuration.set
  cases found : option? name with
  | none => exact proper
  | some option =>
    have member := List.mem_of_find?_eq_some found
    have named : option.name = name := by simpa using List.find?_some found
    intro other among
    dsimp only
    rw [options_lawful option member other among]
    split
    · rename_i same
      rw [same, named]
      exact fits
    · exact proper other among

section Fields

variable {configuration : Configuration} (proper : configuration.Proper)
include proper

theorem Proper.switches : ∀ value ∈ [configuration.replacement.failing, configuration.replacement.leaveEmpty,
    configuration.replacement.replaceUnresolved, configuration.replacement.replaceNull,
    configuration.replacement.verbose], value.IsData := by
  simp only [List.forall_mem_cons, List.not_mem_nil, false_implies, implies_true, and_true]
  exact ⟨proper _ (List.mem_of_getElem? (show options[0]? = some _ from rfl)),
    proper _ (List.mem_of_getElem? (show options[1]? = some _ from rfl)),
    proper _ (List.mem_of_getElem? (show options[2]? = some _ from rfl)),
    proper _ (List.mem_of_getElem? (show options[4]? = some _ from rfl)),
    proper _ (List.mem_of_getElem? (show options[13]? = some _ from rfl))⟩

theorem Proper.unresolvedDefault : configuration.replacement.unresolvedDefault.IsOptionalText :=
  proper _ (List.mem_of_getElem? (show options[3]? = some _ from rfl))

theorem Proper.nullDefault : configuration.replacement.nullDefault.IsOptionalText :=
  proper _ (List.mem_of_getElem? (show options[5]? = some _ from rfl))

theorem Proper.lineBreak : configuration.replacement.lineBreak.IsOptionalText :=
  proper _ (List.mem_of_getElem? (show options[6]? = some _ from rfl))

theorem Proper.style : ∃ content, configuration.replacement.style = .text content :=
  proper _ (List.mem_of_getElem? (show options[7]? = some _ from rfl))

theorem Proper.delimiters : ∀ entry ∈ configuration.delimiters, ∃ content, entry.2 = .text content := by
  simp only [Configuration.delimiters, List.forall_mem_cons, List.not_mem_nil, false_implies, implies_true, and_true]
  exact ⟨proper _ (List.mem_of_getElem? (show options[8]? = some _ from rfl)),
    proper _ (List.mem_of_getElem? (show options[9]? = some _ from rfl)),
    proper _ (List.mem_of_getElem? (show options[10]? = some _ from rfl)),
    proper _ (List.mem_of_getElem? (show options[11]? = some _ from rfl))⟩

end Fields

end Configuration

/-! ## Vetting -/

theorem Value.IsData.truth {value : Value} (isData : value.IsData) (store : Store) :
    ∃ truth, runOn value.truth store = (.ok truth, store) := by
  cases isData with
  | null | bool | int | float | text | list | dict => exact ⟨_, rfl⟩

/-- A computation gives a value with a property or refuses with an error of values, and changes nothing. -/
def Vets {α : Type} (store : Store) (passes : α → Prop) (computation : Heap α) : Prop :=
  (∃ message, runOn computation store = (.error (.valueError message), store)) ∨
    ∃ value, runOn computation store = (.ok value, store) ∧ passes value

namespace Vets

variable {α β : Type} {store : Store} {passes : α → Prop} {passesToo : β → Prop}

theorem pure {value : α} (holds : passes value) : Vets store passes (Pure.pure value) :=
  .inr ⟨value, rfl, holds⟩

theorem refuse (message : String) : Vets store passes (throw (.valueError message)) :=
  .inl ⟨message, rfl⟩

theorem refused (message : String) (next : α → Heap β) :
    Vets store passesToo (throw (.valueError message) >>= next) :=
  .inl ⟨message, rfl⟩

theorem read {computation : Heap α} {next : α → Heap β} {value : α}
    (reads : runOn computation store = (.ok value, store)) (vets : Vets store passesToo (next value)) :
    Vets store passesToo (computation >>= next) := by
  unfold Vets
  rw [bind_goesOn reads]
  exact vets

theorem bind {computation : Heap α} {next : α → Heap β} (first : Vets store passes computation)
    (second : ∀ value, passes value → Vets store passesToo (next value)) :
    Vets store passesToo (computation >>= next) := by
  rcases first with ⟨message, refused⟩ | ⟨value, given, holds⟩
  · exact .inl ⟨message, bind_stops refused⟩
  · exact read given (second value holds)

theorem mono {other : α → Prop} {computation : Heap α} (implies : ∀ value, passes value → other value)
    (vets : Vets store passes computation) : Vets store other computation :=
  vets.imp_right fun ⟨value, given, holds⟩ => ⟨value, given, implies value holds⟩

/-- What a computation gives is what it has given. -/
theorem ran {computation : Heap α} (vets : Vets store passes computation) :
    Vets store (fun value => runOn computation store = (.ok value, store) ∧ passes value) computation :=
  vets.imp_right fun ⟨value, given, holds⟩ => ⟨value, given, given, holds⟩

theorem forM {items : List α} {body : α → Heap PUnit} (holds : α → Prop)
    (each : ∀ item ∈ items, Vets store (fun _ => holds item) (body item)) :
    Vets store (fun _ => ∀ item ∈ items, holds item) (items.forM body) := by
  induction items with
  | nil => exact .pure fun _ member => absurd member List.not_mem_nil
  | cons item rest hypothesis =>
    refine .bind (each item List.mem_cons_self) fun _ here => ?_
    refine Vets.mono ?_ (hypothesis fun other member => each other (List.mem_cons_of_mem _ member))
    exact fun _ later => List.forall_mem_cons.mpr ⟨here, later⟩

end Vets

/-! ## What is refused -/

namespace Configuration

/-- What a configuration that is not refused says of itself. -/
structure Accepted (configuration : Configuration) (store : Store) : Prop where
  policies : (runOn configuration.replacement.leaveEmpty.truth store).1 = .ok true →
    (runOn configuration.replacement.replaceUnresolved.truth store).1 = .ok false
  style : (ReplacementStyle.ofValue? configuration.replacement.style).isSome = true
  delimiters : ∀ entry ∈ configuration.delimiters, runOn entry.2.truth store = (.ok true, store)

section Validation

variable {configuration : Configuration} (proper : configuration.Proper) (store : Store)
include proper

theorem delimiter_vets : ∀ entry ∈ configuration.delimiters,
    Vets store (fun _ => runOn entry.2.truth store = (.ok true, store)) (do
      if !(← entry.2.truth) then throw (.valueError (entry.1 ++ " must not be empty"))) := by
  intro entry member
  obtain ⟨content, isText⟩ := proper.delimiters entry member
  obtain ⟨filled, reads⟩ : ∃ filled, runOn entry.2.truth store = (.ok filled, store) := by
    rw [isText]
    exact (Value.IsData.text content).truth store
  refine .read reads ?_
  cases filled with
  | true => exact .pure reads
  | false => exact .refuse _

/-- What is looked at once the policies go together. -/
theorem shape_vets (policies : (runOn configuration.replacement.leaveEmpty.truth store).1 = .ok true →
      (runOn configuration.replacement.replaceUnresolved.truth store).1 = .ok false) :
    Vets store (fun _ => configuration.Accepted store) (do
      if (ReplacementStyle.ofValue? configuration.replacement.style).isNone then
        throw (.valueError (String.ofList ("replacement_style must be one of paragraph, token, got ".toList ++
          (← configuration.replacement.style.shown))))
      configuration.delimiters.forM fun (name, value) => do
        if !(← value.truth) then throw (.valueError (name ++ " must not be empty"))
      if ← configuration.variable_.opening.isEqual configuration.processor.opening then
        throw (.valueError "variable_prefix and processor_prefix must differ")) := by
  cases known : ReplacementStyle.ofValue? configuration.replacement.style with
  | none =>
    obtain ⟨style, isStyle⟩ := proper.style
    have shows : runOn configuration.replacement.style.shown store = (.ok (Text.quoted style.toList), store) := by
      rw [isStyle]
      rfl
    exact .read shows (.refused _ _)
  | some style =>
    refine .bind (.forM (fun entry => runOn entry.2.truth store = (.ok true, store)) (delimiter_vets proper store))
      fun _ filled => ?_
    obtain ⟨opening, isOpening⟩ := proper.delimiters _ (List.mem_of_getElem? (show _[0]? = some _ from rfl))
    obtain ⟨other, isOther⟩ := proper.delimiters _ (List.mem_of_getElem? (show _[2]? = some _ from rfl))
    have compares : runOn (configuration.variable_.opening.isEqual configuration.processor.opening) store =
        (.ok (opening == other), store) := by
      dsimp only at isOpening isOther
      rw [isOpening, isOther]
      rfl
    refine .read compares ?_
    split
    · exact .refuse _
    · exact .pure ⟨policies, by rw [known]; rfl, filled⟩

theorem validate_vets : Vets store (fun _ => configuration.Accepted store) configuration.validate := by
  obtain ⟨empties, readEmpties⟩ := (proper.switches configuration.replacement.leaveEmpty (by simp)).truth store
  obtain ⟨replaces, readReplaces⟩ :=
    (proper.switches configuration.replacement.replaceUnresolved (by simp)).truth store
  unfold validate
  refine .read readEmpties ?_
  cases empties with
  | false => exact shape_vets proper store fun impossible => by rw [readEmpties] at impossible; cases impossible
  | true =>
    refine .read readReplaces ?_
    cases replaces with
    | true => exact .refused _ _
    | false => exact shape_vets proper store fun _ => by rw [readReplaces]

end Validation

theorem unknownOptions_reads (store : Store) {names : List Value}
    (texts : ∀ name ∈ names, ∃ content, name = .text content) :
    ∃ unknown, runOn (unknownOptions names) store = (.ok unknown, store) := by
  induction names with
  | nil => exact ⟨[], rfl⟩
  | cons name rest hypothesis =>
    obtain ⟨content, rfl⟩ := texts name List.mem_cons_self
    obtain ⟨others, reads⟩ := hypothesis fun other member => texts other (List.mem_cons_of_mem _ member)
    exact ⟨_, bind_goesOn reads⟩

theorem foldl_proper (entries : List (Value × Value))
    (fits : ∀ entry ∈ entries, ∃ name, entry.1 = .text name ∧ (optionKind name).Admits entry.2) :
    ∀ configuration : Configuration, configuration.Proper →
      (entries.foldl (fun (configuration : Configuration) (name, value) =>
        match name with
        | .text name => configuration.set name value
        | _ => configuration) configuration).Proper := by
  induction entries with
  | nil => exact fun _ proper => proper
  | cons entry rest hypothesis =>
    intro configuration proper
    obtain ⟨name, isName, admitted⟩ := fits entry List.mem_cons_self
    obtain ⟨key, value⟩ := entry
    obtain rfl : key = .text name := isName
    exact hypothesis (fun other member => fits other (List.mem_cons_of_mem _ member)) _ (proper.set admitted)

theorem ofValue_vets_accepted (data : Value) (store : Store)
    (fits : ∀ cell, data = .dict cell → ∀ entry ∈ store.entries cell, ∃ name, entry.1 = .text name ∧
      (optionKind name).Admits entry.2) :
    Vets store (fun configuration => configuration.Proper ∧ configuration.Accepted store ∧
      runOn configuration.validate store = (.ok (), store)) (ofValue data) := by
  unfold ofValue
  split
  · rename_i cell
    have texts : ∀ name ∈ (store.entries cell).map (·.1), ∃ content, name = .text content := by
      intro name member
      obtain ⟨entry, isEntry, rfl⟩ := List.mem_map.mp member
      obtain ⟨content, isText, -⟩ := fits cell rfl entry isEntry
      exact ⟨content, isText⟩
    obtain ⟨unknown, reads⟩ := unknownOptions_reads store texts
    have proper := foldl_proper (store.entries cell) (fits cell rfl) standard standard_proper
    have entries : runOn (Heap.entries cell) store = (.ok (store.entries cell), store) := rfl
    have known : Vets store (fun _ => True) (requireOptions ((store.entries cell).map (·.1))) := by
      unfold requireOptions
      refine .read reads ?_
      split
      · exact .refuse _
      · exact .pure trivial
    refine .read entries (.bind known fun _ _ => ?_)
    exact .bind (validate_vets proper store).ran fun _ ⟨validated, accepted⟩ =>
      .pure ⟨proper, accepted, validated⟩
  · exact .refuse _

end Configuration

/-! ## Stampers -/

theorem Delimiters.make_reads {delimiters : Delimiters} {store : Store}
    (opening : ∃ content, delimiters.opening = .text content)
    (opens : runOn delimiters.opening.truth store = (.ok true, store))
    (closes : runOn delimiters.closing.truth store = (.ok true, store)) :
    runOn (Delimiters.make delimiters.opening delimiters.closing) store = (.ok delimiters, store) := by
  obtain ⟨opening, closing⟩ := delimiters
  obtain ⟨content, rfl⟩ := opening
  unfold Delimiters.make
  rw [bind_goesOn opens]
  dsimp only
  rw [Bool.not_true, if_neg Bool.false_ne_true, bind_goesOn closes, Bool.not_true, if_neg Bool.false_ne_true]
  rfl

theorem Replacer.make_reads {configuration : Configuration} (proper : configuration.Proper) {store : Store}
    (accepted : configuration.Accepted store) (renderers : Renderers) (delimiters : Delimiters) :
    ∃ replacer, runOn (Replacer.make renderers delimiters configuration.replacement) store = (.ok replacer, store) ∧
      replacer.delimiters = delimiters ∧ replacer.unresolvedDefault = configuration.replacement.unresolvedDefault ∧
      replacer.nullDefault = configuration.replacement.nullDefault ∧
      replacer.lineBreak = configuration.replacement.lineBreak := by
  obtain ⟨fails, readFails⟩ := (proper.switches configuration.replacement.failing (by simp)).truth store
  obtain ⟨empties, readEmpties⟩ := (proper.switches configuration.replacement.leaveEmpty (by simp)).truth store
  obtain ⟨replaces, readReplaces⟩ :=
    (proper.switches configuration.replacement.replaceUnresolved (by simp)).truth store
  obtain ⟨nulls, readNulls⟩ := (proper.switches configuration.replacement.replaceNull (by simp)).truth store
  obtain ⟨tells, readTells⟩ := (proper.switches configuration.replacement.verbose (by simp)).truth store
  obtain ⟨style, isStyle⟩ := Option.isSome_iff_exists.mp accepted.style
  have apart : (empties && replaces) = false := by
    cases empties with
    | false => rfl
    | true =>
      have policies := accepted.policies (by rw [readEmpties])
      rw [readReplaces] at policies
      exact Except.ok.inj policies
  unfold Replacer.make
  rw [bind_goesOn readEmpties, bind_goesOn readReplaces, apart, if_neg Bool.false_ne_true, isStyle]
  dsimp only
  rw [bind_goesOn readFails, bind_goesOn readNulls, bind_goesOn readTells]
  exact ⟨_, rfl, rfl, rfl, rfl, rfl⟩

/-- A stamper whose options are used as texts without trouble: the delimiters when a text is searched for tokens, the
placeholder when line breaks are put in, the defaults when a run is made of them. -/
structure Stamper.Steady (stamper : Stamper) : Prop where
  values : ∀ letters store, ∃ tokens, runOn (stamper.replacer.delimiters.tokens letters) store = (.ok tokens, store)
  directives : ∀ letters store, ∃ tokens,
    runOn (stamper.dispatcher.delimiters.tokens letters) store = (.ok tokens, store)
  lineBreaks : ∀ paragraph machine, (runOn stamper.replacer.lineBreak.truth machine.store).1 = .ok true →
    (runOn (Engine.replaceLineBreaks stamper.replacer paragraph) machine).1 = .ok () ∨
      (runOn (Engine.replaceLineBreaks stamper.replacer paragraph) machine).1 = .error .endless
  defaults : ∀ value ∈ [stamper.replacer.unresolvedDefault, stamper.replacer.nullDefault], ∀ properties store,
    Vets store (fun _ => True) (toRun value properties)
  missing : ∀ properties store,
    Vets store (fun _ => True) (runOfPieces stamper.dispatcher.settings.nullDefault properties)

theorem Delimiters.tokens_reads {delimiters : Delimiters} (opening : ∃ content, delimiters.opening = .text content)
    (closing : ∃ content, delimiters.closing = .text content) (letters : List Char) (store : Store) :
    ∃ tokens, runOn (delimiters.tokens letters) store = (.ok tokens, store) := by
  obtain ⟨opening, closing⟩ := delimiters
  obtain ⟨content, rfl⟩ := opening
  obtain ⟨other, rfl⟩ := closing
  unfold tokens
  split
  · exact ⟨_, rfl⟩
  · exact ⟨_, rfl⟩

theorem runOfText_vets (letters : List Char) (properties : Option Node) (store : Store) :
    Vets store (fun _ => True) (runOfText letters properties) := by
  unfold runOfText requireWritable
  split
  · exact .pure trivial
  · rename_i fault refused
    split at refused
    · cases refused
    · cases refused
      exact .refuse _

section Defaults

variable {value : Value} (optional : value.IsOptionalText) (properties : Option Node) (store : Store)
include optional

theorem toRun_vets : Vets store (fun _ => True) (toRun value properties) := by
  cases optional with
  | missing => exact .pure trivial
  | text content => exact .bind (runOfText_vets content.toList properties store) fun _ _ => .pure trivial

theorem runOfPieces_vets : Vets store (fun _ => True) (runOfPieces value properties) := by
  cases optional with
  | missing => exact .pure trivial
  | text content => exact runOfText_vets content.toList properties store

end Defaults

theorem Engine.replaceLineBreaks_vets {replacer : Replacer} (optional : replacer.lineBreak.IsOptionalText)
    (paragraph : Nat) (machine : Machine World)
    (wanted : (runOn replacer.lineBreak.truth machine.store).1 = .ok true) :
    (runOn (replaceLineBreaks replacer paragraph) machine).1 = .ok () ∨
      (runOn (replaceLineBreaks replacer paragraph) machine).1 = .error .endless := by
  obtain ⟨found, reads⟩ : ∃ found, runOn (node paragraph) machine = (.ok found, machine) := ⟨_, rfl⟩
  unfold replaceLineBreaks
  generalize replacer.lineBreak = placeholder at optional wanted
  cases optional with
  | missing => cases wanted
  | text content =>
    dsimp only
    rw [bind_goesOn reads]
    split
    · exact .inl rfl
    · exact .inr rfl

theorem Stamper.make_reads {configuration : Configuration} (proper : configuration.Proper) {store : Store}
    (accepted : configuration.Accepted store) (validated : runOn configuration.validate store = (.ok (), store))
    (renderers : List (ValueType × Renderer)) :
    ∃ stamper, runOn (Stamper.make configuration renderers []) store = (.ok stamper, store) ∧ stamper.Steady := by
  have text (index : Nat) (entry : String × Value) (isEntry : configuration.delimiters[index]? = some entry) :
      ∃ content, entry.2 = .text content := proper.delimiters entry (List.mem_of_getElem? isEntry)
  have filled (index : Nat) (entry : String × Value) (isEntry : configuration.delimiters[index]? = some entry) :
      runOn entry.2.truth store = (.ok true, store) := accepted.delimiters entry (List.mem_of_getElem? isEntry)
  have values := Delimiters.make_reads (text 0 _ rfl) (filled 0 _ rfl) (filled 1 _ rfl)
  have directives := Delimiters.make_reads (text 2 _ rfl) (filled 2 _ rfl) (filled 3 _ rfl)
  obtain ⟨replacer, replaces, delimiters, unresolvedDefault, nullDefault, lineBreak⟩ :=
    Replacer.make_reads proper accepted ((Renderers.standard configuration.datePattern).withAll renderers)
      configuration.variable_
  have functions : runOn ((ProxyBuilder.ofRoot .null).withInterfaces []) store = (.ok (.ofRoot .null), store) := rfl
  unfold Stamper.make
  rw [bind_goesOn validated]
  dsimp only
  rw [bind_goesOn values, bind_goesOn replaces, bind_goesOn functions, bind_goesOn directives]
  refine ⟨_, rfl, ?_, ?_, ?_, ?_, ?_⟩
  · exact delimiters ▸ Delimiters.tokens_reads (text 0 _ rfl) (text 1 _ rfl)
  · exact Delimiters.tokens_reads (text 2 _ rfl) (text 3 _ rfl)
  · exact Engine.replaceLineBreaks_vets (lineBreak ▸ proper.lineBreak)
  · simp only [List.forall_mem_cons, List.not_mem_nil, false_implies, implies_true, and_true]
    exact ⟨toRun_vets (unresolvedDefault ▸ proper.unresolvedDefault),
      toRun_vets (nullDefault ▸ proper.nullDefault)⟩
  · exact runOfPieces_vets (nullDefault ▸ proper.nullDefault)

/-- Options that fit their kinds are refused when they are read, with an error of values, or a stamper can be made of
them that does not fail because one of them is no text. -/
theorem Configuration.ofValue_vets (data : Value) (store : Store)
    (fits : ∀ cell, data = .dict cell → ∀ entry ∈ store.entries cell, ∃ name, entry.1 = .text name ∧
      (optionKind name).Admits entry.2) :
    Vets store (fun configuration => ∀ renderers, ∃ stamper,
      runOn (Stamper.make configuration renderers []) store = (.ok stamper, store) ∧ stamper.Steady)
      (Configuration.ofValue data) :=
  .mono (fun _ ⟨proper, accepted, validated⟩ renderers => Stamper.make_reads proper accepted validated renderers)
    (ofValue_vets_accepted data store fits)

end Imprint
