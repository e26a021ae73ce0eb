import Imprint.Capability
import Imprint.Proofs.Action
import Mathlib.Data.List.Induction
import Mathlib.Data.List.Pairwise

/-! # Registrations of a builder

A sequence of registrations leaves one entry for each interface, with the implementation that came last.  Values
that are no interfaces are kept as well, until the builder is asked for a proxy. -/
set_option autoImplicit false
namespace Imprint.ProxyBuilder
open Imprint.Action

/-- What an implementation is registered for: a declared interface, or a value that is none. -/
inductive Subject where
  | declared (name : String)
  | value (value : Value)

/-- The name of an interface. -/
def Subject.name? : Subject → Option String
  | declared name => some name
  | value _ => none

theorem Subject.eq_declared {subject : Subject} {name : String} (named : subject.name? = some name) :
    subject = .declared name := by
  cases subject with
  | declared found => exact congrArg _ (Option.some.inj named)
  | value value => cases named

/-- What is registered: an implementation, and what for. -/
abbrev Registration : Type := Subject × ImplementationId

/-- The interfaces that are declared, and what can be read from each implementation. -/
structure Catalogue where
  declarations : List Declaration
  className : ImplementationId → String
  members : ImplementationId → List (String × Value)

namespace Catalogue

variable (catalogue : Catalogue)

/-- The interface with a name. -/
def interface (name : String) : Interface :=
  ⟨name, interfaceMethods catalogue.declarations name⟩

/-- The implementation with an identity. -/
def implementation (identity : ImplementationId) : Implementation :=
  ⟨identity, catalogue.className identity, catalogue.members identity⟩

@[simp] theorem implementation_identity (identity : ImplementationId) :
    (catalogue.implementation identity).identity = identity := rfl

/-- What a builder is given to register an implementation for. -/
def reference : Subject → InterfaceRef
  | .declared name => .interface (catalogue.interface name)
  | .value value => .value value

/-- What a builder holds of a registration. -/
def entry (registration : Registration) : InterfaceRef × Implementation :=
  (catalogue.reference registration.1, catalogue.implementation registration.2)

/-- What can be called of an implementation under a name. -/
def callable? (identity : ImplementationId) (method : String) : Option Value :=
  ((catalogue.members identity).lookup method).filter Value.isCallable

/-- An interface has the public methods of all that stand in its lookup order. -/
def Declares (name method : String) : Prop :=
  ∃ owner ∈ lookupOrder catalogue.declarations (catalogue.declarations.length + 1) name, ∃ declaration,
    catalogue.declarations.find? (fun declaration => declaration.name == owner) = some declaration ∧
      method ∈ declaration.methods ∧ "_".isPrefixOf method = false

theorem mem_methods_iff (name method : String) :
    method ∈ (catalogue.interface name).methods ↔ catalogue.Declares name method := by
  show method ∈ List.eraseDups _ ↔ _
  rw [List.mem_eraseDups, List.mem_flatMap]
  apply exists_congr
  intro owner
  apply and_congr_right
  intro _
  cases catalogue.declarations.find? fun declaration => declaration.name == owner <;> simp

end Catalogue

/-- The implementation that was registered last for an interface. -/
def lastFor (registrations : List Registration) (name : String) : Option ImplementationId :=
  registrations.foldl (fun last registration =>
    if registration.1.name? = some name then some registration.2 else last) none

theorem lastFor_concat (registrations : List Registration) (registration : Registration) (name : String) :
    lastFor (registrations ++ [registration]) name =
      if registration.1.name? = some name then some registration.2 else lastFor registrations name := by
  rw [lastFor, List.foldl_append]
  rfl

/-- Builders that a sequence of registrations leads to.  The store and the data root may change in between. -/
inductive Registered (catalogue : Catalogue) : List Registration → ProxyBuilder → Prop where
  | start (root : Value) : Registered catalogue [] (.ofRoot root)
  | call {registrations builder subject identity next} {store after : Store} :
      Registered catalogue registrations builder →
      runOn (builder.withInterface (catalogue.reference subject) (catalogue.implementation identity)) store =
        (.ok next, after) →
      Registered catalogue (registrations ++ [(subject, identity)]) next
  | rooted {registrations builder} (root : Value) :
      Registered catalogue registrations builder → Registered catalogue registrations { builder with root }
  | copied {registrations builder} (root : Value) :
      Registered catalogue registrations builder → Registered catalogue registrations (builder.copy root)

/-- What keeps registrations from being built. -/
inductive Refused (catalogue : Catalogue) (registrations : List Registration) : Prop where
  | noInterface {value identity} : (.value value, identity) ∈ registrations → Refused catalogue registrations
  | noMethods {name identity} : lastFor registrations name = some identity →
      (∀ method, ¬ catalogue.Declares name method) → Refused catalogue registrations
  | notImplemented {name identity method} : lastFor registrations name = some identity →
      catalogue.Declares name method → catalogue.callable? identity method = none → Refused catalogue registrations
  | claimedTwice {first second one other method} : lastFor registrations first = some one →
      lastFor registrations second = some other → catalogue.Declares first method →
      catalogue.Declares second method → one ≠ other → Refused catalogue registrations

/-- Whether two sequences of registrations end alike, in whatever order. -/
structure Alike (left right : List Registration) : Prop where
  last : ∀ name, lastFor left name = lastFor right name
  values : (∃ value identity, (.value value, identity) ∈ left) ↔ ∃ value identity, (.value value, identity) ∈ right

variable {catalogue : Catalogue} {registrations kept : List Registration} {store after : Store}

/-! ## Registering -/

/-- Two subjects that are found to be the same are one interface, or two values. -/
theorem name?_of_same {subject other : Subject}
    (same : runOn (isSameReference (catalogue.reference other) (catalogue.reference subject)) store =
      (.ok true, after)) : other.name? = subject.name? := by
  cases other with
  | declared left =>
    cases subject with
    | declared right =>
      have equal : (left == right) = true := Except.ok.inj (congrArg Prod.fst same)
      exact congrArg some (eq_of_beq equal)
    | value right => cases same
  | value left =>
    cases subject with
    | declared right => cases same
    | value right => rfl

theorem name?_of_apart {subject other : Subject}
    (apart : runOn (isSameReference (catalogue.reference other) (catalogue.reference subject)) store =
      (.ok false, after)) {name : String} (named : other.name? = some name) : subject.name? ≠ some name := by
  cases other with
  | value left => cases named
  | declared left =>
    obtain rfl : left = name := Option.some.inj named
    cases subject with
    | value right => exact nofun
    | declared right =>
      have different : (left == right) = false := Except.ok.inj (congrArg Prod.fst apart)
      exact fun equal => absurd (Option.some.inj equal).symm (ne_of_beq_false different)

/-- Registrations that are not for the same interface. -/
def Apart (left right : Registration) : Prop :=
  ∀ name, left.1.name? = some name → right.1.name? ≠ some name

instance : Std.Symm Apart where
  symm _ _ apart name named found := apart name found named

theorem eq_of_apart {name : String} {one other : ImplementationId} (distinct : kept.Pairwise Apart)
    (first : (.declared name, one) ∈ kept) (second : (.declared name, other) ∈ kept) : one = other := by
  by_cases equal : one = other
  · exact equal
  · exact absurd rfl (distinct.forall first second (fun same => equal (congrArg Prod.snd same)) name rfl)

/-- How a registration is placed among those that are kept. -/
inductive Placed (subject : Subject) (identity : ImplementationId) :
    List Registration → List Registration → Prop where
  | last : Placed subject identity [] [(subject, identity)]
  | here {other old rest} : other.name? = subject.name? →
      Placed subject identity ((other, old) :: rest) ((other, identity) :: rest)
  | later {other old rest next} : Apart (other, old) (subject, identity) →
      Placed subject identity rest next → Placed subject identity ((other, old) :: rest) ((other, old) :: next)

theorem insert_placed {subject : Subject} {identity : ImplementationId}
    {next : List (InterfaceRef × Implementation)}
    (accepted : runOn (insert (catalogue.reference subject) (catalogue.implementation identity)
      (kept.map catalogue.entry)) store = (.ok next, after)) :
    ∃ placed, next = placed.map catalogue.entry ∧ Placed subject identity kept placed := by
  induction kept generalizing store after next with
  | nil =>
    cases accepted
    exact ⟨[(subject, identity)], rfl, .last⟩
  | cons registration rest hypothesis =>
    obtain ⟨other, old⟩ := registration
    rw [List.map_cons, Catalogue.entry, insert] at accepted
    obtain ⟨same, middle, compared, accepted⟩ := bind_ok accepted
    cases same with
    | true =>
      cases accepted
      exact ⟨(other, identity) :: rest, rfl, .here (name?_of_same compared)⟩
    | false =>
      rw [if_neg Bool.false_ne_true] at accepted
      obtain ⟨inserted, final, accepted, result⟩ := bind_ok accepted
      cases result
      obtain ⟨placed, rfl, later⟩ := hypothesis accepted
      exact ⟨(other, old) :: placed, rfl, .later (fun _ => name?_of_apart compared) later⟩

namespace Placed

variable {subject : Subject} {identity : ImplementationId} {next : List Registration}

theorem stays (placed : Placed subject identity kept next) {other : Subject} {old : ImplementationId}
    (member : (other, old) ∈ kept) : ∃ new, (other, new) ∈ next := by
  induction placed with
  | last => cases member
  | here =>
    obtain equal | member := List.mem_cons.mp member
    · cases equal
      exact ⟨_, List.mem_cons_self⟩
    · exact ⟨old, List.mem_cons_of_mem _ member⟩
  | later _ _ hypothesis =>
    obtain equal | member := List.mem_cons.mp member
    · cases equal
      exact ⟨_, List.mem_cons_self⟩
    · obtain ⟨new, member⟩ := hypothesis member
      exact ⟨new, List.mem_cons_of_mem _ member⟩

theorem comes (placed : Placed subject identity kept next) {other : Subject} {new : ImplementationId}
    (member : (other, new) ∈ next) : other = subject ∨ ∃ old, (other, old) ∈ kept := by
  induction placed with
  | last => exact .inl (congrArg Prod.fst (List.mem_singleton.mp member))
  | here =>
    obtain equal | member := List.mem_cons.mp member
    · cases equal
      exact .inr ⟨_, List.mem_cons_self⟩
    · exact .inr ⟨new, List.mem_cons_of_mem _ member⟩
  | later _ _ hypothesis =>
    obtain equal | member := List.mem_cons.mp member
    · cases equal
      exact .inr ⟨_, List.mem_cons_self⟩
    · exact (hypothesis member).imp_right fun ⟨old, member⟩ => ⟨old, List.mem_cons_of_mem _ member⟩

theorem arrives (placed : Placed subject identity kept next) :
    ∃ other, (other, identity) ∈ next ∧ other.name? = subject.name? := by
  induction placed with
  | last => exact ⟨subject, List.mem_cons_self, rfl⟩
  | here same => exact ⟨_, List.mem_cons_self, same⟩
  | later _ _ hypothesis =>
    obtain ⟨other, member, same⟩ := hypothesis
    exact ⟨other, List.mem_cons_of_mem _ member, same⟩

theorem elsewhere (placed : Placed subject identity kept next) {name : String}
    (apart : subject.name? ≠ some name) (old : ImplementationId) :
    (.declared name, old) ∈ next ↔ (.declared name, old) ∈ kept := by
  have other {holder : Subject} (same : holder.name? = subject.name?) (new : ImplementationId) :
      (.declared name, old) ≠ (holder, new) := by
    intro equal
    cases equal
    exact apart same.symm
  induction placed with
  | last => exact iff_of_false (fun member => other rfl identity (List.mem_singleton.mp member)) List.not_mem_nil
  | here same => rw [List.mem_cons, List.mem_cons, or_iff_right (other same _), or_iff_right (other same _)]
  | later _ _ hypothesis => exact List.mem_cons.trans ((or_congr_right hypothesis).trans List.mem_cons.symm)

theorem distinct (placed : Placed subject identity kept next) (distinct : kept.Pairwise Apart) :
    next.Pairwise Apart := by
  induction placed with
  | last => exact List.pairwise_singleton _ _
  | here =>
    obtain ⟨first, rest⟩ := List.pairwise_cons.mp distinct
    exact List.pairwise_cons.mpr ⟨first, rest⟩
  | later apart placed hypothesis =>
    obtain ⟨first, rest⟩ := List.pairwise_cons.mp distinct
    refine List.pairwise_cons.mpr ⟨fun registration member name named => ?_, hypothesis rest⟩
    obtain new | ⟨old, member⟩ := placed.comes member
    · rw [new]
      exact apart name named
    · exact first _ member name named

end Placed

/-- What a builder keeps of a sequence of registrations. -/
structure Reflects (registrations kept : List Registration) : Prop where
  last : ∀ name identity, (.declared name, identity) ∈ kept ↔ lastFor registrations name = some identity
  distinct : kept.Pairwise Apart
  value : ∀ {value identity}, (.value value, identity) ∈ kept →
    ∃ identity, (.value value, identity) ∈ registrations
  valued : ∀ {value identity}, (.value value, identity) ∈ registrations →
    ∃ value identity, (.value value, identity) ∈ kept

theorem Reflects.placed {subject : Subject} {identity : ImplementationId} {next : List Registration}
    (reflects : Reflects registrations kept) (placed : Placed subject identity kept next) :
    Reflects (registrations ++ [(subject, identity)]) next where
  last := by
    intro name other
    rw [lastFor_concat]
    by_cases named : subject.name? = some name
    · rw [if_pos named, Option.some_inj]
      obtain ⟨holder, member, same⟩ := placed.arrives
      obtain rfl := Subject.eq_declared (same.trans named)
      constructor
      · exact eq_of_apart (placed.distinct reflects.distinct) member
      · rintro rfl
        exact member
    · rw [if_neg named, placed.elsewhere named]
      exact reflects.last name other
  distinct := placed.distinct reflects.distinct
  value := by
    intro value other member
    obtain rfl | ⟨old, member⟩ := placed.comes member
    · exact ⟨identity, List.mem_append_right _ List.mem_cons_self⟩
    · obtain ⟨first, member⟩ := reflects.value member
      exact ⟨first, List.mem_append_left _ member⟩
  valued := by
    intro value other member
    obtain member | member := List.mem_append.mp member
    · obtain ⟨value, old, member⟩ := reflects.valued member
      exact ⟨value, placed.stays member⟩
    · cases List.mem_singleton.mp member
      obtain ⟨holder, member, same⟩ := placed.arrives
      cases holder with
      | declared name => cases same
      | value value => exact ⟨value, identity, member⟩

theorem copy_interfaces (builder : ProxyBuilder) (root : Value) :
    (builder.copy root).interfaces = builder.interfaces := by
  cases root <;> rfl

theorem withInterface_ok {builder next : ProxyBuilder} {interface : InterfaceRef} {implementation : Implementation}
    (accepted : runOn (builder.withInterface interface implementation) store = (.ok next, after)) :
    ∃ middle, runOn (insert interface implementation builder.interfaces) middle = (.ok next.interfaces, after) := by
  have inserted {start : Store} (accepted : runOn (do
      return { builder with interfaces := ← insert interface implementation builder.interfaces }) start =
        (.ok next, after)) :
      ∃ middle, runOn (insert interface implementation builder.interfaces) middle = (.ok next.interfaces, after) := by
    obtain ⟨entries, final, inserted, result⟩ := bind_ok accepted
    cases result
    exact ⟨start, inserted⟩
  cases interface with
  | interface interface => exact inserted accepted
  | value value =>
    obtain ⟨_, middle, _, accepted⟩ := bind_ok accepted
    exact inserted accepted

/-- Only the registrations that came last are kept, one for each interface. -/
theorem registered_reflects {builder : ProxyBuilder} (registered : Registered catalogue registrations builder) :
    ∃ kept, builder.interfaces = kept.map catalogue.entry ∧ Reflects registrations kept := by
  induction registered with
  | start root => exact ⟨[], rfl, by simp [lastFor], .nil, nofun, nofun⟩
  | rooted root _ hypothesis => exact hypothesis
  | copied root _ hypothesis => rwa [copy_interfaces]
  | call _ accepted hypothesis =>
    obtain ⟨kept, entries, reflects⟩ := hypothesis
    obtain ⟨middle, inserted⟩ := withInterface_ok accepted
    rw [entries] at inserted
    obtain ⟨next, placed, holds⟩ := insert_placed inserted
    exact ⟨next, placed, reflects.placed holds⟩

/-! ## Order -/

theorem Alike.symm {left right : List Registration} (alike : Alike left right) : Alike right left :=
  ⟨fun name => (alike.last name).symm, alike.values.symm⟩

theorem mem_iff_last (distinct : registrations.Pairwise Apart) (name : String) (identity : ImplementationId) :
    (.declared name, identity) ∈ registrations ↔ lastFor registrations name = some identity := by
  induction registrations using List.reverseRecOn with
  | nil => simp [lastFor]
  | append_singleton front registration hypothesis =>
    obtain ⟨first, -, apart⟩ := List.pairwise_append.mp distinct
    rw [List.mem_append, List.mem_singleton, lastFor_concat, hypothesis first]
    by_cases named : registration.1.name? = some name
    · rw [if_pos named, Option.some_inj]
      obtain ⟨subject, owner⟩ := registration
      obtain rfl := Subject.eq_declared named
      constructor
      · rintro (earlier | equal)
        · have last := (hypothesis first).mpr earlier
          exact absurd rfl (apart _ last _ List.mem_cons_self name rfl)
        · exact (congrArg Prod.snd equal).symm
      · exact fun equal => .inr (congrArg _ equal.symm)
    · rw [if_neg named]
      exact or_iff_left fun equal => named (equal ▸ rfl)

/-- Registrations for different interfaces end alike in every order. -/
theorem Alike.of_perm {left right : List Registration} (perm : left.Perm right) (distinct : left.Pairwise Apart) :
    Alike left right where
  last name := by
    apply Option.ext
    intro identity
    rw [← mem_iff_last distinct, ← mem_iff_last (perm.pairwise distinct (Std.Symm.symm _ _)), perm.mem_iff]
  values := by simp only [perm.mem_iff]

end Imprint.ProxyBuilder
