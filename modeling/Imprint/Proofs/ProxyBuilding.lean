import Imprint.Proofs.Registrations
/-! # Proxies of a builder

Building goes through what is registered and collects the claims of implementations on methods, as long as these
are compatible.  What has been collected is determined by the claims, whatever the order in which they came. -/
set_option autoImplicit false
namespace Imprint.ProxyBuilder
open Imprint.Action

variable {catalogue : Catalogue} {registrations kept : List Registration} {store after : Store}

/-! ## Building -/

/-- A run that leaves the store alone and gives a result as told, or ends in a fault as told. -/
def Settles {α : Type} (computation : Heap α) (store : Store) (good : α → Prop) (bad : Fault → Prop) : Prop :=
  (∃ result, runOn computation store = (.ok result, store) ∧ good result) ∨
    ∃ fault after, runOn computation store = (.error fault, after) ∧ bad fault

namespace Settles

variable {α β : Type} {computation : Heap α} {good : α → Prop} {bad : Fault → Prop}

theorem bind {next : α → Heap β} {later : β → Prop} (first : Settles computation store good bad)
    (second : ∀ result, good result → Settles (next result) store later bad) :
    Settles (computation >>= next) store later bad := by
  obtain ⟨result, run, holds⟩ | ⟨fault, after, run, holds⟩ := first
  · simpa only [Settles, runOn_bind, run] using second result holds
  · exact .inr ⟨fault, after, by rw [runOn_bind, run], holds⟩

theorem imp {better : α → Prop} {worse : Fault → Prop} (settles : Settles computation store good bad)
    (first : ∀ result, good result → better result) (second : ∀ fault, bad fault → worse fault) :
    Settles computation store better worse := by
  obtain ⟨result, run, holds⟩ | ⟨fault, after, run, holds⟩ := settles
  · exact .inl ⟨result, run, first result holds⟩
  · exact .inr ⟨fault, after, run, second fault holds⟩

theorem of_ok (settles : Settles computation store good bad) {result : α}
    (run : (runOn computation store).1 = .ok result) : good result := by
  obtain ⟨found, reached, holds⟩ | ⟨fault, after, reached, -⟩ := settles
  · rw [reached] at run
    cases run
    exact holds
  · rw [reached] at run
    cases run

theorem of_error (settles : Settles computation store good bad) {fault : Fault}
    (run : (runOn computation store).1 = .error fault) : bad fault := by
  obtain ⟨found, reached, -⟩ | ⟨other, after, reached, holds⟩ := settles
  · rw [reached] at run
    cases run
  · rw [reached] at run
    cases run
    exact holds

theorem fails_iff {condition : Prop} (settles : Settles computation store good bad)
    (first : ∀ result, good result → ¬ condition) (second : ∀ fault, bad fault → condition) :
    (∃ fault, (runOn computation store).1 = .error fault) ↔ condition := by
  constructor
  · rintro ⟨fault, run⟩
    exact second fault (settles.of_error run)
  · intro holds
    obtain ⟨result, -, free⟩ | ⟨fault, after, reached, -⟩ := settles
    · exact absurd holds (first result free)
    · exact ⟨fault, by rw [reached]⟩

end Settles

/-- The methods that a registration claims for its implementation. -/
def claims (catalogue : Catalogue) : Registration → List (ImplementationId × String)
  | (.declared name, identity) => (catalogue.interface name).methods.map fun method => (identity, method)
  | (.value _, _) => []

/-- Claims that fit together: each is met, and no method is claimed for two implementations. -/
structure Compatible (catalogue : Catalogue) (claimed : List (ImplementationId × String)) : Prop where
  met : ∀ identity method, (identity, method) ∈ claimed → (catalogue.callable? identity method).isSome = true
  single : ∀ one other method, (one, method) ∈ claimed → (other, method) ∈ claimed → one = other

theorem Compatible.subset {claimed more : List (ImplementationId × String)} (compatible : Compatible catalogue more)
    (among : claimed ⊆ more) : Compatible catalogue claimed where
  met identity method member := compatible.met identity method (among member)
  single one other method first second := compatible.single one other method (among first) (among second)

/-- What has been collected speaks of the claims so far. -/
structure Sound (catalogue : Catalogue) (claimed : List (ImplementationId × String)) (collected : Collected) :
    Prop where
  met : ∀ identity method, (identity, method) ∈ claimed → (catalogue.callable? identity method).isSome = true
  owner : ∀ identity method, (identity, method) ∈ claimed ↔
    ∃ interface, collected.owners.lookup method = some (interface, identity)
  bound : ∀ method value, collected.methods.lookup method = some value ↔
    ∃ identity, (identity, method) ∈ claimed ∧ catalogue.callable? identity method = some value

theorem lookup_cons_ite {α : Type} (name first : String) (value : α) (rest : List (String × α)) :
    List.lookup name ((first, value) :: rest) = if name = first then some value else rest.lookup name := by
  rw [List.lookup_cons]
  by_cases same : name = first
  · rw [if_pos same, same, beq_self_eq_true]
  · rw [if_neg same, beq_eq_false_iff_ne.mpr same]

theorem lookup_setMethod (name other : String) (value : Value) (entries : List (String × Value)) :
    (setMethod name value entries).lookup other = if other = name then some value else entries.lookup other := by
  induction entries with
  | nil => rw [setMethod, lookup_cons_ite, List.lookup_nil]
  | cons entry rest hypothesis =>
    obtain ⟨first, old⟩ := entry
    rw [setMethod, lookup_cons_ite]
    by_cases replaced : first = name
    · rw [if_pos replaced, lookup_cons_ite, replaced]
      by_cases same : other = name
      · rw [if_pos same, if_pos same]
      · rw [if_neg same, if_neg same, if_neg same]
    · rw [if_neg replaced, lookup_cons_ite, hypothesis]
      by_cases same : other = first
      · rw [if_pos same, if_pos same, if_neg (same ▸ replaced)]
      · rw [if_neg same, if_neg same]

section Collecting

variable {claimed : List (ImplementationId × String)} {collected : Collected} {identity : ImplementationId}

/-- A name has one owner, so sound claims are compatible. -/
theorem Sound.compatible (sound : Sound catalogue claimed collected) : Compatible catalogue claimed where
  met := sound.met
  single one other method first second := by
    obtain ⟨_, owned⟩ := (sound.owner one method).mp first
    obtain ⟨_, again⟩ := (sound.owner other method).mp second
    exact congrArg Prod.snd (Option.some.inj (owned.symm.trans again))

theorem Sound.extended (sound : Sound catalogue claimed collected) {method : String} {value : Value}
    (callable : catalogue.callable? identity method = some value)
    (free : ∀ other, (other, method) ∈ claimed → other = identity) (interface : Interface) :
    Sound catalogue (claimed ++ [(identity, method)])
      ⟨setMethod method value collected.methods, (method, interface, identity) :: collected.owners⟩ where
  met := by
    intro one name member
    obtain member | member := List.mem_append.mp member
    · exact sound.met one name member
    · cases List.mem_singleton.mp member
      rw [callable]
      rfl
  owner := by
    intro one name
    rw [List.mem_append, List.mem_singleton, sound.owner]
    dsimp only
    rw [lookup_cons_ite]
    by_cases same : name = method
    · subst same
      rw [if_pos rfl, ← sound.owner]
      constructor
      · intro member
        obtain rfl : one = identity := member.elim (free one) (congrArg Prod.fst)
        exact ⟨interface, rfl⟩
      · rintro ⟨_, found⟩
        cases found
        exact .inr rfl
    · rw [if_neg same]
      exact or_iff_left fun equal => same (congrArg Prod.snd equal)
  bound := by
    intro name other
    rw [lookup_setMethod]
    by_cases same : name = method
    · subst same
      rw [if_pos rfl, ← callable]
      constructor
      · intro found
        exact ⟨identity, List.mem_append_right _ List.mem_cons_self, found⟩
      · rintro ⟨one, member, found⟩
        obtain member | member := List.mem_append.mp member
        · rwa [← free one member]
        · cases List.mem_singleton.mp member
          exact found
    · rw [if_neg same, sound.bound]
      apply exists_congr
      intro one
      rw [List.mem_append, or_iff_left fun member => same (congrArg Prod.snd (List.mem_singleton.mp member))]

theorem addMethod_settles (sound : Sound catalogue claimed collected) (name method : String) :
    Settles (addMethod (catalogue.interface name) (catalogue.implementation identity) collected method) store
      (Sound catalogue (claimed ++ [(identity, method)]))
      fun fault => (∃ text, fault = .composition text) ∧
        ¬ Compatible catalogue (claimed ++ [(identity, method)]) := by
  have new : (identity, method) ∈ claimed ++ [(identity, method)] := List.mem_append_right _ List.mem_cons_self
  unfold addMethod
  -- the method is missing, or it has an owner already, or it is new
  split
  next missing =>
    have absent : catalogue.callable? identity method = none := missing
    refine .inr ⟨_, store, rfl, ⟨_, rfl⟩, fun compatible => ?_⟩
    have met := compatible.met identity method new
    rw [absent] at met
    cases met
  next value callable =>
    split
    next owner other owned =>
      have claim := (sound.owner other method).mpr ⟨owner, owned⟩
      by_cases same : other = identity
      · subst same
        refine .inl ⟨_, ?_, sound.extended callable (fun one member => ?_) (catalogue.interface name)⟩
        · rw [Catalogue.implementation_identity, if_neg (by simp)]
          rfl
        · exact sound.compatible.single one other method member claim
      · rw [Catalogue.implementation_identity, if_pos (bne_iff_ne.mpr same)]
        refine .inr ⟨_, store, rfl, ⟨_, rfl⟩, fun compatible => ?_⟩
        exact same (compatible.single other identity method (List.mem_append_left _ claim) new)
    next unowned =>
      refine .inl ⟨_, rfl, sound.extended callable (fun one member => ?_) (catalogue.interface name)⟩
      obtain ⟨owner, owned⟩ := (sound.owner one method).mp member
      cases unowned.symm.trans owned

theorem addMethods_settle (sound : Sound catalogue claimed collected) (name : String) (methods : List String) :
    Settles (methods.foldlM (addMethod (catalogue.interface name) (catalogue.implementation identity)) collected) store
      (Sound catalogue (claimed ++ methods.map fun method => (identity, method)))
      fun fault => (∃ text, fault = .composition text) ∧
        ¬ Compatible catalogue (claimed ++ methods.map fun method => (identity, method)) := by
  induction methods generalizing claimed collected with
  | nil => exact .inl ⟨collected, rfl, by simpa using sound⟩
  | cons method rest hypothesis =>
    rw [List.foldlM_cons, List.map_cons, List.append_cons]
    apply Settles.bind
    · apply (addMethod_settles sound name method).imp (fun _ holds => holds)
      rintro fault ⟨told, incompatible⟩
      exact ⟨told, fun compatible => incompatible (compatible.subset (List.subset_append_left _ _))⟩
    · intro next holds
      exact hypothesis holds

/-- A registration for an interface that has methods. -/
def Proper (catalogue : Catalogue) (registration : Registration) : Prop :=
  ∃ name, registration.1 = .declared name ∧ (catalogue.interface name).methods ≠ []

/-- What a fault tells: that something does not fit, or why a value that is no interface cannot be shown. -/
def Telling (kept : List Registration) (store : Store) (fault : Fault) : Prop :=
  (∃ text, fault = .composition text) ∨
    ∃ value identity, (.value value, identity) ∈ kept ∧ (runOn value.shown store).1 = .error fault

theorem Telling.mono {kept more : List Registration} {fault : Fault} (telling : Telling kept store fault)
    (among : kept ⊆ more) : Telling more store fault :=
  telling.imp_right fun ⟨value, identity, member, shown⟩ => ⟨value, identity, among member, shown⟩

theorem interfaceOf_settles (subject : Subject) (identity : ImplementationId) :
    Settles (interfaceOf (catalogue.reference subject)) store
      (fun interface => ∃ name, subject = .declared name ∧ interface = catalogue.interface name)
      fun fault => (∃ value, subject = .value value) ∧ Telling [(subject, identity)] store fault := by
  cases subject with
  | declared name => exact .inl ⟨_, rfl, name, rfl, rfl⟩
  | value value =>
    cases shown : runOn value.shown store with
    | mk outcome after =>
      have run : runOn (interfaceOf (.value value)) store = _ := runOn_bind value.shown _ store
      rw [shown] at run
      cases outcome with
      | ok text => exact .inr ⟨_, after, run, ⟨value, rfl⟩, .inl ⟨_, rfl⟩⟩
      | error fault =>
        exact .inr ⟨fault, after, run, ⟨value, rfl⟩, .inr ⟨value, identity, List.mem_cons_self, by rw [shown]⟩⟩

theorem addImplementation_settles (sound : Sound catalogue claimed collected) (registration : Registration) :
    Settles (addImplementation collected (catalogue.entry registration)) store
      (fun next => Sound catalogue (claimed ++ claims catalogue registration) next ∧ Proper catalogue registration)
      fun fault => ¬ (Compatible catalogue (claimed ++ claims catalogue registration) ∧
        Proper catalogue registration) ∧ Telling [registration] store fault := by
  obtain ⟨subject, identity⟩ := registration
  unfold addImplementation
  apply Settles.bind
  · apply (interfaceOf_settles subject identity).imp (fun _ holds => holds)
    rintro fault ⟨⟨value, rfl⟩, telling⟩
    refine ⟨?_, telling⟩
    rintro ⟨-, name, same, -⟩
    cases same
  · rintro interface ⟨name, rfl, rfl⟩
    cases methods : (catalogue.interface name).methods with
    | nil =>
      refine .inr ⟨_, store, rfl, ?_, .inl ⟨_, rfl⟩⟩
      rintro ⟨-, _, same, filled⟩
      cases same
      exact filled methods
    | cons method rest =>
      have proper : Proper catalogue (.declared name, identity) := ⟨name, rfl, methods ▸ nofun⟩
      have claimed : claims catalogue (.declared name, identity) =
        (method :: rest).map fun method => (identity, method) := congrArg _ methods
      rw [claimed]
      apply (addMethods_settle sound name (method :: rest)).imp
      · exact fun next holds => ⟨holds, proper⟩
      · exact fun fault ⟨told, incompatible⟩ => ⟨fun fits => incompatible fits.1, .inl told⟩

theorem addImplementations_settle (sound : Sound catalogue claimed collected) (kept : List Registration) :
    Settles ((kept.map catalogue.entry).foldlM addImplementation collected) store
      (fun next => Sound catalogue (claimed ++ kept.flatMap (claims catalogue)) next ∧
        ∀ registration ∈ kept, Proper catalogue registration)
      fun fault => ¬ (Compatible catalogue (claimed ++ kept.flatMap (claims catalogue)) ∧
        ∀ registration ∈ kept, Proper catalogue registration) ∧ Telling kept store fault := by
  induction kept generalizing claimed collected with
  | nil => exact .inl ⟨collected, rfl, by simpa using sound, nofun⟩
  | cons registration rest hypothesis =>
    rw [List.map_cons, List.foldlM_cons, List.flatMap_cons, ← List.append_assoc, List.forall_mem_cons]
    apply Settles.bind
    · apply (addImplementation_settles sound registration).imp (fun _ holds => holds)
      rintro fault ⟨unfit, telling⟩
      refine ⟨fun ⟨compatible, proper, _⟩ => unfit ⟨compatible.subset (List.subset_append_left _ _), proper⟩, ?_⟩
      exact telling.mono fun other member => List.mem_cons.mpr (.inl (List.mem_singleton.mp member))
    · rintro next ⟨sound, proper⟩
      apply (hypothesis sound).imp
      · rintro final ⟨sound, rest⟩
        exact ⟨sound, proper, rest⟩
      · rintro fault ⟨unfit, telling⟩
        refine ⟨fun ⟨compatible, _, rest⟩ => unfit ⟨compatible, rest⟩, telling.mono ?_⟩
        exact fun other member => List.mem_cons_of_mem _ member

end Collecting

/-! ## Outcomes -/

theorem mem_claimed_iff (reflects : Reflects registrations kept) (identity : ImplementationId) (method : String) :
    (identity, method) ∈ kept.flatMap (claims catalogue) ↔
      ∃ name, lastFor registrations name = some identity ∧ catalogue.Declares name method := by
  rw [List.mem_flatMap]
  constructor
  · rintro ⟨⟨subject, owner⟩, member, claim⟩
    cases subject with
    | value value => cases claim
    | declared name =>
      obtain ⟨_, listed, equal⟩ := List.mem_map.mp claim
      cases equal
      exact ⟨name, (reflects.last name identity).mp member, (catalogue.mem_methods_iff name method).mp listed⟩
  · rintro ⟨name, last, declares⟩
    refine ⟨(.declared name, identity), (reflects.last name identity).mpr last, ?_⟩
    exact List.mem_map_of_mem ((catalogue.mem_methods_iff name method).mpr declares)

theorem refused_iff (reflects : Reflects registrations kept) :
    Refused catalogue registrations ↔ ¬ (Compatible catalogue (kept.flatMap (claims catalogue)) ∧
      ∀ registration ∈ kept, Proper catalogue registration) := by
  constructor
  · rintro refused ⟨compatible, proper⟩
    cases refused with
    | noInterface member =>
      obtain ⟨value, identity, member⟩ := reflects.valued member
      obtain ⟨name, same, -⟩ := proper _ member
      cases same
    | @noMethods name identity last none =>
      obtain ⟨found, same, filled⟩ := proper _ ((reflects.last name identity).mpr last)
      cases same
      obtain ⟨method, listed⟩ := List.exists_mem_of_ne_nil _ filled
      exact none method ((catalogue.mem_methods_iff name method).mp listed)
    | notImplemented last declares missing =>
      have met := compatible.met _ _ ((mem_claimed_iff reflects _ _).mpr ⟨_, last, declares⟩)
      rw [missing] at met
      cases met
    | claimedTwice firstLast secondLast firstDeclares secondDeclares different =>
      have first := (mem_claimed_iff reflects _ _).mpr ⟨_, firstLast, firstDeclares⟩
      have second := (mem_claimed_iff reflects _ _).mpr ⟨_, secondLast, secondDeclares⟩
      exact different (compatible.single _ _ _ first second)
  · intro unfit
    apply Classical.byContradiction
    intro free
    refine unfit ⟨⟨?_, ?_⟩, ?_⟩
    · intro identity method member
      obtain ⟨name, last, declares⟩ := (mem_claimed_iff reflects _ _).mp member
      cases callable : catalogue.callable? identity method with
      | some value => rfl
      | none => exact absurd (.notImplemented last declares callable) free
    · intro one other method first second
      obtain ⟨_, firstLast, firstDeclares⟩ := (mem_claimed_iff reflects _ _).mp first
      obtain ⟨_, secondLast, secondDeclares⟩ := (mem_claimed_iff reflects _ _).mp second
      apply Classical.byContradiction
      exact fun different => free (.claimedTwice firstLast secondLast firstDeclares secondDeclares different)
    · rintro ⟨subject, identity⟩ member
      cases subject with
      | value value => exact absurd (.noInterface (reflects.value member).choose_spec) free
      | declared name =>
        refine ⟨name, rfl, fun empty => free (.noMethods ((reflects.last name identity).mp member) ?_)⟩
        intro method declares
        have listed := (catalogue.mem_methods_iff name method).mpr declares
        rw [empty] at listed
        cases listed

/-- Capabilities that are the callables of the implementations that were registered last. -/
structure Composed (catalogue : Catalogue) (registrations : List Registration) (capabilities : List (String × Value)) :
    Prop where
  each : ∀ {name identity method}, lastFor registrations name = some identity → catalogue.Declares name method →
    ∃ value, catalogue.callable? identity method = some value ∧ capabilities.lookup method = some value
  only : ∀ {method value}, capabilities.lookup method = some value → ∃ name identity,
    lastFor registrations name = some identity ∧ catalogue.Declares name method ∧
      catalogue.callable? identity method = some value

theorem Sound.composed (reflects : Reflects registrations kept) {collected : Collected}
    (sound : Sound catalogue (kept.flatMap (claims catalogue)) collected) :
    Composed catalogue registrations collected.methods where
  each := by
    intro name identity method last declares
    have claim := (mem_claimed_iff reflects identity method).mpr ⟨name, last, declares⟩
    obtain ⟨value, callable⟩ := Option.isSome_iff_exists.mp (sound.compatible.met identity method claim)
    exact ⟨value, callable, (sound.bound method value).mpr ⟨identity, claim, callable⟩⟩
  only := by
    intro method value found
    obtain ⟨identity, claim, callable⟩ := (sound.bound method value).mp found
    obtain ⟨name, last, declares⟩ := (mem_claimed_iff reflects identity method).mp claim
    exact ⟨name, identity, last, declares, callable⟩

theorem build_settles {builder : ProxyBuilder} (registered : Registered catalogue registrations builder)
    (store : Store) :
    Settles builder.build store
      (fun proxy => ¬ Refused catalogue registrations ∧ proxy.root = builder.root ∧
        Composed catalogue registrations proxy.capabilities)
      fun fault => Refused catalogue registrations ∧ Telling registrations store fault := by
  obtain ⟨kept, entries, reflects⟩ := registered_reflects registered
  have sound : Sound catalogue [] ⟨[], []⟩ := ⟨nofun, by simp, by simp⟩
  rw [refused_iff reflects, build, entries]
  apply Settles.bind
  · apply (addImplementations_settle sound kept).imp (fun _ holds => holds)
    rintro fault ⟨unfit, telling⟩
    refine ⟨unfit, telling.imp_right ?_⟩
    rintro ⟨value, identity, member, shown⟩
    obtain ⟨first, member⟩ := reflects.value member
    exact ⟨value, first, member, shown⟩
  · rintro collected ⟨sound, proper⟩
    exact .inl ⟨_, rfl, not_not_intro ⟨sound.compatible, proper⟩, rfl, sound.composed reflects⟩

/-- If every value that is no interface can be shown, then all that keeps a proxy from being built is that the
capabilities cannot be composed. -/
theorem build_composition {builder : ProxyBuilder} (registered : Registered catalogue registrations builder)
    (store : Store) (shown : ∀ value identity, (.value value, identity) ∈ registrations →
      ∃ letters, (runOn value.shown store).1 = .ok letters) {fault : Fault}
    (fails : (runOn builder.build store).1 = .error fault) : ∃ text, fault = .composition text := by
  obtain ⟨-, composition | ⟨value, identity, member, refused⟩⟩ := (build_settles registered store).of_error fails
  · exact composition
  · obtain ⟨letters, shows⟩ := shown value identity member
    rw [shows] at refused
    cases refused

/-! ## Order -/

theorem Refused.alike {left right : List Registration} (refused : Refused catalogue left) (alike : Alike left right) :
    Refused catalogue right := by
  cases refused with
  | noInterface member =>
    obtain ⟨_, _, member⟩ := alike.values.mp ⟨_, _, member⟩
    exact .noInterface member
  | noMethods last free => exact .noMethods (alike.last _ ▸ last) free
  | notImplemented last declares missing => exact .notImplemented (alike.last _ ▸ last) declares missing
  | claimedTwice firstLast secondLast firstDeclares secondDeclares different =>
    exact .claimedTwice (alike.last _ ▸ firstLast) (alike.last _ ▸ secondLast) firstDeclares secondDeclares different

theorem Composed.alike {left right : List Registration} {first second : List (String × Value)}
    (composed : Composed catalogue left first) (other : Composed catalogue right second) (alike : Alike left right)
    {method : String} {value : Value} (found : first.lookup method = some value) :
    second.lookup method = some value := by
  obtain ⟨name, identity, last, declares, callable⟩ := composed.only found
  obtain ⟨same, again, found⟩ := other.each (alike.last name ▸ last) declares
  rwa [Option.some.inj (callable.symm.trans again)]

/-- Building ends in a fault exactly if something that was registered last does not fit, which the fault tells.
Otherwise each name of an interface has the callable of the one implementation that owns it.  The order of the
registrations matters for neither.  A fault is of another kind only if a value that is no interface cannot even be
shown, see `build_composition`. -/
theorem build_settled {builder : ProxyBuilder} (registered : Registered catalogue registrations builder)
    (store : Store) :
    ((∃ fault, (runOn builder.build store).1 = .error fault) ↔ Refused catalogue registrations) ∧
    (∀ fault, (runOn builder.build store).1 = .error fault → Telling registrations store fault) ∧
    (∀ proxy, (runOn builder.build store).1 = .ok proxy →
      proxy.root = builder.root ∧ Composed catalogue registrations proxy.capabilities) ∧
    ∀ {others other} (elsewhere : Store), Registered catalogue others other → Alike registrations others →
      ((∃ fault, (runOn other.build elsewhere).1 = .error fault) ↔
        ∃ fault, (runOn builder.build store).1 = .error fault) ∧
      ∀ proxy second, (runOn builder.build store).1 = .ok proxy → (runOn other.build elsewhere).1 = .ok second →
        ∀ method, second.capabilities.lookup method = proxy.capabilities.lookup method := by
  have fails {others : List Registration} {other : ProxyBuilder} (registered : Registered catalogue others other)
      (store : Store) : (∃ fault, (runOn other.build store).1 = .error fault) ↔ Refused catalogue others :=
    (build_settles registered store).fails_iff (fun _ holds => holds.1) fun _ holds => holds.1
  have settles := build_settles registered store
  refine ⟨fails registered store, fun fault run => (settles.of_error run).2, fun proxy run => (settles.of_ok run).2, ?_⟩
  intro others other elsewhere again alike
  constructor
  · rw [fails registered store, fails again elsewhere]
    exact ⟨fun refused => refused.alike alike.symm, fun refused => refused.alike alike⟩
  · intro proxy second built rebuilt method
    have first := (settles.of_ok built).2.2
    have last := ((build_settles again elsewhere).of_ok rebuilt).2.2
    apply Option.ext
    intro value
    exact ⟨last.alike first alike.symm, first.alike last alike⟩

/-- An implementation that is registered for an interface and for one that extends it, in either order. -/
theorem build_settled_extended :
    let call : Value := .function (.given 0 .collect)
    let catalogue : Catalogue :=
      ⟨[⟨"Host", [], ["greet", "_ring"]⟩, ⟨"Butler", ["Host"], ["bow"]⟩], fun _ => "Server",
        fun _ => [("greet", call), ("bow", call)]⟩
    let registrations : List Registration := [(.declared "Host", .handler 0), (.declared "Butler", .handler 0)]
    let built (registrations : List Registration) : ProxyBuilder := ⟨.null, registrations.map catalogue.entry⟩
    Registered catalogue registrations (built registrations) ∧
      Registered catalogue registrations.reverse (built registrations.reverse) ∧
      Alike registrations registrations.reverse ∧ ¬ Refused catalogue registrations ∧
      ∃ proxy second, (runOn (built registrations).build .empty).1 = .ok proxy ∧
        (runOn (built registrations.reverse).build .empty).1 = .ok second ∧
        Composed catalogue registrations proxy.capabilities ∧
        ∀ method, second.capabilities.lookup method = proxy.capabilities.lookup method := by
  intro call catalogue registrations built
  have put (builder : ProxyBuilder) (name : String) (kept : List Registration)
      (run : runOn (builder.withInterface (catalogue.reference (.declared name))
        (catalogue.implementation (.handler 0))) .empty = (.ok (built kept), .empty))
      {before : List Registration} (registered : Registered catalogue before builder) :
      Registered catalogue (before ++ [(.declared name, .handler 0)]) (built kept) := .call registered run
  have registered : Registered catalogue registrations (built registrations) :=
    put _ "Butler" registrations rfl (put (.ofRoot .null) "Host" [(.declared "Host", .handler 0)] rfl (.start .null))
  have reversed : Registered catalogue registrations.reverse (built registrations.reverse) :=
    put _ "Host" registrations.reverse rfl
      (put (.ofRoot .null) "Butler" [(.declared "Butler", .handler 0)] rfl (.start .null))
  have distinct : registrations.Pairwise Apart := by
    simp [registrations, Apart, Subject.name?]
  have alike : Alike registrations registrations.reverse := .of_perm (List.reverse_perm _).symm distinct
  obtain ⟨fails, -, composed, order⟩ := build_settled registered .empty
  obtain ⟨-, same⟩ := order .empty reversed alike
  have first : (runOn (built registrations).build .empty).1.isOk = true := by decide +kernel
  have last : (runOn (built registrations.reverse).build .empty).1.isOk = true := by decide +kernel
  refine ⟨registered, reversed, alike, fun refused => ?_, ?_⟩
  · obtain ⟨fault, run⟩ := fails.mpr refused
    rw [run] at first
    cases first
  · cases run : (runOn (built registrations).build .empty).1 with
    | error fault =>
      rw [run] at first
      cases first
    | ok proxy =>
      cases rerun : (runOn (built registrations.reverse).build .empty).1 with
      | error fault =>
        rw [rerun] at last
        cases last
      | ok second => exact ⟨proxy, second, rfl, rfl, (composed proxy run).2, same proxy second run rerun⟩

end Imprint.ProxyBuilder
