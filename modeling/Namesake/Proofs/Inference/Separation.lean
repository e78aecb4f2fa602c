import Namesake.Proofs.Inference.Moves

/-!
What follows for the native types, those at certain addresses or of certain names, follows from
the constraints on native types alone.
-/

namespace Namesake

open Constraint

namespace TypeName

variable (own : Address → Prop) (names : Text → Prop)

/-- Whether a type is made of nodes and scopes at some addresses, of the global object and of
properties with some names. -/
def Native : TypeName → Prop
  | global => True
  | node address => own address
  | bound scope _ => own scope
  | property owner name => owner.Native ∧ names name

/-- Whether a type is made of a node or a scope elsewhere, or of a property of the global object with
another name. -/
def Foreign : TypeName → Prop
  | global => False
  | node address => ¬ own address
  | bound scope _ => ¬ own scope
  | property owner name => owner.Foreign ∨ owner = global ∧ ¬ names name

/-- Whether a type is foreign as far as some constraints tell, by which other types may be that of the
global object. -/
def Apart (constraints : Constraint → Prop) : TypeName → Prop
  | global => False
  | node address => ¬ own address
  | bound scope _ => ¬ own scope
  | property owner name =>
    owner.Apart constraints ∨ Entails constraints owner global ∧ ¬ names name

variable {own names} {type : TypeName}

theorem Foreign.apart (foreign : type.Foreign own names) (constraints : Constraint → Prop) :
    type.Apart own names constraints := by
  induction type with
  | global => exact foreign
  | node address => exact foreign
  | bound scope name => exact foreign
  | property owner name ih =>
    rcases foreign with foreign | ⟨rfl, different⟩
    · exact .inl (ih foreign)
    · exact .inr ⟨.refl _, different⟩

theorem Native.not_apart (native : type.Native own names) (constraints : Constraint → Prop) :
    ¬ type.Apart own names constraints := by
  induction type with
  | global => exact id
  | node | bound => exact fun apart => apart native
  | property owner name ih =>
    rintro (apart | ⟨_, different⟩)
    · exact ih native.1 apart
    · exact different native.2

theorem Foreign.not_own (foreign : type.Foreign own names) {address : Address}
    (member : address ∈ type.nodes) : ¬ own address := by
  induction type with
  | global => cases member
  | node other =>
    cases List.mem_singleton.1 member
    exact foreign
  | bound scope name => cases member
  | property owner name ih =>
    rcases foreign with foreign | ⟨rfl, _⟩
    · exact ih foreign member
    · cases member

theorem Foreign.move {moved : Address → Address} (foreign : type.Foreign (fun _ => False) names)
    (elsewhere : ∀ address, ¬ own (moved address)) : (type.move moved).Foreign own names := by
  induction type with
  | global => exact foreign
  | node address => exact elsewhere address
  | bound scope name => exact elsewhere scope
  | property owner name ih =>
    rcases foreign with foreign | ⟨rfl, different⟩
    · exact .inl (ih foreign)
    · exact .inr ⟨rfl, different⟩

end TypeName

def Together (constraints others : Constraint → Prop) (constraint : Constraint) : Prop :=
  constraints constraint ∨ others constraint

/-- Whether some constraints are about native types and others about foreign types. -/
structure Separate (own : Address → Prop) (names : Text → Prop)
    (constraints others : Constraint → Prop) : Prop where
  native : ∀ constraint, constraints constraint → constraint.Over (TypeName.Native own names)
  foreign : ∀ constraint, others constraint → constraint.Over (TypeName.Foreign own names)

namespace Separate

variable {own : Address → Prop} {names : Text → Prop} {constraints others : Constraint → Prop}
  (separate : Separate own names constraints others) {left right type : TypeName}

include separate

theorem apart_iff (entails : Entails constraints left right) :
    left.Apart own names constraints ↔ right.Apart own names constraints := by
  induction entails with
  | refl type => exact Iff.rfl
  | symm _ ih => exact ih.symm
  | trans _ _ first second => exact first.trans second
  | given member =>
    obtain ⟨leftNative, rightNative⟩ := over_same.1 (separate.native _ member)
    exact iff_of_false (leftNative.not_apart _) (rightNative.not_apart _)
  | @property left right name entails ih =>
    -- A property of what is the global object is a property of the global object, so it has to
    -- be asked which types that are by the constraints, not which one is written that way.
    have same : Entails constraints left .global ↔ Entails constraints right .global :=
      ⟨entails.symm.trans, entails.trans⟩
    simp only [TypeName.Apart, ih, same]

theorem entails_or_apart (entails : Entails (Together constraints others) left right) :
    Entails constraints left right ∨
      left.Apart own names constraints ∧ right.Apart own names constraints := by
  induction entails with
  | refl type => exact .inl (.refl type)
  | symm _ ih => exact ih.imp Entails.symm And.symm
  | trans _ _ first second =>
    -- Where the sides differ, the type in the middle is foreign, and so is what equals it.
    rcases first with first | ⟨ofLeft, ofMiddle⟩
    · rcases second with second | ⟨ofMiddle, ofRight⟩
      · exact .inl (first.trans second)
      · exact .inr ⟨(separate.apart_iff first).2 ofMiddle, ofRight⟩
    · rcases second with second | ⟨_, ofRight⟩
      · exact .inr ⟨ofLeft, (separate.apart_iff second).1 ofMiddle⟩
      · exact .inr ⟨ofLeft, ofRight⟩
  | given member =>
    rcases member with member | member
    · exact .inl (.given member)
    · obtain ⟨leftForeign, rightForeign⟩ := over_same.1 (separate.foreign _ member)
      exact .inr ⟨leftForeign.apart _, rightForeign.apart _⟩
  | property name _ ih =>
    rcases ih with entails | ⟨ofLeft, ofRight⟩
    · exact .inl (.property name entails)
    · exact .inr ⟨.inl ofLeft, .inl ofRight⟩

theorem entails_iff (native : left.Native own names) :
    Entails (Together constraints others) left right ↔ Entails constraints left right := by
  refine ⟨fun entails => ?_, fun entails => entails.mono fun _ => Or.inl⟩
  exact (separate.entails_or_apart entails).resolve_right fun apart =>
    native.not_apart _ apart.1

theorem not_entails (native : left.Native own names) (foreign : right.Foreign own names) :
    ¬ Entails (Together constraints others) left right := fun entails =>
  native.not_apart _ ((separate.apart_iff ((separate.entails_iff native).1 entails)).2
    (foreign.apart _))

theorem isNamespace_iff (native : type.Native own names) :
    IsNamespace (Together constraints others) type ↔ IsNamespace constraints type := by
  constructor
  · rintro ⟨other, marked | marked, entails⟩
    · exact ⟨other, marked, ((separate.entails_iff native).1 entails.symm).symm⟩
    · have foreign := over_marked.1 (separate.foreign _ marked)
      exact absurd entails.symm (separate.not_entails native foreign)
  · rintro ⟨other, marked, entails⟩
    exact ⟨other, .inl marked, entails.mono fun _ => Or.inl⟩

theorem mentions_iff {address : Address} (isOwn : own address) :
    Mentions (Together constraints others) address ↔ Mentions constraints address := by
  constructor
  · rintro ⟨constraint, demanded | demanded, isAbout⟩
    · exact ⟨constraint, demanded, isAbout⟩
    · obtain ⟨type, isType, member⟩ := mem_nodes.1 isAbout
      exact absurd isOwn ((separate.foreign _ demanded type isType).not_own member)
  · rintro ⟨constraint, demanded, isAbout⟩
    exact ⟨constraint, .inl demanded, isAbout⟩

theorem withReceivers : ∃ more, Separate own names (WithReceivers constraints) more ∧
    WithReceivers (Together constraints others) = Together (WithReceivers constraints) more := by
  refine ⟨fun constraint => others constraint ∨ ∃ base receiver, constraint = .same base receiver ∧
    others (.method base receiver) ∧ ¬ IsNamespace (Together constraints others) base ∧
      ¬ IsNamespace (Together constraints others) receiver, ⟨?_, ?_⟩, ?_⟩
  · rintro constraint (demanded | ⟨base, receiver, rfl, demanded, _⟩)
    · exact separate.native constraint demanded
    · exact over_same.2 (over_method.1 (separate.native _ demanded))
  · rintro constraint (demanded | ⟨base, receiver, rfl, demanded, _⟩)
    · exact separate.foreign constraint demanded
    · exact over_same.2 (over_method.1 (separate.foreign _ demanded))
  · funext constraint
    refine propext ⟨?_, ?_⟩
    · rintro ((demanded | demanded) |
        ⟨base, receiver, rfl, demanded | demanded, notBase, notReceiver⟩)
      · exact .inl (.inl demanded)
      · exact .inr (.inl demanded)
      · obtain ⟨ofBase, ofReceiver⟩ := over_method.1 (separate.native _ demanded)
        rw [separate.isNamespace_iff ofBase] at notBase
        rw [separate.isNamespace_iff ofReceiver] at notReceiver
        exact .inl (.inr ⟨base, receiver, rfl, demanded, notBase, notReceiver⟩)
      · exact .inr (.inr ⟨base, receiver, rfl, demanded, notBase, notReceiver⟩)
    · rintro ((demanded | ⟨base, receiver, rfl, demanded, notBase, notReceiver⟩) |
        demanded | ⟨base, receiver, rfl, demanded, settled⟩)
      · exact .inl (.inl demanded)
      · obtain ⟨ofBase, ofReceiver⟩ := over_method.1 (separate.native _ demanded)
        rw [← separate.isNamespace_iff ofBase] at notBase
        rw [← separate.isNamespace_iff ofReceiver] at notReceiver
        exact .inr ⟨base, receiver, rfl, .inl demanded, notBase, notReceiver⟩
      · exact .inl (.inr demanded)
      · exact .inr ⟨base, receiver, rfl, .inr demanded, settled⟩

end Separate

end Namesake
