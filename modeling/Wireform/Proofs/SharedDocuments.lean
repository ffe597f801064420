import Wireform.Emit
import Wireform.Proofs.DeclaredRows
import Wireform.Proofs.ReachedNames
import Wireform.Proofs.SharedInterfaces

set_option autoImplicit false

namespace Wireform.Index

def declarer (index : Index) (file : File) : TypeScript.Context := ⟨index, index.plans, file⟩

structure Sees (index other : Index) (common : String → Prop) (name : String) : Prop where
  common : common (bareName name)
  message : index.messages.get? name = other.messages.get? name
  enum : index.enums.get? name = other.enums.get? name

def SeesAll (index other : Index) (common : String → Prop) (file : File) : Prop :=
  ∀ name ∈ file.messages ++ file.enums, Sees index other common name

namespace Shares

variable {index other : Index} {common : String → Prop} (shares : index.Shares other common)

include shares

theorem sees_of_bare {type : String} (bare : bareName type = type ∧ common type) : Sees index other common type :=
  ⟨bare.1.symm ▸ bare.2, shares.messages type bare.2, shares.enums type bare.2⟩

theorem sees_of_within {f : Field} (within : f.Within common) {type : String} (refers : f.RefersTo type) :
    Sees index other common type := shares.sees_of_bare (within type refers)

section Listed

variable {file : File} (sees : SeesAll index other common file)

include sees

theorem messagesIn_eq : index.messagesIn file = other.messagesIn file :=
  List.filterMap_congr fun name inside =>
    shares.message?_eq (sees name (List.mem_append_left _ inside)).common

theorem enumsIn_eq : index.enumsIn file = other.enumsIn file :=
  List.filterMap_congr fun name inside =>
    shares.enum?_eq (sees name (List.mem_append_right _ inside)).common

theorem common_of_messagesIn {m : Message} (inside : m ∈ index.messagesIn file) :
    common (bareName m.fullName) ∧ index.message? m.fullName = some m := by
  obtain ⟨name, listed, found⟩ := List.mem_filterMap.mp inside
  exact shares.common_fullName (sees name (List.mem_append_left _ listed)).common found

end Listed

section Declarations

variable (file : File)

theorem declared?_eq {name : String} (known : common (bareName name)) :
    (index.declarer file).declared? name = (other.declarer file).declared? name := by
  simp only [TypeScript.Context.declared?, declarer, shares.message?_eq known, shares.enum?_eq known]

variable {member : Member} (within : member.field.Within common)

include within

theorem elementShape_eq : (index.declarer file).elementShape member = (other.declarer file).elementShape member := by
  rw [TypeScript.Context.elementShape, TypeScript.Context.elementShape]
  have named {name : String} (refers : member.field.RefersTo name) :
      (index.declarer file).named name = (other.declarer file).named name := by
    rw [TypeScript.Context.named, TypeScript.Context.named,
      shares.declared?_eq file (shares.sees_of_within within refers).common]
  cases typed : member.field.type with
  | scalar => rfl
  | enum name =>
    dsimp only
    rw [named (.inr (by rw [Field.enum?, typed]; rfl))]
  | message name =>
    dsimp only
    rw [named (.inl (by rw [Field.message?, typed]; rfl))]

theorem unwrapped?_eq : (index.declarer file).unwrapped? member = (other.declarer file).unwrapped? member ∧
    ∀ inner, (index.declarer file).unwrapped? member = some inner → inner.field.Within common := by
  simp only [TypeScript.Context.unwrapped?, declarer]
  split
  · cases member.unwrappedKey? with
    | none => simp only [Option.bind_none, reduceCtorEq, false_imp_iff, implies_true, and_self]
    | some key =>
      simp only [Option.bind_some]
      exact shares.unwrappedList?_eq within key
  · simp only [reduceCtorEq, false_imp_iff, implies_true, and_self]

theorem memberShape_eq : (index.declarer file).memberShape member = (other.declarer file).memberShape member := by
  obtain ⟨same, inner_within⟩ := shares.unwrapped?_eq file within
  rw [TypeScript.Context.memberShape, TypeScript.Context.memberShape, ← same, shares.elementShape_eq file within]
  cases given : (index.declarer file).unwrapped? member with
  | none => rfl
  | some inner =>
    dsimp only
    rw [shares.elementShape_eq file (inner_within inner given)]

theorem propertyShape_eq :
    (index.declarer file).propertyShape member = (other.declarer file).propertyShape member := by
  rw [TypeScript.Context.propertyShape, TypeScript.Context.propertyShape, shares.memberShape_eq file within]

theorem memberReferences_eq :
    (index.declarer file).memberReferences member = (other.declarer file).memberReferences member ∧
      ∀ name ∈ (index.declarer file).memberReferences member, Sees index other common name := by
  obtain ⟨same, inner_within⟩ := shares.unwrapped?_eq file within
  have sees {member : Member} (within : member.field.Within common) {name : String}
      (refers : TypeScript.Context.elementReference? member = some name) : Sees index other common name := by
    refine shares.sees_of_within within ?_
    rw [TypeScript.Context.elementReference?] at refers
    rw [Field.RefersTo, Field.message?, Field.enum?]
    split at refers
    · cases refers
    · rename_i typed
      split at refers
      · cases refers
      · cases refers
        exact .inr (by rw [typed]; rfl)
    · rename_i typed
      split at refers
      · cases refers
      · cases refers
        exact .inl (by rw [typed]; rfl)
  rw [TypeScript.Context.memberReferences, TypeScript.Context.memberReferences, ← same]
  refine ⟨rfl, fun name listed => ?_⟩
  rcases List.mem_append.mp listed with own | lower
  · exact sees within (Option.mem_toList.mp own)
  · obtain ⟨inner, given, refers⟩ := Option.bind_eq_some_iff.mp (Option.mem_toList.mp lower)
    exact sees (inner_within inner given) refers

omit within

theorem addProperty_eq {p : Property} (among : p.Among (Field.Within common)) (all : List TypeScript.Declared) :
    TypeScript.addProperty (index.declarer file) all p = TypeScript.addProperty (other.declarer file) all p := by
  induction among generalizing all with
  | discriminator => rfl
  | own key role within => rw [TypeScript.addProperty, TypeScript.addProperty, shares.propertyShape_eq file within]
  | lifted _ ih =>
    rw [TypeScript.addProperty, TypeScript.addProperty, Row.addAll_eq_foldl, Row.addAll_eq_foldl,
      List.foldl_ext _ _ _ fun all p inside => ih p inside all]

theorem propertyReferences_eq {p : Property} (among : p.Among (Field.Within common)) :
    TypeScript.propertyReferences (index.declarer file) p = TypeScript.propertyReferences (other.declarer file) p ∧
      ∀ name ∈ TypeScript.propertyReferences (index.declarer file) p, Sees index other common name := by
  have ofList_eq (context : TypeScript.Context) (properties : List Property) :
      TypeScript.propertyReferences.ofList context properties =
        properties.flatMap (TypeScript.propertyReferences context) := by
    induction properties with
    | nil => rfl
    | cons p rest ih => rw [TypeScript.propertyReferences.ofList, ih, List.flatMap_cons]
  induction among with
  | discriminator => exact ⟨rfl, fun _ never => nomatch never⟩
  | own key role within =>
    rw [TypeScript.propertyReferences, TypeScript.propertyReferences]
    exact shares.memberReferences_eq file within
  | lifted _ ih =>
    rw [TypeScript.propertyReferences, TypeScript.propertyReferences, ofList_eq, ofList_eq]
    refine ⟨List.flatMap_congr fun p inside => (ih p inside).1, fun name listed => ?_⟩
    obtain ⟨p, inside, there⟩ := List.mem_flatMap.mp listed
    exact (ih p inside).2 name there

section Messages

variable {m : Message} (known : common (bareName m.fullName)) (found : index.message? m.fullName = some m)

include known found

theorem messageText_eq : (index.declarer file).messageText m = (other.declarer file).messageText m := by
  obtain ⟨same, among⟩ := shares.ofMessage_eq known found
  rcases form : Interface.ofMessage index index.plans m with member | properties
  · rw [form] at same among
    cases among with
    | single within =>
      rw [@Row.messageText_of_alias (index.declarer file) m member form,
        @Row.messageText_of_alias (other.declarer file) m member same.symm, shares.memberShape_eq file within]
  · rw [form] at same among
    cases among with
    | object each =>
      rw [TypeScript.Context.messageText, TypeScript.Context.messageText,
        show Interface.ofMessage (index.declarer file).index (index.declarer file).plans m = _ from form,
        show Interface.ofMessage (other.declarer file).index (other.declarer file).plans m = _ from same.symm]
      dsimp only
      rw [TypeScript.Context.declaredProperties, TypeScript.Context.declaredProperties,
        List.foldl_ext _ _ _ fun all p inside => shares.addProperty_eq file (each p inside) all]

theorem messageReferences_eq :
    (index.declarer file).messageReferences m = (other.declarer file).messageReferences m ∧
      ∀ name ∈ (index.declarer file).messageReferences m, Sees index other common name := by
  obtain ⟨same, among⟩ := shares.ofMessage_eq known found
  rcases form : Interface.ofMessage index index.plans m with member | properties
  · rw [form] at same among
    cases among with
    | single within =>
      rw [TypeScript.Context.messageReferences, TypeScript.Context.messageReferences,
        show Interface.ofMessage (index.declarer file).index (index.declarer file).plans m = _ from form,
        show Interface.ofMessage (other.declarer file).index (other.declarer file).plans m = _ from same.symm]
      exact shares.memberReferences_eq file within
  · rw [form] at same among
    cases among with
    | object each =>
      rw [TypeScript.Context.messageReferences, TypeScript.Context.messageReferences,
        show Interface.ofMessage (index.declarer file).index (index.declarer file).plans m = _ from form,
        show Interface.ofMessage (other.declarer file).index (other.declarer file).plans m = _ from same.symm]
      refine ⟨List.flatMap_congr fun p inside => (shares.propertyReferences_eq file (each p inside)).1,
        fun name listed => ?_⟩
      obtain ⟨p, inside, there⟩ := List.mem_flatMap.mp listed
      exact (shares.propertyReferences_eq file (each p inside)).2 name there

end Messages

theorem text?_eq (banner : String) {file : File} (sees : SeesAll index other common file) :
    TypeScript.text? index index.plans banner file = TypeScript.text? other other.plans banner file := by
  have imports : (index.declarer file).imports = (other.declarer file).imports := by
    have each := fun m (inside : m ∈ index.messagesIn file) =>
      shares.messageReferences_eq file (shares.common_of_messagesIn sees inside).1
        (shares.common_of_messagesIn sees inside).2
    have references : (index.messagesIn file).flatMap (index.declarer file).messageReferences =
        (other.messagesIn file).flatMap (other.declarer file).messageReferences := by
      rw [← shares.messagesIn_eq sees]
      exact List.flatMap_congr fun m inside => (each m inside).1
    rw [TypeScript.Context.imports, TypeScript.Context.imports]
    refine Eq.trans (List.filterMap_congr fun name listed => ?_) (congrArg (List.filterMap _) references)
    obtain ⟨m, inside, there⟩ := List.mem_flatMap.mp listed
    rw [TypeScript.Context.import?, TypeScript.Context.import?,
      shares.declared?_eq file ((each m inside).2 name there).common]
    rfl
  have messages : (index.messagesIn file).map (index.declarer file).messageText =
      (other.messagesIn file).map (other.declarer file).messageText := by
    rw [← shares.messagesIn_eq sees]
    exact List.map_congr_left fun m inside =>
      shares.messageText_eq file (shares.common_of_messagesIn sees inside).1
        (shares.common_of_messagesIn sees inside).2
  rw [TypeScript.text?, TypeScript.text?, shares.enumsIn_eq sees]
  split
  · rfl
  · change some (_ ++ String.join (((other.enumsIn file).map TypeScript.Context.enumText ++
      (index.messagesIn file).map (index.declarer file).messageText).map _)) = _
    rw [messages]
    change some (_ ++ (if (TypeScript.importLines (index.declarer file).imports).isEmpty then "" else "\n")
      ++ String.join (TypeScript.importLines (index.declarer file).imports) ++ _) = _
    rw [imports]
    rfl

end Declarations

section Components

variable (package : String)

theorem componentName_eq {name : String} (known : common (bareName name)) :
    (index.context package).componentName name = (other.context package).componentName name := by
  change index.componentName package name = other.componentName package name
  rw [Index.componentName, Index.componentName, shares.message?_eq known, shares.enum?_eq known]

section Members

variable {member : Member} (within : member.field.Within common)

include within

theorem elementSchema_eq :
    (index.context package).elementSchema member = (other.context package).elementSchema member := by
  rw [OpenApi.Context.elementSchema, OpenApi.Context.elementSchema]
  have named {name : String} (refers : member.field.RefersTo name) :
      (index.context package).referenceTo name = (other.context package).referenceTo name := by
    rw [OpenApi.Context.referenceTo, OpenApi.Context.referenceTo,
      shares.componentName_eq package (shares.sees_of_within within refers).common]
  cases typed : member.field.type with
  | scalar => rfl
  | enum name =>
    dsimp only
    rw [named (.inr (by rw [Field.enum?, typed]; rfl))]
  | message name =>
    dsimp only
    rw [named (.inl (by rw [Field.message?, typed]; rfl))]

theorem unwrappedMember_eq : (index.context package).unwrapped? member = (other.context package).unwrapped? member ∧
    ∀ inner, (index.context package).unwrapped? member = some (some inner) → inner.field.Within common := by
  simp only [OpenApi.Context.unwrapped?, context]
  split
  · cases member.unwrappedKey? with
    | none => simp only [Option.map_none, reduceCtorEq, false_imp_iff, implies_true, and_self]
    | some key =>
      simp only [Option.map_some, Option.some.injEq]
      exact shares.unwrappedList?_eq within key
  · simp only [reduceCtorEq, false_imp_iff, implies_true, and_self]

theorem memberSchema_eq :
    (index.context package).memberSchema member = (other.context package).memberSchema member := by
  obtain ⟨same, inner_within⟩ := shares.unwrappedMember_eq package within
  rw [OpenApi.Context.memberSchema, OpenApi.Context.memberSchema, ← same, shares.elementSchema_eq package within]
  rcases given : (index.context package).unwrapped? member with _ | _ | inner
  · rfl
  · rfl
  · dsimp only
    rw [shares.elementSchema_eq package (inner_within inner given)]

theorem propertySchema_eq :
    (index.context package).propertySchema member = (other.context package).propertySchema member := by
  rw [OpenApi.Context.propertySchema, OpenApi.Context.propertySchema, shares.memberSchema_eq package within]

theorem memberReference?_eq :
    (index.context package).memberReference? member = (other.context package).memberReference? member ∧
      ∀ name, (index.context package).memberReference? member = some name → bareName name = name ∧ common name := by
  obtain ⟨same, inner_within⟩ := shares.unwrappedMember_eq package within
  have bare {member : Member} (within : member.field.Within common) {name : String}
      (refers : OpenApi.Context.elementReference? member = some name) : bareName name = name ∧ common name :=
    within name (OpenApi.type_of_elementReference? refers)
  rw [OpenApi.Context.memberReference?, OpenApi.Context.memberReference?, ← same]
  rcases given : (index.context package).unwrapped? member with _ | _ | inner
  · exact ⟨rfl, fun name refers => bare within refers⟩
  · exact ⟨rfl, fun _ never => by cases never⟩
  · exact ⟨rfl, fun name refers => bare (inner_within inner given) refers⟩

end Members

theorem add_eq {p : Property} (among : p.Among (Field.Within common)) (o : OpenApi.Object) :
    OpenApi.Object.add (index.context package) o p = OpenApi.Object.add (other.context package) o p := by
  induction among generalizing o with
  | discriminator => rfl
  | own key role within =>
    cases role with
    | plain => rw [OpenApi.Object.add, OpenApi.Object.add, shares.propertySchema_eq package within]
    | variant => rw [OpenApi.Object.add, OpenApi.Object.add, shares.memberSchema_eq package within]
    | stray => rfl
  | lifted _ ih =>
    rw [OpenApi.Object.add, OpenApi.Object.add, OpenApi.Object.addAll_eq, OpenApi.Object.addAll_eq,
      List.foldl_ext _ _ _ fun o p inside => ih p inside o]

theorem references_eq {p : Property} (among : p.Among (Field.Within common)) :
    OpenApi.propertyReferences (index.context package) p = OpenApi.propertyReferences (other.context package) p ∧
      ∀ name ∈ OpenApi.propertyReferences (index.context package) p, bareName name = name ∧ common name := by
  induction among with
  | discriminator => exact ⟨rfl, fun _ never => absurd never List.not_mem_nil⟩
  | @own key role member within =>
    obtain ⟨same, bare⟩ := shares.memberReference?_eq package within
    cases role with
    | stray => exact ⟨rfl, fun _ never => absurd never List.not_mem_nil⟩
    | _ =>
      rw [OpenApi.propertyReferences, OpenApi.propertyReferences, ← same]
      · exact ⟨rfl, fun name listed => bare name (Option.mem_toList.mp listed)⟩
      all_goals intro never; cases never
  | lifted _ ih =>
    rw [OpenApi.propertyReferences, OpenApi.propertyReferences, OpenApi.ofList_eq, OpenApi.ofList_eq]
    refine ⟨List.flatMap_congr fun p inside => (ih p inside).1, fun name listed => ?_⟩
    obtain ⟨p, inside, there⟩ := List.mem_flatMap.mp listed
    exact (ih p inside).2 name there

section Messages

variable {m : Message} (known : common (bareName m.fullName)) (found : index.message? m.fullName = some m)

include known found

theorem messageSchema_eq : (index.context package).messageSchema m = (other.context package).messageSchema m := by
  obtain ⟨same, among⟩ := shares.ofMessage_eq known found
  rw [OpenApi.Context.messageSchema, OpenApi.Context.messageSchema]
  rcases form : Interface.ofMessage index index.plans m with member | properties
  · rw [form] at same among
    cases among with
    | single within =>
      rw [show Interface.ofMessage (index.context package).index (index.context package).plans m = _ from form,
        show Interface.ofMessage (other.context package).index (other.context package).plans m = _ from same.symm]
      exact shares.memberSchema_eq package within
  · rw [form] at same among
    cases among with
    | object each =>
      rw [show Interface.ofMessage (index.context package).index (index.context package).plans m = _ from form,
        show Interface.ofMessage (other.context package).index (other.context package).plans m = _ from same.symm]
      dsimp only
      rw [OpenApi.Object.ofProperties, OpenApi.Object.ofProperties,
        List.foldl_ext _ _ _ fun o p inside => shares.add_eq package (each p inside) o]

theorem schemaReferences_eq :
    (index.context package).messageReferences m = (other.context package).messageReferences m ∧
      ∀ name ∈ (index.context package).messageReferences m, bareName name = name ∧ common name := by
  obtain ⟨same, among⟩ := shares.ofMessage_eq known found
  rw [OpenApi.Context.messageReferences, OpenApi.Context.messageReferences]
  rcases form : Interface.ofMessage index index.plans m with member | properties
  · rw [form] at same among
    cases among with
    | single within =>
      rw [show Interface.ofMessage (index.context package).index (index.context package).plans m = _ from form,
        show Interface.ofMessage (other.context package).index (other.context package).plans m = _ from same.symm]
      obtain ⟨same, bare⟩ := shares.memberReference?_eq package within
      exact ⟨congrArg Option.toList same, fun name listed => bare name (Option.mem_toList.mp listed)⟩
  · rw [form] at same among
    cases among with
    | object each =>
      rw [show Interface.ofMessage (index.context package).index (index.context package).plans m = _ from form,
        show Interface.ofMessage (other.context package).index (other.context package).plans m = _ from same.symm]
      refine ⟨List.flatMap_congr fun p inside => (shares.references_eq package (each p inside)).1,
        fun name listed => ?_⟩
      obtain ⟨p, inside, there⟩ := List.mem_flatMap.mp listed
      exact (shares.references_eq package (each p inside)).2 name there

end Messages

section Types

variable {name : String} (known : common (bareName name))

include known

theorem typeSchema?_eq : (index.context package).typeSchema? name = (other.context package).typeSchema? name := by
  rw [OpenApi.Context.typeSchema?, OpenApi.Context.typeSchema?,
    show (other.context package).index.message? name = index.message? name from (shares.message?_eq known).symm,
    show (other.context package).index.enum? name = index.enum? name from (shares.enum?_eq known).symm]
  cases found : index.message? name with
  | none => rw [show (index.context package).index.message? name = none from found]; rfl
  | some m =>
    obtain ⟨known, itself⟩ := shares.common_fullName known found
    rw [show (index.context package).index.message? name = some m from found]
    dsimp only
    rw [shares.messageSchema_eq package known itself]

theorem typeReferences_eq :
    (index.context package).typeReferences name = (other.context package).typeReferences name ∧
      ∀ later ∈ (index.context package).typeReferences name, bareName later = later ∧ common later := by
  rw [OpenApi.Context.typeReferences, OpenApi.Context.typeReferences,
    show (other.context package).index.message? name = index.message? name from (shares.message?_eq known).symm]
  cases found : index.message? name with
  | none =>
    rw [show (index.context package).index.message? name = none from found]
    exact ⟨rfl, fun _ never => nomatch never⟩
  | some m =>
    obtain ⟨known, itself⟩ := shares.common_fullName known found
    rw [show (index.context package).index.message? name = some m from found]
    exact shares.schemaReferences_eq package known itself

end Types

section Files

variable {file : File} (sees : SeesAll index other common file)

include sees

theorem typesOf_eq : (index.context package).typesOf file = (other.context package).typesOf file ∧
    ∀ name ∈ (index.context package).typesOf file, Sees index other common name := by
  have only (rest more : List String) (name : String) (inside : name ∈ rest ++ more) : name ∈ rest ∨ name ∈ more :=
    List.mem_append.mp inside
  have leads (name : String) (seen : Sees index other common name) :
      ∀ later ∈ (index.context package).typeReferences name, Sees index other common later :=
    fun later refers => shares.sees_of_bare ((shares.typeReferences_eq package seen.common).2 later refers)
  refine ⟨?_, Reach.walk_sound (P := Sees index other common) only leads sees⟩
  refine Reach.walk_agree (P := Sees index other common) only leads Nat.le.refl Nat.le.refl (nodup_eraseDups _)
    (nodup_eraseDups _) (fun name seen => ?_)
    (fun name seen => (shares.typeReferences_eq package seen.common).1) sees
  have keys : name ∈ (index.context package).known ↔ name ∈ (other.context package).known := by
    rw [OpenApi.Context.mem_known, OpenApi.Context.mem_known]
    simp only [context, seen.message, seen.enum]
  exact OpenApi.Context.mem_ahead.trans ((or_congr_left keys).trans OpenApi.Context.mem_ahead.symm)

theorem ofFile?_eq : OpenApi.Document.ofFile? index index.plans file =
    OpenApi.Document.ofFile? other other.plans file := by
  obtain ⟨same, seen⟩ := shares.typesOf_eq file.package sees
  have components : ((index.context file.package).typesOf file).filterMap (fun name =>
      ((index.context file.package).typeSchema? name).map fun schema =>
        ((index.context file.package).componentName name, schema)) =
      ((other.context file.package).typesOf file).filterMap fun name =>
        ((other.context file.package).typeSchema? name).map fun schema =>
          ((other.context file.package).componentName name, schema) := by
    rw [← same]
    refine List.filterMap_congr fun name inside => ?_
    rw [shares.typeSchema?_eq file.package (seen name inside).common,
      shares.componentName_eq file.package (seen name inside).common]
  rw [OpenApi.Document.ofFile?, OpenApi.Document.ofFile?]
  split
  · rfl
  · exact congrArg (fun entries => some (OpenApi.Document.mk file.name (KeyMap.ofList entries))) components

end Files

end Components

end Shares

def coder (index : Index) (file : File) (pre : String) (aliases : KeyMap String) : GoCode.Context :=
  ⟨index, file, pre, aliases⟩

def Callable (index : Index) (common : String → Prop) (name : String) : Prop :=
  common (bareName name) ∧ ∀ m, index.message? name = some m → m.wellKnown = false

def PlacesAlike (index other : Index) (common : String → Prop) (file : File) : Prop :=
  ∀ name m, common (bareName name) → index.message? name = some m → m.wellKnown = false →
    GoCode.Context.foreignPackage? index file m = GoCode.Context.foreignPackage? other file m

namespace Shares

variable {index other : Index} {common : String → Prop} (shares : index.Shares other common) {file : File}
  (places : PlacesAlike index other common file)

include shares places

section Coded

variable (pre : String) (aliases : KeyMap String) (encode : Bool)

theorem nestedFunction_eq {type : String} (callable : Callable index common type) :
    (index.coder file pre aliases).nestedFunction encode type =
      (other.coder file pre aliases).nestedFunction encode type := by
  rw [GoCode.Context.nestedFunction, GoCode.Context.nestedFunction]
  dsimp only [coder]
  rw [← shares.message?_eq callable.1]
  cases found : index.message? type with
  | none => rfl
  | some m =>
    dsimp only
    rw [places type m callable.1 found (callable.2 m found)]

section Steps

variable {step : Step} (refers : ∀ type, step.transform = .nested type → Callable index common type)

include refers

theorem eachValue_eq : (index.coder file pre aliases).eachValue encode step =
    (other.coder file pre aliases).eachValue encode step := by
  have functions : (index.coder file pre aliases).valueFunction? encode step.transform =
      (other.coder file pre aliases).valueFunction? encode step.transform := by
    cases given : step.transform with
    | nested type =>
      rw [GoCode.Context.valueFunction?, GoCode.Context.valueFunction?,
        shares.nestedFunction_eq places pre aliases encode (refers type given)]
    | _ => rfl
  rw [GoCode.Context.eachValue, GoCode.Context.eachValue, functions]
  rfl

theorem encodeStep_eq : (index.coder file pre aliases).encodeStep step =
    (other.coder file pre aliases).encodeStep step := by
  have each := shares.eachValue_eq places pre aliases true refers
  rw [GoCode.Context.encodeStep, GoCode.Context.encodeStep, each]
  rfl

theorem decodeStep_eq : (index.coder file pre aliases).decodeStep step =
    (other.coder file pre aliases).decodeStep step := by
  have each := shares.eachValue_eq places pre aliases false refers
  rw [GoCode.Context.decodeStep, GoCode.Context.decodeStep, each]
  rfl

end Steps

end Coded

section Plans

variable {m : Message} {plan : Plan} (refers : ∀ type ∈ plan.nestedMessages, Callable index common type)

include refers

theorem messageCode_eq (pre : String) (aliases : KeyMap String) :
    (index.coder file pre aliases).messageCode m plan = (other.coder file pre aliases).messageCode m plan := by
  have inside (step : Step) (listed : step ∈ plan.steps) (type : String) (given : step.transform = .nested type) :
      Callable index common type :=
    refers type (List.mem_filterMap.mpr ⟨step, listed, by rw [given]⟩)
  have encoded : (plan.steps.takeWhile (!·.transform.isRootUnwrap)).map (index.coder file pre aliases).encodeStep =
      (plan.steps.takeWhile (!·.transform.isRootUnwrap)).map (other.coder file pre aliases).encodeStep :=
    List.map_congr_left fun step listed => shares.encodeStep_eq places pre aliases
      (inside step ((List.takeWhile_sublist _).subset listed))
  have decoded : plan.steps.reverse.map (index.coder file pre aliases).decodeStep =
      plan.steps.reverse.map (other.coder file pre aliases).decodeStep :=
    List.map_congr_left fun step listed => shares.decodeStep_eq places pre aliases
      (inside step (List.mem_reverse.mp listed))
  rw [GoCode.Context.messageCode, GoCode.Context.messageCode, GoCode.Context.encodeFunction,
    GoCode.Context.encodeFunction, GoCode.Context.decodeFunction, GoCode.Context.decodeFunction, encoded, decoded]
  rfl

end Plans

variable (sees : SeesAll index other common file)

include sees

omit places in
theorem planned_of_file_eq : GoCode.planned index index.plans file = GoCode.planned other other.plans file := by
  rw [GoCode.planned, GoCode.planned, ← shares.messagesIn_eq sees]
  refine List.filterMap_congr fun m inside => ?_
  rw [shares.plan?_eq (shares.common_of_messagesIn sees inside).1]

omit places in
theorem callable_of_nested {m : Message} {plan : Plan} (inside : (m, plan) ∈ GoCode.planned index index.plans file)
    {type : String} (nested : type ∈ plan.nestedMessages) : Callable index common type := by
  obtain ⟨m', listed, given⟩ := List.mem_filterMap.mp inside
  obtain ⟨plan', planned, same⟩ := Option.map_eq_some_iff.mp given
  cases same
  obtain ⟨known, found⟩ := shares.common_of_messagesIn sees listed
  rw [steps_of_plan shares.keyed found planned] at nested
  obtain ⟨f, holder, typed, below⟩ := nested_of_planOf nested
  refine ⟨shares.common_of_type known found holder typed, fun child there => ?_⟩
  refine wellKnown_of_planned shares.keyed there ?_
  rw [shares.keyed.named _ child there, (shares.keyed.wellFormed _ _ found).typeName f holder type typed]
  exact List.contains_iff_mem.mp below

theorem code?_eq (banner package : String) : GoCode.text? index index.plans banner package file =
    GoCode.text? other other.plans banner package file := by
  have called : GoCode.calledPackages index file (GoCode.planned index index.plans file) =
      GoCode.calledPackages other file (GoCode.planned index index.plans file) := by
    refine List.flatMap_congr fun entry inside => List.filterMap_congr fun name nested => ?_
    have callable := shares.callable_of_nested sees inside nested
    rw [← shares.message?_eq callable.1]
    cases found : index.message? name with
    | none => rfl
    | some target =>
      rw [Option.bind_some, Option.bind_some]
      exact places name target callable.1 found (callable.2 target found)
  have bodies (pre : String) (aliases : KeyMap String) : (GoCode.planned index index.plans file).map
        (fun entry => (index.coder file pre aliases).messageCode entry.1 entry.2) =
      (GoCode.planned index index.plans file).map
        fun entry => (other.coder file pre aliases).messageCode entry.1 entry.2 :=
    List.map_congr_left fun entry inside => shares.messageCode_eq places
      (fun type nested => shares.callable_of_nested sees inside nested) pre aliases
  rw [GoCode.text?, GoCode.text?, ← shares.planned_of_file_eq sees, ← called]
  split
  · rfl
  · have := bodies ("wire" ++ Text.pascalCase file.stem)
      (GoCode.Aliases.ofPackages (GoCode.calledPackages index file (GoCode.planned index index.plans file)))
    dsimp only [coder] at this ⊢
    rw [this]

theorem render_eq (target : Target) (settings : Settings) : Emit.render target index index.plans settings file =
    Emit.render target other other.plans settings file := by
  cases target with
  | goServer | goClient =>
    rw [Emit.render, Emit.render, shares.code?_eq places sees]
  | typeScript => rw [Emit.render, Emit.render, shares.text?_eq Emit.banner sees]
  | openApi => rw [Emit.render, Emit.render, shares.ofFile?_eq sees]

end Shares

end Wireform.Index
