import HeadlessErp.Entity.FieldSelection

/-!
# The collections a read depends on

`readDependencies` of `apps/api/src/lib/services/collection-query.service.ts`: the collections whose
rows a read embeds, or nothing where they cannot be bounded.
-/

namespace HeadlessErp

section
variable {N : Type}

/-- `MAX_DEPENDENCY_DEPTH`. -/
def maxDependencyDepth : Nat := 3

/-- `EMBEDDED_RELATION_TYPES`. -/
def FieldType.isEmbedded : FieldType → Bool
  | .m2o | .o2m | .m2m | .m2a | .table => true
  | _ => false

/-- `deps.add`. -/
def addDependency (deps : List String) (slug : String) : List String :=
  if slug ∈ deps then deps else deps ++ [slug]

/-- The declared targets of an `m2a` field. -/
def FieldDefinition.m2aTargets (f : FieldDefinition N) : List String :=
  f.relatedCollections.getD (f.relatedCollection.toList.filter (· != ""))

/-- `visit`: what a name adds. `walk` goes through a related collection. -/
def visitDependency (collections : String → Option (List (FieldDefinition N)))
    (walk : List (FieldDefinition N) → FieldSelection → List String → Option (List String))
    (fields : List (FieldDefinition N)) (deps : List String) (name : String)
    (child : Option FieldSelection) : Option (List String) :=
  match fieldByName fields name with
  | none => some deps
  | some f =>
    if f.type = .formula then if f.store then some deps else none
    else if !f.type.isEmbedded then some deps
    else if f.type = .m2a then
      if f.m2aTargets.isEmpty then none else some (f.m2aTargets.foldl addDependency deps)
    else
      match f.relatedCollection.filter (· != "") with
      | none => none
      | some target =>
        match child.filter fun child => child.recurses || child.all with
        | none => some (addDependency deps target)
        | some child =>
          match collections target with
          | none => none
          | some fields => walk fields child (addDependency deps target)

/-- `collectDependencies`, which may go `hops - 1` relations further. -/
def collectDependencies (collections : String → Option (List (FieldDefinition N))) :
    Nat → List (FieldDefinition N) → FieldSelection → List String → Option (List String)
  | 0, _, _, _ => none
  | hops + 1, fields, selection, deps =>
    if selection.all && fields.any FieldDefinition.isVirtualFormula then none
    else do
      let visit := visitDependency collections (collectDependencies collections hops) fields
      let deps ← selection.relations.foldlM (fun deps (name, child) => visit deps name (some child))
        deps
      let deps ← selection.columns.foldlM (fun deps name => visit deps name none) deps
      if 0 < selection.expandDepth then
        (fields.filter fun f => f.type.isEmbedded || f.type = .formula).foldlM
          (fun deps f => visit deps f.name (if 1 < selection.expandDepth then
            some (.wildcard (selection.expandDepth - 1)) else none)) deps
      else some deps

/-- `readDependencies`: nothing is embedded by default. -/
def readDependencies (collections : String → Option (List (FieldDefinition N)))
    (fields : List (FieldDefinition N)) : Option FieldSelection → Option (List String)
  | none => some []
  | some selection => collectDependencies collections (maxDependencyDepth + 1) fields selection []

end

end HeadlessErp
