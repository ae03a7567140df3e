import GraphQuery.Plan.Transform
import GraphQuery.Query.Basic
import GraphQuery.Trace.Step

namespace GraphQuery

inductive CompileFault where
  | missingQuery
  | unsupportedKind (kind : QueryKind)
  | missingWhere (kind : QueryKind)
  | emptySelection
  | notProjectable (e : Expression)
  | templateLength (positions : Nat)
  | templateElement (e : Expression)
  | nothingDescribed
  | notDescribable (e : Expression)
  | notOrderable (e : Expression)
  | meaning (cause : MeaningFault)
  | transform (cause : Plan.TransformError)
  | catalog (cause : Failure)

def CompileFault.failure : CompileFault → Failure
  | missingQuery => .of .invalidQuery "missing query"
  | unsupportedKind kind =>
    .of .unsupportedOperation "unsupported query kind" [("kind", .text kind.name)]
  | missingWhere kind =>
    .of .missingWhere (kind.name ++ " query requires a WHERE clause") [("kind", .text kind.name)]
  | emptySelection => .of .invalidQuery "SELECT projects nothing"
  | notProjectable e =>
    .of .illegalSelectionElement "SELECT may only project variables" [e.field, e.variantField]
  | templateLength n =>
    .of .malformedTemplate
      ("construct template has " ++ Text.ofNat n ++ " positions, not a multiple of three")
      [("positions", .int n)]
  | templateElement e =>
    .of .illegalTemplateElement "illegal construct template element" [e.field, e.variantField]
  | nothingDescribed => .of .invalidQuery "DESCRIBE names nothing to describe"
  | notDescribable e =>
    .of .illegalSelectionElement "DESCRIBE takes variables and IRIs" [e.field, e.variantField]
  | notOrderable e =>
    .of .unsupportedOrder "ORDER BY key must be a variable" [e.field, e.variantField]
  | meaning cause => cause.failure
  | transform cause => cause.failure
  | catalog cause => cause

structure Traced (α : Type) where
  steps : List Step
  result : Except CompileFault α

namespace Traced

def bind {α β : Type} (x : Traced α) (f : α → Traced β) : Traced β :=
  match x.result with
  | .error e => ⟨x.steps, .error e⟩
  | .ok a => ⟨x.steps ++ (f a).steps, (f a).result⟩

instance : Monad Traced where
  pure a := ⟨[], .ok a⟩
  bind := bind

def report (s : Step) : Traced Unit := ⟨[s], .ok ()⟩

def ofExcept {α : Type} (x : Except CompileFault α) : Traced α := ⟨[], x⟩

def fail {α : Type} (e : CompileFault) : Traced α := ⟨[], .error e⟩

end Traced

end GraphQuery
