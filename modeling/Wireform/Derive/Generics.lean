import Wireform.Derive.TypeExpr

/-!
# Generic parameters

The parameters of an item, of the lifetimes and types that `for` introduces in a bound, and of
functions.  What an item declares is repeated by an implementation for it in two forms: where the
implementation declares the parameters, and where it names the item's type.
-/
namespace Wireform.Derive

/-- What a parameter is. -/
inductive ParamKind where
  | lifetime (bounds : List Token)
  | type (bounds : List Token)
  | const (type : List Token)
  deriving DecidableEq, Repr

/-- A generic parameter; `default` is what stands behind the equals sign, if there is one. -/
structure GenericParam where
  attributes : List Token
  name : String
  kind : ParamKind
  default : List Token
  deriving DecidableEq, Repr

namespace GenericParam

/-- Whether a parameter is a lifetime. -/
def isLifetime (param : GenericParam) : Bool :=
  match param.kind with
  | .lifetime _ => true
  | _ => false

/-- Bounds behind a colon, if there are any. -/
def boundTokens (bounds : List Token) : List Token :=
  if bounds.isEmpty then [] else .mark ':' :: bounds

/-- A parameter where it is used. -/
def used (param : GenericParam) : List Token :=
  if param.isLifetime then lifetimeTokens param.name else [.word param.name]

/-- A parameter where an implementation declares it; a default is not repeated there. -/
def declared (param : GenericParam) : List Token :=
  match param.kind with
  | .lifetime bounds => param.attributes ++ param.used ++ boundTokens bounds
  | .type bounds => param.attributes ++ param.used ++ boundTokens bounds
  | .const constType =>
    param.attributes ++ .word "const" :: param.used ++ .mark ':' :: constType

/-- A parameter as the source has it. -/
def tokens (param : GenericParam) : List Token :=
  param.declared ++ (if param.default.isEmpty then [] else .mark '=' :: param.default)

end GenericParam

/-- Generic parameters in their order; `trailing` if a comma stands behind the last one. -/
structure Generics where
  params : List GenericParam
  trailing : Bool
  deriving DecidableEq, Repr

namespace Generics

/-- No parameters. -/
def empty : Generics := ⟨[], false⟩

/-- The parameters between angle brackets, if there are any, lifetimes first. -/
def tokens (form : GenericParam → List Token) (generics : Generics) : List Token :=
  if generics.params.isEmpty then []
  else
    lifetimesFirst generics.trailing
      (generics.params.map fun param => (param.isLifetime, form param))

/-- The names of the parameters between angle brackets, lifetimes first. -/
def captured (generics : Generics) : List Token :=
  lifetimesFirst generics.trailing
    (generics.params.map fun param => (param.isLifetime, param.used))

/-- The parameters between angle brackets, in their order. -/
def inOrder (generics : Generics) : List Token :=
  angled (separatedBy ',' generics.trailing (generics.params.map GenericParam.tokens))

end Generics

end Wireform.Derive
