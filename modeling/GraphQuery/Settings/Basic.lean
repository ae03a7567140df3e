import GraphQuery.Command.Dataset
import GraphQuery.Text.Utf8
import GraphQuery.Text.Quoted

namespace GraphQuery

inductive SettingKey where
  | fallback
  | typeModel
  | defaultGraphs
  | namedGraphs
  | catalogPath
  | annotate
deriving DecidableEq

namespace SettingKey

def group : SettingKey → Text
  | fallback | typeModel | defaultGraphs | namedGraphs => "graphs"
  | catalogPath => "catalog"
  | annotate => "compile"

def name : SettingKey → Text
  | fallback => "fallback_default"
  | typeModel => "type_model"
  | defaultGraphs => "default"
  | namedGraphs => "named"
  | catalogPath => "path"
  | annotate => "annotate"

def text (k : SettingKey) : Text := k.group ++ "." ++ k.name

end SettingKey

structure Settings where
  fallback : Text := Vocabulary.defaultGraph
  typeModel : Text := Vocabulary.typeGraph
  defaultGraphs : List Text := []
  namedGraphs : List Text := []
  /-- Where the catalog is kept; there is none if this is empty. -/
  catalogPath : Text := []
  annotate : Bool := false

inductive SettingsFault where
  | noGraph (key : SettingKey)
  | emptyIri (key : SettingKey)
  | invalidIri (key : SettingKey) (iri : Text)

def SettingsFault.message : SettingsFault → Text
  | noGraph key => "config: " ++ key.text ++ " must not be empty"
  | emptyIri key => "config: " ++ key.text ++ " must not contain empty IRIs"
  | invalidIri key iri =>
    "config: " ++ key.text ++ " contains an invalid IRI " ++ Text.quote iri

def SettingsFault.failure (f : SettingsFault) : Failure := .of .configInvalid f.message

namespace Settings

/-- The characters that do not stand between angle brackets. -/
def forbiddenBytes : Text := "<>\"\x7b\x7d|^\x60\\"

def isIriText (t : Text) : Bool :=
  !t.any forbiddenBytes.contains && !(Text.pieces t).any Text.Piece.isBlank

def checkIri (key : SettingKey) (iri : Text) : Option SettingsFault :=
  if iri.isEmpty then some (.emptyIri key)
  else if isIriText iri then none
  else some (.invalidIri key iri)

def checkGraph (key : SettingKey) (iri : Text) : Option SettingsFault :=
  if iri.isEmpty then some (.noGraph key) else checkIri key iri

def faults (s : Settings) : List SettingsFault :=
  (checkGraph .fallback s.fallback).toList ++ (checkGraph .typeModel s.typeModel).toList ++
    s.defaultGraphs.filterMap (checkIri .defaultGraphs) ++
    s.namedGraphs.filterMap (checkIri .namedGraphs)

def options (s : Settings) : Options :=
  { defaultGraphs := s.defaultGraphs, namedGraphs := s.namedGraphs, fallback := s.fallback,
    typeModel := s.typeModel }

end Settings

end GraphQuery
