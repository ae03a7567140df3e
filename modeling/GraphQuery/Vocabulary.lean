import GraphQuery.Text

namespace GraphQuery.Vocabulary

def xsdSpace : Text := "http://www.w3.org/2001/XMLSchema#"

def rdfSpace : Text := "http://www.w3.org/1999/02/22-rdf-syntax-ns#"

def rdfsSpace : Text := "http://www.w3.org/2000/01/rdf-schema#"

def storeSpace : Text := "http://janus-datalog.dev/ns#"

def xsd (name : String) : Text := xsdSpace ++ name

def numericDatatypes : List Text :=
  ["decimal", "float", "double", "integer", "nonPositiveInteger", "negativeInteger", "long", "int",
    "short", "byte", "nonNegativeInteger", "unsignedLong", "unsignedInt", "unsignedShort",
    "unsignedByte", "positiveInteger"].map xsd

def isNumeric (iri : Text) : Bool := iri ∈ numericDatatypes

/-- The datatypes that a function of the same name casts to. -/
def castDatatypes : List Text :=
  ["string", "boolean", "decimal", "float", "double", "integer", "dateTime"].map xsd

def isCast (iri : Text) : Bool := iri ∈ castDatatypes

def isXsd (iri : Text) : Bool := (Text.dropStart? xsdSpace iri).isSome

def spaces : List (Text × Text) :=
  [(xsdSpace, "xsd:"), (rdfSpace, "rdf:"), (rdfsSpace, "rdfs:"), (storeSpace, "janus:")]

def compact (iri : Text) : Text :=
  (spaces.findSome? fun (space, short) => (Text.dropStart? space iri).map (short ++ ·)).getD iri

def rdfType : Text := rdfSpace ++ "type"

def rdfsLiteral : Text := rdfsSpace ++ "Literal"

def uriReference : Text := storeSpace ++ "URIReference"

def defaultGraph : Text := "sys:default"

def typeGraph : Text := "sys:type"

end GraphQuery.Vocabulary
