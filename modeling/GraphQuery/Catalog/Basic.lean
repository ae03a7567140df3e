import GraphQuery.Command.Dataset
import GraphQuery.Failure

namespace GraphQuery

structure StoreError where
  cause : Text
  isKeyNotFound : Bool := false

/-- What a scan finds; copying the value may fail. -/
structure Item where
  key : Text
  value : Except StoreError Text

/-- A key-value store, with transactions that run on a state of it. -/
class Store (σ : Type) where
  update : σ → (σ → Except StoreError σ) → Except StoreError σ
  view {α : Type} : σ → (σ → Except StoreError α) → Except StoreError α
  set : σ → Text → Text → Except StoreError σ
  delete : σ → Text → Except StoreError σ
  /-- The items whose keys have a beginning. -/
  scan : σ → Text → List Item
  close : σ → σ

inductive CatalogRequest where
  | open (path : Text)
  | setDefaults
  | readDefaults
  | addNamed (iri : Text)
  | removeNamed (iri : Text)
  | readNamed

structure CatalogError where
  request : CatalogRequest
  cause : Text

def CatalogError.failure (e : CatalogError) : Failure :=
  let wrap (message : Text) (fields : Fields) : Failure :=
    .wrap (.plain e.cause) .catalogFailure message fields
  match e.request with
  | .open path => wrap "failed to open catalog" [("path", .text path)]
  | .setDefaults => wrap "failed to set default graphs" []
  | .readDefaults => wrap "failed to read default graphs" []
  | .addNamed iri => wrap "failed to add named graph" [("graph", .text iri)]
  | .removeNamed iri => wrap "failed to remove named graph" [("graph", .text iri)]
  | .readNamed => wrap "failed to read named graphs" []

structure Catalog (σ : Type) where
  store : σ

namespace Catalog

def defaultStart : Text := "graph/default/"

def namedStart : Text := "graph/named/"

def bigEndian (n : Nat) : Text :=
  [(n / 0x1000000).toUInt8, (n / 0x10000).toUInt8, (n / 0x100).toUInt8, n.toUInt8]

def defaultKey (position : Nat) : Text := defaultStart ++ bigEndian position

def namedKey (iri : Text) : Text := namedStart ++ iri

variable {σ : Type} [Store σ]

def scanKeys (s : σ) (start : Text) : List Text := (Store.scan s start).map Item.key

def updated (c : Catalog σ) (request : CatalogRequest) (transaction : σ → Except StoreError σ) :
    Except CatalogError (Catalog σ) :=
  match Store.update c.store transaction with
  | .error e => .error ⟨request, e.cause⟩
  | .ok s => .ok ⟨s⟩

def viewed {α : Type} (c : Catalog σ) (request : CatalogRequest)
    (transaction : σ → Except StoreError α) : Except CatalogError α :=
  match Store.view c.store transaction with
  | .error e => .error ⟨request, e.cause⟩
  | .ok a => .ok a

def putDefaults (s : σ) (position : Nat) : List Text → Except StoreError σ
  | [] => .ok s
  | iri :: rest => do putDefaults (← Store.set s (defaultKey position) iri) (position + 1) rest

def setDefaults (c : Catalog σ) (iris : List Text) : Except CatalogError (Catalog σ) :=
  c.updated .setDefaults fun s => do
    let cleared ← (scanKeys s defaultStart).foldlM Store.delete s
    putDefaults cleared 0 iris

def defaults (c : Catalog σ) : Except CatalogError (List Text) :=
  c.viewed .readDefaults fun s => (Store.scan s defaultStart).mapM Item.value

def addNamed (c : Catalog σ) (iri : Text) : Except CatalogError (Catalog σ) :=
  c.updated (.addNamed iri) fun s => Store.set s (namedKey iri) []

def removeNamed (c : Catalog σ) (iri : Text) : Except CatalogError (Catalog σ) :=
  c.updated (.removeNamed iri) fun s =>
    match Store.delete s (namedKey iri) with
    | .error e => if e.isKeyNotFound then .ok s else .error e
    | .ok s => .ok s

def named (c : Catalog σ) : Except CatalogError (List Text) :=
  c.viewed .readNamed fun s => .ok ((scanKeys s namedStart).map (Text.trimStart namedStart))

def close (c : Catalog σ) : Catalog σ := ⟨Store.close c.store⟩

def view (c : Catalog σ) : CatalogView :=
  { defaultGraphs := c.defaults.mapError CatalogError.failure
    namedGraphs := c.named.mapError CatalogError.failure }

end Catalog

end GraphQuery
