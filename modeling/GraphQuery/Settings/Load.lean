import GraphQuery.Settings.Basic
import GraphQuery.Yaml.Document

namespace GraphQuery

inductive DecodeFault where
  | notText (place : Text) (value : Yaml.Value)
  | notTruth (place : Text) (value : Text)
  | noTruth (place : Text) (value : Yaml.Value)
  | notGroup (place : Text) (value : Yaml.Value)

namespace DecodeFault

def message : DecodeFault → Text
  | notText place value =>
    "'" ++ place ++ "' expected type 'string', got unconvertible type '" ++ value.typeName ++
      "', value: '" ++ value.render ++ "'"
  | notTruth place value =>
    "cannot parse '" ++ place ++ "' as bool: strconv.ParseBool: parsing " ++ Text.quote value ++
      ": invalid syntax"
  | noTruth place value =>
    "'" ++ place ++ "' expected type '%!s(bool=false)', got unconvertible type '" ++
      value.literal ++ "', value: '" ++ value.literal ++ "'"
  | notGroup place value => "'" ++ place ++ "' expected a map, got '" ++ value.kindName ++ "'"

end DecodeFault

inductive SettingsError where
  | unreadable (path cause : Text)
  | undecodable (faults : List DecodeFault)
  | invalid (faults : List SettingsFault)

def SettingsError.message : SettingsError → Text
  | unreadable path cause => "reading config " ++ path ++ ": " ++ cause
  | undecodable faults =>
    "unmarshalling config: decoding failed due to the following error(s):\n\n" ++
      Text.join "\n" (faults.map DecodeFault.message)
  | invalid faults =>
    "validating config: " ++ Text.join "\n" (faults.map SettingsFault.message)

def SettingsError.failure (e : SettingsError) : Failure := .of .configInvalid e.message

namespace Settings

def variableStart : Text := "JANUS_SPARQL_"

/-- The variable of a key, whose parts are divided by points. -/
def variableOf (key : Text) : Text :=
  variableStart ++ key.map fun b => if b = '.'.toUInt8 then '_'.toUInt8 else Text.upperByte b

def variableNames : List Text :=
  (["graphs", "catalog", "compile"] : List String).map (variableOf ∘ Text.ofString) ++
    [SettingKey.fallback, .typeModel, .defaultGraphs, .namedGraphs, .catalogPath,
      .annotate].map (variableOf ∘ SettingKey.text)

/-- Where settings are looked up: the environment, in which a variable that is not set is empty, and
the entries of a document, whose keys are in small letters. -/
structure Sources where
  environment : Text → Text := fun _ => []
  document : List (Text × Yaml.Value) := []

def lookup (key : Text) (entries : List (Text × Yaml.Value)) : Option Yaml.Value :=
  match (entries.find? (·.1 = key)).map Prod.snd with
  | none | some .null => none
  | some d => some d

inductive Group where
  /-- Its keys have values of their own. -/
  | entries (es : List (Text × Yaml.Value))
  /-- It is there and empty, which hides the environment of its keys. -/
  | blank
  /-- It is a point in time, which has no keys. -/
  | keyless
  /-- It has a value itself, which hides its keys. -/
  | value (d : Yaml.Value)

def Sources.group (s : Sources) (name : Text) : Group :=
  let own : Yaml.Value := .text (s.environment (variableOf name))
  let isSet := !(s.environment (variableOf name)).isEmpty
  match (s.document.find? (·.1 = name)).map Prod.snd with
  | none => .entries []
  | some (.map es) => .entries es
  | some .null => if isSet then .value own else .blank
  | some (.time _) => if isSet then .value own else .keyless
  | some d => .value (if isSet then own else d)

/-- What is said about a key. -/
inductive Found where
  | unset
  /-- The group has a value in which the key has none. -/
  | hidden
  | value (d : Yaml.Value)

def Sources.find (s : Sources) (k : SettingKey) : Found :=
  match s.group k.group with
  | .blank | .value _ => .unset
  | .keyless => .hidden
  | .entries es =>
    let own := s.environment (variableOf k.text)
    if !own.isEmpty then .value (.text own)
    else if !(s.environment (variableOf k.group)).isEmpty then .hidden
    else match (lookup k.text s.document).or (lookup k.name es) with
      | none => .unset
      | some d => .value d

structure Decoded (α : Type) where
  value : α
  faults : List DecodeFault := []

def decodeText (place : Text) (d : Yaml.Value) : Decoded Text :=
  match d with
  | .null => ⟨[], []⟩
  | .text t => ⟨t, []⟩
  | .int i => ⟨Text.ofInt i, []⟩
  | .float x => ⟨x.positional, []⟩
  | .bool b => ⟨if b then "1" else "0", []⟩
  | d => ⟨[], [.notText place d]⟩

def decodeItems (place : Text) (n : Nat) : List Yaml.Value → Decoded (List Text)
  | [] => ⟨[], []⟩
  | d :: rest =>
    let first := decodeText (place ++ "[" ++ Text.ofNat n ++ "]") d
    let others := decodeItems place (n + 1) rest
    ⟨first.value :: others.value, first.faults ++ others.faults⟩

/-- A list, or a text that holds its items between commas, or a single item. -/
def decodeTexts (place : Text) (d : Yaml.Value) : Decoded (List Text) :=
  match d with
  | .text [] => ⟨[], []⟩
  | .text t => ⟨Text.splitAt ','.toUInt8 t, []⟩
  | .list items => decodeItems place 0 items
  | .map [] => ⟨[], []⟩
  | d => decodeItems place 0 [d]

def truth? (t : Text) : Option Bool :=
  if Yaml.oneOf ["1", "t", "T", "true", "TRUE", "True"] t then some true
  else if Yaml.oneOf ["0", "f", "F", "false", "FALSE", "False"] t then some false
  else none

def decodeTruth (place : Text) (d : Yaml.Value) : Decoded Bool :=
  match d with
  | .null => ⟨false, []⟩
  | .bool b => ⟨b, []⟩
  | .int i => ⟨i ≠ 0, []⟩
  | .float x => ⟨!x.isZero, []⟩
  | .text t =>
    match truth? t with
    | some b => ⟨b, []⟩
    | none => ⟨false, if t.isEmpty then [] else [.notTruth place t]⟩
  | d => ⟨false, [.noTruth place d]⟩

def Sources.get {α : Type} (s : Sources) (k : SettingKey) (usual zero : α)
    (decode : Text → Yaml.Value → Decoded α) : Decoded α :=
  match s.find k with
  | .unset => ⟨usual, []⟩
  | .hidden => ⟨zero, []⟩
  | .value d => decode k.text d

def Sources.groupFaults (s : Sources) (name : Text) : List DecodeFault :=
  match s.group name with
  | .value d => [.notGroup name d]
  | _ => []

def decode (s : Sources) : Except SettingsError Settings :=
  let usual : Settings := {}
  let fallback := s.get .fallback usual.fallback [] decodeText
  let typeModel := s.get .typeModel usual.typeModel [] decodeText
  let defaults := s.get .defaultGraphs [] [] decodeTexts
  let named := s.get .namedGraphs [] [] decodeTexts
  let path := s.get .catalogPath usual.catalogPath [] decodeText
  let annotate := s.get .annotate usual.annotate false decodeTruth
  let faults := s.groupFaults "graphs" ++ fallback.faults ++ typeModel.faults ++
    defaults.faults ++ named.faults ++ s.groupFaults "catalog" ++ path.faults ++
    s.groupFaults "compile" ++ annotate.faults
  if faults.isEmpty then
    .ok { fallback := fallback.value, typeModel := typeModel.value, defaultGraphs := defaults.value,
          namedGraphs := named.value, catalogPath := path.value, annotate := annotate.value }
  else .error (.undecodable faults)

structure File where
  path : Text
  content : Except Text Text

def extension (path : Text) : Text :=
  let last := (path.reverse.takeWhile (· ≠ '/'.toUInt8))
  if last.contains '.'.toUInt8 then (last.takeWhile (· ≠ '.'.toUInt8)).reverse else []

def File.entries (f : File) : Except SettingsError (List (Text × Yaml.Value)) :=
  if !Yaml.oneOf ["yaml", "yml"] (extension f.path) then
    .error (.unreadable f.path ("Unsupported Config Type " ++ Text.quote (extension f.path)))
  else match f.content with
    | .error cause => .error (.unreadable f.path cause)
    | .ok content =>
      match Yaml.read content with
      | .error e => .error (.unreadable f.path ("While parsing config: " ++ e.message))
      | .ok es => .ok (Yaml.Value.lowerEntries es)

/-- The settings of an environment and, if there is one, of a file; only valid settings are
given. -/
def load (environment : Text → Text) (file : Option File) : Except SettingsError Settings := do
  let document ← match file with
    | none => pure []
    | some f => f.entries
  let s ← decode { environment, document }
  if s.faults.isEmpty then return s else throw (.invalid s.faults)

end Settings

end GraphQuery
