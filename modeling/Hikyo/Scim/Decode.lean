import Hikyo.Lib.JsonTree
import Hikyo.Lib.Transaction

/-!
# Decoding the provisioning wire

One user document is read three times: into typed fields, as a generic map in which the activity
flag is looked up, and by a walk that refuses names given twice.  `decodeUser` is the reading for
creation and replacement (`scimDesiredUser`), `userObjectCommands` the one of a patch that carries a
whole object (`fullObjectPatch`).
-/

namespace Hikyo.Scim

open Hikyo.Lib

/-- The closed discriminator of a refusal. -/
inductive ScimType
  | invalidPath
  | invalidValue
  | invalidSyntax
deriving DecidableEq

structure Error where
  status : Nat
  scimType : Option ScimType
  detail : String
  args : List String
deriving DecidableEq

def bad (scimType : ScimType) (detail : String) (args : List String) : Error :=
  ⟨400, some scimType, detail, args⟩

def errBodyTooLarge : Error :=
  ⟨413, none, "The request body exceeds this service provider's bound.", []⟩

def bodyBound : Nat := 256 * 1024

def stringBound : Nat := 1024

def nestingBound : Nat := 12

/-- Where the text repeats one exact name, the map has kept the last of them. -/
abbrev Members := List (String × Json)

def checkSeen (seen : List String) (name : String) : Except Error Unit :=
  match seen.find? fun first => asciiLower first == asciiLower name with
  | some first => .error (bad .invalidSyntax
      ("The resource names one attribute twice, as %q and %q; SCIM attribute names are " ++
       "case-insensitive.")
      [first, name])
  | none => .ok ()

/-- The walk stops silently below the bound. -/
def rejectDuplicateKeys : Nat → Json → Except Error Unit
  | left + 1, .object members => do
    let _ ← members.foldlM (fun (seen : List String) mem => do
      checkSeen seen mem.1
      rejectDuplicateKeys left mem.2
      pure (seen ++ [mem.1])) []
    pure ()
  | left + 1, .array items => items.forM (rejectDuplicateKeys left)
  | _, _ => .ok ()

def boundString (name value : String) : Except Error Unit :=
  require (Json.byteLength value ≤ stringBound)
    (bad .invalidValue "The %s attribute exceeds this service provider's length bound." [name])

def join (path key : String) : String := if path = "" then key else path ++ "." ++ key

def orDefault (s fallback : String) : String := if s = "" then fallback else s

def boundStrings : Nat → String → Json → Except Error Unit
  | 0, _, _ =>
    .error (bad .invalidValue "The resource nests more deeply than this service provider accepts."
      [])
  | _ + 1, path, .string text => boundString (orDefault path "attribute") text
  | left + 1, path, .object members =>
    members.forM fun mem => do
      boundString "attribute name" mem.1
      boundStrings left (join path mem.1) mem.2
  | left + 1, path, .array items => items.forM (boundStrings left path)
  | _ + 1, _, _ => .ok ()

def decodeObject (members : Members) : Except Error Unit := do
  require ((Json.object members).size ≤ bodyBound) errBodyTooLarge
  rejectDuplicateKeys (nestingBound + 1) (.object members)

def isSpace (c : Char) : Bool :=
  (9 ≤ c.toNat && c.toNat ≤ 13) || c.toNat == 0x20 || c.toNat == 0x85 || c.toNat == 0xA0 ||
    c.toNat == 0x1680 ||
  (0x2000 ≤ c.toNat && c.toNat ≤ 0x200A) || c.toNat == 0x2028 || c.toNat == 0x2029 ||
    c.toNat == 0x202F ||
  c.toNat == 0x205F || c.toNat == 0x3000

def trimSpace (text : String) : String :=
  String.ofList ((text.toList.dropWhile isSpace).reverse.dropWhile isSpace).reverse

/-- Tolerates the stringified booleans that one provider sends, and nothing else. -/
def normalizeActive : Json → Except Error Bool
  | .bool value => .ok value
  | .string text =>
    if asciiLower (trimSpace text) = "true" then .ok true
    else if asciiLower (trimSpace text) = "false" then .ok false
    else .error (bad .invalidValue "The active attribute must be a boolean." [])
  | _ => .error (bad .invalidValue "The active attribute must be a boolean." [])

section Decoding
variable (F : Folding)

/-! ## The typed fields

A null leaves a field as it is; of several members naming one field the last decides. -/

def isText : Json → Bool
  | .string _ | .null => true
  | _ => false

def isListOf (item : Json → Bool) : Json → Bool
  | .array items => items.all item
  | .null => true
  | _ => false

def hasTextFields (fields : List String) : Json → Bool
  | .object members => members.all fun mem => !(fields.any (F.equal mem.1)) || isText mem.2
  | .null => true
  | _ => false

def wellTyped (mem : String × Json) : Bool :=
  if F.equal mem.1 "schemas" then isListOf isText mem.2
  else if F.equal mem.1 "id" || F.equal mem.1 "externalId" || F.equal mem.1 "userName" then
    isText mem.2
  else if F.equal mem.1 "groups" then isListOf (hasTextFields F ["value", "display", "type"]) mem.2
  else if F.equal mem.1 "meta" then
    hasTextFields F ["resourceType", "created", "lastModified", "location", "version"] mem.2
  else true

def textField (field : String) (members : Members) : String :=
  members.foldl (fun current mem =>
    match mem.2 with
    | .string text => if F.equal mem.1 field then text else current
    | _ => current) ""

/-- The order of the text that is decoded: a serialised map has its names sorted. -/
def inTextOrder (members : Members) : Members := members.insertionSort fun a b => a.1 ≤ b.1

structure User where
  userName : String
  externalID : String
  active : Option Bool
  extra : Members

/-- The flag is looked up under its own spelling. -/
def decodeActive (members : Members) : Except Error (Option Bool) :=
  match members.find? (·.1 == "active") with
  | none => .ok none
  | some mem => some <$> normalizeActive mem.2

def decodeUser (members : Members) : Except Error User := do
  decodeObject members
  require (members.any (fun mem => F.equal mem.1 "password") = false) (bad .invalidValue
    "The password attribute is not supported: provisioning never establishes credentials." [])
  require (members.all (wellTyped F) = true)
    (bad .invalidSyntax "The request body is not a valid User resource." [])
  let active ← decodeActive members
  boundStrings (nestingBound + 1) "" (.object members)
  pure {
    userName := textField F "userName" (inTextOrder members)
    externalID := textField F "externalId" (inTextOrder members)
    active := active
    extra := members }

structure DesiredUser where
  userName : String
  externalID : String
  active : Bool
  attributes : Members

def interpretedAttributes : List String :=
  ["id", "schemas", "meta", "userName", "externalId", "active", "groups", "members",
    "displayName", "password"]

def isInterpretedSCIMAttribute (name : String) : Bool := interpretedAttributes.any (F.equal name)

/-- Everything this server does not interpret is kept as it stands. -/
def scimDisplayAttributes (body : Members) : Members :=
  body.filter fun mem => !isInterpretedSCIMAttribute F mem.1

def scimAttribute (body : Members) (name : String) : Option Json :=
  (body.find? fun mem => F.equal mem.1 name).map (·.2)

/-- An absent flag means active. -/
def scimDesiredDecodedUser (user : User) : DesiredUser where
  userName := user.userName
  externalID := user.externalID
  active := user.active.getD true
  attributes := scimDisplayAttributes F user.extra

def scimDesiredUser (body : Members) : Except Error DesiredUser :=
  scimDesiredDecodedUser F <$> decodeUser F body

inductive UserPatchCommand
  | setUserName (userName : String)
  | setExternalID (externalID : String)
  | setActive (active : Bool)
  | mergeAttributes (attributes : Members)

def mergeCommand (desired : DesiredUser) : List UserPatchCommand :=
  match desired.attributes with
  | [] => []
  | attributes => [.mergeAttributes attributes]

def userObjectCommands (user : User) : Except Error (List UserPatchCommand) := do
  let desired := scimDesiredDecodedUser F user
  let flag ← match scimAttribute F user.extra "active" with
    | none => Except.ok none
    | some value => some <$> normalizeActive value
  pure ((if (scimAttribute F user.extra "userName").isSome then [.setUserName desired.userName]
    else []) ++
    (if (scimAttribute F user.extra "externalId").isSome then [.setExternalID desired.externalID]
      else []) ++
    (flag.map UserPatchCommand.setActive).toList ++
    mergeCommand desired)

inductive PatchVerb
  | add
  | replace

def PatchVerb.text : PatchVerb → String
  | .add => "add"
  | .replace => "replace"

def schemaPatchOp : String := "urn:ietf:params:scim:api:messages:2.0:PatchOp"

/-- A message of one operation that has no path. -/
def patchMessage (verb : PatchVerb) (value : Json) : Json :=
  .object [("Operations", .array [.object [("op", .string verb.text), ("value", value)]]),
    ("schemas", .array [.string schemaPatchOp])]

/-- `scimPatchUserCommands` on such a message: `ParsePatch` bounds the whole of it before its value
is decoded. -/
def fullObjectPatch (verb : PatchVerb) (d : Members) : Except Error (List UserPatchCommand) := do
  require ((patchMessage verb (.object d)).size ≤ bodyBound) errBodyTooLarge
  let user ← decodeUser F d
  userObjectCommands F user

end Decoding

end Hikyo.Scim
